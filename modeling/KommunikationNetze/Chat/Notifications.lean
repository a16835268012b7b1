import KommunikationNetze.Chat.PollThread
import KommunikationNetze.Chat.Broadcast

/-! What a handler enqueues. Every line that is written asks for POLLOUT for its client, and
lines are written to registered clients and to the client of the handler only. -/
namespace KommunikationNetze.Chat
open CLib Utils

/-- All bytes of the block are accounted as filled. -/
def Packed (buffer : Buffer) : Prop := buffer.length = buffer.filled

theorem Packed.empty : Packed .empty := rfl

/-- The update of `ClientWriteLine`. -/
def asksToWrite (world : World) (c : ClientRef) : PollUpdate ClientRef :=
  .addEvents (world.client c).pollDescriptor pollOut

/-- What matters of a client to the poll, whether it has output included. -/
def Client.polled (client : Client) : Int × Bool × PollDescriptor × Nat × Nat :=
  (client.socket, client.socketOpen, client.pollDescriptor, client.outBuffer.length,
    client.outBuffer.filled)

@[simp] theorem writeTargets_append (calls added : List Call) :
    writeTargets (calls ++ added) = writeTargets calls ++ writeTargets added := List.filterMap_append

/-- Lines were written to these clients, in this order, and nothing else was enqueued. -/
structure Notified (targets : List ClientRef) (world after : World) : Prop where
  allocated : after.allocated = world.allocated
  socket : ∀ c, (after.client c).socket = (world.client c).socket
  socketOpen : ∀ c, (after.client c).socketOpen = (world.client c).socketOpen
  pollDescriptor : ∀ c, (after.client c).pollDescriptor = (world.client c).pollDescriptor
  poll : after.poll =
    { world.poll with updateQueue := world.poll.updateQueue ++ targets.map (asksToWrite world) }
  calls : writeTargets after.calls = writeTargets world.calls ++ targets
  others : ∀ c, c ∉ targets →
    (after.client c).outBuffer.filled = (world.client c).outBuffer.filled
  packed : ∀ c, Packed (world.client c).outBuffer → Packed (after.client c).outBuffer

/-- All of those clients have the property. -/
def Notifies (P : ClientRef → Prop) (world after : World) : Prop :=
  ∃ targets, Notified targets world after ∧ ∀ c ∈ targets, P c

namespace Notified
variable {u v w world after : World}

theorem connected (notified : Notified targets world after) (c : ClientRef) :
    after.Connected c ↔ world.Connected c := by
  rw [World.Connected, World.Connected, notified.allocated, notified.socketOpen]

/-- A change that the poll does not see. -/
theorem quiet (allocated : after.allocated = world.allocated)
    (polled : ∀ c, (after.client c).polled = (world.client c).polled)
    (poll : after.poll = world.poll) (calls : writeTargets after.calls = writeTargets world.calls) :
    Notified [] world after where
  allocated := allocated
  socket c := congrArg (fun polled => polled.1) (polled c)
  socketOpen c := congrArg (fun polled => polled.2.1) (polled c)
  pollDescriptor c := congrArg (fun polled => polled.2.2.1) (polled c)
  poll := by rw [poll, List.map_nil, List.append_nil]
  calls := by rw [calls, List.append_nil]
  others c _ := congrArg (fun polled => polled.2.2.2.2) (polled c)
  packed c packed := by
    have length := congrArg (fun polled => polled.2.2.2.1) (polled c)
    have filled := congrArg (fun polled => polled.2.2.2.2) (polled c)
    exact (length.trans packed).trans filled.symm

theorem refl (world : World) : Notified [] world world := .quiet rfl (fun _ => rfl) rfl rfl

theorem trans (first : Notified targets u v) (second : Notified more v w) :
    Notified (targets ++ more) u w where
  allocated := second.allocated.trans first.allocated
  socket c := (second.socket c).trans (first.socket c)
  socketOpen c := (second.socketOpen c).trans (first.socketOpen c)
  pollDescriptor c := (second.pollDescriptor c).trans (first.pollDescriptor c)
  poll := by
    have asks : asksToWrite v = asksToWrite u := by
      funext c
      rw [asksToWrite, asksToWrite, first.pollDescriptor]
    rw [second.poll, first.poll, asks, List.map_append, List.append_assoc]
  calls := by rw [second.calls, first.calls, List.append_assoc]
  others c outside := by
    rw [List.mem_append, not_or] at outside
    rw [second.others c outside.2, first.others c outside.1]
  packed c packed := second.packed c (first.packed c packed)

end Notified

namespace Notifies
variable {P Q : ClientRef → Prop} {u v w world after : World}

theorem of_quiet (quiet : Notified [] world after) : Notifies P world after :=
  ⟨[], quiet, fun _ mem => by cases mem⟩

theorem refl (world : World) : Notifies P world world := of_quiet (.refl world)

theorem trans (first : Notifies P u v) (second : Notifies P v w) : Notifies P u w := by
  obtain ⟨targets, notified, all⟩ := first
  obtain ⟨more, notifiedMore, allMore⟩ := second
  refine ⟨targets ++ more, notified.trans notifiedMore, ?_⟩
  intro c mem
  rcases List.mem_append.mp mem with mem | mem
  · exact all c mem
  · exact allMore c mem

theorem mono (notifies : Notifies P world after) (weaker : ∀ c, P c → Q c) : Notifies Q world after := by
  obtain ⟨targets, notified, all⟩ := notifies
  exact ⟨targets, notified, fun c mem => weaker c (all c mem)⟩

theorem connected (notifies : Notifies P world after) (c : ClientRef) :
    after.Connected c ↔ world.Connected c := by
  obtain ⟨targets, notified, _⟩ := notifies
  exact notified.connected c

end Notifies

section Output
variable [CMemory] {P : ClientRef → Prop}

/-- The block grows by exactly what is appended. -/
theorem packed_appendLine (packed : Packed buffer) (line : CString) : Packed (appendLine buffer line) := by
  have room : u32Sub buffer.length buffer.filled = 0 := by
    rw [packed, u32Sub_of_le (Nat.le_refl _), Nat.sub_self]
  have length : (appendLine buffer line).length = u32 (buffer.length + (line.length + 1)) := by
    simp only [appendLine, makeLineRoom, room, if_pos (Nat.succ_pos _)]
  have filled : (appendLine buffer line).filled = u32 (buffer.filled + line.length + 1) := by
    have same : (makeLineRoom buffer line).filled = buffer.filled := by
      rw [makeLineRoom]
      split <;> rfl
    simp only [appendLine, same, u32, Nat.mod_add_mod]
  rw [Packed, length, filled, packed, Nat.add_assoc]

theorem clientWriteLineFor_notified (channel : Option Nat) (world : World) (client : ClientRef)
    (line : CString) : Notified [client] world (clientWriteLineFor channel world client line) := by
  have output := clientWriteLineFor_output channel world client line
  constructor
  · rfl
  · exact fun c => by rw [output.fields c]
  · exact fun c => by rw [output.fields c]
  · exact fun c => by rw [output.fields c]
  · rfl
  · simp [clientWriteLineFor, World.setClient, World.record, writeTargets]
  · intro c other
    rw [List.mem_singleton] at other
    simp [clientWriteLineFor, World.setClient, World.record, other]
  · intro c packed
    by_cases same : c = client
    · subst c
      simpa [clientWriteLineFor, World.setClient, World.record] using packed_appendLine packed line
    · simpa [clientWriteLineFor, World.setClient, World.record, same] using packed

theorem clientWriteLine_notifies (world : World) (line : CString) (client : P c) :
    Notifies P world (clientWriteLine world c line) :=
  ⟨[c], clientWriteLineFor_notified none world c line, by simpa using client⟩

theorem sendToEntry_notified (number : Nat) (msg : CString) (entries : List (CString × Option ClientRef))
    (world : World) : Notified (entries.filterMap Prod.snd) world
      (entries.foldl (fun world entry => sendToEntry number msg world entry.1 entry.2) world) := by
  induction entries generalizing world with
  | nil => exact .refl world
  | cons entry entries ih =>
    obtain ⟨key, value⟩ := entry
    cases value with
    | none => exact ih world
    | some c => exact (clientWriteLineFor_notified (some number) world c msg).trans (ih _)

/-- A channel message is written to what the dictionary holds. -/
theorem serverSendChannelMessage_notifies (registry : Registry members world) (msg : CString)
    (all : ∀ c, members c → P c) : Notifies P world (serverSendChannelMessage world msg) := by
  have loop := DictionaryIterator.loop_entries
    (sendToEntry (channelMessages world.calls).length msg) registry.head
  have recorded : Notified [] world
      { world.record (.sendChannelMessage world.clients msg) with
        clients := (dictionaryGetIterator world.clients).2 } :=
    .quiet rfl (fun _ => rfl) rfl (by simp [World.record, writeTargets])
  have told := recorded.trans (sendToEntry_notified (channelMessages world.calls).length msg
    (DictionaryIterator.entries world.clients) _)
  refine ⟨recipients world.clients, ?_, ?_⟩
  · simp only [serverSendChannelMessage, dictionaryGetIterator, World.record, loop]
    exact told
  · intro c mem
    have ready := registry.ready
    obtain ⟨key, found⟩ := ready.registered.mp (ready.mem_recipients.mp mem)
    exact all c (registry.owner found).1

theorem clientHandleListCommand_notifies (world : World) (client : P c) (arg : Option CString) :
    Notifies P world (clientHandleListCommand world c arg) := by
  have taken : Notified [] world { world with clients := (dictionaryGetIterator world.clients).2 } :=
    .quiet rfl (fun _ => rfl) rfl rfl
  apply clientHandleListCommand_elim
  · exact .of_quiet taken
  · intro state text notifies
    exact notifies.trans (clientWriteLine_notifies state text client)

theorem clientHandleMsgCommand_notifies (registry : Registry members world)
    (all : ∀ c, members c → P c) (client : P c) (arg : Option CString) :
    Notifies P world (clientHandleMsgCommand world c arg) := by
  apply clientHandleMsgCommand_elim
  · exact fun text => clientWriteLine_notifies world text client
  · intro name recpt msg found
    exact (clientWriteLine_notifies world msg client).trans
      (clientWriteLine_notifies _ msg (all recpt (registry.owner found).1))

end Output

/-- The connected clients that have a nickname. If more clients came than there are
temporary nicknames, a client has none. -/
def World.Named (world : World) (c : ClientRef) : Prop :=
  world.Connected c ∧ (world.client c).nickname ≠ none

section Nickname
variable {world : World}

theorem renamed_notified (world : World) (client : ClientRef) (nickname : CString) :
    Notified [] world (renamed world client nickname) :=
  .quiet rfl (World.setClient_keeps world client { world.client client with nickname := some nickname }
    Client.polled rfl) rfl rfl

theorem clientSetNickname_notified (world : World) (client : ClientRef) (nick : CString) :
    Notified [] world (clientSetNickname world client nick).2 := by
  rcases clientSetNickname_cases world client nick with ⟨same, _⟩ | ⟨same, _⟩ | ⟨changed, _⟩
  · rw [same]
    exact .refl world
  · rw [same]
    exact .refl world
  · rw [changed]
    exact renamed_notified world client _

/-- A client with a nickname or without may take another one. -/
theorem clientSetNickname_named (registry : Registry world.Named world)
    (connected : world.Connected client) (nick : CString) :
    Registry (clientSetNickname world client nick).2.Named (clientSetNickname world client nick).2 := by
  rcases clientSetNickname_cases world client nick with ⟨same, _⟩ | ⟨same, _⟩ | ⟨changed, nonempty, free⟩
  · rw [same]
    exact registry
  · rw [same]
    exact registry
  · rw [changed]
    have fresh : world.Named client ∨ (world.client client).nickname = none := by
      by_cases named : (world.client client).nickname = none
      · exact .inr named
      · exact .inl ⟨connected, named⟩
    refine (registry.named free ⟨nonempty, strtrim_not_isspace nick⟩ fresh).congr ?_
    intro c
    have still := (renamed_notified world client (strtrim nick)).connected c
    rw [World.Named, World.Named, still]
    by_cases same : c = client
    · subst c
      have named : ((renamed world client (strtrim nick)).client client).nickname = some (strtrim nick) :=
        congrArg Client.nickname (World.setClient_self ..)
      rw [named]
      exact iff_of_true (.inr rfl) ⟨connected, Option.some_ne_none _⟩
    · have kept : (renamed world client (strtrim nick)).client c = world.client c :=
        World.setClient_other _ _ _ same
      rw [kept]
      exact or_iff_left same

theorem setTemporaryNickname_named (i rounds : Nat) (registry : Registry world.Named world)
    (connected : world.Connected client) :
    Registry (setTemporaryNickname world client i rounds).Named
        (setTemporaryNickname world client i rounds) ∧
      Notified [] world (setTemporaryNickname world client i rounds) := by
  apply setTemporaryNickname_invariant (P := fun after => Registry after.Named after ∧ Notified [] world after)
  · rintro between nick ⟨registry, quiet⟩
    exact ⟨clientSetNickname_named registry ((quiet.connected client).mpr connected) nick,
      quiet.trans (clientSetNickname_notified between client nick)⟩
  · exact ⟨registry, .refl world⟩

/-- Writing changes neither the nicknames nor who is connected. -/
theorem OutputOnly.named (output : OutputOnly world after) (registry : Registry world.Named world) :
    Registry after.Named after := by
  refine (registry.output output).congr ?_
  intro c
  rw [World.Named, World.Named, output.nickname, output.sameConnections.connected]

theorem SameRegistration.named (same : SameRegistration world after)
    (registry : Registry world.Named world) : Registry after.Named after := by
  refine (registry.frame same.headEntry fun c _ => same.nickname c).congr ?_
  intro c
  rw [World.Named, World.Named, same.nickname, same.connected]

end Nickname

section Line
variable [CMemory] {world : World}

theorem clientHandleLine_named (registry : Registry world.Named world)
    (connected : world.Connected client) (line : CString) :
    Registry (clientHandleLine world client line).Named (clientHandleLine world client line) := by
  have recorded := (SameRegistration.record world (.handleLine client line)).named registry
  obtain ⟨between, rfl | ⟨arg, rfl⟩, output⟩ := clientHandleLine_cases world client line
  · exact output.named recorded
  · exact output.named (clientSetNickname_named recorded connected arg)

theorem clientHandleNickCommand_notifies (registry : Registry world.Named world)
    (connected : world.Connected client) (arg : Option CString) :
    Notifies world.Connected world (clientHandleNickCommand world client arg) := by
  have quiet := clientSetNickname_notified world client
  apply clientHandleNickCommand_elim
  · exact fun text => clientWriteLine_notifies world text connected
  · intro nick msg
    have named := clientSetNickname_named registry connected nick
    refine (Notifies.of_quiet (quiet nick)).trans (serverSendChannelMessage_notifies named msg ?_)
    intro c member
    exact ((quiet nick).connected c).mp member.1
  · exact fun nick text => (Notifies.of_quiet (quiet nick)).trans (clientWriteLine_notifies _ text connected)

theorem clientHandleLine_notifies (registry : Registry world.Named world)
    (connected : world.Connected client) (line : CString) :
    Notifies world.Connected world (clientHandleLine world client line) := by
  have recorded : Notified [] world (world.record (.handleLine client line)) :=
    .quiet rfl (fun _ => rfl) rfl (by simp [World.record, writeTargets])
  have registered := (SameRegistration.record world (.handleLine client line)).named registry
  refine (Notifies.of_quiet recorded).trans ?_
  apply clientHandleLine_elim
  · exact .refl _
  · exact clientHandleNickCommand_notifies registered connected
  · exact clientHandleMsgCommand_notifies registered (fun c member => member.1) connected
  · exact clientHandleListCommand_notifies _ connected
  · exact fun text => clientWriteLine_notifies _ text connected
  · exact fun msg => serverSendChannelMessage_notifies registered msg fun c member => member.1

omit [CMemory] in
theorem setInBuffer_notified (world : World) (client : ClientRef) (buffer : Buffer) :
    Notified [] world (setInBuffer world client buffer) :=
  .quiet rfl (World.setClient_keeps world client { world.client client with inBuffer := buffer }
    Client.polled rfl) rfl rfl

theorem clientReceived_notifies (registry : Registry world.Named world)
    (connected : world.Connected client) (bytes : List UInt8) :
    Registry (clientReceived world client bytes).Named (clientReceived world client bytes) ∧
      Notifies world.Connected world (clientReceived world client bytes) := by
  have received := SameRegistration.record world (.recv client bytes)
  have recorded : Notified [] world (world.record (.recv client bytes)) :=
    .quiet rfl (fun _ => rfl) rfl (by simp [World.record, writeTargets])
  apply clientReceived_elim (P := fun after => Registry after.Named after ∧ Notifies world.Connected world after)
  · exact fun buffer => ⟨(received.trans (.setInBuffer _ _ _)).named registry,
      .of_quiet (recorded.trans (setInBuffer_notified _ _ _))⟩
  · intro buffer line rest
    have terminated := received.trans (.setInBuffer _ client buffer)
    have quiet := recorded.trans (setInBuffer_notified _ client buffer)
    have still := (terminated.connected client).mpr connected
    have handled := clientHandleLine_named (terminated.named registry) still line
    have told := clientHandleLine_notifies (terminated.named registry) still line
    refine ⟨(SameRegistration.setInBuffer _ _ _).named handled, ?_⟩
    refine ((Notifies.of_quiet quiet).trans (told.mono fun c => (terminated.connected c).mp)).trans ?_
    exact .of_quiet (setInBuffer_notified _ _ _)

end Line

/-- The handler disconnects the client after it has told the others. -/
def Leaves (world after : World) (client : ClientRef) : Prop :=
  ∃ told, Notifies world.Connected world told ∧ after = closeConnection told client

section Handlers
variable [CMemory] {world : World}

theorem clientDisconnect_leaves (registry : Registry world.Named world)
    (connected : world.Connected client) :
    Registry (clientDisconnect world client).Named (clientDisconnect world client) ∧
      Leaves world (clientDisconnect world client) client := by
  have left : Registry (fun c => world.Named c ∧ c ≠ client) (unregistered world client) := by
    by_cases named : (world.client client).nickname = none
    · have same : unregistered world client = world := by rw [unregistered, named, withoutNickname]
      rw [same]
      refine registry.congr ?_
      intro c
      refine (and_iff_left_of_imp ?_).symm
      rintro member rfl
      exact member.2 named
    · exact registry.left ⟨connected, named⟩
  have gone : Notified [] world (unregistered world client) :=
    .quiet rfl (fun _ => rfl) rfl rfl
  have output := serverSendChannelMessage_output (unregistered world client)
    (world.nicknameText client ++ literal " has left...")
  refine ⟨?_, _, ?_, rfl⟩
  · have closed : Registry _ (clientDisconnect world client) :=
      (left.output output).frame rfl fun c _ => closeConnection_nickname _ client c
    refine closed.congr ?_
    intro c
    have nickname : ((clientDisconnect world client).client c).nickname = (world.client c).nickname :=
      (closeConnection_nickname _ client c).trans (output.nickname c)
    rw [World.Named, World.Named, clientDisconnect_connected, nickname]
    exact and_right_comm
  · exact (Notifies.of_quiet gone).trans
      (serverSendChannelMessage_notifies left _ fun c member => member.1.1)

omit [CMemory] in
theorem Leaves.after_quiet {between after : World} (quiet : Notified [] world between)
    (leaves : Leaves between after client) : Leaves world after client := by
  obtain ⟨told, notifies, closed⟩ := leaves
  exact ⟨told, (Notifies.of_quiet quiet).trans (notifies.mono fun c => (quiet.connected c).mp), closed⟩

theorem clientDoRead_cases (registry : Registry world.Named world)
    (connected : world.Connected client) (result : Option (List UInt8)) :
    Registry (clientDoRead world client result).Named (clientDoRead world client result) ∧
      (Notifies world.Connected world (clientDoRead world client result) ∨
        Leaves world (clientDoRead world client result) client) := by
  have grown := SameRegistration.setInBuffer world client (makeRoom (world.client client).inBuffer)
  have quiet := setInBuffer_notified world client (makeRoom (world.client client).inBuffer)
  have registered := grown.named registry
  have still := (grown.connected client).mpr connected
  have left := clientDisconnect_leaves registered still
  simp only [clientDoRead]
  split
  · exact ⟨left.1, .inr (left.2.after_quiet quiet)⟩
  · exact ⟨left.1, .inr (left.2.after_quiet quiet)⟩
  · rename_i b bytes
    obtain ⟨after, told⟩ := clientReceived_notifies registered still (b :: bytes)
    refine ⟨after, .inl ((Notifies.of_quiet quiet).trans (told.mono ?_))⟩
    exact fun c => (quiet.connected c).mp

omit [CMemory] in
/-- Moving bytes in the block is nothing that the poll sees. -/
theorem setMemory_notified (world : World) (client : ClientRef) (memory : List UInt8) :
    Notified [] world (world.setClient client { world.client client with
      outBuffer := { (world.client client).outBuffer with memory } }) :=
  .quiet rfl (World.setClient_keeps world client _ Client.polled rfl) rfl rfl

/-- `ClientDoWrite` when everything was sent, but for the record. -/
def SentAll (world after : World) (client : ClientRef) : Prop :=
  ∃ sent, Notified [] world sent ∧ after = { sent.setClient client
    { sent.client client with outBuffer := .empty } with
      poll := pollDescriptorRemoveEvent sent.poll (sent.client client).pollDescriptor pollOut }

theorem clientDoWrite_cases (registry : Registry world.Named world)
    (connected : world.Connected client) (len : Int) :
    Registry (clientDoWrite world client len).Named (clientDoWrite world client len) ∧
      (Notifies world.Connected world (clientDoWrite world client len) ∨
        Leaves world (clientDoWrite world client len) client ∨
        SentAll world (clientDoWrite world client len) client) := by
  have recorded : Notified [] world (world.record
      (.send client ((world.client client).outBuffer.content.take len.toNat))) :=
    .quiet rfl (fun _ => rfl) rfl (by simp [World.record, writeTargets])
  have sent := SameRegistration.sent world client ((world.client client).outBuffer.content.take len.toNat)
    (consume (world.client client).outBuffer len.toNat)
  simp only [clientDoWrite]
  split
  · obtain ⟨after, leaves⟩ := clientDisconnect_leaves registry connected
    exact ⟨after, .inr (.inl leaves)⟩
  · split
    · rename_i all
      refine ⟨(sent.trans (.setPoll _ _)).named registry, .inr (.inr ⟨_, recorded, ?_⟩)⟩
      rw [consume, if_pos all]
      rfl
    · rename_i part
      refine ⟨sent.named registry, .inl (.of_quiet ?_)⟩
      rw [consume, if_neg part]
      exact recorded.trans (setMemory_notified _ client _)

/-- What `ClientCreate` does after the registration with the poll. -/
theorem clientCreate_notifies (registry : Registry world.Named world) (socket : Int) :
    Registry (clientCreate world socket).Named (clientCreate world socket) ∧
      Notifies (allocateClient world socket).Connected (allocateClient world socket)
        (clientCreate world socket) := by
  have connected : (allocateClient world socket).Connected world.allocated :=
    (allocateClient_connected world socket _).mpr (.inr rfl)
  have allocated : Registry (allocateClient world socket).Named (allocateClient world socket) := by
    have same : ∀ c, c ≠ world.allocated →
        ((allocateClient world socket).client c).nickname = (world.client c).nickname := by
      intro c old
      rw [allocateClient_old world socket old]
    have framed : Registry world.Named (allocateClient world socket) :=
      registry.frame rfl fun c member => same c (Nat.ne_of_lt member.1.1)
    refine framed.congr ?_
    intro c
    rw [World.Named, World.Named, allocateClient_connected]
    by_cases new : c = world.allocated
    · subst c
      rw [allocateClient_new]
      exact iff_of_false (fun named => Nat.lt_irrefl _ named.1.1) (fun named => named.2 rfl)
    · rw [same c new, or_iff_left new]
  obtain ⟨named, quiet⟩ := setTemporaryNickname_named 1 (2 ^ 32 - 2) allocated connected
  have output := serverSendChannelMessage_output (nameClient world socket)
    ((nameClient world socket).nicknameText world.allocated ++ literal " has entered...")
  refine ⟨output.named named, (Notifies.of_quiet quiet).trans ?_⟩
  refine serverSendChannelMessage_notifies named _ ?_
  intro c member
  exact (quiet.connected c).mp member.1

end Handlers
end KommunikationNetze.Chat
