import KommunikationNetze.Chat.Registry

/-! Channel messages reach exactly the registered clients. The record of calls is
compared with what it should hold: every channel message that was sent while the
client was registered, in order and once. -/
namespace KommunikationNetze.Chat
open CLib Utils SearchTree

/-- Some entry of the dictionary holds the client. -/
def Registered (clients : Dictionary ClientRef) (c : ClientRef) : Prop :=
  some c ∈ clients.headEntry.walk.map Prod.snd

instance (clients : Dictionary ClientRef) (c : ClientRef) : Decidable (Registered clients c) :=
  inferInstanceAs (Decidable (_ ∈ _))

/-- The numbered channel messages whose loop has written a line to the client. -/
def deliveries (c : ClientRef) (calls : List Call) : List (Nat × CString) :=
  calls.filterMap fun
    | .writeLine d line (some number) => if d = c then some (number, line) else none
    | _ => none

/-- The numbered channel messages that were sent while the client was registered. -/
def due (c : ClientRef) (calls : List Call) : List (Nat × CString) :=
  ((channelMessages calls).zipIdx.filter fun m => Registered m.1.1 c).map fun m => (m.2, m.1.2)

/-- Both clients were registered when this channel message was sent. -/
def shared (calls : List Call) (c d : ClientRef) (number : Nat) : Bool :=
  match (channelMessages calls)[number]? with
  | some (clients, _) => Registered clients c && Registered clients d
  | none => false

section Recipients

/-- The clients the loop of `ServerSendChannelMessage` visits. -/
def recipients (clients : Dictionary ClientRef) : List ClientRef :=
  (DictionaryIterator.entries clients).filterMap Prod.snd

/-- What a dictionary of clients needs for every client to be visited once. -/
structure Ready (clients : Dictionary ClientRef) : Prop where
  head : HeadEntry clients
  ordered : SearchOrder clients.headEntry
  single : ∀ {key other c}, dictionaryGet clients key = some c →
    dictionaryGet clients other = some c → key = other

theorem Registry.ready (registry : Registry members world) : Ready world.clients where
  head := registry.head
  ordered := registry.ordered
  single left right :=
    Option.some.inj ((registry.owner left).2.symm.trans (registry.owner right).2)

variable {clients : Dictionary ClientRef}

theorem Ready.registered (ready : Ready clients) :
    Registered clients c ↔ ∃ key, dictionaryGet clients key = some c := by
  constructor
  · intro stored
    obtain ⟨⟨key, value⟩, mem, rfl⟩ := List.mem_map.mp stored
    exact ⟨key, entryGet_of_mem ready.ordered mem⟩
  · rintro ⟨key, found⟩
    exact List.mem_map.mpr ⟨(key, some c), mem_walk_of_entryGet found, rfl⟩

theorem Ready.mem_recipients (ready : Ready clients) : c ∈ recipients clients ↔ Registered clients c := by
  rw [ready.registered, recipients, List.mem_filterMap]
  constructor
  · rintro ⟨⟨key, value⟩, mem, rfl⟩
    exact ⟨key, (DictionaryIterator.mem_entries ready.head ready.ordered).mp mem⟩
  · rintro ⟨key, found⟩
    exact ⟨(key, some c), (DictionaryIterator.mem_entries ready.head ready.ordered).mpr found, rfl⟩

/-- No client is visited twice: the keys differ, and a client is under one key. -/
theorem Ready.recipients_nodup (ready : Ready clients) : (recipients clients).Nodup := by
  have keys := DictionaryIterator.entries_keys_nodup ready.head ready.ordered
  rw [List.Nodup, List.pairwise_map] at keys
  rw [recipients, List.Nodup, List.pairwise_filterMap]
  refine keys.imp_of_mem ?_
  rintro ⟨key, value⟩ ⟨other, _⟩ left right different c rfl d rfl same
  subst d
  refine different (ready.single (c := c) ?_ ?_)
  · exact (DictionaryIterator.mem_entries ready.head ready.ordered).mp left
  · exact (DictionaryIterator.mem_entries ready.head ready.ordered).mp right

end Recipients

section Record
variable [CMemory]

/-- The loop writes one line for each entry with a client. -/
theorem sendToEntry_calls (number : Nat) (msg : CString) (entries : List (CString × Option ClientRef))
    (world : World) :
    (entries.foldl (fun world entry => sendToEntry number msg world entry.1 entry.2) world).calls =
      world.calls ++ (entries.filterMap Prod.snd).map fun c => .writeLine c msg (some number) := by
  induction entries generalizing world with
  | nil => simp
  | cons entry entries ih =>
    obtain ⟨key, value⟩ := entry
    rw [List.foldl_cons, ih]
    cases value with
    | none => simp [sendToEntry]
    | some c => simp [sendToEntry, clientWriteLineFor, World.setClient, World.record]

/-- `ServerSendChannelMessage` calls `ClientWriteLine` once for each visited client. -/
theorem serverSendChannelMessage_calls {world : World} (head : HeadEntry world.clients) (msg : CString) :
    (serverSendChannelMessage world msg).calls =
      world.calls ++ .sendChannelMessage world.clients msg ::
        (recipients world.clients).map fun c =>
          .writeLine c msg (some (channelMessages world.calls).length) := by
  have loop := DictionaryIterator.loop_entries
    (sendToEntry (channelMessages world.calls).length msg) head
  simp only [serverSendChannelMessage, dictionaryGetIterator, World.record, loop, sendToEntry_calls,
    recipients, List.append_assoc, List.singleton_append]

end Record

section Due
variable {c : ClientRef}

@[simp] theorem channelMessages_append (calls added : List Call) :
    channelMessages (calls ++ added) = channelMessages calls ++ channelMessages added :=
  List.filterMap_append

@[simp] theorem deliveries_append (calls added : List Call) :
    deliveries c (calls ++ added) = deliveries c calls ++ deliveries c added :=
  List.filterMap_append

/-- A call that belongs to no channel message. -/
def Silent : Call → Prop
  | .sendChannelMessage .. | .writeLine _ _ (some _) => False
  | _ => True

theorem channelMessages_silent (silent : ∀ call ∈ calls, Silent call) : channelMessages calls = [] := by
  refine List.filterMap_eq_nil_iff.mpr ?_
  intro call mem
  have quiet := silent call mem
  cases call <;> simp [Silent] at quiet ⊢

theorem deliveries_silent (silent : ∀ call ∈ calls, Silent call) : deliveries c calls = [] := by
  refine List.filterMap_eq_nil_iff.mpr ?_
  intro call mem
  have quiet := silent call mem
  cases call with
  | writeLine d line channel => cases channel <;> simp [Silent] at quiet ⊢
  | _ => rfl

/-- The lines of one loop, for a client that is visited at most once. -/
theorem deliveries_lines {visited : List ClientRef} (nodup : visited.Nodup) (number : Nat)
    (msg : CString) :
    deliveries c (visited.map fun d => .writeLine d msg (some number)) =
      if c ∈ visited then [(number, msg)] else [] := by
  induction visited with
  | nil => rfl
  | cons d visited ih =>
    obtain ⟨absent, nodup⟩ := List.nodup_cons.mp nodup
    have rest := ih nodup
    simp only [deliveries, List.map_cons, List.filterMap_cons] at rest ⊢
    by_cases same : d = c
    · subst d
      simp [rest, absent]
    · have other : ¬c = d := fun h => same h.symm
      simp [rest, same, other]

theorem due_silent (silent : ∀ call ∈ added, Silent call) : due c (calls ++ added) = due c calls := by
  simp [due, channelMessages_silent silent]

/-- A broadcast as it stands in the record. -/
theorem channelMessages_broadcast (calls : List Call) (clients : Dictionary ClientRef) (msg : CString)
    (lines : List ClientRef) (number : Nat) :
    channelMessages (calls ++ .sendChannelMessage clients msg ::
      lines.map fun d => .writeLine d msg (some number)) = channelMessages calls ++ [(clients, msg)] := by
  have written : channelMessages (lines.map fun d => .writeLine d msg (some number)) = [] := by
    refine List.filterMap_eq_nil_iff.mpr ?_
    intro call mem
    obtain ⟨d, _, rfl⟩ := List.mem_map.mp mem
    rfl
  rw [channelMessages_append]
  exact congrArg _ (congrArg _ written)

theorem due_broadcast (calls : List Call) (clients : Dictionary ClientRef) (msg : CString)
    (lines : List ClientRef) (number : Nat) :
    due c (calls ++ .sendChannelMessage clients msg ::
        lines.map fun d => .writeLine d msg (some number)) =
      due c calls ++
        if Registered clients c then [((channelMessages calls).length, msg)] else [] := by
  rw [due, channelMessages_broadcast, List.zipIdx_append, List.filter_append, List.map_append, ← due]
  by_cases registered : Registered clients c <;> simp [registered]

end Due

/-- The record of every client is what it should be, and nobody was registered before
being allocated. -/
structure Delivered (world : World) : Prop where
  lines : ∀ c, deliveries c world.calls = due c world.calls
  known : ∀ m ∈ channelMessages world.calls, ∀ c, Registered m.1 c → c < world.allocated

namespace Delivered
variable {world after : World}

theorem initial : Delivered serverCreate where
  lines _ := rfl
  known _ mem := absurd mem List.not_mem_nil

/-- The messages that were sent while two clients were registered are the same part
of what each of them received. -/
theorem common (delivered : Delivered world) (c d : ClientRef) :
    (deliveries c world.calls).filter (fun m => shared world.calls c d m.1) =
      (deliveries d world.calls).filter (fun m => shared world.calls c d m.1) := by
  rw [delivered.lines, delivered.lines, due, due, List.filter_map, List.filter_map, List.filter_filter,
    List.filter_filter]
  congr 1
  refine List.filter_congr ?_
  rintro ⟨⟨clients, msg⟩, number⟩ mem
  have sent := List.mem_zipIdx_iff_getElem?.mp mem
  simp only at sent
  by_cases left : Registered clients c <;> by_cases right : Registered clients d <;>
    simp [shared, sent, left, right]

theorem silent (delivered : Delivered world) (added : List Call)
    (calls : after.calls = world.calls ++ added)
    (quiet : ∀ call ∈ added, Silent call) (allocated : world.allocated ≤ after.allocated) :
    Delivered after where
  lines c := by
    rw [calls, due_silent quiet, deliveries_append, deliveries_silent quiet, List.append_nil,
      delivered.lines]
  known m mem c registered := by
    rw [calls, channelMessages_append, channelMessages_silent quiet, List.append_nil] at mem
    exact Nat.lt_of_lt_of_le (delivered.known m mem c registered) allocated

theorem same (delivered : Delivered world) (calls : after.calls = world.calls)
    (allocated : after.allocated = world.allocated) : Delivered after :=
  delivered.silent [] (by rw [calls, List.append_nil]) (by simp) (Nat.le_of_eq allocated.symm)

variable [CMemory]

theorem writeLine (delivered : Delivered world) (client : ClientRef) (line : CString) :
    Delivered (clientWriteLine world client line) :=
  delivered.silent [.writeLine client line none] rfl (by simp [Silent]) (Nat.le_refl _)

/-- A channel message is due exactly where its loop delivers it. -/
theorem broadcast (delivered : Delivered world) (registry : Registry members world)
    (allocated : ∀ c, members c → c < world.allocated) (msg : CString) :
    Delivered (serverSendChannelMessage world msg) where
  lines c := by
    have ready := registry.ready
    have visited := deliveries_lines (c := c) ready.recipients_nodup (channelMessages world.calls).length msg
    have first : deliveries c [.sendChannelMessage world.clients msg] = [] := rfl
    rw [serverSendChannelMessage_calls registry.head, due_broadcast, deliveries_append,
      ← List.singleton_append, deliveries_append, first, List.nil_append, visited, delivered.lines]
    simp only [ready.mem_recipients]
  known m mem c registered := by
    rw [(serverSendChannelMessage_output world msg).allocated]
    rw [serverSendChannelMessage_calls registry.head, channelMessages_broadcast, List.mem_append] at mem
    rcases mem with earlier | this
    · exact delivered.known m earlier c registered
    · obtain rfl := List.mem_singleton.mp this
      obtain ⟨key, found⟩ := registry.ready.registered.mp registered
      exact allocated c (registry.owner found).1

end Delivered

section Handlers
variable [CMemory] {world : World}

theorem clientHandleListCommand_delivered (delivered : Delivered world) (client : ClientRef)
    (arg : Option CString) : Delivered (clientHandleListCommand world client arg) := by
  apply clientHandleListCommand_elim
  · exact delivered.same rfl rfl
  · intro state text delivered
    exact delivered.writeLine client text

theorem clientHandleMsgCommand_delivered (delivered : Delivered world) (client : ClientRef)
    (arg : Option CString) : Delivered (clientHandleMsgCommand world client arg) := by
  apply clientHandleMsgCommand_elim
  · exact delivered.writeLine client
  · exact fun name recpt msg found => (delivered.writeLine client msg).writeLine recpt msg

variable (registry : Registry world.Connected world) (delivered : Delivered world)
include registry delivered

theorem broadcast_delivered (msg : CString) : Delivered (serverSendChannelMessage world msg) :=
  delivered.broadcast registry (fun _ connected => connected.1) msg

theorem clientHandleNickCommand_delivered (connected : world.Connected client) (arg : Option CString) :
    Delivered (clientHandleNickCommand world client arg) := by
  have named : ∀ nick, Registry (clientSetNickname world client nick).2.Connected
      (clientSetNickname world client nick).2 := by
    intro nick
    have same := clientSetNickname_sameConnections world client nick
    exact (registry.setNickname connected nick).congr fun c => (same.connected c).symm
  have silent : ∀ nick, Delivered (clientSetNickname world client nick).2 := fun nick =>
    delivered.same (clientSetNickname_calls world client nick)
      (clientSetNickname_sameConnections world client nick).allocated
  apply clientHandleNickCommand_elim
  · exact delivered.writeLine client
  · exact fun nick msg => broadcast_delivered (named nick) (silent nick) msg
  · exact fun nick text => (silent nick).writeLine client text

theorem clientHandleLine_delivered (connected : world.Connected client) (line : CString) :
    Delivered (clientHandleLine world client line) := by
  have recorded : Delivered (world.record (.handleLine client line)) :=
    delivered.silent [.handleLine client line] rfl (by simp [Silent]) (Nat.le_refl _)
  have registry := (SameRegistration.record world (.handleLine client line)).registry registry
  apply clientHandleLine_elim
  · exact recorded
  · exact clientHandleNickCommand_delivered registry recorded connected
  · exact clientHandleMsgCommand_delivered recorded client
  · exact clientHandleListCommand_delivered recorded client
  · exact recorded.writeLine client
  · exact broadcast_delivered registry recorded

theorem clientDisconnect_delivered (connected : world.Connected client) :
    Delivered (clientDisconnect world client) := by
  have removed : Delivered (unregistered world client) := delivered.same rfl rfl
  have told := removed.broadcast (registry.left connected) (fun _ member => member.1.1)
    (world.nicknameText client ++ literal " has left...")
  exact told.same rfl rfl

theorem clientCreate_delivered (room : world.connectedClients.length < 2 ^ 32 - 2) (socket : Int) :
    Delivered (clientCreate world socket) := by
  have named : Delivered (nameClient world socket) :=
    delivered.silent [] (by rw [nameClient_calls, List.append_nil]) (by simp)
      (Nat.le_of_lt (nameClient_allocated world socket ▸ Nat.lt_succ_self _))
  exact broadcast_delivered (nameClient_registry registry room socket) named _

theorem clientReceived_delivered (connected : world.Connected client) (bytes : List UInt8) :
    Delivered (clientReceived world client bytes) := by
  have recorded : Delivered (world.record (.recv client bytes)) :=
    delivered.silent [.recv client bytes] rfl (by simp [Silent]) (Nat.le_refl _)
  have received := SameRegistration.record world (.recv client bytes)
  apply clientReceived_elim
  · exact fun buffer => recorded.same rfl rfl
  · intro buffer line rest
    have terminated := received.trans (.setInBuffer _ client buffer)
    have handled := clientHandleLine_delivered (terminated.registry registry)
      (recorded.same rfl rfl) ((terminated.connected client).mpr connected) line
    exact handled.same rfl rfl

theorem handleEvent_delivered (admissible : Admissible world event) :
    Delivered (handleEvent world event) := by
  cases event with
  | accepted socket => exact clientCreate_delivered registry delivered admissible socket
  | hungUp client => exact clientDisconnect_delivered registry delivered admissible
  | readable client result =>
    have grown := SameRegistration.setInBuffer world client (makeRoom (world.client client).inBuffer)
    have still := (grown.connected client).mpr admissible.1
    have delivered : Delivered (setInBuffer world client (makeRoom (world.client client).inBuffer)) :=
      delivered.same rfl rfl
    simp only [handleEvent, clientDoRead]
    split
    · exact clientDisconnect_delivered (grown.registry registry) delivered still
    · exact clientDisconnect_delivered (grown.registry registry) delivered still
    · exact clientReceived_delivered (grown.registry registry) delivered still _
  | writable client len =>
    simp only [handleEvent, clientDoWrite]
    split
    · exact clientDisconnect_delivered registry delivered admissible.1
    · generalize (world.client client).outBuffer.content.take len.toNat = bytes
      have sent : Delivered (world.record (.send client bytes)) :=
        delivered.silent [.send client bytes] rfl (by simp [Silent]) (Nat.le_refl _)
      split
      · exact sent.same rfl rfl
      · exact sent.same rfl rfl

end Handlers

section Reachable
variable [CMemory] {world : World}

theorem reachable_delivered (reachable : Reachable world) :
    Registry world.Connected world ∧ Delivered world :=
  reachable.invariant (P := fun world => Registry world.Connected world ∧ Delivered world)
    ⟨.initial, .initial⟩ fun ⟨registry, delivered⟩ admissible =>
      ⟨handleEvent_registry registry admissible, handleEvent_delivered registry delivered admissible⟩

/-- A new client receives the message about itself, and nothing before it. -/
theorem clientCreate_deliveries (registry : Registry world.Connected world) (delivered : Delivered world)
    (room : world.connectedClients.length < 2 ^ 32 - 2) (socket : Int) :
    ∃ nickname, ((clientCreate world socket).client world.allocated).nickname = some nickname ∧
      deliveries world.allocated (clientCreate world socket).calls =
        [((channelMessages world.calls).length, nickname ++ literal " has entered...")] := by
  have named := nameClient_registry registry room socket
  obtain ⟨nickname, set, _, held⟩ := named.held world.allocated
    ((nameClient_connected world socket world.allocated).mpr (.inr rfl))
  have text : (nameClient world socket).nicknameText world.allocated = nickname := by
    rw [World.nicknameText, set, Option.getD_some]
  have after := clientCreate_delivered registry delivered room socket
  refine ⟨nickname, ?_, ?_⟩
  · exact ((serverSendChannelMessage_output _ _).nickname _).trans set
  · have before : due world.allocated world.calls = [] := by
      refine List.map_eq_nil_iff.mpr (List.filter_eq_nil_iff.mpr ?_)
      intro m mem registered
      have sent := List.mem_of_getElem? (List.mem_zipIdx_iff_getElem?.mp mem)
      exact Nat.lt_irrefl _ (delivered.known _ sent _ (of_decide_eq_true registered))
    rw [after.lines, clientCreate, serverSendChannelMessage_calls named.head, due_broadcast,
      nameClient_calls, before, text, if_pos (named.ready.registered.mpr ⟨nickname, held⟩)]
    rfl

/-- A leaving client is out of the dictionary when the others are told. -/
theorem clientDisconnect_deliveries (registry : Registry world.Connected world)
    (delivered : Delivered world) (connected : world.Connected client) :
    ∃ nickname clients, (world.client client).nickname = some nickname ∧ ¬Registered clients client ∧
      channelMessages (clientDisconnect world client).calls =
        channelMessages world.calls ++ [(clients, nickname ++ literal " has left...")] ∧
      deliveries client (clientDisconnect world client).calls = deliveries client world.calls := by
  have left := registry.left connected
  have after := clientDisconnect_delivered registry delivered connected
  obtain ⟨nickname, set, _, _⟩ := registry.held client connected
  have text : (unregistered world client).nicknameText client = nickname := by
    rw [World.nicknameText, unregistered, set, Option.getD_some]
  have head : HeadEntry (unregistered world client).clients := left.head
  have calls : (clientDisconnect world client).calls = _ := serverSendChannelMessage_calls head _
  have absent : ¬Registered (unregistered world client).clients client := by
    intro registered
    obtain ⟨key, found⟩ := left.ready.registered.mp registered
    exact (left.owner found).1.2 rfl
  refine ⟨nickname, (unregistered world client).clients, set, absent, ?_, ?_⟩
  · rw [calls, channelMessages_broadcast, text]
    rfl
  · rw [after.lines, delivered.lines, calls, due_broadcast, if_neg absent, List.append_nil]
    rfl

/-- In every reachable state a channel message is written once to every client of the
dictionary and to nobody else. So every client has received the messages that were
sent while it was registered, any two share those sent while both were, a new client
is told of itself and a leaving client is not. -/
theorem channel_broadcast (reachable : Reachable world) :
    (∀ msg, ∃ visited : List ClientRef, visited.Nodup ∧
      (∀ c, c ∈ visited ↔ ∃ nickname, dictionaryGet world.clients nickname = some c) ∧
      (serverSendChannelMessage world msg).calls = world.calls ++
        .sendChannelMessage world.clients msg ::
          visited.map fun c => .writeLine c msg (some (channelMessages world.calls).length)) ∧
    (∀ c, deliveries c world.calls = due c world.calls) ∧
    (∀ c d, (deliveries c world.calls).filter (fun m => shared world.calls c d m.1) =
      (deliveries d world.calls).filter (fun m => shared world.calls c d m.1)) ∧
    (∀ socket, Admissible world (.accepted socket) →
      ∃ nickname, ((clientCreate world socket).client world.allocated).nickname = some nickname ∧
        deliveries world.allocated (handleEvent world (.accepted socket)).calls =
          [((channelMessages world.calls).length, nickname ++ literal " has entered...")]) ∧
    ∀ event c, Admissible world event → world.Connected c → ¬(handleEvent world event).Connected c →
      ∃ nickname clients, (world.client c).nickname = some nickname ∧ ¬Registered clients c ∧
        channelMessages (handleEvent world event).calls =
          channelMessages world.calls ++ [(clients, nickname ++ literal " has left...")] ∧
        deliveries c (handleEvent world event).calls = deliveries c world.calls := by
  obtain ⟨registry, delivered⟩ := reachable_delivered reachable
  have ready := registry.ready
  refine ⟨?_, delivered.lines, delivered.common, ?_, ?_⟩
  · intro msg
    refine ⟨recipients world.clients, ready.recipients_nodup, ?_,
      serverSendChannelMessage_calls registry.head msg⟩
    intro c
    exact ready.mem_recipients.trans ready.registered
  · intro socket room
    exact clientCreate_deliveries registry delivered room socket
  · intro event c _ connected gone
    obtain ⟨before, handled, rfl | ⟨buffer, rfl⟩⟩ := disconnect_cases connected gone
    · rw [handled]
      exact clientDisconnect_deliveries registry delivered connected
    · have grown := SameRegistration.setInBuffer world c buffer
      have left := clientDisconnect_deliveries (grown.registry registry) (delivered.same rfl rfl)
        ((grown.connected c).mpr connected)
      rw [grown.nickname] at left
      rw [handled]
      exact left

end Reachable

/-- The first client of a server is told that it has entered. -/
theorem channel_broadcast_first : ∃ nickname,
    ((@clientCreate .zeroed serverCreate 5).client 0).nickname = some nickname ∧
      deliveries 0 (@clientCreate .zeroed serverCreate 5).calls =
        [(0, nickname ++ literal " has entered...")] := by
  let _ := CMemory.zeroed
  have room : serverCreate.connectedClients.length < 2 ^ 32 - 2 := by decide
  exact (channel_broadcast ⟨[], .start⟩).2.2.2.1 5 room

end KommunikationNetze.Chat
