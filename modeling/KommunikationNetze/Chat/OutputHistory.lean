import KommunikationNetze.Chat.InputStream
import KommunikationNetze.Chat.OutputStream
import KommunikationNetze.Chat.Notifications

/-! The output buffers over whole runs of the server. Nothing but written lines and `send`s
changes them, so the record determines the buffer of every client, as long as no length of
a grown buffer wraps. -/
namespace KommunikationNetze.Chat
open CLib Utils
variable [CMemory]

/-- What a recorded call does to the output buffer of a client. -/
def Call.output (c : ClientRef) (buffer : Buffer) : Call → Buffer
  | .writeLine client line _ => if client = c then appendLine buffer line else buffer
  | .send client bytes => if client = c then consume buffer bytes.length else buffer
  | _ => buffer

def outBufferAfter (c : ClientRef) (calls : List Call) : Buffer := calls.foldl (Call.output c) .empty

/-- The buffers are those that the new calls make of the old ones, and nothing was sent. -/
def Tracks (world after : World) : Prop :=
  ∃ added, after.calls = world.calls ++ added ∧ (∀ call ∈ added, ∀ d bytes, call ≠ .send d bytes) ∧
    ∀ c, (after.client c).outBuffer = added.foldl (Call.output c) (world.client c).outBuffer

namespace Tracks
variable {u v w world after : World}

theorem quiet (calls : after.calls = world.calls)
    (same : ∀ c, (after.client c).outBuffer = (world.client c).outBuffer) : Tracks world after :=
  ⟨[], by rw [calls, List.append_nil], nofun, same⟩

theorem refl (world : World) : Tracks world world := .quiet rfl fun _ => rfl

theorem trans (first : Tracks u v) (second : Tracks v w) : Tracks u w := by
  obtain ⟨added, calls, unsent, buffer⟩ := first
  obtain ⟨more, callsMore, unsentMore, bufferMore⟩ := second
  refine ⟨added ++ more, ?_, List.forall_mem_append.mpr ⟨unsent, unsentMore⟩, fun c => ?_⟩
  · rw [callsMore, calls, List.append_assoc]
  · rw [bufferMore, buffer, List.foldl_append]

theorem calls_kept (tracks : Tracks world after) : world.calls <+: after.calls := by
  obtain ⟨added, calls, _⟩ := tracks
  exact ⟨added, calls.symm⟩

/-- A call that is neither a written line nor a `send`. -/
theorem record (world : World) (call : Call) (same : ∀ c buffer, call.output c buffer = buffer)
    (unsent : ∀ d bytes, call ≠ .send d bytes) : Tracks world (world.record call) :=
  ⟨[call], rfl, List.forall_mem_singleton.mpr unsent, fun c => (same c _).symm⟩

end Tracks

section Handlers
variable (world : World) (client : ClientRef)

theorem clientWriteLineFor_tracks (channel : Option Nat) (line : CString) :
    Tracks world (clientWriteLineFor channel world client line) := by
  refine ⟨[.writeLine client line channel], rfl, by simp, fun c => ?_⟩
  exact clientWriteLine_outBuffer world client c line

theorem clientWriteLine_tracks (line : CString) : Tracks world (clientWriteLine world client line) :=
  clientWriteLineFor_tracks world client none line

theorem serverSendChannelMessage_tracks (msg : CString) :
    Tracks world (serverSendChannelMessage world msg) := by
  have recorded : Tracks world { world.record (.sendChannelMessage world.clients msg) with
      clients := (dictionaryGetIterator world.clients).2 } :=
    .record world (.sendChannelMessage world.clients msg) (fun _ _ => rfl) nofun
  refine DictionaryIterator.iteratorLoop_invariant _ ?_ _ _ recorded
  intro state key value tracks
  cases value with
  | none => exact tracks
  | some c => exact tracks.trans (clientWriteLineFor_tracks state c _ msg)

theorem clientHandleListCommand_tracks (arg : Option CString) :
    Tracks world (clientHandleListCommand world client arg) := by
  apply clientHandleListCommand_elim
  · exact .quiet rfl fun _ => rfl
  · intro state text tracks
    exact tracks.trans (clientWriteLine_tracks state client text)

theorem clientHandleMsgCommand_tracks (arg : Option CString) :
    Tracks world (clientHandleMsgCommand world client arg) := by
  apply clientHandleMsgCommand_elim
  · exact clientWriteLine_tracks world client
  · intro name recpt msg found
    exact (clientWriteLine_tracks world client msg).trans (clientWriteLine_tracks _ recpt msg)

omit [CMemory] in
theorem clientSetNickname_outBuffer (nick : CString) (c : ClientRef) :
    ((clientSetNickname world client nick).2.client c).outBuffer = (world.client c).outBuffer := by
  rcases clientSetNickname_cases world client nick with ⟨same, _⟩ | ⟨same, _⟩ | ⟨changed, _⟩
  · rw [same]
  · rw [same]
  · rw [changed]
    exact World.setClient_keeps world client { world.client client with nickname := some (strtrim nick) }
      Client.outBuffer rfl c

theorem clientSetNickname_tracks (nick : CString) :
    Tracks world (clientSetNickname world client nick).2 :=
  .quiet (clientSetNickname_calls world client nick) (clientSetNickname_outBuffer world client nick)

theorem clientHandleNickCommand_tracks (arg : Option CString) :
    Tracks world (clientHandleNickCommand world client arg) := by
  have set := clientSetNickname_tracks world client
  apply clientHandleNickCommand_elim
  · exact clientWriteLine_tracks world client
  · exact fun nick msg => (set nick).trans (serverSendChannelMessage_tracks _ msg)
  · exact fun nick text => (set nick).trans (clientWriteLine_tracks _ client text)

theorem clientHandleLine_tracks (line : CString) :
    Tracks world (clientHandleLine world client line) := by
  refine (Tracks.record world (.handleLine client line) (fun _ _ => rfl) nofun).trans ?_
  apply clientHandleLine_elim
  · exact .refl _
  · exact clientHandleNickCommand_tracks _ client
  · exact clientHandleMsgCommand_tracks _ client
  · exact clientHandleListCommand_tracks _ client
  · exact clientWriteLine_tracks _ client
  · exact serverSendChannelMessage_tracks _

omit [CMemory] in
theorem setInBuffer_outBuffer (buffer : Buffer) (c : ClientRef) :
    ((setInBuffer world client buffer).client c).outBuffer = (world.client c).outBuffer :=
  World.setClient_keeps world client { world.client client with inBuffer := buffer } Client.outBuffer rfl c

theorem setInBuffer_tracks (buffer : Buffer) : Tracks world (setInBuffer world client buffer) :=
  .quiet rfl (setInBuffer_outBuffer world client buffer)

theorem clientReceived_tracks (bytes : List UInt8) :
    Tracks world (clientReceived world client bytes) := by
  have recorded := Tracks.record world (.recv client bytes) (fun _ _ => rfl) nofun
  apply clientReceived_elim
  · exact fun buffer => recorded.trans (setInBuffer_tracks _ client buffer)
  · intro buffer line rest
    have handled := (recorded.trans (setInBuffer_tracks _ client buffer)).trans (clientHandleLine_tracks _ client line)
    exact handled.trans (setInBuffer_tracks _ client rest)

omit [CMemory] in
theorem closeConnection_outBuffer (c : ClientRef) :
    ((closeConnection world client).client c).outBuffer = (world.client c).outBuffer :=
  World.setClient_keeps world client { world.client client with socketOpen := false }
    Client.outBuffer rfl c

theorem clientDisconnect_tracks : Tracks world (clientDisconnect world client) := by
  have gone : Tracks world (unregistered world client) := .quiet rfl fun _ => rfl
  exact (gone.trans (serverSendChannelMessage_tracks _ _)).trans
    (.quiet rfl (closeConnection_outBuffer _ client))

theorem clientDoRead_tracks (result : Option (List UInt8)) :
    Tracks world (clientDoRead world client result) := by
  have grown := setInBuffer_tracks world client (makeRoom (world.client client).inBuffer)
  simp only [clientDoRead]
  split
  · exact grown.trans (clientDisconnect_tracks _ _)
  · exact grown.trans (clientDisconnect_tracks _ _)
  · exact grown.trans (clientReceived_tracks _ _ _)

omit [CMemory] in
theorem setTemporaryNickname_outBuffer (i rounds : Nat) (c : ClientRef) :
    ((setTemporaryNickname world client i rounds).client c).outBuffer = (world.client c).outBuffer := by
  apply setTemporaryNickname_invariant (P := fun after => (after.client c).outBuffer = (world.client c).outBuffer)
  · exact fun between nick same => (clientSetNickname_outBuffer between client nick c).trans same
  · rfl

theorem clientCreate_tracks (socket : Int) :
    Tracks (allocateClient world socket) (clientCreate world socket) := by
  have named : Tracks (allocateClient world socket) (nameClient world socket) :=
    .quiet (setTemporaryNickname_calls _ _ _ _) (setTemporaryNickname_outBuffer _ _ _ _)
  exact named.trans (serverSendChannelMessage_tracks _ _)

end Handlers

omit [CMemory] in
theorem Registry.named_of_connected (registry : Registry world.Connected world) :
    Registry world.Named world := by
  refine registry.congr fun c => (and_iff_left_of_imp fun connected => ?_).symm
  obtain ⟨nickname, set, _⟩ := registry.held c connected
  rw [set]
  exact Option.some_ne_none nickname

/-- Nothing was written or sent to a client that is not allocated yet. -/
def UnknownUntouched (world : World) : Prop :=
  ∀ c, world.allocated ≤ c → c ∉ writeTargets world.calls ∧ ∀ bytes, .send c bytes ∉ world.calls

/-- The record accounts for every output buffer. -/
def Recorded (world : World) : Prop :=
  ∀ c, (world.client c).outBuffer = outBufferAfter c world.calls

theorem outBufferAfter_snoc (c : ClientRef) (calls : List Call) (call : Call) :
    outBufferAfter c (calls ++ [call]) = call.output c (outBufferAfter c calls) := by
  simp [outBufferAfter]

theorem outBufferAfter_untouched {calls : List Call} (unwritten : c ∉ writeTargets calls)
    (unsent : ∀ bytes, .send c bytes ∉ calls) : outBufferAfter c calls = .empty := by
  induction calls using List.reverseRecOn with
  | nil => rfl
  | append_singleton calls call ih =>
    simp only [writeTargets_append, List.mem_append, not_or] at unwritten unsent
    rw [outBufferAfter_snoc, ih unwritten.1 fun bytes => (unsent bytes).1]
    cases call with
    | writeLine d line channel =>
      have other : d ≠ c := fun same => unwritten.2 (by simp [writeTargets, same])
      exact if_neg other
    | send d bytes =>
      have other : d ≠ c := fun same => (unsent bytes).2 (by simp [same])
      exact if_neg other
    | _ => rfl

section Run
variable {world after : World}

theorem UnknownUntouched.step (untouched : UnknownUntouched world) (tracks : Tracks world after)
    (targets : writeTargets after.calls = writeTargets world.calls ++ told)
    (known : ∀ c ∈ told, c < after.allocated) (grown : world.allocated ≤ after.allocated) :
    UnknownUntouched after := by
  obtain ⟨added, calls, unsent, _⟩ := tracks
  intro c unknown
  obtain ⟨unwritten, nothing⟩ := untouched c (grown.trans unknown)
  refine ⟨?_, fun bytes => ?_⟩
  · rw [targets, List.mem_append, not_or]
    exact ⟨unwritten, fun mem => Nat.not_lt.mpr unknown (known c mem)⟩
  · rw [calls, List.mem_append, not_or]
    exact ⟨nothing bytes, fun mem => unsent _ mem c bytes rfl⟩

theorem UnknownUntouched.notifies (untouched : UnknownUntouched world) (tracks : Tracks world after)
    (notifies : Notifies world.Connected world after) : UnknownUntouched after := by
  obtain ⟨targets, notified, connected⟩ := notifies
  refine untouched.step tracks notified.calls (fun c mem => ?_) (Nat.le_of_eq notified.allocated.symm)
  exact notified.allocated ▸ (connected c mem).1

theorem UnknownUntouched.leaves (untouched : UnknownUntouched world) (tracks : Tracks world after)
    (leaves : Leaves world after client) : UnknownUntouched after := by
  obtain ⟨told, ⟨targets, notified, connected⟩, rfl⟩ := leaves
  refine untouched.step tracks notified.calls (fun c mem => ?_) (Nat.le_of_eq notified.allocated.symm)
  exact notified.allocated ▸ (connected c mem).1

/-- A socket that is writable takes some bytes, or its client is disconnected. -/
theorem writable_cases (world : World) (client : ClientRef) (len : Int) :
    handleEvent world (.writable client len) = clientDisconnect world client ∨
      ∃ accepted : Nat, len = accepted ∧ 0 < accepted := by
  by_cases failed : len ≤ 0
  · exact .inl (by simp only [handleEvent, clientDoWrite, if_pos failed])
  · obtain ⟨accepted, same⟩ := Int.eq_ofNat_of_zero_le (Int.le_of_lt (Int.not_le.mp failed))
    exact .inr ⟨accepted, same, by omega⟩

theorem handleEvent_untouched (registry : Registry world.Named world) (admissible : Admissible world event)
    (untouched : UnknownUntouched world) : UnknownUntouched (handleEvent world event) := by
  cases event with
  | accepted socket =>
    have allocated : UnknownUntouched (allocateClient world socket) := by
      intro c unknown
      exact untouched c (Nat.le_of_succ_le unknown)
    exact allocated.notifies (clientCreate_tracks world socket) (clientCreate_notifies registry socket).2
  | hungUp client =>
    exact untouched.leaves (clientDisconnect_tracks world client) (clientDisconnect_leaves registry admissible).2
  | readable client result =>
    have tracks := clientDoRead_tracks world client result
    rcases (clientDoRead_cases registry admissible.1 result).2 with notifies | leaves
    · exact untouched.notifies tracks notifies
    · exact untouched.leaves tracks leaves
  | writable client len =>
    rcases writable_cases world client len with disconnected | ⟨accepted, rfl, positive⟩
    · rw [disconnected]
      exact untouched.leaves (clientDisconnect_tracks world client) (clientDisconnect_leaves registry admissible.1).2
    · have calls := clientDoWrite_calls world client positive
      intro c unknown
      have before := Nat.le_trans (handleEvent_allocated world _) unknown
      obtain ⟨unwritten, nothing⟩ := untouched c before
      have other : c ≠ client := fun same => Nat.not_lt.mpr before (same ▸ admissible.1.1)
      simp only [handleEvent, calls]
      refine ⟨by simpa [writeTargets] using unwritten, fun bytes => ?_⟩
      simp [nothing bytes, other]

theorem Recorded.tracks (recorded : Recorded world) (tracks : Tracks world after) : Recorded after := by
  obtain ⟨added, calls, _, buffer⟩ := tracks
  intro c
  rw [buffer, recorded, calls, outBufferAfter, outBufferAfter, List.foldl_append]

omit [CMemory] in
/-- What is moved stays inside the block. -/
theorem Bounded.consume (bounded : Bounded buffer) (len : Nat) : Bounded (consume buffer len) := by
  obtain ⟨allocated, inside, small⟩ := bounded
  rw [Chat.consume]
  split
  · exact .empty
  · refine ⟨?_, inside, small⟩
    have moved : ((buffer.memory.drop len).take (buffer.filled - len)).length ≤ buffer.memory.length := by
      rw [List.length_take, List.length_drop]
      omega
    simp only [memmove, memcpy, List.take_zero, List.nil_append, List.length_append, List.length_drop]
    omega

/-- A line that is written, where the length of the grown buffer does not wrap. -/
def WriteFits (before : List Call) : Call → Prop
  | .writeLine c line _ => Fits (outBufferAfter c before) line
  | _ => True

theorem bounded_outBufferAfter {calls : List Call} (fits : Transition.EveryStep WriteFits calls)
    (c : ClientRef) : Bounded (outBufferAfter c calls) := by
  induction calls using List.reverseRecOn with
  | nil => exact .empty
  | append_singleton calls call ih =>
    obtain ⟨earlier, last⟩ := (Transition.everyStep_concat calls call).mp fits
    have bounded := ih earlier
    rw [outBufferAfter_snoc]
    cases call with
    | writeLine d line channel =>
      simp only [Call.output]
      split
      · rename_i same
        subst same
        exact (appendLine_spec bounded last).1
      · exact bounded
    | send d bytes =>
      simp only [Call.output]
      split
      · exact bounded.consume _
      · exact bounded
    | _ => exact bounded

theorem Recorded.allocateClient (recorded : Recorded world) (untouched : UnknownUntouched world)
    (socket : Int) : Recorded (allocateClient world socket) := by
  intro c
  by_cases new : c = world.allocated
  · obtain ⟨unwritten, unsent⟩ := untouched c (Nat.le_of_eq new.symm)
    rw [new, allocateClient_new, ← new]
    exact (outBufferAfter_untouched unwritten unsent).symm
  · rw [allocateClient_old world socket new]
    exact recorded c

theorem handleEvent_recorded (admissible : Admissible world event) (untouched : UnknownUntouched world)
    (fits : Transition.EveryStep WriteFits world.calls) (recorded : Recorded world) :
    Recorded (handleEvent world event) := by
  cases event with
  | accepted socket =>
    exact (recorded.allocateClient untouched socket).tracks (clientCreate_tracks world socket)
  | hungUp client => exact recorded.tracks (clientDisconnect_tracks world client)
  | readable client result => exact recorded.tracks (clientDoRead_tracks world client result)
  | writable client len =>
    rcases writable_cases world client len with disconnected | ⟨accepted, rfl, positive⟩
    · rw [disconnected]
      exact recorded.tracks (clientDisconnect_tracks world client)
    · have within := admissible.2
      have bounded : Bounded (world.client client).outBuffer :=
        recorded client ▸ bounded_outBufferAfter fits client
      have length : ((world.client client).outBuffer.content.take accepted).length = accepted := by
        rw [List.length_take, bounded.length_content]
        omega
      intro c
      simp only [handleEvent]
      rw [clientDoWrite_outBuffer world client c positive, clientDoWrite_calls world client positive,
        outBufferAfter_snoc, Call.output, length, recorded c]

theorem calls_kept (world : World) (event : Event) : world.calls <+: (handleEvent world event).calls := by
  cases event with
  | accepted socket => exact (clientCreate_tracks world socket).calls_kept
  | hungUp client => exact (clientDisconnect_tracks world client).calls_kept
  | readable client result => exact (clientDoRead_tracks world client result).calls_kept
  | writable client len =>
    simp only [handleEvent, clientDoWrite]
    split
    · exact (clientDisconnect_tracks world client).calls_kept
    · split <;> exact List.prefix_append _ _

/-- As long as no length wraps, every output buffer is what the record makes of it. -/
theorem outBuffer_run (run : ServerRun events world) (fits : Transition.EveryStep WriteFits world.calls) :
    UnknownUntouched world ∧ Recorded world := by
  induction run with
  | start => exact ⟨fun _ _ => ⟨List.not_mem_nil, fun _ => List.not_mem_nil⟩, fun _ => rfl⟩
  | @snoc events world event after run step ih =>
    obtain ⟨admissible, rfl⟩ := step
    have earlier : Transition.EveryStep WriteFits world.calls := fun before call early =>
      fits before call (early.trans (calls_kept world event))
    obtain ⟨untouched, recorded⟩ := ih earlier
    have registry := (reachable_registry ⟨events, run⟩).named_of_connected
    exact ⟨handleEvent_untouched registry admissible untouched,
      handleEvent_recorded admissible untouched earlier recorded⟩

end Run
end KommunikationNetze.Chat
