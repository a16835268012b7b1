import KommunikationNetze.ChatClient.Client
import KommunikationNetze.Chat.InputStream
import KommunikationNetze.Chat.OutputStream

/-! The two streams of the chat client. As in the server, the bytes of a partial write stay
accounted as filled. -/
namespace KommunikationNetze.ChatClient
open CLib
open Chat (receive consume Bounded consume_spec clear_grown)

/-- A read into a buffer, or a write from it that is offered all bytes in use. -/
inductive RelayEvent where
  | read (bytes : List UInt8)
  | write (accepted offered : Nat)

/-- What was written, and then what is in use, is what was read. -/
def Relay.Exact (relay : Relay) : Prop := relay.written ++ relay.buffer.content = relay.read

section Buffer
variable [CMemory] {buffer : Buffer}

/-- There is room for a byte, and what the buffer holds stays. -/
theorem makeRoom_spec (bounded : Bounded buffer) (small : buffer.length < 2 ^ 31) :
    Bounded (makeRoom buffer) ∧ (makeRoom buffer).filled = buffer.filled ∧
      (makeRoom buffer).content = buffer.content := by
  obtain ⟨allocated, inside, fits⟩ := bounded
  have content := Bounded.length_content ⟨allocated, inside, fits⟩
  have double : u32 (buffer.length * 2) = buffer.length * 2 := u32_of_lt (by omega)
  simp only [makeRoom, u32Sub_of_le inside, double]
  split
  · generalize grown : (if buffer.length * 2 < 1024 then 1024 else buffer.length * 2) = length
    have enough : buffer.length ≤ length ∧ length < 2 ^ 32 := by
      split at grown <;> omega
    have rest : u32Sub length buffer.filled = length - buffer.filled := u32Sub_of_le (by omega)
    have cleared := clear_grown (show (buffer.content ++ buffer.memory.drop buffer.filled).length ≤ length by
      rw [buffer.content_rest, allocated]
      exact enough.1)
    rw [buffer.content_rest, content] at cleared
    refine ⟨⟨?_, ?_, enough.2⟩, rfl, ?_⟩
    · simp only [rest, cleared, List.length_append, content, List.length_replicate]
      omega
    · simp only
      omega
    · simp only [rest, cleared]
      exact Buffer.content_of_memory rfl content.symm
  · exact ⟨⟨allocated, inside, fits⟩, rfl, rfl⟩

omit [CMemory] in
theorem receive_spec (bounded : Bounded buffer) (room : bytes.length ≤ offeredRoom buffer) :
    Bounded (receive buffer bytes) ∧ (receive buffer bytes).filled = buffer.filled + bytes.length ∧
      (receive buffer bytes).content = buffer.content ++ bytes := by
  obtain ⟨allocated, inside, fits⟩ := bounded
  have content := Bounded.length_content ⟨allocated, inside, fits⟩
  rw [offeredRoom, u32Sub_of_le inside] at room
  have filled : u32 (buffer.filled + bytes.length) = buffer.filled + bytes.length :=
    u32_of_lt (by omega)
  have stored := memcpy_append buffer.content bytes (buffer.memory.drop buffer.filled)
  rw [buffer.content_rest, content] at stored
  refine ⟨⟨?_, ?_, fits⟩, filled, ?_⟩
  · simp only [receive, stored, List.length_append, content, List.length_drop, allocated]
    omega
  · simp only [receive, filled]
    omega
  · refine Buffer.content_of_memory stored ?_
    rw [List.length_append, content]
    exact filled

end Buffer

section Relay

/-- Every write was complete. -/
def Complete (events : List RelayEvent) : Prop :=
  ∀ accepted offered, .write accepted offered ∈ events → accepted = offered

theorem complete_read (events : List RelayEvent) (bytes : List UInt8) :
    Complete (events ++ [.read bytes]) ↔ Complete events := by
  simp [Complete]

theorem complete_write (events : List RelayEvent) (accepted offered : Nat) :
    Complete (events ++ [.write accepted offered]) ↔ Complete events ∧ accepted = offered := by
  simp only [Complete, List.mem_append, List.mem_singleton, RelayEvent.write.injEq]
  constructor
  · intro complete
    exact ⟨fun a o mem => complete a o (.inl mem), complete _ _ (.inr ⟨rfl, rfl⟩)⟩
  · rintro ⟨earlier, last⟩ a o (mem | ⟨rfl, rfl⟩)
    · exact earlier a o mem
    · exact last

/-- The balance. The excess is what partial writes accepted. -/
structure Account (events : List RelayEvent) (relay : Relay) (excess : Nat) : Prop where
  bounded : Bounded relay.buffer
  balance : relay.written.length + relay.buffer.filled = relay.read.length + excess
  exact : excess = 0 → relay.Exact
  complete : excess = 0 ↔ Complete events

variable [CMemory]

inductive RelayStep (relay : Relay) : RelayEvent → Relay → Prop where
  | read (small : relay.buffer.length < 2 ^ 31)
      (room : bytes.length ≤ offeredRoom (makeRoom relay.buffer))
      (done : readInto relay (some bytes) = some (after, more)) : RelayStep relay (.read bytes) after
  | write {accepted : Nat} (positive : 0 < accepted) (within : accepted ≤ relay.buffer.filled)
      (done : writeFrom relay accepted = some (after, outcome)) :
      RelayStep relay (.write accepted relay.buffer.filled) after

abbrev RelayRun : List RelayEvent → Relay → Prop := Transition.Run RelayStep .empty

variable {relay after : Relay}

theorem Account.read (account : Account events relay excess) (small : relay.buffer.length < 2 ^ 31)
    (room : bytes.length ≤ offeredRoom (makeRoom relay.buffer))
    (done : readInto relay (some bytes) = some (after, more)) :
    Account (events ++ [.read bytes]) after excess := by
  obtain ⟨bounded, filled, content⟩ := makeRoom_spec account.bounded small
  have balance := account.balance
  cases bytes with
  | nil =>
    obtain ⟨rfl, _⟩ := Prod.mk.inj (Option.some.inj done)
    refine ⟨bounded, ?_, ?_, ?_⟩
    · simp only [filled]
      exact balance
    · intro none
      rw [Relay.Exact, content]
      exact account.exact none
    · rw [complete_read]
      exact account.complete
  | cons b bytes =>
    obtain ⟨rfl, _⟩ := Prod.mk.inj (Option.some.inj done)
    obtain ⟨boundedAfter, filledAfter, contentAfter⟩ := receive_spec bounded room
    refine ⟨boundedAfter, ?_, ?_, ?_⟩
    · simp only [filledAfter, filled, List.length_append]
      omega
    · intro none
      simp only [Relay.Exact, contentAfter, content]
      rw [← List.append_assoc, account.exact none]
    · rw [complete_read]
      exact account.complete

omit [CMemory] in
theorem Account.write {accepted : Nat} (account : Account events relay excess)
    (positive : 0 < accepted) (within : accepted ≤ relay.buffer.filled)
    (done : writeFrom relay accepted = some (after, outcome)) :
    ∃ more, Account (events ++ [.write accepted relay.buffer.filled]) after (excess + more) := by
  have balance := account.balance
  have content := account.bounded.length_content
  obtain ⟨bounded, filled⟩ := consume_spec account.bounded accepted positive within
  rw [writeFrom, if_neg (by omega), if_neg (by omega)] at done
  obtain ⟨rfl, _⟩ := Prod.mk.inj (Option.some.inj done)
  by_cases all : accepted = relay.buffer.filled
  · have empty : consume relay.buffer accepted = .empty := if_pos all.symm
    refine ⟨0, bounded, ?_, ?_, ?_⟩
    · simp only [Int.toNat_natCast, filled, if_pos all, List.length_append, List.length_take, content]
      omega
    · intro none
      have nothing : Buffer.empty.content = [] := rfl
      simp only [Relay.Exact, Int.toNat_natCast, empty, nothing, List.append_nil]
      rw [List.take_of_length_le (by omega)]
      exact account.exact none
    · rw [complete_write, Nat.add_zero, account.complete, and_iff_left all]
  · refine ⟨accepted, bounded, ?_, ?_, ?_⟩
    · simp only [Int.toNat_natCast, filled, if_neg all, List.length_append, List.length_take, content]
      omega
    · intro none
      omega
    · rw [complete_write]
      constructor
      · intro none
        omega
      · intro complete
        exact absurd complete.2 all

theorem account_run (run : RelayRun events relay) :
    ∃ excess, Account events relay excess := by
  induction run with
  | start => exact ⟨0, .empty, rfl, fun _ => rfl, iff_of_true rfl nofun⟩
  | snoc _ step ih =>
    obtain ⟨excess, account⟩ := ih
    cases step with
    | read small room done => exact ⟨excess, account.read small room done⟩
    | write positive within done =>
      obtain ⟨more, after⟩ := account.write positive within done
      exact ⟨excess + more, after⟩

/-- A stream is exact as long as every write accepts all it was offered, and from the first
partial write on it never is again. -/
theorem exact_iff_complete (run : RelayRun events relay) :
    relay.Exact ↔ Complete events := by
  obtain ⟨excess, account⟩ := account_run run
  rw [← account.complete]
  constructor
  · intro exact
    have balance := account.balance
    have length := congrArg List.length exact
    rw [List.length_append, account.bounded.length_content] at length
    omega
  · exact account.exact

end Relay

/-- A call of one of the four functions. -/
inductive ClientCall where
  | receive (bytes : List UInt8)
  | guiWrite (accepted offered : Nat)
  | guiRead (bytes : List UInt8)
  | send (accepted offered : Nat)

namespace ClientCall

/-- What the call does to the buffer from the socket to the GUI. -/
def toGUI : ClientCall → Option RelayEvent
  | receive bytes => some (.read bytes)
  | guiWrite accepted offered => some (.write accepted offered)
  | _ => none

/-- What it does to the one from the GUI to the socket. -/
def toSocket : ClientCall → Option RelayEvent
  | guiRead bytes => some (.read bytes)
  | send accepted offered => some (.write accepted offered)
  | _ => none

variable {calls : List ClientCall}

theorem mem_toGUI :
    .write accepted offered ∈ calls.filterMap toGUI ↔ .guiWrite accepted offered ∈ calls := by
  rw [List.mem_filterMap]
  constructor
  · rintro ⟨call, mem, write⟩
    cases call with
    | guiWrite a o =>
      cases write
      exact mem
    | _ => cases write
  · intro mem
    exact ⟨_, mem, rfl⟩

theorem mem_toSocket :
    .write accepted offered ∈ calls.filterMap toSocket ↔ .send accepted offered ∈ calls := by
  rw [List.mem_filterMap]
  constructor
  · rintro ⟨call, mem, write⟩
    cases call with
    | send a o =>
      cases write
      exact mem
    | _ => cases write
  · intro mem
    exact ⟨_, mem, rfl⟩

theorem filterMap_concat_none (f : ClientCall → Option RelayEvent) (calls : List ClientCall)
    (other : f call = none) : (calls ++ [call]).filterMap f = calls.filterMap f := by
  rw [List.filterMap_append, List.filterMap_cons_none other, List.filterMap_nil, List.append_nil]

end ClientCall

section Client
variable [CMemory]

theorem clientReceive_spec (done : clientReceive client result = some after) :
    after.outBuffer = client.outBuffer ∧
      ∃ more, readInto client.inBuffer result = some (after.inBuffer, more) := by
  obtain ⟨⟨relay, more⟩, read, rfl⟩ := Option.map_eq_some_iff.mp done
  cases more <;> exact ⟨rfl, _, read⟩

theorem clientGUIRead_spec (done : clientGUIRead client result = some after) :
    after.inBuffer = client.inBuffer ∧
      ∃ more, readInto client.outBuffer result = some (after.outBuffer, more) := by
  obtain ⟨⟨relay, more⟩, read, rfl⟩ := Option.map_eq_some_iff.mp done
  cases more <;> exact ⟨rfl, _, read⟩

omit [CMemory] in
theorem clientGUIWrite_spec (done : clientGUIWrite client len = some after) :
    after.outBuffer = client.outBuffer ∧
      ∃ outcome, writeFrom client.inBuffer len = some (after.inBuffer, outcome) := by
  obtain ⟨⟨relay, outcome⟩, written, rfl⟩ := Option.map_eq_some_iff.mp done
  cases outcome <;> exact ⟨rfl, _, written⟩

omit [CMemory] in
theorem clientSend_spec (done : clientSend client len = some after) :
    after.inBuffer = client.inBuffer ∧
      ∃ outcome, writeFrom client.outBuffer len = some (after.outBuffer, outcome) := by
  obtain ⟨⟨relay, outcome⟩, written, rfl⟩ := Option.map_eq_some_iff.mp done
  cases outcome <;> exact ⟨rfl, _, written⟩

/-- The system calls deliver no more than there is room for, and accept at least one byte
of what is in use. -/
inductive ClientStep (client : Client) : ClientCall → Client → Prop where
  | receive (small : client.inBuffer.buffer.length < 2 ^ 31)
      (room : bytes.length ≤ offeredRoom (makeRoom client.inBuffer.buffer))
      (done : clientReceive client (some bytes) = some after) : ClientStep client (.receive bytes) after
  | guiWrite {accepted : Nat} (positive : 0 < accepted)
      (within : accepted ≤ client.inBuffer.buffer.filled)
      (done : clientGUIWrite client accepted = some after) :
      ClientStep client (.guiWrite accepted client.inBuffer.buffer.filled) after
  | guiRead (small : client.outBuffer.buffer.length < 2 ^ 31)
      (room : bytes.length ≤ offeredRoom (makeRoom client.outBuffer.buffer))
      (done : clientGUIRead client (some bytes) = some after) : ClientStep client (.guiRead bytes) after
  | send {accepted : Nat} (positive : 0 < accepted)
      (within : accepted ≤ client.outBuffer.buffer.filled)
      (done : clientSend client accepted = some after) :
      ClientStep client (.send accepted client.outBuffer.buffer.filled) after

abbrev ClientRun (socket guiInFD guiOutFD : Int) : List ClientCall → Client → Prop :=
  Transition.Run ClientStep (clientCreate socket guiInFD guiOutFD)

/-- Each function works on one of the two buffers, and leaves the other alone. -/
theorem relayRun_of_clientRun (run : ClientRun socket guiInFD guiOutFD calls client) :
    RelayRun (calls.filterMap ClientCall.toGUI) client.inBuffer ∧
      RelayRun (calls.filterMap ClientCall.toSocket) client.outBuffer := by
  induction run with
  | start => exact ⟨.start, .start⟩
  | snoc _ step ih =>
    obtain ⟨toGUI, toSocket⟩ := ih
    cases step with
    | receive small room done =>
      obtain ⟨same, more, read⟩ := clientReceive_spec done
      rw [same, ClientCall.filterMap_concat_none ClientCall.toSocket _ rfl, List.filterMap_append]
      exact ⟨toGUI.snoc (.read small room read), toSocket⟩
    | guiWrite positive within done =>
      obtain ⟨same, outcome, written⟩ := clientGUIWrite_spec done
      rw [same, ClientCall.filterMap_concat_none ClientCall.toSocket _ rfl, List.filterMap_append]
      exact ⟨toGUI.snoc (.write positive within written), toSocket⟩
    | guiRead small room done =>
      obtain ⟨same, more, read⟩ := clientGUIRead_spec done
      rw [same, ClientCall.filterMap_concat_none ClientCall.toGUI _ rfl, List.filterMap_append]
      exact ⟨toGUI, toSocket.snoc (.read small room read)⟩
    | send positive within done =>
      obtain ⟨same, outcome, written⟩ := clientSend_spec done
      rw [same, ClientCall.filterMap_concat_none ClientCall.toGUI _ rfl, List.filterMap_append]
      exact ⟨toGUI, toSocket.snoc (.write positive within written)⟩

/-- Either direction is exact as long as every write in it accepts all it was offered, and
from the first partial one on it never is again. -/
theorem client_relay (run : ClientRun socket guiInFD guiOutFD calls client) :
    (client.inBuffer.Exact ↔
      ∀ accepted offered, .guiWrite accepted offered ∈ calls → accepted = offered) ∧
    (client.outBuffer.Exact ↔
      ∀ accepted offered, .send accepted offered ∈ calls → accepted = offered) := by
  obtain ⟨toGUI, toSocket⟩ := relayRun_of_clientRun run
  rw [exact_iff_complete toGUI, exact_iff_complete toSocket]
  simp only [Complete, ClientCall.mem_toGUI, ClientCall.mem_toSocket, and_self]

end Client

/-- Two bytes came from the GUI. -/
def twoBytesRead : Client :=
  ((@clientGUIRead .zeroed (clientCreate 3 4 5) (some [97, 10])).getD (clientCreate 3 4 5))

theorem twoBytesRead_run : @ClientRun .zeroed 3 4 5 [.guiRead [97, 10]] twoBytesRead := by
  let _ := CMemory.zeroed
  exact .single (.guiRead (by decide) (by decide) rfl)

/-- Both bytes are accepted at once. -/
theorem client_relay_complete :
    ((clientSend twoBytesRead 2).getD twoBytesRead).outBuffer.Exact := by
  let _ := CMemory.zeroed
  have step : ClientStep twoBytesRead (.send 2 twoBytesRead.outBuffer.buffer.filled)
      ((clientSend twoBytesRead 2).getD twoBytesRead) := .send (by decide) (by decide) rfl
  refine (client_relay (.snoc twoBytesRead_run step)).2.mpr ?_
  have filled : twoBytesRead.outBuffer.buffer.filled = 2 := by decide
  simp [filled]

/-- Only the first of both is accepted. -/
theorem client_relay_partial : ∃ calls client, @ClientRun .zeroed 3 4 5 calls client ∧
    ¬client.outBuffer.Exact := by
  let _ := CMemory.zeroed
  have step : ClientStep twoBytesRead (.send 1 twoBytesRead.outBuffer.buffer.filled)
      ((clientSend twoBytesRead 1).getD twoBytesRead) := .send (by decide) (by decide) rfl
  refine ⟨_, _, .snoc twoBytesRead_run step, ?_⟩
  rw [Relay.Exact]
  decide

end KommunikationNetze.ChatClient
