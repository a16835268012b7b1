import KommunikationNetze.Echo.EchoServer
import KommunikationNetze.Library.Transition
import Mathlib.Data.List.Induction

/-! The stream of a client of the echo server. Of what a `send` leaves in the buffer, only
as many bytes survive as it accepted; and what another client left in the memory of a new one
is sent to it. -/
namespace KommunikationNetze.Echo
open CLib

/-- The string in the buffer. -/
def EchoClient.text (client : EchoClient) : CString := stringAt client.buffer

/-- The block is as long as recorded and holds a string. -/
structure Holds (client : EchoClient) (s : CString) : Prop where
  allocated : client.buffer.length = client.bufferLen
  terminated : ∃ rest, client.buffer = s.bytes ++ 0 :: rest

/-- There is no block yet, or a string in it. -/
def WellFormed (client : EchoClient) : Prop := client.buffer = [] ∨ Holds client client.text

/-- The string in the buffer is what was received and not sent. -/
structure Balanced (client : EchoClient) : Prop where
  formed : WellFormed client
  exact : client.sent ++ client.text.bytes = client.received

/-- A new client in this memory has no buffer, or the empty string in it. -/
structure LeftOver.Clean (left : LeftOver) : Prop where
  formed : WellFormed (acceptNewClient left)
  empty : (acceptNewClient left).text = []

theorem clean_null : LeftOver.null.Clean := ⟨.inl rfl, rfl⟩

theorem clean_iff {left : LeftOver} : left.Clean ↔ Balanced (acceptNewClient left) := by
  have nothing : (acceptNewClient left).text = [] ↔ (acceptNewClient left).text.bytes = [] := by
    rw [CString.bytes, List.map_eq_nil_iff]
  exact ⟨fun clean => ⟨clean.formed, nothing.mp clean.empty⟩,
    fun balanced => ⟨balanced.formed, nothing.mpr balanced.exact⟩⟩

/-- What a client without a string leaves is clean. -/
theorem WellFormed.clean {client : EchoClient} (formed : WellFormed client) (empty : client.text = []) :
    client.leftOver.Clean := ⟨formed.imp_right fun holds => ⟨holds.allocated, holds.terminated⟩, empty⟩

section String
variable {client : EchoClient} {s : CString}

theorem Holds.text (holds : Holds client s) : client.text = s := by
  obtain ⟨rest, terminated⟩ := holds.terminated
  rw [EchoClient.text, terminated, stringAt_bytes_append]

theorem Holds.strlen (holds : Holds client s) : strlen client.buffer = s.length := by
  rw [Echo.strlen, ← EchoClient.text, holds.text]

theorem Holds.wellFormed (holds : Holds client s) : WellFormed client := by
  right
  rw [holds.text]
  exact holds

theorem doubled_spec (positive : 0 < newSize) (enough : needed ≤ newSize + fuel) :
    newSize ≤ doubled fuel newSize needed ∧ needed ≤ doubled fuel newSize needed := by
  induction fuel generalizing newSize with
  | zero => exact ⟨Nat.le_refl _, enough⟩
  | succ fuel ih =>
    rw [doubled]
    split
    · obtain ⟨grows, fits⟩ := ih (show 0 < newSize * 2 by omega) (by omega)
      exact ⟨by omega, fits⟩
    · omega

/-- What is cut off behind a place is gone, and a terminator comes there. -/
theorem take_terminated (s : CString) (rest zeros : List UInt8) (count : Nat) :
    ∃ tail, (s.bytes ++ 0 :: rest).take count ++ 0 :: zeros =
      CString.bytes (s.take count) ++ 0 :: tail := by
  have length := length_bytes s
  by_cases inside : count ≤ s.length
  · refine ⟨zeros, ?_⟩
    rw [List.take_append_of_le_length (by omega), CString.bytes, CString.bytes, List.map_take]
  · obtain ⟨more, rfl⟩ : ∃ more, count = s.length + (more + 1) := ⟨count - s.length - 1, by omega⟩
    refine ⟨rest.take more ++ 0 :: zeros, ?_⟩
    rw [← length, List.take_length_add_append, List.take_succ_cons, List.append_assoc,
      List.cons_append, List.take_of_length_le (show s.length ≤ _ by omega)]

end String

section Read
variable [CMemory] {client : EchoClient} {s : CString}

theorem allocated_spec (formed : WellFormed client) :
    Holds client.allocated client.text ∧ client.allocated.received = client.received ∧
      client.allocated.sent = client.sent := by
  have cleared : memset (realloc [] 20) 0 0 20 = 0 :: List.replicate 19 0 := by
    have all := memset_append [] (realloc [] 20) 0
    rw [length_realloc] at all
    exact all
  rw [EchoClient.allocated]
  split
  · rename_i null
    have empty : client.text = [] := by rw [EchoClient.text, null, stringAt]
    rw [empty]
    refine ⟨⟨?_, List.replicate 19 0, ?_⟩, rfl, rfl⟩
    · simp only [cleared, List.length_cons, List.length_replicate]
    · simp only [cleared, bytes_nil, List.nil_append]
  · rename_i block
    exact ⟨formed.resolve_left block, rfl, rfl⟩

theorem resized_spec (holds : Holds client s) (size : Nat) :
    Holds (client.resized size) s ∧ (client.resized size).received = client.received ∧
      (client.resized size).sent = client.sent ∧ s.length + size ≤ (client.resized size).bufferLen := by
  obtain ⟨allocated, rest, terminated⟩ := id holds
  have length := congrArg List.length terminated
  rw [List.length_append, List.length_cons, length_bytes] at length
  rw [EchoClient.resized, holds.strlen]
  simp only
  split
  · obtain ⟨grows, fits⟩ : client.bufferLen ≤ doubled (s.length + size) client.bufferLen (s.length + size) ∧
        s.length + size ≤ doubled (s.length + size) client.bufferLen (s.length + size) :=
      doubled_spec (by omega) (by omega)
    rw [← allocated] at grows
    obtain ⟨fresh, grown, _⟩ := realloc_grow grows
    refine ⟨⟨length_realloc _ _, rest ++ fresh, ?_⟩, rfl, rfl, fits⟩
    simp only [allocated] at grown
    simp only [grown]
    rw [terminated, List.append_assoc, List.cons_append]
  · refine ⟨holds, rfl, rfl, ?_⟩
    omega

/-- The bytes without a terminator among them are appended to the string. -/
theorem append_spec (formed : WellFormed client) (bytes : CString) :
    Holds (client.append bytes.bytes) (client.text ++ bytes) ∧
      (client.append bytes.bytes).received = client.received ++ bytes.bytes ∧
      (client.append bytes.bytes).sent = client.sent := by
  obtain ⟨first, firstReceived, firstSent⟩ := allocated_spec formed
  obtain ⟨holds, received, sent, room⟩ := resized_spec first (bytes.bytes.length + 1)
  obtain ⟨allocated, rest, terminated⟩ := id holds
  have length := congrArg List.length terminated
  rw [List.length_append, List.length_cons, length_bytes client.text] at length
  have copied := memcpy_append client.text.bytes (bytes.bytes ++ [0]) (0 :: rest)
  rw [← terminated, length_bytes client.text, ← holds.strlen, List.length_append,
    List.length_singleton, List.drop_succ_cons] at copied
  refine ⟨⟨?_, rest.drop bytes.bytes.length, ?_⟩, ?_, ?_⟩
  · simp only [EchoClient.append, copied]
    simp only [List.length_append, List.length_singleton, List.length_drop]
    rw [length_bytes client.text]
    omega
  · simp only [EchoClient.append, copied, bytes_append, List.append_assoc, List.singleton_append]
  · simp only [EchoClient.append, received, firstReceived]
  · simp only [EchoClient.append, sent, firstSent]

/-- What `recv` delivers in the stream: fewer than 254 bytes, none of them zero. -/
def Delivers (recvs : List (Option (List UInt8))) : Prop :=
  ∀ bytes, some bytes ∈ recvs → bytes.length < 254 ∧ 0 ∉ bytes

omit [CMemory] in
theorem exists_bytes {bytes : List UInt8} (nonzero : 0 ∉ bytes) : ∃ s : CString, s.bytes = bytes := by
  refine ⟨bytes.attach.map fun b => ⟨b.val, fun zero => nonzero (zero ▸ b.property)⟩, ?_⟩
  simp [CString.bytes]

theorem read_spec (formed : WellFormed client) (delivers : Delivers recvs) :
    WellFormed (readClientToBuffer client recvs).1 ∧
      (readClientToBuffer client recvs).1.sent = client.sent ∧
      ∃ bytes : CString, (readClientToBuffer client recvs).1.text = client.text ++ bytes ∧
        (readClientToBuffer client recvs).1.received = client.received ++ bytes.bytes := by
  have unchanged : WellFormed client ∧ client.sent = client.sent ∧
      ∃ bytes : CString, client.text = client.text ++ bytes ∧
        client.received = client.received ++ bytes.bytes :=
    ⟨formed, rfl, [], (List.append_nil _).symm, (List.append_nil _).symm⟩
  cases recvs with
  | nil => exact unchanged
  | cons first rest =>
    cases first with
    | none => exact unchanged
    | some bytes =>
      obtain ⟨short, nonzero⟩ := delivers bytes List.mem_cons_self
      obtain ⟨bytes, rfl⟩ := exists_bytes nonzero
      rw [readClientToBuffer]
      split
      · exact unchanged
      · rw [if_neg (by omega)]
        obtain ⟨holds, received, sent⟩ := append_spec formed bytes
        exact ⟨holds.wellFormed, sent, bytes, holds.text, received⟩

end Read

section Write
variable {client : EchoClient} {s : CString}

/-- The rest of the string, with its terminator, moves to the front. -/
theorem moved_spec (holds : Holds client s) (within : sendSize ≤ s.length) :
    ∃ rest, memmove client.buffer sendSize (strlen client.buffer + 1 - sendSize) =
        CString.bytes (s.drop sendSize) ++ 0 :: rest ∧
      (CString.bytes (s.drop sendSize) ++ 0 :: rest).length = client.bufferLen := by
  obtain ⟨tail, terminated⟩ := holds.terminated
  have total := congrArg List.length terminated
  rw [List.length_append, List.length_cons, length_bytes, holds.allocated] at total
  have front : (CString.bytes (s.take sendSize)).length = sendSize := by
    rw [length_bytes, List.length_take_of_le within]
  have behind : (CString.bytes (s.drop sendSize) ++ [0]).length = s.length + 1 - sendSize := by
    rw [List.length_append, length_bytes, List.length_drop, List.length_singleton]
    omega
  have block : client.buffer =
      CString.bytes (s.take sendSize) ++ (CString.bytes (s.drop sendSize) ++ [0]) ++ tail := by
    rw [terminated, ← List.append_assoc, ← bytes_append, List.take_append_drop, List.append_assoc,
      List.singleton_append]
  obtain ⟨rest, moved, length⟩ :=
    memmove_append (CString.bytes (s.take sendSize)) (CString.bytes (s.drop sendSize) ++ [0]) tail
  rw [← block, front, behind, ← holds.strlen, List.append_assoc, List.singleton_append] at moved
  refine ⟨rest, moved, ?_⟩
  rw [List.length_append, List.length_cons, length_bytes, List.length_drop, length, front]
  omega

/-- It is cut off there after as many bytes as were accepted. -/
theorem write_spec (holds : Holds client s) (within : sendSize ≤ s.length) :
    Holds (writeBufferToClient client (some sendSize)).1 ((s.drop sendSize).take sendSize) ∧
      (writeBufferToClient client (some sendSize)).1.sent =
        client.sent ++ CString.bytes (s.take sendSize) ∧
      (writeBufferToClient client (some sendSize)).1.received = client.received := by
  obtain ⟨tail, terminated⟩ := holds.terminated
  have total := congrArg List.length terminated
  rw [List.length_append, List.length_cons, length_bytes, holds.allocated] at total
  obtain ⟨rest, moved, length⟩ := moved_spec holds within
  obtain ⟨zeros, room⟩ : ∃ zeros, client.bufferLen - sendSize = zeros + 1 :=
    ⟨client.bufferLen - sendSize - 1, by omega⟩
  have cleared := memset_rest (show sendSize ≤ (CString.bytes (s.drop sendSize) ++ 0 :: rest).length by
    omega) 0
  rw [length, room, List.replicate_succ] at cleared
  obtain ⟨kept, cut⟩ := take_terminated (s.drop sendSize) rest (List.replicate zeros 0) sendSize
  refine ⟨⟨?_, kept, ?_⟩, ?_, rfl⟩
  · simp only [writeBufferToClient, moved, room, cleared, List.length_append, List.length_cons,
      List.length_replicate, List.length_take, length]
    omega
  · simp only [writeBufferToClient, moved, room, cleared, cut]
  · simp only [writeBufferToClient, terminated]
    rw [List.take_append_of_le_length (by rw [length_bytes]; exact within), CString.bytes,
      CString.bytes, List.map_take]

end Write

section Run
variable [CMemory] {client : EchoClient} {event : EchoEvent}

/-- What `send` accepts in this step, if it is called and does not fail. -/
def accepted (client : EchoClient) (event : EchoEvent) : Option Nat :=
  let (read, more) := readClientToBuffer client event.recvs
  if more && writes read then event.send else none

/-- What the system calls promise: `recv` delivers, and `send` accepts no more than it is
offered. -/
structure Admissible (client : EchoClient) (event : EchoEvent) : Prop where
  delivers : Delivers event.recvs
  within : ∀ sendSize, accepted client event = some sendSize →
    sendSize ≤ strlen (readClientToBuffer client event.recvs).1.buffer

/-- What `send` leaves is no longer than what it accepts. -/
def LeavesLess (client : EchoClient) (event : EchoEvent) : Prop :=
  ∀ sendSize, accepted client event = some sendSize →
    strlen (readClientToBuffer client event.recvs).1.buffer - sendSize ≤ sendSize

theorem processClient_fst (client : EchoClient) (event : EchoEvent) :
    (processClient client event).1 = match accepted client event with
      | some sendSize =>
        (writeBufferToClient (readClientToBuffer client event.recvs).1 (some sendSize)).1
      | none => (readClientToBuffer client event.recvs).1 := by
  rw [processClient, accepted]
  obtain ⟨read, more⟩ := readClientToBuffer client event.recvs
  cases more with
  | false => rfl
  | true =>
    simp only [Bool.true_and]
    split
    · cases event.send <;> rfl
    · rfl

/-- Nothing is written without a string. -/
theorem holds_of_accepted (formed : WellFormed (readClientToBuffer client event.recvs).1)
    (accepts : accepted client event = some sendSize) :
    Holds (readClientToBuffer client event.recvs).1 (readClientToBuffer client event.recvs).1.text := by
  refine formed.resolve_left ?_
  intro null
  simp only [accepted, writes, null, strchr] at accepts
  simp at accepts

/-- The balance of the stream. -/
structure Account (client : EchoClient) (lost : Nat) : Prop where
  formed : WellFormed client
  balance : client.sent.length + client.text.length + lost = client.received.length
  exact : lost = 0 → client.sent ++ client.text.bytes = client.received

/-- A step loses what `send` leaves beyond what it accepts. -/
theorem Account.step (account : Account client lost) (admissible : Admissible client event) :
    ∃ more, Account (processClient client event).1 (lost + more) ∧
      (more = 0 ↔ LeavesLess client event) := by
  obtain ⟨formed, sent, bytes, text, received⟩ := read_spec account.formed admissible.delivers
  have balance := account.balance
  rw [processClient_fst]
  cases accepts : accepted client event with
  | none =>
    refine ⟨0, ⟨formed, ?_, ?_⟩, ?_⟩
    · rw [sent, text, received, List.length_append, List.length_append, length_bytes]
      omega
    · intro none
      rw [sent, text, received, bytes_append, ← List.append_assoc, account.exact none]
    · simp [LeavesLess, accepts]
  | some sendSize =>
    have holds := holds_of_accepted formed accepts
    have within := admissible.within sendSize accepts
    have offered := holds.strlen
    rw [offered] at within
    obtain ⟨after, sentAfter, receivedAfter⟩ := write_spec holds within
    have length : ((readClientToBuffer client event.recvs).1.text).length =
        client.text.length + bytes.length := by rw [text, List.length_append]
    refine ⟨(readClientToBuffer client event.recvs).1.text.length - sendSize - sendSize,
      ⟨after.wellFormed, ?_, ?_⟩, ?_⟩
    · simp only [sentAfter, receivedAfter, after.text, sent, received, List.length_append, length_bytes,
        List.length_take, List.length_drop]
      omega
    · intro none
      have kept : ((readClientToBuffer client event.recvs).1.text.drop sendSize).take sendSize =
          (readClientToBuffer client event.recvs).1.text.drop sendSize :=
        List.take_of_length_le (by rw [List.length_drop]; omega)
      rw [sentAfter, receivedAfter, after.text, sent, received, kept, List.append_assoc,
        ← bytes_append, List.take_append_drop, text, bytes_append, ← List.append_assoc,
        account.exact (by omega)]
    · simp only [LeavesLess, accepts, Option.some.injEq, forall_eq', offered]
      omega

omit [CMemory] in
theorem Account.balanced_iff (account : Account client lost) : Balanced client ↔ lost = 0 := by
  refine ⟨fun balanced => ?_, fun none => ⟨account.formed, account.exact none⟩⟩
  have balance := account.balance
  have length := congrArg List.length balanced.exact
  rw [List.length_append, length_bytes] at length
  omega

omit [CMemory] in
theorem LeftOver.Clean.account {left : LeftOver} (clean : left.Clean) : Account (acceptNewClient left) 0 where
  formed := clean.formed
  balance := by rw [clean.empty, acceptNewClient, List.length_nil, List.length_nil]
  exact _ := (clean_iff.mp clean).exact

/-- A condition on every step of the client before it was closed. -/
def EveryStep (left : LeftOver) (P : EchoClient → EchoEvent → Prop) (events : List EchoEvent) : Prop :=
  Transition.EveryStep (fun before event =>
    (echoAfter left before).2 = true → P (echoAfter left before).1 event) events

theorem account_echoAfter {left : LeftOver} (clean : left.Clean) (events : List EchoEvent)
    (admissible : EveryStep left Admissible events) :
    ∃ lost, Account (echoAfter left events).1 lost ∧ (lost = 0 ↔ EveryStep left LeavesLess events) := by
  induction events using List.reverseRecOn with
  | nil => exact ⟨0, clean.account, iff_of_true rfl Transition.everyStep_nil⟩
  | append_singleton events event ih =>
    obtain ⟨earlier, last⟩ := (Transition.everyStep_concat events event).mp admissible
    obtain ⟨lost, account, exact⟩ := ih earlier
    rw [EveryStep, Transition.everyStep_concat, ← EveryStep, ← exact, echoAfter, List.foldl_append,
      ← echoAfter, List.foldl_cons, List.foldl_nil, runloop]
    cases closed : (echoAfter left events).2 with
    | false => exact ⟨lost, account, by simp⟩
    | true =>
      obtain ⟨more, after, loses⟩ := account.step (last closed)
      refine ⟨lost + more, after, ?_⟩
      rw [Nat.add_eq_zero_iff, loses]
      simp

/-- The stream is exact at every time exactly if the client starts without a string and every
`send` leaves no more than it accepts. -/
theorem echo_stream (left : LeftOver) (events : List EchoEvent) (admissible : EveryStep left Admissible events) :
    (∀ before, before <+: events → Balanced (echoAfter left before).1) ↔
      left.Clean ∧ EveryStep left LeavesLess events := by
  constructor
  · intro balanced
    have clean : left.Clean := clean_iff.mpr (balanced [] List.nil_prefix)
    obtain ⟨lost, account, none⟩ := account_echoAfter clean events admissible
    exact ⟨clean, none.mp (account.balanced_iff.mp (balanced events (List.prefix_refl _)))⟩
  · rintro ⟨clean, leaves⟩ before early
    obtain ⟨lost, account, none⟩ := account_echoAfter clean before (admissible.earlier early)
    exact account.balanced_iff.mpr (none.mpr (leaves.earlier early))

theorem everyStep_single {left : LeftOver} {P : EchoClient → EchoEvent → Prop}
    (meets : P (acceptNewClient left) event) : EveryStep left P [event] := by
  refine (Transition.everyStep_concat [] event).mpr ⟨Transition.everyStep_nil, ?_⟩
  intro _
  exact meets

end Run

/-- These bytes arrive at once, and `send` accepts so many. -/
def arrival (bytes : List UInt8) (sendSize : Nat) : EchoEvent :=
  { recvs := [some bytes], send := some sendSize }

theorem arrival_admissible [CMemory] {left : LeftOver} {bytes : List UInt8} (short : bytes.length < 254)
    (nonzero : 0 ∉ bytes)
    (within : sendSize ≤ strlen (readClientToBuffer (acceptNewClient left) [some bytes]).1.buffer) :
    EveryStep left Admissible [arrival bytes sendSize] := by
  apply everyStep_single
  constructor
  · intro other mem
    obtain rfl := Option.some.inj (List.mem_singleton.mp mem)
    exact ⟨short, nonzero⟩
  · intro other accepts
    obtain ⟨_, same⟩ := Option.ite_none_right_eq_some.mp accepts
    cases same
    exact within

/-- Half of the bytes are accepted. -/
theorem echo_stream_half : Balanced (@echoAfter .zeroed .null [arrival [97, 98, 99, 10] 2]).1 := by
  let _ := CMemory.zeroed
  refine (echo_stream .null _ (arrival_admissible (by decide) (by decide) (by decide))).mpr
    ⟨clean_null, everyStep_single ?_⟩ _ (List.prefix_refl _)
  intro other accepts
  have called : accepted (acceptNewClient .null) (arrival [97, 98, 99, 10] 2) = some 2 := rfl
  rw [called, Option.some.injEq] at accepts
  subst accepts
  decide

/-- What a client without a newline leaves behind. -/
def abandoned : LeftOver := (@echoAfter .zeroed .null [arrival [97, 98, 99] 0]).1.leftOver

/-- Of four bytes one is accepted, and of the other three only one stays. And the next client in
the memory of one that has sent three bytes gets these three as well. -/
theorem echo_stream_partial :
    (@EveryStep .zeroed .null (@Admissible .zeroed) [arrival [97, 98, 99, 10] 1] ∧
      let client := (@echoAfter .zeroed .null [arrival [97, 98, 99, 10] 1]).1
      client.sent ++ client.text.bytes ≠ client.received) ∧
    @EveryStep .zeroed abandoned (@Admissible .zeroed) [arrival [120, 10] 5] ∧
      let client := (@echoAfter .zeroed abandoned [arrival [120, 10] 5]).1
      client.sent = [97, 98, 99, 120, 10] ∧ client.received = [120, 10] := by
  let _ := CMemory.zeroed
  exact ⟨⟨arrival_admissible (by decide) (by decide) (by decide), by decide⟩,
    arrival_admissible (by decide) (by decide) (by decide +kernel), by decide +kernel, by decide +kernel⟩

end KommunikationNetze.Echo
