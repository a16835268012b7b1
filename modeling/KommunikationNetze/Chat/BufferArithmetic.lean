import KommunikationNetze.Chat.OutputHistory
import KommunikationNetze.Chat.Framing

/-! The lengths of the buffers are 32-bit numbers, which no limit on lines or on the backlog
keeps from wrapping. They are right exactly as long as no client has 2^31 - 1 bytes of
unhandled input and no output buffer grows to 2^32 bytes. -/
namespace KommunikationNetze.Chat
open CLib Transition

section Arithmetic
variable [CMemory]

section Reads

/-- Nothing in `ClientDoRead` has wrapped: a grown block is longer than what it holds with a
terminator, and `recv` is offered what is allocated behind it. -/
structure ReadRoom (buffer : Buffer) : Prop where
  larger : u32Sub buffer.length buffer.filled < 2 → buffer.filled + 1 < (makeRoom buffer).length
  inside : buffer.filled + offered (makeRoom buffer) ≤ (makeRoom buffer).memory.length

/-- The bytes in use with zeros behind them, in a block that was doubled from 1024 on. -/
structure Sized (buffer : Buffer) : Prop where
  holds : ∃ bytes, Holds buffer bytes
  length : buffer.length = 0 ∨ ∃ k, 10 ≤ k ∧ k ≤ 31 ∧ buffer.length = 2 ^ k

omit [CMemory] in
theorem Sized.empty : Sized .empty := ⟨⟨[], .empty⟩, .inl rfl⟩

omit [CMemory] in
theorem Sized.bounds (sized : Sized buffer) : buffer.memory.length = buffer.length ∧
    (buffer.filled < buffer.length ∨ buffer.filled = 0 ∧ buffer.length = 0) ∧
    (buffer.length < 2 ^ 31 ∨ buffer.length = 2 ^ 31) := by
  obtain ⟨⟨bytes, holds⟩, length⟩ := sized
  refine ⟨holds.length_memory, ?_, ?_⟩
  · rw [holds.filled]
    exact holds.room.imp_right fun empty => ⟨congrArg List.length empty.1, empty.2⟩
  · rcases length with none | ⟨k, _, bound, length⟩
    · exact .inl (none ▸ by decide)
    · rw [length]
      exact Nat.lt_or_eq_of_le (Nat.pow_le_pow_right Nat.two_pos bound)

/-- The block is doubled, unless it cannot be. -/
theorem makeRoom_sized (sized : Sized buffer) (below : buffer.filled < 2 ^ 31 - 1) :
    Sized (makeRoom buffer) ∧ (makeRoom buffer).filled = buffer.filled ∧
      buffer.filled + 2 ≤ (makeRoom buffer).length := by
  obtain ⟨memory, room, small | largest⟩ := sized.bounds
  · obtain ⟨⟨bytes, holds⟩, length⟩ := sized
    obtain ⟨grown, space, _⟩ := makeRoom_spec holds small
    refine ⟨⟨⟨bytes, grown⟩, ?_⟩, grown.filled.trans holds.filled.symm, holds.filled ▸ space⟩
    have double : u32 (buffer.length * 2) = buffer.length * 2 := u32_of_lt (by omega)
    simp only [makeRoom, double]
    split
    · rcases length with none | ⟨k, least, _, length⟩
      · rw [none]
        exact .inr ⟨10, Nat.le_refl _, by decide, rfl⟩
      · rw [length] at small ⊢
        have bound := (Nat.pow_lt_pow_iff_right (by decide)).mp small
        have minimum := Nat.pow_le_pow_right Nat.two_pos (Nat.le_succ_of_le least)
        rw [← Nat.pow_succ, if_neg (Nat.not_lt.mpr minimum)]
        exact .inr ⟨k + 1, Nat.le_succ_of_le least, bound, rfl⟩
    · exact length
  · have enough : ¬u32Sub buffer.length buffer.filled < 2 := by
      rw [u32Sub_of_le (by omega)]
      omega
    rw [makeRoom, if_neg enough]
    exact ⟨sized, rfl, by omega⟩

/-- A block of 2^31 bytes cannot be doubled, so it must not fill up. -/
theorem readRoom_iff (sized : Sized buffer) : ReadRoom buffer ↔ buffer.filled < 2 ^ 31 - 1 := by
  constructor
  · intro room
    by_contra full
    obtain ⟨_, inside, size⟩ := sized.bounds
    have length : buffer.length = 2 ^ 31 := by omega
    have short : u32Sub buffer.length buffer.filled < 2 := by
      rw [u32Sub_of_le (by omega)]
      omega
    have double : u32 (buffer.length * 2) = 0 := by rw [length]; rfl
    have wrapped : (makeRoom buffer).length = 1024 := by
      simp only [makeRoom, if_pos short, double]
      rfl
    have larger := room.larger short
    omega
  · intro below
    obtain ⟨grown, filled, space⟩ := makeRoom_sized sized below
    obtain ⟨memory, _⟩ := grown.bounds
    refine ⟨fun _ => by omega, ?_⟩
    have free : offered (makeRoom buffer) = (makeRoom buffer).length - buffer.filled - 1 := by
      rw [offered, filled, u32Sub_of_le (show buffer.filled ≤ (makeRoom buffer).length by omega)]
      exact u32Sub_of_le (by omega)
    omega

omit [CMemory] in
/-- The newline that is found ends a line without zero bytes. -/
theorem strchr_split {memory : List UInt8} {byte : UInt8} {n : Nat} (found : strchr memory byte = some n) :
    ∃ (line : CString) (rest : List UInt8), memory = line.bytes ++ byte :: rest ∧ byte ∉ line.bytes := by
  induction memory generalizing n with
  | nil => cases found
  | cons b memory ih =>
    simp only [strchr] at found
    split at found
    · rename_i same
      exact ⟨[], memory, by rw [same]; rfl, List.not_mem_nil⟩
    · rename_i other
      split at found
      · cases found
      · rename_i nonzero
        obtain ⟨m, found, _⟩ := Option.map_eq_some_iff.mp found
        obtain ⟨line, rest, shape, absent⟩ := ih found
        refine ⟨⟨b, nonzero⟩ :: line, rest, by rw [shape]; rfl, ?_⟩
        exact List.not_mem_cons_of_ne_of_not_mem (Ne.symm other) absent

omit [CMemory] in
theorem takeLine_length (buffer : Buffer) :
    (takeLine buffer).2.length = buffer.length ∨ (takeLine buffer).2 = .empty := by
  simp only [takeLine]
  split
  · exact .inl rfl
  · simp only [dropLine]
    split
    · exact .inl rfl
    · exact .inr rfl

omit [CMemory] in
theorem takeLine_sized (sized : Sized buffer) : Sized (takeLine buffer).2 := by
  obtain ⟨⟨bytes, holds⟩, length⟩ := sized
  have kept : ∃ rest, Holds (takeLine buffer).2 rest := by
    cases found : strchr buffer.memory 10 with
    | none =>
      rw [takeLine, found]
      exact ⟨bytes, holds⟩
    | some n =>
      obtain ⟨line, rest, shape, absent⟩ := strchr_split found
      obtain ⟨after, rfl⟩ : ∃ after, bytes = line.bytes ++ 10 :: after := by
        have newline : ∀ count, (10 : UInt8) ∉ List.replicate count 0 := fun count mem =>
          absurd (List.eq_of_mem_replicate mem) (by decide)
        rw [holds.memory] at shape
        rcases List.append_eq_append_iff.mp shape with ⟨more, _, zeros⟩ | ⟨more, rfl, behind⟩
        · exact absurd (zeros ▸ List.mem_append_right _ List.mem_cons_self) (newline _)
        · cases more with
          | nil => exact absurd (behind ▸ List.mem_cons_self) (newline _)
          | cons b more =>
            obtain ⟨rfl, _⟩ := List.cons.inj behind
            exact ⟨more, rfl⟩
      exact ⟨_, (takeLine_of_line holds absent).2⟩
  rcases takeLine_length buffer with same | none
  · exact ⟨kept, same ▸ length⟩
  · rw [none]
    exact .empty

theorem read_sized {input : Input} {result : Option (List UInt8)} (sized : Sized input.buffer)
    (below : input.buffer.filled < 2 ^ 31 - 1)
    (fits : (result.getD []).length ≤ offered (makeRoom input.buffer)) : Sized (input.read result).buffer := by
  obtain ⟨grown, filled, space⟩ := makeRoom_sized sized below
  cases result with
  | none => exact grown
  | some chunk =>
    cases chunk with
    | nil => exact grown
    | cons b chunk =>
      obtain ⟨_, _, size⟩ := grown.bounds
      obtain ⟨⟨bytes, holds⟩, length⟩ := grown
      rw [← filled, holds.filled] at space
      obtain ⟨received, _⟩ := receive_spec holds space (by omega) fits
      exact takeLine_sized ⟨⟨_, received⟩, length⟩

end Reads

/-- The server after these events. -/
def serverAfter (events : List Event) : World := events.foldl handleEvent serverCreate

theorem serverAfter_run (run : ServerRun events world) : world = serverAfter events := by
  induction run with
  | start => rfl
  | snoc _ step ih =>
    obtain ⟨_, rfl⟩ := step
    rw [serverAfter, List.foldl_append, ← serverAfter, ← ih]
    rfl

/-- Nothing wraps when the client is read. -/
def ReadInside (before : List Event) : Event → Prop
  | .readable c _ => ReadRoom ((serverAfter before).client c).inBuffer
  | _ => True

/-- The client has less unhandled input than a block of 2^31 bytes can hold. -/
def ReadBelow (before : List Event) : Event → Prop
  | .readable c _ => ((serverAfter before).client c).inBuffer.filled < 2 ^ 31 - 1
  | _ => True

theorem sized_run (run : ServerRun events world) (below : EveryStep ReadBelow events) (c : ClientRef) :
    Sized (world.client c).inBuffer := by
  induction run with
  | start => exact .empty
  | @snoc events world event after run step ih =>
    obtain ⟨admissible, rfl⟩ := step
    obtain ⟨earlier, last⟩ := (everyStep_concat events event).mp below
    have sized : Sized (world.input c).buffer := ih earlier
    have own : ((handleEvent world event).client c).inBuffer = ((handleEvent world event).input c).buffer := rfl
    rw [own, step_input run event]
    cases event with
    | readable client result =>
      rw [ReadBelow, ← serverAfter_run run] at last
      by_cases same : client = c
      · subst same
        rw [Event.read, if_pos rfl]
        exact read_sized sized last admissible.2
      · rw [Event.read, if_neg same]
        exact sized
    | _ => exact sized

theorem reads_inside_iff (run : ServerRun events world) :
    EveryStep ReadInside events ↔ EveryStep ReadBelow events := by
  induction run with
  | start => exact iff_of_true everyStep_nil everyStep_nil
  | @snoc events world event after run step ih =>
    rw [everyStep_concat, everyStep_concat, ih]
    refine and_congr_right fun below => ?_
    cases event with
    | readable client result =>
      have sized := sized_run run below client
      rw [serverAfter_run run] at sized
      exact readRoom_iff sized
    | _ => exact Iff.rfl

section Writes

/-- The grown block of `ClientWriteLine` has room for the line behind what it holds. -/
def LineRoom (buffer : Buffer) (line : CString) : Prop :=
  u32Sub buffer.length buffer.filled < line.length + 1 →
    buffer.filled + (line.length + 1) ≤ (makeLineRoom buffer line).length

theorem lineRoom_iff (bounded : Bounded buffer) : LineRoom buffer line ↔ Fits buffer line := by
  obtain ⟨_, inside, small⟩ := bounded
  have free : u32Sub buffer.length buffer.filled = buffer.length - buffer.filled := u32Sub_of_le inside
  rw [LineRoom, Fits, makeLineRoom, free]
  refine forall_congr' fun short => ?_
  rw [if_pos short]
  constructor
  · intro room
    by_contra wraps
    simp only [u32] at room
    omega
  · intro fits
    simp only [u32_of_lt fits]
    omega

/-- Nothing wraps when the line is written. -/
def WriteInside (before : List Call) : Call → Prop
  | .writeLine c line _ => LineRoom (outBufferAfter c before) line
  | _ => True

theorem writes_inside_iff (calls : List Call) :
    EveryStep WriteInside calls ↔ EveryStep WriteFits calls := by
  induction calls using List.reverseRecOn with
  | nil => exact iff_of_true everyStep_nil everyStep_nil
  | append_singleton calls call ih =>
    rw [everyStep_concat, everyStep_concat, ih]
    refine and_congr_right fun fits => ?_
    cases call with
    | writeLine c line channel => exact lineRoom_iff (bounded_outBufferAfter fits c)
    | _ => exact Iff.rfl

end Writes

/-- No length wraps in a run exactly if no client is read with 2^31 - 1 bytes of unhandled
input and no line makes an output buffer longer than 32 bits can tell. -/
theorem buffer_arithmetic (run : ServerRun events world) :
    (EveryStep ReadInside events ∧ EveryStep WriteInside world.calls ↔
        EveryStep ReadBelow events ∧ EveryStep WriteFits world.calls) ∧
      (EveryStep WriteFits world.calls →
        ∀ c, (world.client c).outBuffer = outBufferAfter c world.calls) :=
  ⟨and_congr (reads_inside_iff run) (writes_inside_iff world.calls), fun fits => (outBuffer_run run fits).2⟩

section Failure
variable {c : ClientRef}

/-- A `recv` without a newline that takes all the room it is offered. -/
theorem fill_block {length : Nat} (run : Run (RoomStep c) serverCreate events world)
    (connected : world.Connected c) (holds : Holds (world.input c).buffer (List.replicate n 97))
    (small : (world.input c).buffer.length < 2 ^ 31)
    (grows : (makeRoom (world.input c).buffer).length = length) :
    ∃ events after, Run (RoomStep c) serverCreate events after ∧ after.Connected c ∧
      Holds (after.input c).buffer (List.replicate (length - 1) 97) ∧ (after.input c).buffer.length = length := by
  obtain ⟨grown, space, below⟩ := makeRoom_spec holds small
  rw [List.length_replicate, grows] at space
  rw [grows] at below
  have chunk : (97 : UInt8) :: List.replicate (length - n - 2) 97 = List.replicate (length - n - 1) 97 := by
    rw [← List.replicate_succ]
    congr 1
    omega
  have free : offered (makeRoom (world.input c).buffer) = length - n - 1 := by
    have filled : (makeRoom (world.input c).buffer).filled = n := grown.filled.trans List.length_replicate
    rw [offered, grows, filled, u32Sub_of_le (show n ≤ length by omega)]
    exact u32Sub_of_le (by omega)
  have room : InRoom (world.input c).buffer (some (97 :: List.replicate (length - n - 2) 97)) := by
    refine ⟨small, ?_⟩
    rw [chunk, Option.getD_some, List.length_replicate, free]
  obtain ⟨received, inside⟩ := receive_spec grown
    (by rw [List.length_replicate, grows]; exact space) (grows ▸ below) room.fits
  have all : List.replicate n (97 : UInt8) ++ List.replicate (length - n - 1) 97 =
      List.replicate (length - 1) 97 := by
    rw [← List.replicate_add]
    congr 1
    omega
  rw [Option.getD_some, chunk, all] at received inside
  have absent : (10 : UInt8) ∉ List.replicate (length - 1) 97 := fun mem =>
    absurd (List.eq_of_mem_replicate mem) (by decide)
  have untaken := takeLine_of_absent received inside absent
  obtain ⟨next, still, input⟩ := read_run run connected room
  refine ⟨_, _, next, still, ?_⟩
  rw [input, read_bytes, Input.receive, chunk, untaken]
  exact ⟨received, grows⟩

/-- A full block is doubled. -/
theorem makeRoom_full {buffer : Buffer} (full : buffer.filled = buffer.length - 1) (least : 512 ≤ buffer.length)
    (small : buffer.length < 2 ^ 31) : (makeRoom buffer).length = buffer.length * 2 := by
  have short : u32Sub buffer.length buffer.filled < 2 := by
    rw [full, u32Sub_of_le (Nat.sub_le _ _)]
    omega
  have double : u32 (buffer.length * 2) = buffer.length * 2 := u32_of_lt (by omega)
  simp only [makeRoom, if_pos short, double]
  exact if_neg (by omega)

end Failure
end Arithmetic

/-- One client was accepted and told so. -/
theorem buffer_arithmetic_oneClient :
    EveryStep (@ReadInside .zeroed) [.accepted 5] ∧ EveryStep (@WriteInside .zeroed) oneClient.calls ↔
      EveryStep (@ReadBelow .zeroed) [.accepted 5] ∧ EveryStep (@WriteFits .zeroed) oneClient.calls :=
  (@buffer_arithmetic .zeroed _ _ oneClient_spec.1).1

/-- A client that never sends a newline fills one block after the other. -/
theorem blocks_filled (k : Nat) (bound : k ≤ 21) : ∃ events world,
    Run (@RoomStep .zeroed 0) serverCreate events world ∧ world.Connected 0 ∧
      Holds (world.input 0).buffer (List.replicate (2 ^ (k + 10) - 1) 97) ∧
      (world.input 0).buffer.length = 2 ^ (k + 10) := by
  let _ := CMemory.zeroed
  induction k with
  | zero =>
    obtain ⟨_, connected, start⟩ := oneClient_spec
    have empty : (oneClient.input 0).buffer = .empty := congrArg Input.buffer start
    have holds : Holds (oneClient.input 0).buffer (List.replicate 0 97) := empty ▸ .empty
    exact fill_block oneClient_run connected holds (by rw [empty]; decide) (by rw [empty]; rfl)
  | succ k ih =>
    obtain ⟨events, world, run, connected, holds, length⟩ := ih (Nat.le_of_succ_le bound)
    have small : 2 ^ (k + 10) < 2 ^ 31 := Nat.pow_lt_pow_right (by decide) (by omega)
    have least : 2 ^ 10 ≤ 2 ^ (k + 10) := Nat.pow_le_pow_right Nat.two_pos (Nat.le_add_left _ _)
    have full : (world.input 0).buffer.filled = (world.input 0).buffer.length - 1 := by
      rw [holds.filled, List.length_replicate, length]
    refine fill_block run connected holds (length ▸ small) ?_
    rw [makeRoom_full full (by omega) (length ▸ small), length, ← Nat.pow_succ, Nat.add_right_comm]

/-- The client has sent 2^31 - 1 bytes without a newline when it is read once more. -/
theorem buffer_arithmetic_wraps : ∃ events world,
    @ServerRun .zeroed events world ∧ ¬EveryStep (@ReadInside .zeroed) events := by
  let _ := CMemory.zeroed
  obtain ⟨events, world, run, connected, holds, length⟩ := blocks_filled 21 (Nat.le_refl _)
  have serverRun := RoomStep.serverRun run
  have sized : Sized (world.client 0).inBuffer := ⟨⟨_, holds⟩, .inr ⟨31, by decide, by decide, length⟩⟩
  have step : ServerStep world (.readable 0 none) (handleEvent world (.readable 0 none)) :=
    ⟨⟨connected, Nat.zero_le _⟩, rfl⟩
  refine ⟨_, _, .snoc serverRun step, fun every => ?_⟩
  obtain ⟨_, inside⟩ := (everyStep_concat _ _).mp every
  rw [ReadInside, ← serverAfter_run serverRun] at inside
  have below := (readRoom_iff sized).mp inside
  have filled : (world.client 0).inBuffer.filled = 2 ^ 31 - 1 := holds.filled.trans List.length_replicate
  omega

end KommunikationNetze.Chat
