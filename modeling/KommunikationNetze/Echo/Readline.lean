import KommunikationNetze.CLib.Buffer

/-! The `readline` of the echo client. The buffer is doubled before a character that does not
fit any more, but not before the terminator. -/
namespace KommunikationNetze.Echo
open CLib

/-- The value of a `char` with this byte. A `char` is signed. -/
def charValue (byte : UInt8) : Int := if byte.toNat < 128 then byte.toNat else byte.toNat - 256

/-- EOF. -/
def eof : Int := -1

/-- The buffer of `readline`, with the index and the allocated size of every store. Lines are
shorter than 2^31 bytes, so `i` does not overflow. -/
structure LineBuffer where
  memory : List UInt8
  size : Nat
  i : Nat
  stores : List (Nat × Nat)

namespace LineBuffer

/-- `buffer[i] = c`; a store behind the block changes nothing that is allocated. -/
def store (buffer : LineBuffer) (c : UInt8) : LineBuffer :=
  { buffer with memory := buffer.memory.set buffer.i c, stores := buffer.stores ++ [(buffer.i, buffer.size)] }

variable [CMemory]

def start : LineBuffer := { memory := realloc [] 20, size := 20, i := 0, stores := [] }

def grown (buffer : LineBuffer) : LineBuffer :=
  if buffer.size ≤ buffer.i then
    let size := buffer.size * 2
    { buffer with size, memory := realloc buffer.memory size }
  else buffer

/-- The rest of the loop body for a character of the line. -/
def add (buffer : LineBuffer) (c : UInt8) : LineBuffer :=
  let buffer := buffer.grown.store c
  { buffer with i := buffer.i + 1 }

/-- The loop over what is on the standard input, where EOF follows the last byte. -/
def read (buffer : LineBuffer) : List UInt8 → Option LineBuffer
  | [] => none
  | c :: stdin =>
    if charValue c = eof then none
    else if c = 10 then some buffer
    else (buffer.add c).read stdin

end LineBuffer

/-- The buffer that is returned; `none` is NULL. -/
def readline [CMemory] (stdin : List UInt8) : Option LineBuffer :=
  (LineBuffer.start.read stdin).map fun buffer => buffer.store 0

section Line
variable [CMemory] {line rest : List UInt8} {buffer : LineBuffer}

omit [CMemory] in
theorem charValue_eof (byte : UInt8) : charValue byte = eof ↔ byte = 255 := by
  have small := byte.toNat_lt
  rw [← UInt8.toNat_inj, charValue, eof, UInt8.toNat_ofNat]
  split <;> omega

theorem read_line (newline : 10 ∉ line) (other : 255 ∉ line) (buffer : LineBuffer) :
    buffer.read (line ++ 10 :: rest) = some (line.foldl LineBuffer.add buffer) := by
  induction line generalizing buffer with
  | nil => simp [LineBuffer.read, charValue_eof]
  | cons c line ih =>
    rw [List.mem_cons, not_or] at newline other
    have plain : ¬charValue c = eof := fun same => other.1 ((charValue_eof c).mp same).symm
    rw [List.cons_append, LineBuffer.read, if_neg plain, if_neg (Ne.symm newline.1), ih newline.2 other.2]
    rfl

/-- A byte that is read as EOF ends the program's line, and all of it is lost. -/
theorem read_eof (newline : 10 ∉ line) (eof : 255 ∈ line) (buffer : LineBuffer) :
    buffer.read (line ++ 10 :: rest) = none := by
  induction line generalizing buffer with
  | nil => cases eof
  | cons c line ih =>
    rw [List.mem_cons, not_or] at newline
    rw [List.cons_append, LineBuffer.read]
    split
    · rfl
    · rename_i plain
      have later := (List.mem_cons.mp eof).resolve_left fun same => plain ((charValue_eof c).mpr same.symm)
      rw [if_neg (Ne.symm newline.1), ih newline.2 later]

omit [CMemory] in
/-- A store behind the characters so far, inside of the block. -/
theorem take_set_last {memory : List UInt8} (content : memory.take n = line) (inside : n < memory.length)
    (c : UInt8) : (memory.set n c).take (n + 1) = line ++ [c] := by
  rw [List.take_succ_eq_append_getElem (by rwa [List.length_set]), List.take_set_of_le (Nat.le_refl n), content,
    List.getElem_set_self]

/-- The characters so far are in the block, which is not twice as long as this bound or was
never doubled. -/
structure Stored (line : List UInt8) (bound : Nat) (buffer : LineBuffer) : Prop where
  index : buffer.i = line.length
  allocated : buffer.memory.length = buffer.size
  content : buffer.memory.take line.length = line
  inside : line.length ≤ buffer.size
  doubled : ∃ k, buffer.size = 20 * 2 ^ k ∧ (k = 0 ∨ buffer.size < 2 * bound)
  stores : ∀ store ∈ buffer.stores, store.1 < store.2

theorem stored_start : Stored [] 0 .start where
  index := rfl
  allocated := length_realloc _ _
  content := rfl
  inside := Nat.zero_le _
  doubled := ⟨0, rfl, .inl rfl⟩
  stores := nofun

/-- A block that is full is doubled. -/
theorem Stored.grown (stored : Stored line line.length buffer) :
    Stored line (line.length + 1) buffer.grown ∧ line.length < buffer.grown.size := by
  obtain ⟨index, allocated, content, inside, ⟨k, size, doubled⟩, stores⟩ := stored
  rw [LineBuffer.grown, index]
  split
  · have positive : 0 < 2 ^ k := Nat.two_pow_pos k
    obtain ⟨fresh, grows, _⟩ := realloc_grow (show buffer.memory.length ≤ buffer.size * 2 by omega)
    refine ⟨⟨rfl, length_realloc _ _, ?_, ?_, ⟨k + 1, ?_, .inr ?_⟩, stores⟩, ?_⟩
    · simp only [grows]
      rw [List.take_append_of_le_length (by omega), content]
    · simp only
      omega
    · rw [size, Nat.pow_succ, Nat.mul_assoc]
    · simp only
      omega
    · simp only
      omega
  · exact ⟨⟨index, allocated, content, inside, ⟨k, size, by omega⟩, stores⟩, by omega⟩

theorem Stored.add (stored : Stored line line.length buffer) (c : UInt8) :
    Stored (line ++ [c]) (line ++ [c]).length (buffer.add c) := by
  obtain ⟨⟨index, allocated, content, _, doubled, stores⟩, room⟩ := stored.grown
  have length : (line ++ [c]).length = line.length + 1 := List.length_append
  rw [length, LineBuffer.add]
  refine ⟨?_, ?_, ?_, length ▸ room, doubled, ?_⟩
  · rw [length, ← index]
    rfl
  · exact List.length_set.trans allocated
  · rw [length, LineBuffer.store, index]
    exact take_set_last content (allocated ▸ room) c
  · simp only [LineBuffer.store, List.forall_mem_append, List.forall_mem_singleton, index]
    exact ⟨stores, room⟩

theorem stored_line (line : List UInt8) : Stored line line.length (line.foldl LineBuffer.add .start) := by
  induction line using List.reverseRecOn with
  | nil => exact stored_start
  | append_singleton line c ih =>
    rw [List.foldl_append]
    exact ih.add c

omit [CMemory] in
/-- The block is full exactly at the lengths at which it is doubled. -/
theorem Stored.full_iff (stored : Stored line line.length buffer) :
    line.length = buffer.size ↔ ∃ k, line.length = 20 * 2 ^ k := by
  obtain ⟨_, _, _, inside, ⟨k, size, doubled⟩, _⟩ := stored
  constructor
  · intro full
    exact ⟨k, full.trans size⟩
  · rintro ⟨j, length⟩
    rw [size, length] at inside doubled ⊢
    have above : j ≤ k := (Nat.pow_le_pow_iff_right (by decide)).mp (Nat.le_of_mul_le_mul_left inside (by decide))
    rcases doubled with rfl | less
    · rw [Nat.le_zero.mp above]
    · have power : 2 ^ k < 2 ^ (j + 1) := by rw [Nat.pow_succ]; omega
      have below := (Nat.pow_lt_pow_iff_right (by decide)).mp power
      rw [show j = k by omega]

/-- Nothing is stored outside of the block, and the characters of the line are returned,
with the terminator. -/
def ReadsLine (line rest : List UInt8) : Prop :=
  ∃ buffer, readline (line ++ 10 :: rest) = some buffer ∧ (∀ store ∈ buffer.stores, store.1 < store.2) ∧
    buffer.memory.take (line.length + 1) = line ++ [0]

/-- Except for the byte that is taken for EOF, only a line that fills its block goes wrong. -/
theorem readline_line (rest : List UInt8) (newline : 10 ∉ line) :
    ReadsLine line rest ↔ 255 ∉ line ∧ ∀ k, line.length ≠ 20 * 2 ^ k := by
  by_cases eof : 255 ∈ line
  · refine iff_of_false ?_ fun ok => ok.1 eof
    rintro ⟨buffer, returned, _⟩
    rw [readline, read_eof newline eof] at returned
    cases returned
  have stored := stored_line line
  have returned : readline (line ++ 10 :: rest) = some ((line.foldl LineBuffer.add .start).store 0) := by
    rw [readline, read_line newline eof]
    rfl
  rw [ReadsLine, returned, and_iff_right eof, ← not_exists, ← stored.full_iff]
  generalize line.foldl LineBuffer.add .start = buffer at stored
  obtain ⟨index, allocated, content, inside, _, stores⟩ := stored
  constructor
  · rintro ⟨_, ⟨⟩, within, _⟩ full
    simp only [LineBuffer.store, List.forall_mem_append, List.forall_mem_singleton, index] at within
    omega
  · intro room
    refine ⟨_, rfl, ?_, ?_⟩
    · simp only [LineBuffer.store, List.forall_mem_append, List.forall_mem_singleton, index]
      exact ⟨stores, by omega⟩
    · rw [LineBuffer.store, index]
      exact take_set_last content (by omega) 0

end Line

/-- A line of two letters. -/
theorem readline_line_two : @ReadsLine .zeroed [104, 105] [] := by
  let _ := CMemory.zeroed
  refine (readline_line [] (by decide)).mpr ⟨by decide, fun k length => ?_⟩
  have positive : 0 < 2 ^ k := Nat.two_pow_pos k
  simp only [List.length_cons, List.length_nil] at length
  omega

/-- The terminator of a line of twenty letters is stored behind the block. -/
theorem readline_line_twenty : ¬@ReadsLine .zeroed (List.replicate 20 97) [] := by
  let _ := CMemory.zeroed
  have last : (readline (List.replicate 20 97 ++ [10])).map (fun buffer => buffer.stores.getLast?) =
      some (some (20, 20)) := by decide
  rintro ⟨buffer, returned, inside, _⟩
  rw [returned, Option.map_some, Option.some_inj] at last
  exact Nat.lt_irrefl 20 (inside _ (List.mem_of_getLast? last))

end KommunikationNetze.Echo
