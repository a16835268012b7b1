import KommunikationNetze.CLib.CString
import Mathlib.Data.List.Basic

/-! Memory blocks as lists of bytes, and the buffers made of such a block, its
length and the count of bytes in use. Lengths are 32-bit unsigned numbers. A
write past the end of a block has no meaning in C and none here. -/
namespace KommunikationNetze.CLib

/-- What the new bytes of an allocation hold before anything is written to them: it may depend
on the block that grows, on its new length and on where they are. -/
class CMemory where
  fresh : List UInt8 → Nat → Nat → UInt8

/-- A system that hands out zeroed memory. -/
@[reducible] def CMemory.zeroed : CMemory where
  fresh _ _ _ := 0

/-- The value an unsigned 32-bit variable takes. -/
def u32 (n : Nat) : Nat := n % 2 ^ 32

/-- The difference of two unsigned 32-bit numbers. -/
def u32Sub (a b : Nat) : Nat := if b ≤ a then a - b else a + 2 ^ 32 - b

theorem u32_of_lt (fits : n < 2 ^ 32) : u32 n = n := by
  rw [u32, Nat.mod_eq_of_lt fits]

theorem u32Sub_of_le (le : b ≤ a) : u32Sub a b = a - b := if_pos le

/-- A block together with the length the program has recorded for it and the
number of its bytes in use. The empty block is NULL. -/
structure Buffer where
  memory : List UInt8
  length : Nat
  filled : Nat
  deriving DecidableEq

def Buffer.empty : Buffer := { memory := [], length := 0, filled := 0 }

/-- The bytes in use. -/
def Buffer.content (buffer : Buffer) : List UInt8 := buffer.memory.take buffer.filled

theorem Buffer.content_rest (buffer : Buffer) :
    buffer.content ++ buffer.memory.drop buffer.filled = buffer.memory := List.take_append_drop ..

theorem Buffer.content_of_memory {buffer : Buffer} (memory : buffer.memory = bytes ++ rest)
    (filled : buffer.filled = bytes.length) : buffer.content = bytes := by
  rw [Buffer.content, memory, filled, List.take_left]

def realloc [CMemory] (memory : List UInt8) (length : Nat) : List UInt8 :=
  memory.take length ++
    (List.range' memory.length (length - memory.length)).map (CMemory.fresh memory length)

def memcpy (memory : List UInt8) (offset : Nat) (bytes : List UInt8) : List UInt8 :=
  memory.take offset ++ bytes ++ memory.drop (offset + bytes.length)

def memset (memory : List UInt8) (offset : Nat) (byte : UInt8) (count : Nat) : List UInt8 :=
  memcpy memory offset (List.replicate count byte)

/-- `memmove` to the beginning of the block. -/
def memmove (memory : List UInt8) (source count : Nat) : List UInt8 :=
  memcpy memory 0 ((memory.drop source).take count)

/-- The index of the first such byte before the terminator. -/
def strchr : List UInt8 → UInt8 → Option Nat
  | [], _ => none
  | b :: rest, byte =>
    if b = byte then some 0 else if b = 0 then none else (strchr rest byte).map (· + 1)

@[simp] theorem length_realloc [CMemory] (memory : List UInt8) (length : Nat) :
    (realloc memory length).length = length := by
  simp only [realloc, List.length_append, List.length_take, List.length_map, List.length_range']
  omega

/-- A growing block keeps what it holds. -/
theorem realloc_grow [CMemory] {memory : List UInt8} (grows : memory.length ≤ length) :
    ∃ fresh, realloc memory length = memory ++ fresh ∧ fresh.length = length - memory.length := by
  refine ⟨(List.range' memory.length (length - memory.length)).map (CMemory.fresh memory length), ?_, by simp⟩
  rw [realloc, List.take_of_length_le grows]

theorem memcpy_append (before bytes after : List UInt8) :
    memcpy (before ++ after) before.length bytes = before ++ bytes ++ after.drop bytes.length := by
  simp only [memcpy, List.take_left, List.drop_length_add_append]

theorem memset_append (before after : List UInt8) (byte : UInt8) :
    memset (before ++ after) before.length byte after.length =
      before ++ List.replicate after.length byte := by
  rw [memset, memcpy_append, List.length_replicate, List.drop_length, List.append_nil]

/-- Clearing the rest of a block. -/
theorem memset_rest {memory : List UInt8} (inside : offset ≤ memory.length) (byte : UInt8) :
    memset memory offset byte (memory.length - offset) =
      memory.take offset ++ List.replicate (memory.length - offset) byte := by
  have parts := memset_append (memory.take offset) (memory.drop offset) byte
  rw [List.take_append_drop, List.length_take_of_le inside, List.length_drop] at parts
  exact parts

/-- A move to the beginning leaves the moved bytes first and keeps the length. -/
theorem memmove_append (before bytes after : List UInt8) :
    ∃ rest, memmove (before ++ bytes ++ after) before.length bytes.length = bytes ++ rest ∧
      rest.length = before.length + after.length := by
  refine ⟨(before ++ bytes ++ after).drop bytes.length, ?_, ?_⟩
  · have source : (before ++ bytes ++ after).drop before.length = bytes ++ after := by
      rw [List.append_assoc, List.drop_left]
    rw [memmove, source, List.take_left]
    exact memcpy_append [] bytes _
  · simp only [List.length_drop, List.length_append]
    omega

theorem strchr_of_mem {line rest : List UInt8} (byte : UInt8) (absent : byte ∉ line)
    (nonzero : ∀ b ∈ line, b ≠ 0) : strchr (line ++ byte :: rest) byte = some line.length := by
  induction line with
  | nil => simp [strchr]
  | cons b line ih =>
    obtain ⟨other, absent⟩ := List.ne_and_not_mem_of_not_mem_cons absent
    obtain ⟨nonzeroHead, nonzero⟩ := List.forall_mem_cons.mp nonzero
    simp only [List.cons_append, strchr, if_neg (Ne.symm other), if_neg nonzeroHead,
      ih absent nonzero, Option.map_some, List.length_cons]

theorem strchr_of_absent {bytes rest : List UInt8} {byte : UInt8} (absent : byte ∉ bytes)
    (nonzero : byte ≠ 0) : strchr (bytes ++ 0 :: rest) byte = none := by
  induction bytes with
  | nil => simp [strchr, Ne.symm nonzero]
  | cons b bytes ih =>
    obtain ⟨other, absent⟩ := List.ne_and_not_mem_of_not_mem_cons absent
    simp only [List.cons_append, strchr, if_neg (Ne.symm other), ih absent, Option.map_none, ite_self]

end KommunikationNetze.CLib
