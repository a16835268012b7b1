import Mathlib.Data.List.Basic

/-! Pieces of text on lines of a limited length. A piece goes behind the others on the line,
or to a new line if there is no room. No piece is divided. -/
namespace KommunikationNetze.Packing
variable {α β : Type*}

/-- The lines that are full and the one that is filled, each as the pieces on it. -/
structure Lines (α : Type*) where
  full : List (List α)
  current : List α

def start : Lines α := { full := [], current := [] }

variable (text : α → List β) (limit : Nat)

/-- The text of a line. -/
def line (pieces : List α) : List β := pieces.flatMap text

def put (lines : Lines α) (piece : α) : Lines α :=
  if limit - (line text lines.current).length < (text piece).length then
    { full := lines.full ++ [lines.current], current := [piece] }
  else { lines with current := lines.current ++ [piece] }

/-- All lines, with the last one unless it is empty. -/
def close (lines : Lines α) : List (List α) :=
  if 0 < (line text lines.current).length then lines.full ++ [lines.current]
  else lines.full

/-- All pieces in their order. -/
def contents (lines : Lines α) : List α := lines.full.flatten ++ lines.current

/-- The text has at least one character, and there is room for it on a line. -/
def Proper (content : List β) : Prop := 1 ≤ content.length ∧ content.length ≤ limit

structure Fits (lines : Lines α) : Prop where
  full : ∀ pieces ∈ lines.full, Proper limit (line text pieces)
  current : (line text lines.current).length ≤ limit
  proper : ∀ piece ∈ lines.current, Proper limit (text piece)

variable {text limit} {lines : Lines α} {piece : α}

theorem line_append (pieces others : List α) :
    line text (pieces ++ others) = line text pieces ++ line text others := List.flatMap_append

theorem line_singleton (piece : α) : line text [piece] = text piece := List.flatMap_singleton ..

theorem contents_put (lines : Lines α) (piece : α) :
    contents (put text limit lines piece) = contents lines ++ [piece] := by
  rw [put]
  split
  · simp only [contents, List.flatten_append, List.flatten_singleton]
  · simp only [contents, List.append_assoc]

theorem Fits.start : Fits text limit start where
  full _ mem := by cases mem
  current := Nat.zero_le limit
  proper _ mem := by cases mem

/-- Only a line with text on it is full. -/
theorem Fits.put (fits : Fits text limit lines) (proper : Proper limit (text piece)) :
    Fits text limit (put text limit lines piece) := by
  have room := fits.current
  obtain ⟨nonempty, small⟩ := proper
  rw [Packing.put]
  split
  · rename_i crowded
    refine ⟨?_, ?_, ?_⟩
    · intro pieces mem
      rcases List.mem_append.mp mem with before | last
      · exact fits.full pieces before
      · rw [List.mem_singleton.mp last]
        exact ⟨by omega, room⟩
    · rw [line_singleton]
      exact small
    · intro other mem
      rw [List.mem_singleton.mp mem]
      exact ⟨nonempty, small⟩
  · rename_i fit
    refine ⟨fits.full, ?_, ?_⟩
    · rw [line_append, line_singleton, List.length_append]
      omega
    · intro other mem
      rcases List.mem_append.mp mem with before | last
      · exact fits.proper other before
      · rw [List.mem_singleton.mp last]
        exact ⟨nonempty, small⟩

/-- The lines hold all pieces, and each line has a text that is not too long. -/
theorem Fits.close (fits : Fits text limit lines) :
    (close text lines).flatten = contents lines ∧
      ∀ pieces ∈ Packing.close text lines, Proper limit (line text pieces) := by
  rw [Packing.close]
  split
  · rename_i some
    refine ⟨?_, ?_⟩
    · rw [List.flatten_append, List.flatten_singleton, contents]
    · intro pieces mem
      rcases List.mem_append.mp mem with before | last
      · exact fits.full pieces before
      · rw [List.mem_singleton.mp last]
        exact ⟨some, fits.current⟩
  · rename_i none
    have empty : lines.current = [] := by
      cases shape : lines.current with
      | nil => rfl
      | cons piece rest =>
        have nonempty := (fits.proper piece (by rw [shape]; exact List.mem_cons_self)).1
        rw [shape, line, List.flatMap_cons, List.length_append] at none
        omega
    refine ⟨?_, fits.full⟩
    rw [contents, empty, List.append_nil]

end KommunikationNetze.Packing
