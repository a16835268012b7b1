import Mathlib.Data.List.Basic

/-! Splitting a stream at a separator while it is still growing. The pieces before the
last separator are complete; what follows only changes the last piece. -/
namespace KommunikationNetze.Splitting
variable {α : Type} [BEq α]

/-- The pieces a separator ends. -/
def complete (a : α) (stream : List α) : List (List α) := (stream.splitOn a).dropLast

/-- More input belongs to the last piece. -/
theorem splitOn_append {a : α} {stream : List α} {pieces : List (List α)} {last : List α}
    (split : stream.splitOn a = pieces ++ [last]) (more : List α) :
    (stream ++ more).splitOn a = pieces ++ (last ++ more).splitOn a := by
  induction stream generalizing pieces last with
  | nil =>
    rw [List.splitOn_nil] at split
    cases pieces with
    | nil =>
      obtain rfl : [] = last := by simpa using split
      rfl
    | cons piece pieces => simp at split
  | cons x stream ih =>
    rw [List.splitOn_cons_eq_if_modifyHead] at split
    rw [List.cons_append, List.splitOn_cons_eq_if_modifyHead]
    split at split
    · rename_i separator
      cases pieces with
      | nil => simp at split
      | cons piece pieces =>
        obtain ⟨rfl, rest⟩ := List.cons.inj split
        rw [if_pos separator, ih rest]
        rfl
    · rename_i other
      rw [if_neg other]
      cases shape : stream.splitOn a with
      | nil => exact absurd shape (List.splitOn_ne_nil a stream)
      | cons head tail =>
        rw [shape] at split
        cases pieces with
        | nil =>
          obtain ⟨rfl, rfl⟩ : x :: head = last ∧ tail = [] := by simpa using split
          have grown : (stream ++ more).splitOn a = [] ++ (head ++ more).splitOn a := ih shape
          rw [grown, List.nil_append, List.nil_append, List.cons_append,
            List.splitOn_cons_eq_if_modifyHead, if_neg other]
        | cons piece pieces =>
          obtain ⟨rfl, rfl⟩ : x :: head = piece ∧ tail = pieces ++ [last] := by simpa using split
          have grown : (stream ++ more).splitOn a = (head :: pieces) ++ (last ++ more).splitOn a :=
            ih shape
          rw [grown]
          rfl

theorem length_splitOn (a : α) (stream : List α) :
    (stream.splitOn a).length = stream.count a + 1 := by
  induction stream with
  | nil => rfl
  | cons x stream ih =>
    rw [List.splitOn_cons_eq_if_modifyHead, List.count_cons]
    split
    · rw [List.length_cons, ih]
    · rw [List.length_modifyHead, ih, Nat.add_zero]

theorem length_complete (a : α) (stream : List α) : (complete a stream).length = stream.count a := by
  rw [complete, List.length_dropLast, length_splitOn, Nat.add_sub_cancel]

theorem complete_of_split {a : α} {stream : List α} {pieces : List (List α)} {last : List α}
    (split : stream.splitOn a = pieces ++ [last]) : complete a stream = pieces := by
  rw [complete, split, List.dropLast_concat]

/-- Complete pieces stay complete. -/
theorem complete_append (a : α) (stream more : List α) :
    ∃ added, complete a (stream ++ more) = complete a stream ++ added := by
  have split : stream.splitOn a = complete a stream ++ [(stream.splitOn a).getLast
      (List.splitOn_ne_nil a stream)] := (List.dropLast_concat_getLast _).symm
  refine ⟨complete a ((stream.splitOn a).getLast (List.splitOn_ne_nil a stream) ++ more), ?_⟩
  rw [complete, splitOn_append split, List.dropLast_append_of_ne_nil (List.splitOn_ne_nil _ _)]
  rfl

end KommunikationNetze.Splitting
