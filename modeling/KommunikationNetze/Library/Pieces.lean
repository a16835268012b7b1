import Mathlib.Data.List.Basic

/-! The pieces of a list between separators: its maximal runs without a separator. -/
namespace KommunikationNetze.Pieces
variable {α : Type*} {sep : α → Bool}

def pieces (sep : α → Bool) (list : List α) : List (List α) :=
  (list.splitOnP sep).filter fun piece => !piece.isEmpty

@[simp] theorem pieces_nil : pieces sep [] = [] := rfl

/-- Pieces on both sides of a separator do not touch. -/
theorem pieces_append (separator : sep c = true) (before after : List α) :
    pieces sep (before ++ c :: after) = pieces sep before ++ pieces sep after := by
  rw [pieces, List.splitOnP_append_cons before after separator, List.filter_append]
  rfl

theorem pieces_separator (separator : sep c = true) (list : List α) :
    pieces sep (c :: list) = pieces sep list := pieces_append separator [] list

theorem pieces_separators {gap : List α} (separators : ∀ c ∈ gap, sep c = true) (list : List α) :
    pieces sep (gap ++ list) = pieces sep list := by
  induction gap with
  | nil => rfl
  | cons c gap ih =>
    obtain ⟨first, rest⟩ := List.forall_mem_cons.mp separators
    rw [List.cons_append, pieces_separator first, ih rest]

/-- A piece up to the end of the list. -/
theorem pieces_last {piece : List α} (nonempty : piece ≠ []) (free : ∀ c ∈ piece, sep c = false) :
    pieces sep piece = [piece] := by
  rw [pieces, List.splitOnP_eq_singleton free, List.filter_singleton, List.isEmpty_eq_false_iff.mpr nonempty]
  rfl

/-- A piece up to a separator. -/
theorem pieces_first {piece : List α} (nonempty : piece ≠ []) (free : ∀ c ∈ piece, sep c = false)
    (separator : sep c = true) (list : List α) :
    pieces sep (piece ++ c :: list) = piece :: pieces sep list := by
  rw [pieces_append separator, pieces_last nonempty free, List.singleton_append]

theorem pieces_of_separators {gap : List α} (separators : ∀ c ∈ gap, sep c = true) :
    pieces sep gap = [] := by
  have all := pieces_separators separators []
  rwa [List.append_nil] at all

/-- A list has separators only, or a first piece that ends with the list or at a separator. -/
theorem split_first (sep : α → Bool) (list : List α) :
    (∀ c ∈ list, sep c = true) ∨
      ∃ gap piece rest, list = gap ++ (piece ++ rest) ∧ (∀ c ∈ gap, sep c = true) ∧ piece ≠ [] ∧
        (∀ c ∈ piece, sep c = false) ∧ (rest = [] ∨ ∃ c after, rest = c :: after ∧ sep c = true) := by
  induction list with
  | nil => exact .inl fun c mem => by cases mem
  | cons c list ih =>
    by_cases separator : sep c = true
    · rcases ih with separators | ⟨gap, piece, rest, rfl, separators, nonempty, free, ends⟩
      · exact .inl (List.forall_mem_cons.mpr ⟨separator, separators⟩)
      · exact .inr ⟨c :: gap, piece, rest, rfl, List.forall_mem_cons.mpr ⟨separator, separators⟩,
          nonempty, free, ends⟩
    · have single : ∀ d ∈ [c], sep d = false := by simpa using separator
      right
      rcases ih with separators | ⟨gap, piece, rest, rfl, separators, nonempty, free, ends⟩
      · refine ⟨[], [c], list, rfl, by simp, by simp, single, ?_⟩
        cases list with
        | nil => exact .inl rfl
        | cons d list => exact .inr ⟨d, list, rfl, separators d List.mem_cons_self⟩
      · cases gap with
        | nil =>
          exact ⟨[], c :: piece, rest, rfl, by simp, by simp,
            List.forall_mem_cons.mpr ⟨single c (List.mem_singleton_self c), free⟩, ends⟩
        | cons d gap =>
          exact ⟨[], [c], d :: gap ++ (piece ++ rest), rfl, by simp, by simp, single,
            .inr ⟨d, _, rfl, separators d List.mem_cons_self⟩⟩

/-- Pieces are not empty, and free of separators. -/
theorem mem_pieces {piece list : List α} (mem : piece ∈ pieces sep list) :
    piece ≠ [] ∧ (∀ c ∈ piece, sep c = false) ∧ piece ⊆ list := by
  induction size : list.length using Nat.strongRecOn generalizing list with
  | _ n ih =>
    rcases split_first sep list with separators | ⟨gap, first, rest, rfl, separators, nonempty, free, ends⟩
    · rw [pieces_of_separators separators] at mem
      cases mem
    · rw [pieces_separators separators] at mem
      have inside : first ⊆ gap ++ (first ++ rest) := fun c inFirst =>
        List.mem_append_right _ (List.mem_append_left _ inFirst)
      rcases ends with rfl | ⟨c, after, rfl, separator⟩
      · rw [List.append_nil, pieces_last nonempty free] at mem
        rw [List.mem_singleton.mp mem]
        exact ⟨nonempty, free, inside⟩
      · rw [pieces_first nonempty free separator] at mem
        rcases List.mem_cons.mp mem with rfl | later
        · exact ⟨nonempty, free, inside⟩
        · simp only [List.length_append, List.length_cons] at size
          obtain ⟨some, clean, sub⟩ := ih after.length (by omega) later rfl
          refine ⟨some, clean, fun d inPiece => ?_⟩
          exact List.mem_append_right _ (List.mem_append_right _ (List.mem_cons_of_mem _ (sub inPiece)))

section Positions
variable {list gap piece rest : List α} {i j a b p k : Nat}

def SeparatorAt (sep : α → Bool) (list : List α) (k : Nat) : Prop := ∃ c, list[k]? = some c ∧ sep c = true

/-- From position `i` up to position `j` there is no separator, and the range cannot be
extended. -/
structure MaximalRun (sep : α → Bool) (list : List α) (i j : Nat) : Prop where
  nonempty : i < j
  inside : j ≤ list.length
  free : ∀ k, i ≤ k → k < j → ¬SeparatorAt sep list k
  start : i = 0 ∨ SeparatorAt sep list (i - 1)
  stop : j = list.length ∨ SeparatorAt sep list j

theorem separatorAt_drop : SeparatorAt sep (list.drop p) k ↔ SeparatorAt sep list (p + k) := by
  rw [SeparatorAt, SeparatorAt, List.getElem?_drop]

theorem separatorAt_gap (separators : ∀ c ∈ gap, sep c = true) (inside : k < gap.length) :
    SeparatorAt sep (gap ++ rest) k := by
  refine ⟨gap[k], ?_, separators _ (List.getElem_mem inside)⟩
  rw [List.getElem?_append_left inside, List.getElem?_eq_getElem inside]

theorem not_separatorAt_piece (free : ∀ c ∈ piece, sep c = false) (inside : k < piece.length) :
    ¬SeparatorAt sep (piece ++ rest) k := by
  rintro ⟨c, found, separator⟩
  rw [List.getElem?_append_left inside] at found
  have clean := free c (List.mem_of_getElem? found)
  rw [clean] at separator
  cases separator

/-- Where separators only are left, no run starts. -/
theorem no_run_behind (gap : ∀ k, p ≤ k → k < list.length → SeparatorAt sep list k) :
    ¬(MaximalRun sep list i j ∧ p ≤ i) := by
  rintro ⟨run, late⟩
  have inside := run.inside
  have nonempty := run.nonempty
  exact run.free i (Nat.le_refl i) nonempty (gap i late (by omega))

/-- The runs from a position on are the first one and those behind it. -/
theorem run_iff_first (first : MaximalRun sep list a b) (behind : p ≤ a)
    (gap : ∀ k, p ≤ k → k < a → SeparatorAt sep list k) :
    MaximalRun sep list i j ∧ p ≤ i ↔ i = a ∧ j = b ∨ MaximalRun sep list i j ∧ b < i := by
  constructor
  · rintro ⟨run, late⟩
    have nonempty := run.nonempty
    have inside := run.inside
    rcases Nat.lt_trichotomy i a with before | rfl | after
    · exact absurd (gap i late before) (run.free i (Nat.le_refl i) nonempty)
    · refine .inl ⟨rfl, ?_⟩
      rcases Nat.lt_trichotomy j b with shorter | same | longer
      · have stop := run.stop.resolve_left (Nat.ne_of_lt (Nat.lt_of_lt_of_le shorter first.inside))
        exact absurd stop (first.free j (Nat.le_of_lt nonempty) shorter)
      · exact same
      · have stop := first.stop.resolve_left (Nat.ne_of_lt (Nat.lt_of_lt_of_le longer inside))
        exact absurd stop (run.free b (Nat.le_of_lt first.nonempty) longer)
    · refine .inr ⟨run, ?_⟩
      have start := run.start.resolve_left (Nat.ne_of_gt (Nat.zero_lt_of_lt after))
      by_contra within
      rcases Nat.lt_or_eq_of_le (Nat.le_of_not_lt within) with earlier | same
      · exact first.free (i - 1) (by omega) (by omega) start
      · have stop := first.stop.resolve_left (by omega)
        exact run.free i (Nat.le_refl i) nonempty (same ▸ stop)
  · rintro (⟨rfl, rfl⟩ | ⟨run, late⟩)
    · exact ⟨first, behind⟩
    · have nonempty := first.nonempty
      exact ⟨run, by omega⟩

theorem separatorAt_of_split (shape : list.drop p = gap ++ rest) (separators : ∀ c ∈ gap, sep c = true)
    (least : p ≤ k) (most : k < p + gap.length) : SeparatorAt sep list k := by
  obtain ⟨k, rfl⟩ := Nat.exists_eq_add_of_le least
  rw [← separatorAt_drop, shape]
  exact separatorAt_gap separators (by omega)

/-- A piece between two separators, or at an end of the list, is a run. -/
theorem run_of_split (shape : list.drop p = gap ++ (piece ++ rest)) (within : p ≤ list.length)
    (start : p = 0 ∨ SeparatorAt sep list (p - 1)) (separators : ∀ c ∈ gap, sep c = true)
    (nonempty : piece ≠ []) (free : ∀ c ∈ piece, sep c = false)
    (stop : rest = [] ∨ ∃ c after, rest = c :: after ∧ sep c = true) :
    MaximalRun sep list (p + gap.length) (p + gap.length + piece.length) := by
  have length := congrArg List.length shape
  rw [List.length_drop, List.length_append, List.length_append] at length
  have atPiece : list.drop (p + gap.length) = piece ++ rest := by
    rw [← List.drop_drop, shape, List.drop_left]
  have positive := List.length_pos_of_ne_nil nonempty
  refine ⟨by omega, by omega, ?_, ?_, ?_⟩
  · intro k least most
    obtain ⟨k, rfl⟩ := Nat.exists_eq_add_of_le least
    rw [← separatorAt_drop, atPiece]
    exact not_separatorAt_piece free (by omega)
  · rcases Nat.eq_zero_or_pos gap.length with none | some
    · rw [none, Nat.add_zero]
      exact start
    · exact .inr (separatorAt_of_split shape separators (by omega) (by omega))
  · rcases stop with rfl | ⟨c, after, rfl, separator⟩
    · rw [List.length_nil] at length
      exact .inl (by omega)
    · rw [← separatorAt_drop, atPiece]
      exact .inr ⟨c, by simp, separator⟩

end Positions
end KommunikationNetze.Pieces
