import Mathlib.Data.List.Basic

/-! A loop over a table that stops once it has met as many ready elements as it was told of.
If it was told of no fewer than there are, it meets exactly the ready ones. -/
namespace KommunikationNetze.CountedScan
variable {α S : Type*} (count : S → Nat) (visit : Nat → S → Option S)

/-- So many indices from `i` on, while something is left to count. -/
def loop (i : Nat) : Nat → S → Option S
  | 0, s => some s
  | remaining + 1, s =>
    if 0 < count s then (visit i s).bind fun s => loop (i + 1) remaining s else some s

/-- What one visit does: a ready element is counted and met, another one changes nothing
that matters. The invariant speaks of the elements met so far. -/
structure Meets (ready : α → Bool) (elements : List α) (invariant : List α → S → Prop) : Prop where
  counted : ∀ {i a met s}, elements[i]? = some a → ready a = true → 0 < count s → invariant met s →
    ∃ after, visit i s = some after ∧ count after + 1 = count s ∧ invariant (met ++ [a]) after
  skipped : ∀ {i a met s}, elements[i]? = some a → ready a = false → invariant met s →
    ∃ after, visit i s = some after ∧ count after = count s ∧ invariant met after

namespace Meets
variable {count visit} {ready : α → Bool} {elements : List α} {invariant : List α → S → Prop}

/-- One visit. The count bounds what is left to meet. -/
theorem step (meets : Meets count visit ready elements invariant) (found : elements[i]? = some a)
    (more : 0 < count s) (holds : invariant met s) (bound : (a :: rest).countP ready ≤ count s) :
    ∃ after, visit i s = some after ∧ rest.countP ready ≤ count after ∧
      invariant (met ++ [a].filter ready) after := by
  cases isReady : ready a with
  | true =>
    obtain ⟨after, visited, fewer, kept⟩ := meets.counted found isReady more holds
    rw [List.countP_cons_of_pos isReady] at bound
    refine ⟨after, visited, by omega, ?_⟩
    rw [List.filter_singleton, isReady]
    exact kept
  | false =>
    obtain ⟨after, visited, same, kept⟩ := meets.skipped found isReady holds
    rw [List.countP_cons_of_neg (by simp [isReady])] at bound
    refine ⟨after, visited, by omega, ?_⟩
    rw [List.filter_singleton, isReady, cond_false, List.append_nil]
    exact kept

/-- The loop from an index on, also where it stops early. -/
theorem loop_from (meets : Meets count visit ready elements invariant) (rest : List α) :
    ∀ {before met : List α} {s : S}, elements = before ++ rest → invariant met s →
      rest.countP ready ≤ count s →
      ∃ after, loop count visit before.length rest.length s = some after ∧
        invariant (met ++ rest.filter ready) after := by
  induction rest with
  | nil =>
    intro before met s _ holds _
    refine ⟨s, rfl, ?_⟩
    rw [List.filter_nil, List.append_nil]
    exact holds
  | cons a rest ih =>
    intro before met s split holds bound
    have found : elements[before.length]? = some a := by
      rw [split, List.getElem?_append_right (Nat.le_refl _), Nat.sub_self, List.getElem?_cons_zero]
    have next : elements = (before ++ [a]) ++ rest := by
      rw [split, List.append_assoc, List.singleton_append]
    have index : (before ++ [a]).length = before.length + 1 := List.length_append
    rw [List.length_cons, loop]
    by_cases more : 0 < count s
    · obtain ⟨visited, taken, left, kept⟩ := meets.step found more holds bound
      obtain ⟨after, looped, final⟩ := ih next kept left
      refine ⟨after, ?_, ?_⟩
      · rw [if_pos more, taken, Option.bind_some, ← index]
        exact looped
      · rwa [List.append_assoc, ← List.filter_append, List.singleton_append] at final
    · -- Nothing is left to count, so none of the rest is ready.
      have none : (a :: rest).filter ready = [] := by
        rw [← List.length_eq_zero_iff, ← List.countP_eq_length_filter]
        omega
      refine ⟨s, if_neg more, ?_⟩
      rw [none, List.append_nil]
      exact holds

/-- A count that is large enough is no bound at all. -/
theorem loop (meets : Meets count visit ready elements invariant) (start : invariant [] s)
    (bound : elements.countP ready ≤ count s) :
    ∃ after, CountedScan.loop count visit 0 elements.length s = some after ∧
      invariant (elements.filter ready) after :=
  meets.loop_from elements (List.nil_append elements).symm start bound

end Meets
end KommunikationNetze.CountedScan
