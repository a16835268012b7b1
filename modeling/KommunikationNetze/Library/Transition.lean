import Mathlib.Data.List.Infix

/-! Finite runs of a labelled transition system. A property kept by one step is
kept by every run; a history property may also speak of the labels taken so far. -/
namespace KommunikationNetze.Transition
variable {S T L : Type}

/-- Every label meets the condition after the labels before it. -/
def EveryStep (P : List L → L → Prop) (labels : List L) : Prop :=
  ∀ before label, before ++ [label] <+: labels → P before label

theorem everyStep_nil {P : List L → L → Prop} : EveryStep P [] := by
  intro before label early
  simp at early

theorem everyStep_concat {P : List L → L → Prop} (labels : List L) (last : L) :
    EveryStep P (labels ++ [last]) ↔ EveryStep P labels ∧ P labels last := by
  constructor
  · intro every
    refine ⟨fun before label early => every before label (early.trans (List.prefix_append _ _)), ?_⟩
    exact every labels last (List.prefix_refl _)
  · rintro ⟨every, meets⟩ before label early
    rcases List.prefix_concat_iff.mp early with same | shorter
    · obtain ⟨rfl, only⟩ := List.append_inj' same rfl
      rw [List.singleton_inj.mp only]
      exact meets
    · exact every before label shorter

theorem EveryStep.earlier {P : List L → L → Prop} (every : EveryStep P labels) (early : before <+: labels) :
    EveryStep P before :=
  fun first label within => every first label (within.trans early)

theorem everyStep_iff {P : List L → L → Prop} {labels : List L} :
    EveryStep P labels ↔ ∀ i (inside : i < labels.length), P (labels.take i) labels[i] := by
  constructor
  · intro every i inside
    refine every _ _ ?_
    rw [List.take_concat_get' _ _ inside]
    exact List.take_prefix _ _
  · intro all before label early
    obtain ⟨rest, rfl⟩ := early
    have here := all before.length (by simp)
    simpa using here

inductive Run (step : S → L → S → Prop) (origin : S) : List L → S → Prop where
  | start : Run step origin [] origin
  | snoc : Run step origin labels s → step s label t → Run step origin (labels ++ [label]) t

namespace Run
variable {step : S → L → S → Prop}

theorem single (taken : step s label t) : Run step s [label] t := .snoc .start taken

theorem trans (first : Run step s ls t) (second : Run step t ms u) :
    Run step s (ls ++ ms) u := by
  induction second with
  | start => simpa only [List.append_nil] using first
  | snoc _ taken ih => simpa only [List.append_assoc] using Run.snoc ih taken

/-- A run of steps that are steps of another system. -/
theorem imp {other : S → L → S → Prop} (weaker : ∀ {s label t}, step s label t → other s label t)
    (run : Run step s ls t) : Run other s ls t := by
  induction run with
  | start => exact .start
  | snoc _ taken ih => exact .snoc ih (weaker taken)

theorem invariant {P : S → Prop} (initial : P s)
    (preserves : ∀ {s label t}, P s → step s label t → P t) (run : Run step s ls t) : P t := by
  induction run with
  | start => exact initial
  | snoc _ taken ih => exact preserves ih taken

/-- The property relates the state to the labels that led to it. -/
theorem history {P : List L → S → Prop} (initial : P [] s)
    (preserves : ∀ {ls s label t}, P ls s → step s label t → P (ls ++ [label]) t)
    (run : Run step s ls t) : P ls t := by
  induction run with
  | start => exact initial
  | snoc _ taken ih => exact preserves ih taken

/-- A run is no longer than the measure of its origin, if every step decreases the measure
where the invariant holds. -/
theorem length_le {P : S → Prop} {measure : S → Nat} (initial : P s)
    (preserves : ∀ {s label t}, P s → step s label t → P t)
    (decreases : ∀ {s label t}, P s → step s label t → measure t < measure s)
    (run : Run step s ls t) : ls.length + measure t ≤ measure s := by
  induction run with
  | start => exact Nat.le_of_eq (Nat.zero_add _)
  | snoc earlier taken ih =>
    have less := decreases (earlier.invariant initial preserves) taken
    rw [List.length_append, List.length_singleton]
    omega

/-- Under such a measure every state leads to one in which no step is possible. -/
theorem exists_last {P : S → Prop} {measure : S → Nat} (holds : P s)
    (preserves : ∀ {s label t}, P s → step s label t → P t)
    (decreases : ∀ {s label t}, P s → step s label t → measure t < measure s) :
    ∃ labels t, Run step s labels t ∧ ∀ label u, ¬step t label u := by
  generalize bound : measure s = n
  induction n using Nat.strong_induction_on generalizing s with
  | h n ih =>
    by_cases last : ∀ label u, ¬step s label u
    · exact ⟨[], s, .start, last⟩
    · simp only [not_forall, not_not] at last
      obtain ⟨label, u, taken⟩ := last
      obtain ⟨labels, t, run, last⟩ := ih (measure u) (bound ▸ decreases holds taken) (preserves holds taken) rfl
      exact ⟨[label] ++ labels, t, (single taken).trans run, last⟩

end Run
end KommunikationNetze.Transition
