import KommunikationNetze.Library.Transition

/-! An operation that starts over when it was overtaken. Some steps of a run are marked,
and an attempt can only fail if a step was marked since it began. -/
namespace KommunikationNetze.Transition
variable {S L : Type} {step marked : S → L → S → Prop}

/-- A run in which so many steps are marked. -/
inductive Counted (step marked : S → L → S → Prop) (origin : S) : Nat → List L → S → Prop where
  | start : Counted step marked origin 0 [] origin
  | marked (earlier : Counted step marked origin n labels s) (taken : step s label t)
      (mark : marked s label t) : Counted step marked origin (n + 1) (labels ++ [label]) t
  | unmarked (earlier : Counted step marked origin n labels s) (taken : step s label t)
      (mark : ¬marked s label t) : Counted step marked origin n (labels ++ [label]) t

namespace Counted

theorem run (counted : Counted step marked origin n labels s) : Run step origin labels s := by
  induction counted with
  | start => exact .start
  | marked _ taken _ ih | unmarked _ taken _ ih => exact .snoc ih taken

theorem of_run (run : Run step origin labels s) : ∃ n, Counted step marked origin n labels s := by
  induction run with
  | start => exact ⟨0, .start⟩
  | snoc earlier taken ih =>
    rename_i s label t
    obtain ⟨n, counted⟩ := ih
    by_cases mark : marked s label t
    · exact ⟨n + 1, .marked counted taken mark⟩
    · exact ⟨n, .unmarked counted taken mark⟩

/-- A measure that no step lowers and every marked step raises counts the marked steps. -/
theorem measure_le {P : S → Nat → Prop} (initial : P origin k)
    (rises : ∀ {s label t k}, P s k → step s label t →
      ∃ k', P t k' ∧ k ≤ k' ∧ (marked s label t → k < k'))
    (counted : Counted step marked origin n labels s) : ∃ k', P s k' ∧ k + n ≤ k' := by
  induction counted with
  | start => exact ⟨k, initial, Nat.le_refl _⟩
  | marked _ taken mark ih =>
    obtain ⟨k₁, measured, counts⟩ := ih
    obtain ⟨k₂, after, _, more⟩ := rises measured taken
    have := more mark
    exact ⟨k₂, after, by omega⟩
  | unmarked _ taken _ ih =>
    obtain ⟨k₁, measured, counts⟩ := ih
    obtain ⟨k₂, after, grown, _⟩ := rises measured taken
    exact ⟨k₂, after, counts.trans grown⟩

end Counted

/-- The steps of one operation are those whose label is `spent`. A step brings it nearer to
its end, or starts it over with `again` more steps to do. An attempt that is `current` stays
so until a step is marked, and does not start over before. -/
structure Retries (step marked : S → L → S → Prop) (spent : L → Bool) (good current done : S → Prop)
    (rank : S → Nat) (again : Nat) : Prop where
  kept : ∀ {s label t}, good s → step s label t → good t
  lasting : ∀ {s label t}, good s → step s label t → done s → done t
  others : ∀ {s label t}, good s → step s label t → spent label = false →
    rank t ≤ rank s ∧ (current s → ¬marked s label t → current t)
  own : ∀ {s label t}, good s → step s label t → spent label = true → ¬done s → ¬done t →
    (rank t < rank s ∧ (current s → ¬marked s label t → current t)) ∨
      (rank t < rank s + again ∧ current t ∧ (current s → marked s label t))

namespace Retries
variable {spent : L → Bool} {good current done : S → Prop} {rank : S → Nat} {again : Nat}

/-- An operation that is not over has taken no more steps than one attempt has, and those
of one more attempt for every marked step. -/
theorem spent_le (retries : Retries step marked spent good current done rank again)
    (initial : good origin) (fresh : current origin)
    (counted : Counted step marked origin n labels s) :
    done s ∨ labels.countP spent + rank s ≤ rank origin + again * n := by
  -- An attempt that may have been overtaken has the steps of the next one in advance.
  have bound : done s ∨ labels.countP spent + rank s + again ≤ rank origin + again * n ∨
      (current s ∧ labels.countP spent + rank s ≤ rank origin + again * n) := by
    induction counted with
    | start => exact .inr (.inr ⟨fresh, by simp⟩)
    | marked earlier taken mark ih =>
      rename_i n labels s label t
      have now := earlier.run.invariant initial retries.kept
      rw [List.countP_append, List.countP_singleton, Nat.mul_succ]
      by_cases ended : done t
      · exact .inl ended
      have before : ¬done s := fun early => ended (retries.lasting now taken early)
      replace ih := ih.resolve_left before
      cases mine : spent label with
      | false =>
        obtain ⟨less, _⟩ := retries.others now taken mine
        refine .inr (.inl ?_)
        simp only [Bool.false_eq_true, if_false]
        omega
      | true =>
        simp only [if_true]
        rcases retries.own now taken mine before ended with ⟨less, _⟩ | ⟨less, renewed, _⟩
        · exact .inr (.inl (by omega))
        · exact .inr (.inr ⟨renewed, by omega⟩)
    | unmarked earlier taken mark ih =>
      rename_i n labels s label t
      have now := earlier.run.invariant initial retries.kept
      rw [List.countP_append, List.countP_singleton]
      by_cases ended : done t
      · exact .inl ended
      have before : ¬done s := fun early => ended (retries.lasting now taken early)
      replace ih := ih.resolve_left before
      cases mine : spent label with
      | false =>
        obtain ⟨less, still⟩ := retries.others now taken mine
        simp only [Bool.false_eq_true, if_false]
        rcases ih with spare | ⟨valid, within⟩
        · exact .inr (.inl (by omega))
        · exact .inr (.inr ⟨still valid mark, by omega⟩)
      | true =>
        simp only [if_true]
        rcases retries.own now taken mine before ended with ⟨less, still⟩ | ⟨less, renewed, only⟩
        · rcases ih with spare | ⟨valid, within⟩
          · exact .inr (.inl (by omega))
          · exact .inr (.inr ⟨still valid mark, by omega⟩)
        · rcases ih with spare | ⟨valid, _⟩
          · exact .inr (.inr ⟨renewed, by omega⟩)
          · exact absurd (only valid) mark
  rcases bound with ended | spare | ⟨_, within⟩
  · exact .inl ended
  · exact .inr (by omega)
  · exact .inr within

end Retries
end KommunikationNetze.Transition
