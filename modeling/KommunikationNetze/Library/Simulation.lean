import KommunikationNetze.Library.Transition

/-! Forward simulation. Every run of one system is matched by a run of another one, and a
relation between the two histories and the two states holds at the end. -/
namespace KommunikationNetze.Transition
variable {S T L M : Type} {concrete : S → L → S → Prop} {abstract : T → M → T → Prop}

/-- A step of the first system between reachable states is matched by any number of steps
of the second one. -/
def Matched (concrete : S → L → S → Prop) (abstract : T → M → T → Prop) (s₀ : S) (t₀ : T)
    (R : List L → S → List M → T → Prop) : Prop :=
  ∀ {ls s ms t label s'}, Run concrete s₀ ls s → Run abstract t₀ ms t → R ls s ms t →
    concrete s label s' →
    ∃ ns t', Run abstract t ns t' ∧ R (ls ++ [label]) s' (ms ++ ns) t'

theorem Run.simulated {R : List L → S → List M → T → Prop} (initial : R [] s₀ [] t₀)
    (matched : Matched concrete abstract s₀ t₀ R) (run : Run concrete s₀ ls s) :
    ∃ ms t, Run abstract t₀ ms t ∧ R ls s ms t := by
  induction run with
  | start => exact ⟨[], t₀, .start, initial⟩
  | snoc earlier taken ih =>
    obtain ⟨ms, t, other, related⟩ := ih
    obtain ⟨ns, t', more, after⟩ := matched earlier other related taken
    exact ⟨ms ++ ns, t', other.trans more, after⟩

end KommunikationNetze.Transition
