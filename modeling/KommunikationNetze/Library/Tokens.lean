import Mathlib.Data.Multiset.MapFold
import Mathlib.Data.Multiset.UnionInter
import Mathlib.Algebra.Order.Group.Multiset

/-! Linear tokens. Every identity holds at most one token, of some kind; a system that
only moves, drops and exchanges tokens and issues them to new identities keeps that. -/
namespace KommunikationNetze.Tokens
variable {κ : Type*}

theorem filterMap_cons_toList {α β : Type*} (f : α → Option β) (a : α) (s : Multiset α) :
    (a ::ₘ s).filterMap f = ↑(f a).toList + s.filterMap f := by
  cases found : f a with
  | none => simp [Multiset.filterMap_cons_none, found]
  | some b => simp [Multiset.filterMap_cons_some f a s found]

theorem coe_filterMap_cons {α β : Type*} (f : α → Option β) (a : α) (l : List α) :
    ((a :: l).filterMap f : Multiset β) = ↑(f a).toList + ↑(l.filterMap f) := by
  cases found : f a <;> simp [found]

structure Linear (tokens : Multiset (Nat × κ)) (issued : Nat) : Prop where
  unique : (tokens.map Prod.fst).Nodup
  known : ∀ token ∈ tokens, token.1 < issued

namespace Linear
variable {tokens rest : Multiset (Nat × κ)} {issued id : Nat} {kind other : κ}

theorem empty : Linear (0 : Multiset (Nat × κ)) issued := ⟨by simp, by simp⟩

theorem mono (linear : Linear tokens issued) (fewer : rest ≤ tokens) : Linear rest issued :=
  ⟨Multiset.nodup_of_le (Multiset.map_le_map fewer) linear.unique,
    fun token mem => linear.known token (Multiset.mem_of_le fewer mem)⟩

theorem not_mem_rest (linear : Linear ((id, kind) ::ₘ rest) issued) : (id, other) ∉ rest := by
  intro mem
  have unique := linear.unique
  rw [Multiset.map_cons, Multiset.nodup_cons] at unique
  exact unique.1 (Multiset.mem_map.mpr ⟨(id, other), mem, rfl⟩)

theorem exchange (linear : Linear ((id, kind) ::ₘ rest) issued) :
    Linear ((id, other) ::ₘ rest) issued := by
  refine ⟨by simpa using linear.unique, ?_⟩
  intro token mem
  rcases Multiset.mem_cons.mp mem with rfl | mem
  · exact linear.known (id, kind) (Multiset.mem_cons_self _ _)
  · exact linear.known token (Multiset.mem_cons_of_mem mem)

theorem issue (linear : Linear tokens issued) : Linear ((issued, kind) ::ₘ tokens) (issued + 1) := by
  constructor
  · rw [Multiset.map_cons, Multiset.nodup_cons]
    refine ⟨?_, linear.unique⟩
    intro mem
    obtain ⟨token, held, same⟩ := Multiset.mem_map.mp mem
    have := linear.known token held
    omega
  · intro token mem
    rcases Multiset.mem_cons.mp mem with rfl | mem
    · exact Nat.lt_succ_self _
    · exact (linear.known token mem).trans (Nat.lt_succ_self _)

end Linear
end KommunikationNetze.Tokens
