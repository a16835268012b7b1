import Mathlib.Order.Defs.Unbundled
import Mathlib.Data.List.Nodup

/-! Binary trees of keyed values under an arbitrary order of the keys. The
recursive search order is the sortedness of the in-order walk, so a tree that is
rebuilt with a sublist of the walk keeps it without another case analysis. -/
namespace KommunikationNetze.SearchTree

inductive Tree (κ α : Type) where
  | nil
  | node (key : κ) (value : α) (left right : Tree κ α)

namespace Tree
variable {κ α : Type}

def walk : Tree κ α → List (κ × α)
  | nil => []
  | node key value left right => left.walk ++ (key, value) :: right.walk

def size : Tree κ α → Nat
  | nil => 0
  | node _ _ left right => left.size + right.size + 1

/-- The number of nodes on the longest path down. -/
def depth : Tree κ α → Nat
  | nil => 0
  | node _ _ left right => max left.depth right.depth + 1

theorem length_walk (tree : Tree κ α) : tree.walk.length = tree.size := by
  induction tree with
  | nil => rfl
  | node key value left right ihl ihr =>
    rw [walk, List.length_append, List.length_cons, ihl, ihr]
    rfl

@[simp] theorem walk_nil : (nil : Tree κ α).walk = [] := rfl

@[simp] theorem mem_walk_node {key : κ} {value : α} {left right : Tree κ α} {p : κ × α} :
    p ∈ (node key value left right).walk ↔
      p ∈ left.walk ∨ p = (key, value) ∨ p ∈ right.walk := by
  simp only [walk, List.mem_append, List.mem_cons]

/-- Keys to the left come before the key of a node, keys to the right after it. -/
def Ordered (before : κ → κ → Prop) : Tree κ α → Prop
  | nil => True
  | node key _ left right =>
      left.Ordered before ∧ right.Ordered before ∧
        (∀ p ∈ left.walk, before p.1 key) ∧ ∀ p ∈ right.walk, before key p.1

variable {before : κ → κ → Prop}

theorem ordered_iff_pairwise [IsTrans κ before] (t : Tree κ α) :
    t.Ordered before ↔ t.walk.Pairwise (fun p q => before p.1 q.1) := by
  induction t with
  | nil => simp [Ordered]
  | node key value left right ihl ihr =>
    simp only [Ordered, walk, List.pairwise_append, List.pairwise_cons, List.mem_cons, ihl, ihr]
    constructor
    · rintro ⟨hl, hr, below, above⟩
      refine ⟨hl, ⟨above, hr⟩, ?_⟩
      rintro p hp q (rfl | hq)
      · exact below p hp
      · exact IsTrans.trans _ _ _ (below p hp) (above q hq)
    · rintro ⟨hl, ⟨above, hr⟩, across⟩
      exact ⟨hl, hr, fun p hp => across p hp _ (.inl rfl), above⟩

theorem Ordered.of_walk_sublist [IsTrans κ before] {s t : Tree κ α} (ordered : t.Ordered before)
    (kept : s.walk.Sublist t.walk) : s.Ordered before :=
  (ordered_iff_pairwise s).mpr (((ordered_iff_pairwise t).mp ordered).sublist kept)

theorem Ordered.keys_nodup [IsTrans κ before] [Std.Irrefl before] {t : Tree κ α}
    (ordered : t.Ordered before) : (t.walk.map Prod.fst).Nodup := by
  rw [List.Nodup, List.pairwise_map]
  refine ((ordered_iff_pairwise t).mp ordered).imp ?_
  intro p q lt same
  exact Std.Irrefl.irrefl q.1 (same ▸ lt)

end Tree
end KommunikationNetze.SearchTree
