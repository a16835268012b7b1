import KommunikationNetze.Library.SearchTree
import Mathlib.Logic.Relation

/-! Trees that nodes in a memory form by their two child pointers. A tree is linked when
the pointers of its nodes are those of its shape; its nodes are then exactly what can be
reached from its root, and no two pointers lead to the same node. -/
namespace KommunikationNetze.LinkedTree
open SearchTree

inductive Side where
  | left
  | right
  deriving DecidableEq

variable {κ τ ρ : Type}

/-- The pointer to a tree; the empty tree is NULL. -/
def root (ref : τ → Option ρ) : Tree κ τ → Option ρ
  | .nil => none
  | .node _ value _ _ => ref value

/-- The nodes of a tree. -/
def refs (ref : τ → Option ρ) (tree : Tree κ τ) : List ρ := tree.walk.filterMap fun p => ref p.2

def Linked (ref : τ → Option ρ) (child : Side → ρ → Option ρ) : Tree κ τ → Prop
  | .nil => True
  | .node _ value left right => ∃ node, ref value = some node ∧
      child .left node = root ref left ∧ child .right node = root ref right ∧
      Linked ref child left ∧ Linked ref child right

/-- The nodes that can be reached along child pointers. -/
def Reaches (child : Side → ρ → Option ρ) (node : ρ) : ρ → Prop :=
  Relation.ReflTransGen (fun a b => ∃ side, child side a = some b) node

variable {ref : τ → Option ρ} {child other : Side → ρ → Option ρ} {tree left right : Tree κ τ}
  {key : κ} {value : τ} {node e : ρ}

@[simp] theorem refs_nil : refs ref (.nil : Tree κ τ) = [] := rfl

theorem refs_node (known : ref value = some node) :
    refs ref (.node key value left right) = refs ref left ++ node :: refs ref right := by
  simp only [refs, Tree.walk, List.filterMap_append, List.filterMap_cons, known]

theorem mem_refs_node (known : ref value = some node) :
    e ∈ refs ref (.node key value left right) ↔ e ∈ refs ref left ∨ e = node ∨ e ∈ refs ref right := by
  rw [refs_node known, List.mem_append, List.mem_cons]

/-- The three parts of a tree have no node in common. -/
theorem nodup_refs_node (known : ref value = some node)
    (nodup : (refs ref (.node key value left right)).Nodup) :
    (refs ref left).Nodup ∧ (refs ref right).Nodup ∧ node ∉ refs ref left ∧ node ∉ refs ref right ∧
      (refs ref left).Disjoint (refs ref right) := by
  rw [refs_node known, List.nodup_append, List.nodup_cons] at nodup
  obtain ⟨nodupLeft, ⟨fresh, nodupRight⟩, apart⟩ := nodup
  refine ⟨nodupLeft, nodupRight, fun mem => ?_, fresh, fun e inLeft inRight => ?_⟩
  · exact apart node mem node List.mem_cons_self rfl
  · exact apart e inLeft e (List.mem_cons_of_mem _ inRight) rfl

theorem mem_refs_root (found : root ref tree = some e) : e ∈ refs ref tree := by
  cases tree with
  | nil => cases found
  | node key value left right =>
    have known : ref value = some e := found
    exact (mem_refs_node known).mpr (.inr (.inl rfl))

theorem Linked.root_some (linked : Linked ref child (.node key value left right)) :
    ∃ node, root ref (.node key value left right) = some node := by
  obtain ⟨node, known, _⟩ := linked
  exact ⟨node, known⟩

/-- The children of its nodes are its nodes. -/
theorem Linked.child_mem (linked : Linked ref child tree) (mem : node ∈ refs ref tree)
    (points : child side node = some e) : e ∈ refs ref tree := by
  induction tree with
  | nil => cases mem
  | node key value left right ihl ihr =>
    obtain ⟨own, known, toLeft, toRight, linkedLeft, linkedRight⟩ := linked
    rw [mem_refs_node known] at mem ⊢
    rcases mem with inLeft | rfl | inRight
    · exact .inl (ihl linkedLeft inLeft)
    · cases side with
      | left => exact .inl (mem_refs_root (toLeft.symm.trans points))
      | right => exact .inr (.inr (mem_refs_root (toRight.symm.trans points)))
    · exact .inr (.inr (ihr linkedRight inRight))

theorem reaches_below {subtree : Tree κ τ} (linked : Linked ref child subtree)
    (points : child side node = root ref subtree) (mem : e ∈ refs ref subtree)
    (reaches : ∀ {start}, root ref subtree = some start → Reaches child start e) :
    Reaches child node e := by
  cases subtree with
  | nil => cases mem
  | node _ _ _ _ =>
    obtain ⟨start, found⟩ := linked.root_some
    exact .head ⟨side, points.trans found⟩ (reaches found)

theorem Linked.reaches_of_mem (linked : Linked ref child tree) (found : root ref tree = some node)
    (mem : e ∈ refs ref tree) : Reaches child node e := by
  induction tree generalizing node with
  | nil => cases found
  | node key value left right ihl ihr =>
    obtain ⟨own, known, toLeft, toRight, linkedLeft, linkedRight⟩ := linked
    obtain rfl := Option.some.inj (known.symm.trans found)
    rcases (mem_refs_node known).mp mem with inLeft | rfl | inRight
    · exact reaches_below linkedLeft toLeft inLeft fun found => ihl linkedLeft found inLeft
    · exact .refl
    · exact reaches_below linkedRight toRight inRight fun found => ihr linkedRight found inRight

/-- What can be reached from the root are the nodes of the tree. -/
theorem Linked.reaches_iff (linked : Linked ref child tree) (found : root ref tree = some node) :
    Reaches child node e ↔ e ∈ refs ref tree := by
  refine ⟨fun reached => ?_, linked.reaches_of_mem found⟩
  induction reached with
  | refl => exact mem_refs_root found
  | tail _ points ih =>
    obtain ⟨side, points⟩ := points
    exact linked.child_mem ih points

/-- A pointer to a node: the one to the whole tree, or a child of another node. -/
def Points (ref : τ → Option ρ) (child : Side → ρ → Option ρ) (tree : Tree κ τ) :
    Option (Side × ρ) → ρ → Prop
  | none, e => root ref tree = some e
  | some (side, parent), e => parent ∈ refs ref tree ∧ child side parent = some e

/-- The pointers into a subtree are its own, and the one to it is a child pointer. -/
theorem existsUnique_below {side : Side} {subtree : Tree κ τ} (only : ∃! pointer, Points ref child subtree pointer e)
    (points : child side node = root ref subtree) (inner : refs ref subtree ⊆ refs ref tree)
    (mem : node ∈ refs ref tree) (outside : root ref tree ≠ some e)
    (parents : ∀ {parent other}, parent ∈ refs ref tree → child other parent = some e →
      parent ∈ refs ref subtree ∨ parent = node ∧ other = side) :
    ∃! pointer, Points ref child tree pointer e := by
  obtain ⟨pointer, holds, unique⟩ := only
  refine ⟨some (pointer.getD (side, node)), ?_, ?_⟩
  · cases pointer with
    | none => exact ⟨mem, points.trans holds⟩
    | some known => exact ⟨inner holds.1, holds.2⟩
  · rintro (_ | ⟨other, parent⟩) another
    · exact absurd another outside
    · rcases parents another.1 another.2 with below | ⟨rfl, rfl⟩
      · rw [← unique (some (other, parent)) ⟨below, another.2⟩]
        rfl
      · rw [← unique none (points.symm.trans another.2)]
        rfl

/-- There is one pointer to each node. -/
theorem Linked.existsUnique_pointer (linked : Linked ref child tree) (nodup : (refs ref tree).Nodup)
    (mem : e ∈ refs ref tree) : ∃! pointer, Points ref child tree pointer e := by
  induction tree with
  | nil => cases mem
  | node key value left right ihl ihr =>
    obtain ⟨node, known, toLeft, toRight, linkedLeft, linkedRight⟩ := linked
    obtain ⟨nodupLeft, nodupRight, notLeft, notRight, apart⟩ := nodup_refs_node known nodup
    have here : ∀ {e}, root ref (.node key value left right) = some e ↔ node = e := by
      intro e
      rw [root, known, Option.some.injEq]
    have self : node ∈ refs ref (.node key value left right) := (mem_refs_node known).mpr (.inr (.inl rfl))
    have only : ∀ {parent side}, parent ∈ refs ref (.node key value left right) →
        child side parent = some e → parent ∈ refs ref left ∧ e ∈ refs ref left ∨
          parent ∈ refs ref right ∧ e ∈ refs ref right ∨
          parent = node ∧ (side = .left ∧ e ∈ refs ref left ∨ side = .right ∧ e ∈ refs ref right) := by
      intro parent side within points
      rcases (mem_refs_node known).mp within with inLeft | rfl | inRight
      · exact .inl ⟨inLeft, linkedLeft.child_mem inLeft points⟩
      · cases side with
        | left => exact .inr (.inr ⟨rfl, .inl ⟨rfl, mem_refs_root (toLeft.symm.trans points)⟩⟩)
        | right => exact .inr (.inr ⟨rfl, .inr ⟨rfl, mem_refs_root (toRight.symm.trans points)⟩⟩)
      · exact .inr (.inl ⟨inRight, linkedRight.child_mem inRight points⟩)
    rcases (mem_refs_node known).mp mem with inLeft | rfl | inRight
    · refine existsUnique_below (ihl linkedLeft nodupLeft inLeft) toLeft ?_ self ?_ ?_
      · exact fun e mem => (mem_refs_node known).mpr (.inl mem)
      · exact fun same => notLeft (here.mp same ▸ inLeft)
      · intro parent side within points
        rcases only within points with ⟨below, _⟩ | ⟨_, inRight⟩ | ⟨same, ⟨atLeft, _⟩ | ⟨_, inRight⟩⟩
        · exact .inl below
        · exact absurd inRight (apart inLeft)
        · exact .inr ⟨same, atLeft⟩
        · exact absurd inRight (apart inLeft)
    · refine ⟨none, here.mpr rfl, ?_⟩
      rintro (_ | ⟨side, parent⟩) another
      · rfl
      · rcases only another.1 another.2 with ⟨_, inLeft⟩ | ⟨_, inRight⟩ | ⟨_, ⟨_, inLeft⟩ | ⟨_, inRight⟩⟩
        · exact absurd inLeft notLeft
        · exact absurd inRight notRight
        · exact absurd inLeft notLeft
        · exact absurd inRight notRight
    · refine existsUnique_below (ihr linkedRight nodupRight inRight) toRight ?_ self ?_ ?_
      · exact fun e mem => (mem_refs_node known).mpr (.inr (.inr mem))
      · exact fun same => notRight (here.mp same ▸ inRight)
      · intro parent side within points
        rcases only within points with ⟨_, inLeft⟩ | ⟨below, _⟩ | ⟨same, ⟨_, inLeft⟩ | ⟨atRight, _⟩⟩
        · exact absurd inRight (apart inLeft)
        · exact .inl below
        · exact absurd inRight (apart inLeft)
        · exact .inr ⟨same, atRight⟩

end KommunikationNetze.LinkedTree
