import KommunikationNetze.Library.Transition
import Mathlib.Algebra.BigOperators.Group.Finset.Basic
import Mathlib.Algebra.Order.BigOperators.Group.Finset
import Mathlib.Logic.Function.Basic

/-! Any number of threads that share a memory. Each has a local state, and a step of one
thread changes the memory and its own local state only. -/
namespace KommunikationNetze.Interleaving
variable {Shared Local Label : Type}

structure State (Shared Local : Type) where
  shared : Shared
  thread : Nat → Local

namespace State

def set (s : State Shared Local) (i : Nat) (next : Shared × Local) : State Shared Local :=
  { shared := next.1, thread := Function.update s.thread i next.2 }

variable {s : State Shared Local} {i j : Nat} {next : Shared × Local}

@[simp] theorem set_shared : (s.set i next).shared = next.1 := rfl

@[simp] theorem set_thread_self : (s.set i next).thread i = next.2 := Function.update_self ..

theorem set_thread_of_ne (other : j ≠ i) : (s.set i next).thread j = s.thread j :=
  Function.update_of_ne other ..

/-- A sum over the first threads. -/
def total (count : Nat) (weight : Local → Nat) (s : State Shared Local) : Nat :=
  ∑ i ∈ Finset.range count, weight (s.thread i)

/-- The sum changes as the weight of the thread that moves. -/
theorem total_set (inside : i < count) (weight : Local → Nat) (s : State Shared Local)
    (next : Shared × Local) :
    total count weight (s.set i next) + weight (s.thread i) = total count weight s + weight next.2 := by
  have mem : i ∈ Finset.range count := Finset.mem_range.mpr inside
  have others : ∑ j ∈ (Finset.range count).erase i, weight ((s.set i next).thread j) =
      ∑ j ∈ (Finset.range count).erase i, weight (s.thread j) := by
    apply Finset.sum_congr rfl
    intro j other
    rw [set_thread_of_ne (Finset.ne_of_mem_erase other)]
  rw [total, total, ← Finset.sum_erase_add _ _ mem, ← Finset.sum_erase_add _ _ mem, others,
    set_thread_self]
  omega

end State

/-- One thread takes one of its steps. -/
inductive Step (step : Nat → Label → Shared × Local → Shared × Local → Prop) :
    State Shared Local → Nat × Label → State Shared Local → Prop where
  | mk (taken : step i label (s.shared, s.thread i) next) : Step step s (i, label) (s.set i next)

variable {step : Nat → Label → Shared × Local → Shared × Local → Prop} {G : Type}
  {Good : G → Shared → Prop} {Own : G → Shared → Nat → Local → Prop}

/-- What a step has to keep: the memory stays good, the thread that moves knows what its
new local state needs, and no other thread loses what it knows. `G` are auxiliary values. -/
def Preserves (step : Nat → Label → Shared × Local → Shared × Local → Prop)
    (Good : G → Shared → Prop) (Own : G → Shared → Nat → Local → Prop) : Prop :=
  ∀ {g shared i own label next}, Good g shared → Own g shared i own →
    step i label (shared, own) next →
    ∃ g', Good g' next.1 ∧ Own g' next.1 i next.2 ∧
      ∀ {j other}, j ≠ i → Own g shared j other → Own g' next.1 j other

theorem Step.owned (preserves : Preserves step Good Own) (stepped : Step step s label t)
    (owned : ∃ g, Good g s.shared ∧ ∀ i, Own g s.shared i (s.thread i)) :
    ∃ g, Good g t.shared ∧ ∀ i, Own g t.shared i (t.thread i) := by
  obtain ⟨g, good, own⟩ := owned
  obtain ⟨taken⟩ := stepped
  rename_i i label next
  obtain ⟨g', good', moved, others⟩ := preserves good (own i) taken
  refine ⟨g', good', ?_⟩
  intro j
  by_cases same : j = i
  · subst same
    simpa using moved
  · rw [State.set_thread_of_ne same]
    exact others same (own j)

theorem Run.owned (preserves : Preserves step Good Own)
    (initial : ∃ g, Good g s.shared ∧ ∀ i, Own g s.shared i (s.thread i))
    (run : Transition.Run (Step step) s labels t) :
    ∃ g, Good g t.shared ∧ ∀ i, Own g t.shared i (t.thread i) :=
  run.invariant (P := fun t => ∃ g, Good g t.shared ∧ ∀ i, Own g t.shared i (t.thread i)) initial
    fun owned stepped => stepped.owned preserves owned

end KommunikationNetze.Interleaving
