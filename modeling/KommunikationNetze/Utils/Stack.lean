import Mathlib.Data.List.Basic

/-! The growing stack of the dictionary iterator. The cells are the memory that has
been written so far; whether an index stays below `slots` is a separate question,
and a cell keeps what was written to it when the memory is reallocated. -/
namespace KommunikationNetze.Utils

structure Stack (α : Type) where
  stack : List α
  uppermostObject : Int
  slots : Nat
  bottom : -1 ≤ uppermostObject
  written : uppermostObject < stack.length

variable {α : Type}

def stackCreate : Stack α :=
  { stack := [], uppermostObject := -1, slots := 2, bottom := Int.le_refl _, written := Int.negSucc_lt_zero 0 }

/-- A store to one cell of the memory. -/
def storeCell (cells : List α) (index : Nat) (object : α) : List α :=
  cells.take index ++ object :: cells.drop (index + 1)

theorem take_storeCell {cells : List α} (inside : index ≤ cells.length) :
    (storeCell cells index object).take (index + 1) = cells.take index ++ [object] := by
  rw [storeCell, List.take_append, List.take_of_length_le (Nat.le_succ_of_le (List.length_take_le index cells))]
  simp [Nat.min_eq_left inside]

theorem length_storeCell {cells : List α} (object : α) (inside : index ≤ cells.length) :
    index < (storeCell cells index object).length := by
  simp only [storeCell, List.length_append, List.length_take, List.length_cons,
    Nat.min_eq_left inside]
  omega

def stackPush (stack : Stack α) (object : α) : Stack α where
  stack := storeCell stack.stack (stack.uppermostObject + 1).toNat object
  uppermostObject := stack.uppermostObject + 1
  slots := if stack.uppermostObject = stack.slots then stack.slots * 2 else stack.slots
  bottom := by have := stack.bottom; omega
  written := by
    have := stack.bottom
    have := stack.written
    have inside := length_storeCell object
      (show (stack.uppermostObject + 1).toNat ≤ stack.stack.length by omega)
    omega

def stackPop (stack : Stack α) : Option α × Stack α :=
  if empty : stack.uppermostObject < 0 then (none, stack)
  else (stack.stack[stack.uppermostObject.toNat]?,
    { stack with
      uppermostObject := stack.uppermostObject - 1
      bottom := by omega
      written := by have := stack.written; omega })

namespace Stack

/-- The objects on the stack, the uppermost first. -/
def contents (stack : Stack α) : List α :=
  (stack.stack.take (stack.uppermostObject + 1).toNat).reverse

@[simp] theorem contents_create : (stackCreate : Stack α).contents = [] := rfl

@[simp] theorem contents_push (stack : Stack α) (object : α) :
    (stackPush stack object).contents = object :: stack.contents := by
  have := stack.bottom
  have := stack.written
  have index : (stack.uppermostObject + 1 + 1).toNat = (stack.uppermostObject + 1).toNat + 1 := by
    omega
  simp only [contents, stackPush]
  rw [index, take_storeCell (by omega), List.reverse_append, List.reverse_singleton,
    List.singleton_append]

theorem pop_of_contents_nil {stack : Stack α} (empty : stack.contents = []) :
    stackPop stack = (none, stack) := by
  have := stack.written
  have length := congrArg List.length empty
  simp only [contents, List.length_reverse, List.length_take, List.length_nil] at length
  exact dif_pos (by omega)

theorem pop_of_contents_cons {stack : Stack α} (top : stack.contents = object :: rest) :
    (stackPop stack).1 = some object ∧ (stackPop stack).2.contents = rest := by
  have := stack.bottom
  have := stack.written
  have nonempty : ¬stack.uppermostObject < 0 := by
    intro negative
    have zero : (stack.uppermostObject + 1).toNat = 0 := by omega
    simp [contents, zero] at top
  have index : (stack.uppermostObject + 1).toNat = stack.uppermostObject.toNat + 1 := by omega
  have inside : stack.uppermostObject.toNat < stack.stack.length := by omega
  simp only [contents, index, List.take_add_one, List.getElem?_eq_getElem inside, Option.toList_some,
    List.reverse_append, List.reverse_singleton, List.singleton_append, List.cons.injEq] at top
  simp only [stackPop, dif_neg nonempty, contents]
  refine ⟨by rw [List.getElem?_eq_getElem inside, top.1], ?_⟩
  rw [← top.2]
  congr 2
  omega

end Stack
end KommunikationNetze.Utils
