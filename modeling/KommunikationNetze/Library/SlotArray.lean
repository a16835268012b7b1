import KommunikationNetze.Library.SwapRemove

/-! An array of slots of which the first are in use and the others are cleared. The
operations of the array are operations of the list of its entries. -/
namespace KommunikationNetze.SlotArray
open SwapRemove
variable {α β : Type*}

/-- The entries come first, and so many cleared slots after them. -/
def Holds (zero : α) (free : Nat) (slots entries : List α) : Prop :=
  slots = entries ++ List.replicate free zero

/-- Room for more slots, which are cleared. -/
def expand (zero : α) (slots : List α) (oldNumOfSlots numOfSlots : Nat) : List α :=
  slots ++ List.replicate (numOfSlots - oldNumOfSlots) zero

/-- Removal of one of the first `count` slots: unless it is the last of them, that one is
copied here and cleared there. -/
def swapClear (zero : α) (slots : List α) (count i : Nat) : List α :=
  if i ≠ count - 1 then (slots.set i (slots[count - 1]?.getD zero)).set (count - 1) zero
  else slots.set i zero

/-- A change of one half of an element, seen in the array of that half. -/
theorem map_modify (f : α → β) (change : α → α) (seen : β → β) (half : ∀ a, f (change a) = seen (f a))
    (list : List α) (i : Nat) : (list.modify i change).map f = (list.map f).modify i seen := by
  apply List.ext_getElem?
  intro j
  rw [List.getElem?_map, List.getElem?_modify, List.getElem?_modify, List.getElem?_map]
  cases list[j]? with
  | none => rfl
  | some a =>
    by_cases here : i = j
    · simp only [here, if_true, Option.map_some, half, Option.map_eq_map]
    · simp only [here, if_false, Option.map_some, Option.map_eq_map]

namespace Holds
variable {zero : α} {free : Nat} {slots entries : List α}

theorem length (holds : Holds zero free slots entries) : slots.length = entries.length + free := by
  rw [holds, List.length_append, List.length_replicate]

theorem take (holds : Holds zero free slots entries) : slots.take entries.length = entries := by
  rw [holds, List.take_left]

theorem get (holds : Holds zero free slots entries) (inside : i < entries.length) :
    slots[i]? = entries[i]? := by
  rw [holds, List.getElem?_append_left inside]

theorem cleared (holds : Holds zero free slots entries) (behind : entries.length ≤ i)
    (inside : i < slots.length) : slots[i]? = some zero := by
  rw [holds.length] at inside
  rw [holds, List.getElem?_append_right behind, List.getElem?_replicate, if_pos (by omega)]

theorem expand (holds : Holds zero free slots entries) (old new : Nat) :
    Holds zero (free + (new - old)) (expand zero slots old new) entries := by
  rw [Holds, SlotArray.expand, holds, List.append_assoc, List.replicate_append_replicate]

theorem append (holds : Holds zero (free + 1) slots entries) (x : α) :
    Holds zero free (slots.set entries.length x) (entries ++ [x]) := by
  rw [Holds, holds, List.set_append_right _ _ (Nat.le_refl _), Nat.sub_self, List.replicate_succ,
    List.set_cons_zero, List.append_assoc, List.singleton_append]

theorem overwrite (holds : Holds zero free slots entries) (inside : i < entries.length) (x : α) :
    Holds zero free (slots.set i x) (entries.set i x) := by
  rw [Holds, holds, List.set_append_left _ _ inside]

theorem modify (holds : Holds zero free slots entries) (inside : i < entries.length) (f : α → α) :
    Holds zero free (slots.modify i f) (entries.modify i f) := by
  rw [List.modify_eq_set_getElem?, List.modify_eq_set_getElem?, holds.get inside,
    List.getElem?_eq_getElem inside]
  exact holds.overwrite inside _

/-- The removal of an entry leaves one more cleared slot. -/
theorem remove (holds : Holds zero free slots entries) (inside : i < entries.length) :
    Holds zero (free + 1) (swapClear zero slots entries.length i) (swapRemove entries i) := by
  rcases List.eq_nil_or_concat entries with rfl | ⟨init, last, rfl⟩
  · simp at inside
  rw [List.concat_eq_append] at holds inside ⊢
  rw [List.length_append, List.length_singleton] at inside
  have clear : ∀ before : List α, before.length = init.length →
      ((before ++ [last]) ++ List.replicate free zero).set init.length zero =
        before ++ List.replicate (free + 1) zero := by
    intro before length
    rw [List.append_assoc, List.set_append_right _ _ (Nat.le_of_eq length), length, Nat.sub_self,
      List.singleton_append, List.set_cons_zero, List.replicate_succ]
  have last_get : (init ++ [last] ++ List.replicate free zero)[init.length]? = some last := by
    rw [List.getElem?_append_left (by simp), List.getElem?_concat_length]
  simp only [Holds, swapClear, swapRemove, List.length_append, List.length_singleton,
    Nat.add_sub_cancel, List.getLast?_append, List.getLast?_singleton, Option.some_or, ne_eq]
  rw [holds]
  split
  · have before : i < init.length := by omega
    rw [last_get, Option.getD_some, List.set_append_left _ _ (by simp; omega),
      List.set_append_left _ _ before, clear _ (by simp), List.dropLast_concat]
  · rename_i same
    have atEnd : i = init.length := by omega
    rw [atEnd, clear _ rfl, List.dropLast_concat]

end Holds

end KommunikationNetze.SlotArray
