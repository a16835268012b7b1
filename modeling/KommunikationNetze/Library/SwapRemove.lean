import Mathlib.Data.List.Basic
import Mathlib.Data.List.Perm.Basic

/-! Removal from an unordered array: the last element takes the free place. -/
namespace KommunikationNetze.SwapRemove
variable {α β : Type*}

/-- The array is short of its last element; unless that is the one to go, it is stored
at the index first. -/
def swapRemove (array : List α) (index : Nat) : List α :=
  if index ≠ array.length - 1 then
    match array.getLast? with
    | some last => (array.set index last).dropLast
    | none => array
  else array.dropLast

/-- What is left is the array without the element. -/
theorem cons_swapRemove_perm {array : List α} (found : array[index]? = some element) :
    (element :: swapRemove array index).Perm array := by
  obtain ⟨inside, rfl⟩ := List.getElem?_eq_some_iff.mp found
  rcases List.eq_nil_or_concat array with rfl | ⟨init, last, rfl⟩
  · simp at inside
  · simp only [List.concat_eq_append, List.length_append, List.length_singleton] at inside ⊢
    by_cases atEnd : index = init.length
    · subst atEnd
      simpa [swapRemove] using (List.perm_append_singleton last init).symm
    · have within : index < init.length := by omega
      have other : index ≠ (init ++ [last]).length - 1 := by simpa using atEnd
      rw [swapRemove, if_pos other]
      simp only [List.getLast?_append, List.getLast?_singleton, Option.some_or,
        List.set_append_left _ _ within, List.dropLast_concat, List.getElem_append_left within]
      refine (List.Perm.cons _ (List.set_perm_cons_eraseIdx within last)).trans ?_
      refine (List.Perm.swap _ _ _).trans ?_
      refine (List.Perm.cons _ (List.getElem_cons_eraseIdx_perm within)).trans ?_
      exact (List.perm_append_singleton last init).symm

theorem swapRemove_map (f : α → β) (array : List α) (index : Nat) :
    (swapRemove array index).map f = swapRemove (array.map f) index := by
  rw [swapRemove, swapRemove, List.length_map, List.getLast?_map]
  split
  · cases array.getLast? with
    | none => rfl
    | some last => simp only [Option.map_some, List.map_dropLast, List.map_set]
  · exact List.map_dropLast

end KommunikationNetze.SwapRemove
