import KommunikationNetze.Utils.DictionaryIterator
import Mathlib.Logic.Function.Iterate

/-! The iterator of a dictionary enumerates the map that the dictionary holds. A key that was
set to NULL is stored like any other. -/
namespace KommunikationNetze.Utils
open CLib SearchTree
variable {α : Type}

/-- What is stored for a key: the value of the last set of it, unless a removal followed. -/
def storedValue (calls : List (DictionaryCall α)) (key : CString) : Option (Option α) :=
  match calls.reverse.find? (·.key = key) with
  | some (.set _ value) => some value
  | _ => none

theorem storedValue_snoc (calls : List (DictionaryCall α)) (call : DictionaryCall α) (key : CString) :
    storedValue (calls ++ [call]) key =
      if key = call.key then
        match call with
        | .set _ value => some value
        | .remove _ => none
      else storedValue calls key := by
  by_cases same : key = call.key
  · subst same
    rw [if_pos rfl, storedValue, List.reverse_append, List.reverse_singleton, List.singleton_append,
      List.find?_cons_of_pos (by simp)]
    cases call <;> rfl
  · have other : ¬call.key = key := fun h => same h.symm
    rw [if_neg same, storedValue, List.reverse_append, List.reverse_singleton, List.singleton_append,
      List.find?_cons_of_neg (by simpa using other), storedValue]

theorem storedValue_ne_nil {calls : List (DictionaryCall α)} (nonempty : ∀ call ∈ calls, call.key ≠ [])
    (stored : storedValue calls key = some value) : key ≠ [] := by
  rw [storedValue] at stored
  cases found : calls.reverse.find? (·.key = key) with
  | none =>
    rw [found] at stored
    cases stored
  | some call =>
    have same : call.key = key := by simpa using List.find?_some found
    rw [← same]
    exact nonempty call (List.mem_reverse.mp (List.mem_of_find?_eq_some found))

section Walk

theorem mem_walk_entrySet_self (entry : DictionaryEntry α) (key : CString) (value : Option α) :
    (key, value) ∈ (entrySet entry key value).walk := by
  induction entry with
  | nil => exact Tree.mem_walk_node.mpr (.inr (.inl rfl))
  | node entryKey entryValue left right ihl ihr =>
    simp only [entrySet]
    split
    · rename_i found
      rw [strcmp_eq_zero.mp found]
      exact Tree.mem_walk_node.mpr (.inr (.inl rfl))
    · split
      · exact Tree.mem_walk_node.mpr (.inl ihl)
      · exact Tree.mem_walk_node.mpr (.inr (.inr ihr))

theorem mem_walk_entrySet_other {entry : DictionaryEntry α} (mem : p ∈ entry.walk) (other : p.1 ≠ key) :
    p ∈ (entrySet entry key value).walk := by
  induction entry with
  | nil => cases mem
  | node entryKey entryValue left right ihl ihr =>
    simp only [entrySet]
    rw [Tree.mem_walk_node] at mem
    split
    · rename_i found
      rw [Tree.mem_walk_node]
      refine mem.imp_right (Or.imp_left fun same => ?_)
      exact absurd ((congrArg Prod.fst same).trans (strcmp_eq_zero.mp found)) other
    · split
      · rw [Tree.mem_walk_node]
        exact mem.imp_left ihl
      · rw [Tree.mem_walk_node]
        exact mem.imp_right (Or.imp_right ihr)

/-- A set replaces what is stored under its key and nothing else. -/
theorem mem_walk_entrySet_iff {entry : DictionaryEntry α} (ordered : SearchOrder entry) :
    p ∈ (entrySet entry key value).walk ↔ p = (key, value) ∨ p ∈ entry.walk ∧ p.1 ≠ key := by
  constructor
  · intro mem
    by_cases same : p.1 = key
    · left
      have after : SearchOrder (entrySet entry key value) := searchOrder_entrySet ordered
      have nodup := after.keys_nodup
      exact List.inj_on_of_nodup_map nodup mem (mem_walk_entrySet_self entry key value) same
    · rcases mem_walk_entrySet mem with rfl | old
      · exact .inl rfl
      · exact .inr ⟨old, same⟩
  · rintro (rfl | ⟨old, other⟩)
    · exact mem_walk_entrySet_self entry key value
    · exact mem_walk_entrySet_other old other

/-- The entries of the tree but for the head entry are the stored keys. -/
theorem mem_walk_dictionaryAfter {calls : List (DictionaryCall α)} (nonempty : key ≠ []) :
    (key, value) ∈ (dictionaryAfter calls).headEntry.walk ↔ storedValue calls key = some value := by
  induction calls using List.reverseRecOn with
  | nil =>
    refine iff_of_false ?_ (fun stored => by cases stored)
    intro mem
    rcases Tree.mem_walk_node.mp mem with left | same | right
    · cases left
    · exact nonempty (congrArg Prod.fst same)
    · cases right
  | append_singleton calls call ih =>
    have ordered : SearchOrder (dictionaryAfter calls).headEntry := dictionaryAfter_ordered calls
    rw [dictionaryAfter_snoc, storedValue_snoc]
    cases call with
    | set other stored =>
      rw [DictionaryCall.apply, dictionarySet_headEntry, mem_walk_entrySet_iff ordered, ih,
        DictionaryCall.key]
      by_cases same : key = other
      · simp [same, eq_comm]
      · simp [same]
    | remove other =>
      rw [DictionaryCall.apply, dictionaryRemove_headEntry, walk_entryRemove ordered, List.mem_filter,
        ih, DictionaryCall.key]
      by_cases same : key = other
      · simp [same]
      · simp [same]

end Walk

namespace DictionaryIterator

/-- The iterator after steps in a row. -/
def nextTimes (iter : DictionaryIterator α) (steps : Nat) : DictionaryIterator α :=
  (fun iter => (dictionaryIteratorNext iter).2)^[steps] iter

/-- Without a current entry nothing is on the stack. -/
structure Settled (iter : DictionaryIterator α) : Prop where
  clean : iter.Clean
  ended : iter.currentEntry = .nil → iter.stack.contents = []

theorem next_settled {iter : DictionaryIterator α} (clean : iter.Clean) :
    (dictionaryIteratorNext iter).2.Settled := by
  refine ⟨(next_spec clean).2.1, ?_⟩
  cases top : iter.stack.contents with
  | nil =>
    rw [dictionaryIteratorNext, Stack.pop_of_contents_nil top]
    exact fun _ => top
  | cons entry rest =>
    obtain ⟨popped, _⟩ := Stack.pop_of_contents_cons top
    cases entry with
    | nil => exact absurd rfl (clean .nil (by simp [top]))
    | node key value left right =>
      intro ended
      simp [dictionaryIteratorNext, popped] at ended

/-- A step passes the first of the upcoming entries. -/
theorem Settled.upcoming_next {iter : DictionaryIterator α} (settled : iter.Settled) :
    (dictionaryIteratorNext iter).2.upcoming = iter.upcoming.tail := by
  rw [(next_spec settled.clean).1]
  cases shape : iter.currentEntry with
  | nil =>
    rw [settled.ended shape, (upcoming_nil_iff iter).mpr shape]
    rfl
  | node key value left right =>
    rw [upcoming, shape]
    rfl

theorem Settled.nextTimes {iter : DictionaryIterator α} (settled : iter.Settled) (steps : Nat) :
    (iter.nextTimes steps).Settled ∧ (iter.nextTimes steps).upcoming = iter.upcoming.drop steps := by
  induction steps with
  | zero => exact ⟨settled, rfl⟩
  | succ steps ih =>
    obtain ⟨still, upcoming⟩ := ih
    rw [DictionaryIterator.nextTimes, Function.iterate_succ_apply', ← DictionaryIterator.nextTimes]
    refine ⟨next_settled still.clean, ?_⟩
    rw [still.upcoming_next, upcoming, List.tail_drop]

theorem current_upcoming (iter : DictionaryIterator α) :
    dictionaryIteratorGetKey iter = iter.upcoming.head?.map Prod.fst ∧
      dictionaryIteratorGetValue iter = iter.upcoming.head?.bind Prod.snd := by
  cases shape : iter.currentEntry with
  | nil =>
    rw [dictionaryIteratorGetKey, dictionaryIteratorGetValue, upcoming, shape]
    exact ⟨rfl, rfl⟩
  | node key value left right =>
    rw [dictionaryIteratorGetKey, dictionaryIteratorGetValue, upcoming, shape]
    exact ⟨rfl, rfl⟩

/-- The iterator presents the entries of the map, one after another: after so many steps it
shows the entry at that position, and a step returns true if it shows another one. -/
structure Enumerates (iter : DictionaryIterator α) (map : CString → Option (Option α))
    (presented : List (CString × Option α)) : Prop where
  keys : (presented.map Prod.fst).Nodup
  stored : ∀ key value, (key, value) ∈ presented ↔ map key = some value
  headless : ∀ entry ∈ presented, entry.1 ≠ []
  shows : ∀ steps, dictionaryIteratorGetKey (iter.nextTimes steps) = presented[steps]?.map Prod.fst ∧
    dictionaryIteratorGetValue (iter.nextTimes steps) = presented[steps]?.bind Prod.snd
  more : ∀ steps, (dictionaryIteratorNext (iter.nextTimes steps)).1 = true ↔ steps + 1 < presented.length

theorem Settled.shows {iter : DictionaryIterator α} (settled : iter.Settled) (steps : Nat) :
    (dictionaryIteratorGetKey (iter.nextTimes steps) = iter.upcoming[steps]?.map Prod.fst ∧
      dictionaryIteratorGetValue (iter.nextTimes steps) = iter.upcoming[steps]?.bind Prod.snd) ∧
    ((dictionaryIteratorNext (iter.nextTimes steps)).1 = true ↔ steps + 1 < iter.upcoming.length) := by
  obtain ⟨still, upcoming⟩ := settled.nextTimes steps
  obtain ⟨key, value⟩ := current_upcoming (iter.nextTimes steps)
  have head : iter.upcoming[steps]? = (iter.nextTimes steps).upcoming.head? := by
    rw [upcoming, List.head?_drop]
  refine ⟨⟨?_, ?_⟩, ?_⟩
  · rw [key, head]
  · rw [value, head]
  · rw [(next_spec still.clean).2.2, ne_eq, ← upcoming_nil_iff, still.upcoming_next, upcoming,
      List.tail_drop, List.drop_eq_nil_iff, not_le]

theorem iteratorFrom_settled {headEntry : DictionaryEntry α} (present : headEntry ≠ .nil) :
    (iteratorFrom headEntry).Settled := by
  have clean : Clean { currentEntry := .nil, stack := stackPush stackCreate headEntry } := by
    intro entry mem
    rw [Stack.contents_push, Stack.contents_create] at mem
    rw [List.mem_singleton.mp mem]
    exact present
  exact next_settled (next_spec clean).2.1

/-- Only the head entry is left out. -/
theorem mem_entries_iff {dict : Dictionary α} (head : HeadEntry dict) (nonempty : key ≠ []) :
    (key, value) ∈ entries dict ↔ (key, value) ∈ dict.headEntry.walk := by
  refine ⟨mem_walk_of_mem_entries head, fun mem => ?_⟩
  obtain ⟨leftEntry, shape, upcoming, _⟩ := iteratorFrom_spec dict head
  rw [entries, upcoming, (order_perm leftEntry).mem_iff]
  rw [shape] at mem
  rcases Tree.mem_walk_node.mp mem with left | same | right
  · exact left
  · exact absurd (congrArg Prod.fst same) nonempty
  · cases right

/-- The iterator of a dictionary enumerates what the calls have stored in it. -/
theorem enumerates_entries {calls : List (DictionaryCall α)}
    (nonempty : ∀ call ∈ calls, call.key ≠ []) :
    (iteratorFrom (dictionaryAfter calls).headEntry).Enumerates (storedValue calls)
      (entries (dictionaryAfter calls)) := by
  have head := dictionaryAfter_head nonempty
  have ordered := dictionaryAfter_ordered calls
  have settled : (iteratorFrom (dictionaryAfter calls).headEntry).Settled := by
    obtain ⟨leftEntry, shape⟩ := head
    rw [shape]
    exact iteratorFrom_settled (by simp)
  constructor
  · exact entries_keys_nodup head ordered
  · intro key value
    by_cases empty : key = []
    · refine iff_of_false ?_ ?_
      · exact fun mem => nonempty_of_mem_entries head ordered mem empty
      · exact fun stored => storedValue_ne_nil nonempty stored empty
    · rw [mem_entries_iff head empty, mem_walk_dictionaryAfter empty]
  · exact fun entry mem => nonempty_of_mem_entries head ordered mem
  · exact fun steps => (settled.shows steps).1
  · exact fun steps => (settled.shows steps).2

end DictionaryIterator
end KommunikationNetze.Utils
