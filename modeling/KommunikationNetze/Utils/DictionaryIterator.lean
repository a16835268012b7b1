import KommunikationNetze.Utils.DictionaryMap
import KommunikationNetze.Utils.Stack

/-! The iterator of the dictionary visits every entry once. Each step pops an entry
and pushes its children, so the entries still to come are those of the trees on
the stack. -/
namespace KommunikationNetze.Utils
open CLib SearchTree
variable {α : Type}

structure DictionaryIterator (α : Type) where
  currentEntry : DictionaryEntry α
  stack : Stack (DictionaryEntry α)

/-- `if (entry) StackPush(stack, entry);` -/
def pushEntry (stack : Stack (DictionaryEntry α)) : DictionaryEntry α → Stack (DictionaryEntry α)
  | .nil => stack
  | entry@(.node ..) => stackPush stack entry

/-- Also tells whether there was a next entry. -/
def dictionaryIteratorNext (iter : DictionaryIterator α) : Bool × DictionaryIterator α :=
  let (popped, stack) := stackPop iter.stack
  match popped with
  | none | some .nil => (false, { currentEntry := .nil, stack })
  | some entry@(.node _ _ leftEntry rightEntry) =>
      (true, { currentEntry := entry, stack := pushEntry (pushEntry stack leftEntry) rightEntry })

/-- The part of `DictionaryGetIterator` that builds the iterator: the head entry is
pushed and the first of the two steps passes it. -/
def iteratorFrom (headEntry : DictionaryEntry α) : DictionaryIterator α :=
  let iter := { currentEntry := .nil, stack := stackPush stackCreate headEntry }
  (dictionaryIteratorNext (dictionaryIteratorNext iter).2).2

/-- The iterator locks and retains the dictionary until it is deallocated. -/
def dictionaryGetIterator (dict : Dictionary α) : DictionaryIterator α × Dictionary α :=
  (iteratorFrom dict.headEntry, { dict with object := dict.object.lock.retain })

def dictionaryIteratorGetKey (iter : DictionaryIterator α) : Option CString :=
  match iter.currentEntry with
  | .nil => none
  | .node key _ _ _ => some key

def dictionaryIteratorGetValue (iter : DictionaryIterator α) : Option α :=
  match iter.currentEntry with
  | .nil => none
  | .node _ value _ _ => value

namespace DictionaryIterator

def pendingSize (stack : Stack (DictionaryEntry α)) : Nat := (stack.contents.map Tree.size).sum

/-- How many entries are not yet passed. -/
def remaining (iter : DictionaryIterator α) : Nat :=
  match iter.currentEntry with
  | .nil => 0
  | .node .. => 1 + pendingSize iter.stack

@[simp] theorem pendingSize_pushEntry (stack : Stack (DictionaryEntry α))
    (entry : DictionaryEntry α) : pendingSize (pushEntry stack entry) = entry.size + pendingSize stack := by
  cases entry <;> simp [pushEntry, pendingSize, Tree.size]

theorem remaining_next {iter : DictionaryIterator α} (present : iter.currentEntry ≠ .nil) :
    (dictionaryIteratorNext iter).2.remaining < iter.remaining := by
  have current : iter.remaining = 1 + pendingSize iter.stack := by
    cases shape : iter.currentEntry with
    | nil => contradiction
    | node => simp [remaining, shape]
  rw [current]
  cases top : iter.stack.contents with
  | nil =>
    simp [dictionaryIteratorNext, Stack.pop_of_contents_nil top, remaining]
  | cons entry rest =>
    obtain ⟨popped, left⟩ := Stack.pop_of_contents_cons top
    have size : pendingSize iter.stack = entry.size + (rest.map Tree.size).sum := by
      simp [pendingSize, top]
    cases entry with
    | nil => simp [dictionaryIteratorNext, popped, remaining]
    | node key value leftEntry rightEntry =>
      simp only [dictionaryIteratorNext, popped, remaining, pendingSize_pushEntry, size, Tree.size]
      simp only [pendingSize, left]
      omega

end DictionaryIterator

/-- `while (DictionaryIteratorGetKey(iter) != NULL) { body; DictionaryIteratorNext(iter); }`,
with the value of the current entry passed to the body. -/
def iteratorLoop {σ : Type} (body : σ → CString → Option α → σ) (iter : DictionaryIterator α)
    (state : σ) : σ :=
  match _shape : iter.currentEntry with
  | .nil => state
  | .node key value _ _ =>
      iteratorLoop body (dictionaryIteratorNext iter).2 (body state key value)
  termination_by iter.remaining
  decreasing_by exact DictionaryIterator.remaining_next (by simp [_shape])

namespace DictionaryIterator

/-- The entries of a tree in the order in which the iterator presents them: the
right child is pushed last and therefore comes first. -/
def order : DictionaryEntry α → List (CString × Option α)
  | .nil => []
  | .node key value leftEntry rightEntry => (key, value) :: (order rightEntry ++ order leftEntry)

theorem order_perm (entry : DictionaryEntry α) : (order entry).Perm entry.walk := by
  induction entry with
  | nil => exact .refl _
  | node key value left right ihl ihr =>
    refine (List.Perm.cons _ (List.perm_append_comm.trans (ihl.append ihr))).trans ?_
    exact List.perm_middle.symm

/-- What the iterator presents from its current entry on. -/
def upcoming (iter : DictionaryIterator α) : List (CString × Option α) :=
  match iter.currentEntry with
  | .nil => []
  | .node key value _ _ => (key, value) :: iter.stack.contents.flatMap order

theorem upcoming_nil_iff (iter : DictionaryIterator α) :
    iter.upcoming = [] ↔ iter.currentEntry = .nil := by
  cases shape : iter.currentEntry <;> simp [upcoming, shape]

theorem getKey_none_iff (iter : DictionaryIterator α) :
    dictionaryIteratorGetKey iter = none ↔ iter.upcoming = [] := by
  cases shape : iter.currentEntry <;> simp [dictionaryIteratorGetKey, upcoming, shape]

theorem contents_pushEntry_order (stack : Stack (DictionaryEntry α)) (entry : DictionaryEntry α) :
    (pushEntry stack entry).contents.flatMap order =
      order entry ++ stack.contents.flatMap order := by
  cases entry <;> simp [pushEntry, order]

/-- No NULL pointer is ever pushed. -/
def Clean (iter : DictionaryIterator α) : Prop := ∀ entry ∈ iter.stack.contents, entry ≠ .nil

theorem clean_pushEntry {stack : Stack (DictionaryEntry α)} (entry : DictionaryEntry α)
    (clean : ∀ e ∈ stack.contents, e ≠ .nil) : ∀ e ∈ (pushEntry stack entry).contents, e ≠ .nil := by
  cases entry with
  | nil => exact clean
  | node => simpa [pushEntry] using clean

/-- One step presents the entries of the popped tree before those below it. -/
theorem next_spec {iter : DictionaryIterator α} (clean : iter.Clean) :
    (dictionaryIteratorNext iter).2.upcoming = iter.stack.contents.flatMap order ∧
      (dictionaryIteratorNext iter).2.Clean ∧
      ((dictionaryIteratorNext iter).1 = true ↔
        (dictionaryIteratorNext iter).2.currentEntry ≠ .nil) := by
  cases top : iter.stack.contents with
  | nil =>
    simp only [dictionaryIteratorNext, Stack.pop_of_contents_nil top]
    exact ⟨rfl, by simp [Clean, top], by simp⟩
  | cons entry rest =>
    obtain ⟨popped, left⟩ := Stack.pop_of_contents_cons top
    cases entry with
    | nil => exact absurd rfl (clean .nil (by simp [top]))
    | node key value leftEntry rightEntry =>
      have below : ∀ e ∈ (stackPop iter.stack).2.contents, e ≠ .nil := by
        rw [left]
        exact fun e mem => clean e (by simp [top, mem])
      simp only [dictionaryIteratorNext, popped]
      refine ⟨?_, clean_pushEntry _ (clean_pushEntry _ below), by simp⟩
      simp only [upcoming, contents_pushEntry_order, left, List.flatMap_cons, order,
        List.cons_append, List.append_assoc]

/-- A loop over the iterator is a fold over the upcoming entries. -/
theorem iteratorLoop_eq {σ : Type} (body : σ → CString → Option α → σ)
    (iter : DictionaryIterator α) (clean : iter.Clean) (state : σ) :
    iteratorLoop body iter state =
      iter.upcoming.foldl (fun state entry => body state entry.1 entry.2) state := by
  induction iter, state using iteratorLoop.induct body with
  | case1 iter state shape =>
    rw [iteratorLoop, upcoming]
    split <;> simp_all
  | case2 iter state key value left right shape ih =>
    obtain ⟨rest, cleanNext, _⟩ := next_spec clean
    rw [iteratorLoop]
    split
    · simp_all
    · rename_i k v l r found
      obtain ⟨rfl, rfl, rfl, rfl⟩ : key = k ∧ value = v ∧ left = l ∧ right = r := by simp_all
      rw [ih cleanNext, rest]
      simp only [upcoming, shape, List.foldl_cons]

/-- A property the body keeps is kept by the loop, wherever the iterator stands. -/
theorem iteratorLoop_invariant {σ : Type} {P : σ → Prop} (body : σ → CString → Option α → σ)
    (preserves : ∀ state key value, P state → P (body state key value))
    (iter : DictionaryIterator α) (state : σ) (initial : P state) :
    P (iteratorLoop body iter state) := by
  induction iter, state using iteratorLoop.induct body with
  | case1 iter state shape =>
    rw [iteratorLoop]
    split
    · exact initial
    · simp_all
  | case2 iter state key value left right shape ih =>
    rw [iteratorLoop]
    split
    · simp_all
    · rename_i k v l r found
      obtain ⟨rfl, rfl, rfl, rfl⟩ : key = k ∧ value = v ∧ left = l ∧ right = r := by simp_all
      exact ih (preserves state key value initial)

/-- The iterator of a dictionary starts behind the head entry. -/
theorem iteratorFrom_spec (dict : Dictionary α) (head : HeadEntry dict) :
    ∃ leftEntry, dict.headEntry = .node [] none leftEntry .nil ∧
      (iteratorFrom dict.headEntry).upcoming = order leftEntry ∧
      (iteratorFrom dict.headEntry).Clean := by
  obtain ⟨leftEntry, shape⟩ := head
  let iter : DictionaryIterator α := { currentEntry := .nil, stack := stackPush stackCreate dict.headEntry }
  have top : iter.stack.contents = [dict.headEntry] := by simp [iter]
  have clean : iter.Clean := by
    intro e mem
    obtain rfl := List.mem_singleton.mp (top ▸ mem)
    simp [shape]
  obtain ⟨popped, left⟩ := Stack.pop_of_contents_cons top
  have first : (dictionaryIteratorNext iter).2.stack.contents.flatMap order = order leftEntry := by
    simp only [dictionaryIteratorNext, popped, shape, contents_pushEntry_order, left, order,
      List.flatMap_nil, List.append_nil, List.nil_append]
  obtain ⟨upcoming, cleanLast, _⟩ := next_spec (next_spec clean).2.1
  exact ⟨leftEntry, shape, upcoming.trans first, cleanLast⟩

/-- The presented entries of a dictionary. -/
def entries (dict : Dictionary α) : List (CString × Option α) :=
  (iteratorFrom dict.headEntry).upcoming

theorem loop_entries {σ : Type} (body : σ → CString → Option α → σ) {dict : Dictionary α}
    (head : HeadEntry dict) (state : σ) :
    iteratorLoop body (iteratorFrom dict.headEntry) state =
      (entries dict).foldl (fun state entry => body state entry.1 entry.2) state := by
  obtain ⟨_, _, _, clean⟩ := iteratorFrom_spec dict head
  exact iteratorLoop_eq body _ clean state

theorem entries_keys_nodup {dict : Dictionary α} (head : HeadEntry dict)
    (ordered : SearchOrder dict.headEntry) : ((entries dict).map Prod.fst).Nodup := by
  obtain ⟨leftEntry, shape, upcoming, _⟩ := iteratorFrom_spec dict head
  rw [entries, upcoming]
  have left : SearchOrder leftEntry := by
    rw [shape] at ordered
    exact ordered.1
  exact ((order_perm leftEntry).map Prod.fst).nodup_iff.mpr left.keys_nodup

/-- The iterator presents exactly the stored keys with their values, and never the
head entry. -/
theorem mem_entries {dict : Dictionary α} (head : HeadEntry dict)
    (ordered : SearchOrder dict.headEntry) {value : α} :
    (key, some value) ∈ entries dict ↔ dictionaryGet dict key = some value := by
  obtain ⟨leftEntry, shape, upcoming, _⟩ := iteratorFrom_spec dict head
  rw [entries, upcoming, (order_perm leftEntry).mem_iff]
  constructor
  · intro mem
    have stored : (key, some value) ∈ dict.headEntry.walk := by
      rw [shape]
      exact Tree.mem_walk_node.mpr (.inl mem)
    exact entryGet_of_mem ordered stored
  · intro found
    by_contra absent
    have other : ∀ v, (key, v) ∈ dict.headEntry.walk → v = some value := by
      intro v mem
      exact (entryGet_of_mem ordered mem).symm.trans found
    have missing : key ∉ dict.headEntry.walk.map Prod.fst := by
      intro mem
      obtain ⟨⟨k, v⟩, stored, rfl⟩ := List.mem_map.mp mem
      obtain rfl := other v stored
      rw [shape, Tree.mem_walk_node] at stored
      rcases stored with below | same | below
      · exact absent below
      · simp at same
      · simp at below
    have none : dictionaryGet dict key = none := entryGet_of_absent missing
    simp [none] at found

theorem mem_walk_of_mem_entries {dict : Dictionary α} (head : HeadEntry dict)
    (mem : p ∈ entries dict) : p ∈ dict.headEntry.walk := by
  obtain ⟨leftEntry, shape, upcoming, _⟩ := iteratorFrom_spec dict head
  rw [entries, upcoming, (order_perm leftEntry).mem_iff] at mem
  rw [shape]
  exact Tree.mem_walk_node.mpr (.inl mem)

theorem nonempty_of_mem_entries {dict : Dictionary α} (head : HeadEntry dict)
    (ordered : SearchOrder dict.headEntry) (mem : (key, value) ∈ entries dict) : key ≠ [] := by
  obtain ⟨leftEntry, shape, upcoming, _⟩ := iteratorFrom_spec dict head
  rw [entries, upcoming, (order_perm leftEntry).mem_iff] at mem
  rw [shape] at ordered
  have greater : Greater key [] := ordered.2.2.1 _ mem
  exact greater.ne

end DictionaryIterator
end KommunikationNetze.Utils
