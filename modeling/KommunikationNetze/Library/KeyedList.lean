import KommunikationNetze.Library.SwapRemove
import Mathlib.Data.List.Nodup
import Mathlib.Logic.Function.Basic

/-! A list whose elements have different keys, as a map. An element replaces the one with
its key or goes to the end, and the last element takes the place of a removed one. -/
namespace KommunikationNetze.KeyedList
open SwapRemove
variable {α : Type*} {K : Type*} [DecidableEq K] (key : α → K)

def lookup (list : List α) (k : K) : Option α := list.find? (key · = k)

def put (list : List α) (a : α) : List α :=
  match list.findIdx? (key · = key a) with
  | some i => list.set i a
  | none => list ++ [a]

def delete (list : List α) (k : K) : List α :=
  match list.findIdx? (key · = k) with
  | some i => swapRemove list i
  | none => list

variable {key} {list : List α} {k : K} {a b : α}

theorem mem_of_lookup (found : lookup key list k = some a) : a ∈ list ∧ key a = k :=
  ⟨List.mem_of_find?_eq_some found, by simpa using List.find?_some found⟩

theorem lookup_of_mem (keys : (list.map key).Nodup) (mem : a ∈ list) :
    lookup key list (key a) = some a := by
  cases found : lookup key list (key a) with
  | none => simpa using List.find?_eq_none.mp found a mem
  | some b =>
    obtain ⟨other, same⟩ := mem_of_lookup found
    rw [List.inj_on_of_nodup_map keys other mem same]

theorem lookup_eq_none : lookup key list k = none ↔ ∀ a ∈ list, key a ≠ k := by
  simp [lookup, List.find?_eq_none]

/-- Elements decide what is looked up. -/
theorem lookup_congr {other : List α} (others : (other.map key).Nodup)
    (same : ∀ a, key a = k → (a ∈ list ↔ a ∈ other)) : lookup key list k = lookup key other k := by
  cases found : lookup key list k with
  | none =>
    refine (lookup_eq_none.mpr fun a mem keyed => ?_).symm
    exact lookup_eq_none.mp found a ((same a keyed).mpr mem) keyed
  | some a =>
    obtain ⟨mem, rfl⟩ := mem_of_lookup found
    exact (lookup_of_mem others ((same a rfl).mp mem)).symm

variable (key) in
/-- The index of a key is that of the element looked up. -/
theorem findIdx?_cases (list : List α) (k : K) :
    (list.findIdx? (key · = k) = none ∧ ∀ a ∈ list, key a ≠ k) ∨
      ∃ i a, list.findIdx? (key · = k) = some i ∧ list[i]? = some a ∧ key a = k := by
  cases found : list.findIdx? (key · = k) with
  | none => exact .inl ⟨rfl, by simpa using List.findIdx?_eq_none_iff.mp found⟩
  | some i =>
    obtain ⟨inside, keyed, _⟩ := List.findIdx?_eq_some_iff_getElem.mp found
    exact .inr ⟨i, list[i], rfl, List.getElem?_eq_getElem inside, by simpa using keyed⟩

section Put

omit [DecidableEq K] in
/-- What is replaced is the only element with the key. -/
theorem mem_set (keys : (list.map key).Nodup) (found : list[i]? = some b) (same : key b = key a) :
    c ∈ list.set i a ↔ c = a ∨ c ∈ list ∧ key c ≠ key a := by
  obtain ⟨inside, rfl⟩ := List.getElem?_eq_some_iff.mp found
  have perm := List.set_perm_cons_eraseIdx inside a
  have whole := List.getElem_cons_eraseIdx_perm inside
  have distinct := (whole.map key).nodup_iff.mpr keys
  rw [List.map_cons, List.nodup_cons] at distinct
  rw [perm.mem_iff, List.mem_cons, ← whole.mem_iff, List.mem_cons]
  refine or_congr_right ?_
  constructor
  · intro mem
    refine ⟨.inr mem, fun clash => distinct.1 ?_⟩
    rw [same, ← clash]
    exact List.mem_map_of_mem mem
  · rintro ⟨rfl | mem, other⟩
    · exact absurd same other
    · exact mem

omit [DecidableEq K] in
theorem keys_set (found : list[i]? = some b) (same : key b = key a) :
    (list.set i a).map key = list.map key := by
  obtain ⟨inside, rfl⟩ := List.getElem?_eq_some_iff.mp found
  rw [List.map_set, ← same, ← List.getElem_map key (h := by simpa using inside)]
  exact List.set_getElem_self _

theorem put_absent (absent : list.findIdx? (key · = key a) = none) : put key list a = list ++ [a] := by
  rw [put, absent]

/-- An element with a new key goes to the end. -/
theorem put_new (fresh : ∀ b ∈ list, key b ≠ key a) : put key list a = list ++ [a] := by
  apply put_absent
  rw [List.findIdx?_eq_none_iff]
  intro b mem
  exact decide_eq_false (fresh b mem)

theorem put_present (present : list.findIdx? (key · = key a) = some i) :
    put key list a = list.set i a := by
  rw [put, present]

theorem keys_put (keys : (list.map key).Nodup) (a : α) : ((put key list a).map key).Nodup := by
  rcases findIdx?_cases key list (key a) with ⟨absent, free⟩ | ⟨i, b, present, found, same⟩
  · rw [put_absent absent, List.map_append, List.map_cons, List.map_nil, ← List.concat_eq_append]
    refine keys.concat ?_
    intro mem
    obtain ⟨b, stored, same⟩ := List.mem_map.mp mem
    exact free b stored same
  · rw [put_present present, keys_set found same]
    exact keys

theorem mem_put (keys : (list.map key).Nodup) :
    c ∈ put key list a ↔ c = a ∨ c ∈ list ∧ key c ≠ key a := by
  rcases findIdx?_cases key list (key a) with ⟨absent, free⟩ | ⟨i, b, present, found, same⟩
  · rw [put_absent absent, List.mem_append, List.mem_singleton, or_comm]
    exact or_congr_right ⟨fun mem => ⟨mem, free c mem⟩, And.left⟩
  · rw [put_present present]
    exact mem_set keys found same

theorem lookup_put (keys : (list.map key).Nodup) (a : α) :
    lookup key (put key list a) = Function.update (lookup key list) (key a) (some a) := by
  funext k
  by_cases same : k = key a
  · subst same
    rw [Function.update_self]
    exact lookup_of_mem (keys_put keys a) ((mem_put keys).mpr (.inl rfl))
  · rw [Function.update_of_ne same]
    refine lookup_congr keys fun c keyed => ?_
    have other : key c ≠ key a := fun clash => same (keyed.symm.trans clash)
    have different : c ≠ a := fun clash => other (congrArg key clash)
    rw [mem_put keys, or_iff_right different, and_iff_left other]

end Put

section Delete

theorem delete_absent (absent : list.findIdx? (key · = k) = none) : delete key list k = list := by
  rw [delete, absent]

theorem delete_present (present : list.findIdx? (key · = k) = some i) :
    delete key list k = swapRemove list i := by
  rw [delete, present]

theorem delete_perm (keys : (list.map key).Nodup) (k : K) :
    (delete key list k).Perm (list.filter (key · ≠ k)) := by
  rcases findIdx?_cases key list k with ⟨absent, free⟩ | ⟨i, a, present, found, rfl⟩
  · rw [delete_absent absent, List.filter_eq_self.mpr fun a mem => decide_eq_true (free a mem)]
  · rw [delete_present present]
    have perm := cons_swapRemove_perm found
    have distinct := (perm.map key).nodup_iff.mpr keys
    rw [List.map_cons, List.nodup_cons] at distinct
    have rest : (swapRemove list i).filter (key · ≠ key a) = swapRemove list i := by
      refine List.filter_eq_self.mpr fun b mem => decide_eq_true fun clash => distinct.1 ?_
      rw [← clash]
      exact List.mem_map_of_mem mem
    have filtered := perm.filter (key · ≠ key a)
    rw [List.filter_cons_of_neg (by simp), rest] at filtered
    exact filtered

theorem keys_delete (keys : (list.map key).Nodup) (k : K) : ((delete key list k).map key).Nodup :=
  ((delete_perm keys k).map key).nodup_iff.mpr (keys.sublist (List.filter_sublist.map key))

theorem mem_delete (keys : (list.map key).Nodup) : c ∈ delete key list k ↔ c ∈ list ∧ key c ≠ k := by
  rw [(delete_perm keys k).mem_iff, List.mem_filter, decide_eq_true_eq]

theorem lookup_delete (keys : (list.map key).Nodup) (k : K) :
    lookup key (delete key list k) = Function.update (lookup key list) k none := by
  funext other
  by_cases same : other = k
  · subst same
    rw [Function.update_self]
    exact lookup_eq_none.mpr fun a mem => ((mem_delete keys).mp mem).2
  · rw [Function.update_of_ne same]
    refine lookup_congr keys fun c keyed => ?_
    rw [mem_delete keys]
    exact and_iff_left fun clash => same (keyed.symm.trans clash)

end Delete

section Count

/-- A replaced element is counted no more, the new one is. -/
theorem countP_put (keys : (list.map key).Nodup) (p : α → Bool) (a : α) :
    (put key list a).countP p + (lookup key list (key a)).toList.countP p =
      list.countP p + [a].countP p := by
  rcases findIdx?_cases key list (key a) with ⟨absent, free⟩ | ⟨i, b, present, found, same⟩
  · rw [put_absent absent, lookup_eq_none.mpr free, List.countP_append]
    rfl
  · have known := lookup_of_mem keys (List.mem_of_getElem? found)
    rw [same] at known
    obtain ⟨inside, rfl⟩ := List.getElem?_eq_some_iff.mp found
    have after := (List.set_perm_cons_eraseIdx inside a).countP_eq p
    have before := (List.getElem_cons_eraseIdx_perm inside).countP_eq p
    rw [List.countP_cons] at after before
    rw [put_present present, known, after, ← before, Option.toList_some, List.countP_singleton,
      List.countP_singleton]
    omega

theorem countP_delete (keys : (list.map key).Nodup) (p : α → Bool) (k : K) :
    (delete key list k).countP p + (lookup key list k).toList.countP p = list.countP p := by
  rcases findIdx?_cases key list k with ⟨absent, free⟩ | ⟨i, a, present, found, rfl⟩
  · rw [delete_absent absent, lookup_eq_none.mpr free]
    rfl
  · have known := lookup_of_mem keys (List.mem_of_getElem? found)
    have perm := (cons_swapRemove_perm found).countP_eq p
    rw [List.countP_cons] at perm
    rw [delete_present present, known, ← perm, Option.toList_some, List.countP_singleton]

end Count

section Map
variable (key) {β : Type*} (other : β → K)

/-- A view that keeps the keys sees the same operation. -/
theorem put_map (f : α → β) (keeps : ∀ a, other (f a) = key a) (list : List α) (a : α) :
    (put key list a).map f = put other (list.map f) (f a) := by
  have index : (list.map f).findIdx? (other · = other (f a)) = list.findIdx? (key · = key a) := by
    rw [List.findIdx?_map]
    simp only [Function.comp_def, keeps]
  cases found : list.findIdx? (key · = key a) with
  | none =>
    rw [put_absent found, put_absent (index.trans found), List.map_append, List.map_cons, List.map_nil]
  | some i => rw [put_present found, put_present (index.trans found), List.map_set]

theorem delete_map (f : α → β) (keeps : ∀ a, other (f a) = key a) (list : List α) (k : K) :
    (delete key list k).map f = delete other (list.map f) k := by
  have index : (list.map f).findIdx? (other · = k) = list.findIdx? (key · = k) := by
    rw [List.findIdx?_map]
    simp only [Function.comp_def, keeps]
  cases found : list.findIdx? (key · = k) with
  | none => rw [delete_absent found, delete_absent (index.trans found)]
  | some i =>
    rw [delete_present found, delete_present (index.trans found)]
    exact swapRemove_map f list i

/-- What is made of the elements of a key. -/
theorem filter_filterMap (f : α → Option β) (keeps : ∀ a b, f a = some b → other b = key a)
    (list : List α) (k : K) :
    (list.filterMap f).filter (other · = k) = (list.filter (key · = k)).filterMap f := by
  rw [List.filter_filterMap, List.filterMap_filter]
  refine List.filterMap_congr fun a _ => ?_
  cases made : f a with
  | none => simp only [Option.filter_none, ite_self]
  | some b => simp only [Option.filter, keeps a b made]

end Map

/-- A list that has of every key no more elements than another. -/
theorem subperm_of_filter {list other : List α}
    (fewer : ∀ k, (list.filter (key · = k)).Sublist (other.filter (key · = k))) :
    list.Subperm other := by
  classical
  refine List.subperm_ext_iff.mpr fun a _ => ?_
  have own : ∀ l : List α, (l.filter (key · = key a)).count a = l.count a :=
    fun l => List.count_filter (decide_eq_true rfl)
  rw [← own list, ← own other]
  exact (fewer (key a)).count_le a

/-- Lists that agree on the elements of every key are permutations of each other. -/
theorem perm_of_filter {list other : List α}
    (same : ∀ k, list.filter (key · = k) = other.filter (key · = k)) : list.Perm other := by
  classical
  refine List.perm_iff_count.mpr fun a => ?_
  have own : ∀ l : List α, (l.filter (key · = key a)).count a = l.count a :=
    fun l => List.count_filter (decide_eq_true rfl)
  rw [← own list, ← own other, same]

end KommunikationNetze.KeyedList
