import KommunikationNetze.Utils.Dictionary

/-! The dictionary is a finite map. Removal is described by its in-order walk,
which loses exactly the entry of the key; the search order follows from that. -/
namespace KommunikationNetze.Utils
open CLib SearchTree
variable {α : Type}

/-- The order of the walk: the keys to the left are greater. -/
def Greater (s t : CString) : Prop := Less t s

instance : IsTrans CString Greater := ⟨fun _ _ _ first second => strcmp_neg_trans second first⟩

instance : Std.Irrefl Greater := ⟨fun s greater => by simp [Greater, Less] at greater⟩

/-- All keys under `leftEntry` are greater than the key of the entry and all keys
under `rightEntry` are smaller, everywhere in the tree. -/
def SearchOrder (entry : DictionaryEntry α) : Prop := entry.Ordered Greater

theorem Greater.ne {s t : CString} (greater : Greater s t) : s ≠ t := by
  rintro rfl
  exact Std.Irrefl.irrefl s greater

theorem greater_of_strcmp_neg (negative : strcmp s t < 0) : Greater t s := negative

theorem greater_of_strcmp_nonneg (different : strcmp s t ≠ 0) (nonneg : ¬strcmp s t < 0) :
    Greater s t := less_of_strcmp_pos (by omega)

section Get

theorem entryGet_of_mem {entry : DictionaryEntry α} (ordered : SearchOrder entry)
    (mem : (key, value) ∈ entry.walk) : entryGet entry key = value := by
  induction entry with
  | nil => simp at mem
  | node entryKey entryValue left right ihl ihr =>
    obtain ⟨orderedLeft, orderedRight, above, below⟩ := ordered
    simp only [entryGet]
    rcases Tree.mem_walk_node.mp mem with mem | same | mem
    · have less : strcmp entryKey key < 0 := above _ mem
      rw [if_neg (by omega), if_pos less]
      exact ihl orderedLeft mem
    · obtain ⟨rfl, rfl⟩ := Prod.mk.inj same
      simp
    · have less : strcmp key entryKey < 0 := below _ mem
      have swapped := strcmp_swap key entryKey
      rw [if_neg (by omega), if_neg (by omega)]
      exact ihr orderedRight mem

theorem entryGet_of_absent {entry : DictionaryEntry α} (absent : key ∉ entry.walk.map Prod.fst) :
    entryGet entry key = none := by
  induction entry with
  | nil => rfl
  | node entryKey value left right ihl ihr =>
    simp only [Tree.walk, List.map_append, List.map_cons, List.mem_append, List.mem_cons,
      not_or] at absent
    obtain ⟨absentLeft, different, absentRight⟩ := absent
    have cmp : strcmp entryKey key ≠ 0 := fun zero => different (strcmp_eq_zero.mp zero).symm
    simp only [entryGet, if_neg cmp, ihl absentLeft, ihr absentRight, ite_self]

/-- A value that is found is stored under its key, in any tree. -/
theorem mem_walk_of_entryGet {entry : DictionaryEntry α} {value : α}
    (found : entryGet entry key = some value) : (key, some value) ∈ entry.walk := by
  induction entry with
  | nil => simp [entryGet] at found
  | node entryKey entryValue left right ihl ihr =>
    simp only [entryGet] at found
    split at found
    · rename_i same
      obtain rfl := strcmp_eq_zero.mp same
      subst found
      exact Tree.mem_walk_node.mpr (.inr (.inl rfl))
    · split at found
      · exact Tree.mem_walk_node.mpr (.inl (ihl found))
      · exact Tree.mem_walk_node.mpr (.inr (.inr (ihr found)))

end Get

section Set

theorem entryGet_entrySet (entry : DictionaryEntry α) (key other : CString) (value : Option α) :
    entryGet (entrySet entry key value) other =
      if other = key then value else entryGet entry other := by
  induction entry with
  | nil =>
    by_cases same : other = key
    · simp [entrySet, dictionaryEntryCreate, entryGet, same]
    · have cmp : strcmp key other ≠ 0 := fun zero => same (strcmp_eq_zero.mp zero).symm
      simp [entrySet, dictionaryEntryCreate, entryGet, same, cmp]
  | node entryKey entryValue left right ihl ihr =>
    by_cases found : strcmp entryKey key = 0
    · obtain rfl := strcmp_eq_zero.mp found
      by_cases same : other = entryKey
      · simp [entrySet, entryGet, same]
      · have cmp : strcmp entryKey other ≠ 0 := fun zero => same (strcmp_eq_zero.mp zero).symm
        simp [entrySet, entryGet, same, cmp]
    · by_cases same : other = key
      · subst other
        by_cases negative : strcmp entryKey key < 0
        · simp only [entrySet, entryGet, if_neg found, if_pos negative, ihl, if_true]
        · simp only [entrySet, entryGet, if_neg found, if_neg negative, ihr, if_true]
      · by_cases negative : strcmp entryKey key < 0
        · simp only [entrySet, entryGet, if_neg found, if_pos negative, ihl, if_neg same]
        · simp only [entrySet, entryGet, if_neg found, if_neg negative, ihr, if_neg same]

theorem mem_walk_entrySet {entry : DictionaryEntry α}
    (mem : p ∈ (entrySet entry key value).walk) : p = (key, value) ∨ p ∈ entry.walk := by
  induction entry with
  | nil => simpa [entrySet, dictionaryEntryCreate, Tree.walk] using mem
  | node entryKey entryValue left right ihl ihr =>
    simp only [entrySet] at mem
    split at mem
    · rename_i found
      obtain rfl := strcmp_eq_zero.mp found
      simp only [Tree.mem_walk_node] at mem ⊢
      rcases mem with before | here | behind
      · exact .inr (.inl before)
      · exact .inl here
      · exact .inr (.inr (.inr behind))
    · split at mem
      · simp only [Tree.mem_walk_node] at mem ⊢
        rcases mem with before | rest
        · exact (ihl before).imp_right .inl
        · exact .inr (.inr rest)
      · simp only [Tree.mem_walk_node] at mem ⊢
        rcases mem with before | here | behind
        · exact .inr (.inl before)
        · exact .inr (.inr (.inl here))
        · exact (ihr behind).imp_right fun old => .inr (.inr old)

theorem searchOrder_entrySet {entry : DictionaryEntry α} (ordered : SearchOrder entry) :
    SearchOrder (entrySet entry key value) := by
  induction entry with
  | nil => simp [entrySet, dictionaryEntryCreate, SearchOrder, Tree.Ordered]
  | node entryKey entryValue left right ihl ihr =>
    obtain ⟨orderedLeft, orderedRight, above, below⟩ := ordered
    simp only [entrySet]
    split
    · exact ⟨orderedLeft, orderedRight, above, below⟩
    · rename_i different
      split
      · rename_i negative
        refine ⟨ihl orderedLeft, orderedRight, ?_, below⟩
        intro p mem
        rcases mem_walk_entrySet mem with rfl | old
        · exact greater_of_strcmp_neg negative
        · exact above p old
      · rename_i nonneg
        refine ⟨orderedLeft, ihr orderedRight, above, ?_⟩
        intro p mem
        rcases mem_walk_entrySet mem with rfl | old
        · exact greater_of_strcmp_nonneg different nonneg
        · exact below p old

end Set

section Remove

theorem walk_setLeftmostEntry (entry left : DictionaryEntry α) :
    (setLeftmostEntry entry left).walk = left.walk ++ entry.walk := by
  induction entry with
  | nil => simp [setLeftmostEntry]
  | node key value leftEntry rightEntry ih _ => simp [setLeftmostEntry, Tree.walk, ih]

/-- All four shapes of the removed entry leave the walks of its children. -/
theorem walk_entryUnlink (left right : DictionaryEntry α) :
    (entryUnlink left right).walk = left.walk ++ right.walk := by
  cases left with
  | nil => cases right <;> simp [entryUnlink]
  | node _ _ _ _ =>
    cases right with
    | nil => simp [entryUnlink]
    | node _ _ _ _ => simp only [entryUnlink, walk_setLeftmostEntry]

theorem filter_of_keys_ne {entries : List (CString × Option α)} (ne : ∀ p ∈ entries, p.1 ≠ key) :
    entries.filter (·.1 ≠ key) = entries :=
  List.filter_eq_self.mpr fun p mem => decide_eq_true (ne p mem)

theorem walk_entryRemove {entry : DictionaryEntry α} (ordered : SearchOrder entry) (key : CString) :
    (entryRemove entry key).walk = entry.walk.filter (·.1 ≠ key) := by
  induction entry with
  | nil => simp [entryRemove]
  | node entryKey value left right ihl ihr =>
    obtain ⟨orderedLeft, orderedRight, above, below⟩ := ordered
    simp only [entryRemove]
    split
    · rename_i found
      obtain rfl := strcmp_eq_zero.mp found
      rw [walk_entryUnlink, Tree.walk, List.filter_append, List.filter_cons_of_neg (by simp),
        filter_of_keys_ne fun p mem => (above p mem).ne,
        filter_of_keys_ne fun p mem => (below p mem).ne.symm]
    · rename_i different
      have kept : entryKey ≠ key := fun same => different (strcmp_eq_zero.mpr same)
      split
      · rename_i negative
        have smaller : ∀ p ∈ right.walk, p.1 ≠ key := fun p mem =>
          (IsTrans.trans _ _ _ (greater_of_strcmp_neg negative) (below p mem)).ne.symm
        rw [Tree.walk, Tree.walk, List.filter_append, List.filter_cons_of_pos (by simpa using kept),
          ihl orderedLeft, filter_of_keys_ne smaller]
      · rename_i nonneg
        have greater : ∀ p ∈ left.walk, p.1 ≠ key := fun p mem =>
          (IsTrans.trans _ _ _ (above p mem) (greater_of_strcmp_nonneg different nonneg)).ne
        rw [Tree.walk, Tree.walk, List.filter_append, List.filter_cons_of_pos (by simpa using kept),
          ihr orderedRight, filter_of_keys_ne greater]

theorem searchOrder_entryRemove {entry : DictionaryEntry α} (ordered : SearchOrder entry)
    (key : CString) : SearchOrder (entryRemove entry key) := by
  refine ordered.of_walk_sublist ?_
  rw [walk_entryRemove ordered]
  exact List.filter_sublist

theorem entryGet_entryRemove {entry : DictionaryEntry α} (ordered : SearchOrder entry)
    (key other : CString) :
    entryGet (entryRemove entry key) other = if other = key then none else entryGet entry other := by
  have walk := walk_entryRemove ordered key
  by_cases same : other = key
  · rw [if_pos same]
    apply entryGet_of_absent
    simp [walk, same]
  · rw [if_neg same]
    by_cases present : ∃ value, (other, value) ∈ entry.walk
    · obtain ⟨value, mem⟩ := present
      rw [entryGet_of_mem ordered mem]
      exact entryGet_of_mem (searchOrder_entryRemove ordered key) (by simp [walk, mem, same])
    · have absent : other ∉ entry.walk.map Prod.fst := by simpa using present
      rw [entryGet_of_absent absent]
      apply entryGet_of_absent
      rw [walk]
      intro mem
      exact absent ((List.filter_sublist.map Prod.fst).subset mem)

end Remove

/-- A call that changes a dictionary. -/
inductive DictionaryCall (α : Type) where
  | set (key : CString) (value : Option α)
  | remove (key : CString)

def DictionaryCall.key : DictionaryCall α → CString
  | .set key _ | .remove key => key

def DictionaryCall.apply (dict : Dictionary α) : DictionaryCall α → Dictionary α
  | .set key value => dictionarySet dict key value
  | .remove key => dictionaryRemove dict key

/-- The dictionary a sequence of calls leaves. -/
def dictionaryAfter (calls : List (DictionaryCall α)) : Dictionary α :=
  calls.foldl DictionaryCall.apply dictionaryCreate

/-- What a finite map holds: the value of the last set of the key, unless a later
removal of it followed. -/
def lastSet (calls : List (DictionaryCall α)) (key : CString) : Option α :=
  match calls.reverse.find? (·.key = key) with
  | some (.set _ value) => value
  | _ => none

theorem lastSet_snoc (calls : List (DictionaryCall α)) (call : DictionaryCall α) (key : CString) :
    lastSet (calls ++ [call]) key =
      if key = call.key then
        match call with
        | .set _ value => value
        | .remove _ => none
      else lastSet calls key := by
  by_cases same : key = call.key
  · cases call <;> simp_all [lastSet, DictionaryCall.key]
  · have other : ¬call.key = key := fun h => same h.symm
    simp [lastSet, other, same]

theorem dictionaryCreate_ordered : SearchOrder (dictionaryCreate : Dictionary α).headEntry := by
  simp [SearchOrder, dictionaryCreate, dictionaryEntryCreate, Tree.Ordered]

theorem dictionaryGet_create (key : CString) :
    dictionaryGet (dictionaryCreate : Dictionary α) key = none := by
  simp [dictionaryGet, Dictionary.lock, dictionaryCreate, dictionaryEntryCreate, entryGet]

theorem dictionaryGet_set (dict : Dictionary α) (key other : CString) (value : Option α) :
    dictionaryGet (dictionarySet dict key value) other =
      if other = key then value else dictionaryGet dict other :=
  entryGet_entrySet dict.headEntry key other value

theorem dictionaryGet_remove {dict : Dictionary α} (ordered : SearchOrder dict.headEntry)
    (key other : CString) :
    dictionaryGet (dictionaryRemove dict key) other =
      if other = key then none else dictionaryGet dict other :=
  entryGet_entryRemove ordered key other

theorem apply_ordered {dict : Dictionary α} (ordered : SearchOrder dict.headEntry)
    (call : DictionaryCall α) : SearchOrder (call.apply dict).headEntry := by
  cases call with
  | set key value => exact searchOrder_entrySet ordered
  | remove key => exact searchOrder_entryRemove ordered key

theorem apply_get {dict : Dictionary α} (ordered : SearchOrder dict.headEntry)
    (call : DictionaryCall α) (key : CString) :
    dictionaryGet (call.apply dict) key =
      if key = call.key then
        match call with
        | .set _ value => value
        | .remove _ => none
      else dictionaryGet dict key := by
  cases call with
  | set k value => exact dictionaryGet_set dict k key value
  | remove k => exact dictionaryGet_remove ordered k key

theorem dictionaryAfter_snoc (calls : List (DictionaryCall α)) (call : DictionaryCall α) :
    dictionaryAfter (calls ++ [call]) = call.apply (dictionaryAfter calls) := by
  simp [dictionaryAfter]

theorem strcmp_nil_neg (nonempty : key ≠ []) : strcmp [] key < 0 := by
  cases key with
  | nil => contradiction
  | cons c key =>
    have := toNat_pos c
    simp only [strcmp]
    omega

/-- The dummy head entry with everything else to its left, where greater keys are. -/
def HeadEntry (dict : Dictionary α) : Prop :=
  ∃ leftEntry, dict.headEntry = .node [] none leftEntry .nil

/-- Only the empty key reaches the head entry itself, which has no parent link. -/
theorem apply_head {dict : Dictionary α} (head : HeadEntry dict) (call : DictionaryCall α)
    (nonempty : call.key ≠ []) : HeadEntry (call.apply dict) := by
  obtain ⟨leftEntry, shape⟩ := head
  have negative := strcmp_nil_neg nonempty
  cases call with
  | set key value =>
    refine ⟨entrySet leftEntry key value, ?_⟩
    have less : strcmp [] key < 0 := negative
    simp only [DictionaryCall.apply, dictionarySet_headEntry, shape, entrySet]
    rw [if_neg (by omega), if_pos less]
  | remove key =>
    refine ⟨entryRemove leftEntry key, ?_⟩
    have less : strcmp [] key < 0 := negative
    simp only [DictionaryCall.apply, dictionaryRemove_headEntry, shape, entryRemove]
    rw [if_neg (by omega), if_pos less]

theorem dictionaryAfter_ordered (calls : List (DictionaryCall α)) :
    SearchOrder (dictionaryAfter calls).headEntry := by
  induction calls using List.reverseRecOn with
  | nil => exact dictionaryCreate_ordered
  | append_singleton calls call ih =>
    rw [dictionaryAfter_snoc]
    exact apply_ordered ih call

theorem dictionaryAfter_head {calls : List (DictionaryCall α)}
    (nonempty : ∀ call ∈ calls, call.key ≠ []) : HeadEntry (dictionaryAfter calls) := by
  induction calls using List.reverseRecOn with
  | nil => exact ⟨.nil, rfl⟩
  | append_singleton calls call ih =>
    rw [dictionaryAfter_snoc]
    exact apply_head (ih fun c mem => nonempty c (List.mem_append_left _ mem)) call
      (nonempty call (by simp))

theorem dictionaryGet_after (calls : List (DictionaryCall α)) (key : CString) :
    dictionaryGet (dictionaryAfter calls) key = lastSet calls key := by
  induction calls using List.reverseRecOn with
  | nil => exact dictionaryGet_create key
  | append_singleton calls call ih =>
    rw [dictionaryAfter_snoc, apply_get (dictionaryAfter_ordered calls), lastSet_snoc, ih]

/-- Every sequence of calls with nonempty keys keeps the head entry, leaves a search
tree without duplicate keys and answers as the finite map of the sequence does. -/
theorem dictionary_finite_map (calls : List (DictionaryCall α))
    (nonempty : ∀ call ∈ calls, call.key ≠ []) :
    HeadEntry (dictionaryAfter calls) ∧ SearchOrder (dictionaryAfter calls).headEntry ∧
      ((dictionaryAfter calls).headEntry.walk.map Prod.fst).Nodup ∧
      ∀ key, key ≠ [] → dictionaryGet (dictionaryAfter calls) key = lastSet calls key := by
  have ordered := dictionaryAfter_ordered calls
  exact ⟨dictionaryAfter_head nonempty, ordered, ordered.keys_nodup,
    fun key _ => dictionaryGet_after calls key⟩

/-- Removing the root of a tree of four entries grafts its greater keys. -/
theorem dictionary_finite_map_graft :
    dictionaryGet (dictionaryAfter [.set (literal "m") (some 1), .set (literal "t") (some 2),
      .set (literal "c") (some 3), .set (literal "e") (some 4), .remove (literal "m")])
      (literal "t") = some 2 :=
  ((dictionary_finite_map _ (by decide)).2.2.2 _ (by decide)).trans (by decide)

end KommunikationNetze.Utils
