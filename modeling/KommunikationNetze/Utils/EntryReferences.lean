import KommunikationNetze.Utils.EntryLayout

/-! The references on the entries of a chat dictionary: over every run of calls each entry is
held by the one pointer to it, and a removal frees nothing but the entry it removes. -/
namespace KommunikationNetze.Utils
open CLib SearchTree LinkedTree Layout
variable {α : Type}

/-- The tree without the addresses. -/
def Layout.contents : Layout α → DictionaryEntry α
  | .nil => .nil
  | .node key value left right => .node key (value.bind Prod.snd) (contents left) (contents right)

section Contents
variable (layout : Layout α) (key : CString)

theorem contents_entrySet (entry : EntryRef) (value : Option α) :
    contents (entrySet layout key (some (entry, value))) = entrySet (contents layout) key value := by
  induction layout with
  | nil => rfl
  | node own found left right ihl ihr =>
    simp only [entrySet, contents]
    split
    · rfl
    · split <;> simp only [contents, ihl, ihr]

theorem contents_setLeftmostEntry (graft : Layout α) :
    contents (setLeftmostEntry layout graft) = setLeftmostEntry (contents layout) (contents graft) := by
  induction layout with
  | nil => rfl
  | node own found left right ih => simp only [setLeftmostEntry, contents, ih]

theorem contents_entryUnlink (left right : Layout α) :
    contents (entryUnlink left right) = entryUnlink (contents left) (contents right) := by
  cases left with
  | nil => cases right <;> rfl
  | node _ _ _ _ =>
    cases right with
    | nil => rfl
    | node _ _ _ _ => exact contents_setLeftmostEntry _ _

theorem contents_entryRemove :
    contents (entryRemove layout key) = entryRemove (contents layout) key := by
  induction layout with
  | nil => rfl
  | node own found left right ihl ihr =>
    simp only [entryRemove, contents]
    split
    · exact contents_entryUnlink left right
    · split <;> simp only [contents, ihl, ihr]

end Contents

namespace HeapDictionary

/-- The head entry with everything else to its left. -/
def layout (dict : HeapDictionary α) (top : Option α) (left : Layout α) : Layout α :=
  .node [] (some (dict.headEntry, top)) left .nil

theorem entries_layout (dict : HeapDictionary α) (top : Option α) (left : Layout α) :
    (dict.layout top left).entries = left.entries ++ [dict.headEntry] := by
  rw [layout, entries_node, entries_nil]

theorem mem_layout {dict : HeapDictionary α} {top : Option α} {left : Layout α} :
    e ∈ (dict.layout top left).entries ↔ e ∈ left.entries ∨ e = dict.headEntry := by
  rw [entries_layout, List.mem_append, List.mem_singleton]

/-- The dictionary has these entries, each with one reference, and no other is in memory. -/
structure Represents (dict : HeapDictionary α) (top : Option α) (left : Layout α) : Prop where
  stored : dict.heap.Stored 1 (dict.layout top left)
  nodup : (dict.layout top left).entries.Nodup
  known : ∀ e ∈ (dict.layout top left).entries, e < dict.heap.allocated
  only : ∀ e, e ∉ (dict.layout top left).entries → dict.heap.memory e = none
  ordered : SearchOrder left

variable {dict : HeapDictionary α} {top : Option α} {left left' : Layout α} {after : EntryHeap α}

theorem represents_create : (create : HeapDictionary α).Represents none .nil where
  stored := ⟨0, none, rfl, rfl, trivial, trivial⟩
  nodup := List.nodup_singleton _
  known e mem := by
    rw [List.mem_singleton.mp mem]
    exact Nat.zero_lt_one
  only e out := EntryHeap.store_other _ _ fun same => out (List.mem_singleton.mpr same)
  ordered := trivial

namespace Represents

/-- The head entry has all others below it. -/
theorem atHead (represents : dict.Represents top left) :
    dict.heap.memory dict.headEntry = some (liveEntry [] top 1 left .nil) := by
  obtain ⟨entry, v, same, here, _⟩ := represents.stored
  obtain ⟨rfl, rfl⟩ := Prod.mk.inj (Option.some.inj same)
  exact here

theorem below (represents : dict.Represents top left) (points : left.link = some entry) :
    dict.heap.Below .left dict.headEntry (liveEntry [] top 1 left .nil) entry left := by
  obtain ⟨nodupLeft, _, notLeft, _⟩ := nodup_node represents.nodup
  obtain ⟨_, _, same, _, storedLeft, _⟩ := represents.stored
  refine ⟨storedLeft, nodupLeft, points, represents.atHead, points, nofun, notLeft, ?_⟩
  intro e mem
  exact represents.known e (mem_layout.mpr (List.mem_cons.mp mem).symm)

theorem enough (represents : dict.Represents top left) :
    ∃ rounds, dict.heap.allocated = rounds + 1 ∧ left.entries.length ≤ rounds := by
  have length := EntryHeap.length_le_of_nodup represents.nodup represents.known
  rw [entries_layout, List.length_append, List.length_singleton] at length
  exact ⟨dict.heap.allocated - 1, by omega, by omega⟩

/-- The part below the head entry was rewritten. -/
theorem step (represents : dict.Represents top left)
    (rewritten : dict.heap.Rewritten after .left dict.headEntry (liveEntry [] top 1 left .nil) left left')
    (ordered : SearchOrder left') (object : Object) :
    ({ dict with heap := after, object } : HeapDictionary α).Represents top left' := by
  obtain ⟨nodupLeft, _, notLeft, _⟩ := nodup_node represents.nodup
  have head : dict.headEntry < dict.heap.allocated := represents.known _ (mem_layout.mpr (.inr rfl))
  have old : ∀ e ∈ left.entries, e < dict.heap.allocated := fun e mem =>
    represents.known e (mem_layout.mpr (.inl mem))
  have notNew : dict.headEntry ∉ left'.entries := by
    intro mem
    rcases rewritten.known _ mem with inLeft | fresh
    · exact notLeft inLeft
    · exact Nat.ne_of_lt head fresh
  refine ⟨⟨dict.headEntry, top, rfl, rewritten.atParent, rewritten.stored, trivial⟩, ?_, ?_, ?_, ordered⟩
  · rw [entries_layout]
    exact rewritten.nodup.append (List.nodup_singleton _) (List.disjoint_singleton.mpr notNew)
  · intro e mem
    rcases mem_layout.mp mem with inNew | rfl
    · rcases rewritten.known e inNew with inLeft | rfl
      · exact (old e inLeft).trans_le rewritten.grown
      · rw [rewritten.allocated, if_pos inNew]
        exact Nat.lt_succ_self _
    · exact head.trans_le rewritten.grown
  · intro e absent
    obtain ⟨out, notHead⟩ := not_or.mp (mt mem_layout.mpr absent)
    by_cases inLeft : e ∈ left.entries
    · exact rewritten.gone e inLeft out
    · have unknown := represents.only e fun mem => (mem_layout.mp mem).elim inLeft notHead
      exact (rewritten.same e notHead inLeft out).trans unknown

/-- What is no longer in memory was taken out of the tree. -/
theorem gone_iff (represents : dict.Represents top left)
    (rewritten : dict.heap.Rewritten after .left dict.headEntry (liveEntry [] top 1 left .nil) left left') :
    e < after.allocated ∧ after.memory e = none ↔
      e < dict.heap.allocated ∧ dict.heap.memory e = none ∨ e ∈ left.entries ∧ e ∉ left'.entries := by
  have inMemory : ∀ {e}, e ∈ (dict.layout top left).entries → dict.heap.memory e ≠ none := by
    intro e mem missing
    obtain ⟨fields, found, _⟩ := represents.stored.mem mem
    rw [missing] at found
    cases found
  have allocated := rewritten.allocated
  by_cases inNew : e ∈ left'.entries
  · obtain ⟨fields, found, _⟩ := rewritten.stored.mem inNew
    refine iff_of_false (fun gone => ?_) ?_
    · rw [gone.2] at found
      cases found
    · rintro (⟨below, missing⟩ | ⟨_, out⟩)
      · rcases rewritten.known e inNew with inLeft | fresh
        · exact inMemory (mem_layout.mpr (.inl inLeft)) missing
        · exact Nat.ne_of_lt below fresh
      · exact out inNew
  · by_cases inLeft : e ∈ left.entries
    · have below := represents.known e (mem_layout.mpr (.inl inLeft))
      exact iff_of_true ⟨below.trans_le rewritten.grown, rewritten.gone e inLeft inNew⟩
        (.inr ⟨inLeft, inNew⟩)
    · have outside : ¬(e ∈ left.entries ∧ e ∉ left'.entries) := fun both => inLeft both.1
      rw [or_iff_left outside]
      by_cases isHead : e = dict.headEntry
      · have held := inMemory (mem_layout.mpr (.inr isHead))
        refine iff_of_false (fun gone => ?_) fun gone => held gone.2
        rw [isHead, rewritten.atParent] at gone
        cases gone.2
      · have missing := represents.only e fun mem => (mem_layout.mp mem).elim inLeft isHead
        rw [rewritten.same e isHead inLeft inNew, missing]
        refine and_congr_left fun _ => ?_
        split at allocated
        · rename_i mem
          have other : e ≠ dict.heap.allocated := fun same => inNew (same ▸ mem)
          omega
        · omega

end Represents

/-- The entry was allocated and is gone. -/
def Deallocated (dict : HeapDictionary α) (e : EntryRef) : Prop :=
  e < dict.heap.allocated ∧ dict.heap.memory e = none

/-- Nothing happens below a missing child. -/
theorem rewritten_nil (represents : dict.Represents top .nil) :
    dict.heap.Rewritten dict.heap .left dict.headEntry (liveEntry [] top 1 .nil .nil) .nil .nil where
  atParent := represents.atHead
  stored := trivial
  nodup := List.nodup_nil
  known _ mem := absurd mem List.not_mem_nil
  allocated := rfl
  gone _ mem := absurd mem List.not_mem_nil
  same _ _ _ _ := rfl

/-- A call keeps the lock as it was. -/
theorem set_of_setFrom {key : CString} {value : Option α}
    (set : dict.heap.setFrom key value dict.heap.allocated dict.headEntry = some after) :
    dict.set key value = some { dict with heap := after, object := dict.object.lock.unlock } := by
  rw [HeapDictionary.set]
  simp only [Option.bind_eq_bind, set, Option.bind_some]
  rfl

theorem remove_of_removeFrom {key : CString}
    (removed : dict.heap.removeFrom key dict.heap.allocated none dict.headEntry = some after) :
    dict.remove key = some { dict with heap := after, object := dict.object.lock.unlock } := by
  rw [HeapDictionary.remove]
  simp only [Option.bind_eq_bind, removed, Option.bind_some]
  rfl

theorem set_spec {key : CString} (represents : dict.Represents top left) (nonempty : key ≠ [])
    (value : Option α) :
    ∃ after ref, dict.set key value = some after ∧ after.object = dict.object ∧
      after.Represents top (entrySet left key (some (ref, value))) ∧
      ∀ e, after.Deallocated e ↔ dict.Deallocated e := by
  have negative := strcmp_nil_neg nonempty
  obtain ⟨rounds, allocated, enough⟩ := represents.enough
  obtain ⟨after, ref, set, rewritten, kept⟩ : ∃ after ref,
      dict.heap.setFrom key value dict.heap.allocated dict.headEntry = some after ∧
      dict.heap.Rewritten after .left dict.headEntry (liveEntry [] top 1 left .nil) left
        (entrySet left key (some (ref, value))) ∧
      left.entries ⊆ entries (entrySet left key (some (ref, value))) := by
    rw [allocated, EntryHeap.setFrom]
    simp only [represents.atHead, Option.bind_eq_bind, Option.bind_some, liveEntry,
      if_neg (Int.ne_of_lt negative), if_pos negative]
    cases left with
    | nil =>
      have known : dict.headEntry < dict.heap.allocated := represents.known _ (mem_layout.mpr (.inr rfl))
      obtain ⟨after, added, result⟩ := EntryHeap.addChildEntry_spec .left value represents.atHead rfl known
      exact ⟨after, _, added, result, List.nil_subset _⟩
    | node _ _ _ _ =>
      obtain ⟨_, _, _, _, ⟨child, w, rfl, _⟩, _⟩ := id represents.stored
      exact EntryHeap.setFrom_spec key value (represents.below rfl) enough
  refine ⟨_, ref, set_of_setFrom set, dict.object.unlock_lock,
    represents.step rewritten (searchOrder_entrySet represents.ordered) _, fun e => ?_⟩
  refine (represents.gone_iff rewritten).trans (or_iff_left ?_)
  exact fun lost => lost.2 (kept lost.1)

/-- The empty key is that of the head entry. -/
theorem set_nil_spec (represents : dict.Represents top left) (value : Option α) :
    ∃ after, dict.set [] value = some after ∧ after.object = dict.object ∧
      after.Represents value left ∧ ∀ e, after.Deallocated e ↔ dict.Deallocated e := by
  obtain ⟨rounds, allocated, _⟩ := represents.enough
  obtain ⟨_, _, notHead, _⟩ := nodup_node represents.nodup
  obtain ⟨_, _, _, _, stored, _⟩ := represents.stored
  have head := represents.atHead
  let after := dict.heap.store dict.headEntry (liveEntry [] value 1 left .nil)
  have set : dict.heap.setFrom [] value dict.heap.allocated dict.headEntry = some after := by
    rw [allocated, EntryHeap.setFrom]
    simp only [head, Option.bind_eq_bind, Option.bind_some, liveEntry, strcmp_self, if_true]
    rfl
  have memory : ∀ e, e ≠ dict.headEntry → after.memory e = dict.heap.memory e := fun e other =>
    EntryHeap.store_other _ _ other
  have here : after.memory dict.headEntry = some (liveEntry [] value 1 left .nil) :=
    EntryHeap.store_self _ _ _
  refine ⟨_, set_of_setFrom set, dict.object.unlock_lock, ?_, ?_⟩
  · obtain ⟨_, nodup, known, only, ordered⟩ := represents
    rw [entries_layout] at nodup known only
    refine ⟨⟨dict.headEntry, value, rfl, here, ?_, trivial⟩, ?_, ?_, ?_, ordered⟩
    · exact stored.congr fun e mem => memory e fun same => notHead (same ▸ mem)
    · rwa [entries_layout]
    · rwa [entries_layout]
    · rw [entries_layout]
      intro e out
      exact (memory e fun same => out (by simp [same])).trans (only e out)
  · intro e
    by_cases same : e = dict.headEntry
    · subst e
      refine iff_of_false (fun gone => ?_) fun gone => ?_
      · cases here.symm.trans gone.2
      · cases head.symm.trans gone.2
    · simp only [Deallocated, memory e same]
      rfl

/-- The head entry has no parent, so its key is never removed. -/
theorem remove_nil (represents : dict.Represents top left) : dict.remove [] = none := by
  obtain ⟨rounds, allocated, _⟩ := represents.enough
  have unlinked : dict.heap.unlinkEntry none dict.headEntry = none := by
    simp only [EntryHeap.unlinkEntry, represents.atHead, Option.bind_eq_bind, Option.bind_some, liveEntry]
    split <;> simp [EntryHeap.replaceEntry]
  have removed : dict.heap.removeFrom [] dict.heap.allocated none dict.headEntry = none := by
    rw [allocated, EntryHeap.removeFrom]
    simp only [represents.atHead, Option.bind_eq_bind, Option.bind_some, liveEntry, strcmp_self,
      if_true, unlinked]
  rw [HeapDictionary.remove]
  simp only [removed, Option.bind_eq_bind, Option.bind_none]

theorem remove_spec {key : CString} (represents : dict.Represents top left) (nonempty : key ≠ []) :
    ∃ after, dict.remove key = some after ∧ after.object = dict.object ∧
      after.Represents top (entryRemove left key) ∧
      ∀ e, after.Deallocated e ↔
        dict.Deallocated e ∨ e ∈ left.entries ∧ e ∉ entries (entryRemove left key) := by
  have negative := strcmp_nil_neg nonempty
  obtain ⟨rounds, allocated, enough⟩ := represents.enough
  obtain ⟨after, removed, rewritten⟩ : ∃ after,
      dict.heap.removeFrom key dict.heap.allocated none dict.headEntry = some after ∧
      dict.heap.Rewritten after .left dict.headEntry (liveEntry [] top 1 left .nil) left
        (entryRemove left key) := by
    rw [allocated, EntryHeap.removeFrom]
    simp only [represents.atHead, Option.bind_eq_bind, Option.bind_some, liveEntry,
      if_neg (Int.ne_of_lt negative), if_pos negative]
    cases left with
    | nil => exact ⟨dict.heap, rfl, rewritten_nil represents⟩
    | node _ _ _ _ =>
      obtain ⟨_, _, _, _, ⟨child, w, rfl, _⟩, _⟩ := id represents.stored
      exact EntryHeap.removeFrom_spec key (represents.below rfl) enough
  exact ⟨_, remove_of_removeFrom removed, dict.object.unlock_lock,
    represents.step rewritten (searchOrder_entryRemove represents.ordered key) _, fun e =>
    represents.gone_iff rewritten⟩

/-- The entries that can be reached from the head entry. -/
def Reaches (dict : HeapDictionary α) (e : EntryRef) : Prop :=
  LinkedTree.Reaches dict.heap.child dict.headEntry e

/-- A pointer to an entry: `headEntry` of the dictionary, or a child of an entry that can be
reached. -/
def PointsTo (dict : HeapDictionary α) : Option (Side × EntryRef) → EntryRef → Prop
  | none, e => dict.headEntry = e
  | some (side, parent), e => dict.Reaches parent ∧ dict.heap.child side parent = some e

/-- What can be reached is alive, with one reference, that of the one pointer to it, and
nothing else is in memory. -/
structure Counted (dict : HeapDictionary α) : Prop where
  one : ∀ e, dict.Reaches e →
    ∃ fields, dict.heap.memory e = some fields ∧ fields.magic = .object ∧ fields.retainCount = 1
  pointer : ∀ e, dict.Reaches e → ∃! pointer, dict.PointsTo pointer e
  only : ∀ e, dict.heap.memory e ≠ none → dict.Reaches e

theorem Represents.reaches_iff (represents : dict.Represents top left) :
    dict.Reaches e ↔ e ∈ (dict.layout top left).entries :=
  represents.stored.linked.reaches_iff rfl

theorem Represents.counted (represents : dict.Represents top left) : dict.Counted where
  one e reached := represents.stored.mem (represents.reaches_iff.mp reached)
  pointer e reached := by
    have points : ∀ pointer, Points address dict.heap.child (dict.layout top left) pointer e ↔
        dict.PointsTo pointer e := by
      rintro (_ | ⟨side, parent⟩)
      · exact Option.some_inj
      · exact and_congr_left fun _ => represents.reaches_iff.symm
    simp only [← points]
    exact represents.stored.linked.existsUnique_pointer represents.nodup (represents.reaches_iff.mp reached)
  only e held := by
    by_contra unreached
    exact held (represents.only e fun mem => unreached (represents.reaches_iff.mpr mem))

/-- An entry of this key. -/
def Keyed (dict : HeapDictionary α) (key : CString) (e : EntryRef) : Prop :=
  ∃ fields, dict.heap.memory e = some fields ∧ fields.key = key

theorem keyed_of_mem {heap : EntryHeap α} {count : EntryRef → Int} (stored : heap.Stored count left)
    (mem : (key, some (e, v)) ∈ left.walk) : ∃ fields, heap.memory e = some fields ∧ fields.key = key := by
  induction left with
  | nil => cases mem
  | node own value left right ihl ihr =>
    obtain ⟨entry, w, rfl, here, storedLeft, storedRight⟩ := stored
    rcases Tree.mem_walk_node.mp mem with inLeft | same | inRight
    · exact ihl storedLeft inLeft
    · cases same
      exact ⟨_, here, rfl⟩
    · exact ihr storedRight inRight

theorem mem_entries_iff : e ∈ left.entries ↔ ∃ key v, (key, some (e, v)) ∈ left.walk := by
  simp [entries, refs, address]

/-- A removal takes the entry of its key out of the tree. -/
theorem Represents.removed_iff (represents : dict.Represents top left) (nonempty : key ≠ []) :
    e ∈ left.entries ∧ e ∉ entries (entryRemove left key) ↔ dict.Reaches e ∧ dict.Keyed key e := by
  have walk := walk_entryRemove represents.ordered key
  obtain ⟨_, _, _, _, stored, _⟩ := represents.stored
  constructor
  · rintro ⟨mem, out⟩
    obtain ⟨own, v, mem⟩ := mem_entries_iff.mp mem
    obtain ⟨fields, here, known⟩ := keyed_of_mem stored mem
    have reached := represents.reaches_iff.mpr (mem_layout.mpr (.inl (mem_entries_iff.mpr ⟨own, v, mem⟩)))
    refine ⟨reached, fields, here, known.trans ?_⟩
    by_contra other
    exact out (mem_entries_iff.mpr ⟨own, v, walk ▸ List.mem_filter.mpr ⟨mem, decide_eq_true other⟩⟩)
  · rintro ⟨reached, fields, here, known⟩
    have mem := mem_layout.mp (represents.reaches_iff.mp reached)
    refine ⟨mem.resolve_right fun head => ?_, fun kept => ?_⟩
    · rw [head, represents.atHead] at here
      cases here
      exact nonempty known.symm
    · obtain ⟨own, v, kept⟩ := mem_entries_iff.mp kept
      rw [walk, List.mem_filter] at kept
      obtain ⟨again, here', known'⟩ := keyed_of_mem stored kept.1
      have same := Option.some.inj (here.symm.trans here')
      exact of_decide_eq_true kept.2 (known'.symm.trans ((congrArg _ same.symm).trans known))

/-- The dictionary in memory is this tree. -/
def Holds (dict : HeapDictionary α) (tree : Dictionary α) : Prop :=
  ∃ top, ∃ left : Layout α, dict.Represents top left ∧ dict.object = tree.object ∧
    tree.headEntry = .node [] top left.contents .nil

end HeapDictionary

/-- The call removes this entry. -/
def DictionaryCall.Removes (call : DictionaryCall α) (dict : HeapDictionary α) (e : EntryRef) : Prop :=
  ∃ key, call = .remove key ∧ dict.Reaches e ∧ dict.Keyed key e

section Calls
variable {dict before : HeapDictionary α} {tree : Dictionary α} {calls : List (DictionaryCall α)}

/-- A call does in memory what it does to the tree, and frees the entry it removes. -/
theorem applyHeap_spec (holds : dict.Holds tree) (call : DictionaryCall α) (defined : call ≠ .remove []) :
    ∃ after, call.applyHeap dict = some after ∧ after.Holds (call.apply tree) ∧
      ∀ e, after.Deallocated e ↔ dict.Deallocated e ∨ call.Removes dict e := by
  obtain ⟨top, left, represents, object, head⟩ := holds
  cases call with
  | set key value =>
    have none : ∀ e, ¬(DictionaryCall.set key value).Removes dict e := fun e removes =>
      nomatch removes.choose_spec.1
    simp only [none, or_false]
    by_cases empty : key = []
    · subst key
      obtain ⟨after, set, kept, holds, gone⟩ := HeapDictionary.set_nil_spec represents value
      refine ⟨after, set, ⟨_, _, holds, ?_, ?_⟩, gone⟩
      · simp only [DictionaryCall.apply, dictionarySet_object, kept, object]
      · simp only [DictionaryCall.apply, dictionarySet_headEntry, head, entrySet, strcmp_self, if_true]
    · have negative := strcmp_nil_neg empty
      obtain ⟨after, ref, set, kept, holds, gone⟩ := HeapDictionary.set_spec represents empty value
      refine ⟨after, set, ⟨_, _, holds, ?_, ?_⟩, gone⟩
      · simp only [DictionaryCall.apply, dictionarySet_object, kept, object]
      · simp only [DictionaryCall.apply, dictionarySet_headEntry, head, entrySet, contents_entrySet,
          if_neg (Int.ne_of_lt negative), if_pos negative]
  | remove key =>
    have nonempty : key ≠ [] := fun empty => defined (congrArg _ empty)
    have negative := strcmp_nil_neg nonempty
    obtain ⟨after, removed, kept, holds, gone⟩ := HeapDictionary.remove_spec represents nonempty
    refine ⟨after, removed, ⟨_, _, holds, ?_, ?_⟩, fun e => (gone e).trans (or_congr_right ?_)⟩
    · simp only [DictionaryCall.apply, dictionaryRemove_object, kept, object]
    · simp only [DictionaryCall.apply, dictionaryRemove_headEntry, head, entryRemove, contents_entryRemove,
        if_neg (Int.ne_of_lt negative), if_pos negative]
    · refine (represents.removed_iff nonempty).trans ⟨fun both => ⟨key, rfl, both⟩, ?_⟩
      rintro ⟨_, ⟨⟩, both⟩
      exact both

theorem heapAfter_snoc (call : DictionaryCall α) :
    heapAfter (calls ++ [call]) = (heapAfter calls).bind call.applyHeap := by
  simp [heapAfter, List.foldlM_append]

theorem heapAfter_holds (defined : .remove [] ∉ calls) :
    ∃ dict, heapAfter calls = some dict ∧ dict.Holds (dictionaryAfter calls) := by
  induction calls using List.reverseRecOn with
  | nil => exact ⟨.create, rfl, none, .nil, HeapDictionary.represents_create, rfl, rfl⟩
  | append_singleton calls call ih =>
    rw [List.mem_append, List.mem_singleton, not_or] at defined
    obtain ⟨dict, reached, holds⟩ := ih defined.1
    obtain ⟨after, applied, next, _⟩ := applyHeap_spec holds call (Ne.symm defined.2)
    refine ⟨after, ?_, (dictionaryAfter_snoc calls call).symm ▸ next⟩
    rw [heapAfter_snoc, reached, Option.bind_some, applied]

/-- The removal of the empty key has no parent to write to; all other calls are defined. -/
theorem heapAfter_eq_none : heapAfter calls = none ↔ .remove [] ∈ calls := by
  induction calls using List.reverseRecOn with
  | nil => exact iff_of_false nofun nofun
  | append_singleton calls call ih =>
    rw [heapAfter_snoc, List.mem_append, List.mem_singleton]
    by_cases earlier : .remove [] ∈ calls
    · rw [ih.mpr earlier]
      exact iff_of_true rfl (.inl earlier)
    · obtain ⟨dict, reached, holds⟩ := heapAfter_holds earlier
      rw [reached, Option.bind_some, or_iff_right earlier]
      constructor
      · intro undefined
        by_contra other
        obtain ⟨after, applied, _⟩ := applyHeap_spec holds call (Ne.symm other)
        cases undefined.symm.trans applied
      · rintro rfl
        obtain ⟨top, left, represents, _⟩ := holds
        exact HeapDictionary.remove_nil represents

/-- Before and after every call each entry has one reference, and the call frees the entry
it removes and no other. -/
theorem entry_references (reached : heapAfter calls = some before) (call : DictionaryCall α)
    (nonempty : call.key ≠ []) :
    ∃ after, call.applyHeap before = some after ∧ before.Counted ∧ after.Counted ∧
      ∀ e, after.Deallocated e ↔ before.Deallocated e ∨ call.Removes before e := by
  have defined : .remove [] ∉ calls := fun mem => nomatch (heapAfter_eq_none.mpr mem).symm.trans reached
  obtain ⟨dict, found, holds⟩ := heapAfter_holds defined
  obtain rfl := Option.some.inj (found.symm.trans reached)
  obtain ⟨after, applied, next, gone⟩ := applyHeap_spec holds call fun same => nonempty (same ▸ rfl)
  obtain ⟨_, _, represents, _⟩ := holds
  obtain ⟨_, _, representsAfter, _⟩ := next
  exact ⟨after, applied, represents.counted, representsAfter.counted, gone⟩

/-- The root of these has two children, and the one to its right has one to its left. -/
def graftCalls : List (DictionaryCall Nat) :=
  [.set (literal "m") (some 1), .set (literal "t") (some 2), .set (literal "c") (some 3),
    .set (literal "e") (some 4)]

theorem entry_references_graft :
    ∃ before, heapAfter graftCalls = some before ∧
      ∃ after, (DictionaryCall.remove (literal "m")).applyHeap before = some after ∧
        before.Counted ∧ after.Counted ∧ ∀ e, after.Deallocated e ↔
          before.Deallocated e ∨ (DictionaryCall.remove (literal "m")).Removes before e := by
  have defined : .remove [] ∉ graftCalls := by simp [graftCalls]
  obtain ⟨before, reached, _⟩ := heapAfter_holds defined
  exact ⟨before, reached, entry_references reached _ (by decide)⟩

end Calls

end KommunikationNetze.Utils
