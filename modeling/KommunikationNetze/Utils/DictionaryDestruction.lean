import KommunikationNetze.Utils.EntryReferences

/-! The end of a chat dictionary. The last `Release` of it releases the head entry, whose
deallocation releases its children, and so on: the calls nest as deep as the tree is. -/
namespace KommunikationNetze.Utils
open CLib SearchTree LinkedTree Layout
variable {α : Type}

/-- `DictionaryDealloc`, without the free of the dictionary itself. -/
def dictionaryDealloc (dict : HeapDictionary α) : Option (EntryHeap α) :=
  dict.heap.release (some dict.headEntry)

/-- The entries of the layout were freed and nothing else has changed. -/
structure EntryHeap.Freed (heap after : EntryHeap α) (entries : List EntryRef) : Prop where
  allocated : after.allocated = heap.allocated
  gone : ∀ e ∈ entries, after.memory e = none
  same : ∀ e, e ∉ entries → after.memory e = heap.memory e

namespace EntryHeap
variable {heap : EntryHeap α} {layout left right : Layout α} {levels : Nat} {entry : EntryRef}

theorem releaseWithin_link_nil (heap : EntryHeap α) (levels : Nat) :
    releaseWithin levels heap (link (.nil : Layout α)) = some heap := by
  cases levels <;> rfl

/-- The last reference to an entry: it becomes a zombie, and its children are released
before it is freed. -/
theorem releaseWithin_one {key : CString} {v : Option α}
    (here : heap.memory entry = some (liveEntry key v 1 left right)) (levels : Nat) :
    releaseWithin (levels + 1) heap (some entry) =
      dictionaryEntryDealloc (releaseWithin levels)
        (heap.store entry { liveEntry key v 1 left right with magic := .zombie, retainCount := 0 })
        entry := by
  simp [releaseWithin, here, liveEntry]

section Dealloc
variable {release : EntryHeap α → Option EntryRef → Option (EntryHeap α)} {middle : EntryHeap α}
  {fields : StoredEntry α}

theorem dictionaryEntryDealloc_none (found : heap.memory entry = some fields)
    (stops : release heap fields.leftEntry = none) :
    dictionaryEntryDealloc release heap entry = none := by
  simp only [dictionaryEntryDealloc, found, Option.bind_eq_bind, Option.bind_some, stops, Option.bind_none]

theorem dictionaryEntryDealloc_some (found : heap.memory entry = some fields)
    (released : release heap fields.leftEntry = some middle) (still : middle.memory entry = some fields) :
    dictionaryEntryDealloc release heap entry =
      (release middle fields.rightEntry).map fun heap => heap.free entry := by
  simp only [dictionaryEntryDealloc, found, Option.bind_eq_bind, Option.bind_some, released, still]
  cases release middle fields.rightEntry <;> rfl

end Dealloc

/-- The release of the only pointer to a layout frees its entries and nothing else, if the
calls may nest as deep as the layout is; otherwise they nest deeper. -/
theorem releaseWithin_frees (levels : Nat) (stored : heap.Stored 1 layout) (nodup : layout.entries.Nodup) :
    (layout.depth ≤ levels →
      ∃ after, releaseWithin levels heap layout.link = some after ∧ heap.Freed after layout.entries) ∧
    (levels < layout.depth → releaseWithin levels heap layout.link = none) := by
  induction layout generalizing heap levels with
  | nil =>
    refine ⟨fun _ => ⟨heap, releaseWithin_link_nil heap levels, rfl, nofun, fun _ _ => rfl⟩, ?_⟩
    exact fun shallow => absurd shallow (Nat.not_lt_zero _)
  | node key value left right ihl ihr =>
    obtain ⟨entry, v, rfl, here, storedLeft, storedRight⟩ := stored
    obtain ⟨nodupLeft, nodupRight, notLeft, notRight, apart⟩ := nodup_node nodup
    simp only [Tree.depth]
    cases levels with
    | zero => exact ⟨fun deep => absurd deep (Nat.not_succ_le_zero _), fun _ => rfl⟩
    | succ levels =>
      rw [link_node, releaseWithin_one here]
      generalize marks : ({ liveEntry key v 1 left right with
        magic := .zombie, retainCount := 0 } : StoredEntry α) = zombie
      have children : zombie.leftEntry = link left ∧ zombie.rightEntry = link right := by
        rw [← marks]
        exact ⟨rfl, rfl⟩
      have found : (heap.store entry zombie).memory entry = some zombie := store_self ..
      have storedMarked : (heap.store entry zombie).Stored 1 left := storedLeft.congr fun e mem =>
        store_other heap zombie fun same => notLeft (same ▸ mem)
      obtain ⟨enoughLeft, deepLeft⟩ := ihl levels storedMarked nodupLeft
      rcases Nat.lt_or_ge levels left.depth with leftDeep | leftFits
      · refine ⟨fun deep => absurd deep (by omega), fun _ => ?_⟩
        apply dictionaryEntryDealloc_none found
        rw [children.1]
        exact deepLeft leftDeep
      -- The entry is still there when its left child is gone, and so is the right one.
      obtain ⟨middle, released, freed⟩ := enoughLeft leftFits
      have still : middle.memory entry = some zombie := (freed.same entry notLeft).trans found
      have storedMiddle : middle.Stored 1 right := storedRight.congr fun e mem =>
        (freed.same e fun inLeft => apart inLeft mem).trans
          (store_other heap zombie fun same => notRight (same ▸ mem))
      obtain ⟨enoughRight, deepRight⟩ := ihr levels storedMiddle nodupRight
      rw [dictionaryEntryDealloc_some found (children.1 ▸ released) still, children.2]
      rcases Nat.lt_or_ge levels right.depth with rightDeep | rightFits
      · refine ⟨fun deep => absurd deep (by omega), fun _ => ?_⟩
        rw [deepRight rightDeep]
        rfl
      · obtain ⟨after, done, freedRight⟩ := enoughRight rightFits
        refine ⟨fun _ => ⟨after.free entry, by rw [done]; rfl, ?_, ?_, ?_⟩, fun shallow => absurd shallow (by omega)⟩
        · exact freedRight.allocated.trans freed.allocated
        · intro e mem
          by_cases same : e = entry
          · rw [same]
            exact free_self ..
          rw [free_other _ same]
          rw [entries_node, List.mem_append, List.mem_cons] at mem
          by_cases inRight : e ∈ entries right
          · exact freedRight.gone e inRight
          · rw [freedRight.same e inRight]
            exact freed.gone e (mem.resolve_right fun other => other.elim same inRight)
        · intro e out
          rw [entries_node, List.mem_append, List.mem_cons, not_or, not_or] at out
          obtain ⟨outLeft, other, outRight⟩ := out
          rw [free_other _ other, freedRight.same e outRight, freed.same e outLeft, store_other _ _ other]

/-- A path goes through different entries. -/
theorem Stored.depth_le {count : EntryRef → Int} (stored : heap.Stored count layout) :
    layout.depth ≤ layout.entries.length := by
  induction layout with
  | nil => exact Nat.le_refl _
  | node key value left right ihl ihr =>
    obtain ⟨entry, v, rfl, _, storedLeft, storedRight⟩ := stored
    have below := ihl storedLeft
    have beside := ihr storedRight
    rw [entries_node, List.length_append, List.length_cons, Tree.depth]
    omega

end EntryHeap

theorem Layout.depth_contents (layout : Layout α) : layout.contents.depth = layout.depth := by
  induction layout with
  | nil => rfl
  | node key value left right ihl ihr => rw [contents, Tree.depth, Tree.depth, ihl, ihr]

/-- After any calls the last release of the dictionary frees every entry that is left, none
of them twice, and the nested calls of `Release` go exactly as deep as the tree. -/
theorem dictionary_dealloc {calls : List (DictionaryCall α)} (reached : heapAfter calls = some dict) :
    (∃ after, dictionaryDealloc dict = some after ∧ ∀ e, after.memory e = none) ∧
    ∀ levels, (EntryHeap.releaseWithin levels dict.heap (some dict.headEntry)).isSome ↔
      (dictionaryAfter calls).headEntry.depth ≤ levels := by
  have defined : .remove [] ∉ calls := fun mem => nomatch (heapAfter_eq_none.mpr mem).symm.trans reached
  obtain ⟨held, found, top, left, represents, _, head⟩ := heapAfter_holds defined
  obtain rfl : dict = held := Option.some.inj (reached.symm.trans found)
  have frees := fun levels => EntryHeap.releaseWithin_frees levels represents.stored represents.nodup
  have depth : (dictionaryAfter calls).headEntry.depth = (dict.layout top left).depth := by
    rw [head, HeapDictionary.layout, Tree.depth, Tree.depth, Layout.depth_contents]
    rfl
  constructor
  · have within := EntryHeap.length_le_of_nodup represents.nodup represents.known
    have deep : (dict.layout top left).depth ≤ dict.heap.allocated + 1 :=
      represents.stored.depth_le.trans (within.trans (Nat.le_succ _))
    obtain ⟨after, released, freed⟩ := (frees _).1 deep
    refine ⟨after, released, fun e => ?_⟩
    by_cases mem : e ∈ (dict.layout top left).entries
    · exact freed.gone e mem
    · exact (freed.same e mem).trans (represents.only e mem)
  · intro levels
    rw [depth]
    constructor
    · intro returned
      by_contra deeper
      have stops := (frees levels).2 (Nat.lt_of_not_le deeper)
      rw [HeapDictionary.layout, link_node] at stops
      rw [stops] at returned
      cases returned
    · intro deep
      obtain ⟨after, released, _⟩ := (frees levels).1 deep
      rw [HeapDictionary.layout, link_node] at released
      rw [released]
      rfl

/-- The head entry and three entries below each other. -/
theorem dictionary_dealloc_graft :
    ∃ dict, heapAfter graftCalls = some dict ∧
      (∃ after, dictionaryDealloc dict = some after ∧ ∀ e, after.memory e = none) ∧
      (EntryHeap.releaseWithin 3 dict.heap (some dict.headEntry)).isSome = false := by
  have defined : .remove [] ∉ graftCalls := by simp [graftCalls]
  obtain ⟨dict, reached, _⟩ := heapAfter_holds defined
  obtain ⟨freed, depth⟩ := dictionary_dealloc reached
  refine ⟨dict, reached, freed, Bool.eq_false_iff.mpr fun returned => ?_⟩
  exact absurd ((depth 3).mp returned) (by decide)

end KommunikationNetze.Utils
