import KommunikationNetze.Utils.EntryCounts
import Mathlib.Tactic.Abel

/-! The references on the entries of a chat dictionary. A dictionary in memory has a layout,
its tree with the address of each entry, on which the calls do what they do on the tree:
each entry is held by the one pointer to it, and a removal gives up nothing else. -/
namespace KommunikationNetze.Utils
open CLib SearchTree LinkedTree
variable {α : Type}

/-- A tree of entries, each with its address and value. -/
abbrev Layout (α : Type) := DictionaryEntry (EntryRef × Option α)

namespace Layout

def address (value : Option (EntryRef × Option α)) : Option EntryRef := value.map Prod.fst

def link (layout : Layout α) : Option EntryRef := root address layout

def entries (layout : Layout α) : List EntryRef := refs address layout

@[simp] theorem link_nil : link (.nil : Layout α) = none := rfl

@[simp] theorem link_node {key : CString} {entry : EntryRef} {value : Option α} {left right : Layout α} :
    link (.node key (some (entry, value)) left right) = some entry := rfl

@[simp] theorem entries_nil : entries (.nil : Layout α) = [] := rfl

@[simp] theorem entries_node {key : CString} {entry : EntryRef} {value : Option α}
    {left right : Layout α} : entries (.node key (some (entry, value)) left right) =
      left.entries ++ entry :: right.entries := refs_node rfl

/-- The entry and its two subtrees have no entry in common. -/
theorem nodup_node {key : CString} {entry : EntryRef} {value : Option α} {left right : Layout α}
    (nodup : (entries (.node key (some (entry, value)) left right)).Nodup) :
    left.entries.Nodup ∧ right.entries.Nodup ∧ entry ∉ left.entries ∧ entry ∉ right.entries ∧
      left.entries.Disjoint right.entries := nodup_refs_node rfl nodup

/-- A round for each entry is enough for a search, as it goes on below the first. -/
theorem rounds_node {key : CString} {entry : EntryRef} {value : Option α} {left right : Layout α}
    {rounds : Nat} (enough : (entries (.node key (some (entry, value)) left right)).length ≤ rounds) :
    ∃ rest, rounds = rest + 1 ∧ left.entries.length ≤ rest ∧ right.entries.length ≤ rest := by
  rw [entries_node, List.length_append, List.length_cons] at enough
  exact ⟨rounds - 1, by omega, by omega, by omega⟩

theorem mem_entries_of_link {layout : Layout α} (points : layout.link = some entry) :
    entry ∈ layout.entries := mem_refs_root points

end Layout

open Layout

/-- An entry that is alive. -/
def liveEntry (key : CString) (value : Option α) (count : Int) (left right : Layout α) : StoredEntry α :=
  { magic := .object, retainCount := count, key, value, leftEntry := left.link, rightEntry := right.link }

namespace EntryHeap

def child (heap : EntryHeap α) (side : Side) (entry : EntryRef) : Option EntryRef :=
  (heap.memory entry).bind (StoredEntry.child side)

/-- The layout is in memory, with these retain counts. -/
def Stored (heap : EntryHeap α) (count : EntryRef → Int) : Layout α → Prop
  | .nil => True
  | .node key value left right => ∃ entry v, value = some (entry, v) ∧
      heap.memory entry = some (liveEntry key v (count entry) left right) ∧
      heap.Stored count left ∧ heap.Stored count right

variable {heap after : EntryHeap α} {count : EntryRef → Int} {layout left right : Layout α}

namespace Stored

theorem congr (stored : heap.Stored count layout)
    (same : ∀ e ∈ layout.entries, after.memory e = heap.memory e) : after.Stored count layout := by
  induction layout with
  | nil => trivial
  | node key value left right ihl ihr =>
    obtain ⟨entry, v, rfl, here, storedLeft, storedRight⟩ := stored
    simp only [entries_node, List.forall_mem_append, List.forall_mem_cons] at same
    obtain ⟨sameLeft, own, sameRight⟩ := same
    exact ⟨entry, v, rfl, own.trans here, ihl storedLeft sameLeft, ihr storedRight sameRight⟩

theorem recount (stored : heap.Stored count layout) (more : EntryRef → Int) :
    (heap.recount more).Stored (count + more) layout := by
  induction layout with
  | nil => trivial
  | node key value left right ihl ihr =>
    obtain ⟨entry, v, rfl, here, storedLeft, storedRight⟩ := stored
    exact ⟨entry, v, rfl, recount_some heap more here, ihl storedLeft, ihr storedRight⟩

theorem held (stored : heap.Stored count layout) (least : Int)
    (enough : ∀ e, layout.link = some e → least ≤ count e) : heap.Held least layout.link := by
  cases layout with
  | nil => nofun
  | node key value left right =>
    obtain ⟨entry, v, rfl, here, _⟩ := stored
    rintro e ⟨⟩
    exact ⟨_, here, rfl, enough entry rfl⟩

theorem linked (stored : heap.Stored count layout) :
    Linked address heap.child layout := by
  induction layout with
  | nil => trivial
  | node key value left right ihl ihr =>
    obtain ⟨entry, v, rfl, here, storedLeft, storedRight⟩ := stored
    refine ⟨entry, rfl, ?_, ?_, ihl storedLeft, ihr storedRight⟩ <;> rw [child, here] <;> rfl

/-- Every entry of the layout is in memory. -/
theorem mem (stored : heap.Stored count layout) (mem : e ∈ layout.entries) :
    ∃ fields, heap.memory e = some fields ∧ fields.magic = .object ∧ fields.retainCount = count e := by
  induction layout with
  | nil => cases mem
  | node key value left right ihl ihr =>
    obtain ⟨entry, v, rfl, here, storedLeft, storedRight⟩ := stored
    rw [entries_node, List.mem_append, List.mem_cons] at mem
    rcases mem with inLeft | rfl | inRight
    · exact ihl storedLeft inLeft
    · exact ⟨_, here, rfl, rfl⟩
    · exact ihr storedRight inRight

end Stored

/-- A further reference to a layout whose entries have others. -/
theorem Stored.retain (stored : heap.Stored 1 layout) (more : EntryRef → Int) (nonneg : ∀ e, 0 ≤ more e) :
    (heap.recount more).retain layout.link = some (heap.recount (more + one layout.link)) := by
  have held := (stored.recount more).held 1 fun e _ => le_add_of_nonneg_right (nonneg e)
  rw [retain_spec held, recount_recount]

/-- It is released again. -/
theorem Stored.release (stored : heap.Stored 1 layout) (more : EntryRef → Int) (nonneg : ∀ e, 0 ≤ more e) :
    (heap.recount (more + one layout.link)).release layout.link = some (heap.recount more) := by
  have held := (stored.recount (more + one layout.link)).held 2 fun e points => by
    have enough := nonneg e
    simp only [Pi.add_apply, Pi.one_apply, one, if_pos points]
    omega
  rw [release_shared held, recount_recount, add_neg_cancel_right]

/-- The entry without a left child that the walk ends at, and what a new one makes of it. -/
theorem leftmostEntry_spec {rounds : Nat} (stored : heap.Stored count layout)
    (nodup : layout.entries.Nodup) (start : layout.link = some entry)
    (enough : layout.entries.length ≤ rounds) :
    ∃ leftmost fields, heap.leftmostEntry rounds entry = some leftmost ∧ leftmost ∈ layout.entries ∧
      heap.memory leftmost = some fields ∧ fields.leftEntry = none ∧
      ∀ {after : EntryHeap α} {graft : Layout α},
        after.memory leftmost = some (fields.setChild .left graft.link) →
        (∀ e ∈ layout.entries, e ≠ leftmost → after.memory e = heap.memory e) →
        after.Stored count graft → after.Stored count (setLeftmostEntry layout graft) := by
  induction layout generalizing entry rounds with
  | nil => cases start
  | node key value left right ihl =>
    obtain ⟨own, v, rfl, here, storedLeft, storedRight⟩ := stored
    obtain rfl := Option.some.inj start
    obtain ⟨nodupLeft, _, notLeft, notRight, apart⟩ := nodup_node nodup
    obtain ⟨rounds, rfl, enoughLeft, _⟩ := rounds_node enough
    rw [leftmostEntry]
    simp only [here, Option.bind_eq_bind, Option.bind_some, liveEntry]
    cases left with
    | nil =>
      refine ⟨own, _, rfl, by simp, here, rfl, ?_⟩
      intro after graft changed same grafted
      refine ⟨own, v, rfl, changed, grafted, storedRight.congr fun e mem => ?_⟩
      exact same e (by simp [mem]) fun h => notRight (h ▸ mem)
    | node _ next _ _ =>
      obtain ⟨child, w, rfl, _⟩ := id storedLeft
      obtain ⟨leftmost, fields, found, mem, at_, empty, grafts⟩ :=
        ihl storedLeft nodupLeft rfl enoughLeft
      refine ⟨leftmost, fields, found, ?_, at_, empty, ?_⟩
      · rw [entries_node]
        exact List.mem_append_left _ mem
      · intro after graft changed same grafted
        rw [entries_node, List.forall_mem_append, List.forall_mem_cons] at same
        obtain ⟨sameLeft, sameOwn, sameRight⟩ := same
        have ownSame := sameOwn fun h => notLeft (h ▸ mem)
        refine ⟨own, v, rfl, ownSame.trans here, grafts changed sameLeft grafted,
          storedRight.congr fun e inRight => ?_⟩
        exact sameRight e inRight fun h => apart (h ▸ mem) inRight

section Unlink
variable {side : Side} {parent entry : EntryRef} {above : StoredEntry α} {key : CString} {v : Option α}

/-- An entry with one reference, which its parent holds, and the subtrees below it. -/
structure Below (heap : EntryHeap α) (side : Side) (parent : EntryRef) (above : StoredEntry α)
    (entry : EntryRef) (layout : Layout α) : Prop where
  stored : heap.Stored 1 layout
  nodup : layout.entries.Nodup
  start : layout.link = some entry
  atParent : heap.memory parent = some above
  points : above.child side = some entry
  only : side = .right → above.leftEntry ≠ some entry
  outside : parent ∉ layout.entries
  known : ∀ e ∈ parent :: layout.entries, e < heap.allocated

theorem length_le_of_nodup {entries : List EntryRef} (nodup : entries.Nodup)
    (known : ∀ e ∈ entries, e < bound) : entries.length ≤ bound := by
  have fewer : entries.Subperm (List.range bound) :=
    List.subperm_of_subset nodup fun e mem => List.mem_range.mpr (known e mem)
  exact fewer.length_le.trans_eq List.length_range

/-- The parent's pointer is set to a child, of which there were two references. -/
theorem replaceEntry_below {child : Option EntryRef}
    (below : heap.Below side parent above entry (.node key (some (entry, v)) left right))
    (among : child = left.link ∨ child = right.link) :
    (heap.recount (one left.link + one right.link)).replaceEntry (some parent) entry child =
      some (((heap.recount (one child)).free entry).store parent (above.setChild side child)) := by
  obtain ⟨⟨_, _, same, here, storedLeft, storedRight⟩, nodup, _, atParent, points, only, outside, known⟩ :=
    below
  obtain ⟨rfl, rfl⟩ := Prod.mk.inj (Option.some.inj same)
  obtain ⟨_, _, notLeft, notRight, apart⟩ := nodup_node nodup
  rw [entries_node, List.mem_append, List.mem_cons, not_or, not_or] at outside
  obtain ⟨outLeft, different, outRight⟩ := outside
  have absent : ∀ {e} {tree : Layout α}, e ∉ tree.entries → tree.link ≠ some e :=
    fun out points => out (mem_entries_of_link points)
  have disjoint : ∀ e, left.link = some e → right.link ≠ some e := fun e inLeft inRight =>
    apart (mem_entries_of_link inLeft) (mem_entries_of_link inRight)
  have heldLeft : (heap.recount (one left.link + one right.link)).Held 2 left.link := by
    refine (storedLeft.recount _).held 2 fun e points => ?_
    simp [one, points, disjoint e points]
  have heldRight : (heap.recount (one left.link + one right.link)).Held 2 right.link := by
    refine (storedRight.recount _).held 2 fun e points => ?_
    have other : left.link ≠ some e := fun inLeft => disjoint e inLeft points
    simp [one, points, other]
  have unchanged : ∀ {e}, e ∉ left.entries → e ∉ right.entries →
      (heap.recount (one left.link + one right.link)).memory e = heap.memory e := by
    intro e outLeft outRight
    refine recount_same heap _ ?_
    simp [one_of_ne (absent outLeft), one_of_ne (absent outRight)]
  have neither : ∀ {e}, e ∉ left.entries → e ∉ right.entries →
      ∀ link ∈ [left.link, right.link, child], link ≠ some e := by
    intro e outLeft outRight link mem
    have either : link = left.link ∨ link = right.link := by
      simp only [List.mem_cons, List.not_mem_nil, or_false] at mem
      rcases mem with isLeft | isRight | rfl
      · exact .inl isLeft
      · exact .inr isRight
      · exact among
    rcases either with rfl | rfl
    · exact absent outLeft
    · exact absent outRight
  have replaceable : (heap.recount (one left.link + one right.link)).Replaceable side parent entry above
      (liveEntry key v 1 left right) child :=
    { atParent := (unchanged outLeft outRight).trans atParent
      points
      atEntry := (unchanged notLeft notRight).trans here
      object := rfl
      count := rfl
      apart := ⟨absent notLeft, absent notRight, disjoint⟩
      left := heldLeft
      right := heldRight
      held := by
        rcases among with rfl | rfl
        · exact heldLeft
        · exact heldRight
      others := fun link mem => ⟨neither notLeft notRight link mem, neither outLeft outRight link mem⟩
      different }
  have positive : 0 < heap.allocated := (Nat.zero_le _).trans_lt (known parent List.mem_cons_self)
  rw [replaceEntry_spec replaceable only positive, recount_recount]
  congr 4
  simp only [liveEntry]
  abel

/-- What is left of an entry that is unlinked: its subtrees as one. -/
structure Unlinked (heap after : EntryHeap α) (side : Side) (parent : EntryRef)
    (above : StoredEntry α) (entry : EntryRef) (layout unlinked : Layout α) : Prop where
  allocated : after.allocated = heap.allocated
  atParent : after.memory parent = some (above.setChild side unlinked.link)
  gone : after.memory entry = none
  stored : after.Stored 1 unlinked
  same : ∀ e, e ≠ parent → e ∉ layout.entries → after.memory e = heap.memory e

/-- A subtree of the entry is apart from it and from the parent. -/
structure Separate (heap : EntryHeap α) (parent entry : EntryRef) (kept : Layout α) : Prop where
  stored : heap.Stored 1 kept
  nodup : kept.entries.Nodup
  notParent : parent ∉ kept.entries
  notEntry : entry ∉ kept.entries

theorem Below.subtrees
    (below : heap.Below side parent above entry (.node key (some (entry, v)) left right)) :
    heap.Separate parent entry left ∧ heap.Separate parent entry right ∧ left.entries.Disjoint right.entries ∧
      parent ≠ entry := by
  obtain ⟨_, _, same, here, storedLeft, storedRight⟩ := below.stored
  obtain ⟨nodupLeft, nodupRight, notLeft, notRight, apart⟩ := nodup_node below.nodup
  have outside := below.outside
  rw [entries_node, List.mem_append, List.mem_cons, not_or, not_or] at outside
  obtain ⟨outLeft, different, outRight⟩ := outside
  exact ⟨⟨storedLeft, nodupLeft, outLeft, notLeft⟩, ⟨storedRight, nodupRight, outRight, notRight⟩, apart,
    different⟩

/-- The memory with the entry gone and its place taken. -/
def bypassed (heap : EntryHeap α) (side : Side) (parent : EntryRef) (above : StoredEntry α)
    (entry : EntryRef) (child : Option EntryRef) : EntryHeap α :=
  (heap.free entry).store parent (above.setChild side child)

theorem bypassed_other {child : Option EntryRef} (notParent : e ≠ parent) (notEntry : e ≠ entry) :
    (heap.bypassed side parent above entry child).memory e = heap.memory e :=
  (store_other _ _ notParent).trans (free_other _ notEntry)

theorem Separate.bypassed {child : Option EntryRef} (apart : heap.Separate parent entry layout) :
    (heap.bypassed side parent above entry child).Stored 1 layout :=
  apart.stored.congr fun _ mem =>
    bypassed_other (fun same => apart.notParent (same ▸ mem)) fun same => apart.notEntry (same ▸ mem)

/-- The memory as `replaceEntry_below` leaves it, still with a reference too many. -/
theorem bypassed_recount {child : Option EntryRef} (other : child ≠ some parent) :
    ((heap.recount (one child)).free entry).store parent (above.setChild side child) =
      (heap.bypassed side parent above entry child).recount (one child) := by
  simp [EntryHeap.bypassed, one_of_ne other]

/-- The parent points past the entry. -/
theorem Below.bypass {kept : Layout α}
    (below : heap.Below side parent above entry (.node key (some (entry, v)) left right))
    (apart : heap.Separate parent entry kept) :
    heap.Unlinked (heap.bypassed side parent above entry kept.link) side parent above entry
      (.node key (some (entry, v)) left right) kept where
  allocated := rfl
  atParent := store_self _ _ _
  gone := (store_other _ _ (Ne.symm below.subtrees.2.2.2)).trans (free_self _ _)
  stored := apart.bypassed
  same e notParent out := bypassed_other notParent fun same => out (by simp [same])

/-- One subtree takes the place of the entry. -/
theorem Below.bypass_one {kept : Layout α}
    (below : heap.Below side parent above entry (.node key (some (entry, v)) left right))
    (apart : heap.Separate parent entry kept) (among : kept = left ∨ kept = right)
    (single : one left.link + one right.link = one kept.link) :
    (do
      let heap ← heap.retain kept.link
      let heap ← heap.replaceEntry (some parent) entry kept.link
      heap.release kept.link) = some (heap.bypassed side parent above entry kept.link) := by
  have other : kept.link ≠ some parent := fun points => apart.notParent (mem_entries_of_link points)
  have retained := apart.stored.retain 0 fun _ => le_rfl
  have replaced := replaceEntry_below below (among.imp (congrArg link) (congrArg link))
  rw [single, bypassed_recount other] at replaced
  have stored : (heap.bypassed side parent above entry kept.link).Stored 1 kept := apart.bypassed
  have released := stored.release 0 fun _ => le_rfl
  rw [zero_add, recount_zero] at retained released
  simp only [retained, Option.bind_eq_bind, Option.bind_some, replaced, released]

/-- Counts do not matter to the walk. -/
theorem leftmostEntry_recount (heap : EntryHeap α) (more : EntryRef → Int) (rounds : Nat)
    (start : EntryRef) : (heap.recount more).leftmostEntry rounds start = heap.leftmostEntry rounds start := by
  induction rounds generalizing start with
  | zero => rfl
  | succ rounds ih =>
    simp only [leftmostEntry, recount_memory]
    cases heap.memory start with
    | none => rfl
    | some fields =>
      simp only [Option.map_some, Option.bind_eq_bind, Option.bind_some, StoredEntry.counted, ih]

/-- The subtree on the right takes the place of the entry, with the one on the left grafted. -/
theorem Below.graft {a b : EntryRef}
    (below : heap.Below side parent above entry (.node key (some (entry, v)) left right))
    (toLeft : left.link = some a) (toRight : right.link = some b)
    (grafted : link (setLeftmostEntry right left) = some b) :
    ∃ after, (do
        let heap ← heap.retain (some a)
        let heap ← heap.retain (some b)
        let heap ← heap.replaceEntry (some parent) entry (some b)
        let leftmost ← heap.leftmostEntry heap.allocated b
        let heap ← heap.dictionaryEntrySetLeftEntry leftmost (some a)
        let heap ← heap.release (some a)
        heap.release (some b)) = some after ∧
      heap.Unlinked after side parent above entry (.node key (some (entry, v)) left right)
        (setLeftmostEntry right left) := by
  obtain ⟨apartLeft, apartRight, disjoint, different⟩ := below.subtrees
  have length : right.entries.length ≤ heap.allocated := by
    refine length_le_of_nodup apartRight.nodup fun e mem => below.known e ?_
    simp [mem]
  have retainedLeft := retain_spec (apartLeft.stored.held 1 fun _ _ => le_rfl)
  have retainedRight := apartRight.stored.retain _ (one_nonneg left.link)
  have replaced := replaceEntry_below below (.inr rfl)
  have other : right.link ≠ some parent := fun points =>
    apartRight.notParent (mem_entries_of_link points)
  rw [bypassed_recount other] at replaced
  have storedLeft : (heap.bypassed side parent above entry right.link).Stored 1 left := apartLeft.bypassed
  have storedRight : (heap.bypassed side parent above entry right.link).Stored 1 right := apartRight.bypassed
  obtain ⟨leftmost, fields, walked, mem, found, empty, grafts⟩ :=
    leftmostEntry_spec storedRight apartRight.nodup toRight
      (show _ ≤ (heap.bypassed side parent above entry right.link).allocated from length)
  have notLeft : leftmost ∉ left.entries := fun inLeft => disjoint inLeft mem
  have apart : left.link ≠ some leftmost := fun points => notLeft (mem_entries_of_link points)
  -- The memory that is left, which has two references more until both are released.
  let final := (heap.bypassed side parent above entry right.link).store leftmost
    (fields.setChild .left left.link)
  have finalLeft : final.Stored 1 left :=
    storedLeft.congr fun e inLeft => store_other _ _ fun same => notLeft (same ▸ inLeft)
  have finalBoth : final.Stored 1 (setLeftmostEntry right left) :=
    grafts (store_self _ _ _) (fun e _ other => store_other _ _ other) finalLeft
  have set := setChildEntry_empty .left (recount_some _ (one right.link) found) empty
    ((storedLeft.recount _).held 1 fun e _ => le_add_of_nonneg_right (one_nonneg right.link e)) apart
  have counted : ((heap.bypassed side parent above entry right.link).recount (one right.link + one left.link)).store
      leftmost ((fields.counted (one right.link leftmost)).setChild .left left.link) =
        final.recount (one right.link + one left.link) := by
    simp [final, StoredEntry.counted_setChild, one_of_ne apart]
  rw [recount_recount, counted] at set
  have releasedLeft := finalLeft.release _ (one_nonneg right.link)
  have releasedRight := finalBoth.release 0 fun _ => le_rfl
  rw [grafted, ← toRight, zero_add, recount_zero] at releasedRight
  rw [← toLeft, ← toRight]
  refine ⟨final, ?_, rfl, ?_, ?_, finalBoth, ?_⟩
  · simp only [retainedLeft, Option.bind_eq_bind, Option.bind_some, retainedRight, replaced, leftmostEntry_recount, recount_allocated, walked, dictionaryEntrySetLeftEntry, set,
      releasedLeft, releasedRight]
  · rw [grafted, ← toRight]
    have notLeftmost : parent ≠ leftmost := fun same => apartRight.notParent (same ▸ mem)
    exact (store_other _ _ notLeftmost).trans (store_self _ _ _)
  · have notLeftmost : entry ≠ leftmost := fun same => apartRight.notEntry (same ▸ mem)
    exact (store_other _ _ notLeftmost).trans (below.bypass apartRight).gone
  · intro e notParent out
    have notLeftmost : e ≠ leftmost := fun same => out (by simp [same, mem])
    exact (store_other _ _ notLeftmost).trans ((below.bypass apartRight).same e notParent out)

theorem unlinkEntry_spec
    (below : heap.Below side parent above entry (.node key (some (entry, v)) left right)) :
    ∃ after, heap.unlinkEntry (some parent) entry = some after ∧
      heap.Unlinked after side parent above entry (.node key (some (entry, v)) left right)
        (entryUnlink left right) := by
  obtain ⟨apartLeft, apartRight, _⟩ := below.subtrees
  obtain ⟨_, _, same, here, storedLeft, storedRight⟩ := below.stored
  obtain ⟨rfl, rfl⟩ := Prod.mk.inj (Option.some.inj same)
  rw [unlinkEntry]
  simp only [here, Option.bind_eq_bind, Option.bind_some, liveEntry]
  cases left with
  | nil =>
    cases right with
    | nil =>
      have replaced := replaceEntry_below below (.inl rfl)
      simp only [link_nil, one_none, add_zero, recount_zero] at replaced
      exact ⟨heap.bypassed side parent above entry none, replaced, below.bypass apartLeft⟩
    | node _ next _ _ =>
      obtain ⟨child, w, rfl, _⟩ := id storedRight
      exact ⟨_, below.bypass_one apartRight (.inr rfl) (by simp), below.bypass apartRight⟩
  | node _ next _ _ =>
    obtain ⟨child, w, rfl, _⟩ := id storedLeft
    cases right with
    | nil => exact ⟨_, below.bypass_one apartLeft (.inl rfl) (by simp), below.bypass apartLeft⟩
    | node _ next _ _ =>
      obtain ⟨other, u, rfl, _⟩ := id storedRight
      exact below.graft rfl rfl rfl

/-- What a call makes of the layout below a parent. At most one entry is new. -/
structure Rewritten (heap after : EntryHeap α) (side : Side) (parent : EntryRef)
    (above : StoredEntry α) (layout result : Layout α) : Prop where
  atParent : after.memory parent = some (above.setChild side result.link)
  stored : after.Stored 1 result
  nodup : result.entries.Nodup
  known : ∀ e ∈ result.entries, e ∈ layout.entries ∨ e = heap.allocated
  allocated : after.allocated = heap.allocated + if heap.allocated ∈ result.entries then 1 else 0
  gone : ∀ e ∈ layout.entries, e ∉ result.entries → after.memory e = none
  same : ∀ e, e ≠ parent → e ∉ layout.entries → e ∉ result.entries → after.memory e = heap.memory e

theorem Rewritten.grown {result : Layout α}
    (rewritten : heap.Rewritten after side parent above layout result) :
    heap.allocated ≤ after.allocated := by
  rw [rewritten.allocated]
  exact Nat.le_add_right _ _

theorem entries_entryUnlink (left right : Layout α) :
    entries (entryUnlink left right) = left.entries ++ right.entries := by
  simp only [entries, refs, walk_entryUnlink, List.filterMap_append]

theorem Below.unlinked_rewritten
    (below : heap.Below side parent above entry (.node key (some (entry, v)) left right))
    (unlinked : heap.Unlinked after side parent above entry (.node key (some (entry, v)) left right)
      (entryUnlink left right)) :
    heap.Rewritten after side parent above (.node key (some (entry, v)) left right)
      (entryUnlink left right) := by
  obtain ⟨apartLeft, apartRight, disjoint, different⟩ := below.subtrees
  have fewer : ∀ e ∈ entries (entryUnlink left right),
      e ∈ entries (.node key (some (entry, v)) left right) := by
    intro e mem
    rw [entries_entryUnlink, List.mem_append] at mem
    rw [entries_node, List.mem_append, List.mem_cons]
    exact mem.imp_right .inr
  have old : heap.allocated ∉ entries (entryUnlink left right) := fun mem =>
    Nat.lt_irrefl _ (below.known _ (List.mem_cons_of_mem _ (fewer _ mem)))
  refine ⟨unlinked.atParent, unlinked.stored, ?_, fun e mem => .inl (fewer e mem), ?_, ?_,
    fun e notParent out _ => unlinked.same e notParent out⟩
  · rw [entries_entryUnlink]
    exact apartLeft.nodup.append apartRight.nodup disjoint
  · rw [if_neg old]
    exact unlinked.allocated
  · intro e mem out
    rw [entries_entryUnlink, List.mem_append, not_or] at out
    rw [entries_node, List.mem_append, List.mem_cons] at mem
    have same : e = entry := by
      rcases mem with inLeft | same | inRight
      · exact absurd inLeft out.1
      · exact same
      · exact absurd inRight out.2
    exact same ▸ unlinked.gone

theorem setChild_same {fields : StoredEntry α} (points : fields.child side = some entry) :
    fields.setChild side (some entry) = fields := by
  cases side <;> (cases fields; cases points; rfl)

end Unlink

section Subtree
variable {side : Side} {parent entry : EntryRef} {above : StoredEntry α} {key : CString} {v : Option α}

def subtree (side : Side) (left right : Layout α) : Layout α :=
  match side with
  | .left => left
  | .right => right

def sibling (side : Side) (left right : Layout α) : Layout α :=
  match side with
  | .left => right
  | .right => left

/-- The tree with another subtree on this side. -/
def withSubtree (side : Side) (key : CString) (entry : EntryRef) (v : Option α)
    (left right new : Layout α) : Layout α :=
  match side with
  | .left => .node key (some (entry, v)) new right
  | .right => .node key (some (entry, v)) left new

theorem mem_entries_withSubtree (side : Side) {new : Layout α} :
    e ∈ (withSubtree side key entry v left right new).entries ↔
      e ∈ new.entries ∨ e = entry ∨ e ∈ (sibling side left right).entries := by
  cases side with
  | left => simp [withSubtree, sibling]
  | right =>
    simp only [withSubtree, sibling, entries_node, List.mem_append, List.mem_cons]
    rw [or_comm, or_assoc, or_left_comm]

theorem nodup_withSubtree (side : Side) {new : Layout α} (nodup : new.entries.Nodup)
    (other : (sibling side left right).entries.Nodup) (fresh : entry ∉ new.entries)
    (notSibling : entry ∉ (sibling side left right).entries)
    (disjoint : new.entries.Disjoint (sibling side left right).entries) :
    (withSubtree side key entry v left right new).entries.Nodup := by
  cases side with
  | left =>
    simp only [withSubtree, entries_node]
    refine List.nodup_middle.mpr (List.nodup_cons.mpr ⟨?_, nodup.append other disjoint⟩)
    exact fun mem => (List.mem_append.mp mem).elim fresh notSibling
  | right =>
    simp only [withSubtree, entries_node]
    refine List.nodup_middle.mpr (List.nodup_cons.mpr ⟨?_, other.append nodup disjoint.symm⟩)
    exact fun mem => (List.mem_append.mp mem).elim notSibling fresh

theorem withSubtree_self (side : Side) :
    withSubtree side key entry v left right (subtree side left right) =
      .node key (some (entry, v)) left right := by
  cases side <;> rfl

/-- Nothing is lost with a subtree that loses nothing. -/
theorem subset_withSubtree (side : Side) {new : Layout α}
    (kept : (subtree side left right).entries ⊆ new.entries) :
    entries (.node key (some (entry, v)) left right) ⊆
      (withSubtree side key entry v left right new).entries := by
  rw [← withSubtree_self side]
  intro e mem
  exact (mem_entries_withSubtree side).mpr
    (((mem_entries_withSubtree side).mp mem).imp_left fun inside => kept inside)

/-- The subtree of an entry was rewritten, so that the tree at the entry was. -/
theorem Below.rewritten {inner : Side} {new : Layout α}
    (below : heap.Below side parent above entry (.node key (some (entry, v)) left right))
    (rewritten : heap.Rewritten after inner entry (liveEntry key v 1 left right)
      (subtree inner left right) new) :
    heap.Rewritten after side parent above (.node key (some (entry, v)) left right)
      (withSubtree inner key entry v left right new) := by
  obtain ⟨apartLeft, apartRight, disjoint, different⟩ := below.subtrees
  have apart : heap.Separate parent entry (subtree inner left right) := by cases inner <;> assumption
  have other : heap.Separate parent entry (sibling inner left right) := by cases inner <;> assumption
  have sides : (subtree inner left right).entries.Disjoint (sibling inner left right).entries := by
    cases inner
    · exact disjoint
    · exact disjoint.symm
  have whole : ∀ {e}, e ∈ entries (.node key (some (entry, v)) left right) ↔
      e ∈ (subtree inner left right).entries ∨ e = entry ∨ e ∈ (sibling inner left right).entries := by
    intro e
    rw [← withSubtree_self inner]
    exact mem_entries_withSubtree inner
  have old : ∀ {e}, e ∈ parent :: entries (.node key (some (entry, v)) left right) →
      e ∉ (subtree inner left right).entries → e ∉ new.entries := by
    intro e mem out inNew
    rcases rewritten.known e inNew with inside | fresh
    · exact out inside
    · exact Nat.ne_of_lt (below.known e mem) fresh
  have notNew : entry ∉ new.entries :=
    old (List.mem_cons_of_mem _ (whole.mpr (.inr (.inl rfl)))) apart.notEntry
  have siblingOld : ∀ e ∈ (sibling inner left right).entries, e ∉ new.entries := fun e mem =>
    old (List.mem_cons_of_mem _ (whole.mpr (.inr (.inr mem)))) fun inside => sides inside mem
  have storedSibling : after.Stored 1 (sibling inner left right) := other.stored.congr fun e mem =>
    rewritten.same e (fun same => other.notEntry (same ▸ mem)) (fun inside => sides inside mem)
      (siblingOld e mem)
  refine ⟨?_, ?_, ?_, ?_, ?_, ?_, ?_⟩
  · have link : (withSubtree inner key entry v left right new).link = some entry := by
      cases inner <;> rfl
    rw [link, setChild_same below.points, rewritten.same parent different apart.notParent
      (old List.mem_cons_self apart.notParent)]
    exact below.atParent
  · cases inner
    · exact ⟨entry, v, rfl, rewritten.atParent, rewritten.stored, storedSibling⟩
    · exact ⟨entry, v, rfl, rewritten.atParent, storedSibling, rewritten.stored⟩
  · exact nodup_withSubtree inner rewritten.nodup other.nodup notNew other.notEntry
      fun e inNew mem => siblingOld e mem inNew
  · intro e mem
    rcases (mem_entries_withSubtree inner).mp mem with inNew | same | inSibling
    · exact (rewritten.known e inNew).imp_left fun inside => whole.mpr (.inl inside)
    · exact .inl (whole.mpr (.inr (.inl same)))
    · exact .inl (whole.mpr (.inr (.inr inSibling)))
  · have only : heap.allocated ∈ (withSubtree inner key entry v left right new).entries ↔
        heap.allocated ∈ new.entries := by
      refine (mem_entries_withSubtree inner).trans (or_iff_left ?_)
      intro known
      exact Nat.lt_irrefl _ (below.known _ (List.mem_cons_of_mem _ (whole.mpr (.inr known))))
    simp only [only]
    exact rewritten.allocated
  · intro e mem out
    rw [mem_entries_withSubtree, not_or] at out
    rcases whole.mp mem with inside | known
    · exact rewritten.gone e inside out.1
    · exact absurd known out.2
  · intro e _ outside out
    rw [mem_entries_withSubtree, not_or] at out
    exact rewritten.same e (fun same => out.2 (.inl same)) (fun inside => outside (whole.mpr (.inl inside))) out.1

theorem Below.unchanged (below : heap.Below side parent above entry layout) :
    heap.Rewritten heap side parent above layout layout where
  atParent := by
    rw [below.start, setChild_same below.points]
    exact below.atParent
  stored := below.stored
  nodup := below.nodup
  known e mem := .inl mem
  allocated := by
    rw [if_neg fun mem => Nat.lt_irrefl _ (below.known _ (List.mem_cons_of_mem _ mem))]
    rfl
  gone e mem out := absurd mem out
  same e _ _ _ := rfl

/-- The next round of a search is below the entry. -/
theorem Below.next {child : EntryRef}
    (below : heap.Below side parent above entry (.node key (some (entry, v)) left right))
    (inner : Side) (points : (subtree inner left right).link = some child) :
    heap.Below inner entry (liveEntry key v 1 left right) child (subtree inner left right) := by
  obtain ⟨apartLeft, apartRight, disjoint, different⟩ := below.subtrees
  obtain ⟨_, _, same, here, _⟩ := below.stored
  obtain ⟨rfl, rfl⟩ := Prod.mk.inj (Option.some.inj same)
  have apart : heap.Separate parent entry (subtree inner left right) := by cases inner <;> assumption
  have inside : ∀ e ∈ entry :: (subtree inner left right).entries,
      e ∈ entries (.node key (some (entry, v)) left right) := by
    rw [← withSubtree_self inner]
    intro e mem
    refine (mem_entries_withSubtree inner).mpr ?_
    rcases List.mem_cons.mp mem with same | mem
    · exact .inr (.inl same)
    · exact .inl mem
  refine ⟨apart.stored, apart.nodup, points, here, ?_, ?_, apart.notEntry, ?_⟩
  · cases inner <;> exact points
  · rintro rfl inLeft
    exact disjoint (mem_entries_of_link inLeft) (mem_entries_of_link points)
  · exact fun e mem => below.known e (List.mem_cons_of_mem _ (inside e mem))

end Subtree

section Loop
variable {side : Side} {parent entry : EntryRef} {above : StoredEntry α}

theorem removeFrom_spec {rounds : Nat} (key : CString)
    (below : heap.Below side parent above entry layout) (enough : layout.entries.length ≤ rounds) :
    ∃ after, removeFrom key rounds heap (some parent) entry = some after ∧
      heap.Rewritten after side parent above layout (entryRemove layout key) := by
  induction layout generalizing side parent above entry rounds with
  | nil => cases below.start
  | node own value left right ihl ihr =>
    obtain ⟨_, v, rfl, here, _⟩ := below.stored
    obtain rfl := Option.some.inj below.start
    obtain ⟨rounds, rfl, enoughLeft, enoughRight⟩ := rounds_node enough
    rw [removeFrom]
    simp only [here, Option.bind_eq_bind, Option.bind_some, liveEntry, entryRemove]
    split
    · obtain ⟨after, unlinked, result⟩ := unlinkEntry_spec below
      exact ⟨after, unlinked, below.unlinked_rewritten result⟩
    · split
      · cases left with
        | nil => exact ⟨heap, rfl, below.unchanged⟩
        | node _ _ _ _ =>
          obtain ⟨child, w, rfl, _⟩ := id below.subtrees.1.stored
          obtain ⟨after, removed, result⟩ := ihl (below.next .left rfl) enoughLeft
          exact ⟨after, removed, below.rewritten result⟩
      · cases right with
        | nil => exact ⟨heap, rfl, below.unchanged⟩
        | node _ _ _ _ =>
          obtain ⟨child, w, rfl, _⟩ := id below.subtrees.2.1.stored
          obtain ⟨after, removed, result⟩ := ihr (below.next .right rfl) enoughRight
          exact ⟨after, removed, below.rewritten result⟩

/-- A new entry takes the place of a missing child. -/
theorem addChildEntry_spec {own key : CString} {v : Option α} (inner : Side) (value : Option α)
    (atEntry : heap.memory entry = some (liveEntry own v 1 left right))
    (empty : (subtree inner left right).link = none) (known : entry < heap.allocated) :
    ∃ after, addChildEntry inner heap entry key value = some after ∧
      heap.Rewritten after inner entry (liveEntry own v 1 left right) .nil
        (.node key (some (heap.allocated, value)) .nil .nil) := by
  let created := (heap.dictionaryEntryCreate key value).2
  let final := created.store entry ((liveEntry own v 1 left right).setChild inner (some heap.allocated))
  have old : ∀ {e}, e ≠ heap.allocated → created.memory e = heap.memory e :=
    fun other => store_other heap _ other
  have fresh : entry ≠ heap.allocated := Nat.ne_of_lt known
  have storedNew : created.Stored 1 (.node key (some (heap.allocated, value)) .nil .nil) :=
    ⟨heap.allocated, value, rfl, store_self heap _ _, trivial, trivial⟩
  have storedFinal : final.Stored 1 (.node key (some (heap.allocated, value)) .nil .nil) :=
    storedNew.congr fun e mem => store_other created _ fun same => fresh (by simpa [same] using mem)
  have missing : (liveEntry own v 1 left right).child inner = none := by cases inner <;> exact empty
  have notSelf : some heap.allocated ≠ some entry := fun same => fresh (Option.some.inj same).symm
  have set := setChildEntry_empty inner ((old fresh).trans atEntry) missing
    (storedNew.held 1 fun _ _ => le_rfl) notSelf
  have counted : (created.recount (one (some heap.allocated))).store entry
      ((liveEntry own v 1 left right).setChild inner (some heap.allocated)) =
        final.recount (one (some heap.allocated)) := by
    simp [final, one_of_ne notSelf]
  have released := storedFinal.release 0 fun _ => le_rfl
  rw [link_node, zero_add, recount_zero] at released
  refine ⟨final, ?_, store_self _ _ _, storedFinal, List.nodup_singleton _, ?_, ?_, ?_, ?_⟩
  · change (setChildEntry inner created entry (some heap.allocated)).bind
      (fun heap' => heap'.release (some heap.allocated)) = some final
    rw [link_node, counted] at set
    rw [set, Option.bind_some, released]
  · intro e mem
    exact .inr (List.mem_singleton.mp mem)
  · rw [if_pos (by simp)]
    rfl
  · exact fun e mem => absurd mem List.not_mem_nil
  · intro e notEntry _ out
    exact (store_other _ _ notEntry).trans (old fun same => out (List.mem_singleton.mpr same))

/-- An entry that is found gets the value, and no other changes. -/
theorem Below.store_value {own : CString} {v : Option α} (value : Option α)
    (below : heap.Below side parent above entry (.node own (some (entry, v)) left right)) :
    heap.Rewritten (heap.store entry (liveEntry own value 1 left right)) side parent above
      (.node own (some (entry, v)) left right) (.node own (some (entry, value)) left right) := by
  obtain ⟨apartLeft, apartRight, disjoint, different⟩ := below.subtrees
  have unchanged := below.unchanged
  have same : entries (.node own (some (entry, value)) left right) =
      entries (.node own (some (entry, v)) left right) := by simp only [entries_node]
  refine ⟨?_, ⟨entry, value, rfl, store_self _ _ _, ?_, ?_⟩, same ▸ unchanged.nodup,
    same ▸ unchanged.known, same ▸ unchanged.allocated,
    fun e mem out => absurd (same ▸ mem) out, ?_⟩
  · exact (store_other _ _ different).trans unchanged.atParent
  · exact apartLeft.stored.congr fun e mem => store_other _ _ fun same => apartLeft.notEntry (same ▸ mem)
  · exact apartRight.stored.congr fun e mem => store_other _ _ fun same => apartRight.notEntry (same ▸ mem)
  · intro e _ out _
    exact store_other _ _ fun same => out (by simp [same])

theorem setFrom_spec {rounds : Nat} (key : CString) (value : Option α)
    (below : heap.Below side parent above entry layout) (enough : layout.entries.length ≤ rounds) :
    ∃ after ref, setFrom key value rounds heap entry = some after ∧
      heap.Rewritten after side parent above layout (entrySet layout key (some (ref, value))) ∧
      layout.entries ⊆ entries (entrySet layout key (some (ref, value))) := by
  induction layout generalizing side parent above entry rounds with
  | nil => cases below.start
  | node own found left right ihl ihr =>
    obtain ⟨node, v, rfl, here, _⟩ := below.stored
    obtain rfl := Option.some.inj below.start
    obtain ⟨rounds, rfl, enoughLeft, enoughRight⟩ := rounds_node enough
    have known : node < heap.allocated := below.known _ (by simp)
    rw [setFrom]
    simp only [here, Option.bind_eq_bind, Option.bind_some, liveEntry, entrySet]
    split
    · refine ⟨_, node, rfl, below.store_value value, ?_⟩
      simp only [entries_node]
      exact List.Subset.refl _
    · split
      · cases left with
        | nil =>
          obtain ⟨after, added, result⟩ := addChildEntry_spec .left value here rfl known
          exact ⟨after, _, added, below.rewritten result, subset_withSubtree .left (List.nil_subset _)⟩
        | node _ _ _ _ =>
          obtain ⟨child, w, rfl, _⟩ := id below.subtrees.1.stored
          obtain ⟨after, ref, set, result, kept⟩ := ihl (below.next .left rfl) enoughLeft
          exact ⟨after, ref, set, below.rewritten result, subset_withSubtree .left kept⟩
      · cases right with
        | nil =>
          obtain ⟨after, added, result⟩ := addChildEntry_spec .right value here rfl known
          exact ⟨after, _, added, below.rewritten result, subset_withSubtree .right (List.nil_subset _)⟩
        | node _ _ _ _ =>
          obtain ⟨child, w, rfl, _⟩ := id below.subtrees.2.1.stored
          obtain ⟨after, ref, set, result, kept⟩ := ihr (below.next .right rfl) enoughRight
          exact ⟨after, ref, set, below.rewritten result, subset_withSubtree .right kept⟩

end Loop
end EntryHeap
end KommunikationNetze.Utils
