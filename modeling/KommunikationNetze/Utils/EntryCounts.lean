import KommunikationNetze.Utils.EntryHeap
import Mathlib.Algebra.Group.Pi.Basic

/-! What `Retain`, `Release` and the link setters do to entries in memory. Retain counts are
changed by functions that add up, so that what a call retains and releases cancels out. -/
namespace KommunikationNetze.Utils
open CLib LinkedTree
variable {α : Type}

/-- One reference through this pointer. -/
def one (link : Option EntryRef) : EntryRef → Int := fun entry => if link = some entry then 1 else 0

@[simp] theorem one_none : one none = 0 := rfl

theorem one_self (entry : EntryRef) : one (some entry) entry = 1 := if_pos rfl

theorem one_of_ne {link : Option EntryRef} (different : link ≠ some entry) : one link entry = 0 :=
  if_neg different

theorem one_nonneg (link : Option EntryRef) (entry : EntryRef) : 0 ≤ one link entry := by
  rw [one]
  split <;> omega

namespace StoredEntry

def counted (more : Int) (fields : StoredEntry α) : StoredEntry α :=
  { fields with retainCount := fields.retainCount + more }

@[simp] theorem counted_zero (fields : StoredEntry α) : fields.counted 0 = fields := by
  simp [counted]

theorem counted_counted (m n : Int) (fields : StoredEntry α) :
    (fields.counted m).counted n = fields.counted (m + n) := by
  simp [counted, Int.add_assoc]

theorem counted_setChild (more : Int) (side : Side) (child : Option EntryRef) (fields : StoredEntry α) :
    (fields.setChild side child).counted more = (fields.counted more).setChild side child := by
  cases side <;> rfl

end StoredEntry

namespace EntryHeap

theorem eq_of_memory {heap other : EntryHeap α} (memory : ∀ e, heap.memory e = other.memory e)
    (allocated : heap.allocated = other.allocated) : heap = other := by
  cases heap
  cases other
  simp only [mk.injEq]
  exact ⟨funext memory, allocated⟩

@[simp] theorem store_allocated (heap : EntryHeap α) (entry : EntryRef) (fields : StoredEntry α) :
    (heap.store entry fields).allocated = heap.allocated := rfl

@[simp] theorem free_allocated (heap : EntryHeap α) (entry : EntryRef) :
    (heap.free entry).allocated = heap.allocated := rfl

@[simp] theorem store_self (heap : EntryHeap α) (entry : EntryRef) (fields : StoredEntry α) :
    (heap.store entry fields).memory entry = some fields := Function.update_self ..

theorem store_other (heap : EntryHeap α) (fields : StoredEntry α) (other : e ≠ entry) :
    (heap.store entry fields).memory e = heap.memory e := Function.update_of_ne other ..

@[simp] theorem free_self (heap : EntryHeap α) (entry : EntryRef) :
    (heap.free entry).memory entry = none := Function.update_self ..

theorem free_other (heap : EntryHeap α) (other : e ≠ entry) :
    (heap.free entry).memory e = heap.memory e := Function.update_of_ne other ..

theorem free_store (heap : EntryHeap α) (entry : EntryRef) (fields : StoredEntry α) :
    (heap.store entry fields).free entry = heap.free entry := by
  simp only [free, store, Function.update_idem]

/-- All retain counts changed at once. -/
def recount (heap : EntryHeap α) (more : EntryRef → Int) : EntryHeap α :=
  { heap with memory := fun entry => (heap.memory entry).map (StoredEntry.counted (more entry)) }

section Recount
variable (heap : EntryHeap α) (more other : EntryRef → Int)

@[simp] theorem recount_allocated : (heap.recount more).allocated = heap.allocated := rfl

@[simp] theorem recount_memory (entry : EntryRef) : (heap.recount more).memory entry =
    (heap.memory entry).map (StoredEntry.counted (more entry)) := rfl

theorem recount_some (found : heap.memory entry = some fields) :
    (heap.recount more).memory entry = some (fields.counted (more entry)) := by
  simp [found]

theorem recount_same (unchanged : more entry = 0) :
    (heap.recount more).memory entry = heap.memory entry := by
  cases found : heap.memory entry <;> simp [found, unchanged]

@[simp] theorem recount_zero : heap.recount 0 = heap :=
  eq_of_memory (fun _ => recount_same heap 0 rfl) rfl

@[simp] theorem recount_recount : (heap.recount more).recount other = heap.recount (more + other) := by
  refine eq_of_memory (fun e => ?_) rfl
  cases found : heap.memory e <;> simp [found, StoredEntry.counted_counted]

@[simp] theorem recount_free (entry : EntryRef) :
    (heap.free entry).recount more = (heap.recount more).free entry := by
  refine eq_of_memory (fun e => ?_) rfl
  by_cases same : e = entry
  · simp [same]
  · simp [free_other _ same]

@[simp] theorem recount_store (entry : EntryRef) (fields : StoredEntry α) :
    (heap.store entry fields).recount more =
      (heap.recount more).store entry (fields.counted (more entry)) := by
  refine eq_of_memory (fun e => ?_) rfl
  by_cases same : e = entry
  · simp [same]
  · simp [store_other _ _ same]

/-- Counts that change at one entry only. -/
theorem recount_at (found : heap.memory entry = some fields) (rest : ∀ e, e ≠ entry → more e = 0) :
    heap.recount more = heap.store entry (fields.counted (more entry)) := by
  refine eq_of_memory (fun e => ?_) rfl
  by_cases same : e = entry
  · simp [same, found]
  · rw [store_other _ _ same, recount_same heap more (rest e same)]

theorem recount_one (found : heap.memory entry = some fields) :
    heap.recount (one (some entry)) = heap.store entry (fields.counted 1) := by
  refine (recount_at heap _ found fun e other => ?_).trans (by rw [one_self])
  exact one_of_ne fun same => other (Option.some.inj same).symm

theorem recount_neg_one (found : heap.memory entry = some fields) :
    heap.recount (-one (some entry)) = heap.store entry (fields.counted (-1)) := by
  refine (recount_at heap _ found fun e other => ?_).trans (by rw [Pi.neg_apply, one_self])
  exact neg_eq_zero.mpr (one_of_ne fun same => other (Option.some.inj same).symm)

end Recount

/-- The entry behind the pointer, if there is one, is alive and has at least this count. -/
def Held (heap : EntryHeap α) (least : Int) (link : Option EntryRef) : Prop :=
  ∀ entry, link = some entry → ∃ fields, heap.memory entry = some fields ∧ fields.magic = .object ∧
    least ≤ fields.retainCount

variable {heap other : EntryHeap α} {link child : Option EntryRef} {entry parent : EntryRef}

theorem Held.recount (held : heap.Held least link)
    (enough : ∀ entry, link = some entry → fewer ≤ least + more entry) :
    (heap.recount more).Held fewer link := by
  intro entry same
  obtain ⟨fields, found, object, count⟩ := held entry same
  refine ⟨_, recount_some heap more found, object, ?_⟩
  have := enough entry same
  simp only [StoredEntry.counted]
  omega

theorem Held.congr (held : heap.Held least link)
    (same : ∀ entry, link = some entry → other.memory entry = heap.memory entry) :
    other.Held least link := by
  intro entry points
  rw [same entry points]
  exact held entry points

section Release

theorem retain_spec (held : heap.Held 1 link) : heap.retain link = some (heap.recount (one link)) := by
  cases link with
  | none => simp [retain]
  | some entry =>
    obtain ⟨fields, found, object, count⟩ := held entry rfl
    have positive : 1 < fields.retainCount + 1 := by omega
    simp only [retain, found, Option.bind_eq_bind, Option.bind_some, if_pos positive,
      recount_one heap found]
    rfl

/-- A release that does not drop the last reference. -/
theorem releaseWithin_shared (held : heap.Held 2 link) (levels : Nat) :
    releaseWithin (levels + 1) heap link = some (heap.recount (-one link)) := by
  cases link with
  | none => simp [releaseWithin]
  | some entry =>
    obtain ⟨fields, found, object, count⟩ := held entry rfl
    have alive : ¬(fields.magic ≠ .object ∨ fields.retainCount - 1 < 0) := by
      simp only [object, ne_eq, not_true, false_or]
      omega
    have shared : ¬fields.retainCount - 1 = 0 := by omega
    simp only [releaseWithin, found, Option.bind_eq_bind, Option.bind_some, if_neg alive, if_neg shared,
      recount_neg_one heap found]
    rfl

theorem release_shared (held : heap.Held 2 link) :
    heap.release link = some (heap.recount (-one link)) := releaseWithin_shared held _

/-- The children of an entry, which is neither, are two entries. -/
structure Apart (fields : StoredEntry α) (entry : EntryRef) : Prop where
  left : fields.leftEntry ≠ some entry
  right : fields.rightEntry ≠ some entry
  children : ∀ e, fields.leftEntry = some e → fields.rightEntry ≠ some e

/-- Both children lose a reference and the entry is gone. -/
theorem dictionaryEntryDealloc_spec (found : heap.memory entry = some fields)
    (left : heap.Held 2 fields.leftEntry) (right : heap.Held 2 fields.rightEntry)
    (apart : Apart fields entry) (levels : Nat) :
    dictionaryEntryDealloc (releaseWithin (levels + 1)) heap entry =
      some ((heap.recount (-one fields.leftEntry + -one fields.rightEntry)).free entry) := by
  have still : (heap.recount (-one fields.leftEntry)).memory entry = some fields := by
    rw [recount_same heap _ (neg_eq_zero.mpr (one_of_ne apart.left)), found]
  have shared : (heap.recount (-one fields.leftEntry)).Held 2 fields.rightEntry := by
    refine right.recount fun e points => ?_
    have other : one fields.leftEntry e = 0 := one_of_ne fun same => apart.children e same points
    simp [other]
  simp only [dictionaryEntryDealloc, found, Option.bind_eq_bind, Option.bind_some,
    releaseWithin_shared left levels, still, releaseWithin_shared shared levels, recount_recount]
  rfl

/-- The last reference to an entry whose children are held by others. -/
theorem release_last (found : heap.memory entry = some fields) (object : fields.magic = .object)
    (count : fields.retainCount = 1) (left : heap.Held 2 fields.leftEntry)
    (right : heap.Held 2 fields.rightEntry) (apart : Apart fields entry) (room : 0 < heap.allocated) :
    heap.release (some entry) =
      some ((heap.recount (-one fields.leftEntry + -one fields.rightEntry)).free entry) := by
  have alive : ¬(fields.magic ≠ .object ∨ fields.retainCount - 1 < 0) := by
    simp only [object, count, ne_eq, not_true, false_or]
    omega
  have last : fields.retainCount - 1 = 0 := by omega
  let zombie := { fields with magic := ObjectMagic.zombie, retainCount := fields.retainCount - 1 }
  have elsewhere : ∀ e, e ≠ entry → (heap.store entry zombie).memory e = heap.memory e :=
    fun e other => store_other heap zombie other
  obtain ⟨levels, enough⟩ := Nat.exists_eq_add_of_lt room
  have heldLeft : (heap.store entry zombie).Held 2 zombie.leftEntry :=
    left.congr fun e points => elsewhere e fun same => apart.left (same ▸ points)
  have heldRight : (heap.store entry zombie).Held 2 zombie.rightEntry :=
    right.congr fun e points => elsewhere e fun same => apart.right (same ▸ points)
  have dealloc := dictionaryEntryDealloc_spec (store_self ..) heldLeft heldRight
    ⟨apart.left, apart.right, apart.children⟩ levels
  rw [release, enough]
  simp only [Nat.zero_add, releaseWithin, found, Option.bind_eq_bind, Option.bind_some, if_neg alive,
    if_pos last]
  rw [recount_store, free_store] at dealloc
  exact dealloc

end Release

section SetChild
variable (side : Side)

/-- The pointer that is overwritten was NULL. -/
theorem setChildEntry_empty (found : heap.memory parent = some fields)
    (empty : fields.child side = none) (held : heap.Held 1 child) (notSelf : child ≠ some parent) :
    setChildEntry side heap parent child =
      some ((heap.recount (one child)).store parent (fields.setChild side child)) := by
  have nothing : heap.release none = some heap := by simp [release, releaseWithin]
  have still : (heap.recount (one child)).memory parent = some fields := by
    rw [recount_same heap _ (one_of_ne notSelf), found]
  simp only [setChildEntry, found, Option.bind_eq_bind, Option.bind_some, empty, nothing,
    retain_spec held, still]
  rfl

/-- An entry with one reference, that of its parent, whose children are held by others, and
what takes its place. -/
structure Replaceable (heap : EntryHeap α) (side : Side) (parent entry : EntryRef)
    (above fields : StoredEntry α) (child : Option EntryRef) : Prop where
  atParent : heap.memory parent = some above
  points : above.child side = some entry
  atEntry : heap.memory entry = some fields
  object : fields.magic = .object
  count : fields.retainCount = 1
  apart : Apart fields entry
  left : heap.Held 2 fields.leftEntry
  right : heap.Held 2 fields.rightEntry
  held : heap.Held 2 child
  others : ∀ link ∈ [fields.leftEntry, fields.rightEntry, child], link ≠ some entry ∧ link ≠ some parent
  different : parent ≠ entry

variable {side}

theorem setChildEntry_last (replaceable : heap.Replaceable side parent entry above fields child)
    (room : 0 < heap.allocated) :
    setChildEntry side heap parent child = some
      (((heap.recount (-one fields.leftEntry + -one fields.rightEntry + one child)).free entry).store
        parent (above.setChild side child)) := by
  obtain ⟨atParent, points, atEntry, object, count, apart, left, right, held, others, different⟩ :=
    replaceable
  obtain ⟨_, leftOther⟩ := others fields.leftEntry (by simp)
  obtain ⟨_, rightOther⟩ := others fields.rightEntry (by simp)
  obtain ⟨notEntry, childOther⟩ := others child (by simp)
  have released := release_last atEntry object count left right apart room
  have enough : ((heap.recount (-one fields.leftEntry + -one fields.rightEntry)).free entry).Held 1 child := by
    have still : (heap.recount (-one fields.leftEntry + -one fields.rightEntry)).Held 1 child := by
      refine held.recount fun e points => ?_
      by_cases isLeft : fields.leftEntry = some e
      · have notRight := apart.children e isLeft
        simp [one, isLeft, notRight]
      · by_cases isRight : fields.rightEntry = some e <;> simp [one, isLeft, isRight]
    exact still.congr fun e points => free_other _ fun same => notEntry (same ▸ points)
  have kept : ((heap.recount (-one fields.leftEntry + -one fields.rightEntry + one child)).free
      entry).memory parent = some above := by
    rw [free_other _ different, recount_same heap, atParent]
    simp [one_of_ne leftOther, one_of_ne rightOther, one_of_ne childOther]
  simp only [setChildEntry, atParent, Option.bind_eq_bind, Option.bind_some, points, released,
    retain_spec enough, recount_free, recount_recount, kept]
  rfl

theorem replaceEntry_spec (replaceable : heap.Replaceable side parent entry above fields child)
    (only : side = .right → above.leftEntry ≠ some entry) (room : 0 < heap.allocated) :
    heap.replaceEntry (some parent) entry child = some
      (((heap.recount (-one fields.leftEntry + -one fields.rightEntry + one child)).free entry).store
        parent (above.setChild side child)) := by
  have set := setChildEntry_last replaceable room
  simp only [replaceEntry, Option.bind_eq_bind, Option.bind_some, replaceable.atParent]
  cases side with
  | left => exact (if_pos replaceable.points).trans set
  | right => exact (if_neg (only rfl)).trans set

end SetChild
end EntryHeap
end KommunikationNetze.Utils
