import KommunikationNetze.Library.LinkedTree
import KommunikationNetze.Utils.DictionaryMap
import Mathlib.Logic.Function.Basic

/-! The entries of the chat dictionary as objects in memory, with their retain counts. A
failed assertion and an access to memory that was freed leave no state. Loops and the
recursion of `Release` go at most as deep as there are entries. -/
namespace KommunikationNetze.Utils
open CLib LinkedTree

/-- A pointer to an entry. -/
abbrev EntryRef := Nat

/-- `kObjectMagic` and `kZombieObjectMagic`. -/
inductive ObjectMagic where
  | object
  | zombie
  deriving DecidableEq

structure StoredEntry (α : Type) where
  magic : ObjectMagic
  retainCount : Int
  key : CString
  value : Option α
  leftEntry : Option EntryRef
  rightEntry : Option EntryRef

/-- What was never allocated and what was freed is no entry. -/
structure EntryHeap (α : Type) where
  memory : EntryRef → Option (StoredEntry α)
  allocated : Nat

variable {α : Type}

namespace StoredEntry

def child (side : Side) (entry : StoredEntry α) : Option EntryRef :=
  match side with
  | .left => entry.leftEntry
  | .right => entry.rightEntry

def setChild (side : Side) (child : Option EntryRef) (entry : StoredEntry α) : StoredEntry α :=
  match side with
  | .left => { entry with leftEntry := child }
  | .right => { entry with rightEntry := child }

end StoredEntry

namespace EntryHeap

def store (heap : EntryHeap α) (entry : EntryRef) (fields : StoredEntry α) : EntryHeap α :=
  { heap with memory := Function.update heap.memory entry (some fields) }

def free (heap : EntryHeap α) (entry : EntryRef) : EntryHeap α :=
  { heap with memory := Function.update heap.memory entry none }

/-- `_Retain`. -/
def retain (heap : EntryHeap α) : Option EntryRef → Option (EntryHeap α)
  | none => some heap
  | some obj => do
    let fields ← heap.memory obj
    let rc := fields.retainCount + 1
    if 1 < rc then some (heap.store obj { fields with retainCount := rc }) else none

/-- `DictionaryEntryDealloc`, with the `Release` it calls. -/
def dictionaryEntryDealloc (release : EntryHeap α → Option EntryRef → Option (EntryHeap α))
    (heap : EntryHeap α) (entry : EntryRef) : Option (EntryHeap α) := do
  let fields ← heap.memory entry
  let heap ← release heap fields.leftEntry
  let fields ← heap.memory entry
  let heap ← release heap fields.rightEntry
  return heap.free entry

/-- `_Release` within so many levels of calls. -/
def releaseWithin : Nat → EntryHeap α → Option EntryRef → Option (EntryHeap α)
  | _, heap, none => some heap
  | 0, _, some _ => none
  | levels + 1, heap, some obj => do
    let fields ← heap.memory obj
    let rc := fields.retainCount - 1
    if fields.magic ≠ .object ∨ rc < 0 then none
    else if rc = 0 then
      dictionaryEntryDealloc (releaseWithin levels)
        (heap.store obj { fields with magic := .zombie, retainCount := rc }) obj
    else some (heap.store obj { fields with retainCount := rc })

def release (heap : EntryHeap α) (obj : Option EntryRef) : Option (EntryHeap α) :=
  releaseWithin (heap.allocated + 1) heap obj

/-- The new entry and its retain count of one. -/
def dictionaryEntryCreate (heap : EntryHeap α) (key : CString) (value : Option α) :
    EntryRef × EntryHeap α :=
  let entry := heap.allocated
  let fields : StoredEntry α :=
    { magic := .object, retainCount := 1, key, value, leftEntry := none, rightEntry := none }
  (entry, { heap.store entry fields with allocated := entry + 1 })

def setChildEntry (side : Side) (heap : EntryHeap α) (entry : EntryRef) (child : Option EntryRef) :
    Option (EntryHeap α) := do
  let fields ← heap.memory entry
  let heap ← heap.release (fields.child side)
  let heap ← heap.retain child
  let fields ← heap.memory entry
  return heap.store entry (fields.setChild side child)

def dictionaryEntrySetLeftEntry : EntryHeap α → EntryRef → Option EntryRef → Option (EntryHeap α) :=
  setChildEntry .left

def dictionaryEntrySetRightEntry : EntryHeap α → EntryRef → Option EntryRef → Option (EntryHeap α) :=
  setChildEntry .right

section Set

/-- The branch of `DictionarySet` for a missing child. -/
def addChildEntry (side : Side) (heap : EntryHeap α) (entry : EntryRef) (key : CString)
    (value : Option α) : Option (EntryHeap α) := do
  let (e, heap) := heap.dictionaryEntryCreate key value
  let heap ← setChildEntry side heap entry (some e)
  heap.release (some e)

/-- The loop of `DictionarySet` from an entry on. -/
def setFrom (key : CString) (value : Option α) : Nat → EntryHeap α → EntryRef → Option (EntryHeap α)
  | 0, _, _ => none
  | rounds + 1, heap, entry => do
    let fields ← heap.memory entry
    let cmp := strcmp fields.key key
    if cmp = 0 then return heap.store entry { fields with value }
    else if cmp < 0 then
      match fields.leftEntry with
      | some leftEntry => setFrom key value rounds heap leftEntry
      | none => addChildEntry .left heap entry key value
    else
      match fields.rightEntry with
      | some rightEntry => setFrom key value rounds heap rightEntry
      | none => addChildEntry .right heap entry key value

end Set

section Remove

/-- The child takes the place of the entry below its parent. -/
def replaceEntry (heap : EntryHeap α) (parent : Option EntryRef) (entry : EntryRef)
    (child : Option EntryRef) : Option (EntryHeap α) := do
  let parent ← parent
  let fields ← heap.memory parent
  if fields.leftEntry = some entry then heap.dictionaryEntrySetLeftEntry parent child
  else heap.dictionaryEntrySetRightEntry parent child

/-- `while (entry->leftEntry) entry = entry->leftEntry;` -/
def leftmostEntry (heap : EntryHeap α) : Nat → EntryRef → Option EntryRef
  | 0, _ => none
  | rounds + 1, entry => do
    let fields ← heap.memory entry
    match fields.leftEntry with
    | some leftEntry => heap.leftmostEntry rounds leftEntry
    | none => return entry

/-- The branch of `DictionaryRemove` for the entry that is found. -/
def unlinkEntry (heap : EntryHeap α) (parent : Option EntryRef) (entry : EntryRef) :
    Option (EntryHeap α) := do
  let fields ← heap.memory entry
  match fields.leftEntry, fields.rightEntry with
  | some left, some right =>
    let heap ← heap.retain (some left)
    let heap ← heap.retain (some right)
    let heap ← heap.replaceEntry parent entry (some right)
    let leftmost ← heap.leftmostEntry heap.allocated right
    let heap ← heap.dictionaryEntrySetLeftEntry leftmost (some left)
    let heap ← heap.release (some left)
    heap.release (some right)
  | some e, none | none, some e =>
    let heap ← heap.retain (some e)
    let heap ← heap.replaceEntry parent entry (some e)
    heap.release (some e)
  | none, none => heap.replaceEntry parent entry none

/-- The loop of `DictionaryRemove` from an entry and its parent on. -/
def removeFrom (key : CString) : Nat → EntryHeap α → Option EntryRef → EntryRef → Option (EntryHeap α)
  | 0, _, _, _ => none
  | rounds + 1, heap, parent, entry => do
    let fields ← heap.memory entry
    let cmp := strcmp fields.key key
    if cmp = 0 then heap.unlinkEntry parent entry
    else if cmp < 0 then
      match fields.leftEntry with
      | some leftEntry => removeFrom key rounds heap (some entry) leftEntry
      | none => return heap
    else
      match fields.rightEntry with
      | some rightEntry => removeFrom key rounds heap (some entry) rightEntry
      | none => return heap

end Remove
end EntryHeap

/-- A dictionary with its entries in memory. -/
structure HeapDictionary (α : Type) where
  object : Object
  headEntry : EntryRef
  heap : EntryHeap α

namespace HeapDictionary

def create : HeapDictionary α :=
  let empty : EntryHeap α := { memory := fun _ => none, allocated := 0 }
  let (headEntry, heap) := empty.dictionaryEntryCreate [] none
  { object := objectInit, headEntry, heap }

def set (dict : HeapDictionary α) (key : CString) (value : Option α) : Option (HeapDictionary α) := do
  let dict := { dict with object := dict.object.lock }
  let heap ← dict.heap.setFrom key value dict.heap.allocated dict.headEntry
  return { dict with heap, object := dict.object.unlock }

def remove (dict : HeapDictionary α) (key : CString) : Option (HeapDictionary α) := do
  let dict := { dict with object := dict.object.lock }
  let heap ← dict.heap.removeFrom key dict.heap.allocated none dict.headEntry
  return { dict with heap, object := dict.object.unlock }

end HeapDictionary

def DictionaryCall.applyHeap (dict : HeapDictionary α) : DictionaryCall α → Option (HeapDictionary α)
  | .set key value => dict.set key value
  | .remove key => dict.remove key

/-- The dictionary a sequence of calls leaves. -/
def heapAfter (calls : List (DictionaryCall α)) : Option (HeapDictionary α) :=
  calls.foldlM DictionaryCall.applyHeap .create

end KommunikationNetze.Utils
