import KommunikationNetze.Library.SearchTree
import KommunikationNetze.CLib.CString

/-! The dictionary both programs share: a binary tree below a dummy head entry
with the empty key. The entry to the left holds the greater keys. Keys are
compared by content, since they are valid and unchanged while stored. -/
namespace KommunikationNetze.Utils
open CLib SearchTree

/-- The header of an object: retain count and depth of its recursive mutex. -/
structure Object where
  retainCount : Int
  lockDepth : Int
  deriving DecidableEq

def objectInit : Object := { retainCount := 1, lockDepth := 0 }

def Object.retain (object : Object) : Object :=
  { object with retainCount := object.retainCount + 1 }

def Object.release (object : Object) : Object :=
  { object with retainCount := object.retainCount - 1 }

def Object.lock (object : Object) : Object :=
  { object.retain with lockDepth := object.lockDepth + 1 }

def Object.unlock (object : Object) : Object :=
  { object.release with lockDepth := object.lockDepth - 1 }

@[simp] theorem Object.unlock_lock (object : Object) : object.lock.unlock = object := by
  simp [lock, unlock, retain, release]

/-- A pointer to an entry; `nil` is NULL. A stored value may be NULL as well. -/
abbrev DictionaryEntry (α : Type) := Tree CString (Option α)

structure Dictionary (α : Type) where
  object : Object
  headEntry : DictionaryEntry α

variable {α : Type}

def dictionaryEntryCreate (key : CString) (value : Option α) : DictionaryEntry α :=
  .node key value .nil .nil

def dictionaryCreate : Dictionary α :=
  { object := objectInit, headEntry := dictionaryEntryCreate [] none }

/-- The search of `DictionaryGet` from an entry downwards. -/
def entryGet : DictionaryEntry α → CString → Option α
  | .nil, _ => none
  | .node entryKey value leftEntry rightEntry, key =>
    let cmp := strcmp entryKey key
    if cmp = 0 then value
    else if cmp < 0 then entryGet leftEntry key
    else entryGet rightEntry key

/-- The search of `DictionarySet`: the entry after the call. A missing child is
where the new entry goes. -/
def entrySet : DictionaryEntry α → CString → Option α → DictionaryEntry α
  | .nil, key, value => dictionaryEntryCreate key value
  | .node entryKey entryValue leftEntry rightEntry, key, value =>
    let cmp := strcmp entryKey key
    if cmp = 0 then .node entryKey value leftEntry rightEntry
    else if cmp < 0 then .node entryKey entryValue (entrySet leftEntry key value) rightEntry
    else .node entryKey entryValue leftEntry (entrySet rightEntry key value)

/-- `while (entry->leftEntry) entry = entry->leftEntry;` and the new left entry
of the entry found there. -/
def setLeftmostEntry : DictionaryEntry α → DictionaryEntry α → DictionaryEntry α
  | .nil, left => left
  | .node key value leftEntry rightEntry, left =>
      .node key value (setLeftmostEntry leftEntry left) rightEntry

/-- What the link of the parent holds once its entry with these children is gone. -/
def entryUnlink : DictionaryEntry α → DictionaryEntry α → DictionaryEntry α
  | left@(.node ..), right@(.node ..) => setLeftmostEntry right left
  | left@(.node ..), .nil => left
  | .nil, right@(.node ..) => right
  | .nil, .nil => .nil

/-- The search of `DictionaryRemove`; the result is stored in the link of the
parent it came from. The head entry has no parent, so the key is not empty. -/
def entryRemove : DictionaryEntry α → CString → DictionaryEntry α
  | .nil, _ => .nil
  | .node entryKey value leftEntry rightEntry, key =>
    let cmp := strcmp entryKey key
    if cmp = 0 then entryUnlink leftEntry rightEntry
    else if cmp < 0 then .node entryKey value (entryRemove leftEntry key) rightEntry
    else .node entryKey value leftEntry (entryRemove rightEntry key)

namespace Dictionary

def lock (dict : Dictionary α) : Dictionary α := { dict with object := dict.object.lock }

def unlock (dict : Dictionary α) : Dictionary α := { dict with object := dict.object.unlock }

end Dictionary

/-- The lock taken for the search is given back, so only the value is returned. -/
def dictionaryGet (dict : Dictionary α) (key : CString) : Option α :=
  entryGet dict.lock.headEntry key

def dictionarySet (dict : Dictionary α) (key : CString) (value : Option α) : Dictionary α :=
  let dict := dict.lock
  { dict with headEntry := entrySet dict.headEntry key value }.unlock

def dictionaryRemove (dict : Dictionary α) (key : CString) : Dictionary α :=
  let dict := dict.lock
  { dict with headEntry := entryRemove dict.headEntry key }.unlock

@[simp] theorem dictionarySet_headEntry (dict : Dictionary α) (key : CString) (value : Option α) :
    (dictionarySet dict key value).headEntry = entrySet dict.headEntry key value := rfl

@[simp] theorem dictionaryRemove_headEntry (dict : Dictionary α) (key : CString) :
    (dictionaryRemove dict key).headEntry = entryRemove dict.headEntry key := rfl

@[simp] theorem dictionarySet_object (dict : Dictionary α) (key : CString) (value : Option α) :
    (dictionarySet dict key value).object = dict.object := dict.object.unlock_lock

@[simp] theorem dictionaryRemove_object (dict : Dictionary α) (key : CString) :
    (dictionaryRemove dict key).object = dict.object := dict.object.unlock_lock

/-! The lock is recursive, so a call under a lock does what it does without. -/

@[simp] theorem Dictionary.unlock_lock (dict : Dictionary α) : dict.lock.unlock = dict := by
  simp [lock, unlock]

@[simp] theorem dictionaryGet_lock (dict : Dictionary α) (key : CString) :
    dictionaryGet dict.lock key = dictionaryGet dict key := rfl

@[simp] theorem dictionarySet_lock (dict : Dictionary α) (key : CString) (value : Option α) :
    dictionarySet dict.lock key value = (dictionarySet dict key value).lock := by
  simp [dictionarySet, Dictionary.lock, Dictionary.unlock]

@[simp] theorem dictionaryRemove_lock (dict : Dictionary α) (key : CString) :
    dictionaryRemove dict.lock key = (dictionaryRemove dict key).lock := by
  simp [dictionaryRemove, Dictionary.lock, Dictionary.unlock]

end KommunikationNetze.Utils
