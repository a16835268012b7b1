import KommunikationNetze.Utils.DictionaryEnumeration

/-! The dictionary of the web server: the same tree, but no call takes a lock and
there is no removal. -/
namespace KommunikationNetze.Webserver
open CLib Utils
variable {α : Type}

def dictionaryGet (dict : Dictionary α) (key : CString) : Option α := entryGet dict.headEntry key

def dictionarySet (dict : Dictionary α) (key : CString) (value : Option α) : Dictionary α :=
  { dict with headEntry := entrySet dict.headEntry key value }

/-- The iterator retains the dictionary until it is deallocated. -/
def dictionaryGetIterator (dict : Dictionary α) : DictionaryIterator α × Dictionary α :=
  (iteratorFrom dict.headEntry, { dict with object := dict.object.retain })

/-! The other program gives back what it locks, so both dictionaries agree. -/

theorem dictionaryGet_eq (dict : Dictionary α) (key : CString) :
    dictionaryGet dict key = Utils.dictionaryGet dict key := rfl

theorem dictionarySet_eq (dict : Dictionary α) (key : CString) (value : Option α) :
    dictionarySet dict key value = Utils.dictionarySet dict key value := by
  simp only [dictionarySet, Utils.dictionarySet, Dictionary.lock, Dictionary.unlock,
    Object.unlock_lock]

@[simp] theorem dictionaryGet_create (key : CString) :
    dictionaryGet (dictionaryCreate : Dictionary α) key = none := Utils.dictionaryGet_create key

theorem dictionaryGet_set (dict : Dictionary α) (key other : CString) (value : Option α) :
    dictionaryGet (dictionarySet dict key value) other =
      if other = key then value else dictionaryGet dict other :=
  entryGet_entrySet dict.headEntry key other value

/-- Nonempty keys keep the head entry. -/
theorem headEntry_set {dict : Dictionary α} (head : HeadEntry dict) (nonempty : key ≠ []) :
    HeadEntry (dictionarySet dict key value) := by
  rw [dictionarySet_eq]
  exact apply_head head (.set key value) nonempty

theorem searchOrder_set {dict : Dictionary α} (ordered : SearchOrder dict.headEntry) :
    SearchOrder (dictionarySet dict key value).headEntry := searchOrder_entrySet ordered

/-- The dictionary that sets in some order leave. -/
def dictionaryOf (sets : List (CString × Option α)) : Dictionary α :=
  sets.foldl (fun dict entry => dictionarySet dict entry.1 entry.2) dictionaryCreate

theorem dictionaryOf_eq (sets : List (CString × Option α)) :
    dictionaryOf sets = dictionaryAfter (sets.map fun entry => .set entry.1 entry.2) := by
  rw [dictionaryOf, dictionaryAfter, List.foldl_map]
  simp only [dictionarySet_eq, DictionaryCall.apply]

/-- In both programs the iterator presents every stored key once with its value, and ends
behind the last of them. -/
theorem dictionary_enumeration (calls : List (DictionaryCall α))
    (nonempty : ∀ call ∈ calls, call.key ≠ []) :
    (∃ presented, (Utils.dictionaryGetIterator (dictionaryAfter calls)).1.Enumerates
      (storedValue calls) presented) ∧
    ∀ sets : List (CString × Option α), calls = sets.map (fun entry => .set entry.1 entry.2) →
      ∃ presented, (dictionaryGetIterator (dictionaryOf sets)).1.Enumerates
        (storedValue calls) presented := by
  refine ⟨⟨_, DictionaryIterator.enumerates_entries nonempty⟩, ?_⟩
  rintro sets rfl
  rw [dictionaryOf_eq]
  exact ⟨_, DictionaryIterator.enumerates_entries nonempty⟩

/-- A key is set to NULL, and another is set and removed. -/
def nullCalls : List (DictionaryCall Nat) :=
  [.set (literal "b") (some 1), .set (literal "a") none, .remove (literal "b")]

theorem dictionary_enumeration_null : ∃ presented,
    (Utils.dictionaryGetIterator (dictionaryAfter nullCalls)).1.Enumerates (storedValue nullCalls)
      presented ∧
    (literal "a", none) ∈ presented ∧ ∀ value, (literal "b", value) ∉ presented := by
  obtain ⟨⟨presented, enumerates⟩, _⟩ := dictionary_enumeration nullCalls (by decide)
  refine ⟨presented, enumerates, (enumerates.stored _ _).mpr (by decide), ?_⟩
  intro value mem
  have absent : storedValue nullCalls (literal "b") = none := by decide
  have stored := (enumerates.stored _ _).mp mem
  rw [absent] at stored
  cases stored

end KommunikationNetze.Webserver
