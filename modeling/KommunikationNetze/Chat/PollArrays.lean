import KommunikationNetze.Chat.PollTable
import KommunikationNetze.CLib.Buffer
import KommunikationNetze.Library.SlotArray
import KommunikationNetze.Library.Transition

/-! The two arrays of the poll of the chat server. They hold the table, and the table is a map
from descriptors. Allocation succeeds; the reference counts of queues and blocks are left out. -/
namespace KommunikationNetze.Chat
open CLib SlotArray SwapRemove Transition
variable {D B : Type}

/-- `struct pollfd`. -/
structure PollFD where
  fd : Int
  events : BitVec 16
  revents : BitVec 16
  deriving DecidableEq

/-- `struct _PollInfo`, with none for NULL. -/
structure PollInfo (D B : Type) where
  descriptorObject : Option D
  queue : Option Nat
  block : Option B
  deriving DecidableEq

def zeroPollFD : PollFD := { fd := 0, events := 0, revents := 0 }

def zeroPollInfo : PollInfo D B := { descriptorObject := none, queue := none, block := none }

structure PollArrays (D B : Type) where
  polls : List PollFD
  pollInfos : List (PollInfo D B)
  numOfPolls : Nat
  numOfSlots : Nat
  deriving DecidableEq

/-- What `PollCreate` allocates. -/
def pollArraysCreate : PollArrays D B :=
  { polls := List.replicate 10 zeroPollFD, pollInfos := List.replicate 10 zeroPollInfo
    numOfPolls := 0, numOfSlots := 10 }

namespace PollArrays

/-- The room for one more entry at the index. None is a failed assertion. -/
def expand (arrays : PollArrays D B) (index : Nat) : Option (PollArrays D B) :=
  if arrays.numOfSlots ≤ index then
    let oldNumOfSlots := arrays.numOfSlots
    let numOfSlots := u32 (oldNumOfSlots * 2)
    if 0 < numOfSlots then
      some { arrays with
        numOfSlots
        polls := SlotArray.expand zeroPollFD arrays.polls oldNumOfSlots numOfSlots
        pollInfos := SlotArray.expand zeroPollInfo arrays.pollInfos oldNumOfSlots numOfSlots }
    else none
  else some arrays

def doRegisterDescriptor (arrays : PollArrays D B) (pd : D) (fd : Int) (events : BitVec 16)
    (queue : Option Nat) (block : B) : Option (PollArrays D B) :=
  let index := arrays.numOfPolls
  let counted : PollArrays D B := { arrays with numOfPolls := u32 (arrays.numOfPolls + 1) }
  (counted.expand index).map fun arrays =>
    { arrays with
      polls := arrays.polls.set index { fd, events, revents := 0 }
      pollInfos := arrays.pollInfos.set index
        { descriptorObject := some pd, queue, block := some block } }

section Index
variable [DecidableEq D]

/-- None stands for UINT32_MAX, which is behind the arrays. -/
def indexForDescriptor (arrays : PollArrays D B) (pd : D) : Option Nat :=
  (arrays.pollInfos.take arrays.numOfPolls).findIdx? (·.descriptorObject = some pd)

def doAddEvents (arrays : PollArrays D B) (pd : D) (events : BitVec 16) : Option (PollArrays D B) :=
  (arrays.indexForDescriptor pd).map fun index =>
    { arrays with
      polls := arrays.polls.modify index fun poll => { poll with events := poll.events ||| events } }

def doRemoveEvents (arrays : PollArrays D B) (pd : D) (events : BitVec 16) :
    Option (PollArrays D B) :=
  (arrays.indexForDescriptor pd).map fun index =>
    { arrays with
      polls := arrays.polls.modify index fun poll => { poll with events := poll.events &&& ~~~events } }

def doRemoveDescriptor (arrays : PollArrays D B) (pd : D) : Option (PollArrays D B) :=
  (arrays.indexForDescriptor pd).map fun i =>
    { arrays with
      polls := swapClear zeroPollFD arrays.polls arrays.numOfPolls i
      pollInfos := swapClear zeroPollInfo arrays.pollInfos arrays.numOfPolls i
      numOfPolls := arrays.numOfPolls - 1 }

end Index

/-- The call of a block of the update queue. -/
def apply (arrays : PollArrays PollDescriptor B) :
    PollUpdate B → Option (PollArrays PollDescriptor B)
  | .register pd fd events queue block => arrays.doRegisterDescriptor pd fd events queue block
  | .addEvents pd events => arrays.doAddEvents pd events
  | .removeEvents pd events => arrays.doRemoveEvents pd events
  | .removeDescriptor pd => arrays.doRemoveDescriptor pd

end PollArrays

/-- The same on the list of the entries. -/
def tableApply (table : PollTable PollDescriptor B) :
    PollUpdate B → Option (PollTable PollDescriptor B)
  | .register pd fd events queue block => some (pollDoRegisterDescriptor table pd fd events queue block)
  | .addEvents pd events => pollDoAddEvents table pd events
  | .removeEvents pd events => pollDoRemoveEvents table pd events
  | .removeDescriptor pd => pollDoRemoveDescriptor table pd

/-- The arrays after updates in their order. -/
def arraysAfter (updates : List (PollUpdate B)) : Option (PollArrays PollDescriptor B) :=
  updates.foldlM PollArrays.apply pollArraysCreate

/-! What the arrays are for: a map from descriptors. -/

abbrev DescriptorMap (B : Type) := PollDescriptor → Option (PollEntry PollDescriptor B)

def PollUpdate.descriptor : PollUpdate B → PollDescriptor
  | .register pd _ _ _ _ | .addEvents pd _ | .removeEvents pd _ | .removeDescriptor pd => pd

/-- What the map holds for the descriptor of the update afterwards. -/
def PollUpdate.change (before : Option (PollEntry PollDescriptor B)) :
    PollUpdate B → Option (PollEntry PollDescriptor B)
  | .register pd fd events queue block =>
    some { descriptorObject := pd, fd, events, revents := 0, queue, block }
  | .addEvents _ events => before.map fun entry => { entry with events := entry.events ||| events }
  | .removeEvents _ events =>
    before.map fun entry => { entry with events := entry.events &&& ~~~events }
  | .removeDescriptor _ => none

def DescriptorMap.update (map : DescriptorMap B) (update : PollUpdate B) : DescriptorMap B :=
  Function.update map update.descriptor (update.change (map update.descriptor))

def registered (updates : List (PollUpdate B)) : DescriptorMap B :=
  updates.foldl DescriptorMap.update fun _ => none

/-- A register names a fresh descriptor, every other update a registered one. -/
def Named (before : List (PollUpdate B)) : PollUpdate B → Prop
  | .register pd _ _ _ _ => registered before pd = none
  | .addEvents pd _ | .removeEvents pd _ | .removeDescriptor pd => (registered before pd).isSome

def PollEntry.pollFD (entry : PollEntry D B) : PollFD :=
  { fd := entry.fd, events := entry.events, revents := entry.revents }

def PollEntry.pollInfo (entry : PollEntry D B) : PollInfo D B :=
  { descriptorObject := some entry.descriptorObject, queue := entry.queue
    block := some entry.block }

namespace PollArrays

/-- The slot belongs to the entry in both arrays. -/
def Stores (arrays : PollArrays D B) (i : Nat) (entry : PollEntry D B) : Prop :=
  arrays.polls[i]? = some entry.pollFD ∧ arrays.pollInfos[i]? = some entry.pollInfo

/-- The first `numOfPolls` slots hold the map, each descriptor once, and the others nothing. -/
structure Describes (arrays : PollArrays D B) (map : D → Option (PollEntry D B)) : Prop where
  paired : ∀ i < arrays.numOfPolls, ∃ pd entry, map pd = some entry ∧ entry.descriptorObject = pd ∧
    arrays.Stores i entry
  once : ∀ pd entry, map pd = some entry → ∃ i < arrays.numOfPolls, arrays.Stores i entry ∧
    ∀ j < arrays.numOfPolls, ∀ info, arrays.pollInfos[j]? = some info →
      info.descriptorObject = some pd → j = i
  slots : arrays.numOfPolls ≤ arrays.numOfSlots
  polls_length : arrays.polls.length = arrays.numOfSlots
  pollInfos_length : arrays.pollInfos.length = arrays.numOfSlots
  cleared : ∀ i, arrays.numOfPolls ≤ i → i < arrays.numOfSlots →
    arrays.polls[i]? = some zeroPollFD ∧ arrays.pollInfos[i]? = some zeroPollInfo

/-- The arrays hold the two halves of the entries of the table. -/
structure Entries (arrays : PollArrays D B) (table : PollTable D B) (free : Nat) : Prop where
  polls : Holds zeroPollFD free arrays.polls (table.map (·.pollFD))
  pollInfos : Holds zeroPollInfo free arrays.pollInfos (table.map (·.pollInfo))
  numOfPolls : arrays.numOfPolls = table.length
  numOfSlots : arrays.numOfSlots = table.length + free
  slot : 0 < arrays.numOfSlots

/-- Only `numOfPolls` is counted up before the arrays grow. -/
theorem expand_count (arrays : PollArrays D B) (count index : Nat) :
    ({ arrays with numOfPolls := count } : PollArrays D B).expand index =
      (arrays.expand index).map fun grown => { grown with numOfPolls := count } := by
  simp only [expand]
  split
  · split
    · rfl
    · rfl
  · rfl

namespace Entries
variable {arrays : PollArrays D B} {table after : PollTable D B} {free : Nat}

theorem create : (pollArraysCreate : PollArrays D B).Entries [] 10 := by
  constructor
  · rfl
  · rfl
  · rfl
  · rfl
  · exact Nat.succ_pos 9

/-- Doubling leaves a free slot, as there was at least one slot before. -/
theorem expand (holds : arrays.Entries table free) (small : arrays.numOfSlots < 2 ^ 31) :
    ∃ grown more, arrays.expand table.length = some grown ∧ grown.Entries table (more + 1) := by
  have slots := holds.numOfSlots
  have slot := holds.slot
  rw [PollArrays.expand]
  split
  · rename_i full
    have doubled : u32 (arrays.numOfSlots * 2) = arrays.numOfSlots * 2 := u32_of_lt (by omega)
    have more : free + (arrays.numOfSlots * 2 - arrays.numOfSlots) = arrays.numOfSlots - 1 + 1 := by
      omega
    simp only [doubled]
    rw [if_pos (by omega)]
    refine ⟨_, arrays.numOfSlots - 1, rfl, ?_, ?_, holds.numOfPolls, ?_, ?_⟩
    · rw [← more]
      exact holds.polls.expand _ _
    · rw [← more]
      exact holds.pollInfos.expand _ _
    · simp only
      omega
    · simp only
      omega
  · rename_i room
    refine ⟨arrays, free - 1, rfl, ?_⟩
    have more : free - 1 + 1 = free := by omega
    rw [more]
    exact holds

theorem register (holds : arrays.Entries table free) (small : arrays.numOfSlots < 2 ^ 31) (pd : D)
    (fd : Int) (events : BitVec 16) (queue : Option Nat) (block : B) :
    ∃ next more, arrays.doRegisterDescriptor pd fd events queue block = some next ∧
      next.Entries (pollDoRegisterDescriptor table pd fd events queue block) more := by
  obtain ⟨grown, more, expanded, room⟩ := holds.expand small
  have count : u32 (table.length + 1) = table.length + 1 := by
    apply u32_of_lt
    have := holds.numOfSlots
    omega
  have polls : table.length = (table.map (·.pollFD)).length := by rw [List.length_map]
  have infos : table.length = (table.map (·.pollInfo)).length := by rw [List.length_map]
  simp only [doRegisterDescriptor, expand_count, holds.numOfPolls, expanded, Option.map_some, count]
  refine ⟨_, more, rfl, ?_⟩
  constructor
  · rw [pollDoRegisterDescriptor, List.map_append]
    simp only [polls]
    exact room.polls.append _
  · rw [pollDoRegisterDescriptor, List.map_append]
    simp only [infos]
    exact room.pollInfos.append _
  · simp only [pollDoRegisterDescriptor, List.length_append, List.length_singleton]
  · simp only [pollDoRegisterDescriptor, List.length_append, List.length_singleton, room.numOfSlots]
    omega
  · exact room.slot

/-- The events of an entry are changed in the first array only. -/
theorem changeEvents (holds : arrays.Entries table free) (inside : i < table.length)
    (change : BitVec 16 → BitVec 16) :
    ({ arrays with
        polls := arrays.polls.modify i fun poll => { poll with events := change poll.events } } :
      PollArrays D B).Entries
      (table.modify i fun entry => { entry with events := change entry.events }) free := by
  constructor
  · rw [map_modify PollEntry.pollFD _ (fun poll => { poll with events := change poll.events })
      (fun _ => rfl)]
    exact holds.polls.modify (by simpa using inside) _
  · have kept : ∀ entry : PollEntry D B,
        PollEntry.pollInfo { entry with events := change entry.events } = id entry.pollInfo :=
      fun _ => rfl
    rw [map_modify PollEntry.pollInfo _ id kept, List.modify_id]
    exact holds.pollInfos
  · rw [List.length_modify]
    exact holds.numOfPolls
  · rw [List.length_modify]
    exact holds.numOfSlots
  · exact holds.slot

theorem remove (holds : arrays.Entries table free) (inside : i < table.length) :
    ({ arrays with
        polls := swapClear zeroPollFD arrays.polls arrays.numOfPolls i
        pollInfos := swapClear zeroPollInfo arrays.pollInfos arrays.numOfPolls i
        numOfPolls := arrays.numOfPolls - 1 } : PollArrays D B).Entries (swapRemove table i)
      (free + 1) := by
  have polls : arrays.numOfPolls = (table.map (·.pollFD)).length := by
    rw [holds.numOfPolls, List.length_map]
  have infos : arrays.numOfPolls = (table.map (·.pollInfo)).length := by
    rw [holds.numOfPolls, List.length_map]
  have length : (swapRemove table i).length + 1 = table.length :=
    (cons_swapRemove_perm (List.getElem?_eq_getElem inside)).length_eq
  constructor
  · rw [swapRemove_map, polls]
    exact holds.polls.remove (by simpa using inside)
  · rw [swapRemove_map, infos]
    exact holds.pollInfos.remove (by simpa using inside)
  · rw [holds.numOfPolls, ← length, Nat.add_sub_cancel]
  · rw [holds.numOfSlots]
    omega
  · exact holds.slot

section Index
variable [DecidableEq D]

theorem indexForDescriptor (holds : arrays.Entries table free) (pd : D) :
    arrays.indexForDescriptor pd = pollIndexForDescriptor table pd := by
  have infos : arrays.numOfPolls = (table.map (·.pollInfo)).length := by
    rw [holds.numOfPolls, List.length_map]
  rw [PollArrays.indexForDescriptor, infos, holds.pollInfos.take, List.findIdx?_map,
    pollIndexForDescriptor]
  congr 1
  funext entry
  simp only [Function.comp_apply, PollEntry.pollInfo, Option.some.injEq]

/-- An index that was found is one of an entry. -/
theorem inside {pd : D} (found : pollIndexForDescriptor table pd = some i) :
    i < table.length :=
  (List.findIdx?_eq_some_iff_getElem.mp found).1

theorem addEvents (holds : arrays.Entries table free) {pd : D}
    (done : pollDoAddEvents table pd events = some after) :
    ∃ next, arrays.doAddEvents pd events = some next ∧ next.Entries after free := by
  obtain ⟨i, found, rfl⟩ := Option.map_eq_some_iff.mp done
  refine ⟨_, by rw [doAddEvents, holds.indexForDescriptor, found, Option.map_some], ?_⟩
  exact holds.changeEvents (inside found) (· ||| events)

theorem removeEvents (holds : arrays.Entries table free) {pd : D}
    (done : pollDoRemoveEvents table pd events = some after) :
    ∃ next, arrays.doRemoveEvents pd events = some next ∧ next.Entries after free := by
  obtain ⟨i, found, rfl⟩ := Option.map_eq_some_iff.mp done
  refine ⟨_, by rw [doRemoveEvents, holds.indexForDescriptor, found, Option.map_some], ?_⟩
  exact holds.changeEvents (inside found) (· &&& ~~~events)

theorem removeDescriptor (holds : arrays.Entries table free) {pd : D}
    (done : pollDoRemoveDescriptor table pd = some after) :
    ∃ next, arrays.doRemoveDescriptor pd = some next ∧ next.Entries after (free + 1) := by
  obtain ⟨i, found, rfl⟩ := Option.map_eq_some_iff.mp done
  refine ⟨_, by rw [doRemoveDescriptor, holds.indexForDescriptor, found, Option.map_some], ?_⟩
  exact holds.remove (inside found)

end Index

/-- What the table is for a map, the arrays are. -/
theorem describes [DecidableEq D] {map : D → Option (PollEntry D B)}
    (holds : arrays.Entries table free) (maps : Maps table map) : arrays.Describes map := by
  have polls := holds.polls.length
  have infos := holds.pollInfos.length
  have count := holds.numOfPolls
  have slots := holds.numOfSlots
  rw [List.length_map] at polls infos
  have stores : ∀ {i entry}, table[i]? = some entry → arrays.Stores i entry := by
    intro i entry found
    obtain ⟨inside, _⟩ := List.getElem?_eq_some_iff.mp found
    constructor
    · rw [holds.polls.get (by simpa using inside), List.getElem?_map, found, Option.map_some]
    · rw [holds.pollInfos.get (by simpa using inside), List.getElem?_map, found, Option.map_some]
  constructor
  · intro i inside
    rw [count] at inside
    have found := List.getElem?_eq_getElem inside
    have known := maps.mem.mp (List.getElem_mem inside)
    exact ⟨_, _, known, rfl, stores found⟩
  · intro pd entry known
    obtain ⟨i, index, found⟩ := maps.index known
    have same := maps.descriptor known
    refine ⟨i, by rw [count]; exact inside index, stores found, ?_⟩
    intro j within info atSlot owner
    rw [count] at within
    have here := (stores (List.getElem?_eq_getElem within)).2
    rw [atSlot] at here
    obtain rfl := Option.some.inj here
    obtain ⟨first, atIndex⟩ := List.getElem?_eq_some_iff.mp found
    have keyed : table[j].descriptorObject = table[i].descriptorObject := by
      rw [atIndex, same]
      exact Option.some.inj owner
    have bound : j < (table.map (·.descriptorObject)).length := by simpa using within
    have other : i < (table.map (·.descriptorObject)).length := by simpa using first
    have twin : (table.map (·.descriptorObject))[j] = (table.map (·.descriptorObject))[i] := by
      rw [List.getElem_map, List.getElem_map, keyed]
    exact maps.keys.getElem_inj_iff.mp twin
  · omega
  · omega
  · omega
  · intro i behind inside
    constructor
    · exact holds.polls.cleared (by rw [List.length_map]; omega) (by omega)
    · exact holds.pollInfos.cleared (by rw [List.length_map]; omega) (by omega)

end Entries

/-- The updates of the table are the updates of the map. -/
theorem tableStep {table : PollTable PollDescriptor B} {before : List (PollUpdate B)}
    (maps : Maps table (registered before)) (named : Named before update) :
    ∃ after, tableApply table update = some after ∧ Maps after (registered (before ++ [update])) := by
  rw [registered, List.foldl_append, ← registered, List.foldl_cons, List.foldl_nil]
  cases update with
  | register pd fd events queue block => exact ⟨_, rfl, maps.register named fd events queue block⟩
  | addEvents pd events =>
    obtain ⟨entry, known⟩ := Option.isSome_iff_exists.mp named
    obtain ⟨after, done, next⟩ :=
      maps.modify known (fun entry => { entry with events := entry.events ||| events }) rfl
    refine ⟨after, done, ?_⟩
    rw [DescriptorMap.update, PollUpdate.change, PollUpdate.descriptor, known, Option.map_some]
    exact next
  | removeEvents pd events =>
    obtain ⟨entry, known⟩ := Option.isSome_iff_exists.mp named
    obtain ⟨after, done, next⟩ :=
      maps.modify known (fun entry => { entry with events := entry.events &&& ~~~events }) rfl
    refine ⟨after, done, ?_⟩
    rw [DescriptorMap.update, PollUpdate.change, PollUpdate.descriptor, known, Option.map_some]
    exact next
  | removeDescriptor pd =>
    obtain ⟨entry, known⟩ := Option.isSome_iff_exists.mp named
    exact maps.remove known

/-- An update of the table is one of the arrays. -/
theorem Entries.apply {arrays : PollArrays PollDescriptor B} {table after : PollTable PollDescriptor B}
    (holds : arrays.Entries table free) (small : arrays.numOfSlots < 2 ^ 31)
    (done : tableApply table update = some after) :
    ∃ next more, arrays.apply update = some next ∧ next.Entries after more := by
  cases update with
  | register pd fd events queue block =>
    obtain rfl := Option.some.inj done
    exact holds.register small pd fd events queue block
  | addEvents pd events =>
    obtain ⟨next, added, entries⟩ := holds.addEvents done
    exact ⟨next, free, added, entries⟩
  | removeEvents pd events =>
    obtain ⟨next, removed, entries⟩ := holds.removeEvents done
    exact ⟨next, free, removed, entries⟩
  | removeDescriptor pd =>
    obtain ⟨next, removed, entries⟩ := holds.removeDescriptor done
    exact ⟨next, free + 1, removed, entries⟩

/-- `numOfSlots` stays below 2^31 at every update. -/
def Small (updates : List (PollUpdate B)) : Prop :=
  ∀ before arrays, before <+: updates → arraysAfter before = some arrays → arrays.numOfSlots < 2 ^ 31

/-- The arrays, the table and the map go through the same updates. -/
theorem entries_arraysAfter {updates : List (PollUpdate B)} (named : EveryStep Named updates)
    (small : Small updates) : ∃ arrays table free, arraysAfter updates = some arrays ∧
      updates.foldlM tableApply [] = some table ∧ arrays.Entries table free ∧
      Maps table (registered updates) := by
  induction updates using List.reverseRecOn with
  | nil => exact ⟨_, [], 10, rfl, rfl, Entries.create, List.nodup_nil, rfl⟩
  | append_singleton updates update ih =>
    obtain ⟨earlier, last⟩ := (everyStep_concat updates update).mp named
    have shorter : Small updates := by
      intro before arrays early
      exact small before arrays (early.trans (List.prefix_append _ _))
    obtain ⟨arrays, table, free, reached, listed, entries, maps⟩ := ih earlier shorter
    obtain ⟨after, done, next⟩ := tableStep maps last
    have room := shorter updates arrays (List.prefix_refl _) reached
    obtain ⟨grown, more, applied, holds⟩ := entries.apply room done
    refine ⟨grown, after, more, ?_, ?_, holds, next⟩
    · rw [arraysAfter, List.foldlM_append, ← arraysAfter, reached]
      simpa using applied
    · rw [List.foldlM_append, listed]
      simpa using done

/-- After any updates that name their descriptors properly, the arrays describe the map of
what is registered. -/
theorem poll_arrays_map {updates : List (PollUpdate B)} (named : EveryStep Named updates)
    (small : Small updates) :
    ∃ arrays, arraysAfter updates = some arrays ∧ arrays.Describes (registered updates) := by
  obtain ⟨arrays, table, free, reached, _, entries, maps⟩ := entries_arraysAfter named small
  exact ⟨arrays, reached, entries.describes maps⟩

/-- Two descriptors; the events of the second change before and after it is moved. -/
def twoDescriptors : List (PollUpdate Nat) :=
  [.register 0 5 pollIn none 1, .register 1 6 pollIn (some 3) 2, .addEvents 1 pollOut,
    .removeDescriptor 0, .removeEvents 1 pollIn]

theorem poll_arrays_map_twoDescriptors : ∃ arrays, arraysAfter twoDescriptors = some arrays ∧
    arrays.Describes (registered twoDescriptors) := by
  have named : EveryStep Named twoDescriptors := by
    refine (everyStep_concat [_, _, _, _] _).mpr ⟨?_, rfl⟩
    refine (everyStep_concat [_, _, _] _).mpr ⟨?_, rfl⟩
    refine (everyStep_concat [_, _] _).mpr ⟨?_, rfl⟩
    refine (everyStep_concat [_] _).mpr ⟨?_, rfl⟩
    exact (everyStep_concat [] _).mpr ⟨everyStep_nil, rfl⟩
  have small : ∀ before ∈ twoDescriptors.inits, ∀ arrays ∈ arraysAfter before,
      arrays.numOfSlots < 2 ^ 31 := by decide
  exact poll_arrays_map named fun before arrays early reached =>
    small before ((List.mem_inits _ _).mpr early) arrays reached

end PollArrays
end KommunikationNetze.Chat
