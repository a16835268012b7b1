import KommunikationNetze.Chat.Poll
import KommunikationNetze.Library.KeyedList

/-! The table of the poll of the chat server. The arrays `polls` and `pollInfos` are one list
of pairs, as long as `numOfPolls`. A function that would use the index UINT32_MAX has no
result. -/
namespace KommunikationNetze.Chat
open SwapRemove
variable {D B : Type}

structure PollEntry (D B : Type) where
  descriptorObject : D
  fd : Int
  events : BitVec 16
  revents : BitVec 16
  queue : Option Nat
  block : B
  deriving DecidableEq

abbrev PollTable (D B : Type) := List (PollEntry D B)

def pollDoRegisterDescriptor (table : PollTable D B) (pd : D) (fd : Int) (events : BitVec 16)
    (queue : Option Nat) (block : B) : PollTable D B :=
  table ++ [{ descriptorObject := pd, fd, events, revents := 0, queue, block }]

section Index
variable [DecidableEq D]

/-- None stands for UINT32_MAX. -/
def pollIndexForDescriptor (table : PollTable D B) (pd : D) : Option Nat :=
  table.findIdx? (·.descriptorObject = pd)

def pollDoAddEvents (table : PollTable D B) (pd : D) (events : BitVec 16) : Option (PollTable D B) :=
  (pollIndexForDescriptor table pd).map fun index =>
    table.modify index fun entry => { entry with events := entry.events ||| events }

def pollDoRemoveEvents (table : PollTable D B) (pd : D) (events : BitVec 16) :
    Option (PollTable D B) :=
  (pollIndexForDescriptor table pd).map fun index =>
    table.modify index fun entry => { entry with events := entry.events &&& ~~~events }

def pollDoRemoveDescriptor (table : PollTable D B) (pd : D) : Option (PollTable D B) :=
  (pollIndexForDescriptor table pd).map (swapRemove table)

end Index

/-- The table as a map from descriptors, in which no descriptor stands twice. -/
structure Maps [DecidableEq D] (table : PollTable D B) (map : D → Option (PollEntry D B)) : Prop where
  keys : (table.map (·.descriptorObject)).Nodup
  lookup : KeyedList.lookup (·.descriptorObject) table = map

namespace Maps
variable [DecidableEq D] {table : PollTable D B} {map : D → Option (PollEntry D B)} {pd : D}
  {entry : PollEntry D B}

theorem mem (maps : Maps table map) : entry ∈ table ↔ map entry.descriptorObject = some entry := by
  rw [← maps.lookup]
  constructor
  · exact KeyedList.lookup_of_mem maps.keys
  · intro found
    exact (KeyedList.mem_of_lookup found).1

theorem descriptor (maps : Maps table map) (found : map pd = some entry) :
    entry.descriptorObject = pd := by
  rw [← maps.lookup] at found
  exact (KeyedList.mem_of_lookup found).2

/-- A descriptor of the map is found. -/
theorem index (maps : Maps table map) (found : map pd = some entry) :
    ∃ i, pollIndexForDescriptor table pd = some i ∧ table[i]? = some entry := by
  have known := found
  rw [← maps.lookup] at known
  obtain ⟨mem, rfl⟩ := KeyedList.mem_of_lookup known
  rcases KeyedList.findIdx?_cases (·.descriptorObject) table entry.descriptorObject with
    ⟨_, absent⟩ | ⟨i, other, index, stored, same⟩
  · exact absurd rfl (absent entry mem)
  · have twin := maps.mem.mp (List.mem_of_getElem? stored)
    rw [same, found] at twin
    obtain rfl := Option.some.inj twin
    exact ⟨i, index, stored⟩

theorem register (maps : Maps table map) (fresh : map pd = none) (fd : Int) (events : BitVec 16)
    (queue : Option Nat) (block : B) :
    Maps (pollDoRegisterDescriptor table pd fd events queue block) (Function.update map pd
      (some { descriptorObject := pd, fd, events, revents := 0, queue, block })) := by
  generalize new : ({ descriptorObject := pd, fd, events, revents := 0, queue, block } :
    PollEntry D B) = entry
  have key : entry.descriptorObject = pd := by rw [← new]
  rw [← maps.lookup, KeyedList.lookup_eq_none] at fresh
  have put : pollDoRegisterDescriptor table pd fd events queue block =
      KeyedList.put (·.descriptorObject) table entry := by
    rw [pollDoRegisterDescriptor, new]
    rw [← key] at fresh
    exact (KeyedList.put_new fresh).symm
  rw [put]
  refine ⟨KeyedList.keys_put maps.keys entry, ?_⟩
  rw [KeyedList.lookup_put maps.keys, maps.lookup, key]

/-- A change of the events of an entry puts another entry in its place. -/
theorem modify (maps : Maps table map) (found : map pd = some entry)
    (change : PollEntry D B → PollEntry D B)
    (keeps : (change entry).descriptorObject = entry.descriptorObject) :
    ∃ after, (pollIndexForDescriptor table pd).map (fun i => table.modify i change) = some after ∧
      Maps after (Function.update map pd (some (change entry))) := by
  obtain ⟨i, index, stored⟩ := maps.index found
  have key := maps.descriptor found
  have put : table.modify i change = KeyedList.put (·.descriptorObject) table (change entry) := by
    rw [List.modify_eq_set_getElem?, stored, KeyedList.put, keeps, key]
    rw [pollIndexForDescriptor] at index
    rw [index]
    rfl
  refine ⟨_, by rw [index, Option.map_some], ?_⟩
  rw [put]
  refine ⟨KeyedList.keys_put maps.keys _, ?_⟩
  rw [KeyedList.lookup_put maps.keys, maps.lookup, keeps, key]

theorem remove (maps : Maps table map) (found : map pd = some entry) :
    ∃ after, pollDoRemoveDescriptor table pd = some after ∧ Maps after (Function.update map pd none) := by
  obtain ⟨i, index, _⟩ := maps.index found
  have delete : swapRemove table i = KeyedList.delete (·.descriptorObject) table pd := by
    rw [pollIndexForDescriptor] at index
    rw [KeyedList.delete, index]
  refine ⟨_, by rw [pollDoRemoveDescriptor, index, Option.map_some], ?_⟩
  rw [delete]
  refine ⟨KeyedList.keys_delete maps.keys pd, ?_⟩
  rw [KeyedList.lookup_delete maps.keys, maps.lookup]

end Maps
end KommunikationNetze.Chat
