import KommunikationNetze.Webserver.PollTable
import KommunikationNetze.Webserver.Poll
import KommunikationNetze.Library.KeyedList
import Mathlib.Data.List.Induction

/-! The table of the poll as a map from descriptors to registrations. -/
namespace KommunikationNetze.Webserver
open SlotArray SwapRemove
variable {β κ : Type}

/-- What the map holds for a descriptor. -/
structure Registration (β κ : Type) where
  events : BitVec 16
  flags : BitVec 32
  block : Option β
  queue : Option κ
  deriving DecidableEq

def registrationOf (poll : PollFD) (info : PollInfo β κ) : Registration β κ :=
  { events := poll.events, flags := info.flags, block := info.block, queue := info.queue }

/-- An update with a block sets, and one without deletes. -/
def setOrDelete (map : Int → Option (Registration β κ)) (update : TableUpdate β κ) :
    Int → Option (Registration β κ) :=
  Function.update map update.poll.fd
    (update.pollInfo.block.map fun _ => registrationOf update.poll update.pollInfo)

def registrations (updates : List (TableUpdate β κ)) : Int → Option (Registration β κ) :=
  updates.foldl setOrDelete fun _ => none

namespace PollTable

/-- The first `numOfPolls` entries, read as a map. -/
def registration (table : PollTable β κ) (fd : Int) : Option (Registration β κ) := do
  let i ← table.indexOf fd
  let poll ← table.polls[i]?
  let info ← table.pollInfos[i]?
  return registrationOf poll info

/-- The table after the updates were applied. -/
structure Describes (table : PollTable β κ) (updates : List (TableUpdate β κ)) : Prop where
  descriptors : ((table.polls.take table.numOfPolls).map (·.fd)).Nodup
  map : table.registration = registrations updates
  paired : ∀ i < table.numOfPolls, ∃ update ∈ updates, update.pollInfo.block.isSome ∧
    table.polls[i]? = some update.poll ∧ table.pollInfos[i]? = some update.pollInfo
  polls_length : table.polls.length = table.numOfSlots
  pollInfos_length : table.pollInfos.length = table.numOfSlots
  slots : table.numOfPolls ≤ table.numOfSlots
  cleared : ∀ i, table.numOfPolls ≤ i → i < table.numOfSlots → ∃ info,
    table.pollInfos[i]? = some info ∧ info.block = none ∧ info.queue = none

end PollTable

def fdOf (entry : TableUpdate β κ) : Int := entry.poll.fd

/-- Both arrays hold the two halves of the same entries, with the same free slots. -/
structure PollTable.Entries (table : PollTable β κ) (entries : List (TableUpdate β κ)) (free : Nat) :
    Prop where
  polls : Holds zeroPollFD free table.polls (entries.map (·.poll))
  pollInfos : Holds zeroPollInfo free table.pollInfos (entries.map (·.pollInfo))
  numOfPolls : table.numOfPolls = entries.length
  numOfSlots : table.numOfSlots = entries.length + free
  slot : 0 < table.numOfSlots
  keys : (entries.map fdOf).Nodup

/-- The update on the list of entries. -/
def applyEntry (entries : List (TableUpdate β κ)) (update : TableUpdate β κ) :
    List (TableUpdate β κ) :=
  match update.pollInfo.block with
  | some _ => KeyedList.put fdOf entries update
  | none => KeyedList.delete fdOf entries update.poll.fd

/-- The reference that the update drops. -/
def droppedBy (entries : List (TableUpdate β κ)) (update : TableUpdate β κ) : Option κ :=
  match update.pollInfo.block with
  | some _ => (KeyedList.lookup fdOf entries update.poll.fd).bind (·.pollInfo.queue)
  | none => none

/-- Growth changes nothing but the arrays. -/
structure SameBut (table after : PollTable β κ) : Prop where
  updateQueue : after.updateQueue = table.updateQueue
  numOfPolls : after.numOfPolls = table.numOfPolls
  retained : after.retained = table.retained
  released : after.released = table.released

theorem PollTable.expand_frame (table : PollTable β κ) (foundIndex : Nat) :
    SameBut table (table.expand foundIndex) := by
  rw [PollTable.expand]
  split
  · exact ⟨rfl, rfl, rfl, rfl⟩
  · exact ⟨rfl, rfl, rfl, rfl⟩

namespace PollTable.Entries
variable {table : PollTable β κ} {entries : List (TableUpdate β κ)} {free : Nat}

theorem indexOf (holds : table.Entries entries free) (fd : Int) :
    table.indexOf fd = entries.findIdx? (fdOf · = fd) := by
  have length : table.numOfPolls = (entries.map (·.poll)).length := by
    rw [holds.numOfPolls, List.length_map]
  rw [PollTable.indexOf, length, holds.polls.take, List.findIdx?_map]
  rfl

theorem slotInfo (holds : table.Entries entries free) (found : entries[i]? = some entry) :
    table.slotInfo i = entry.pollInfo := by
  obtain ⟨inside, _⟩ := List.getElem?_eq_some_iff.mp found
  rw [PollTable.slotInfo, holds.pollInfos.get (by simpa using inside), List.getElem?_map, found]
  rfl

theorem slotInfo_free (holds : table.Entries entries (free + 1)) :
    table.slotInfo entries.length = zeroPollInfo := by
  rw [PollTable.slotInfo, holds.pollInfos.cleared (by simp) (by simp [holds.pollInfos.length])]
  rfl

/-- Doubling leaves a free slot, as there was at least one slot before. -/
theorem expand (holds : table.Entries entries free) (foundIndex : Nat) :
    ∃ more, (table.expand foundIndex).Entries entries more ∧
      (foundIndex = entries.length → 0 < more) := by
  have slots := holds.numOfSlots
  have slot := holds.slot
  rw [PollTable.expand]
  split
  · rename_i full
    refine ⟨_, ⟨holds.polls.expand _ _, holds.pollInfos.expand _ _, holds.numOfPolls, ?_, ?_,
      holds.keys⟩, ?_⟩
    · simp only
      omega
    · simp only
      omega
    · omega
  · rename_i room
    refine ⟨free, holds, ?_⟩
    intro atEnd
    omega

/-- In the slot of an entry, the update takes its place. -/
theorem overwrite (holds : table.Entries entries free) (found : entries[i]? = some entry)
    (same : fdOf entry = fdOf update) : (table.store i update).Entries (entries.set i update) free := by
  obtain ⟨inside, _⟩ := List.getElem?_eq_some_iff.mp found
  constructor
  · rw [List.map_set]
    exact holds.polls.overwrite (by simpa using inside) _
  · rw [List.map_set]
    exact holds.pollInfos.overwrite (by simpa using inside) _
  · rw [List.length_set]
    exact holds.numOfPolls
  · rw [List.length_set]
    exact holds.numOfSlots
  · exact holds.slot
  · rw [KeyedList.keys_set found same]
    exact holds.keys

/-- In the first free slot, the update is the last entry. -/
theorem append {counted : PollTable β κ} (holds : table.Entries entries (free + 1))
    (fresh : ∀ entry ∈ entries, fdOf entry ≠ fdOf update)
    (more : counted = { table with numOfPolls := table.numOfPolls + 1 }) :
    (counted.store entries.length update).Entries (entries ++ [update]) free := by
  subst more
  have length : entries.length = (entries.map (·.poll)).length := by rw [List.length_map]
  have infos : entries.length = (entries.map (·.pollInfo)).length := by rw [List.length_map]
  constructor
  · rw [List.map_append]
    simp only [store, length]
    exact holds.polls.append _
  · rw [List.map_append]
    simp only [store, infos]
    exact holds.pollInfos.append _
  · simp only [store, holds.numOfPolls, List.length_append, List.length_singleton]
  · simp only [store, holds.numOfSlots, List.length_append, List.length_singleton]
    omega
  · exact holds.slot
  · rw [List.map_append, List.map_singleton, ← List.concat_eq_append]
    refine holds.keys.concat ?_
    intro mem
    obtain ⟨entry, stored, same⟩ := List.mem_map.mp mem
    exact fresh entry stored same

/-- Only `numOfPolls` is read later than it is counted up. -/
theorem expand_count (table : PollTable β κ) (count foundIndex : Nat) :
    ({ table with numOfPolls := count } : PollTable β κ).expand foundIndex =
      { table.expand foundIndex with numOfPolls := count } := by
  simp only [PollTable.expand]
  split <;> rfl

/-- An added update is put among the entries, and the queue of the entry with its
descriptor is released. -/
theorem add (holds : table.Entries entries free) (update : TableUpdate β κ) :
    ∃ more, (table.add update).Entries (KeyedList.put fdOf entries update) more ∧
      (table.add update).released = table.released ++
        ((KeyedList.lookup fdOf entries update.poll.fd).bind (·.pollInfo.queue)).toList := by
  have index := holds.indexOf update.poll.fd
  rw [PollTable.add]
  rcases KeyedList.findIdx?_cases fdOf entries update.poll.fd with
    ⟨absent, fresh⟩ | ⟨i, entry, present, found, same⟩
  · rw [absent] at index
    have unknown : KeyedList.lookup fdOf entries update.poll.fd = none :=
      KeyedList.lookup_eq_none.mpr fresh
    obtain ⟨more, grown, room⟩ := holds.expand entries.length
    obtain ⟨rest, rfl⟩ := Nat.exists_eq_add_one.mpr (room rfl)
    rw [KeyedList.put_absent absent]
    simp only [index, unknown, expand_count, holds.numOfPolls]
    refine ⟨rest, grown.append fresh ?_, ?_⟩
    · rw [(table.expand_frame entries.length).numOfPolls, holds.numOfPolls]
    · have free := grown.slotInfo_free
      simp only [PollTable.slotInfo] at free
      simp only [store, PollTable.slotInfo, free, (table.expand_frame entries.length).released]
      rfl
  · rw [present] at index
    have known := KeyedList.lookup_of_mem holds.keys (List.mem_of_getElem? found)
    rw [same] at known
    obtain ⟨more, grown, _⟩ := holds.expand i
    rw [KeyedList.put_present present]
    simp only [index, known]
    refine ⟨more, grown.overwrite found same, ?_⟩
    simp only [store, grown.slotInfo found, (table.expand_frame i).released]
    rfl

/-- A removal deletes the entry of its descriptor, and releases no queue. -/
theorem remove (holds : table.Entries entries free) (fd : Int) :
    ∃ more, (table.remove fd).Entries (KeyedList.delete fdOf entries fd) more ∧
      (table.remove fd).released = table.released := by
  have index := holds.indexOf fd
  have keys := KeyedList.keys_delete holds.keys fd
  rw [PollTable.remove]
  rcases KeyedList.findIdx?_cases fdOf entries fd with
    ⟨absent, fresh⟩ | ⟨i, entry, present, found, same⟩
  · rw [absent] at index
    rw [KeyedList.delete_absent absent]
    simp only [index]
    exact ⟨free, holds, trivial⟩
  · rw [present] at index
    rw [KeyedList.delete_present present] at keys ⊢
    obtain ⟨inside, _⟩ := List.getElem?_eq_some_iff.mp found
    have length := (cons_swapRemove_perm found).length_eq
    rw [List.length_cons] at length
    simp only [index]
    refine ⟨free + 1, ⟨?_, ?_, ?_, ?_, holds.slot, keys⟩, trivial⟩
    · have removed := holds.polls.remove (i := i) (by simpa using inside)
      rwa [List.length_map, ← swapRemove_map, ← holds.numOfPolls] at removed
    · have removed := holds.pollInfos.remove (i := i) (by simpa using inside)
      rwa [List.length_map, ← swapRemove_map, ← holds.numOfPolls] at removed
    · simp only [holds.numOfPolls]
      omega
    · simp only [holds.numOfSlots]
      omega

/-- One update on the arrays is one update on the list of entries. -/
theorem applyUpdate (holds : table.Entries entries free) (update : TableUpdate β κ) :
    ∃ more, (table.applyUpdate update).Entries (applyEntry entries update) more ∧
      (table.applyUpdate update).released =
        table.released ++ (droppedBy entries update).toList := by
  rw [PollTable.applyUpdate, applyEntry, droppedBy]
  cases update.pollInfo.block with
  | some block => exact holds.add update
  | none =>
    obtain ⟨more, removed, released⟩ := holds.remove update.poll.fd
    refine ⟨more, removed, ?_⟩
    rw [released, Option.toList_none, List.append_nil]

/-- The updates of a list, one after another. -/
theorem applyUpdates (updates : List (TableUpdate β κ)) :
    ∀ {table : PollTable β κ} {entries free}, table.Entries entries free →
      ∃ more, (updates.foldl PollTable.applyUpdate table).Entries
        (updates.foldl applyEntry entries) more := by
  induction updates with
  | nil =>
    intro table entries free holds
    exact ⟨free, holds⟩
  | cons update rest ih =>
    intro table entries free holds
    obtain ⟨more, applied, _⟩ := holds.applyUpdate update
    exact ih applied

/-- The queue of updates and the references are no part of the entries. -/
theorem enqueue (holds : table.Entries entries free) (queue : List (TableUpdate β κ))
    (retained : List κ) :
    ({ table with updateQueue := queue, retained } : PollTable β κ).Entries entries free :=
  ⟨holds.polls, holds.pollInfos, holds.numOfPolls, holds.numOfSlots, holds.slot, holds.keys⟩

theorem create : (tableCreate : PollTable β κ).Entries [] 10 := by
  constructor
  · rfl
  · rfl
  · rfl
  · rfl
  · exact Nat.succ_pos 9
  · exact List.nodup_nil

theorem registration (holds : table.Entries entries free) :
    table.registration = fun fd => (KeyedList.lookup fdOf entries fd).map fun entry =>
      registrationOf entry.poll entry.pollInfo := by
  funext fd
  rw [PollTable.registration, holds.indexOf]
  rcases KeyedList.findIdx?_cases fdOf entries fd with
    ⟨absent, fresh⟩ | ⟨i, entry, present, found, rfl⟩
  · rw [absent, KeyedList.lookup_eq_none.mpr fresh]
    rfl
  · obtain ⟨inside, _⟩ := List.getElem?_eq_some_iff.mp found
    have poll := holds.polls.get (i := i) (by simpa using inside)
    have info := holds.pollInfos.get (i := i) (by simpa using inside)
    rw [List.getElem?_map, found] at poll info
    rw [present, KeyedList.lookup_of_mem holds.keys (List.mem_of_getElem? found)]
    simp only [Option.bind_eq_bind, Option.bind_some, poll, info]
    rfl

end PollTable.Entries

section Updates
variable {entries : List (TableUpdate β κ)}

theorem lookup_applyEntry (keys : (entries.map fdOf).Nodup) (update : TableUpdate β κ) :
    KeyedList.lookup fdOf (applyEntry entries update) =
      Function.update (KeyedList.lookup fdOf entries) update.poll.fd
        (update.pollInfo.block.map fun _ => update) := by
  rw [applyEntry]
  cases update.pollInfo.block with
  | some block => exact KeyedList.lookup_put keys update
  | none => exact KeyedList.lookup_delete keys update.poll.fd

theorem keys_applyEntry (keys : (entries.map fdOf).Nodup) (update : TableUpdate β κ) :
    ((applyEntry entries update).map fdOf).Nodup := by
  rw [applyEntry]
  cases update.pollInfo.block with
  | some block => exact KeyedList.keys_put keys update
  | none => exact KeyedList.keys_delete keys update.poll.fd

theorem mem_applyEntry (keys : (entries.map fdOf).Nodup) {update entry : TableUpdate β κ}
    (mem : entry ∈ applyEntry entries update) :
    entry ∈ entries ∨ entry = update ∧ update.pollInfo.block.isSome := by
  rw [applyEntry] at mem
  cases given : update.pollInfo.block with
  | some block =>
    simp only [given] at mem
    rcases (KeyedList.mem_put keys).mp mem with rfl | ⟨old, _⟩
    · exact .inr ⟨rfl, rfl⟩
    · exact .inl old
  | none =>
    simp only [given] at mem
    exact .inl ((KeyedList.mem_delete keys).mp mem).1

/-- The entries after updates in order: registrations among them, and the map they stand for. -/
theorem applyEntries (updates : List (TableUpdate β κ)) :
    ((updates.foldl applyEntry []).map fdOf).Nodup ∧
      (∀ entry ∈ updates.foldl applyEntry [], entry ∈ updates ∧ entry.pollInfo.block.isSome) ∧
      (fun fd => (KeyedList.lookup fdOf (updates.foldl applyEntry []) fd).map fun entry =>
        registrationOf entry.poll entry.pollInfo) = registrations updates := by
  induction updates using List.reverseRecOn with
  | nil => exact ⟨List.nodup_nil, fun _ mem => by simp at mem, rfl⟩
  | append_singleton updates update ih =>
    obtain ⟨keys, stored, map⟩ := ih
    rw [registrations, List.foldl_append, List.foldl_append, List.foldl_cons, List.foldl_nil,
      List.foldl_cons, List.foldl_nil, ← registrations, ← map, lookup_applyEntry keys]
    refine ⟨keys_applyEntry keys update, ?_, ?_⟩
    · intro entry mem
      rcases mem_applyEntry keys mem with old | ⟨rfl, given⟩
      · exact ⟨List.mem_append_left _ (stored entry old).1, (stored entry old).2⟩
      · exact ⟨List.mem_append_right _ (List.mem_singleton_self _), given⟩
    · funext fd
      rw [setOrDelete]
      by_cases same : fd = update.poll.fd
      · subst same
        rw [Function.update_self, Function.update_self, Option.map_map]
        rfl
      · rw [Function.update_of_ne same, Function.update_of_ne same]

end Updates

namespace PollTable
variable {table : PollTable β κ}

/-- Entries that came from updates describe them. -/
theorem Entries.describes {updates : List (TableUpdate β κ)}
    (holds : table.Entries (updates.foldl applyEntry []) free) : table.Describes updates := by
  obtain ⟨keys, stored, map⟩ := applyEntries updates
  have polls := holds.polls.length
  have infos := holds.pollInfos.length
  have count := holds.numOfPolls
  have slots := holds.numOfSlots
  rw [List.length_map] at polls infos
  constructor
  · rw [count, ← List.length_map (·.poll), holds.polls.take, List.map_map]
    exact keys
  · rw [holds.registration, map]
  · intro i inside
    rw [count] at inside
    obtain ⟨mem, given⟩ := stored _ (List.getElem_mem inside)
    refine ⟨_, mem, given, ?_, ?_⟩
    · rw [holds.polls.get (by simpa using inside), List.getElem?_map,
        List.getElem?_eq_getElem inside, Option.map_some]
    · rw [holds.pollInfos.get (by simpa using inside), List.getElem?_map,
        List.getElem?_eq_getElem inside, Option.map_some]
  · omega
  · omega
  · omega
  · intro i behind inside
    have clear := holds.pollInfos.cleared (i := i) (by rw [List.length_map]; omega) (by omega)
    exact ⟨_, clear, rfl, rfl⟩

/-- An update takes no references and enqueues nothing. -/
theorem applyUpdate_frame (table : PollTable β κ) (update : TableUpdate β κ) :
    (table.applyUpdate update).updateQueue = table.updateQueue ∧
      (table.applyUpdate update).retained = table.retained := by
  rw [applyUpdate]
  cases update.pollInfo.block with
  | some block =>
    simp only [add]
    split
    · rename_i foundIndex _
      exact ⟨(table.expand_frame foundIndex).updateQueue, (table.expand_frame foundIndex).retained⟩
    · rw [Entries.expand_count]
      exact ⟨(table.expand_frame table.numOfPolls).updateQueue,
        (table.expand_frame table.numOfPolls).retained⟩
  | none =>
    simp only [remove]
    split
    · exact ⟨rfl, rfl⟩
    · exact ⟨rfl, rfl⟩

theorem foldl_updateQueue (updates : List (TableUpdate β κ)) (table : PollTable β κ) :
    (updates.foldl applyUpdate table).updateQueue = table.updateQueue := by
  induction updates generalizing table with
  | nil => rfl
  | cons update rest ih => rw [List.foldl_cons, ih, (table.applyUpdate_frame update).1]

end PollTable

/-- The updates applied so far are the first of those enqueued, and the table holds them. -/
theorem entries_tableAfter (calls : List (TableCall β κ)) :
    ∃ applied free, calls.filterMap TableCall.update = applied ++ (tableAfter calls).updateQueue ∧
      (tableAfter calls).Entries (applied.foldl applyEntry []) free := by
  induction calls using List.reverseRecOn with
  | nil => exact ⟨[], 10, rfl, PollTable.Entries.create⟩
  | append_singleton calls call ih =>
    obtain ⟨applied, free, queued, holds⟩ := ih
    rw [tableAfter, List.foldl_append, ← tableAfter, List.filterMap_append, queued]
    cases call with
    | register fd events flags queue block =>
      exact ⟨applied, free, List.append_assoc _ _ _, holds.enqueue _ _⟩
    | unregister fd =>
      exact ⟨applied, free, List.append_assoc _ _ _, holds.enqueue _ _⟩
    | applyNext =>
      simp only [List.filterMap_cons, TableCall.update, List.filterMap_nil, List.append_nil,
        List.foldl_cons, List.foldl_nil, TableCall.run, PollTable.applyNext]
      cases waiting : (tableAfter calls).updateQueue with
      | nil =>
        refine ⟨applied, free, ?_, holds⟩
        rw [waiting]
      | cons update rest =>
        obtain ⟨more, after, _⟩ := (holds.enqueue rest (tableAfter calls).retained).applyUpdate update
        refine ⟨applied ++ [update], more, ?_, ?_⟩
        · rw [(PollTable.applyUpdate_frame _ update).1, List.append_assoc, List.singleton_append]
        · rw [List.foldl_append]
          exact after

section List

def updateView (update : TableUpdate β κ) : Int × Option β :=
  (update.poll.fd, update.pollInfo.block)

def entryView (entry : PollEntry β) : Int × Option β := (entry.fd, some entry.block)

def requestView (update : PollUpdate β) : Int × Option β := (update.fd, update.block)

/-- The pairs of the two arrays, as far as `Poll` has them. -/
def PollTable.view (table : PollTable β κ) : List (Int × Option β) :=
  List.zipWith (fun poll info => (poll.fd, info.block)) (table.polls.take table.numOfPolls)
    (table.pollInfos.take table.numOfPolls)

theorem addOrUpdate_view (polls : List (PollEntry β)) (entry : PollEntry β) :
    (addOrUpdate polls entry).map entryView =
      KeyedList.put Prod.fst (polls.map entryView) (entryView entry) := by
  have index : polls.findIdx? (·.fd = entry.fd) =
      polls.findIdx? (fun other => (other.fd : Int) = entry.fd) := by simp only [Int.natCast_inj]
  have put : addOrUpdate polls entry = KeyedList.put (fun entry => (entry.fd : Int)) polls entry := by
    cases found : polls.findIdx? (·.fd = entry.fd) with
    | none => rw [KeyedList.put_absent (index.symm.trans found), addOrUpdate, found]
    | some i => rw [KeyedList.put_present (index.symm.trans found), addOrUpdate, found]
  rw [put]
  exact KeyedList.put_map _ Prod.fst entryView (fun _ => rfl) polls entry

theorem removeEntry_view (polls : List (PollEntry β)) (fd : Nat) :
    (removeEntry polls fd).map entryView = KeyedList.delete Prod.fst (polls.map entryView) fd := by
  have index : polls.findIdx? (·.fd = fd) = polls.findIdx? (fun other => (other.fd : Int) = fd) := by
    simp only [Int.natCast_inj]
  have delete : removeEntry polls fd = KeyedList.delete (fun entry => (entry.fd : Int)) polls fd := by
    cases found : polls.findIdx? (·.fd = fd) with
    | none => rw [KeyedList.delete_absent (index.symm.trans found), removeEntry, found]
    | some i => rw [KeyedList.delete_present (index.symm.trans found), removeEntry, found]
  rw [delete]
  exact KeyedList.delete_map _ Prod.fst entryView (fun _ => rfl) polls fd

/-- The entries of the arrays and the list of `Poll` go through the same updates alike. -/
theorem applyEntry_view {entries : List (TableUpdate β κ)} {polls : List (PollEntry β)}
    (same : entries.map updateView = polls.map entryView) (update : TableUpdate β κ)
    (entry : PollUpdate β) (agree : updateView update = requestView entry) :
    (applyEntry entries update).map updateView = (applyUpdate polls entry).map entryView := by
  obtain ⟨fd, block⟩ := Prod.mk.inj agree
  rw [applyEntry, applyUpdate, block]
  cases given : entry.block with
  | some block =>
    simp only
    rw [addOrUpdate_view, ← same, KeyedList.put_map fdOf Prod.fst updateView (fun _ => rfl), agree,
      requestView, given]
    rfl
  | none =>
    simp only
    rw [removeEntry_view, ← same, fd, KeyedList.delete_map fdOf Prod.fst updateView (fun _ => rfl)]

theorem PollTable.Entries.view {table : PollTable β κ} {entries : List (TableUpdate β κ)}
    (holds : table.Entries entries free) : table.view = entries.map updateView := by
  have polls : table.numOfPolls = (entries.map (·.poll)).length := by
    rw [holds.numOfPolls, List.length_map]
  have infos : table.numOfPolls = (entries.map (·.pollInfo)).length := by
    rw [holds.numOfPolls, List.length_map]
  rw [PollTable.view]
  nth_rewrite 1 [polls]
  rw [infos, holds.polls.take, holds.pollInfos.take, List.zipWith_map, List.zipWith_self]
  rfl

/-- The call, or the round of `PollApplyUpdates`, on the list. -/
def TableCall.runPoll (poll : Poll β) : TableCall β κ → Poll β
  | .register fd _ _ _ block => pollRegister poll fd.toNat block
  | .unregister fd => pollUnregister poll fd.toNat
  | .applyNext =>
    match poll.updateQueue with
    | [] => poll
    | update :: rest => pollApplyUpdate poll update rest

/-- The list after calls in some order. -/
def pollAfter (calls : List (TableCall β κ)) : Poll β :=
  calls.foldl TableCall.runPoll { updateQueue := [], polls := [], stamps := 0, fired := [] }

/-- The two arrays hold what the list holds, and the same updates wait. -/
structure PollTable.Shows (table : PollTable β κ) (poll : Poll β) : Prop where
  view : table.view = poll.polls.map entryView
  queue : table.updateQueue.map updateView = poll.updateQueue.map requestView

theorem PollTable.Shows.enqueue {table : PollTable β κ} {poll : Poll β} {fd : Nat}
    (shows : table.Shows poll) (same : updateView update = ((fd : Int), block)) (retained : List κ) :
    ({ table with updateQueue := table.updateQueue ++ [update], retained } : PollTable β κ).Shows
      (poll.enqueue fd block) where
  view := shows.view
  queue := by
    rw [Poll.enqueue, List.map_append, List.map_append, shows.queue, List.map_singleton, same]
    rfl

/-- A call leads from one to the other again. -/
theorem PollTable.Shows.run {table : PollTable β κ} {poll : Poll β} (shows : table.Shows poll)
    (holds : table.Entries entries free) (call : TableCall β κ)
    (descriptor : ∀ update, call.update = some update → 0 ≤ update.poll.fd) :
    (call.run table).Shows (call.runPoll poll) := by
  cases call with
  | register fd events flags queue block =>
    have same : ((fd.toNat : Nat) : Int) = fd := Int.toNat_of_nonneg (descriptor _ rfl)
    have view : updateView (registerUpdate fd events flags queue block) = ((fd.toNat : Int), some block) :=
      Prod.ext same.symm rfl
    exact shows.enqueue view _
  | unregister fd =>
    have same : ((fd.toNat : Nat) : Int) = fd := Int.toNat_of_nonneg (descriptor _ rfl)
    have view : updateView (unregisterUpdate fd : TableUpdate β κ) = ((fd.toNat : Int), none) :=
      Prod.ext same.symm rfl
    exact shows.enqueue view _
  | applyNext =>
    have queue := shows.queue
    simp only [TableCall.run, TableCall.runPoll, PollTable.applyNext]
    cases waiting : table.updateQueue with
    | nil =>
      rw [waiting] at queue
      rw [List.map_eq_nil_iff.mp queue.symm]
      exact shows
    | cons update rest =>
      rw [waiting, List.map_cons] at queue
      obtain ⟨entry, others, asked, agree, left⟩ := List.map_eq_cons_iff.mp queue.symm
      obtain ⟨more, after, _⟩ := (holds.enqueue rest table.retained).applyUpdate update
      rw [asked]
      constructor
      · rw [after.view]
        exact applyEntry_view (holds.view.symm.trans shows.view) update entry agree.symm
      · rw [(PollTable.applyUpdate_frame _ update).1]
        exact left.symm

end List

/-- Whatever is called, the arrays up to `numOfPolls` are the list of `Poll`, in its order. -/
theorem poll_list (calls : List (TableCall β κ))
    (descriptors : ∀ update ∈ calls.filterMap TableCall.update, 0 ≤ update.poll.fd) :
    (tableAfter calls).Shows (pollAfter calls) := by
  induction calls using List.reverseRecOn with
  | nil => exact ⟨rfl, rfl⟩
  | append_singleton calls call ih =>
    rw [List.filterMap_append] at descriptors
    have before := ih fun update mem => descriptors update (List.mem_append_left _ mem)
    obtain ⟨_, _, _, holds⟩ := entries_tableAfter calls
    rw [tableAfter, pollAfter, List.foldl_append, List.foldl_append]
    refine before.run holds call fun update enqueued => ?_
    refine descriptors update (List.mem_append_right _ ?_)
    rw [List.filterMap_cons_some enqueued]
    exact List.mem_cons_self

/-- Three descriptors are registered, and the first is removed. -/
def removeFirst : List (TableCall Char Unit) :=
  [.register 3 1 0 none 'a', .register 4 1 0 none 'b', .register 5 4 0 none 'c', .unregister 3,
    .applyNext, .applyNext, .applyNext, .applyNext]

/-- The last one takes its place. -/
theorem poll_list_removed : (tableAfter removeFirst).view = [(5, some 'c'), (4, some 'b')] := by
  have shows := poll_list removeFirst (by decide)
  exact shows.view.trans (by decide)

/-- After every sequence of calls the table is the map that the applied updates describe in
their order, and `PollApplyUpdates` makes it the map of all that were enqueued. -/
theorem poll_table_map (calls : List (TableCall β κ)) :
    (∃ applied, calls.filterMap TableCall.update = applied ++ (tableAfter calls).updateQueue ∧
      (tableAfter calls).Describes applied) ∧
    (tableAfter calls).applyUpdates.updateQueue = [] ∧
    (tableAfter calls).applyUpdates.Describes (calls.filterMap TableCall.update) := by
  obtain ⟨applied, free, queued, holds⟩ := entries_tableAfter calls
  refine ⟨⟨applied, queued, holds.describes⟩, ?_, ?_⟩
  · rw [PollTable.applyUpdates, PollTable.foldl_updateQueue]
  · obtain ⟨more, after⟩ :=
      (holds.enqueue [] (tableAfter calls).retained).applyUpdates (tableAfter calls).updateQueue
    rw [← List.foldl_append, ← queued] at after
    exact after.describes

end KommunikationNetze.Webserver
