import KommunikationNetze.Chat.PollArrays
import KommunikationNetze.Chat.PollPass

/-! What the table asks for, and what it will ask for when the update queue is applied. An update
is a partial function on the demand, as it is on the table. -/
namespace KommunikationNetze.Chat
variable {B : Type}

/-- The events asked for a descriptor, and the block that is called. -/
abbrev PollDemand (B : Type) := PollDescriptor → Option (BitVec 16 × B)

def PollEntry.demand {D : Type} (entry : PollEntry D B) : BitVec 16 × B := (entry.events, entry.block)

def PollTable.demand (table : PollTable PollDescriptor B) : PollDemand B :=
  fun pd => (KeyedList.lookup (·.descriptorObject) table pd).map PollEntry.demand

/-- There is no demand after an update that does not find its descriptor. -/
def PollUpdate.demand (demand : PollDemand B) : PollUpdate B → Option (PollDemand B)
  | register pd _ events _ block => some (Function.update demand pd (some (events, block)))
  | addEvents pd events =>
    (demand pd).map fun asked => Function.update demand pd (some (asked.1 ||| events, asked.2))
  | removeEvents pd events =>
    (demand pd).map fun asked => Function.update demand pd (some (asked.1 &&& ~~~events, asked.2))
  | removeDescriptor pd => (demand pd).map fun _ => Function.update demand pd none

/-- The demand when all updates are applied. -/
def PollState.demand (s : PollState B) : Option (PollDemand B) :=
  s.poll.updateQueue.foldlM PollUpdate.demand s.table.demand

section Table
variable {table after : PollTable PollDescriptor B} {update : PollUpdate B}
  {map : PollDescriptor → Option (PollEntry PollDescriptor B)}

theorem Maps.demand (maps : Maps table map) : table.demand = fun pd => (map pd).map PollEntry.demand := by
  rw [← maps.lookup]
  rfl

theorem Maps.demand_update {value : Option (PollEntry PollDescriptor B)}
    (maps : Maps after (Function.update map pd value)) (before : Maps table map) :
    after.demand = Function.update table.demand pd (value.map PollEntry.demand) := by
  rw [maps.demand, before.demand]
  funext other
  rw [Function.update_apply, Function.update_apply, apply_ite (Option.map PollEntry.demand)]

theorem Maps.demand_pd (maps : Maps table map) (pd : PollDescriptor) :
    table.demand pd = (map pd).map PollEntry.demand := congrFun maps.demand pd

theorem Maps.no_index (maps : Maps table map) (absent : map pd = none) :
    pollIndexForDescriptor table pd = none := by
  rw [← maps.lookup, KeyedList.lookup_eq_none] at absent
  rcases KeyedList.findIdx?_cases (·.descriptorObject) table pd with
    ⟨index, _⟩ | ⟨i, entry, _, stored, same⟩
  · exact index
  · exact absurd same (absent entry (List.mem_of_getElem? stored))

/-- A change of the events of one entry. -/
theorem Maps.demand_modify (maps : Maps table map)
    (change : PollEntry PollDescriptor B → PollEntry PollDescriptor B)
    (keeps : ∀ entry, (change entry).descriptorObject = entry.descriptorObject)
    (next : BitVec 16 × B → BitVec 16 × B) (asks : ∀ entry, (change entry).demand = next entry.demand) :
    ((pollIndexForDescriptor table pd).map fun i => table.modify i change).map PollTable.demand =
      (table.demand pd).map fun demand => Function.update table.demand pd (some (next demand)) := by
  rw [maps.demand_pd]
  cases found : map pd with
  | none =>
    rw [maps.no_index found]
    rfl
  | some entry =>
    obtain ⟨after, applied, modified⟩ := maps.modify found change (keeps entry)
    rw [applied, Option.map_some, modified.demand_update maps, Option.map_some, asks]
    rfl

/-- The table changes as its demand does. -/
theorem demand_apply (keys : (table.map (·.descriptorObject)).Nodup)
    (fresh : ∀ pd ∈ update.registers, table.demand pd = none) :
    (update.apply table).map PollTable.demand = update.demand table.demand := by
  have maps : Maps table _ := ⟨keys, rfl⟩
  cases update with
  | register pd fd events queue block =>
    have missing := Option.map_eq_none_iff.mp (fresh pd rfl)
    exact congrArg some ((maps.register missing fd events queue block).demand_update maps)
  | addEvents pd events =>
    exact maps.demand_modify (fun entry => { entry with events := entry.events ||| events }) (fun _ => rfl)
      (fun asked => (asked.1 ||| events, asked.2)) fun _ => rfl
  | removeEvents pd events =>
    exact maps.demand_modify (fun entry => { entry with events := entry.events &&& ~~~events }) (fun _ => rfl)
      (fun asked => (asked.1 &&& ~~~events, asked.2)) fun _ => rfl
  | removeDescriptor pd =>
    rw [PollUpdate.apply, PollUpdate.demand, maps.demand_pd]
    cases found : KeyedList.lookup (·.descriptorObject) table pd with
    | none =>
      rw [pollDoRemoveDescriptor, maps.no_index found]
      rfl
    | some entry =>
      obtain ⟨after, applied, removed⟩ := maps.remove found
      rw [applied, Option.map_some, removed.demand_update maps]
      rfl

end Table

namespace PollState
variable {s t : PollState B} {entry : PollEntry PollDescriptor B}

theorem Sound.tableKeys (sound : s.Sound) : (s.table.map (·.descriptorObject)).Nodup := by
  have keys := sound.keys
  rw [PollTable.notifications, List.map_map] at keys
  exact keys

theorem Sound.demand_of_mem (sound : s.Sound) (mem : entry ∈ s.table) :
    s.table.demand entry.descriptorObject = some entry.demand := by
  rw [PollTable.demand, KeyedList.lookup_of_mem sound.tableKeys mem, Option.map_some]

theorem demand_known {table : PollTable PollDescriptor B} (known : table.demand pd = some asked) :
    ∃ entry ∈ table, entry.descriptorObject = pd ∧ entry.demand = asked := by
  obtain ⟨entry, found, demand⟩ := Option.map_eq_some_iff.mp known
  obtain ⟨mem, key⟩ := KeyedList.mem_of_lookup found
  exact ⟨entry, mem, key, demand⟩

/-- What an update registers is not in the table. -/
theorem Sound.unregistered (sound : s.Sound) (waiting : s.poll.updateQueue = update :: rest)
    (registered : pd ∈ update.registers) : s.table.demand pd = none := by
  cases known : s.table.demand pd with
  | none => rfl
  | some asked =>
    obtain ⟨entry, mem, key, _⟩ := demand_known known
    refine absurd ?_ (sound.fresh.next waiting pd registered)
    rw [PollTable.notifications, List.map_map]
    exact List.mem_map.mpr ⟨entry, mem, key⟩

theorem Sound.demand_apply (sound : s.Sound) (waiting : s.poll.updateQueue = update :: rest) :
    (update.apply s.table).map PollTable.demand = update.demand s.table.demand :=
  Chat.demand_apply sound.tableKeys fun _ => sound.unregistered waiting

/-- What is applied was expected. -/
theorem Sound.demand_applyNext (sound : s.Sound) (applied : s.applyNext = some t) :
    t.demand = s.demand := by
  rw [PollState.applyNext] at applied
  split at applied
  · obtain rfl := Option.some.inj applied
    rfl
  · rename_i update rest waiting
    obtain ⟨table, updated, rfl⟩ := Option.map_eq_some_iff.mp applied
    have square := sound.demand_apply waiting
    rw [updated, Option.map_some] at square
    rw [PollState.demand, PollState.demand, waiting, List.foldlM_cons, ← square]
    rfl

/-- An update that was expected finds its descriptor. -/
theorem Sound.applies (sound : s.Sound) (expected : s.demand ≠ none)
    (waiting : s.poll.updateQueue = update :: rest) : update.apply s.table ≠ none := by
  intro failed
  have square := sound.demand_apply waiting
  rw [failed, Option.map_none] at square
  rw [PollState.demand, waiting, List.foldlM_cons, ← square] at expected
  exact expected rfl

/-- A call adds its update to what is expected. -/
theorem demand_enqueue (s : PollState B) (update : PollUpdate B) (poll : Poll B)
    (enqueued : poll.updateQueue = s.poll.updateQueue ++ [update]) :
    ({ s with poll } : PollState B).demand = s.demand.bind update.demand := by
  rw [PollState.demand, PollState.demand, enqueued, List.foldlM_append]
  cases s.poll.updateQueue.foldlM PollUpdate.demand s.table.demand with
  | none => rfl
  | some demand => simp

/-- `poll` does not change what is asked for. -/
theorem demand_callPoll (s : PollState B) (revents : Nat → Net.Revents) :
    (s.callPoll revents).demand = s.demand := by
  have lookups : ∀ (table : PollTable PollDescriptor B) (revents : Nat → Net.Revents),
      PollTable.demand (table.mapIdx fun i entry => { entry with revents := (revents i).val }) = table.demand := by
    intro table
    induction table with
    | nil => exact fun _ => rfl
    | cons entry rest ih =>
      intro revents
      funext pd
      have later := congrFun (ih fun i => revents (i + 1)) pd
      by_cases here : entry.descriptorObject = pd
      · simp [PollTable.demand, KeyedList.lookup, List.mapIdx_cons, here, PollEntry.demand]
      · simpa [PollTable.demand, KeyedList.lookup, List.mapIdx_cons, here] using later
  exact congrArg (s.poll.updateQueue.foldlM PollUpdate.demand) (lookups s.table revents)

end PollState

section Queue
variable {updates : List (PollUpdate B)} {update : PollUpdate B} {demand after : PollDemand B}

/-- A registration that does not ask for output. -/
def PollUpdate.RegistersIdle : PollUpdate B → Prop
  | register _ _ events _ _ => events &&& pollOut = 0
  | _ => False

theorem demand_other (applied : update.demand demand = some after) (other : update.descriptor ≠ pd) :
    after pd = demand pd := by
  cases update with
  | register =>
    obtain rfl := Option.some.inj applied
    exact Function.update_of_ne other.symm _ _
  | _ =>
    obtain ⟨_, _, rfl⟩ := Option.map_eq_some_iff.mp applied
    exact Function.update_of_ne other.symm _ _

/-- Only a registration or a removal decides which block a descriptor has. -/
theorem demand_block (applied : update.demand demand = some after)
    (kept : update ≠ .removeDescriptor pd ∧ pd ∉ update.registers) :
    (after pd).map Prod.snd = (demand pd).map Prod.snd := by
  by_cases same : update.descriptor = pd
  · subst same
    cases update with
    | register => exact absurd rfl kept.2
    | removeDescriptor => exact absurd rfl kept.1
    | _ =>
      obtain ⟨asked, known, rfl⟩ := Option.map_eq_some_iff.mp applied
      rw [PollUpdate.descriptor] at *
      rw [Function.update_self, known]
      rfl
  · rw [demand_other applied same]

/-- What every update of the queue keeps holds when all of them are applied. -/
theorem demand_invariant {P : PollDemand B → Prop} (initial : P demand)
    (keeps : ∀ update ∈ updates, ∀ {demand after : PollDemand B},
      update.demand demand = some after → P demand → P after)
    (applied : updates.foldlM PollUpdate.demand demand = some after) : P after := by
  induction updates generalizing demand with
  | nil =>
    obtain rfl := Option.some.inj applied
    exact initial
  | cons update rest ih =>
    obtain ⟨next, first, others⟩ := Option.bind_eq_some_iff.mp applied
    refine ih (keeps update List.mem_cons_self first initial) ?_ others
    exact fun later mem => keeps later (List.mem_cons_of_mem _ mem)

end Queue

namespace PollState.Sound
variable {s : PollState B} {demand : PollDemand B} {entry : PollEntry PollDescriptor B}

theorem not_registers (sound : s.Sound) (mem : entry ∈ s.table) (waits : update ∈ s.poll.updateQueue) :
    entry.descriptorObject ∉ update.registers := by
  intro registered
  have known : entry.descriptorObject ∈ s.table.notifications.map (·.key) := by
    rw [PollTable.notifications, List.map_map]
    exact List.mem_map_of_mem (f := (·.descriptorObject)) mem
  have waiting : entry.descriptorObject ∈ s.poll.registering := List.mem_filterMap.mpr ⟨update, waits, registered⟩
  exact (List.nodup_append.mp sound.fresh.distinct).2.2 _ known _ waiting rfl

/-- Without removals the blocks of the table stay. -/
theorem demand_block (sound : s.Sound) (kept : ∀ update ∈ s.poll.updateQueue, ∀ pd, update ≠ .removeDescriptor pd)
    (expected : s.demand = some demand) (mem : entry ∈ s.table) :
    ∃ asked, demand entry.descriptorObject = some asked ∧ asked.2 = entry.block := by
  have block : (demand entry.descriptorObject).map Prod.snd = some entry.block := by
    refine demand_invariant (P := fun d => (d entry.descriptorObject).map Prod.snd = some entry.block) ?_ ?_ expected
    · rw [sound.demand_of_mem mem]
      rfl
    · intro update waits _ _ applied before
      rw [Chat.demand_block applied ⟨kept update waits _, sound.not_registers mem waits⟩]
      exact before
  exact Option.map_eq_some_iff.mp block

/-- The table asks for what is expected when only such registrations are on the queue. -/
theorem demand_idle (sound : s.Sound) (idle : ∀ update ∈ s.poll.updateQueue, update.RegistersIdle)
    (expected : s.demand = some demand) (mem : entry ∈ s.table) :
    demand entry.descriptorObject = some entry.demand := by
  refine demand_invariant (P := fun d => d entry.descriptorObject = some entry.demand)
    (sound.demand_of_mem mem) ?_ expected
  intro update waits _ _ applied before
  refine (demand_other applied fun same => ?_).trans before
  refine sound.not_registers mem waits (same ▸ ?_)
  have idles := idle update waits
  cases update with
  | register => rfl
  | _ => cases idles

theorem output_idle (idle : ∀ update ∈ s.poll.updateQueue, update.RegistersIdle)
    (expected : s.demand = some demand) (known : demand pd = some asked) (out : asked.1 &&& pollOut ≠ 0) :
    ∃ entry ∈ s.table, entry.descriptorObject = pd ∧ entry.demand = asked := by
  refine demand_known ?_
  refine demand_invariant (P := fun d => d pd = some asked → s.table.demand pd = some asked) id ?_ expected known
  intro update waits before after applied earlier now
  have idles := idle update waits
  cases update with
  | register other fd events queue block =>
    obtain rfl := Option.some.inj applied
    by_cases same : other = pd
    · subst same
      rw [Function.update_self] at now
      obtain rfl := Option.some.inj now
      exact absurd idles out
    · rw [Function.update_of_ne (Ne.symm same)] at now
      exact earlier now
  | _ => cases idles

/-- Entries have different descriptors. -/
theorem index_unique {i j : Nat} {twin : PollEntry PollDescriptor B} (sound : s.Sound)
    (first : s.table[i]? = some entry) (second : s.table[j]? = some twin) (same : entry.descriptorObject = twin.descriptorObject) : i = j := by
  obtain ⟨inside, _⟩ := List.getElem?_eq_some_iff.mp first
  rw [← List.length_map (f := PollEntry.descriptorObject)] at inside
  refine (List.getElem?_inj inside sound.tableKeys).mp ?_
  rw [List.getElem?_map, List.getElem?_map, first, second, Option.map_some, Option.map_some, same]

end PollState.Sound
end KommunikationNetze.Chat
