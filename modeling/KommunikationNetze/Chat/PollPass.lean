import KommunikationNetze.Chat.PollTable
import KommunikationNetze.Library.CountedScan
import KommunikationNetze.Net.PollNotification

/-! The rounds of the poll thread of the chat server, for blocks of any kind. Other threads and
the blocks only ask for updates; the thread applies them, and then calls what is ready. -/
namespace KommunikationNetze.Chat
open Net SwapRemove
variable {B : Type}

/-- A call on the poll. -/
inductive PollRequest (B : Type) where
  | register (fd : Int) (events : BitVec 16) (queue : Option Nat) (block : B)
  | addEvent (pd : PollDescriptor) (event : BitVec 16)
  | removeEvent (pd : PollDescriptor) (event : BitVec 16)
  | remove (pd : PollDescriptor)

def PollRequest.call (poll : Poll B) : PollRequest B → Poll B
  | register fd events queue block => (pollRegister poll fd events queue block).2
  | addEvent pd event => pollDescriptorAddEvent poll pd event
  | removeEvent pd event => pollDescriptorRemoveEvent poll pd event
  | remove pd => pollDescritptorRemove poll pd

/-- The call of the block on the update queue. -/
def PollUpdate.apply (table : PollTable PollDescriptor B) :
    PollUpdate B → Option (PollTable PollDescriptor B)
  | register pd fd events queue block => some (pollDoRegisterDescriptor table pd fd events queue block)
  | addEvents pd events => pollDoAddEvents table pd events
  | removeEvents pd events => pollDoRemoveEvents table pd events
  | removeDescriptor pd => pollDoRemoveDescriptor table pd

/-- The call of the block of the entry. -/
def PollEntry.notification {D : Type} (entry : PollEntry D B) : Notification D Nat B :=
  { key := entry.descriptorObject, queue := entry.queue, block := entry.block
    revents := entry.revents }

def PollTable.notifications {D : Type} (table : PollTable D B) : List (Notification D Nat B) :=
  table.map PollEntry.notification

/-- The updates applied since `poll` has returned and the blocks called in the pass are
recorded and never read. -/
structure PollState (B : Type) where
  poll : Poll B
  table : PollTable PollDescriptor B
  socksToHandle : Nat
  applied : List (PollUpdate B)
  notified : List (Notification PollDescriptor Nat B)

def pollStateCreate : PollState B :=
  { poll := pollCreate, table := [], socksToHandle := 0, applied := [], notified := [] }

/-- A call of any thread, or one round of the loop of `PollApplyUpdates`. -/
inductive UpdateStep (B : Type) where
  | request (request : PollRequest B)
  | applyNext

namespace PollState
variable (s : PollState B)

/-- Nothing happens if the queue is empty. -/
def applyNext : Option (PollState B) :=
  match s.poll.updateQueue with
  | [] => some s
  | update :: rest => (update.apply s.table).map fun table =>
    { s with poll := { s.poll with updateQueue := rest }, table, applied := s.applied ++ [update] }

def step (s : PollState B) : UpdateStep B → Option (PollState B)
  | .request request => some { s with poll := request.call s.poll }
  | .applyNext => s.applyNext

def updates (steps : List (UpdateStep B)) : Option (PollState B) := steps.foldlM step s

/-- `poll` stores `revents` in all entries and returns how many are not zero. -/
def callPoll (revents : Nat → Revents) : PollState B :=
  let table := s.table.mapIdx fun i entry => { entry with revents := (revents i).val }
  { s with
    table
    socksToHandle := table.countP (·.revents ≠ 0)
    applied := []
    notified := [] }

/-- The body of the loop over the entries. While the block is called, updates are enqueued. -/
def visit (meanwhile : Nat → List (PollRequest B)) (i : Nat) (s : PollState B) :
    Option (PollState B) :=
  match s.table[i]? with
  | some entry =>
    if 0 < entry.revents.toInt then
      some { s with
        socksToHandle := s.socksToHandle - 1
        notified := s.notified ++ [entry.notification]
        poll := (meanwhile i).foldl PollRequest.call s.poll }
    else some s
  | none => none

def pass (meanwhile : Nat → List (PollRequest B)) : Option (PollState B) :=
  CountedScan.loop socksToHandle (visit meanwhile) 0 s.table.length s

end PollState

/-- What happens in one round of the thread: until `poll` is called, what it stores, until the
pass begins, and while the block of an entry is called. -/
structure PollRound (B : Type) where
  beforePoll : List (UpdateStep B)
  revents : Nat → Revents
  afterPoll : List (UpdateStep B)
  meanwhile : Nat → List (PollRequest B)

/-- A round in which `poll` does not fail. -/
def PollState.round (s : PollState B) (round : PollRound B) : Option (PollState B) := do
  let called ← s.updates round.beforePoll
  let present ← (called.callPoll round.revents).updates round.afterPoll
  present.pass round.meanwhile

/-- There is no result if an update did not find its descriptor. -/
def pollRounds (rounds : List (PollRound B)) : Option (PollState B) :=
  rounds.foldlM PollState.round pollStateCreate

section View
variable {table after : PollTable PollDescriptor B} {update : PollUpdate B}

/-- The descriptor that the update puts into the table. -/
def PollUpdate.registers : PollUpdate B → Option PollDescriptor
  | register pd _ _ _ _ => some pd
  | _ => none

/-- A new registration is idle, and changed events are not seen here. -/
def PollUpdate.onNotifications (calls : List (Notification PollDescriptor Nat B)) :
    PollUpdate B → List (Notification PollDescriptor Nat B)
  | register pd _ _ queue block => KeyedList.put (·.key) calls { key := pd, queue, block, revents := 0 }
  | addEvents _ _ => calls
  | removeEvents _ _ => calls
  | removeDescriptor pd => KeyedList.delete (·.key) calls pd

theorem notifications_modify (table : PollTable PollDescriptor B) (i : Nat)
    (change : PollEntry PollDescriptor B → PollEntry PollDescriptor B)
    (same : ∀ entry, (change entry).notification = entry.notification) :
    PollTable.notifications (table.modify i change) = PollTable.notifications table := by
  apply List.ext_getElem?
  intro j
  rw [PollTable.notifications, PollTable.notifications, List.getElem?_map, List.getElem?_map,
    List.getElem?_modify]
  cases table[j]? with
  | none => rfl
  | some entry =>
    split
    · exact congrArg some (same entry)
    · rfl

theorem notifications_remove (removed : pollDoRemoveDescriptor table pd = some after) :
    after.notifications = KeyedList.delete (·.key) table.notifications pd := by
  rw [pollDoRemoveDescriptor, Option.map_eq_some_iff] at removed
  obtain ⟨i, index, rfl⟩ := removed
  have delete : KeyedList.delete (·.descriptorObject) table pd = swapRemove table i :=
    KeyedList.delete_present index
  rw [← delete]
  exact KeyedList.delete_map (·.descriptorObject) (·.key) PollEntry.notification (fun _ => rfl) table pd

/-- The calls after an update, if it registers no descriptor again. -/
theorem notifications_apply (applied : update.apply table = some after)
    (fresh : ∀ pd ∈ update.registers, pd ∉ table.notifications.map (·.key)) :
    after.notifications = update.onNotifications table.notifications := by
  cases update with
  | register pd fd events queue block =>
    obtain rfl := Option.some.inj applied
    have absent : ∀ n ∈ table.notifications, n.key ≠ pd := by
      intro n mem same
      exact fresh pd rfl (same ▸ List.mem_map_of_mem mem)
    rw [PollUpdate.onNotifications, KeyedList.put_new absent]
    exact List.map_append
  | addEvents pd events =>
    rw [PollUpdate.apply, pollDoAddEvents, Option.map_eq_some_iff] at applied
    obtain ⟨i, _, rfl⟩ := applied
    exact notifications_modify table i _ fun _ => rfl
  | removeEvents pd events =>
    rw [PollUpdate.apply, pollDoRemoveEvents, Option.map_eq_some_iff] at applied
    obtain ⟨i, _, rfl⟩ := applied
    exact notifications_modify table i _ fun _ => rfl
  | removeDescriptor pd => exact notifications_remove applied

end View

/-- The descriptors that will be registered. -/
def Poll.registering (poll : Poll B) : List PollDescriptor :=
  poll.updateQueue.filterMap PollUpdate.registers

/-- No known descriptor is registered again, and later ones are different from all of them. -/
structure Poll.Fresh (poll : Poll B) (known : List PollDescriptor) : Prop where
  distinct : (known ++ poll.registering).Nodup
  created : ∀ pd ∈ known ++ poll.registering, pd < poll.descriptors

namespace Poll.Fresh
variable {poll : Poll B} {known : List PollDescriptor}

theorem enqueue (fresh : poll.Fresh known) (update : PollUpdate B) (none : update.registers = none) :
    (pollEnqueueUpdate poll update).Fresh known := by
  have same : (pollEnqueueUpdate poll update).registering = poll.registering := by
    simp only [registering, pollEnqueueUpdate, List.filterMap_append, List.filterMap_cons, none,
      List.filterMap_nil, List.append_nil]
  constructor
  · rw [same]
    exact fresh.distinct
  · rw [same]
    exact fresh.created

/-- A descriptor is new when it is registered. -/
theorem register (fresh : poll.Fresh known) (fd : Int) (events : BitVec 16) (queue : Option Nat)
    (block : B) : (pollRegister poll fd events queue block).2.Fresh known := by
  have more : known ++ (pollRegister poll fd events queue block).2.registering =
      (known ++ poll.registering).concat poll.descriptors := by
    rw [List.concat_eq_append, List.append_assoc]
    exact congrArg (known ++ ·) List.filterMap_append
  have below : ∀ pd ∈ known ++ poll.registering, pd < poll.descriptors + 1 :=
    fun pd mem => Nat.lt_succ_of_lt (fresh.created pd mem)
  constructor
  · rw [more]
    exact fresh.distinct.concat fun mem => Nat.lt_irrefl _ (fresh.created _ mem)
  · intro pd mem
    rw [more, List.concat_eq_append, List.mem_append, List.mem_singleton] at mem
    rcases mem with mem | rfl
    · exact below pd mem
    · exact Nat.lt_succ_self _

theorem call (fresh : poll.Fresh known) (request : PollRequest B) : (request.call poll).Fresh known := by
  cases request with
  | register fd events queue block => exact fresh.register fd events queue block
  | addEvent pd event => exact fresh.enqueue _ rfl
  | removeEvent pd event => exact fresh.enqueue _ rfl
  | remove pd => exact fresh.enqueue _ rfl

theorem calls (fresh : poll.Fresh known) (requests : List (PollRequest B)) :
    (requests.foldl PollRequest.call poll).Fresh known := by
  induction requests generalizing poll with
  | nil => exact fresh
  | cons request rest ih => exact ih (fresh.call request)

/-- What an update registers is known from then on. -/
theorem dequeue (fresh : poll.Fresh known) (waiting : poll.updateQueue = update :: rest) :
    ({ poll with updateQueue := rest } : Poll B).Fresh (known ++ update.registers.toList) := by
  have same : known ++ poll.registering = (known ++ update.registers.toList) ++
      ({ poll with updateQueue := rest } : Poll B).registering := by
    rw [registering, waiting, List.append_assoc, registering]
    cases registered : update.registers with
    | none => rw [List.filterMap_cons_none registered, Option.toList_none, List.nil_append]
    | some pd => rw [List.filterMap_cons_some registered, Option.toList_some, List.singleton_append]
  constructor
  · rw [← same]
    exact fresh.distinct
  · rw [← same]
    exact fresh.created

theorem subperm (fresh : poll.Fresh known) (fewer : other.Subperm known) : poll.Fresh other := by
  have both : (other ++ poll.registering).Subperm (known ++ poll.registering) :=
    (List.subperm_append_right _).mpr fewer
  obtain ⟨_, perm, sublist⟩ := both
  constructor
  · exact perm.nodup_iff.mp (fresh.distinct.sublist sublist)
  · exact fun pd mem => fresh.created pd (sublist.subset (perm.mem_iff.mpr mem))

/-- The update to be applied registers no known descriptor. -/
theorem next (fresh : poll.Fresh known) (waiting : poll.updateQueue = update :: rest) :
    ∀ pd ∈ update.registers, pd ∉ known := by
  intro pd registered mem
  have waits : pd ∈ poll.registering := by
    rw [registering, waiting]
    exact List.mem_filterMap.mpr ⟨update, List.mem_cons_self, registered⟩
  exact (List.nodup_append.mp fresh.distinct).2.2 pd mem pd waits rfl

end Poll.Fresh

section Update
variable {calls : List (Notification PollDescriptor Nat B)} {update : PollUpdate B}

/-- An update leaves known descriptors in the table, and the one it registers. -/
theorem keys_onNotifications (keys : (calls.map (·.key)).Nodup)
    (fresh : ∀ pd ∈ update.registers, pd ∉ calls.map (·.key)) :
    ((update.onNotifications calls).map (·.key)).Subperm
      (calls.map (·.key) ++ update.registers.toList) := by
  cases update with
  | register pd fd events queue block =>
    have absent : ∀ n ∈ calls, n.key ≠ pd := by
      intro n mem same
      exact fresh pd rfl (same ▸ List.mem_map_of_mem mem)
    rw [PollUpdate.onNotifications, KeyedList.put_new absent, List.map_append]
    exact List.Subperm.refl _
  | addEvents pd events => exact (List.sublist_append_left _ _).subperm
  | removeEvents pd events => exact (List.sublist_append_left _ _).subperm
  | removeDescriptor pd =>
    have deleted := (KeyedList.delete_perm keys pd).map (·.key)
    have fewer : ((calls.filter (·.key ≠ pd)).map (·.key)).Sublist (calls.map (·.key)) :=
      List.filter_sublist.map _
    exact (deleted.subperm.trans fewer.subperm).trans (List.sublist_append_left _ _).subperm

theorem mem_onNotifications (keys : (calls.map (·.key)).Nodup) {n : Notification PollDescriptor Nat B}
    (mem : n ∈ update.onNotifications calls) : n ∈ calls ∨ n.revents = 0 := by
  cases update with
  | register pd fd events queue block =>
    rcases (KeyedList.mem_put keys).mp mem with rfl | ⟨kept, _⟩
    · exact .inr rfl
    · exact .inl kept
  | addEvents pd events => exact .inl mem
  | removeEvents pd events => exact .inl mem
  | removeDescriptor pd => exact .inl ((KeyedList.mem_delete keys).mp mem).1

/-- Only the removal of its descriptor ends a polled registration. -/
theorem survives_onNotifications {polled : List (Notification PollDescriptor Nat B)}
    {applied : List (PollUpdate B)}
    (survives : Survives polled calls fun pd => .removeDescriptor pd ∈ applied)
    (fresh : ∀ pd ∈ update.registers, pd ∉ polled.map (·.key)) :
    Survives polled (update.onNotifications calls) fun pd => .removeDescriptor pd ∈ applied ++ [update] := by
  cases update with
  | register pd fd events queue block =>
    refine (survives.put rfl).congr fun n mem => ?_
    have other : n.key ≠ pd := fun same => fresh pd rfl (same ▸ List.mem_map_of_mem mem)
    simp [other]
  | addEvents pd events =>
    refine survives.congr fun n mem => ?_
    simp
  | removeEvents pd events =>
    refine survives.congr fun n mem => ?_
    simp
  | removeDescriptor pd =>
    refine (survives.delete pd).congr fun n mem => ?_
    simp

end Update

namespace PollState
variable {s t : PollState B}

/-- What holds of the table at any time. -/
structure Sound (s : PollState B) : Prop where
  fresh : s.poll.Fresh (s.table.notifications.map (·.key))
  signs : ∀ n ∈ s.table.notifications, 0 ≤ n.revents.toInt

/-- What holds from `poll` to the pass. -/
structure Between (polled : List (Notification PollDescriptor Nat B)) (s : PollState B) : Prop where
  fresh : s.poll.Fresh (polled.map (·.key))
  survives : Survives polled s.table.notifications fun pd => .removeDescriptor pd ∈ s.applied
  count : s.socksToHandle = polled.countP Notification.ready
  start : s.notified = []

theorem Sound.keys (sound : s.Sound) : (s.table.notifications.map (·.key)).Nodup :=
  sound.fresh.distinct.sublist (List.sublist_append_left _ _)

theorem Sound.create : (pollStateCreate : PollState B).Sound := by
  constructor
  · exact ⟨List.nodup_nil, by simp [pollStateCreate, PollTable.notifications, pollCreate, Poll.registering]⟩
  · simp [pollStateCreate, PollTable.notifications]

theorem Sound.applyNext (sound : s.Sound) (applied : s.applyNext = some t) : t.Sound := by
  rw [PollState.applyNext] at applied
  split at applied
  · obtain rfl := Option.some.inj applied
    exact sound
  · rename_i update rest waiting
    rw [Option.map_eq_some_iff] at applied
    obtain ⟨table, updated, rfl⟩ := applied
    have next := sound.fresh.next waiting
    have view := notifications_apply updated next
    constructor
    · simp only [view]
      exact (sound.fresh.dequeue waiting).subperm (keys_onNotifications sound.keys next)
    · intro n mem
      simp only [view] at mem
      rcases mem_onNotifications sound.keys mem with old | idle
      · exact sound.signs n old
      · rw [idle]
        exact Int.le_refl 0

theorem Sound.step (sound : s.Sound) (taken : s.step action = some t) : t.Sound := by
  cases action with
  | request request =>
    obtain rfl := Option.some.inj taken
    exact ⟨sound.fresh.call request, sound.signs⟩
  | applyNext => exact sound.applyNext taken

theorem Sound.updates (steps : List (UpdateStep B)) :
    ∀ {s : PollState B}, s.Sound → s.updates steps = some t → t.Sound := by
  induction steps with
  | nil =>
    intro s sound taken
    obtain rfl := Option.some.inj taken
    exact sound
  | cons step rest ih =>
    intro s sound taken
    obtain ⟨next, first, later⟩ := Option.bind_eq_some_iff.mp taken
    exact ih (sound.step first) later

/-- `poll` is called on entries with different descriptors. -/
theorem Sound.callPoll (sound : s.Sound) (revents : Nat → Revents) :
    (s.callPoll revents).Sound ∧ Between (s.callPoll revents).table.notifications (s.callPoll revents) := by
  have keys : (s.callPoll revents).table.notifications.map (·.key) = s.table.notifications.map (·.key) := by
    simp only [PollState.callPoll, PollTable.notifications, List.map_map]
    apply List.ext_getElem?
    intro i
    rw [List.getElem?_map, List.getElem?_map, List.getElem?_mapIdx, Option.map_map]
    rfl
  have fresh : (s.callPoll revents).poll.Fresh ((s.callPoll revents).table.notifications.map (·.key)) := by
    rw [keys]
    exact sound.fresh
  refine ⟨⟨fresh, ?_⟩, ⟨fresh, ?_, ?_, rfl⟩⟩
  · intro n mem
    obtain ⟨entry, stored, rfl⟩ := List.mem_map.mp mem
    obtain ⟨i, _, rfl⟩ := List.mem_mapIdx.mp stored
    exact (revents i).property
  · refine (Survives.refl ?_).congr fun n mem => ?_
    · rw [keys]
      exact sound.keys
    · simp [PollState.callPoll]
  · rw [PollTable.notifications, List.countP_map]
    rfl

theorem Between.applyNext {polled : List (Notification PollDescriptor Nat B)} (sound : s.Sound)
    (between : Between polled s) (applied : s.applyNext = some t) : Between polled t := by
  rw [PollState.applyNext] at applied
  split at applied
  · obtain rfl := Option.some.inj applied
    exact between
  · rename_i update rest waiting
    rw [Option.map_eq_some_iff] at applied
    obtain ⟨table, updated, rfl⟩ := applied
    have view := notifications_apply updated (sound.fresh.next waiting)
    refine ⟨?_, ?_, between.count, between.start⟩
    · exact (between.fresh.dequeue waiting).subperm (List.sublist_append_left _ _).subperm
    · simp only [view]
      exact survives_onNotifications between.survives (between.fresh.next waiting)

theorem Between.step {polled : List (Notification PollDescriptor Nat B)} (sound : s.Sound)
    (between : Between polled s) (taken : s.step action = some t) : Between polled t := by
  cases action with
  | request request =>
    obtain rfl := Option.some.inj taken
    exact ⟨between.fresh.call request, between.survives, between.count, between.start⟩
  | applyNext => exact between.applyNext sound taken

theorem Between.updates {polled : List (Notification PollDescriptor Nat B)} (steps : List (UpdateStep B)) :
    ∀ {s : PollState B}, s.Sound → Between polled s → s.updates steps = some t → Between polled t := by
  induction steps with
  | nil =>
    intro s _ between taken
    obtain rfl := Option.some.inj taken
    exact between
  | cons step rest ih =>
    intro s sound between taken
    obtain ⟨next, first, later⟩ := Option.bind_eq_some_iff.mp taken
    exact ih (sound.step first) (between.step sound first) later

/-- The state of the pass: the table stays, and what was met is called. -/
structure Passing (s : PollState B) (met : List (PollEntry PollDescriptor B)) (t : PollState B) : Prop where
  table : t.table = s.table
  notified : t.notified = s.notified ++ met.map PollEntry.notification
  fresh : t.poll.Fresh (s.table.notifications.map (·.key))

theorem Sound.meets (sound : s.Sound) (meanwhile : Nat → List (PollRequest B)) :
    CountedScan.Meets socksToHandle (visit meanwhile) (·.notification.ready) s.table (Passing s) where
  counted := by
    intro i entry met t found ready more passing
    have sign : 0 ≤ entry.revents.toInt :=
      sound.signs _ (List.mem_map_of_mem (List.mem_of_getElem? found))
    have positive : 0 < entry.revents.toInt := (revents_pos_iff sign).mpr (of_decide_eq_true ready)
    rw [visit, passing.table, found]
    simp only [if_pos positive]
    refine ⟨_, rfl, Nat.sub_add_cancel more, rfl, ?_, passing.fresh.calls _⟩
    rw [passing.notified, List.map_append, List.append_assoc]
    rfl
  skipped := by
    intro i entry met t found idle passing
    have sign : 0 ≤ entry.revents.toInt :=
      sound.signs _ (List.mem_map_of_mem (List.mem_of_getElem? found))
    have zero : ¬0 < entry.revents.toInt := by
      rw [revents_pos_iff sign]
      exact of_decide_eq_false idle
    rw [visit, passing.table, found]
    simp only [if_neg zero]
    exact ⟨t, rfl, rfl, passing⟩

/-- The pass calls what is ready of the table, which is at most what `poll` has returned. -/
theorem Sound.pass {polled : List (Notification PollDescriptor Nat B)} (sound : s.Sound)
    (between : Between polled s) (meanwhile : Nat → List (PollRequest B)) :
    ∃ done, s.pass meanwhile = some done ∧ done.Sound ∧
      done.notified = s.table.notifications.filter Notification.ready := by
  have bound := between.survives.count
  rw [← between.count, PollTable.notifications, List.countP_map] at bound
  obtain ⟨done, passed, passing⟩ := (sound.meets meanwhile).loop
    ⟨rfl, (List.append_nil _).symm, sound.fresh⟩ bound
  refine ⟨done, passed, ?_, ?_⟩
  · constructor
    · rw [passing.table]
      exact passing.fresh
    · rw [passing.table]
      exact sound.signs
  · rw [passing.notified, between.start, List.nil_append, PollTable.notifications, List.filter_map]
    rfl

theorem Sound.round {round : PollRound B} (sound : s.Sound) (taken : s.round round = some t) : t.Sound := by
  obtain ⟨called, before, later⟩ := Option.bind_eq_some_iff.mp taken
  obtain ⟨present, after, passed⟩ := Option.bind_eq_some_iff.mp later
  obtain ⟨polled, between⟩ := (sound.updates _ before).callPoll round.revents
  have still := polled.updates _ after
  obtain ⟨done, same, kept, _⟩ := still.pass (between.updates _ polled after) round.meanwhile
  obtain rfl := Option.some.inj (same.symm.trans passed)
  exact kept

theorem Sound.rounds (rounds : List (PollRound B)) :
    ∀ {s : PollState B}, s.Sound → rounds.foldlM PollState.round s = some t → t.Sound := by
  induction rounds with
  | nil =>
    intro s sound taken
    obtain rfl := Option.some.inj taken
    exact sound
  | cons round rest ih =>
    intro s sound taken
    obtain ⟨next, first, later⟩ := Option.bind_eq_some_iff.mp taken
    exact ih (sound.round first) later

/-- The pass of any round, after any rounds. -/
theorem pass_notifies {round : PollRound B} {called present : PollState B}
    (reached : pollRounds rounds = some s)
    (before : s.updates round.beforePoll = some called)
    (after : (called.callPoll round.revents).updates round.afterPoll = some present) :
    ∃ done, present.pass round.meanwhile = some done ∧
      NotifiesReady (called.callPoll round.revents).table.notifications present.table.notifications
        (fun pd => .removeDescriptor pd ∈ present.applied) done.notified := by
  have sound := (Sound.create.rounds rounds reached).updates _ before
  obtain ⟨polled, start⟩ := sound.callPoll round.revents
  have between := start.updates _ polled after
  obtain ⟨done, passed, _, notified⟩ := (polled.updates _ after).pass between round.meanwhile
  refine ⟨done, passed, ?_⟩
  rw [notified]
  exact between.survives.notifiesReady

end PollState

end KommunikationNetze.Chat
