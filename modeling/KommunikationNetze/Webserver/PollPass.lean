import KommunikationNetze.Webserver.PollTableMap
import KommunikationNetze.Library.CountedScan
import KommunikationNetze.Net.PollNotification

/-! The rounds of the poll thread of the web server, on its two arrays. Before the block of a
one-shot entry is called, the removal of its descriptor is enqueued. -/
namespace KommunikationNetze.Webserver
open Net SlotArray
variable {β κ : Type}

abbrev kPollRepeatFlag : BitVec 32 := 0x2#32

/-- A call on the poll. Only the thread itself has the descriptor `updateFDs[0]`, which it
registers to be repeated. -/
def TableCall.Requests (updateFD : Int) : TableCall β κ → Prop
  | register fd _ flags _ _ => fd = updateFD → flags &&& kPollRepeatFlag ≠ 0
  | unregister _ => True
  | applyNext => False

abbrev PollRequest (β κ : Type) (updateFD : Int) :=
  { call : TableCall β κ // call.Requests updateFD }

def PollTable.request {updateFD : Int} (table : PollTable β κ) (request : PollRequest β κ updateFD) :
    PollTable β κ := request.val.run table

namespace PollTable
variable (table : PollTable β κ)

def slotPoll (i : Nat) : PollFD := table.polls[i]?.getD zeroPollFD

/-- `poll` stores `revents` in the first `numOfPolls` entries. -/
def callPoll (revents : Nat → Revents) : PollTable β κ :=
  { table with
    polls := table.polls.mapIdx fun i poll =>
      if i < table.numOfPolls then { poll with revents := (revents i).val } else poll }

/-- What `poll` returns: how many of them are not zero. -/
def readyCount : Nat := (table.polls.take table.numOfPolls).countP (·.revents ≠ 0)

end PollTable

/-- The call of the block of the slot, which must not be NULL. -/
def notificationOf (poll : PollFD) (info : PollInfo β κ) : Notification Int κ (Option β) :=
  { key := poll.fd, queue := info.queue, block := info.block, revents := poll.revents }

def PollTable.notifications (table : PollTable β κ) : List (Notification Int κ (Option β)) :=
  List.zipWith notificationOf (table.polls.take table.numOfPolls) (table.pollInfos.take table.numOfPolls)

/-- The updates applied since `poll` has returned and the blocks called in the pass are
recorded and never read. -/
structure PollState (β κ : Type) (updateFD : Int) where
  table : PollTable β κ
  socksToHandle : Nat
  applied : List (TableUpdate β κ)
  notified : List (Notification Int κ (Option β))

variable {updateFD : Int}

def pollStateCreate : PollState β κ updateFD :=
  { table := tableCreate, socksToHandle := 0, applied := [], notified := [] }

/-- A call of any thread, or one round of the loop of `PollApplyUpdates`. -/
inductive UpdateStep (β κ : Type) (updateFD : Int) where
  | request (request : PollRequest β κ updateFD)
  | applyNext

namespace PollState
variable (s : PollState β κ updateFD)

def step (s : PollState β κ updateFD) : UpdateStep β κ updateFD → PollState β κ updateFD
  | .request request => { s with table := s.table.request request }
  | .applyNext =>
    { s with table := s.table.applyNext, applied := s.applied ++ s.table.updateQueue.head?.toList }

def updates (steps : List (UpdateStep β κ updateFD)) : PollState β κ updateFD := steps.foldl step s

def callPoll (revents : Nat → Revents) : PollState β κ updateFD :=
  let table := s.table.callPoll revents
  { table, socksToHandle := table.readyCount, applied := [], notified := [] }

/-- The body of the loop over the entries. There is no result if the assertion fails or the
block is NULL. While the block is called, updates are enqueued. -/
def visit (meanwhile : Nat → List (PollRequest β κ updateFD)) (i : Nat)
    (s : PollState β κ updateFD) : Option (PollState β κ updateFD) :=
  let poll := s.table.slotPoll i
  let info := s.table.slotInfo i
  let oneShot := info.flags &&& kPollRepeatFlag = 0
  if 0 < poll.revents.toInt then
    if oneShot ∧ updateFD = poll.fd ∨ info.block.isNone then none
    else
      let table := if oneShot then s.table.unregister poll.fd else s.table
      some { s with
        table := (meanwhile i).foldl PollTable.request table
        socksToHandle := s.socksToHandle - 1
        notified := s.notified ++ [notificationOf poll info] }
  else some s

def pass (meanwhile : Nat → List (PollRequest β κ updateFD)) : Option (PollState β κ updateFD) :=
  CountedScan.loop socksToHandle (visit meanwhile) 0 s.table.numOfPolls s

end PollState

/-- What happens in one round of the thread: until `poll` is called, what it stores, until the
pass begins, and while the block of an entry is called. -/
structure PollRound (β κ : Type) (updateFD : Int) where
  beforePoll : List (UpdateStep β κ updateFD)
  revents : Nat → Revents
  afterPoll : List (UpdateStep β κ updateFD)
  meanwhile : Nat → List (PollRequest β κ updateFD)

namespace PollState

/-- The table that `poll` has returned with, and that of the pass. -/
def polled (s : PollState β κ updateFD) (round : PollRound β κ updateFD) : PollState β κ updateFD :=
  (s.updates round.beforePoll).callPoll round.revents

def present (s : PollState β κ updateFD) (round : PollRound β κ updateFD) : PollState β κ updateFD :=
  (s.polled round).updates round.afterPoll

/-- A round in which `poll` does not fail. -/
def round (s : PollState β κ updateFD) (round : PollRound β κ updateFD) :
    Option (PollState β κ updateFD) := (s.present round).pass round.meanwhile

end PollState

def pollRounds (rounds : List (PollRound β κ updateFD)) : Option (PollState β κ updateFD) :=
  rounds.foldlM PollState.round pollStateCreate

section Entries
variable {table : PollTable β κ} {entries : List (TableUpdate β κ)} {free : Nat}

def TableUpdate.notification (entry : TableUpdate β κ) : Notification Int κ (Option β) :=
  notificationOf entry.poll entry.pollInfo

theorem PollTable.Entries.notifications (holds : table.Entries entries free) :
    table.notifications = entries.map TableUpdate.notification := by
  have polls : table.numOfPolls = (entries.map (·.poll)).length := by
    rw [holds.numOfPolls, List.length_map]
  have infos : table.numOfPolls = (entries.map (·.pollInfo)).length := by
    rw [holds.numOfPolls, List.length_map]
  rw [PollTable.notifications]
  nth_rewrite 1 [polls]
  rw [infos, holds.polls.take, holds.pollInfos.take, List.zipWith_map, List.zipWith_self]
  rfl

theorem PollTable.Entries.slotPoll (holds : table.Entries entries free) (found : entries[i]? = some entry) :
    table.slotPoll i = entry.poll := by
  obtain ⟨inside, _⟩ := List.getElem?_eq_some_iff.mp found
  rw [PollTable.slotPoll, holds.polls.get (by simpa using inside), List.getElem?_map, found]
  rfl

/-- What `poll` makes of the entries. -/
def polledEntries (entries : List (TableUpdate β κ)) (revents : Nat → Revents) : List (TableUpdate β κ) :=
  entries.mapIdx fun i entry => { entry with poll := { entry.poll with revents := (revents i).val } }

theorem polledEntries_map {γ : Type} (f : TableUpdate β κ → γ)
    (same : ∀ entry revents, f { entry with poll := { entry.poll with revents } } = f entry) :
    (polledEntries entries revents).map f = entries.map f := by
  apply List.ext_getElem?
  intro i
  rw [polledEntries, List.getElem?_map, List.getElem?_map, List.getElem?_mapIdx, Option.map_map]
  cases entries[i]? with
  | none => rfl
  | some entry => exact congrArg some (same entry _)

theorem PollTable.Entries.callPoll (holds : table.Entries entries free) (revents : Nat → Revents) :
    (table.callPoll revents).Entries (polledEntries entries revents) free := by
  have length : (polledEntries entries revents).length = entries.length := List.length_mapIdx
  constructor
  · rw [Holds]
    apply List.ext_getElem?
    intro i
    simp only [PollTable.callPoll, holds.numOfPolls]
    rw [List.getElem?_mapIdx, holds.polls]
    by_cases inside : i < entries.length
    · rw [List.getElem?_append_left (by simpa using inside),
        List.getElem?_append_left (by simpa [length] using inside), List.getElem?_map, List.getElem?_map,
        polledEntries, List.getElem?_mapIdx]
      cases entries[i]? with
      | none => rfl
      | some entry => simp [inside]
    · rw [List.getElem?_append_right (by simpa using inside),
        List.getElem?_append_right (by simpa [length] using inside)]
      simp [length, inside]
  · rw [polledEntries_map _ fun _ _ => rfl]
    exact holds.pollInfos
  · rw [length]
    exact holds.numOfPolls
  · rw [length]
    exact holds.numOfSlots
  · exact holds.slot
  · rw [polledEntries_map _ fun _ _ => rfl]
    exact holds.keys

/-- A registration is idle in the place of the one with its descriptor. -/
def TableUpdate.onNotifications (calls : List (Notification Int κ (Option β))) (update : TableUpdate β κ) :
    List (Notification Int κ (Option β)) :=
  match update.pollInfo.block with
  | some _ => KeyedList.put (·.key) calls update.notification
  | none => KeyedList.delete (·.key) calls update.poll.fd

theorem applyEntry_notifications (entries : List (TableUpdate β κ)) (update : TableUpdate β κ) :
    (applyEntry entries update).map TableUpdate.notification =
      update.onNotifications (entries.map TableUpdate.notification) := by
  rw [applyEntry, TableUpdate.onNotifications]
  cases update.pollInfo.block with
  | some block => exact KeyedList.put_map fdOf (·.key) TableUpdate.notification (fun _ => rfl) entries update
  | none =>
    exact KeyedList.delete_map fdOf (·.key) TableUpdate.notification (fun _ => rfl) entries update.poll.fd

/-- The registration of the descriptor was removed or replaced. -/
def Ended (applied : List (TableUpdate β κ)) (fd : Int) : Prop :=
  ∃ update ∈ applied, update.poll.fd = fd

theorem ended_append (applied : List (TableUpdate β κ)) (update : TableUpdate β κ) (fd : Int) :
    Ended (applied ++ [update]) fd ↔ Ended applied fd ∨ fd = update.poll.fd := by
  simp only [Ended, List.mem_append, List.mem_singleton, or_and_right, exists_or, exists_eq_left]
  exact or_congr_right eq_comm

/-- An update ends the registration of its descriptor. -/
theorem survives_onNotifications {polled calls : List (Notification Int κ (Option β))}
    {applied : List (TableUpdate β κ)} {update : TableUpdate β κ}
    (survives : Survives polled calls (Ended applied)) (idle : update.poll.revents = 0) :
    Survives polled (update.onNotifications calls) (Ended (applied ++ [update])) := by
  rw [TableUpdate.onNotifications]
  cases update.pollInfo.block with
  | some block => exact (survives.put idle).congr fun n _ => (ended_append applied update n.key).symm
  | none =>
    exact (survives.delete update.poll.fd).congr fun n _ => (ended_append applied update n.key).symm

end Entries

/-- What holds of an update that waits. -/
structure TableUpdate.Queued (updateFD : Int) (update : TableUpdate β κ) : Prop where
  idle : update.poll.revents = 0
  repeated : update.pollInfo.block.isSome → update.poll.fd = updateFD →
    update.pollInfo.flags &&& kPollRepeatFlag ≠ 0

/-- What holds of the table at any time. -/
structure PollTable.Sound (updateFD : Int) (table : PollTable β κ) (entries : List (TableUpdate β κ))
    (free : Nat) : Prop where
  holds : table.Entries entries free
  signs : ∀ entry ∈ entries, 0 ≤ entry.poll.revents.toInt
  blocks : ∀ entry ∈ entries, entry.pollInfo.block.isSome
  repeated : ∀ entry ∈ entries, entry.poll.fd = updateFD → entry.pollInfo.flags &&& kPollRepeatFlag ≠ 0
  queued : ∀ update ∈ table.updateQueue, update.Queued updateFD

namespace PollTable.Sound
variable {table : PollTable β κ} {entries : List (TableUpdate β κ)} {free : Nat}

theorem create : (tableCreate : PollTable β κ).Sound updateFD [] 10 where
  holds := Entries.create
  signs _ mem := absurd mem List.not_mem_nil
  blocks _ mem := absurd mem List.not_mem_nil
  repeated _ mem := absurd mem List.not_mem_nil
  queued _ mem := absurd mem List.not_mem_nil

theorem enqueue (sound : table.Sound updateFD entries free) (update : TableUpdate β κ)
    (queued : update.Queued updateFD) (retained : List κ) :
    ({ table with updateQueue := table.updateQueue ++ [update], retained } : PollTable β κ).Sound
      updateFD entries free where
  holds := sound.holds.enqueue _ _
  signs := sound.signs
  blocks := sound.blocks
  repeated := sound.repeated
  queued other mem := by
    rcases List.mem_append.mp mem with old | new
    · exact sound.queued other old
    · rwa [List.mem_singleton.mp new]

theorem unregister (sound : table.Sound updateFD entries free) (fd : Int) :
    (table.unregister fd).Sound updateFD entries free :=
  sound.enqueue (unregisterUpdate fd) ⟨rfl, fun given => absurd given Bool.false_ne_true⟩ table.retained

theorem request (sound : table.Sound updateFD entries free) (request : PollRequest β κ updateFD) :
    (table.request request).Sound updateFD entries free := by
  obtain ⟨call, allowed⟩ := request
  cases call with
  | register fd events flags queue block =>
    exact sound.enqueue (registerUpdate fd events flags queue block) ⟨rfl, fun _ => allowed⟩ _
  | unregister fd => exact sound.unregister fd
  | applyNext => exact allowed.elim

theorem requests (sound : table.Sound updateFD entries free) (requests : List (PollRequest β κ updateFD)) :
    (requests.foldl PollTable.request table).Sound updateFD entries free := by
  induction requests generalizing table with
  | nil => exact sound
  | cons request rest ih => exact ih (sound.request request)

theorem applyNext (sound : table.Sound updateFD entries free) (waiting : table.updateQueue = update :: rest) :
    ∃ more, table.applyNext.Sound updateFD (applyEntry entries update) more := by
  have first : update.Queued updateFD := sound.queued update (waiting ▸ List.mem_cons_self)
  obtain ⟨more, holds, _⟩ := (sound.holds.enqueue rest table.retained).applyUpdate update
  have queue := (({ table with updateQueue := rest } : PollTable β κ).applyUpdate_frame update).1
  rw [PollTable.applyNext, waiting]
  refine ⟨more, holds, ?_, ?_, ?_, ?_⟩
  · intro entry mem
    rcases mem_applyEntry sound.holds.keys mem with old | ⟨rfl, _⟩
    · exact sound.signs entry old
    · rw [first.idle]
      exact Int.le_refl 0
  · intro entry mem
    rcases mem_applyEntry sound.holds.keys mem with old | ⟨rfl, given⟩
    · exact sound.blocks entry old
    · exact given
  · intro entry mem
    rcases mem_applyEntry sound.holds.keys mem with old | ⟨rfl, given⟩
    · exact sound.repeated entry old
    · exact first.repeated given
  · intro other mem
    rw [queue] at mem
    exact sound.queued other (waiting ▸ List.mem_cons_of_mem _ mem)

theorem callPoll (sound : table.Sound updateFD entries free) (revents : Nat → Revents) :
    (table.callPoll revents).Sound updateFD (polledEntries entries revents) free where
  holds := sound.holds.callPoll revents
  signs entry mem := by
    obtain ⟨i, _, rfl⟩ := List.mem_mapIdx.mp mem
    exact (revents i).property
  blocks entry mem := by
    obtain ⟨i, inside, rfl⟩ := List.mem_mapIdx.mp mem
    exact sound.blocks entries[i] (List.getElem_mem inside)
  repeated entry mem := by
    obtain ⟨i, inside, rfl⟩ := List.mem_mapIdx.mp mem
    exact sound.repeated entries[i] (List.getElem_mem inside)
  queued := sound.queued

end PollTable.Sound

namespace PollState
variable {s : PollState β κ updateFD}

def Sound (s : PollState β κ updateFD) : Prop :=
  ∃ entries free, s.table.Sound updateFD entries free

/-- What holds from `poll` to the pass. -/
structure Between (polled : List (Notification Int κ (Option β))) (s : PollState β κ updateFD) : Prop where
  survives : Survives polled s.table.notifications (Ended s.applied)
  count : s.socksToHandle = polled.countP Notification.ready
  start : s.notified = []

variable {polled : List (Notification Int κ (Option β))}

theorem Sound.create : (pollStateCreate : PollState β κ updateFD).Sound :=
  ⟨[], 10, PollTable.Sound.create⟩

theorem Sound.step (sound : s.Sound) (action : UpdateStep β κ updateFD) : (s.step action).Sound := by
  obtain ⟨entries, free, table⟩ := sound
  cases action with
  | request request => exact ⟨entries, free, table.request request⟩
  | applyNext =>
    cases waiting : s.table.updateQueue with
    | nil =>
      refine ⟨entries, free, ?_⟩
      simp only [PollState.step, PollTable.applyNext, waiting]
      exact table
    | cons update rest =>
      obtain ⟨more, applied⟩ := table.applyNext waiting
      exact ⟨_, more, applied⟩

theorem Between.step (sound : s.Sound) (between : Between polled s) (action : UpdateStep β κ updateFD) :
    Between polled (s.step action) := by
  obtain ⟨entries, free, table⟩ := sound
  have calls := table.holds.notifications
  cases action with
  | request request =>
    have same := (table.request request).holds.notifications
    rw [← calls] at same
    refine ⟨?_, between.count, between.start⟩
    simp only [PollState.step, same]
    exact between.survives
  | applyNext =>
    cases waiting : s.table.updateQueue with
    | nil =>
      have same : s.step .applyNext = s := by
        simp only [PollState.step, PollTable.applyNext, waiting, List.head?_nil, Option.toList_none,
          List.append_nil]
      rw [same]
      exact between
    | cons update rest =>
      obtain ⟨more, applied⟩ := table.applyNext waiting
      have view := applied.holds.notifications
      rw [applyEntry_notifications, ← calls] at view
      have idle := (table.queued update (waiting ▸ List.mem_cons_self)).idle
      refine ⟨?_, between.count, between.start⟩
      simp only [PollState.step, view, waiting, List.head?_cons, Option.toList_some]
      exact survives_onNotifications between.survives idle

theorem Sound.updates (steps : List (UpdateStep β κ updateFD)) :
    ∀ {s : PollState β κ updateFD}, s.Sound → (s.updates steps).Sound := by
  induction steps with
  | nil =>
    intro s sound
    exact sound
  | cons step rest ih =>
    intro s sound
    exact ih (sound.step step)

theorem Between.updates (steps : List (UpdateStep β κ updateFD)) :
    ∀ {s : PollState β κ updateFD}, s.Sound → Between polled s → Between polled (s.updates steps) := by
  induction steps with
  | nil =>
    intro s _ between
    exact between
  | cons step rest ih =>
    intro s sound between
    exact ih (sound.step step) (between.step sound step)

theorem Sound.callPoll (sound : s.Sound) (revents : Nat → Revents) :
    (s.callPoll revents).Sound ∧ Between (s.callPoll revents).table.notifications (s.callPoll revents) := by
  obtain ⟨entries, free, table⟩ := sound
  have called := table.callPoll revents
  have calls := called.holds.notifications
  refine ⟨⟨_, free, called⟩, ?_, ?_, rfl⟩
  · refine (Survives.refl ?_).congr fun n mem => ?_
    · simp only [PollState.callPoll, calls, List.map_map]
      exact called.holds.keys
    · simp [PollState.callPoll, Ended]
  · have polls := called.holds.polls.take
    rw [List.length_map, ← called.holds.numOfPolls] at polls
    simp only [PollState.callPoll, calls, PollTable.readyCount, polls, List.countP_map]
    rfl

section Pass
variable {entries : List (TableUpdate β κ)} {free : Nat}

/-- The state of the pass: the entries stay, and what was met is called. -/
structure Passing (s : PollState β κ updateFD) (entries : List (TableUpdate β κ)) (free : Nat)
    (met : List (TableUpdate β κ)) (t : PollState β κ updateFD) : Prop where
  table : t.table.Sound updateFD entries free
  notified : t.notified = s.notified ++ met.map TableUpdate.notification

theorem visit_ready {t : PollState β κ updateFD} (table : t.table.Sound updateFD entries free)
    (found : entries[i]? = some entry) (positive : 0 < entry.poll.revents.toInt)
    (meanwhile : Nat → List (PollRequest β κ updateFD)) :
    ∃ after, t.visit meanwhile i = some after ∧ after.table.Sound updateFD entries free ∧
      after.socksToHandle = t.socksToHandle - 1 ∧
      after.notified = t.notified ++ [entry.notification] := by
  have stored := List.mem_of_getElem? found
  -- The assertion holds: the thread's own entry is repeated.
  have allowed : ¬(entry.pollInfo.flags &&& kPollRepeatFlag = 0 ∧ updateFD = entry.poll.fd ∨
      entry.pollInfo.block.isNone = true) := by
    rintro (⟨oneShot, same⟩ | null)
    · exact table.repeated entry stored same.symm oneShot
    · exact absurd (table.blocks entry stored) (by simpa using null)
  have asked : (if entry.pollInfo.flags &&& kPollRepeatFlag = 0 then t.table.unregister entry.poll.fd
      else t.table).Sound updateFD entries free := by
    split
    · exact table.unregister entry.poll.fd
    · exact table
  simp only [visit, table.holds.slotPoll found, table.holds.slotInfo found, if_pos positive,
    if_neg allowed]
  exact ⟨_, rfl, asked.requests (meanwhile i), rfl, rfl⟩

theorem meets (signs : ∀ entry ∈ entries, 0 ≤ entry.poll.revents.toInt)
    (meanwhile : Nat → List (PollRequest β κ updateFD)) :
    CountedScan.Meets socksToHandle (visit meanwhile) (·.notification.ready) entries
      (Passing s entries free) where
  counted := by
    intro i entry met t found ready more passing
    have sign := signs entry (List.mem_of_getElem? found)
    have positive := (revents_pos_iff sign).mpr (of_decide_eq_true ready)
    obtain ⟨after, visited, table, count, notified⟩ :=
      visit_ready passing.table found positive meanwhile
    refine ⟨after, visited, ?_, table, ?_⟩
    · rw [count]
      exact Nat.sub_add_cancel more
    · rw [notified, passing.notified, List.map_append, List.append_assoc]
      rfl
  skipped := by
    intro i entry met t found idle passing
    have sign := signs entry (List.mem_of_getElem? found)
    have zero : ¬0 < entry.poll.revents.toInt := by
      rw [revents_pos_iff sign]
      exact of_decide_eq_false idle
    simp only [visit, passing.table.holds.slotPoll found, if_neg zero]
    exact ⟨t, rfl, rfl, passing⟩

end Pass

/-- The pass calls what is ready of the table, which is at most what `poll` has returned. -/
theorem Sound.pass (sound : s.Sound) (between : Between polled s)
    (meanwhile : Nat → List (PollRequest β κ updateFD)) :
    ∃ done, s.pass meanwhile = some done ∧ done.Sound ∧
      done.notified = s.table.notifications.filter Notification.ready := by
  obtain ⟨entries, free, table⟩ := sound
  have calls := table.holds.notifications
  have bound := between.survives.count
  rw [← between.count, calls, List.countP_map] at bound
  obtain ⟨done, passed, passing⟩ := (meets table.signs meanwhile).loop
    ⟨table, (List.append_nil _).symm⟩ bound
  refine ⟨done, ?_, ⟨entries, free, passing.table⟩, ?_⟩
  · rw [PollState.pass, table.holds.numOfPolls]
    exact passed
  · rw [passing.notified, between.start, List.nil_append, calls, List.filter_map]
    rfl

/-- Between `poll` and the pass of a round. -/
theorem Sound.present (sound : s.Sound) (round : PollRound β κ updateFD) :
    (s.present round).Sound ∧ Between (s.polled round).table.notifications (s.present round) := by
  obtain ⟨polled, start⟩ := (sound.updates round.beforePoll).callPoll round.revents
  exact ⟨polled.updates round.afterPoll, start.updates round.afterPoll polled⟩

theorem Sound.rounds (rounds : List (PollRound β κ updateFD)) :
    ∀ {s : PollState β κ updateFD}, s.Sound →
      ∃ t, rounds.foldlM PollState.round s = some t ∧ t.Sound := by
  induction rounds with
  | nil =>
    intro s sound
    exact ⟨s, rfl, sound⟩
  | cons round rest ih =>
    intro s sound
    obtain ⟨present, between⟩ := sound.present round
    obtain ⟨next, passed, kept, _⟩ := present.pass between round.meanwhile
    obtain ⟨t, later, final⟩ := ih kept
    refine ⟨t, ?_, final⟩
    rw [List.foldlM_cons, PollState.round, passed]
    exact later

/-- The pass of any round, after any rounds. -/
theorem pass_notifies (rounds : List (PollRound β κ updateFD)) (round : PollRound β κ updateFD) :
    ∃ s done, pollRounds rounds = some s ∧ s.round round = some done ∧
      NotifiesReady (s.polled round).table.notifications (s.present round).table.notifications
        (Ended (s.present round).applied) done.notified := by
  obtain ⟨s, reached, sound⟩ := Sound.create.rounds rounds
  obtain ⟨present, between⟩ := sound.present round
  obtain ⟨done, passed, _, notified⟩ := present.pass between round.meanwhile
  refine ⟨s, done, reached, passed, ?_⟩
  rw [notified]
  exact between.survives.notifiesReady

end PollState

end KommunikationNetze.Webserver
