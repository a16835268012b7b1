import KommunikationNetze.Webserver.PollTableMap
import KommunikationNetze.Library.Transition

/-! The references of the poll on dispatch queues. Each is due to an entry or to an update
that is not applied yet, but for those that removals lose. -/
namespace KommunikationNetze.Webserver
open SlotArray
variable {β κ : Type}

namespace PollTable

/-- The next round of `PollApplyUpdates` removes an entry that refers to the queue. -/
def RemovesReferring (table : PollTable β κ) (queue : κ) : Prop :=
  ∃ update rest, table.updateQueue = update :: rest ∧ update.pollInfo.block = none ∧
    ∃ i, table.indexOf update.poll.fd = some i ∧ (table.slotInfo i).queue = some queue

end PollTable

/-- Only registrations bring a queue. -/
theorem removal_queue {call : TableCall β κ} {update : TableUpdate β κ}
    (issued : call.update = some update) (removal : update.pollInfo.block = none) :
    update.pollInfo.queue = none := by
  cases call with
  | register fd events flags queue block =>
    obtain rfl := Option.some.inj issued
    cases removal
  | unregister fd =>
    obtain rfl := Option.some.inj issued
    rfl
  | applyNext => cases issued

/-- A removal that waits was enqueued by `PollUnregister`. -/
theorem removal_waiting {calls : List (TableCall β κ)} {applied : List (TableUpdate β κ)}
    (issued : calls.filterMap TableCall.update = applied ++ update :: rest)
    (removal : update.pollInfo.block = none) : update.pollInfo.queue = none := by
  have mem : update ∈ calls.filterMap TableCall.update := by
    rw [issued]
    exact List.mem_append_right _ List.mem_cons_self
  obtain ⟨call, _, given⟩ := List.mem_filterMap.mp mem
  exact removal_queue given removal

/-- No round in these calls removes an entry that refers to the queue. -/
def KeepsReferences (calls : List (TableCall β κ)) (queue : κ) : Prop :=
  Transition.EveryStep (fun before call =>
    call = .applyNext → ¬(tableAfter before).RemovesReferring queue) calls

variable [DecidableEq κ]

namespace PollTable

/-- The calls of `Retain` on the queue minus those of `Release`. -/
def references (table : PollTable β κ) (queue : κ) : Int :=
  table.retained.count queue - table.released.count queue

/-- The entries and the updates that are not applied yet and refer to the queue. -/
def referring (table : PollTable β κ) (queue : κ) : Nat :=
  (table.pollInfos.take table.numOfPolls).countP (·.queue = some queue) +
    table.updateQueue.countP (·.pollInfo.queue = some queue)

end PollTable

def RefersTo (queue : κ) (entry : TableUpdate β κ) : Bool := entry.pollInfo.queue = some queue

/-- The references that the update loses: the one of the entry it removes. -/
def lostBy (entries : List (TableUpdate β κ)) (update : TableUpdate β κ) : Option (TableUpdate β κ) :=
  match update.pollInfo.block with
  | some _ => none
  | none => KeyedList.lookup fdOf entries update.poll.fd

section Update
variable {entries : List (TableUpdate β κ)} {update : TableUpdate β κ}

theorem count_queue (entry : Option (TableUpdate β κ)) (queue : κ) :
    (entry.bind (·.pollInfo.queue)).toList.count queue = entry.toList.countP (RefersTo queue) := by
  cases entry with
  | none => rfl
  | some entry =>
    rw [Option.bind_some, Option.toList_some, List.countP_singleton, RefersTo]
    cases entry.pollInfo.queue with
    | none => rfl
    | some other => simp [List.count_singleton]

/-- What an applied update brings, drops and loses accounts for the entries that refer. -/
theorem countP_applyEntry (keys : (entries.map fdOf).Nodup) (queue : κ)
    (removal : update.pollInfo.block = none → update.pollInfo.queue = none) :
    (applyEntry entries update).countP (RefersTo queue) +
        (droppedBy entries update).toList.count queue +
        (lostBy entries update).toList.countP (RefersTo queue) =
      entries.countP (RefersTo queue) + [update].countP (RefersTo queue) := by
  rw [applyEntry, droppedBy, lostBy]
  cases given : update.pollInfo.block with
  | some block =>
    have put := KeyedList.countP_put keys (RefersTo queue) update
    simp only [count_queue]
    exact put
  | none =>
    have delete := KeyedList.countP_delete keys (RefersTo queue) update.poll.fd
    have nothing : [update].countP (RefersTo queue) = 0 := by
      simp [RefersTo, removal given]
    simp only [Option.toList_none, List.count_nil, nothing, Nat.add_zero]
    exact delete

end Update

namespace PollTable
variable {table : PollTable β κ} {entries : List (TableUpdate β κ)}

theorem Entries.referring (holds : table.Entries entries free) (queue : κ) :
    table.referring queue =
      entries.countP (RefersTo queue) + table.updateQueue.countP (RefersTo queue) := by
  have length : table.numOfPolls = (entries.map (·.pollInfo)).length := by
    rw [holds.numOfPolls, List.length_map]
  rw [PollTable.referring, length, holds.pollInfos.take, List.countP_map]
  rfl

/-- The loss, read off the arrays. -/
theorem Entries.removesReferring (holds : table.Entries entries free) (queue : κ)
    (waiting : table.updateQueue = update :: rest) :
    table.RemovesReferring queue ↔ 0 < (lostBy entries update).toList.countP (RefersTo queue) := by
  have only : table.RemovesReferring queue ↔ update.pollInfo.block = none ∧
      ∃ i, table.indexOf update.poll.fd = some i ∧ (table.slotInfo i).queue = some queue := by
    constructor
    · rintro ⟨next, others, queued, removal⟩
      rw [waiting] at queued
      rw [(List.cons.inj queued).1]
      exact removal
    · intro removal
      exact ⟨update, rest, waiting, removal⟩
  rw [only, lostBy, holds.indexOf]
  cases update.pollInfo.block with
  | some block => simp
  | none =>
    rcases KeyedList.findIdx?_cases fdOf entries update.poll.fd with
      ⟨absent, fresh⟩ | ⟨i, entry, present, found, same⟩
    · simp [absent, KeyedList.lookup_eq_none.mpr fresh]
    · have known := KeyedList.lookup_of_mem holds.keys (List.mem_of_getElem? found)
      rw [same] at known
      by_cases refers : entry.pollInfo.queue = some queue
      · simp [present, known, holds.slotInfo found, RefersTo, refers]
      · simp [present, known, holds.slotInfo found, RefersTo, refers]

section Account
variable {free lost : Nat} {queue : κ}

/-- The update that is enqueued refers to the queue that was retained for it. -/
theorem Entries.account_register (holds : table.Entries entries free)
    (count : table.references queue = table.referring queue + lost) (fd : Int) (events : BitVec 16)
    (flags : BitVec 32) (other : Option κ) (block : β) :
    (table.register fd events flags other block).references queue =
      (table.register fd events flags other block).referring queue + lost := by
  have after := (holds.enqueue (table.updateQueue ++ [registerUpdate fd events flags other block])
    (table.retained ++ other.toList)).referring queue
  have taken := count_queue (some (registerUpdate fd events flags other block)) queue
  rw [PollTable.references, holds.referring] at count
  simp only [PollTable.register, PollTable.references, after, List.count_append, List.countP_append]
  simp only [Option.bind_some, registerUpdate, Option.toList_some] at taken
  simp only [registerUpdate, taken]
  omega

theorem Entries.account_unregister (holds : table.Entries entries free)
    (count : table.references queue = table.referring queue + lost) (fd : Int) :
    (table.unregister fd).references queue = (table.unregister fd).referring queue + lost := by
  have after := (holds.enqueue (table.updateQueue ++ [unregisterUpdate fd]) table.retained).referring queue
  have nothing : [unregisterUpdate (β := β) fd].countP (RefersTo queue) = 0 := rfl
  rw [PollTable.references, holds.referring] at count
  simp only [PollTable.unregister, PollTable.references, after, List.countP_append, nothing]
  omega

/-- What a removal loses is missing from then on. -/
theorem Entries.account_apply (holds : table.Entries entries free)
    (count : table.references queue = table.referring queue + lost)
    (waiting : table.updateQueue = update :: rest)
    (removal : update.pollInfo.block = none → update.pollInfo.queue = none) :
    (({ table with updateQueue := rest } : PollTable β κ).applyUpdate update).references queue =
      (({ table with updateQueue := rest } : PollTable β κ).applyUpdate update).referring queue +
        (lost + (lostBy entries update).toList.countP (RefersTo queue) : Nat) := by
  obtain ⟨more, after, released⟩ := (holds.enqueue rest table.retained).applyUpdate update
  obtain ⟨updateQueue, retained⟩ := PollTable.applyUpdate_frame { table with updateQueue := rest } update
  have account := countP_applyEntry holds.keys queue removal
  have head : table.updateQueue.countP (RefersTo queue) =
      [update].countP (RefersTo queue) + rest.countP (RefersTo queue) := by
    rw [waiting, ← List.singleton_append, List.countP_append]
  rw [PollTable.references, holds.referring] at count
  rw [PollTable.references, after.referring, retained, updateQueue, released, List.count_append]
  simp only
  omega

end Account
end PollTable

/-- The references exceed those referring by the ones that removals lost. -/
theorem lost_references (calls : List (TableCall β κ)) (queue : κ) :
    ∃ lost : Nat, (tableAfter calls).references queue = (tableAfter calls).referring queue + lost ∧
      (lost = 0 ↔ KeepsReferences calls queue) := by
  induction calls using List.reverseRecOn with
  | nil =>
    exact ⟨0, rfl, iff_of_true rfl Transition.everyStep_nil⟩
  | append_singleton calls call ih =>
    obtain ⟨lost, count, kept⟩ := ih
    obtain ⟨applied, free, issued, holds⟩ := entries_tableAfter calls
    rw [KeepsReferences, Transition.everyStep_concat, ← KeepsReferences, ← kept, tableAfter, List.foldl_append, ← tableAfter]
    simp only [List.foldl_cons, List.foldl_nil]
    cases call with
    | register fd events flags other block =>
      exact ⟨lost, holds.account_register count fd events flags other block, by simp⟩
    | unregister fd => exact ⟨lost, holds.account_unregister count fd, by simp⟩
    | applyNext =>
      simp only [TableCall.run, PollTable.applyNext, true_implies]
      cases waiting : (tableAfter calls).updateQueue with
      | nil =>
        refine ⟨lost, count, (and_iff_left ?_).symm⟩
        rintro ⟨update, rest, queued, _⟩
        rw [waiting] at queued
        cases queued
      | cons update rest =>
        rw [waiting] at issued
        refine ⟨_, holds.account_apply count waiting (removal_waiting issued), ?_⟩
        rw [holds.removesReferring queue waiting]
        omega

/-- The poll holds as many references on a dispatch queue as entries and updates refer to
it exactly if no removal met an entry that did, and only then does it give all of them back. -/
theorem poll_references (calls : List (TableCall β κ)) (queue : κ) :
    ((tableAfter calls).references queue = (tableAfter calls).referring queue ↔
      KeepsReferences calls queue) ∧
    ((tableAfter calls).referring queue = 0 →
      ((tableAfter calls).references queue = 0 ↔ KeepsReferences calls queue)) := by
  obtain ⟨lost, count, kept⟩ := lost_references calls queue
  rw [← kept]
  constructor
  · omega
  · intro nothing
    omega

/-- A registration with a queue that is applied, removed and gone still holds its reference. -/
theorem poll_references_removal :
    let calls : List (TableCall Nat Nat) :=
      [.register 3 1 0 (some 0) 0, .applyNext, .unregister 3, .applyNext]
    (tableAfter calls).references 0 ≠ (tableAfter calls).referring 0 ∧
      (tableAfter calls).numOfPolls = 0 ∧ (tableAfter calls).updateQueue = [] ∧
      (tableAfter calls).references 0 = 1 := by decide

end KommunikationNetze.Webserver
