import KommunikationNetze.Library.KeyedList

/-! What a pass of the poll thread has to call, alike in both programs. Each registration has
a key of its own in the table. Updates that are applied after `poll` has returned may end
registrations and add idle ones, in any order. -/
namespace KommunikationNetze.Net
variable {K κ B : Type}

/-- The call of a block with `revents`: dispatched on the queue, and at once if there is none. -/
structure Notification (K κ B : Type) where
  key : K
  queue : Option κ
  block : B
  revents : BitVec 16
  deriving DecidableEq

/-- What `poll` may store in an entry. No event has the highest bit, which is the sign. -/
abbrev Revents := { revents : BitVec 16 // 0 ≤ revents.toInt }

/-- How the pass tests for events. -/
theorem revents_pos_iff {revents : BitVec 16} (sign : 0 ≤ revents.toInt) :
    0 < revents.toInt ↔ revents ≠ 0 := by
  have zero : revents.toInt = 0 ↔ revents = 0 := by
    rw [← BitVec.toInt_inj]
    rfl
  rw [Ne, ← zero]
  omega

/-- How `poll` counts the entry. -/
def Notification.ready (n : Notification K κ B) : Bool := n.revents ≠ 0

/-- The pass calls what is ready of what is present, everything once, and these are exactly
the ready ones of the polled table whose registration has not ended since. -/
structure NotifiesReady (polled present : List (Notification K κ B)) (ended : K → Prop)
    (notified : List (Notification K κ B)) : Prop where
  exactly : notified = present.filter Notification.ready
  once : (notified.map (·.key)).Nodup
  registered : ∀ n, n ∈ notified ↔ n ∈ polled ∧ n.revents ≠ 0 ∧ ¬ended n.key

/-- How the table of the pass comes from the polled one. -/
structure Survives (polled present : List (Notification K κ B)) (ended : K → Prop) : Prop where
  keys : (present.map (·.key)).Nodup
  ready : ∀ n : Notification K κ B, n.revents ≠ 0 → (n ∈ present ↔ n ∈ polled ∧ ¬ended n.key)
  count : present.countP Notification.ready ≤ polled.countP Notification.ready

namespace Survives
variable {polled present : List (Notification K κ B)} {ended : K → Prop}

theorem refl (keys : (polled.map (·.key)).Nodup) : Survives polled polled fun _ => False where
  keys := keys
  ready n _ := by rw [not_false_eq_true, and_true]
  count := Nat.le_refl _

/-- Only the keys of polled entries matter. -/
theorem congr (survives : Survives polled present ended) {other : K → Prop}
    (same : ∀ n ∈ polled, ended n.key ↔ other n.key) : Survives polled present other where
  keys := survives.keys
  ready n isReady := by
    rw [survives.ready n isReady]
    exact and_congr_right fun mem => not_congr (same n mem)
  count := survives.count

section Update
variable [DecidableEq K]

/-- A new registration is idle, and takes the place of the one with its key. -/
theorem put (survives : Survives polled present ended) {n : Notification K κ B} (idle : n.revents = 0) :
    Survives polled (KeyedList.put (·.key) present n) fun k => ended k ∨ k = n.key where
  keys := KeyedList.keys_put survives.keys n
  ready other isReady := by
    have different : other ≠ n := by
      rintro rfl
      exact isReady idle
    rw [KeyedList.mem_put survives.keys, or_iff_right different, survives.ready other isReady, not_or,
      and_assoc]
  count := by
    have counted := KeyedList.countP_put survives.keys Notification.ready n
    have none : [n].countP Notification.ready = 0 := by simp [Notification.ready, idle]
    have bound := survives.count
    omega

theorem delete (survives : Survives polled present ended) (k : K) :
    Survives polled (KeyedList.delete (·.key) present k) fun other => ended other ∨ other = k where
  keys := KeyedList.keys_delete survives.keys k
  ready other isReady := by
    rw [KeyedList.mem_delete survives.keys, survives.ready other isReady, not_or, and_assoc]
  count := by
    have counted := KeyedList.countP_delete survives.keys Notification.ready k
    have bound := survives.count
    omega

end Update

theorem notifiesReady (survives : Survives polled present ended) :
    NotifiesReady polled present ended (present.filter Notification.ready) where
  exactly := rfl
  once := survives.keys.sublist (List.filter_sublist.map _)
  registered n := by
    rw [List.mem_filter, Notification.ready, decide_eq_true_eq]
    constructor
    · rintro ⟨mem, isReady⟩
      obtain ⟨was, remains⟩ := (survives.ready n isReady).mp mem
      exact ⟨was, isReady, remains⟩
    · rintro ⟨was, isReady, remains⟩
      exact ⟨(survives.ready n isReady).mpr ⟨was, remains⟩, isReady⟩

end Survives
end KommunikationNetze.Net
