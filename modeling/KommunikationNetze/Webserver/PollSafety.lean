import KommunikationNetze.Webserver.Poll
import KommunikationNetze.Library.KeyedList
import Mathlib.Data.Multiset.MapFold
import Mathlib.Data.Multiset.Filter
import Mathlib.Algebra.Order.Group.Multiset
import Mathlib.Tactic.Abel

/-! When the poll is used safely. A client that registers a descriptor or asks for its
removal only while no registration of it is waiting for its event never cancels one, and
a one-shot registration fires at most once. What a client has to know is the collection
of the registrations that still wait, queued or in the table. -/
namespace KommunikationNetze.Webserver

/-- What the table holds for a descriptor: a spent entry has fired and is not removed yet. -/
inductive Slot where
  | absent
  | armed
  | spent
  deriving DecidableEq, Repr

namespace Slot

/-- The effect of an update, true for a registration; none if it would overwrite an
entry or remove one that still waits. -/
def step : Slot → Bool → Option Slot
  | .absent, true => some .armed
  | .absent, false | .spent, false => some .absent
  | _, _ => none

def settle (slot : Slot) : List Bool → Option Slot
  | [] => some slot
  | update :: updates => (slot.step update).bind (·.settle updates)

theorem settle_append (slot : Slot) (updates : List Bool) (update : Bool) :
    slot.settle (updates ++ [update]) = (slot.settle updates).bind (·.step update) := by
  induction updates generalizing slot with
  | nil => simp [settle]
  | cons first updates ih =>
    simp only [List.cons_append, settle]
    cases slot.step first with
    | none => rfl
    | some next => exact ih next

/-- An armed slot has no updates pending. -/
theorem nil_of_settle_armed (settled : Slot.armed.settle updates = some final) : updates = [] := by
  cases updates with
  | nil => rfl
  | cons update updates => simp [settle, step] at settled

/-- A slot ends armed exactly if it is armed or a registration is pending. -/
theorem settle_armed_iff {slot : Slot} (settled : slot.settle updates = some final) :
    final = .armed ↔ slot = .armed ∨ true ∈ updates := by
  induction updates generalizing slot with
  | nil =>
    obtain rfl := Option.some.inj settled
    simp
  | cons update updates ih =>
    simp only [settle] at settled
    cases slot <;> cases update <;> simp only [step, Option.bind_some, Option.bind_none] at settled <;>
      first
      | cases settled
      | simpa using ih settled

end Slot

namespace Poll
variable {β : Type}

def slot (polls : List (PollEntry β)) (fd : Nat) : Slot :=
  match polls.find? (·.fd = fd) with
  | none => .absent
  | some entry => if entry.fired then .spent else .armed

def updates (updateQueue : List (PollUpdate β)) (fd : Nat) : List Bool :=
  (updateQueue.filter (·.fd = fd)).map (·.block.isSome)

/-- The registrations that wait for their event. -/
def registrations (poll : Poll β) : Multiset (Nat × β) :=
  ↑(poll.updateQueue.filterMap fun update => update.block.map (update.fd, ·)) +
    ↑((poll.polls.filter (!·.fired)).map fun entry => (entry.fd, entry.block))

/-- The numbers of the updates still queued and of those to come. -/
def pending (poll : Poll β) : List Nat := poll.updateQueue.map (·.stamp) ++ [poll.stamps]

structure Sound (poll : Poll β) : Prop where
  settled : ∀ fd, (slot poll.polls fd).settle (updates poll.updateQueue fd) = some .absent ∨
    (slot poll.polls fd).settle (updates poll.updateQueue fd) = some .armed
  fds : (poll.polls.map (·.fd)).Nodup
  ordered : poll.pending.Pairwise (· < ·)
  older : ∀ entry ∈ poll.polls, ∀ stamp ∈ poll.pending, entry.stamp < stamp
  stamps : (poll.polls.map (·.stamp)).Nodup
  once : poll.fired.Nodup
  firedOlder : ∀ id ∈ poll.fired, ∀ stamp ∈ poll.pending, id < stamp
  firedSpent : ∀ entry ∈ poll.polls, entry.stamp ∈ poll.fired → entry.fired = true

theorem Sound.empty : ({ updateQueue := [], polls := [], stamps := 0, fired := [] } : Poll β).Sound where
  settled _ := .inl rfl
  fds := by simp
  ordered := by simp [pending]
  older := by simp
  stamps := by simp
  once := by simp
  firedOlder := by simp
  firedSpent := by simp

section Slots

theorem slot_of_mem {polls : List (PollEntry β)} (fds : (polls.map (·.fd)).Nodup)
    (mem : entry ∈ polls) : slot polls entry.fd = if entry.fired then .spent else .armed := by
  have found : polls.find? (·.fd = entry.fd) = some entry := KeyedList.lookup_of_mem fds mem
  rw [slot, found]

theorem slot_absent_iff {polls : List (PollEntry β)} :
    slot polls fd = .absent ↔ ∀ entry ∈ polls, entry.fd ≠ fd := by
  rw [slot]
  cases found : polls.find? (·.fd = fd) with
  | none => simpa using found
  | some entry =>
    have mem := List.mem_of_find?_eq_some found
    have same := List.find?_some found
    simp only [decide_eq_true_eq] at same
    constructor
    · intro absent
      cases fired : entry.fired <;> simp [fired] at absent
    · intro none
      exact absurd same (none entry mem)

/-- The slot of a descriptor depends on the entries of the descriptor only. -/
theorem slot_congr {polls others : List (PollEntry β)} (fds : (polls.map (·.fd)).Nodup)
    (fdsOthers : (others.map (·.fd)).Nodup)
    (same : ∀ entry, entry.fd = fd → (entry ∈ polls ↔ entry ∈ others)) :
    slot polls fd = slot others fd := by
  by_cases present : ∃ entry ∈ polls, entry.fd = fd
  · obtain ⟨entry, mem, rfl⟩ := present
    rw [slot_of_mem fds mem, slot_of_mem fdsOthers ((same entry rfl).mp mem)]
  · have none : ∀ entry ∈ polls, entry.fd ≠ fd := by simpa using present
    have noneOthers : ∀ entry ∈ others, entry.fd ≠ fd :=
      fun entry mem eq => none entry ((same entry eq).mpr mem) eq
    rw [slot_absent_iff.mpr none, slot_absent_iff.mpr noneOthers]

@[simp] theorem updates_append (first last : List (PollUpdate β)) (fd : Nat) :
    updates (first ++ last) fd = updates first fd ++ updates last fd := by
  simp [updates]

end Slots

section Registrations

theorem mem_registrations {poll : Poll β} : (fd, block) ∈ poll.registrations ↔
    (∃ update ∈ poll.updateQueue, update.fd = fd ∧ update.block = some block) ∨
      ∃ entry ∈ poll.polls, entry.fired = false ∧ entry.fd = fd ∧ entry.block = block := by
  simp only [registrations, Multiset.mem_add, Multiset.mem_coe, List.mem_filterMap, Option.map_eq_some_iff,
    List.mem_map, List.mem_filter, Bool.not_eq_true', Prod.mk.injEq]
  constructor
  · rintro (⟨update, mem, b, found, rfl, rfl⟩ | ⟨entry, ⟨mem, waits⟩, rfl, rfl⟩)
    · exact .inl ⟨update, mem, rfl, found⟩
    · exact .inr ⟨entry, mem, waits, rfl, rfl⟩
  · rintro (⟨update, mem, rfl, found⟩ | ⟨entry, mem, waits, rfl, rfl⟩)
    · exact .inl ⟨update, mem, block, found, rfl, rfl⟩
    · exact .inr ⟨entry, ⟨mem, waits⟩, rfl, rfl⟩

/-- Without a waiting registration the descriptor ends absent. -/
theorem Sound.settle_absent {poll : Poll β} (sound : poll.Sound)
    (free : ∀ block, (fd, block) ∉ poll.registrations) :
    (slot poll.polls fd).settle (updates poll.updateQueue fd) = some .absent := by
  rcases sound.settled fd with absent | armed
  · exact absent
  · exfalso
    rcases (Slot.settle_armed_iff armed).mp rfl with waits | queued
    · rw [slot] at waits
      split at waits
      · cases waits
      · rename_i entry found
        have mem := List.mem_of_find?_eq_some found
        have same : entry.fd = fd := by simpa using List.find?_some found
        have fresh : entry.fired = false := by
          by_contra fired
          simp [fired] at waits
        exact free entry.block (mem_registrations.mpr (.inr ⟨entry, mem, fresh, same, rfl⟩))
    · simp only [updates, List.mem_map, List.mem_filter, decide_eq_true_eq] at queued
      obtain ⟨update, ⟨mem, same⟩, isRegister⟩ := queued
      obtain ⟨block, found⟩ := Option.isSome_iff_exists.mp isRegister
      exact free block (mem_registrations.mpr (.inl ⟨update, mem, same, found⟩))

@[simp] theorem registrations_register (poll : Poll β) (fd : Nat) (block : β) :
    (pollRegister poll fd block).registrations = (fd, block) ::ₘ poll.registrations := by
  simp only [pollRegister, enqueue, registrations, List.filterMap_append, List.filterMap_cons,
    Option.map_some, List.filterMap_nil, ← Multiset.coe_add, Multiset.coe_singleton]
  rw [← Multiset.singleton_add]
  abel

@[simp] theorem registrations_unregister (poll : Poll β) (fd : Nat) :
    (pollUnregister poll fd).registrations = poll.registrations := by
  simp [pollUnregister, enqueue, registrations]

end Registrations

section Calls

theorem pending_enqueue (poll : Poll β) (fd : Nat) (block : Option β) :
    (poll.enqueue fd block).pending = poll.pending ++ [poll.stamps + 1] := by
  simp [pending, enqueue]

theorem Sound.below_next {poll : Poll β} (sound : poll.Sound) :
    ∀ stamp ∈ poll.pending, stamp < poll.stamps + 1 := by
  intro stamp mem
  rcases List.mem_append.mp mem with queued | last
  · have before := (List.pairwise_append.mp sound.ordered).2.2 stamp queued poll.stamps (by simp)
    omega
  · obtain rfl := List.mem_singleton.mp last
    exact Nat.lt_succ_self _

/-- An update may be enqueued if the descriptor ends in a defined state with it. -/
theorem Sound.enqueue {poll : Poll β} (sound : poll.Sound)
    (free : ∀ block, (fd, block) ∉ poll.registrations) (block : Option β) :
    (poll.enqueue fd block).Sound := by
  have next := sound.below_next
  have later : ∀ {id}, (∀ stamp ∈ poll.pending, id < stamp) →
      ∀ stamp ∈ (poll.enqueue fd block).pending, id < stamp := by
    intro id before stamp mem
    rw [pending_enqueue, List.mem_append, List.mem_singleton] at mem
    rcases mem with mem | rfl
    · exact before stamp mem
    · exact (before poll.stamps (by simp [pending])).trans (Nat.lt_succ_self _)
  constructor
  · intro other
    have queue : (poll.enqueue fd block).updateQueue =
        poll.updateQueue ++ [{ fd, block, stamp := poll.stamps }] := rfl
    have polls : (poll.enqueue fd block).polls = poll.polls := rfl
    rw [queue, polls, updates_append]
    by_cases same : fd = other
    · subst other
      have one : updates [{ fd, block, stamp := poll.stamps }] fd = [block.isSome] := by simp [updates]
      have absent := sound.settle_absent free
      rw [one, Slot.settle_append]
      cases block with
      | none => exact .inl (by rw [absent]; rfl)
      | some block => exact .inr (by rw [absent]; rfl)
    · have none : updates [{ fd, block, stamp := poll.stamps }] other = [] := by simp [updates, same]
      rw [none, List.append_nil]
      exact sound.settled other
  · exact sound.fds
  · rw [pending_enqueue, List.pairwise_append]
    exact ⟨sound.ordered, by simp, by simpa using next⟩
  · exact fun entry mem => later (sound.older entry mem)
  · exact sound.stamps
  · exact sound.once
  · exact fun id mem => later (sound.firedOlder id mem)
  · exact sound.firedSpent

/-- The events of `poll` are not part of the invariant. -/
theorem Sound.ready {poll : Poll β} (sound : poll.Sound) (revents : PollEntry β → Option Bool) :
    (poll.ready revents).Sound := by
  have keeps : ∀ {γ : Type} (f : PollEntry β → γ),
      (∀ entry events, f { entry with revents := events } = f entry) →
      (poll.ready revents).polls.map f = poll.polls.map f := by
    intro γ f unchanged
    rw [Poll.ready, List.map_map]
    exact List.map_congr_left fun entry _ => unchanged entry _
  have slots : ∀ fd, slot (poll.ready revents).polls fd = slot poll.polls fd := by
    intro fd
    simp only [slot, Poll.ready, List.find?_map, Function.comp_def]
    cases poll.polls.find? (·.fd = fd) <;> rfl
  have back : ∀ entry ∈ (poll.ready revents).polls, ∃ original ∈ poll.polls,
      original.stamp = entry.stamp ∧ original.fired = entry.fired := by
    intro entry mem
    obtain ⟨original, found, rfl⟩ := List.mem_map.mp mem
    exact ⟨original, found, rfl, rfl⟩
  constructor
  · intro fd
    rw [slots]
    exact sound.settled fd
  · rw [keeps _ fun _ _ => rfl]
    exact sound.fds
  · exact sound.ordered
  · intro entry mem stamp queued
    obtain ⟨original, found, same, _⟩ := back entry mem
    exact same ▸ sound.older original found stamp queued
  · rw [keeps _ fun _ _ => rfl]
    exact sound.stamps
  · exact sound.once
  · exact sound.firedOlder
  · intro entry mem fired
    obtain ⟨original, found, same, sameFired⟩ := back entry mem
    exact sameFired ▸ sound.firedSpent original found (same ▸ fired)

@[simp] theorem registrations_ready (poll : Poll β) (revents : PollEntry β → Option Bool) :
    (poll.ready revents).registrations = poll.registrations := by
  simp only [registrations, Poll.ready, List.filter_map, List.map_map, Function.comp_def]

end Calls

section Apply

theorem updates_cons (update : PollUpdate β) (rest : List (PollUpdate β)) (fd : Nat) :
    updates (update :: rest) fd =
      if update.fd = fd then update.block.isSome :: updates rest fd else updates rest fd := by
  by_cases same : update.fd = fd <;> simp [updates, same]

theorem addOrUpdate_of_absent {polls : List (PollEntry β)} {entry : PollEntry β}
    (absent : ∀ other ∈ polls, other.fd ≠ entry.fd) : addOrUpdate polls entry = polls ++ [entry] :=
  KeyedList.put_absent (by simpa using absent)

variable {poll : Poll β} {update : PollUpdate β} {rest : List (PollUpdate β)}

/-- A registration at the head of the queue finds no entry to overwrite. -/
theorem Sound.register_head (sound : poll.Sound) (head : poll.updateQueue = update :: rest)
    (register : update.block = some block) : ∀ entry ∈ poll.polls, entry.fd ≠ update.fd := by
  have settled := sound.settled update.fd
  rw [head, updates_cons, if_pos rfl, register] at settled
  rw [← slot_absent_iff]
  cases now : slot poll.polls update.fd with
  | absent => rfl
  | armed => simp [now, Slot.settle, Slot.step] at settled
  | spent => simp [now, Slot.settle, Slot.step] at settled

/-- A removal at the head of the queue finds at most an older entry that has fired. -/
theorem Sound.unregister_head (sound : poll.Sound) (head : poll.updateQueue = update :: rest)
    (unregister : update.block = none) : ∀ entry ∈ poll.polls, entry.fd = update.fd →
      entry.fired = true ∧ entry.stamp < update.stamp := by
  intro entry mem same
  constructor
  · have settled := sound.settled update.fd
    rw [head, updates_cons, if_pos rfl, unregister, ← same, slot_of_mem sound.fds mem] at settled
    by_contra waits
    simp [waits, Slot.settle, Slot.step] at settled
  · exact sound.older entry mem update.stamp (by simp [pending, head])

theorem pending_apply (head : poll.updateQueue = update :: rest) :
    poll.pending = update.stamp :: (pollApplyUpdate poll update rest).pending := by
  simp [pending, head, pollApplyUpdate]

theorem pending_of_apply (head : poll.updateQueue = update :: rest) :
    ∀ stamp ∈ (pollApplyUpdate poll update rest).pending, stamp ∈ poll.pending := by
  intro stamp mem
  rw [pending_apply head]
  exact List.mem_cons_of_mem _ mem

/-- An update of another descriptor leaves its slot as settled as it was. -/
theorem Sound.settled_other {polls : List (PollEntry β)} (sound : poll.Sound)
    (head : poll.updateQueue = update :: rest)
    (other : update.fd ≠ fd) (unchanged : slot polls fd = slot poll.polls fd) :
    (slot polls fd).settle (updates rest fd) = some .absent ∨
      (slot polls fd).settle (updates rest fd) = some .armed := by
  have before := sound.settled fd
  rw [head, updates_cons, if_neg other] at before
  rw [unchanged]
  exact before

section Register

/-- The entry of a registration. -/
def entryOf (update : PollUpdate β) (block : β) : PollEntry β :=
  { fd := update.fd, block, revents := none, stamp := update.stamp, fired := false }

theorem Sound.polls_register (sound : poll.Sound) (head : poll.updateQueue = update :: rest)
    (register : update.block = some block) :
    (pollApplyUpdate poll update rest).polls = poll.polls ++ [entryOf update block] := by
  simp only [pollApplyUpdate, applyUpdate, register]
  exact addOrUpdate_of_absent (sound.register_head head register)

/-- One more entry has a key of its own if no entry had it. -/
theorem nodup_concat {γ : Type} {polls : List (PollEntry β)} {f : PollEntry β → γ}
    (keys : (polls.map f).Nodup) (fresh : ∀ old ∈ polls, f old ≠ f entry) :
    ((polls ++ [entry]).map f).Nodup := by
  rw [List.map_append, List.map_singleton, ← List.concat_eq_append]
  refine keys.concat ?_
  intro mem
  obtain ⟨old, found, same⟩ := List.mem_map.mp mem
  exact fresh old found same

theorem Sound.settled_register (sound : poll.Sound) (head : poll.updateQueue = update :: rest)
    (register : update.block = some block)
    (fds : ((poll.polls ++ [entryOf update block]).map (·.fd)).Nodup) (fd : Nat) :
    (slot (poll.polls ++ [entryOf update block]) fd).settle (updates rest fd) = some .absent ∨
      (slot (poll.polls ++ [entryOf update block]) fd).settle (updates rest fd) = some .armed := by
  by_cases same : update.fd = fd
  · subst same
    have before := sound.settled update.fd
    have added : entryOf update block ∈ poll.polls ++ [entryOf update block] := by simp
    have armed : slot (poll.polls ++ [entryOf update block]) update.fd = .armed :=
      (slot_of_mem fds added).trans rfl
    rw [head, updates_cons, if_pos rfl, slot_absent_iff.mpr (sound.register_head head register),
      register] at before
    rw [armed]
    exact before
  · refine sound.settled_other head same (slot_congr fds sound.fds ?_)
    intro other otherFd
    have different : other ≠ entryOf update block := by
      rintro rfl
      exact same otherFd
    simp [different]

theorem Sound.registrations_register (sound : poll.Sound) (head : poll.updateQueue = update :: rest)
    (register : update.block = some block) :
    (pollApplyUpdate poll update rest).registrations = poll.registrations := by
  have first : (update :: rest).filterMap (fun update => update.block.map (update.fd, ·)) =
      (update.fd, block) :: rest.filterMap fun update => update.block.map (update.fd, ·) := by
    simp [register]
  have last : (([entryOf update block].filter fun entry => !entry.fired).map
      fun entry => (entry.fd, entry.block)) = [(update.fd, block)] := rfl
  rw [registrations, sound.polls_register head register, registrations, head, first]
  simp only [pollApplyUpdate, List.filter_append, List.map_append, ← Multiset.cons_coe,
    ← Multiset.coe_add, ← Multiset.singleton_add]
  rw [last, Multiset.coe_singleton]
  abel

theorem Sound.apply_register (sound : poll.Sound) (head : poll.updateQueue = update :: rest)
    (register : update.block = some block) : (pollApplyUpdate poll update rest).Sound := by
  have polls := sound.polls_register head register
  have ordered := sound.ordered
  rw [pending_apply head, List.pairwise_cons] at ordered
  have queued := pending_of_apply head
  have now : update.stamp ∈ poll.pending := by simp [pending, head]
  have fds : ((poll.polls ++ [entryOf update block]).map (·.fd)).Nodup :=
    nodup_concat sound.fds (sound.register_head head register)
  constructor
  · rw [polls]
    exact sound.settled_register head register fds
  · rw [polls]
    exact fds
  · exact ordered.2
  · rw [polls]
    intro other mem stamp later
    rcases List.mem_append.mp mem with old | new
    · exact sound.older other old stamp (queued stamp later)
    · obtain rfl := List.mem_singleton.mp new
      exact ordered.1 stamp later
  · rw [polls]
    exact nodup_concat sound.stamps fun old found => (sound.older old found update.stamp now).ne
  · exact sound.once
  · exact fun id mem stamp later => sound.firedOlder id mem stamp (queued stamp later)
  · rw [polls]
    intro other mem fired
    rcases List.mem_append.mp mem with old | new
    · exact sound.firedSpent other old fired
    · obtain rfl := List.mem_singleton.mp new
      exact absurd (sound.firedOlder _ fired update.stamp now) (lt_irrefl _)

end Register

section Unregister

theorem polls_unregister (unregister : update.block = none) :
    (pollApplyUpdate poll update rest).polls = removeEntry poll.polls update.fd := by
  simp only [pollApplyUpdate, applyUpdate, unregister]

theorem Sound.mem_removeEntry (sound : poll.Sound) (fd : Nat) (entry : PollEntry β) :
    entry ∈ removeEntry poll.polls fd ↔ entry ∈ poll.polls ∧ entry.fd ≠ fd :=
  KeyedList.mem_delete sound.fds

theorem Sound.settled_unregister (sound : poll.Sound) (head : poll.updateQueue = update :: rest)
    (unregister : update.block = none) (fd : Nat) :
    (slot (removeEntry poll.polls update.fd) fd).settle (updates rest fd) = some .absent ∨
      (slot (removeEntry poll.polls update.fd) fd).settle (updates rest fd) = some .armed := by
  have kept := sound.mem_removeEntry update.fd
  by_cases same : update.fd = fd
  · subst same
    have before := sound.settled update.fd
    rw [slot_absent_iff.mpr fun entry mem => ((kept entry).mp mem).2]
    rw [head, updates_cons, if_pos rfl, unregister] at before
    have absent : (slot poll.polls update.fd).step false = some .absent := by
      cases now : slot poll.polls update.fd <;> simp [now, Slot.settle, Slot.step] at before ⊢
    simp only [Slot.settle, Option.isSome_none, absent, Option.bind_some] at before
    exact before
  · refine sound.settled_other head same
      (slot_congr (KeyedList.keys_delete sound.fds update.fd) sound.fds ?_)
    rintro entry rfl
    exact (kept entry).trans (and_iff_left (Ne.symm same))

/-- What is removed has fired, so that the same entries wait. -/
theorem Sound.registrations_unregister (sound : poll.Sound) (head : poll.updateQueue = update :: rest)
    (unregister : update.block = none) :
    (pollApplyUpdate poll update rest).registrations = poll.registrations := by
  have spent := sound.unregister_head head unregister
  have left : (removeEntry poll.polls update.fd).Perm (poll.polls.filter (·.fd ≠ update.fd)) :=
    KeyedList.delete_perm sound.fds update.fd
  have waiting : ((removeEntry poll.polls update.fd).filter (!·.fired)).Perm
      (poll.polls.filter (!·.fired)) := by
    refine (left.filter _).trans (List.Perm.of_eq ?_)
    rw [List.filter_filter]
    refine List.filter_congr ?_
    intro entry mem
    cases fired : entry.fired with
    | true => rfl
    | false =>
      have other : entry.fd ≠ update.fd := by
        intro same
        rw [(spent entry mem same).1] at fired
        cases fired
      simp only [Bool.not_false, Bool.true_and]
      exact decide_eq_true other
  have first : (update :: rest).filterMap (fun update => update.block.map (update.fd, ·)) =
      rest.filterMap fun update => update.block.map (update.fd, ·) := by
    simp [unregister]
  rw [registrations, polls_unregister unregister, registrations, head, first]
  exact congrArg _ (Multiset.coe_eq_coe.mpr (waiting.map _))

theorem Sound.apply_unregister (sound : poll.Sound) (head : poll.updateQueue = update :: rest)
    (unregister : update.block = none) : (pollApplyUpdate poll update rest).Sound := by
  have polls : (pollApplyUpdate poll update rest).polls = removeEntry poll.polls update.fd :=
    polls_unregister unregister
  have ordered := sound.ordered
  rw [pending_apply head, List.pairwise_cons] at ordered
  have queued := pending_of_apply head
  have left : (removeEntry poll.polls update.fd).Perm (poll.polls.filter (·.fd ≠ update.fd)) :=
    KeyedList.delete_perm sound.fds update.fd
  have kept := sound.mem_removeEntry update.fd
  constructor
  · rw [polls]
    exact sound.settled_unregister head unregister
  · rw [polls]
    exact KeyedList.keys_delete sound.fds update.fd
  · exact ordered.2
  · rw [polls]
    exact fun entry mem stamp later => sound.older entry ((kept entry).mp mem).1 stamp (queued stamp later)
  · rw [polls]
    exact (left.map _).nodup_iff.mpr (sound.stamps.sublist (List.filter_sublist.map _))
  · exact sound.once
  · exact fun id mem stamp later => sound.firedOlder id mem stamp (queued stamp later)
  · rw [polls]
    exact fun entry mem => sound.firedSpent entry ((kept entry).mp mem).1

end Unregister

theorem Sound.apply (sound : poll.Sound) (head : poll.updateQueue = update :: rest) :
    (pollApplyUpdate poll update rest).Sound ∧
      (pollApplyUpdate poll update rest).registrations = poll.registrations := by
  cases block : update.block with
  | none =>
    exact ⟨sound.apply_unregister head block, sound.registrations_unregister head block⟩
  | some register =>
    exact ⟨sound.apply_register head block, sound.registrations_register head block⟩

/-- Once the queue is drained, every entry waits. -/
theorem Sound.drained (sound : poll.Sound) (empty : poll.updateQueue = []) :
    ∀ entry ∈ poll.polls, entry.fired = false := by
  intro entry mem
  have settled := sound.settled entry.fd
  rw [empty, slot_of_mem sound.fds mem] at settled
  cases fired : entry.fired with
  | false => rfl
  | true => simp [fired, updates, Slot.settle] at settled

end Apply

section Fire

variable {poll : Poll β} {entry : PollEntry β}

/-- The entry is marked and all others are left alone. -/
theorem fire_perm (found : poll.polls[i]? = some entry) :
    ∃ others, poll.polls.Perm (entry :: others) ∧
      (poll.fire i entry).polls.Perm ({ entry with fired := true } :: others) := by
  obtain ⟨inside, rfl⟩ := List.getElem?_eq_some_iff.mp found
  exact ⟨poll.polls.eraseIdx i, (List.getElem_cons_eraseIdx_perm inside).symm,
    List.set_perm_cons_eraseIdx inside _⟩

theorem queue_fire (poll : Poll β) (i : Nat) (entry : PollEntry β) : (poll.fire i entry).updateQueue =
    poll.updateQueue ++ [{ fd := entry.fd, block := none, stamp := poll.stamps }] := rfl

theorem pending_fire (poll : Poll β) (i : Nat) (entry : PollEntry β) :
    (poll.fire i entry).pending = poll.pending ++ [poll.stamps + 1] :=
  pending_enqueue poll entry.fd none

/-- What is older than the updates that wait is older than the new one. -/
theorem older_fire {id : Nat} (bound : ∀ stamp ∈ poll.pending, id < stamp) :
    ∀ stamp ∈ (poll.fire i entry).pending, id < stamp := by
  intro stamp queued
  rw [pending_fire, List.mem_append, List.mem_singleton] at queued
  rcases queued with queued | rfl
  · exact bound stamp queued
  · exact (bound poll.stamps (by simp [pending])).trans (Nat.lt_succ_self _)

/-- A mark keeps what does not depend on it. -/
theorem keys_fire {γ : Type} {f : PollEntry β → γ} (found : poll.polls[i]? = some entry)
    (same : f { entry with fired := true } = f entry) (keys : (poll.polls.map f).Nodup) :
    ((poll.fire i entry).polls.map f).Nodup := by
  obtain ⟨others, before, after⟩ := fire_perm found
  have distinct := (before.map f).nodup_iff.mp keys
  rw [(after.map f).nodup_iff, List.map_cons, same]
  exact distinct

/-- The slot is spent, and its removal waits. -/
theorem Sound.settled_fire (sound : poll.Sound) (found : poll.polls[i]? = some entry)
    (waits : entry.fired = false) (fd : Nat) :
    (slot (poll.fire i entry).polls fd).settle (updates (poll.fire i entry).updateQueue fd) = some .absent ∨
      (slot (poll.fire i entry).polls fd).settle (updates (poll.fire i entry).updateQueue fd) =
        some .armed := by
  obtain ⟨others, before, after⟩ := fire_perm found
  have fds := keys_fire found rfl sound.fds
  have mem : entry ∈ poll.polls := List.mem_of_getElem? found
  have settled := sound.settled fd
  rw [queue_fire, updates_append]
  by_cases same : entry.fd = fd
  · subst same
    have spent : slot (poll.fire i entry).polls entry.fd = .spent :=
      (slot_of_mem fds (after.symm.subset List.mem_cons_self)).trans rfl
    have armed : slot poll.polls entry.fd = .armed := by
      rw [slot_of_mem sound.fds mem, waits]
      rfl
    have none : updates poll.updateQueue entry.fd = [] := by
      rw [armed] at settled
      rcases settled with settled | settled <;> exact Slot.nil_of_settle_armed settled
    rw [spent, none]
    exact .inl (by simp [updates, Slot.settle, Slot.step])
  · have none : updates [{ fd := entry.fd, block := (none : Option β), stamp := poll.stamps }] fd = [] := by
      simp [updates, same]
    have unchanged : slot (poll.fire i entry).polls fd = slot poll.polls fd := by
      refine slot_congr fds sound.fds ?_
      intro other otherFd
      have different : other ≠ entry := by
        rintro rfl
        exact same otherFd
      have differentFired : other ≠ { entry with fired := true } := by
        rintro rfl
        exact same otherFd
      rw [after.mem_iff, before.mem_iff, List.mem_cons, List.mem_cons, or_iff_right different,
        or_iff_right differentFired]
    rw [none, List.append_nil, unchanged]
    exact settled

theorem registrations_fire (found : poll.polls[i]? = some entry) (waits : entry.fired = false) :
    (entry.fd, entry.block) ::ₘ (poll.fire i entry).registrations = poll.registrations := by
  obtain ⟨others, before, after⟩ := fire_perm found
  have waitingBefore := (before.filter (!·.fired)).map fun entry => (entry.fd, entry.block)
  have waitingAfter := (after.filter (!·.fired)).map fun entry => (entry.fd, entry.block)
  rw [List.filter_cons_of_pos (by simp [waits]), List.map_cons] at waitingBefore
  rw [List.filter_cons_of_neg (by simp)] at waitingAfter
  rw [registrations, registrations, queue_fire, Multiset.coe_eq_coe.mpr waitingBefore,
    Multiset.coe_eq_coe.mpr waitingAfter, List.filterMap_append]
  simp only [List.filterMap_cons, Option.map_none, List.filterMap_nil, List.append_nil,
    ← Multiset.cons_coe, ← Multiset.singleton_add]
  abel

/-- A waiting entry may be called, and waits no longer. -/
theorem Sound.fire (sound : poll.Sound) (found : poll.polls[i]? = some entry)
    (waits : entry.fired = false) : (poll.fire i entry).Sound ∧
      (entry.fd, entry.block) ::ₘ (poll.fire i entry).registrations = poll.registrations := by
  obtain ⟨others, before, after⟩ := fire_perm found
  have mem : entry ∈ poll.polls := List.mem_of_getElem? found
  have next := sound.below_next
  have back : ∀ other ∈ (poll.fire i entry).polls,
      other = { entry with fired := true } ∨ other ∈ poll.polls ∧ other.stamp ≠ entry.stamp := by
    intro other present
    rcases List.mem_cons.mp (after.subset present) with rfl | rest
    · exact .inl rfl
    · refine .inr ⟨before.symm.subset (List.mem_cons_of_mem _ rest), ?_⟩
      intro same
      have unique := (List.nodup_cons.mp ((before.map (·.stamp)).nodup_iff.mp sound.stamps)).1
      exact unique (List.mem_map.mpr ⟨other, rest, same⟩)
  refine ⟨?_, registrations_fire found waits⟩
  constructor
  · exact sound.settled_fire found waits
  · exact keys_fire found rfl sound.fds
  · rw [pending_fire, List.pairwise_append]
    exact ⟨sound.ordered, by simp, by simpa using next⟩
  · intro other present
    rcases back other present with rfl | ⟨old, _⟩
    · exact older_fire (sound.older entry mem)
    · exact older_fire (sound.older other old)
  · exact keys_fire found rfl sound.stamps
  · refine List.nodup_append.mpr ⟨sound.once, by simp, ?_⟩
    intro id fired other last
    obtain rfl := List.mem_singleton.mp last
    rintro rfl
    have spent := sound.firedSpent entry mem fired
    simp [waits] at spent
  · intro id fired
    rcases List.mem_append.mp fired with old | last
    · exact older_fire (sound.firedOlder id old)
    · obtain rfl := List.mem_singleton.mp last
      exact older_fire (sound.older entry mem)
  · intro other present fired
    rcases back other present with rfl | ⟨old, different⟩
    · rfl
    · rcases List.mem_append.mp fired with earlier | last
      · exact sound.firedSpent other old earlier
      · exact absurd (List.mem_singleton.mp last) different

end Fire

end Poll
end KommunikationNetze.Webserver
