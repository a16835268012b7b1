import KommunikationNetze.Chat.ClientMemory
import KommunikationNetze.Chat.PollRuns
import KommunikationNetze.Library.SlotArray

/-! The life of the clients of the server. `ClientCreate` keeps no reference, so that a client lives
as long as its block is on the update queue or in the table: until its removal is applied. -/
namespace KommunikationNetze.Chat
open CLib Utils

/-- The block an update holds for the table. -/
def QueuedUpdate.registration : QueuedUpdate → Option (Descriptor × ServerBlock)
  | .watch number _ block => some (.watch number, block)
  | .client (.register pd _ _ _ c) => some (.client pd, .client c)
  | .client (.addEvents _ _) | .client (.removeEvents _ _) | .client (.removeDescriptor _) => none

def PollEntry.registration (entry : PollEntry Descriptor ServerBlock) : Descriptor × ServerBlock :=
  (entry.descriptorObject, entry.block)

namespace PollThread
variable (s : PollThread)

/-- The blocks that the poll holds. -/
def registrations : List (Descriptor × ServerBlock) :=
  s.updateQueue.filterMap QueuedUpdate.registration ++ s.table.map PollEntry.registration

/-- The references to a client, each held by a block that captured it. -/
def references (c : ClientRef) : Nat := (s.registrations.map Prod.snd).count (.client c)

end PollThread

/-- `ClientDealloc` is called: the last reference is released. -/
def Deallocates (s t : PollThread) (c : ClientRef) : Prop := 0 < s.references c ∧ t.references c = 0

section Apply
variable {table after : ServerTable} {update : QueuedUpdate}

theorem registration_modify (table : ServerTable) (index : Nat)
    {change : PollEntry Descriptor ServerBlock → PollEntry Descriptor ServerBlock}
    (same : ∀ entry, (change entry).registration = entry.registration) :
    (table.modify index change).map PollEntry.registration = table.map PollEntry.registration := by
  rw [SlotArray.map_modify PollEntry.registration change id same, List.modify_id]

theorem ready_registration (table : ServerTable) (revents : Nat → BitVec 16) :
    (ServerTable.ready table revents).map PollEntry.registration = table.map PollEntry.registration := by
  apply List.ext_getElem?
  intro i
  simp only [ServerTable.ready, List.getElem?_map, List.getElem?_mapIdx, Option.map_map]
  rfl

/-- A removal takes a block out of the table, and no other update releases one. -/
theorem QueuedUpdate.apply_registrations (applied : update.apply table = some after) :
    (∃ pd block, update = .client (.removeDescriptor pd) ∧
      ((.client pd, block) :: after.map PollEntry.registration).Perm (table.map PollEntry.registration)) ∨
    (∀ pd, update ≠ .client (.removeDescriptor pd)) ∧
      (after.map PollEntry.registration).Perm
        (update.registration.toList ++ table.map PollEntry.registration) := by
  cases update with
  | watch number fd block =>
    obtain rfl := Option.some.inj applied
    refine .inr ⟨(fun pd same => by cases same), ?_⟩
    rw [pollDoRegisterDescriptor, List.map_append]
    exact List.perm_append_comm
  | client update =>
    cases update with
    | register pd fd events queue c =>
      obtain rfl := Option.some.inj applied
      refine .inr ⟨(fun pd same => by cases same), ?_⟩
      rw [pollDoRegisterDescriptor, List.map_append]
      exact List.perm_append_comm
    | addEvents pd events | removeEvents pd events =>
      obtain ⟨index, _, rfl⟩ := Option.map_eq_some_iff.mp applied
      refine .inr ⟨(fun pd same => by cases same), ?_⟩
      exact .of_eq (registration_modify table index fun _ => rfl)
    | removeDescriptor pd =>
      obtain ⟨index, found, rfl⟩ := Option.map_eq_some_iff.mp applied
      obtain ⟨inside, key, _⟩ := List.findIdx?_eq_some_iff_getElem.mp found
      refine .inl ⟨pd, table[index].block, rfl, ?_⟩
      have removed := (SwapRemove.cons_swapRemove_perm (List.getElem?_eq_getElem inside)).map
        PollEntry.registration
      have own : table[index].registration = (.client pd, table[index].block) :=
        congrArg (·, _) (of_decide_eq_true key)
      rw [List.map_cons, own] at removed
      exact removed

end Apply

/-- These blocks are enqueued, and what was allocated keeps its descriptor. -/
structure Enqueues (new : List (Descriptor × ServerBlock)) (world after : World) : Prop where
  updates : ∃ updates, after.poll.updateQueue = world.poll.updateQueue ++ updates ∧
    (updates.map QueuedUpdate.client).filterMap QueuedUpdate.registration = new
  allocated : world.allocated ≤ after.allocated
  descriptor : ∀ c, c < world.allocated → after.descriptor c = world.descriptor c

section Enqueues
variable {u v w world after : World} {targets : List ClientRef} {client : ClientRef}
  {new more : List (Descriptor × ServerBlock)}

theorem Enqueues.trans (first : Enqueues new u v) (second : Enqueues more v w) :
    Enqueues (new ++ more) u w where
  updates := by
    obtain ⟨updates, enqueued, registered⟩ := first.updates
    obtain ⟨others, enqueuedMore, registeredMore⟩ := second.updates
    refine ⟨updates ++ others, by rw [enqueuedMore, enqueued, List.append_assoc], ?_⟩
    rw [List.map_append, List.filterMap_append, registered, registeredMore]
  allocated := first.allocated.trans second.allocated
  descriptor c below :=
    (second.descriptor c (below.trans_le first.allocated)).trans (first.descriptor c below)

theorem Notified.enqueues (notified : Notified targets world after) : Enqueues [] world after where
  updates := by
    refine ⟨targets.map (asksToWrite world), by rw [notified.poll], ?_⟩
    rw [List.map_map, List.filterMap_map, List.filterMap_eq_nil_iff]
    exact fun _ _ => rfl
  allocated := notified.allocated.ge
  descriptor c _ := notified.descriptor c

theorem closeConnection_enqueues (world : World) (client : ClientRef) :
    Enqueues [] world (closeConnection world client) where
  updates := ⟨_, rfl, rfl⟩
  allocated := Nat.le_refl _
  descriptor c _ := congrArg Descriptor.client (closeConnection_fields world client c).2.1

theorem withdrawn_enqueues (world : World) (client : ClientRef) :
    Enqueues [] world (withdrawn world client) where
  updates := ⟨_, rfl, rfl⟩
  allocated := Nat.le_refl _
  descriptor c _ := congrArg Descriptor.client (withdrawn_fields world client c).2.2

theorem allocateClient_enqueues (world : World) (socket : Int) :
    Enqueues [(.client world.poll.descriptors, .client world.allocated)] world
      (allocateClient world socket) where
  updates := ⟨_, rfl, rfl⟩
  allocated := Nat.le_succ _
  descriptor c below := by
    rw [World.descriptor, allocateClient_old world socket (Nat.ne_of_lt below), World.descriptor]

theorem Leaves.enqueues (leaves : Leaves world after client) : Enqueues [] world after := by
  obtain ⟨told, ⟨_, notified, _⟩, rfl⟩ := leaves
  exact notified.enqueues.trans (closeConnection_enqueues told client)

theorem Leaves.allocated (leaves : Leaves world after client) : after.allocated = world.allocated := by
  obtain ⟨told, ⟨_, notified, _⟩, rfl⟩ := leaves
  exact notified.allocated

theorem SentAll.allocated (sentAll : SentAll world after client) : after.allocated = world.allocated := by
  obtain ⟨sent, notified, rfl⟩ := sentAll
  exact notified.allocated

theorem SentAll.enqueues (sentAll : SentAll world after client) : Enqueues [] world after := by
  obtain ⟨sent, notified, rfl⟩ := sentAll
  exact notified.enqueues.trans (withdrawn_enqueues sent client)

variable [CMemory]

/-- Only `ClientCreate` makes a block that captures a client, the new one. -/
theorem handleEvent_enqueues (registry : Registry world.Named world) (event : Event)
    (connected : ∀ c, event.handled = some c → world.Connected c) :
    (∃ socket, event = .accepted socket ∧ (handleEvent world event).allocated = world.allocated + 1 ∧
      Enqueues [((handleEvent world event).descriptor world.allocated, .client world.allocated)] world
        (handleEvent world event)) ∨
    ((handleEvent world event).allocated = world.allocated ∧
      Enqueues [] world (handleEvent world event)) := by
  cases event with
  | accepted socket =>
    obtain ⟨_, targets, notified, _⟩ := clientCreate_notifies registry socket
    have made := (allocateClient_enqueues world socket).trans notified.enqueues
    refine .inl ⟨socket, rfl, notified.allocated, ?_⟩
    have descriptor : (clientCreate world socket).descriptor world.allocated =
        .client world.poll.descriptors := by
      rw [notified.descriptor, World.descriptor, allocateClient_new]
    rw [handleEvent, descriptor]
    exact made
  | hungUp client =>
    obtain ⟨_, leaves⟩ := clientDisconnect_leaves registry (connected client rfl)
    exact .inr ⟨leaves.allocated, leaves.enqueues⟩
  | readable client result =>
    obtain ⟨_, ⟨_, notified, _⟩ | leaves⟩ := clientDoRead_cases registry (connected client rfl) result
    · exact .inr ⟨notified.allocated, notified.enqueues⟩
    · exact .inr ⟨leaves.allocated, leaves.enqueues⟩
  | writable client len =>
    obtain ⟨_, ⟨_, notified, _⟩ | leaves | sentAll⟩ := clientDoWrite_cases registry (connected client rfl) len
    · exact .inr ⟨notified.allocated, notified.enqueues⟩
    · exact .inr ⟨leaves.allocated, leaves.enqueues⟩
    · exact .inr ⟨sentAll.allocated, sentAll.enqueues⟩

end Enqueues

/-- The block of the pipe or of a listener, or that of a client under its own descriptor. -/
def Known (world : World) (registration : Descriptor × ServerBlock) : Prop :=
  (∀ pd, registration.1 ≠ .client pd) ∧ (∀ c, registration.2 ≠ .client c) ∨
    ∃ c, c < world.allocated ∧ registration = (world.descriptor c, .client c)

/-- A client has one reference until its removal was applied. -/
structure Referenced (s : PollThread) : Prop where
  known : ∀ registration ∈ s.registrations, Known s.world registration
  counts : ∀ c, c < s.world.allocated → s.references c + s.applied.count (s.world.removal c) = 1

section Referenced
variable {s t : PollThread} {new : List (Descriptor × ServerBlock)}

theorem references_perm (perm : t.registrations.Perm (new ++ s.registrations)) (c : ClientRef) :
    t.references c = (new.map Prod.snd).count (.client c) + s.references c := by
  rw [PollThread.references, (perm.map Prod.snd).count_eq, List.map_append, List.count_append]
  rfl

theorem Enqueues.known {world after : World} (enqueues : Enqueues new world after)
    (known : Known world registration) : Known after registration := by
  rcases known with other | ⟨c, below, rfl⟩
  · exact .inl other
  · exact .inr ⟨c, below.trans_le enqueues.allocated, by rw [enqueues.descriptor c below]⟩

theorem Enqueues.removal {world after : World} (enqueues : Enqueues new world after)
    (below : c < world.allocated) : after.removal c = world.removal c := by
  have same := Descriptor.client.inj (enqueues.descriptor c below)
  rw [World.removal, World.removal, same]

/-- A client that is not there yet has no reference. -/
theorem Referenced.unknown (referenced : Referenced s) (beyond : s.world.allocated ≤ c) :
    s.references c = 0 := by
  rw [PollThread.references, List.count_eq_zero]
  intro mem
  obtain ⟨registration, held, same⟩ := List.mem_map.mp mem
  rcases referenced.known registration held with ⟨_, other⟩ | ⟨d, below, rfl⟩
  · exact other c same
  · obtain rfl := ServerBlock.client.inj same
    exact absurd below (Nat.not_lt.mpr beyond)

/-- A step that only makes or moves blocks of the pipe and of listeners. -/
theorem Referenced.moves (referenced : Referenced s) (new : List (Descriptor × ServerBlock))
    (world : t.world = s.world) (perm : t.registrations.Perm (new ++ s.registrations))
    (watches : ∀ registration ∈ new, (∀ pd, registration.1 ≠ .client pd) ∧ ∀ c, registration.2 ≠ .client c)
    (applied : ∀ pd, t.applied.count (.client (.removeDescriptor pd)) =
      s.applied.count (.client (.removeDescriptor pd))) : Referenced t where
  known registration mem := by
    rw [world]
    rcases List.mem_append.mp (perm.mem_iff.mp mem) with added | old
    · exact .inl (watches registration added)
    · exact referenced.known registration old
  counts c below := by
    have none : (new.map Prod.snd).count (.client c) = 0 := by
      rw [List.count_eq_zero]
      intro mem
      obtain ⟨registration, added, same⟩ := List.mem_map.mp mem
      exact (watches registration added).2 c same
    rw [world] at below ⊢
    rw [references_perm perm, none, Nat.zero_add, World.removal, applied]
    exact referenced.counts c below

theorem Referenced.register (referenced : Referenced s) (fd : Int) (block : ServerBlock)
    (other : ∀ c, block ≠ .client c) : Referenced (s.register fd block) := by
  refine referenced.moves [(.watch s.watches, block)] rfl ?_ ?_ fun _ => rfl
  · rw [PollThread.registrations, PollThread.register, List.filterMap_append, List.append_assoc]
    exact List.perm_append_comm_assoc ..
  · intro registration mem
    obtain rfl := List.mem_singleton.mp mem
    exact ⟨fun pd same => (by cases same), other⟩

/-- A removal takes the block of its client away. -/
theorem Referenced.releases (referenced : Referenced s) (sound : Sound s.world)
    (below : c < s.world.allocated) (world : t.world = s.world)
    (perm : s.registrations.Perm ([(s.world.descriptor c, .client c)] ++ t.registrations))
    (applied : t.applied = s.applied ++ [s.world.removal c]) : Referenced t where
  known registration kept := by
    rw [world]
    exact referenced.known registration (perm.mem_iff.mpr (List.mem_cons_of_mem _ kept))
  counts d known := by
    rw [world] at known ⊢
    have counts := referenced.counts d known
    have taken : [s.world.removal c].count (s.world.removal d) = if c = d then 1 else 0 := by
      rw [List.count_singleton]
      refine if_congr (beq_iff_eq.trans ⟨fun same => ?_, fun same => same ▸ rfl⟩) rfl rfl
      exact sound.injective c d below known (PollUpdate.removeDescriptor.inj (QueuedUpdate.client.inj same))
    have released : ([(s.world.descriptor c, ServerBlock.client c)].map Prod.snd).count (.client d) =
        if c = d then 1 else 0 := by
      rw [List.map_cons, List.map_nil, List.count_singleton]
      exact if_congr (beq_iff_eq.trans (iff_of_eq (ServerBlock.client.injEq c d))) rfl rfl
    rw [references_perm perm, released] at counts
    rw [applied, List.count_append, taken]
    omega

/-- The next update is applied. -/
theorem Referenced.apply (referenced : Referenced s) (invariant : PollInvariant s)
    (waiting : s.updateQueue = update :: rest) (applied : update.apply s.table = some table) :
    Referenced { s with updateQueue := rest, table, applied := s.applied ++ [update] } := by
  have before : s.registrations = (update.registration.toList ++ rest.filterMap QueuedUpdate.registration) ++
      s.table.map PollEntry.registration := by
    rw [PollThread.registrations, waiting, List.filterMap_cons]
    cases update.registration <;> rfl
  rcases QueuedUpdate.apply_registrations applied with ⟨pd, block, rfl, removed⟩ | ⟨other, moved⟩
  · obtain ⟨map, leads⟩ := invariant.leads
    have perm : s.registrations.Perm ([(.client pd, block)] ++
        (rest.filterMap QueuedUpdate.registration ++ table.map PollEntry.registration)) := by
      rw [before]
      exact (removed.symm.append_left _).trans List.perm_middle
    rcases referenced.known _ (perm.mem_iff.mpr List.mem_cons_self) with ⟨watch, _⟩ | ⟨c, below, same⟩
    · exact absurd rfl (watch pd)
    · obtain ⟨descriptor, rfl⟩ := Prod.mk.inj same
      obtain rfl := Descriptor.client.inj descriptor
      exact referenced.releases leads.consistent.toSound below rfl perm rfl
  · refine referenced.moves [] rfl ?_ (fun _ mem => by cases mem) ?_
    · rw [List.nil_append, before, List.append_assoc]
      refine (moved.append_left (rest.filterMap QueuedUpdate.registration)).trans ?_
      exact List.perm_append_comm_assoc ..
    · intro pd
      rw [List.count_append, List.count_singleton, if_neg, Nat.add_zero]
      rw [beq_iff_eq]
      exact other pd

variable [CMemory]

theorem Referenced.call (referenced : Referenced s) (invariant : PollInvariant s)
    (step : PollStep s (.call event) t) : Referenced t := by
  have after := invariant.step step
  cases step with
  | call at_ more found ready direct calls offered allocated =>
    rename_i i entry
    have connected := fun c => invariant.handled_connected (c := c) at_ found calls
    have perm : ∀ {new}, Enqueues new s.world (handleEvent s.world event) →
        ((s.counts i).handle event).registrations.Perm (new ++ s.registrations) := by
      rintro new ⟨⟨updates, enqueued, rfl⟩, _, _⟩
      have queue : ((s.counts i).handle event).updateQueue = s.updateQueue ++ updates.map .client := by
        refine congrArg (fun updates => s.updateQueue ++ List.map QueuedUpdate.client updates) ?_
        exact (congrArg (List.drop _) enqueued).trans List.drop_left
      rw [PollThread.registrations, queue, List.filterMap_append, List.append_assoc]
      exact List.perm_append_comm_assoc ..
    have world : ((s.counts i).handle event).world = handleEvent s.world event := rfl
    have applied : ((s.counts i).handle event).applied = s.applied := rfl
    rcases handleEvent_enqueues invariant.registry event connected with ⟨socket, rfl, next, enqueues⟩ |
      ⟨same, enqueues⟩
    · constructor
      · intro registration mem
        rcases List.mem_append.mp ((perm enqueues).mem_iff.mp mem) with made | old
        · obtain rfl := List.mem_singleton.mp made
          exact .inr ⟨s.world.allocated, next ▸ Nat.lt_succ_self _, rfl⟩
        · exact enqueues.known (referenced.known registration old)
      · intro c below
        rw [references_perm (perm enqueues), List.map_cons, List.map_nil, List.count_singleton, applied]
        rcases Nat.lt_or_eq_of_le (Nat.le_of_lt_succ (next ▸ below)) with old | rfl
        · rw [world, enqueues.removal old, if_neg, Nat.zero_add]
          · exact referenced.counts c old
          · rw [beq_iff_eq]
            exact fun same => absurd old (Nat.lt_irrefl c <| ServerBlock.client.inj same ▸ ·)
        · have here : ((s.counts i).handle (.accepted socket)).world.Connected s.world.allocated :=
            (clientCreate_connected s.world socket _).mpr (.inr rfl)
          have waiting := after.removal_count below
          rw [if_pos here, List.count_append, applied] at waiting
          rw [referenced.unknown (Nat.le_refl _), if_pos (beq_self_eq_true _)]
          omega
    · constructor
      · exact fun registration mem =>
          enqueues.known (referenced.known registration ((perm enqueues).mem_iff.mp mem))
      · intro c below
        rw [world, same] at below
        rw [references_perm (perm enqueues), world, enqueues.removal below, applied]
        exact (congrArg (· + _) (Nat.zero_add _)).trans (referenced.counts c below)

theorem Referenced.step (referenced : Referenced s) (invariant : PollInvariant s)
    (step : PollStep s label t) : Referenced t := by
  cases step with
  | call at_ more found ready direct calls offered allocated =>
    exact referenced.call invariant (.call at_ more found ready direct calls offered allocated)
  | apply at_ waiting applied => exact referenced.apply invariant waiting applied
  | listen => exact referenced.register _ _ fun c same => by cases same
  | start at_ pipe =>
    have registered := referenced.register pipe .wakeUp fun c same => by cases same
    exact registered.moves [] rfl (.refl _) (fun _ mem => by cases mem) fun _ => rfl
  | poll at_ reports =>
    refine referenced.moves [] rfl (.of_eq ?_) (fun _ mem => by cases mem) fun _ => rfl
    exact congrArg (_ ++ ·) (ready_registration s.table _)
  | _ => exact referenced.moves [] rfl (.refl _) (fun _ mem => by cases mem) fun _ => rfl

theorem Referenced.run (run : PollRun labels s) : PollInvariant s ∧ Referenced s := by
  refine run.invariant (P := fun s => PollInvariant s ∧ Referenced s) ⟨.initial, ?_⟩ ?_
  · exact ⟨fun _ mem => absurd mem List.not_mem_nil, fun c below => absurd below (Nat.not_lt_zero c)⟩
  · rintro s label t ⟨invariant, referenced⟩ step
    exact ⟨invariant.step step, referenced.step invariant step⟩

/-- Clients stay allocated under their descriptors, and at most one update is applied. -/
theorem PollInvariant.keeps (invariant : PollInvariant s) (step : PollStep s label t) :
    (s.world.allocated ≤ t.world.allocated ∧
      ∀ c, c < s.world.allocated → t.world.removal c = s.world.removal c) ∧
    (t.applied = s.applied ∨ ∃ update, t.applied = s.applied ++ [update]) := by
  cases step with
  | call at_ more found ready direct calls offered allocated =>
    refine ⟨?_, .inl rfl⟩
    rcases handleEvent_enqueues invariant.registry _ (fun c => invariant.handled_connected at_ found calls) with
      ⟨_, _, _, enqueues⟩ | ⟨_, enqueues⟩
    · exact ⟨enqueues.allocated, fun c => enqueues.removal⟩
    · exact ⟨enqueues.allocated, fun c => enqueues.removal⟩
  | apply => exact ⟨⟨Nat.le_refl _, fun _ _ => rfl⟩, .inr ⟨_, rfl⟩⟩
  | _ => exact ⟨⟨Nat.le_refl _, fun _ _ => rfl⟩, .inl rfl⟩

/-- A client object has one reference until the removal of its descriptor is applied, and is
deallocated in exactly this step. A connected client is alive, and whatever is in the memory of
clients without a reference, a handler does the same and leaves it there. -/
theorem client_lifetime (run : PollRun labels s) :
    (∀ c, c < s.world.allocated →
      s.references c = if s.world.removal c ∈ s.applied then 0 else 1) ∧
    (∀ c, s.world.Connected c → s.references c = 1) ∧
    (∀ label t, PollStep s label t → ∀ c, Deallocates s t c ↔
      c < s.world.allocated ∧ t.applied = s.applied ++ [s.world.removal c]) ∧
    (∀ event t, PollStep s (.call event) t → ∀ freed : ClientRef → Option Client,
      (∀ c, 0 < s.references c → freed c = none) → freed s.world.allocated = none →
        handleEvent (s.world.overwritten freed) event = t.world.overwritten freed) := by
  obtain ⟨invariant, referenced⟩ := Referenced.run run
  have alive : ∀ c, s.world.Connected c → s.references c = 1 := by
    intro c connected
    have counts := referenced.counts c connected.1
    have removals := invariant.removal_count connected.1
    rw [if_pos connected, List.count_append] at removals
    omega
  refine ⟨?_, alive, ?_, ?_⟩
  · intro c below
    have counts := referenced.counts c below
    split
    · rename_i removed
      have := List.count_pos_iff.mpr removed
      omega
    · rename_i kept
      rw [List.count_eq_zero.mpr kept] at counts
      exact counts
  · intro label t step c
    obtain ⟨⟨grows, same⟩, applied⟩ := invariant.keeps step
    have after := referenced.step invariant step
    constructor
    · rintro ⟨held, released⟩
      have below : c < s.world.allocated := by
        by_contra beyond
        rw [referenced.unknown (Nat.le_of_not_lt beyond)] at held
        exact Nat.lt_irrefl 0 held
      refine ⟨below, ?_⟩
      have counts := referenced.counts c below
      have left := after.counts c (below.trans_le grows)
      rw [released, same c below] at left
      rcases applied with none | ⟨update, one⟩
      · rw [none] at left
        omega
      · rw [one, List.count_append] at left
        have last : 0 < [update].count (s.world.removal c) := by omega
        rw [one, List.mem_singleton.mp (List.count_pos_iff.mp last)]
    · rintro ⟨below, one⟩
      have counts := referenced.counts c below
      have left := after.counts c (below.trans_le grows)
      rw [same c below, one, List.count_append, List.count_singleton_self] at left
      exact ⟨by omega, by omega⟩
  · intro event t step freed unreferenced fresh
    cases step with
    | call at_ more found ready direct calls offered allocated =>
      refine handleEvent_overwritten invariant.registry ?_ fresh event fun c =>
        invariant.handled_connected at_ found calls
      exact fun c connected => unreferenced c (alive c connected ▸ Nat.one_pos)

end Referenced

/-- After it was accepted, the client is held by its registration on the update queue. -/
theorem client_lifetime_accepted : ∃ labels s, @PollRun .zeroed labels s ∧ s.table.length = 2 ∧
    s.references 0 = 1 := by
  let _ := CMemory.zeroed
  have connected : acceptedThread.world.Connected 0 :=
    (clientCreate_connected serverCreate 5 0).mpr (.inr rfl)
  exact ⟨_, _, accepted_run, rfl, (client_lifetime accepted_run).2.1 0 connected⟩

end KommunikationNetze.Chat
