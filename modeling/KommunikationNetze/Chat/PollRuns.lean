import KommunikationNetze.Chat.PollInvariant

/-! Runs of the chat server. Whatever the clients and the main thread do, the queued updates
are applied to a table that has their descriptors, and they lead to a table that asks for
POLLOUT exactly for the clients with pending output. -/
namespace KommunikationNetze.Chat
open CLib Utils

/-- The map that the table becomes when the queue is applied. -/
structure Leads (s : PollThread) (map : ServerMap) : Prop where
  consistent : Consistent s.world map
  unused : ∀ number, s.watches ≤ number → map (.watch number) = none
  replay : ∃ table, applyAll s.updateQueue s.table = some table ∧ Maps table map

/-- What is known of the thread where it stands. -/
def AtPosition (s : PollThread) : PollPosition → Prop
  | .starting | .applying false | .returned => True
  | .polling => clientUpdates s.updateQueue = []
  | .applying true => clientUpdates s.updateQueue = [] ∧ (0 ≤ s.socksToHandle → Reported s.table)
  | .handling i => Serving s.world (s.table.drop i)

/-- The invariant of the poll thread. -/
structure PollInvariant (s : PollThread) : Prop where
  registry : Registry s.world.Named s.world
  leads : ∃ map, Leads s map
  history : clientUpdates (s.applied ++ s.updateQueue) = s.world.poll.updateQueue
  position : AtPosition s s.position

namespace PollInvariant
variable {s t : PollThread}

theorem initial : PollInvariant pollThreadCreate where
  registry := by
    refine Registry.initial.congr ?_
    intro c
    exact iff_of_false (fun connected => Nat.not_lt_zero c connected.1)
      (fun named => Nat.not_lt_zero c named.1.1)
  leads := by
    refine ⟨fun _ => none, ?_, fun _ _ => rfl, [], rfl, List.nodup_nil, rfl⟩
    constructor
    · constructor
      · exact fun c below => absurd below (Nat.not_lt_zero c)
      · exact fun c d below => absurd below (Nat.not_lt_zero c)
      · exact fun c => .empty
      · exact fun c below => absurd below (Nat.not_lt_zero c)
      · exact fun pd _ => rfl
    · constructor
      · exact fun c connected => absurd connected.1 (Nat.not_lt_zero c)
      · exact fun pd entry found => by cases found
      · exact fun number entry found => by cases found
  history := rfl
  position := trivial

theorem moves (invariant : PollInvariant s) (position : PollPosition) (known : AtPosition s position) :
    PollInvariant (s.moves position) where
  registry := invariant.registry
  leads := by
    obtain ⟨map, leads⟩ := invariant.leads
    exact ⟨map, leads.consistent, leads.unused, leads.replay⟩
  history := invariant.history
  position := by
    cases position with
    | applying afterPoll => cases afterPoll <;> exact known
    | _ => exact known

theorem counts (invariant : PollInvariant s) (i : Nat) (known : Serving s.world (s.table.drop (i + 1))) :
    PollInvariant (s.counts i) where
  registry := invariant.registry
  leads := by
    obtain ⟨map, leads⟩ := invariant.leads
    exact ⟨map, leads.consistent, leads.unused, leads.replay⟩
  history := invariant.history
  position := known

/-- A registration that is not of a client adds an entry at the end of the future table. -/
theorem register (invariant : PollInvariant s) (fd : Int) (block : ServerBlock)
    (other : ∀ c, block ≠ .client c) : PollInvariant (s.register fd block) where
  registry := invariant.registry
  leads := by
    obtain ⟨map, consistent, unused, table, applied, maps⟩ := invariant.leads
    refine ⟨_, ⟨consistent.toSound, ?_, ?_, ?_⟩, ?_, _, ?_, maps.register (unused s.watches (Nat.le_refl _))
      fd pollIn none block⟩
    · intro c connected
      obtain ⟨entry, found, entryOf⟩ := consistent.client c connected
      exact ⟨entry, (Function.update_of_ne (fun same => by cases same) ..).trans found, entryOf⟩
    · intro pd entry found
      rw [Function.update_of_ne (fun same => by cases same)] at found
      exact consistent.only pd entry found
    · intro number entry found
      by_cases same : Descriptor.watch number = .watch s.watches
      · rw [same, Function.update_self] at found
        obtain rfl := Option.some.inj found
        exact other
      · rw [Function.update_of_ne same] at found
        exact consistent.watch number entry found
    · intro number beyond
      have later : Descriptor.watch number ≠ .watch s.watches := fun same =>
        Nat.ne_of_gt beyond (Descriptor.watch.inj same)
      rw [Function.update_of_ne later]
      exact unused number (Nat.le_of_succ_le beyond)
    · rw [PollThread.register, applyAll_append, applied, Option.bind_some, applyAll_single]
      rfl
  history := by
    rw [PollThread.register, ← List.append_assoc, clientUpdates_append, invariant.history]
    exact List.append_nil _
  position := by
    have same : clientUpdates (s.register fd block).updateQueue = clientUpdates s.updateQueue :=
      (clientUpdates_append _ _).trans (List.append_nil _)
    have known := invariant.position
    rw [show (s.register fd block).position = s.position from rfl]
    generalize s.position = position at known
    cases position with
    | polling => exact same.trans known
    | applying afterPoll =>
      cases afterPoll with
      | false => exact known
      | true => exact ⟨same.trans known.1, known.2⟩
    | _ => exact known

/-- The next update leads where the whole queue leads. -/
theorem apply (invariant : PollInvariant s) (at_ : s.position = .applying afterPoll)
    (waiting : s.updateQueue = update :: rest) (applied : update.apply s.table = some table) :
    PollInvariant { s with updateQueue := rest, table, applied := s.applied ++ [update] } where
  registry := invariant.registry
  leads := by
    obtain ⟨map, consistent, unused, final, replay, maps⟩ := invariant.leads
    rw [waiting, applyAll_cons, applied, Option.bind_some] at replay
    exact ⟨map, consistent, unused, final, replay, maps⟩
  history := by
    have history := invariant.history
    rw [waiting] at history
    rw [List.append_assoc, List.singleton_append]
    exact history
  position := by
    have known := invariant.position
    rw [at_] at known
    rw [show ({ s with updateQueue := rest, table, applied := s.applied ++ [update] } :
      PollThread).position = .applying afterPoll from at_]
    cases afterPoll with
    | false => trivial
    | true =>
      obtain ⟨quiet, reported⟩ := known
      rw [waiting] at quiet
      cases update with
      | client update => cases quiet
      | watch number fd block =>
        refine ⟨quiet, fun succeeded entry mem out => ?_⟩
        obtain rfl := Option.some.inj applied
        rcases List.mem_append.mp mem with old | new
        · exact reported succeeded entry old out
        · rw [List.mem_singleton.mp new] at out
          exact absurd BitVec.zero_and out

/-- What `poll` stores changes nothing that was asked for. -/
theorem polled (invariant : PollInvariant s) (at_ : s.position = .polling)
    (reports : Reports s.table revents) (socksToHandle : Int) :
    PollInvariant { s with
      table := ServerTable.ready s.table revents, position := .applying true, socksToHandle } := by
  have quiet := invariant.position
  rw [at_] at quiet
  constructor
  · exact invariant.registry
  · obtain ⟨map, consistent, unused, table, replay, maps⟩ := invariant.leads
    obtain ⟨added, registers, _⟩ := applyAll_watches s.updateQueue quiet
    obtain rfl := Option.some.inj ((registers s.table).symm.trans replay)
    obtain ⟨next, mapsNext, same⟩ := maps.request
      (show (ServerTable.ready s.table revents ++ added).map PollEntry.request = _ by
        rw [List.map_append, List.map_append, ready_request])
    refine ⟨next, consistent.request same, ?_, _, registers _, mapsNext⟩
    intro number beyond
    have its := same (.watch number)
    rw [unused number beyond] at its
    exact Option.map_eq_none_iff.mp its
  · exact invariant.history
  · refine ⟨quiet, fun _ entry mem out => ?_⟩
    obtain ⟨i, stored⟩ := List.mem_iff_getElem?.mp mem
    rw [ServerTable.ready, List.getElem?_mapIdx, Option.map_eq_some_iff] at stored
    obtain ⟨before, found, rfl⟩ := stored
    exact reports_out (reports i before found) out

theorem failed (invariant : PollInvariant s) (at_ : s.position = .polling) :
    PollInvariant { s with position := .applying true, socksToHandle := -1 } where
  registry := invariant.registry
  leads := by
    obtain ⟨map, leads⟩ := invariant.leads
    exact ⟨map, leads.consistent, leads.unused, leads.replay⟩
  history := invariant.history
  position := by
    have quiet := invariant.position
    rw [at_] at quiet
    exact ⟨quiet, fun succeeded => absurd succeeded (show ¬ (0 : Int) ≤ -1 by decide)⟩

/-- With nothing queued the pass goes over the table that was polled. -/
theorem serving (invariant : PollInvariant s) (empty : s.updateQueue = []) (reported : Reported s.table) :
    Serving s.world (s.table.drop 0) := by
  obtain ⟨map, consistent, _, table, replay, maps⟩ := invariant.leads
  rw [empty] at replay
  obtain rfl := Option.some.inj replay
  exact consistent.serving maps reported

/-- The entry at the index and those after it. -/
theorem handling (invariant : PollInvariant s) (at_ : s.position = .handling i)
    (found : s.table[i]? = some entry) : Serving s.world (entry :: s.table.drop (i + 1)) := by
  obtain ⟨inside, same⟩ := List.getElem?_eq_some_iff.mp found
  have known := invariant.position
  rw [at_] at known
  rw [← same, List.getElem_cons_drop]
  exact known

end PollInvariant

section Calls
variable {block : ServerBlock} {revents : BitVec 16} {event : Event}

theorem Calls.handled (calls : Calls revents block (some event)) (handled : event.handled = some c) :
    block = .client c := by
  cases calls with
  | accepted => cases handled
  | hungUp | readable | writable => exact congrArg ServerBlock.client (Option.some.inj handled)

theorem Calls.writable_out (calls : Calls revents block (some (.writable c len))) :
    revents &&& pollOut ≠ 0 := by
  cases calls with
  | writable _ _ writable => exact writable

end Calls

namespace PollInvariant
variable [CMemory] {s t : PollThread}

omit [CMemory] in
theorem handled_connected (invariant : PollInvariant s) (at_ : s.position = .handling i)
    (found : s.table[i]? = some entry) (calls : Calls entry.revents entry.block (some event))
    (handled : event.handled = some c) : s.world.Connected c :=
  (invariant.handling at_ found).connected entry List.mem_cons_self c (calls.handled handled)

/-- The handler of an entry takes the map that the queue leads to further. -/
theorem handler (invariant : PollInvariant s) (at_ : s.position = .handling i)
    (found : s.table[i]? = some entry) (calls : Calls entry.revents entry.block (some event))
    (allocated : Allocated s.world (handleEvent s.world event)) :
    Registry (handleEvent s.world event).Named (handleEvent s.world event) ∧
      ∃ map next, Leads s map ∧
        Passes (event.handled.getD s.world.allocated) s.world (handleEvent s.world event) map next := by
  obtain ⟨map, leads⟩ := invariant.leads
  obtain ⟨registry, next, passes⟩ := handleEvent_passes invariant.registry leads.consistent event
    (fun c handled => invariant.handled_connected at_ found calls handled) allocated
  exact ⟨registry, map, next, leads, passes⟩

theorem call (invariant : PollInvariant s) (at_ : s.position = .handling i)
    (found : s.table[i]? = some entry) (calls : Calls entry.revents entry.block (some event))
    (allocated : Allocated s.world (handleEvent s.world event)) :
    PollInvariant ((s.counts i).handle event) := by
  obtain ⟨registry, map, next, ⟨consistent, unused, table, replay, maps⟩, passes⟩ :=
    invariant.handler at_ found calls allocated
  obtain ⟨updates, enqueued, applies⟩ := passes.updates
  have new : ((s.counts i).handle event).updateQueue = s.updateQueue ++ updates.map .client := by
    refine congrArg (fun updates => s.updateQueue ++ List.map QueuedUpdate.client updates) ?_
    exact (congrArg (List.drop _) enqueued).trans List.drop_left
  constructor
  · exact registry
  · obtain ⟨result, applied, mapsResult⟩ := applies table maps
    refine ⟨next, passes.consistent, ?_, result, ?_, mapsResult⟩
    · intro number beyond
      exact (passes.watch number).trans (unused number beyond)
    · rw [new, applyAll_append]
      exact (congrArg (·.bind (applyAll (updates.map .client))) replay).trans applied
  · rw [new, ← List.append_assoc, clientUpdates_append, clientUpdates_map]
    exact (congrArg (· ++ updates) invariant.history).trans enqueued.symm
  · refine (invariant.handling at_ found).passes passes ?_
    intro c connected own
    cases handled : event.handled with
    | none =>
      rw [handled] at own
      exact absurd connected.1 (own ▸ Nat.lt_irrefl _)
    | some client =>
      rw [handled] at own
      exact calls.handled (handled.trans (congrArg some own.symm))

theorem step (invariant : PollInvariant s) (step : PollStep s label t) : PollInvariant t := by
  cases step with
  | listen => exact invariant.register _ _ fun c same => by cases same
  | start at_ pipe =>
    exact (invariant.register pipe .wakeUp fun c same => by cases same).moves _ trivial
  | apply at_ waiting applied => exact invariant.apply at_ waiting applied
  | enter at_ empty => exact invariant.moves _ (congrArg clientUpdates empty)
  | poll at_ reports => exact invariant.polled at_ reports _
  | pollFailed at_ => exact invariant.failed at_
  | stop at_ empty failed => exact invariant.moves _ trivial
  | pass at_ empty succeeded =>
    have known := invariant.position
    rw [at_] at known
    exact invariant.moves _ (invariant.serving empty (known.2 succeeded))
  | skip at_ more found idle => exact invariant.moves _ (invariant.handling at_ found).tail
  | ignore at_ more found ready direct calls =>
    exact invariant.counts _ (invariant.handling at_ found).tail
  | call at_ more found ready direct calls offered allocated =>
    exact invariant.call at_ found calls allocated
  | again at_ done => exact invariant.moves _ trivial

theorem run (invariant : PollInvariant s) (run : Transition.Run PollStep s labels t) : PollInvariant t :=
  Transition.Run.invariant invariant (fun invariant step => invariant.step step) run

end PollInvariant

/-- The descriptor whose index the update uses. -/
def QueuedUpdate.changed : QueuedUpdate → Option Descriptor
  | .watch .. | .client (.register ..) => none
  | .client (.addEvents pd _) | .client (.removeEvents pd _) | .client (.removeDescriptor pd) =>
    some (.client pd)

theorem QueuedUpdate.changed_found {update : QueuedUpdate} (applied : update.apply table = some after)
    (changed : update.changed = some pd) : ∃ index, pollIndexForDescriptor table pd = some index := by
  cases update with
  | watch number fd block => cases changed
  | client update =>
    cases update with
    | register => cases changed
    | addEvents d events | removeEvents d events | removeDescriptor d =>
      obtain rfl := Option.some.inj changed
      obtain ⟨index, found, _⟩ := Option.map_eq_some_iff.mp applied
      exact ⟨index, found⟩

/-- The update with which `ClientDisconnect` ends. -/
def World.removal (world : World) (c : ClientRef) : QueuedUpdate :=
  .client (.removeDescriptor (world.client c).pollDescriptor)

namespace PollInvariant
variable {s t : PollThread}

/-- Nothing but registrations of the main thread separates what is polled from the table
that the queue leads to. -/
theorem polling (invariant : PollInvariant s) (at_ : s.position = .polling) :
    ∃ map added, Leads s map ∧ Maps (s.table ++ added) map ∧ clientUpdates s.updateQueue = [] ∧
      ∀ entry ∈ added, ∃ number, entry.descriptorObject = .watch number := by
  have quiet := invariant.position
  rw [at_] at quiet
  obtain ⟨map, leads⟩ := invariant.leads
  obtain ⟨table, replay, maps⟩ := leads.replay
  obtain ⟨added, registers, numbered⟩ := applyAll_watches s.updateQueue quiet
  obtain rfl := Option.some.inj ((registers s.table).symm.trans replay)
  exact ⟨map, added, leads, maps, quiet, numbered⟩

theorem removal_count (invariant : PollInvariant s) (below : c < s.world.allocated) :
    (s.applied ++ s.updateQueue).count (s.world.removal c) = if s.world.Connected c then 0 else 1 := by
  obtain ⟨map, leads⟩ := invariant.leads
  rw [World.removal, count_client, invariant.history]
  exact leads.consistent.removed c below

variable [CMemory]

/-- A client that has left stays away, and no handler of it is called. -/
theorem step_gone (invariant : PollInvariant s) (step : PollStep s label t)
    (gone : c < s.world.allocated ∧ ¬ s.world.Connected c) :
    (c < t.world.allocated ∧ ¬ t.world.Connected c) ∧
      ∀ event, label = .call event → event.handled ≠ some c := by
  cases step with
  | call at_ more found ready direct calls offered allocated =>
    obtain ⟨_, map, next, _, passes⟩ := invariant.handler at_ found calls allocated
    refine ⟨⟨gone.1.trans_le passes.allocated, fun here => gone.2 (passes.gone c gone.1 here)⟩, ?_⟩
    rintro event ⟨⟩ handled
    exact gone.2 (invariant.handled_connected at_ found calls handled)
  | _ => exact ⟨gone, fun event same => by cases same⟩

theorem run_gone (invariant : PollInvariant s) (gone : c < s.world.allocated ∧ ¬ s.world.Connected c)
    (run : Transition.Run PollStep s labels t) :
    ∀ event, PollLabel.call event ∈ labels → event.handled ≠ some c := by
  have history : PollInvariant t ∧ (c < t.world.allocated ∧ ¬ t.world.Connected c) ∧
      ∀ event, PollLabel.call event ∈ labels → event.handled ≠ some c := by
    refine Transition.Run.history (P := fun labels t => PollInvariant t ∧
      (c < t.world.allocated ∧ ¬ t.world.Connected c) ∧
        ∀ event, PollLabel.call event ∈ labels → event.handled ≠ some c) ?_ ?_ run
    · exact ⟨invariant, gone, fun event mem => by cases mem⟩
    · rintro labels s label t ⟨invariant, gone, earlier⟩ step
      obtain ⟨still, last⟩ := invariant.step_gone step gone
      refine ⟨invariant.step step, still, fun event mem => ?_⟩
      rcases List.mem_append.mp mem with old | new
      · exact earlier event old
      · exact last event (List.mem_singleton.mp new).symm
  exact history.2.2

end PollInvariant

section Server
variable [CMemory] {s : PollThread}

/-- Every update finds its descriptor. A client that has left is taken out of the table once,
none of its handlers is called any more, and what is polled are watches and open sockets. -/
theorem updates_find_descriptors (run : PollRun labels s) :
    (∀ update rest pd, s.updateQueue = update :: rest → update.changed = some pd →
      ∃ index, pollIndexForDescriptor s.table pd = some index) ∧
    (∀ c, c < s.world.allocated →
      (s.applied ++ s.updateQueue).count (s.world.removal c) = (if s.world.Connected c then 0 else 1) ∧
      (s.position = .polling →
        s.applied.count (s.world.removal c) = if s.world.Connected c then 0 else 1)) ∧
    (∀ c, c < s.world.allocated → ¬ s.world.Connected c →
      ∀ more later, Transition.Run PollStep s more later →
        ∀ event, .call event ∈ more → event.handled ≠ some c) ∧
    (s.position = .polling → ∀ entry ∈ s.table,
      ((∃ number, entry.descriptorObject = .watch number) ∧ ∀ c, entry.block ≠ .client c) ∨
        ∃ c, s.world.Connected c ∧ entry.block = .client c ∧ entry.fd = (s.world.client c).socket) := by
  have invariant := PollInvariant.initial.run run
  refine ⟨?_, fun c below => ⟨invariant.removal_count below, fun at_ => ?_⟩, ?_, ?_⟩
  · intro update rest pd waiting changed
    obtain ⟨map, leads⟩ := invariant.leads
    obtain ⟨table, replay, _⟩ := leads.replay
    rw [waiting, applyAll_cons, Option.bind_eq_some_iff] at replay
    obtain ⟨next, applied, _⟩ := replay
    exact QueuedUpdate.changed_found applied changed
  · obtain ⟨_, _, _, _, quiet, _⟩ := invariant.polling at_
    have count := invariant.removal_count below
    have none : s.updateQueue.count (s.world.removal c) = 0 := by
      rw [World.removal, count_client, quiet, List.count_nil]
    rw [List.count_append, none, Nat.add_zero] at count
    exact count
  · intro c below gone more later continued
    exact invariant.run_gone ⟨below, gone⟩ continued
  · intro at_ entry mem
    obtain ⟨map, added, leads, maps, _⟩ := invariant.polling at_
    rcases leads.consistent.entry_cases maps (List.mem_append_left added mem) with watch | ⟨c, connected, _, its⟩
    · exact .inl watch
    · exact .inr ⟨c, connected, its.block, its.fd⟩

/-- Once the queue is applied the table asks for POLLOUT for the clients with pending output
and for no others, so `ClientDoWrite` has something to send. -/
theorem write_interest (run : PollRun labels s) :
    (∃ table, applyAll s.updateQueue s.table = some table ∧ ∀ c, s.world.Connected c →
      ∃ entry ∈ table, entry.descriptorObject = s.world.descriptor c ∧
        (∀ other ∈ table, other.descriptorObject = s.world.descriptor c → other = entry) ∧
        (AsksOut entry ↔ 0 < (s.world.client c).outBuffer.filled)) ∧
    (∀ c len after, PollStep s (.call (.writable c len)) after →
      0 < (s.world.client c).outBuffer.filled) ∧
    (s.position = .polling → ∀ c, s.world.Connected c → ∃ entry ∈ s.table,
      entry.descriptorObject = s.world.descriptor c ∧
        (AsksOut entry ↔ 0 < (s.world.client c).outBuffer.filled)) := by
  have invariant := PollInvariant.initial.run run
  refine ⟨?_, ?_, ?_⟩
  · obtain ⟨map, leads⟩ := invariant.leads
    obtain ⟨table, replay, maps⟩ := leads.replay
    refine ⟨table, replay, fun c connected => ?_⟩
    obtain ⟨entry, found, its⟩ := leads.consistent.client c connected
    have key := maps.descriptor found
    refine ⟨entry, maps.mem.mpr (key ▸ found), key, ?_, its.interest⟩
    intro other mem same
    have twin := maps.mem.mp mem
    rw [same, found] at twin
    exact (Option.some.inj twin).symm
  · intro c len after step
    cases step with
    | call at_ more found ready direct calls offered allocated =>
      exact (invariant.handling at_ found).pending _ List.mem_cons_self c (calls.handled rfl) calls.writable_out
  · intro at_ c connected
    obtain ⟨map, added, leads, maps, _, numbered⟩ := invariant.polling at_
    obtain ⟨entry, found, its⟩ := leads.consistent.client c connected
    have key := maps.descriptor found
    refine ⟨entry, ?_, key, its.interest⟩
    rcases List.mem_append.mp (maps.mem.mpr (key ▸ found)) with here | new
    · exact here
    · obtain ⟨number, watch⟩ := numbered entry new
      rw [watch] at key
      cases key

end Server

/-- A listener and the pipe. -/
def listeningTable : ServerTable :=
  [{ descriptorObject := .watch 0, fd := 3, events := pollIn, revents := 0
     queue := none, block := .listener 3 },
   { descriptorObject := .watch 1, fd := 7, events := pollIn, revents := 0
     queue := none, block := .wakeUp }]

def listeningRevents (i : Nat) : BitVec 16 := if i = 0 then pollIn else 0

/-- The thread when the listener is ready for the first time. -/
def listeningThread : PollThread :=
  { pollThreadCreate with
    table := ServerTable.ready listeningTable listeningRevents
    position := .handling 0
    socksToHandle := 1
    watches := 2
    applied := [.watch 0 3 (.listener 3), .watch 1 7 .wakeUp] }

theorem listening_run : @PollRun .zeroed
    [.listen 3, .advance, .advance, .advance, .advance, .advance, .advance] listeningThread := by
  let _ := CMemory.zeroed
  have reports : Reports listeningTable listeningRevents := by
    rintro (_ | _ | i) entry found
    · obtain rfl := Option.some.inj found
      decide
    · obtain rfl := Option.some.inj found
      decide
    · cases found
  have listening : PollRun [.listen 3] (pollThreadCreate.register 3 (.listener 3)) := .single .listen
  have started := listening.snoc (.start rfl 7)
  have first := started.snoc (.apply rfl rfl rfl)
  have second := first.snoc (.apply rfl rfl rfl)
  have polling := (second.snoc (.enter rfl rfl)).snoc (.poll rfl reports)
  exact polling.snoc (.pass rfl rfl (by decide))

/-- The thread after the first client was accepted. -/
def acceptedThread : PollThread :=
  let _ := CMemory.zeroed
  (listeningThread.counts 0).handle (.accepted 5)

theorem accepted_run : @PollRun .zeroed
    [.listen 3, .advance, .advance, .advance, .advance, .advance, .advance, .call (.accepted 5)]
    acceptedThread := by
  let _ := CMemory.zeroed
  have allocated : Allocated serverCreate (handleEvent serverCreate (.accepted 5)) := by
    have targets : writeTargets (clientCreate serverCreate 5).calls = [0] := by decide +kernel
    have room : ((clientCreate serverCreate 5).client 0).outBuffer.length ≠ 0 := by decide +kernel
    intro c mem
    rw [handleEvent, targets] at mem
    rw [List.mem_singleton.mp mem]
    exact room
  exact listening_run.snoc (.call rfl (by decide) rfl (by decide) rfl
    (.accepted (by decide) (by decide)) trivial allocated)

/-- The line that the first client is told is queued behind its registration. -/
theorem updates_find_descriptors_accepted : ∃ labels s, @PollRun .zeroed labels s ∧
    s.updateQueue = [.client (.addEvents 0 pollOut)] ∧
      ∃ index, pollIndexForDescriptor s.table (.client 0) = some index := by
  let _ := CMemory.zeroed
  have queue : acceptedThread.updateQueue =
      [.client (.register 0 5 pollIn none 0), .client (.addEvents 0 pollOut)] := by decide +kernel
  have run := (accepted_run.snoc (.again rfl (.inl (by decide)))).snoc (.apply rfl queue rfl)
  exact ⟨_, _, run, rfl, (updates_find_descriptors run).1 _ _ _ rfl rfl⟩

theorem write_interest_accepted : ∃ table,
    applyAll acceptedThread.updateQueue acceptedThread.table = some table ∧
      ∃ entry ∈ table, entry.descriptorObject = .client 0 ∧
        (AsksOut entry ↔ 0 < (acceptedThread.world.client 0).outBuffer.filled) := by
  let _ := CMemory.zeroed
  have connected : acceptedThread.world.Connected 0 :=
    (clientCreate_connected serverCreate 5 0).mpr (.inr rfl)
  have descriptor : acceptedThread.world.descriptor 0 = .client 0 := by decide +kernel
  obtain ⟨⟨table, replay, clients⟩, _⟩ := write_interest accepted_run
  obtain ⟨entry, mem, key, _, interest⟩ := clients 0 connected
  exact ⟨table, replay, entry, mem, key.trans descriptor, interest⟩

end KommunikationNetze.Chat
