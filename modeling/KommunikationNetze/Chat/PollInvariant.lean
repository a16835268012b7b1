import KommunikationNetze.Chat.PollHandlers

/-! What holds between any two steps of the poll thread. While a pass goes over the table,
its entries are those of clients that are still connected, since a handler only disconnects
its own client and the table has no two entries of one client. -/
namespace KommunikationNetze.Chat
open CLib Utils

section Queue

/-- What the handlers have enqueued. -/
def clientUpdates (updates : List QueuedUpdate) : List (PollUpdate ClientRef) :=
  updates.filterMap fun
    | .watch .. => none
    | .client update => some update

@[simp] theorem clientUpdates_append (updates more : List QueuedUpdate) :
    clientUpdates (updates ++ more) = clientUpdates updates ++ clientUpdates more := List.filterMap_append

theorem clientUpdates_map (updates : List (PollUpdate ClientRef)) :
    clientUpdates (updates.map .client) = updates := by
  rw [clientUpdates, List.filterMap_map]
  exact List.filterMap_some

theorem count_client (updates : List QueuedUpdate) (update : PollUpdate ClientRef) :
    updates.count (.client update) = (clientUpdates updates).count update := by
  induction updates with
  | nil => rfl
  | cons first rest ih =>
    cases first with
    | watch number fd block =>
      rw [List.count_cons_of_ne (fun same => by cases same), ih]
      rfl
    | client other =>
      have front : clientUpdates (.client other :: rest) = other :: clientUpdates rest := rfl
      rw [front, List.count_cons, List.count_cons, ih]
      simp

/-- The registrations of the main thread add entries at the end. -/
theorem applyAll_watches (updates : List QueuedUpdate) (watches : clientUpdates updates = []) :
    ∃ added, (∀ table, applyAll updates table = some (table ++ added)) ∧
      ∀ entry ∈ added, ∃ number, entry.descriptorObject = .watch number := by
  induction updates with
  | nil =>
    refine ⟨[], fun table => ?_, fun entry mem => by cases mem⟩
    rw [List.append_nil]
    rfl
  | cons first rest ih =>
    cases first with
    | client update => cases watches
    | watch number fd block =>
      obtain ⟨added, applied, numbered⟩ := ih watches
      refine ⟨{ descriptorObject := .watch number, fd, events := pollIn, revents := 0
                queue := none, block } :: added, ?_, ?_⟩
      · intro table
        rw [applyAll_cons, QueuedUpdate.apply, Option.bind_some, applied, pollDoRegisterDescriptor,
          List.append_assoc, List.singleton_append]
      · intro entry mem
        rcases List.mem_cons.mp mem with rfl | mem
        · exact ⟨number, rfl⟩
        · exact numbered entry mem

end Queue

section Ready

/-- An entry without what `poll` has stored in it. -/
def PollEntry.request (entry : PollEntry Descriptor ServerBlock) : PollEntry Descriptor ServerBlock :=
  { entry with revents := 0 }

theorem ready_request (table : ServerTable) (revents : Nat → BitVec 16) :
    (ServerTable.ready table revents).map PollEntry.request = table.map PollEntry.request := by
  apply List.ext_getElem?
  intro i
  simp only [ServerTable.ready, List.getElem?_map, List.getElem?_mapIdx, Option.map_map]
  rfl

theorem lookup_request (table : ServerTable) (d : Descriptor) :
    KeyedList.lookup (·.descriptorObject) (table.map PollEntry.request) d =
      (KeyedList.lookup (·.descriptorObject) table d).map PollEntry.request := by
  rw [KeyedList.lookup, KeyedList.lookup, List.find?_map]
  rfl

/-- Entries that ask for the same may take each other's place. -/
theorem Maps.request {table other : ServerTable} {map : ServerMap} (maps : Maps table map)
    (same : other.map PollEntry.request = table.map PollEntry.request) :
    ∃ next, Maps other next ∧ ∀ d, (next d).map PollEntry.request = (map d).map PollEntry.request := by
  refine ⟨_, ⟨?_, rfl⟩, ?_⟩
  · have keys : ∀ list : ServerTable, list.map (·.descriptorObject) =
        (list.map PollEntry.request).map (·.descriptorObject) := by
      intro list
      rw [List.map_map]
      rfl
    rw [keys, same, ← keys]
    exact maps.keys
  · intro d
    rw [← lookup_request, same, lookup_request, maps.lookup]

theorem Consistent.request {world : World} {map next : ServerMap} (consistent : Consistent world map)
    (same : ∀ d, (next d).map PollEntry.request = (map d).map PollEntry.request) :
    Consistent world next where
  toSound := consistent.toSound
  client c here := by
    obtain ⟨entry, found, ⟨block, fd, interest⟩⟩ := consistent.client c here
    have its := same (world.descriptor c)
    rw [found, Option.map_some, Option.map_eq_some_iff] at its
    obtain ⟨other, found, its⟩ := its
    refine ⟨other, found, ?_, ?_, ?_⟩
    · exact (congrArg PollEntry.block its).trans block
    · exact (congrArg PollEntry.fd its).trans fd
    · have events : other.request.events = entry.request.events := congrArg PollEntry.events its
      refine Iff.trans ?_ interest
      exact not_congr (iff_of_eq (congrArg (fun events => events &&& pollOut = 0) events))
  only pd entry found := by
    have its := same (.client pd)
    rw [found, Option.map_some, eq_comm, Option.map_eq_some_iff] at its
    obtain ⟨other, found, _⟩ := its
    exact consistent.only pd other found
  watch number entry found := by
    have its := same (.watch number)
    rw [found, Option.map_some, eq_comm, Option.map_eq_some_iff] at its
    obtain ⟨other, found, its⟩ := its
    intro c block
    exact consistent.watch number other found c ((congrArg PollEntry.block its).trans block)

end Ready

section Entries
variable {world after : World} {map next : ServerMap} {table rest : ServerTable}
  {entry : PollEntry Descriptor ServerBlock} {c client : ClientRef}

/-- An entry of the table of the future is a watch or that of a connected client. -/
theorem Consistent.entry_cases (consistent : Consistent world map) (maps : Maps table map)
    (mem : entry ∈ table) :
    ((∃ number, entry.descriptorObject = .watch number) ∧ ∀ c, entry.block ≠ .client c) ∨
      ∃ c, world.Connected c ∧ entry.descriptorObject = world.descriptor c ∧ EntryOf world c entry := by
  have found := maps.mem.mp mem
  cases key : entry.descriptorObject with
  | watch number =>
    rw [key] at found
    exact .inl ⟨⟨number, rfl⟩, consistent.watch number entry found⟩
  | client pd =>
    rw [key] at found
    obtain ⟨c, connected, rfl⟩ := consistent.only pd entry found
    obtain ⟨its, known, entryOf⟩ := consistent.client c connected
    obtain rfl := Option.some.inj (known.symm.trans found)
    exact .inr ⟨c, connected, rfl, entryOf⟩

theorem Consistent.entryOf (consistent : Consistent world map) (maps : Maps table map)
    (mem : entry ∈ table) (block : entry.block = .client c) :
    world.Connected c ∧ entry.descriptorObject = world.descriptor c ∧ EntryOf world c entry := by
  rcases consistent.entry_cases maps mem with ⟨_, other⟩ | ⟨d, connected, key, its⟩
  · exact absurd block (other c)
  · obtain rfl := ServerBlock.client.inj (its.block.symm.trans block)
    exact ⟨connected, key, its⟩

theorem and_pollOut (events : BitVec 16) : events &&& pollOut ≠ 0 ↔ events.getLsbD 2 = true := by
  have single : pollOut = BitVec.twoPow 16 2 := rfl
  rw [single, BitVec.and_twoPow]
  cases events.getLsbD 2 with
  | false => exact iff_of_false (fun none => none rfl) Bool.false_ne_true
  | true => exact iff_of_true (by decide) rfl

/-- POLLOUT is none of the events that are reported unasked. -/
theorem reports_out {events revents : BitVec 16}
    (reports : revents &&& ~~~(events ||| pollErr ||| pollHup ||| pollNval) = 0)
    (out : revents &&& pollOut ≠ 0) : events &&& pollOut ≠ 0 := by
  rw [and_pollOut] at out ⊢
  have bit := congrArg (·.getLsbD 2) reports
  simpa [out, pollErr, pollHup, pollNval] using bit

/-- What was reported was asked for. -/
def Reported (table : ServerTable) : Prop :=
  ∀ entry ∈ table, entry.revents &&& pollOut ≠ 0 → AsksOut entry

/-- The entries that a pass has still to go over. -/
structure Serving (world : World) (entries : ServerTable) : Prop where
  connected : ∀ entry ∈ entries, ∀ c, entry.block = .client c → world.Connected c
  pending : ∀ entry ∈ entries, ∀ c, entry.block = .client c → entry.revents &&& pollOut ≠ 0 →
    0 < (world.client c).outBuffer.filled
  apart : entries.Pairwise fun first second => ∀ c, first.block = .client c → second.block ≠ .client c

/-- The pass starts with the table that was polled. -/
theorem Consistent.serving (consistent : Consistent world map) (maps : Maps table map)
    (reported : Reported table) : Serving world table where
  connected entry mem c block := (consistent.entryOf maps mem block).1
  pending entry mem c block out := (consistent.entryOf maps mem block).2.2.interest.mp (reported entry mem out)
  apart := by
    refine (List.pairwise_map.mp maps.keys).imp_of_mem ?_
    intro first second here there different c block other
    refine different ?_
    rw [(consistent.entryOf maps here block).2.1, (consistent.entryOf maps there other).2.1]

theorem Serving.tail (serving : Serving world (entry :: rest)) : Serving world rest where
  connected other mem := serving.connected other (List.mem_cons_of_mem _ mem)
  pending other mem := serving.pending other (List.mem_cons_of_mem _ mem)
  apart := (List.pairwise_cons.mp serving.apart).2

/-- A handler does not concern the entries after that of its client. -/
theorem Serving.passes (serving : Serving world (entry :: rest)) (passes : Passes client world after map next)
    (own : ∀ c, world.Connected c → c = client → entry.block = .client c) : Serving after rest := by
  have others : ∀ other ∈ rest, ∀ c, other.block = .client c → world.Connected c ∧ c ≠ client := by
    intro other mem c block
    have here := serving.connected other (List.mem_cons_of_mem _ mem) c block
    refine ⟨here, fun this => ?_⟩
    exact (List.pairwise_cons.mp serving.apart).1 other mem c (own c here this) block
  constructor
  · intro other mem c block
    obtain ⟨here, apart⟩ := others other mem c block
    exact (passes.others c apart here).1
  · intro other mem c block out
    obtain ⟨here, apart⟩ := others other mem c block
    exact (passes.others c apart here).2 (serving.tail.pending other mem c block out)
  · exact serving.tail.apart

end Entries
end KommunikationNetze.Chat
