import KommunikationNetze.Echo.RunLoop
import KommunikationNetze.Library.Slots

/-! The table of the clients of the echo server. Every client that was accepted has one slot,
until a connection is accepted for which there is none. -/
namespace KommunikationNetze.Echo
open CLib

def Task.closes : Task → Bool
  | .close _ => true
  | _ => false

/-- The clients in memory are those of the slots. -/
structure Table (server : Server) : Prop where
  distinct : Slots.Distinct server.clients
  slots : ∀ p, some p ∈ server.clients ↔ (server.memory p).isSome = true
  owned : ∀ p client, server.memory p = some client → client.server = true

/-- A client that is about to be closed has a slot, and only the next task closes one. -/
structure TableState (s : RunLoopState) : Prop where
  table : Table s.1
  closing : ∀ p rest, s.2 = .close p :: rest → some p ∈ s.1.clients
  later : ∀ task ∈ s.2.tail, task.closes = false

/-- The system calls for a new client succeed. -/
structure Connects (server : Server) (call : AcceptCall) : Prop where
  allocates : server.memory call.pointer = none
  accepts : call.accept.isSome = true
  sets : call.setBlocking = true

/-- A connection that is accepted next finds an empty slot. -/
def HasRoom (s : RunLoopState) : Prop :=
  ∀ call rest, s.2 = .accept call :: rest → Connects s.1 call → none ∈ s.1.clients

section Server
variable {server : Server} {p : Nat} {client : Client}

theorem Table.fresh (table : Table server) (allocates : server.memory p = none) :
    some p ∉ server.clients := by
  rw [table.slots, allocates]
  exact Bool.false_ne_true

theorem owned_update {memory : Nat → Option Client} {value : Option Client}
    (owned : ∀ p client, memory p = some client → client.server = true)
    (new : ∀ client, value = some client → client.server = true) :
    ∀ q client, Function.update memory p value q = some client → client.server = true := by
  intro q client held
  by_cases same : q = p
  · rw [same, Function.update_self] at held
    exact new client held
  · rw [Function.update_of_ne same] at held
    exact owned q client held

/-- `CloseClient` empties the slot of the client, and no other. -/
theorem closeClient_spec (table : Table server) (mem : some p ∈ server.clients) :
    ∃ i, server.clients[i]? = some (some p) ∧
      server.closeClient p = some { server with
        clients := server.clients.set i none, memory := Function.update server.memory p none } := by
  obtain ⟨i, found⟩ := Slots.findIdx?_of_mem mem
  obtain ⟨client, held⟩ := Option.isSome_iff_exists.mp ((table.slots p).mp mem)
  refine ⟨i, Slots.findIdx?_spec found, ?_⟩
  simp only [Server.closeClient, Server.slotOf, held, found, Option.bind_eq_bind, Option.bind_some,
    table.owned p client held, if_true]

theorem Table.clear (table : Table server) (held : server.clients[i]? = some (some p)) :
    Table { server with
      clients := server.clients.set i none, memory := Function.update server.memory p none } := by
  have inside := (List.getElem?_eq_some_iff.mp held).1
  refine ⟨table.distinct.clear inside, ?_, ?_⟩
  · intro q
    rw [Slots.mem_clear table.distinct held, table.slots]
    by_cases same : q = p
    · simp [same]
    · simp [same]
  · apply owned_update table.owned
    intro client held
    cases held

/-- A new client goes to an empty slot. -/
theorem Table.fill (table : Table server) (empty : server.clients[i]? = some none)
    (allocates : server.memory p = none) (owned : client.server = true) :
    Table { server with
      clients := server.clients.set i (some p)
      memory := Function.update server.memory p (some client) } := by
  have inside := (List.getElem?_eq_some_iff.mp empty).1
  refine ⟨table.distinct.fill inside (table.fresh allocates), ?_, ?_⟩
  · intro q
    rw [Slots.mem_fill empty, table.slots]
    by_cases same : q = p
    · simp [same]
    · simp [same]
  · apply owned_update table.owned
    intro other held
    exact Option.some.inj held ▸ owned

/-- A client keeps its slot while it is served. -/
theorem Table.serve (table : Table server) (held : server.memory p = some client) (stream : EchoClient) :
    Table { server with memory := Function.update server.memory p (some { client with stream }) } := by
  refine ⟨table.distinct, ?_, ?_⟩
  · intro q
    rw [table.slots]
    by_cases same : q = p
    · simp [same, held]
    · simp [same]
  · apply owned_update table.owned
    intro other served
    obtain rfl := Option.some.inj served
    exact table.owned p client held

theorem Table.stop (table : Table server) : Table server.stop :=
  ⟨table.distinct, table.slots, table.owned⟩

/-- Each slot can be looked at, and a client that is found has this slot. -/
theorem clientAt_spec (table : Table server) (fd j : Nat) :
    ∃ found, server.clientAt fd j = some found ∧
      ∀ p client, found = some (p, client) →
        server.memory p = some client ∧ some p ∈ server.clients := by
  rw [Server.clientAt]
  cases slot : server.clients[j]? with
  | none => exact ⟨none, rfl, fun p client same => by cases same⟩
  | some slot' =>
    cases slot' with
    | none => exact ⟨none, rfl, fun p client same => by cases same⟩
    | some q =>
      have mem := List.mem_of_getElem? slot
      obtain ⟨owner, held⟩ := Option.isSome_iff_exists.mp ((table.slots q).mp mem)
      simp only [held, Option.bind_eq_bind, Option.bind_some]
      refine ⟨_, rfl, fun p client same => ?_⟩
      split at same
      · cases same
        exact ⟨held, mem⟩
      · cases same

/-- With a slot for every connection that is accepted, `acceptNewClient` returns. -/
theorem acceptNewClient_spec (table : Table server) {call : AcceptCall}
    (allocates : server.memory call.pointer = none)
    (room : Connects server call → none ∈ server.clients) :
    ∃ next more, server.acceptNewClient call = some (next, more) ∧ Table next := by
  rw [Server.acceptNewClient]
  cases accepts : call.accept with
  | none => exact ⟨_, _, rfl, table⟩
  | some socket =>
    cases sets : call.setBlocking with
    | false => exact ⟨_, _, rfl, table⟩
    | true =>
      obtain ⟨i, found⟩ := Slots.findIdx?_of_mem (room ⟨allocates, by rw [accepts]; rfl, sets⟩)
      simp only [if_true, Server.slotOf, found]
      exact ⟨_, _, rfl, table.fill (Slots.findIdx?_spec found) allocates rfl⟩

end Server

section Step
variable [CMemory] {s t : RunLoopState}

/-- What a task may leave to do: to close a client that has a slot. -/
def Follows (server : Server) (tasks : List Task) : Prop :=
  tasks = [] ∨ ∃ p, tasks = [.close p] ∧ some p ∈ server.clients

theorem runTask_spec {server : Server} (table : Table server) {task : Task}
    (allocates : task.Allocates server)
    (room : ∀ call, task = .accept call → Connects server call → none ∈ server.clients)
    (closing : ∀ p, task = .close p → some p ∈ server.clients) :
    ∃ next more, server.runTask task = some (next, more) ∧ Table next ∧ Follows next more := by
  cases task with
  | accept call =>
    obtain ⟨next, accepted, returned, table⟩ := acceptNewClient_spec table allocates (room call rfl)
    refine ⟨if accepted then next else next.stop, [], ?_, ?_, .inl rfl⟩
    · simp only [Server.runTask, returned, Option.bind_eq_bind, Option.bind_some]
    · cases accepted with
      | false => exact table.stop
      | true => exact table
  | read fd j event =>
    obtain ⟨found, looked, inSlot⟩ := clientAt_spec table fd j
    cases found with
    | none =>
      refine ⟨server, [], ?_, table, .inl rfl⟩
      simp only [Server.runTask, looked, Option.bind_eq_bind, Option.bind_some]
    | some entry =>
      obtain ⟨p, client⟩ := entry
      obtain ⟨held, mem⟩ := inSlot p client rfl
      refine ⟨_, if (processClient client.stream event).2 then [] else [.close p], ?_,
        table.serve held (processClient client.stream event).1, ?_⟩
      · simp only [Server.runTask, looked, Option.bind_eq_bind, Option.bind_some]
      · split
        · exact .inl rfl
        · exact .inr ⟨p, rfl, mem⟩
  | hangUp fd j =>
    obtain ⟨found, looked, inSlot⟩ := clientAt_spec table fd j
    cases found with
    | none =>
      refine ⟨server, [], ?_, table, .inl rfl⟩
      simp only [Server.runTask, looked, Option.bind_eq_bind, Option.bind_some]
    | some entry =>
      obtain ⟨p, client⟩ := entry
      refine ⟨server, [.close p], ?_, table, .inr ⟨p, rfl, (inSlot p client rfl).2⟩⟩
      simp only [Server.runTask, looked, Option.bind_eq_bind, Option.bind_some]
  | close p =>
    obtain ⟨i, held, closed⟩ := closeClient_spec table (closing p rfl)
    refine ⟨_, [], ?_, table.clear held, .inl rfl⟩
    simp only [Server.runTask, closed, Option.bind_eq_bind, Option.bind_some]
  | stop => exact ⟨server.stop, [], rfl, table.stop, .inl rfl⟩

omit [CMemory] in
/-- What a pass has to do is not yet to close a client. -/
theorem tasks_open (server : Server) (ready : List Ready) :
    ∀ task ∈ server.tasks ready, task.closes = false := by
  intro task mem
  obtain ⟨⟨fd, reported⟩, _, mem⟩ := List.mem_flatMap.mp mem
  rcases List.mem_append.mp mem with input | hangUp
  · split at input
    · split at input
      · obtain rfl := List.mem_singleton.mp input
        rfl
      · obtain ⟨j, _, rfl⟩ := List.mem_map.mp input
        rfl
    · cases input
  · split at hangUp
    · split at hangUp
      · obtain rfl := List.mem_singleton.mp hangUp
        rfl
      · obtain ⟨j, _, rfl⟩ := List.mem_map.mp hangUp
        rfl
    · cases hangUp

omit [CMemory] in
theorem TableState.open {server : Server} {tasks : List Task} (table : Table server)
    (open_ : ∀ task ∈ tasks, task.closes = false) : TableState (server, tasks) := by
  refine ⟨table, fun p rest same => ?_, fun task mem => open_ task (List.mem_of_mem_tail mem)⟩
  obtain rfl : tasks = .close p :: rest := same
  cases open_ _ List.mem_cons_self

theorem TableState.step (state : TableState s) (room : HasRoom s) (stepped : RunLoopStep s event t) :
    TableState t := by
  cases stepped with
  | poll => exact .open state.table (tasks_open _ _)
  | pollFailed => exact .open state.table.stop fun task mem => absurd mem List.not_mem_nil
  | task allocates done =>
    rename_i more server task rest next
    obtain ⟨next', more', result, table, follows⟩ := runTask_spec state.table allocates
      (fun call same => room call rest (by rw [same])) fun p same => state.closing p rest (by rw [same])
    rw [done] at result
    cases result
    split
    · rcases follows with rfl | ⟨p, rfl, mem⟩
      · exact .open table state.later
      · refine ⟨table, fun q rest same => ?_, state.later⟩
        cases same
        exact mem
    · exact .open table fun task mem => absurd mem List.not_mem_nil

/-- What is asked of a state: every client has one slot, `CloseClient` empties exactly that, a
connection for which there is no slot is refused and changes nothing, and the server goes on. -/
structure SlotsKept (s : RunLoopState) : Prop where
  occupied : ∀ p client, s.1.memory p = some client → ∃! i : Nat, s.1.clients[i]? = some (some p)
  closes : ∀ p rest, s.2 = .close p :: rest → ∃ i : Nat, s.1.clients[i]? = some (some p) ∧
    s.1.closeClient p = some { s.1 with
      clients := s.1.clients.set i none, memory := Function.update s.1.memory p none }
  refuses : ∀ call rest, s.2 = .accept call :: rest → Connects s.1 call → none ∉ s.1.clients →
    ∃ next, s.1.runTask (.accept call) = some (next, []) ∧ next.clients = s.1.clients ∧
      next.memory = s.1.memory ∧ next.running = s.1.running
  goesOn : ∀ task rest, s.2 = task :: rest → task.Allocates s.1 → (s.1.runTask task).isSome = true

theorem TableState.kept (state : TableState s) (room : HasRoom s) : SlotsKept s := by
  refine ⟨?_, ?_, ?_, ?_⟩
  · intro p client held
    exact state.table.distinct.existsUnique ((state.table.slots p).mpr (by rw [held]; rfl))
  · intro p rest same
    exact closeClient_spec state.table (state.closing p rest same)
  · intro call rest same connects full
    exact absurd (room call rest same connects) full
  · intro task rest same allocates
    obtain ⟨next, more, result, _⟩ := runTask_spec state.table allocates
      (fun call other => room call rest (same.trans (by rw [other])))
      fun p other => state.closing p rest (same.trans (by rw [other]))
    rw [result]
    rfl

/-- A step that is not to accept a connection without a slot for it. -/
def RoomyStep (s : RunLoopState) (event : RunLoopEvent) (t : RunLoopState) : Prop :=
  HasRoom s ∧ RunLoopStep s event t

end Step

section Connections
variable [CMemory] {server : Server}

/-- A connection is waiting, and its client gets this memory. -/
def connection (pointer : Nat) : Ready :=
  { pollIn := true, pollHup := false, events := fun _ => { recvs := [], send := none }
    call :=
      { pointer, left := { server := false, socket := 0, stream := Echo.acceptNewClient .null }
        accept := some (pointer + 4), setBlocking := true } }

omit [CMemory] in
theorem tasks_connection (server : Server) (pointer : Nat) :
    server.tasks [connection pointer] = [.accept (connection pointer).call] := by
  simp [Server.tasks, Server.descriptors, Server.tasksOf, connection]

/-- The server with the client of a connection in a slot. -/
def placed (server : Server) (i pointer : Nat) : Server :=
  { server with
    clients := server.clients.set i (some pointer)
    memory := Function.update server.memory pointer
      (some { server := true, socket := pointer + 4, stream := Echo.acceptNewClient .null }) }

theorem connect {pointer : Nat}
    (run : Transition.Run RoomyStep (openAndBindServerSocket 3, []) events (server, []))
    (running : server.running = true) (found : server.slotOf none = some i)
    (allocates : server.memory pointer = none) :
    ∃ events, Transition.Run RoomyStep (openAndBindServerSocket 3, []) events
      (placed server i pointer, []) := by
  have idle : HasRoom (server, []) := fun call rest same => by cases same
  have polled : RunLoopStep (server, []) (.poll (some [connection pointer]))
      (server, [.accept (connection pointer).call]) := tasks_connection server pointer ▸ .poll running
  have room : HasRoom (server, [.accept (connection pointer).call]) :=
    fun _ _ _ _ => List.mem_of_getElem? (Slots.findIdx?_spec found)
  have done : server.runTask (.accept (connection pointer).call) =
      some (placed server i pointer, []) := by
    simp [Server.runTask, Server.acceptNewClient, connection, found, placed]
  have accepted : RunLoopStep (server, [.accept (connection pointer).call]) .task
      (placed server i pointer, if (placed server i pointer).running then [] ++ [] else []) :=
    .task allocates done
  rw [List.append_nil, ite_self] at accepted
  exact ⟨_, .snoc (run.snoc ⟨idle, polled⟩) ⟨room, accepted⟩⟩

/-- So many connections, one after another. -/
theorem connections (few : count ≤ kMaxClients) : ∃ events server,
    Transition.Run RoomyStep (openAndBindServerSocket 3, []) events (server, []) ∧
      server.running = true ∧ (∀ p, count ≤ p → server.memory p = none) ∧
      server.clients = (List.range count).map some ++ List.replicate (kMaxClients - count) none := by
  induction count with
  | zero => exact ⟨[], _, .start, rfl, fun _ _ => rfl, rfl⟩
  | succ count ih =>
    obtain ⟨events, server, run, running, free, clients⟩ := ih (Nat.le_of_succ_le few)
    have more : kMaxClients - count = kMaxClients - (count + 1) + 1 := by omega
    rw [more, List.replicate_succ] at clients
    have found : server.slotOf none = some count := by
      rw [Server.slotOf, clients, List.findIdx?_append, Slots.findIdx?_of_not_mem (by simp)]
      simp [List.findIdx?_cons]
    obtain ⟨events, run⟩ := connect run running found (free count (Nat.le_refl _))
    refine ⟨events, _, run, running, ?_, ?_⟩
    · intro p behind
      have other : p ≠ count := by omega
      exact (Function.update_of_ne other _ _).trans (free p (by omega))
    · simp [placed, clients, List.range_succ]

end Connections

end KommunikationNetze.Echo
