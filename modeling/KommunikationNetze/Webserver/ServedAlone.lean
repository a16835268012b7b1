import KommunikationNetze.Webserver.Phases
import KommunikationNetze.Webserver.ResponseStream

/-! Whatever the other connections do, a connection is served as if it were alone. -/
namespace KommunikationNetze.Webserver
open CLib

/-- Its response was made of its request, and this is what some calls of `HTTPResponseSend`
leave of it, with the result of the last one. -/
def Sending [CMemory] (outside : Outside) (connection : Nat) (exchange : Exchange) (response : HTTPResponse)
    (returned : Bool) : Prop :=
  ∃ buffer first n, exchange.position = .dispatched buffer ∧
    httpProcessRequest outside.platform outside.pathMax (outside.files connection) (stringAt buffer.memory) =
      some [first] ∧
    sendTimes (outside.host connection) first n = some (returned, response, exchange.wire)

/-- What the calls for this connection do when there are no others. -/
structure Alone [CMemory] (outside : Outside) (connection : Nat) (exchange : Exchange) : Prop where
  read : readAll exchange.results = exchange.position
  idle : exchange.response = none → exchange.wire = { sent := [], calls := 0 }
  begun : ∀ response, exchange.response = some response →
    ∃ returned, Sending outside connection exchange response returned

/-- What the data of a connection is in a phase. -/
def Agrees [CMemory] (outside : Outside) (connection : Nat) (exchange : Exchange) : Phase → Prop
  | .reading => (∃ buffer, exchange.position = .called buffer) ∧ exchange.response = none
  | .parsed => (∃ buffer, exchange.position = .dispatched buffer) ∧ exchange.response = none
  | .sending => ∃ response, exchange.response = some response ∧ Sending outside connection exchange response false
  | .sent => ∃ response, exchange.response = some response ∧ Sending outside connection exchange response true

structure ServiceInv [CMemory] (outside : Outside) (s : Service) : Prop where
  server : Inv 0 s.state
  alone : ∀ connection, Alone outside connection (s.exchange connection)
  agrees : ∀ token ∈ s.state.phases, Agrees outside token.1 (s.exchange token.1) token.2
  new : ∀ connection, s.state.connections ≤ connection → s.exchange connection = newExchange

section Outcome
variable {s t : State}

theorem ReadOutcome.setThread (outcome : ReadOutcome connection s position t) (thread : PollThread) :
    ReadOutcome connection { s with thread } position { t with thread } := by
  cases outcome with
  | returned => exact .returned
  | dispatched buffer => exact .dispatched buffer
  | called buffer fd socket => exact .called buffer fd socket

theorem ReadOutcome.work (outcome : ReadOutcome connection s position t) (before : List Work) (now : Work)
    (after : List Work) :
    ReadOutcome connection (s.work before now after) position (t.work before now after) := by
  cases outcome with
  | returned => exact .returned
  | dispatched buffer => exact .dispatched buffer
  | called buffer fd socket => exact .called buffer fd socket

theorem ReadOutcome.connections (outcome : ReadOutcome connection s position t) :
    t.connections = s.connections := by
  cases outcome <;> rfl

/-- The read gives its token away, if it does not drop it. -/
theorem ReadOutcome.phases (outcome : ReadOutcome connection s position t) :
    ∀ token ∈ t.phases, token ∈ s.phases ∨
      (token = (connection, .reading) ∧ ∃ buffer, position = .called buffer) ∨
      (token = (connection, .parsed) ∧ ∃ buffer, position = .dispatched buffer) := by
  intro token mem
  cases outcome with
  | returned => exact .inl mem
  | dispatched buffer =>
    rw [mem_phases] at mem ⊢
    rcases mem with place | place | place | ⟨other, queued, its⟩ | place
    · exact .inl (.inl place)
    · exact .inl (.inr (.inl place))
    · exact .inl (.inr (.inr (.inl place)))
    · rcases List.mem_append.mp queued with old | new
      · exact .inl (.inr (.inr (.inr (.inl ⟨other, old, its⟩))))
      · obtain rfl := List.mem_singleton.mp new
        exact .inr (.inr ⟨its.symm, buffer, rfl⟩)
    · exact .inl (.inr (.inr (.inr (.inr place))))
  | called buffer fd socket =>
    rcases phases_register fd (.read connection) token mem with old | new
    · exact .inl old
    · exact .inr (.inl ⟨(Option.some.inj new).symm, buffer, rfl⟩)

end Outcome

section Steps
variable [CMemory] {outside : Outside} {s t : Service} {base next : State} {exchange : Exchange}

/-- The token of the connection is taken out, and this is the state without it. -/
structure Taken (s : State) (connection : Nat) (stage : Stage) (base : State) : Prop where
  held : Inv ((connection, stage) ::ₘ 0) base
  fewer : ∀ token ∈ base.phases, token ∈ s.phases
  connections : base.connections = s.connections

omit [CMemory] in
theorem Inv.takes {s : State} (inv : Inv 0 s) (running : s.running = before ++ work :: after)
    (token : work.token = some (connection, stage)) :
    Taken s connection stage (s.work before (.over connection) after) where
  held := inv.setWork running _ (by rw [token]; simp [Work.token])
  fewer token mem := by
    rcases phases_work running _ token mem with old | new
    · exact old
    · cases new
  connections := rfl

omit [CMemory] in
theorem Inv.takesCreating {s : State} (inv : Inv 0 s) (thread : s.thread = .creating connection i socksToHandle) :
    Taken s connection .read { s with thread := .created connection i socksToHandle } where
  held := by
    refine inv.move ⟨rfl, rfl, rfl, rfl, rfl⟩ inv.sound le_rfl (le_of_eq ?_) ?_
    · simp only [State.steps, thread, PollThread.token, Option.toList_none, Option.toList_some,
        Multiset.coe_nil, Multiset.coe_singleton, ← Multiset.singleton_add]
      abel
    · intro n at_ j entry above found
      obtain rfl : i + 1 = n := Option.some.inj at_
      exact inv.waiting (i + 1) (by rw [thread]; rfl) j entry above found
  fewer token mem := phases_poll mem (fun _ => id) rfl
  connections := rfl

/-- The data of one connection changes: it is in no other phase than the one it was given. -/
theorem ServiceInv.set (kept : ServiceInv outside s) (server : Inv 0 next)
    (taken : Taken s.state connection stage base) (known : connection < s.state.connections)
    (connections : next.connections = base.connections) (alone : Alone outside connection exchange)
    (tokens : ∀ token ∈ next.phases,
      token ∈ base.phases ∨ token.1 = connection ∧ Agrees outside connection exchange token.2) :
    ServiceInv outside (s.set next connection exchange) where
  server := server
  alone other := by
    by_cases same : other = connection
    · subst same
      rw [Service.set_self]
      exact alone
    · rw [Service.set_other _ _ _ same]
      exact kept.alone other
  agrees token mem := by
    rcases tokens token mem with old | ⟨own, agrees⟩
    · have different : token.1 ≠ connection := by
        intro same
        exact taken.held.no_phase token.2 (same ▸ old)
      rw [Service.set_other _ _ _ different]
      exact kept.agrees token (taken.fewer token old)
    · rw [own, Service.set_self]
      exact agrees
  new other beyond := by
    have later : s.state.connections ≤ other := by
      rw [← taken.connections, ← connections]
      exact beyond
    rw [Service.set_other _ _ _ (by omega)]
    exact kept.new other later

/-- A read that was alone so far goes on alone. -/
theorem Alone.reads (alone : Alone outside connection exchange) (idle : exchange.response = none)
    (read : ReadCall exchange.position results position) :
    Alone outside connection { exchange with results := exchange.results ++ results, position } where
  read := by
    rw [readAll, List.foldl_append]
    exact (congrArg (results.foldl readNext) alone.read).trans read.position.1
  idle := alone.idle
  begun response begun := by
    rw [show exchange.response = some response from begun] at idle
    cases idle

theorem ServiceInv.reads (kept : ServiceInv outside s) (server : Inv 0 next)
    (taken : Taken s.state connection .read base) (known : connection < s.state.connections)
    (mem : (connection, .reading) ∈ s.state.phases)
    (read : ReadCall (s.exchange connection).position results position)
    (outcome : ReadOutcome connection base position next) :
    ServiceInv outside (s.set next connection
      { s.exchange connection with results := (s.exchange connection).results ++ results, position }) := by
  have idle := (kept.agrees _ mem).2
  refine kept.set server taken known outcome.connections ((kept.alone connection).reads idle read) ?_
  intro token placed
  rcases outcome.phases token placed with old | ⟨rfl, again⟩ | ⟨rfl, parsed⟩
  · exact .inl old
  · exact .inr ⟨rfl, again, idle⟩
  · exact .inr ⟨rfl, parsed, idle⟩

omit [CMemory] in
theorem phase_running {s : State} (running : s.running = before ++ work :: after)
    (phase : work.phase = some token) : token ∈ s.phases := by
  refine mem_phases.mpr (.inr (.inr (.inr (.inr ⟨work, ?_, phase⟩))))
  rw [running]
  exact List.mem_append_right _ List.mem_cons_self

/-- The request of a connection is processed once. -/
theorem ServiceInv.processes (kept : ServiceInv outside s)
    (running : s.state.running = before ++ .processing connection :: after)
    (dispatched : (s.exchange connection).position = .dispatched buffer)
    (processed : httpProcessRequest outside.platform outside.pathMax (outside.files connection)
      (stringAt buffer.memory) = some [response]) (server : Inv 0 (s.state.work before (.sending connection) after)) :
    ServiceInv outside (s.set (s.state.work before (.sending connection) after) connection
      { s.exchange connection with response := some response }) := by
  have mem := phase_running running rfl
  have unsent := (kept.alone connection).idle (kept.agrees _ mem).2
  have sending : Sending outside connection { s.exchange connection with response := some response } response
      false :=
    ⟨buffer, response, 0, dispatched, processed, by rw [unsent]; rfl⟩
  refine kept.set server (kept.server.takes running rfl) (kept.server.phase_known mem) rfl ?_ ?_
  · refine ⟨(kept.alone connection).read, (fun none => by cases none), fun other begun => ?_⟩
    obtain rfl := Option.some.inj begun
    exact ⟨false, sending⟩
  · intro token placed
    rcases phases_work (s := s.state.work before (.over connection) after) rfl (.sending connection) token
      placed with old | new
    · exact .inl old
    · obtain rfl := Option.some.inj new
      exact .inr ⟨rfl, response, rfl, sending⟩

/-- One more call of `HTTPResponseSend`. -/
theorem Sending.more {response after : HTTPResponse}
    (sending : Sending outside connection exchange response returned)
    (sent : httpResponseSend (outside.host connection) response exchange.wire = some (again, after, wire)) :
    Sending outside connection { exchange with response := some after, wire } after again := by
  obtain ⟨buffer, first, n, position, processed, calls⟩ := sending
  refine ⟨buffer, first, n + 1, position, processed, ?_⟩
  rw [sendTimes, calls, Option.bind_some]
  exact sent

theorem Alone.sends (alone : Alone outside connection exchange) {after : HTTPResponse}
    (sending : Sending outside connection { exchange with response := some after, wire } after again) :
    Alone outside connection { exchange with response := some after, wire } where
  read := alone.read
  idle none := by cases none
  begun response begun := by
    obtain rfl := Option.some.inj begun
    exact ⟨again, sending⟩

theorem ServiceInv.sends (kept : ServiceInv outside s)
    (running : s.state.running = before ++ .sending connection :: after)
    (begun : (s.exchange connection).response = some response)
    (sent : httpResponseSend (outside.host connection) response (s.exchange connection).wire =
      some (again, last, wire))
    (server : Inv 0 next) (connections : next.connections = s.state.connections)
    (tokens : ∀ token ∈ next.phases, token ∈ (s.state.work before (.over connection) after).phases ∨
      token = (connection, if again then .sent else .sending)) :
    ServiceInv outside (s.set next connection { s.exchange connection with response := some last, wire }) := by
  have mem := phase_running running rfl
  obtain ⟨_, same, sending⟩ := kept.agrees _ mem
  obtain rfl := Option.some.inj (same.symm.trans begun)
  have after := sending.more sent
  refine kept.set server (kept.server.takes running rfl) (kept.server.phase_known mem) connections
    ((kept.alone connection).sends after) ?_
  intro token placed
  rcases tokens token placed with old | rfl
  · exact .inl old
  · refine .inr ⟨rfl, ?_⟩
    cases again <;> exact ⟨last, rfl, after⟩

theorem ServiceInv.step (kept : ServiceInv outside s) (step : ServiceStep outside s t) :
    ServiceInv outside t := by
  have server := kept.server.step step.step
  cases step with
  | elsewhere step quiet =>
    obtain ⟨more, phases⟩ := kept.server.phases_elsewhere step quiet
    refine { kept with
      server
      agrees := fun token mem => ?_
      new := fun c beyond => kept.new c (more.trans beyond) }
    rcases phases token mem with old | ⟨rfl, _⟩
    · exact kept.agrees token old
    · rw [kept.new _ le_rfl]
      exact ⟨⟨none, rfl⟩, rfl⟩
  | createRead thread read outcome =>
    rename_i connection i socksToHandle results position t
    have mem : (connection, Phase.reading) ∈ s.state.phases := mem_phases.mpr (.inr (.inl (by rw [thread]; rfl)))
    exact kept.reads server (kept.server.takesCreating thread) (kept.server.phase_known mem) mem read
      (outcome.setThread _)
  | readRequest running read outcome =>
    have mem := phase_running running rfl
    exact kept.reads server (kept.server.takes running rfl) (kept.server.phase_known mem) mem read
      (outcome.work _ _ _)
  | processFails running =>
    have taken := kept.server.takes running rfl
    exact { kept with server, agrees := fun token mem => kept.agrees token (taken.fewer token mem) }
  | processRequest running dispatched processed => exact kept.processes running dispatched processed server
  | sendIncomplete running socket begun sent =>
    refine kept.sends running begun sent server rfl fun token mem => ?_
    exact (phases_register _ (.send _) token mem).imp_right fun new => (Option.some.inj new).symm
  | sendComplete running socket begun sent =>
    rename_i before after connection fd response last wire
    refine kept.sends running begun sent server rfl fun token mem => ?_
    have placed : token ∈ (s.state.work before (.closing connection) after).phases := by
      refine phases_subset mem ?_ (.inr rfl) (List.Subset.refl _) (List.Subset.refl _) fun _ => .inl
      simp only [Poll.registrations_unregister]
      exact fun _ => id
    rcases phases_work (s := s.state.work before (.over connection) after) rfl (.closing connection) token
      placed with old | new
    · exact .inl old
    · exact .inr (Option.some.inj new).symm

theorem ServiceRun.kept (run : ServiceRun outside readEnd writeEnd s) : ServiceInv outside s := by
  obtain ⟨steps, run⟩ := run
  refine run.invariant (P := ServiceInv outside) ⟨inv_initial readEnd writeEnd, ?_, ?_, fun _ _ => rfl⟩ ?_
  · exact fun connection => ⟨rfl, fun _ => rfl, fun response begun => by cases begun⟩
  · intro token mem
    have none : (initial readEnd writeEnd).phases = 0 := rfl
    rw [show (serviceCreate readEnd writeEnd).state = initial readEnd writeEnd from rfl, none] at mem
    cases mem
  · exact fun kept step => kept.step step

/-- In any interleaving, what a connection has read and what it has sent is what the calls for it
alone make of the bytes that its own socket has delivered; and a step that is pending or running
finds the data of its connection as the step before it has left them. -/
theorem served_alone (run : ServiceRun outside readEnd writeEnd s) (connection : Nat) :
    Alone outside connection (s.exchange connection) ∧
      ∀ phase, (connection, phase) ∈ s.state.phases → Agrees outside connection (s.exchange connection) phase :=
  ⟨run.kept.alone connection, fun phase => run.kept.agrees (connection, phase)⟩

end Steps

section Accepted
variable [CMemory] {outside : Outside}

theorem ServiceRun.snoc {s t : Service} (run : ServiceRun outside readEnd writeEnd s)
    (step : ServiceStep outside s t) : ServiceRun outside readEnd writeEnd t := by
  obtain ⟨steps, run⟩ := run
  exact ⟨steps ++ [()], .snoc run step⟩

/-- A step while no worker runs and no connection is being created. -/
theorem ServiceRun.quiet {s : Service} {t : State} (run : ServiceRun outside readEnd writeEnd s)
    (step : Step s.state t) (idle : s.state.running = []) (created : ∀ c i n, s.state.thread ≠ .creating c i n) :
    ServiceRun outside readEnd writeEnd { s with state := t } := by
  refine run.snoc (.elsewhere step ⟨fun work runs => ?_, fun c i n creating => absurd creating (created c i n)⟩)
  rw [idle] at runs
  cases runs

/-- The first connection is accepted, and nothing was read from it. -/
theorem accepted_service (outside : Outside) : ∃ s : Service, ServiceRun outside 3 4 s ∧
    s.state.thread = .creating 0 1 0 ∧ s.state.running = [] ∧ s.state.processingQueue = [] ∧
    s.state.socket 0 = some 6 ∧ s.exchange 0 = newExchange := by
  have start : ServiceRun outside 3 4 (serviceCreate 3 4) := ⟨[], .start⟩
  have listening := start.quiet (.listen 5 rfl) rfl fun _ _ _ same => by cases same
  have first := listening.quiet (.applyUpdate _ _ (.inl rfl) rfl) rfl fun _ _ _ same => by cases same
  have second := first.quiet (.applyUpdate _ _ (.inl rfl) rfl) rfl fun _ _ _ same => by cases same
  have polling := second.quiet (.enterPoll rfl rfl) rfl fun _ _ _ same => by cases same
  have ready := polling.quiet (.leavePoll (fun entry => if entry.fd = 5 then some false else none) rfl) rfl
    fun _ _ _ same => by cases same
  have pass := ready.quiet (.startPass 1 rfl rfl) rfl fun _ _ _ same => by cases same
  have skipped := pass.quiet (.skipEntry 0 1 _ rfl rfl (by decide) rfl) rfl fun _ _ _ same => by cases same
  have notified := skipped.quiet (.notifyRepeat 1 0 _ false rfl rfl rfl rfl) rfl fun _ _ _ same => by cases same
  have accepting := notified.quiet (.listener 1 0 rfl) rfl fun _ _ _ same => by cases same
  have accepted := accepting.quiet (.accept 1 0 6 rfl rfl) rfl fun _ _ _ same => by cases same
  exact ⟨_, accepted, rfl, rfl, rfl, rfl, rfl⟩

end Accepted

/-- An empty document root, and sockets that take everything. -/
def emptyRoot : Outside where
  platform := .other
  pathMax := 4096
  files _ := { realpath := fun _ => none, lstat := fun _ => none, openReadOnly := fun _ => -1 }
  host _ :=
    { send := fun _ => some 4096, sendfile := fun _ => .again, contents := fun _ => [], statSize := fun _ => 0 }

/-- Nothing has arrived yet, and the socket is registered for reading. -/
theorem served_alone_again : ∃ s, @ServiceRun .zeroed emptyRoot 3 4 s ∧ (s.exchange 0).results = [.again] ∧
    ∃ buffer, (s.exchange 0).position = .called buffer := by
  let _ := CMemory.zeroed
  obtain ⟨s, run, thread, _, _, socket, new⟩ := accepted_service emptyRoot
  have read : ReadCall (s.exchange 0).position [.again]
      (.called (some (storeBytes (expandedBuffer allocatedBuffer) []))) := by
    rw [new]
    exact .last (by decide +kernel) fun buffer same => by cases same
  have waiting := run.snoc (.createRead thread read (.called _ 6 socket))
  refine ⟨_, waiting, ?_, ?_⟩
  · rw [Service.set_self, new]
    rfl
  · refine ((served_alone waiting 0).2 .reading (mem_phases.mpr (.inl ⟨6, .read 0, ?_, rfl⟩))).1
    exact (Poll.registrations_register s.state.poll 6 (.read 0)) ▸ Multiset.mem_cons_self _ _

end KommunikationNetze.Webserver
