import KommunikationNetze.Webserver.ConnectionProtocol
import KommunikationNetze.Webserver.ProcessRequest
import KommunikationNetze.Webserver.ReadRequest

/-! The server with the data of its connections. What was left open in the steps of a connection
is decided here: a read ends as the bytes that `recv` has delivered decide it, a request is
answered as `HTTPProcessRequest` does, and a response is done when `HTTPResponseSend` says so. -/
namespace KommunikationNetze.Webserver
open CLib

/-- The fields of a connection that its own functions use, with its response. What `recv` has
returned is recorded and never read. -/
structure Exchange where
  results : List RecvResult
  position : ReadPosition
  response : Option HTTPResponse
  wire : Wire

/-- A connection that was just accepted. -/
def newExchange : Exchange :=
  { results := [], position := .called none, response := none, wire := { sent := [], calls := 0 } }

/-- The calls of `recv` in one call of `HTTPConnectionReadRequest`: one more after each that
filled its space. -/
inductive ReadCall [CMemory] : ReadPosition → List RecvResult → ReadPosition → Prop where
  | last (next : readNext position result = after) (through : ∀ buffer, after ≠ .looping buffer) :
      ReadCall position [result] after
  | more (next : readNext position result = .looping buffer) (rest : ReadCall (.looping buffer) results after) :
      ReadCall position (result :: results) after

/-- What the call leads to: the connection is done with, its request is processed, or its socket
is registered again. -/
inductive ReadOutcome (connection : Nat) (s : State) : ReadPosition → State → Prop where
  | returned : ReadOutcome connection s .returned s
  | dispatched (buffer : Buffer) : ReadOutcome connection s (.dispatched buffer)
      { s with
        processingQueue := s.processingQueue ++ [connection]
        dispatched := s.dispatched ++ [connection] }
  | called (buffer : Option Buffer) (fd : Nat) (socket : s.socket connection = some fd) :
      ReadOutcome connection s (.called buffer) { s with poll := pollRegister s.poll fd (.read connection) }

theorem ReadOutcome.readRequest (outcome : ReadOutcome connection s position t) : ReadRequest connection s t := by
  cases outcome with
  | returned => exact .failed
  | dispatched => exact .complete
  | called buffer fd socket => exact .incomplete fd socket

/-- A worker is in one of the three functions that use the data of a connection. -/
def Work.calls : Work → Bool
  | .reading _ | .processing _ | .sending _ => true
  | .closing _ | .over _ => false

/-- None of these functions returns. -/
structure Elsewhere (s t : State) : Prop where
  running : ∀ work ∈ s.running, work.calls = true → work ∈ t.running
  creating : ∀ connection i socksToHandle, s.thread = .creating connection i socksToHandle →
    t.thread = .creating connection i socksToHandle

structure Service where
  state : State
  exchange : Nat → Exchange

def Service.set (s : Service) (state : State) (connection : Nat) (exchange : Exchange) : Service :=
  { state, exchange := Function.update s.exchange connection exchange }

theorem Service.set_self (s : Service) (state : State) (connection : Nat) (exchange : Exchange) :
    (s.set state connection exchange).exchange connection = exchange := Function.update_self ..

theorem Service.set_other (s : Service) (state : State) (exchange : Exchange) (different : other ≠ connection) :
    (s.set state connection exchange).exchange other = s.exchange other := Function.update_of_ne different ..

/-- What the connections meet outside: the files when their requests are processed, and how their
sockets and files behave. -/
structure Outside where
  platform : Platform
  pathMax : Nat
  files : Nat → FileSystem
  host : Nat → Host

/-- The steps, with what happens to the data. -/
inductive ServiceStep [CMemory] (outside : Outside) (s : Service) : Service → Prop where
  | elsewhere (step : Step s.state t) (quiet : Elsewhere s.state t) :
      ServiceStep outside s { s with state := t }
  | createRead (thread : s.state.thread = .creating connection i socksToHandle)
      (read : ReadCall (s.exchange connection).position results position)
      (outcome : ReadOutcome connection s.state position t) :
      ServiceStep outside s (s.set { t with thread := .created connection i socksToHandle } connection
        { s.exchange connection with results := (s.exchange connection).results ++ results, position })
  | readRequest (running : s.state.running = before ++ .reading connection :: after)
      (read : ReadCall (s.exchange connection).position results position)
      (outcome : ReadOutcome connection s.state position t) :
      ServiceStep outside s (s.set (t.work before (.over connection) after) connection
        { s.exchange connection with results := (s.exchange connection).results ++ results, position })
  | processFails (running : s.state.running = before ++ .processing connection :: after) :
      ServiceStep outside s { s with state := s.state.work before (.over connection) after }
  -- there is no step behind a path that overruns its buffer
  | processRequest (running : s.state.running = before ++ .processing connection :: after)
      (dispatched : (s.exchange connection).position = .dispatched buffer)
      (processed : httpProcessRequest outside.platform outside.pathMax (outside.files connection)
        (stringAt buffer.memory) = some [response]) :
      ServiceStep outside s (s.set (s.state.work before (.sending connection) after) connection
        { s.exchange connection with response := some response })
  | sendIncomplete (running : s.state.running = before ++ .sending connection :: after)
      (socket : s.state.socket connection = some fd) (begun : (s.exchange connection).response = some response)
      (sent : httpResponseSend (outside.host connection) response (s.exchange connection).wire =
        some (false, next, wire)) :
      ServiceStep outside s (s.set
        { s.state.work before (.over connection) after with
          poll := pollRegister s.state.poll fd (.send connection) } connection
        { s.exchange connection with response := some next, wire })
  | sendComplete (running : s.state.running = before ++ .sending connection :: after)
      (socket : s.state.socket connection = some fd) (begun : (s.exchange connection).response = some response)
      (sent : httpResponseSend (outside.host connection) response (s.exchange connection).wire =
        some (true, next, wire)) :
      ServiceStep outside s (s.set
        { s.state.work before (.closing connection) after with poll := pollUnregister s.state.poll fd }
        connection { s.exchange connection with response := some next, wire })

def serviceCreate (readEnd writeEnd : Nat) : Service :=
  { state := initial readEnd writeEnd, exchange := fun _ => newExchange }

/-- Any interleaving of any number of connections. -/
def ServiceRun [CMemory] (outside : Outside) (readEnd writeEnd : Nat) (s : Service) : Prop :=
  ∃ steps, Transition.Run (fun s (_ : Unit) t => ServiceStep outside s t) (serviceCreate readEnd writeEnd) steps s

section Step
variable [CMemory] {outside : Outside} {s t : Service}

/-- The data decides between steps that there are without it. -/
theorem ServiceStep.step (step : ServiceStep outside s t) : Step s.state t.state := by
  cases step with
  | elsewhere step _ => exact step
  | createRead thread _ outcome => exact .createRead _ _ _ _ thread outcome.readRequest
  | readRequest running _ outcome => exact .readRequest _ _ _ _ running outcome.readRequest
  | processFails running => exact .processFails _ _ _ running
  | processRequest running _ _ => exact .processRequest _ _ _ running
  | sendIncomplete running socket _ _ => exact .sendIncomplete _ _ _ _ running socket
  | sendComplete running socket _ _ => exact .sendComplete _ _ _ _ running socket

theorem ServiceRun.server (run : ServiceRun outside readEnd writeEnd s) :
    ServerRun readEnd writeEnd s.state := by
  obtain ⟨steps, run⟩ := run
  refine run.invariant (P := fun s => ServerRun readEnd writeEnd s.state) ⟨[], .start⟩ ?_
  exact fun server step => server.step step.step

theorem ReadCall.position {position after : ReadPosition} (read : ReadCall position results after) :
    results.foldl readNext position = after ∧ ∀ buffer, after ≠ .looping buffer := by
  induction read with
  | last next through => exact ⟨next, through⟩
  | more next _ ih =>
    rw [List.foldl_cons, next]
    exact ih

end Step
end KommunikationNetze.Webserver
