import KommunikationNetze.Library.Transition
import KommunikationNetze.Webserver.Poll
import Mathlib.Logic.Function.Basic

/-! The life of the connections of the web server: the poll thread, the workers of the two
dispatch queues and the releases of connections, in any order. What a step reads from a
socket and what it answers is left open, so that every outcome of it is possible. -/
namespace KommunikationNetze.Webserver

/-- The blocks passed to `PollRegister`, the last two with the connection they capture. -/
inductive Block where
  | wakeUp
  | accept
  | read (connection : Nat)
  | send (connection : Nat)
  deriving DecidableEq, Repr

/-- Whether it is registered with `kPollRepeatFlag`, and then without a dispatch queue. -/
def Block.repeats : Block → Bool
  | .wakeUp | .accept => true
  | .read _ | .send _ => false

def Block.connection : Block → Option Nat
  | .wakeUp | .accept => none
  | .read connection | .send connection => some connection

/-- What an open descriptor is. -/
inductive Owner where
  | pipe
  | listener
  | connection (connection : Nat)
  deriving DecidableEq, Repr

/-- What a worker is doing with a connection: in `HTTPConnectionReadRequest`, in
`HTTPProcessRequest`, in `HTTPSendResponse`, between the two calls of
`HTTPConnectionClose`, or done with it and about to release its block. -/
inductive Work where
  | reading (connection : Nat)
  | processing (connection : Nat)
  | sending (connection : Nat)
  | closing (connection : Nat)
  | over (connection : Nat)
  deriving DecidableEq, Repr

def Work.connection : Work → Nat
  | .reading connection | .processing connection | .sending connection | .closing connection
  | .over connection => connection

/-- A dispatched block returns at once if POLLHUP is set. The other blocks are never
dispatched. -/
def Block.start : Block → Bool → Option Work
  | .read connection, false => some (.reading connection)
  | .send connection, false => some (.sending connection)
  | .read connection, true | .send connection, true => some (.over connection)
  | .wakeUp, _ | .accept, _ => none

/-- Where the poll thread is: in one of the two calls of `PollApplyUpdates`, in `poll`, in
the pass over the entries, about to call or dispatch the block of an entry, in the block
that accepts a connection, or in `HTTPConnectionCreate`. -/
inductive PollThread where
  | applyBefore
  | polling
  | applyAfter (socksToHandle : Option Nat)
  | pass (i socksToHandle : Nat)
  | notify (i socksToHandle : Nat) (block : Block) (hup : Bool)
  | accepting (i socksToHandle : Nat)
  | creating (connection i socksToHandle : Nat)
  | created (connection i socksToHandle : Nat)
  | returned
  deriving DecidableEq, Repr

def PollThread.connection : PollThread → Option Nat
  | .notify _ _ block _ => block.connection
  | .creating connection _ _ | .created connection _ _ => some connection
  | _ => none

/-- `socket` is the field of a connection, none for -1. -/
structure State where
  owner : Nat → Option Owner
  socket : Nat → Option Nat
  connections : Nat
  poll : Poll Block
  thread : PollThread
  ioQueue : List (Block × Bool)
  processingQueue : List Nat
  running : List Work
  /-- Connections between the two calls of `HTTPConnectionDealloc`. -/
  deallocating : List Nat
  /-- The connections `HTTPProcessRequest` was dispatched for. -/
  dispatched : List Nat

namespace State

/-- The connections that some block still refers to. -/
def references (s : State) : List Nat :=
  s.poll.updateQueue.filterMap (fun update => update.block.bind Block.connection) ++
    s.poll.polls.filterMap (fun entry => entry.block.connection) ++ s.thread.connection.toList ++
    s.ioQueue.filterMap (fun dispatched => dispatched.1.connection) ++ s.processingQueue ++
    s.running.map Work.connection

/-- `close` of the socket of a connection, which is -1 afterwards. -/
def close (s : State) (connection fd : Nat) : State :=
  { s with
    owner := Function.update s.owner fd none
    socket := Function.update s.socket connection none }

/-- A worker goes on with other work. -/
def work (s : State) (before : List Work) (now : Work) (after : List Work) : State :=
  { s with running := before ++ now :: after }

end State

/-- The outcomes of `HTTPConnectionReadRequest`: it fails, the request is complete, or the
socket is registered again. -/
inductive ReadRequest (connection : Nat) (s : State) : State → Prop where
  | failed : ReadRequest connection s s
  | complete : ReadRequest connection s
      { s with
        processingQueue := s.processingQueue ++ [connection]
        dispatched := s.dispatched ++ [connection] }
  | incomplete (fd : Nat) : s.socket connection = some fd →
      ReadRequest connection s { s with poll := pollRegister s.poll fd (.read connection) }

inductive Step (s : State) : State → Prop where
  -- the poll thread
  | applyUpdate (update : PollUpdate Block) (rest : List (PollUpdate Block)) :
      s.thread = .applyBefore ∨ (∃ result, s.thread = .applyAfter result) →
      s.poll.updateQueue = update :: rest →
      Step s { s with poll := pollApplyUpdate s.poll update rest }
  | enterPoll : s.thread = .applyBefore → s.poll.updateQueue = [] → Step s { s with thread := .polling }
  | leavePoll (revents : PollEntry Block → Option Bool) : s.thread = .polling →
      Step s { s with
        poll := s.poll.ready revents
        thread := .applyAfter (some (s.poll.ready revents).socksToHandle) }
  | pollFails : s.thread = .polling → Step s { s with thread := .applyAfter none }
  | startPass (socksToHandle : Nat) : s.thread = .applyAfter (some socksToHandle) →
      s.poll.updateQueue = [] → Step s { s with thread := .pass 0 socksToHandle }
  | threadReturns : s.thread = .applyAfter none → s.poll.updateQueue = [] →
      Step s { s with thread := .returned }
  | endPass (i socksToHandle : Nat) : s.thread = .pass i socksToHandle →
      ¬(i < s.poll.polls.length ∧ 0 < socksToHandle) → Step s { s with thread := .applyBefore }
  | skipEntry (i socksToHandle : Nat) (entry : PollEntry Block) : s.thread = .pass i socksToHandle →
      s.poll.polls[i]? = some entry → 0 < socksToHandle → entry.revents = none →
      Step s { s with thread := .pass (i + 1) socksToHandle }
  | notifyRepeat (i socksToHandle : Nat) (entry : PollEntry Block) (hup : Bool) :
      s.thread = .pass i (socksToHandle + 1) → s.poll.polls[i]? = some entry →
      entry.revents = some hup → entry.block.repeats = true →
      Step s { s with thread := .notify i socksToHandle entry.block hup }
  | notifyOnce (i socksToHandle : Nat) (entry : PollEntry Block) (hup : Bool) :
      s.thread = .pass i (socksToHandle + 1) → s.poll.polls[i]? = some entry →
      entry.revents = some hup → entry.block.repeats = false →
      Step s { s with
        poll := s.poll.fire i entry
        thread := .notify i socksToHandle entry.block hup }
  | dispatch (i socksToHandle : Nat) (block : Block) (hup : Bool) :
      s.thread = .notify i socksToHandle block hup → block.repeats = false →
      Step s { s with
        ioQueue := s.ioQueue ++ [(block, hup)]
        thread := .pass (i + 1) socksToHandle }
  | wakeUp (i socksToHandle : Nat) (hup : Bool) : s.thread = .notify i socksToHandle .wakeUp hup →
      Step s { s with thread := .pass (i + 1) socksToHandle }
  | listenerHup (i socksToHandle : Nat) : s.thread = .notify i socksToHandle .accept true →
      Step s { s with thread := .pass (i + 1) socksToHandle }
  | listener (i socksToHandle : Nat) : s.thread = .notify i socksToHandle .accept false →
      Step s { s with thread := .accepting i socksToHandle }
  -- a connection without a socket fails to read at once and is gone
  | acceptFails (i socksToHandle : Nat) : s.thread = .accepting i socksToHandle →
      Step s { s with thread := .pass (i + 1) socksToHandle }
  | accept (i socksToHandle fd : Nat) : s.thread = .accepting i socksToHandle → s.owner fd = none →
      Step s { s with
        owner := Function.update s.owner fd (some (.connection s.connections))
        socket := Function.update s.socket s.connections (some fd)
        connections := s.connections + 1
        thread := .creating s.connections i socksToHandle }
  | createRead (connection i socksToHandle : Nat) (t : State) :
      s.thread = .creating connection i socksToHandle → ReadRequest connection s t →
      Step s { t with thread := .created connection i socksToHandle }
  | releaseCreated (connection i socksToHandle : Nat) :
      s.thread = .created connection i socksToHandle →
      Step s { s with thread := .pass (i + 1) socksToHandle }
  -- the workers of the two dispatch queues
  | takeInput (block : Block) (hup : Bool) (rest : List (Block × Bool)) (work : Work) :
      s.ioQueue = (block, hup) :: rest → block.start hup = some work →
      Step s { s with ioQueue := rest, running := work :: s.running }
  | takeProcessing (connection : Nat) (rest : List Nat) : s.processingQueue = connection :: rest →
      Step s { s with processingQueue := rest, running := .processing connection :: s.running }
  | readRequest (connection : Nat) (before after : List Work) (t : State) :
      s.running = before ++ .reading connection :: after → ReadRequest connection s t →
      Step s (t.work before (.over connection) after)
  | processFails (connection : Nat) (before after : List Work) :
      s.running = before ++ .processing connection :: after →
      Step s (s.work before (.over connection) after)
  | processRequest (connection : Nat) (before after : List Work) :
      s.running = before ++ .processing connection :: after →
      Step s (s.work before (.sending connection) after)
  | sendIncomplete (connection fd : Nat) (before after : List Work) :
      s.running = before ++ .sending connection :: after → s.socket connection = some fd →
      Step s { s.work before (.over connection) after with
        poll := pollRegister s.poll fd (.send connection) }
  | sendComplete (connection fd : Nat) (before after : List Work) :
      s.running = before ++ .sending connection :: after → s.socket connection = some fd →
      Step s { s.work before (.closing connection) after with poll := pollUnregister s.poll fd }
  | closeSocket (connection fd : Nat) (before after : List Work) :
      s.running = before ++ .closing connection :: after → s.socket connection = some fd →
      Step s ((s.close connection fd).work before (.over connection) after)
  | releaseBlock (connection : Nat) (before after : List Work) :
      s.running = before ++ .over connection :: after →
      Step s { s with running := before ++ after }
  -- `HTTPConnectionDealloc`, once no block refers to the connection
  | dealloc (connection fd : Nat) : connection ∉ s.references → connection ∉ s.deallocating →
      s.socket connection = some fd →
      Step s { s with
        poll := pollUnregister s.poll fd
        deallocating := connection :: s.deallocating }
  | deallocClose (connection fd : Nat) (before after : List Nat) :
      s.deallocating = before ++ connection :: after → s.socket connection = some fd →
      Step s { s.close connection fd with deallocating := before ++ after }
  -- `CreateServer`, on the main thread
  | listen (fd : Nat) : s.owner fd = none →
      Step s { s with
        owner := Function.update s.owner fd (some .listener)
        poll := pollRegister s.poll fd .accept }

/-- After `PollCreate`, with the registration the poll thread starts with. -/
def initial (readEnd writeEnd : Nat) : State where
  owner fd := if fd = readEnd ∨ fd = writeEnd then some .pipe else none
  socket _ := none
  connections := 0
  poll := pollRegister { updateQueue := [], polls := [], stamps := 0, fired := [] } readEnd .wakeUp
  thread := .applyBefore
  ioQueue := []
  processingQueue := []
  running := []
  deallocating := []
  dispatched := []

/-- The state after some run from the start. -/
def ServerRun (readEnd writeEnd : Nat) (s : State) : Prop :=
  ∃ steps, Transition.Run (fun s (_ : Unit) t => Step s t) (initial readEnd writeEnd) steps s

end KommunikationNetze.Webserver
