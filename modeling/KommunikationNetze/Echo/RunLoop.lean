import KommunikationNetze.Echo.EchoServer
import KommunikationNetze.Library.Transition
import Mathlib.Logic.Function.Basic

/-! The run loop of the echo server and the table of its clients. What the system calls of a
step return comes with the step. The memory of the server is zeroed, as no function sets
its slots to NULL; that of a new client is what `malloc` left there. -/
namespace KommunikationNetze.Echo

def kMaxClients : Nat := 10

/-- Of the pointer to the server it matters if it is NULL. -/
structure Client where
  server : Bool
  socket : Nat
  stream : EchoClient

/-- The clients are pointers into the memory, where a client is until it is freed. -/
structure Server where
  socket : Nat
  running : Bool
  clients : List (Option Nat)
  memory : Nat → Option Client

def openAndBindServerSocket (socket : Nat) : Server :=
  { socket, running := true, clients := List.replicate kMaxClients none, memory := fun _ => none }

/-- The calls of `malloc`, `accept` and `setBlocking` for a new client. -/
structure AcceptCall where
  pointer : Nat
  left : Client
  accept : Option Nat
  setBlocking : Bool

namespace Server
variable (server : Server)

def stop : Server := { server with running := false }

/-- The first slot with this pointer. -/
def slotOf (slot : Option Nat) : Option Nat := server.clients.findIdx? (· = slot)

/-- It cannot do without the server of the client. -/
def closeClient (pointer : Nat) : Option Server := do
  let client ← server.memory pointer
  if client.server then
    let clients := match server.slotOf (some pointer) with
      | some i => server.clients.set i none
      | none => server.clients
    some { server with clients, memory := Function.update server.memory pointer none }
  else none

def acceptNewClient (call : AcceptCall) : Option (Server × Bool) :=
  match call.accept with
  | none => some (server, false)
  | some socket =>
    if call.setBlocking then
      let client := { call.left with socket }
      match server.slotOf none with
      | some i =>
        some ({ server with
          clients := server.clients.set i (some call.pointer)
          memory := Function.update server.memory call.pointer (some { client with server := true }) }, true)
      | none =>
        let full := { server with memory := Function.update server.memory call.pointer (some client) }
        if client.server then some (full, true)
        else (full.closeClient call.pointer).map (·, false)
    else some (server, false)

end Server

/-- What `poll` reports of a descriptor, and what the system calls return that follow from
that: those of a new client, or those of the client in a slot. -/
structure Ready where
  pollIn : Bool
  pollHup : Bool
  call : AcceptCall
  events : Nat → EchoEvent

/-- What is left of a pass: the bodies of its loops, and the calls of `CloseClient` in them. -/
inductive Task where
  | accept (call : AcceptCall)
  | read (fd j : Nat) (event : EchoEvent)
  | hangUp (fd j : Nat)
  | close (pointer : Nat)
  | stop

namespace Server
variable (server : Server)

/-- The descriptors of a pass, gathered before `poll`. -/
def descriptors : List Nat :=
  server.socket :: server.clients.filterMap fun slot => do
    let client ← server.memory (← slot)
    some client.socket

def tasksOf (fd : Nat) (ready : Ready) : List Task :=
  (if ready.pollIn then
    if fd = server.socket then [.accept ready.call]
    else (List.range kMaxClients).map fun j => .read fd j (ready.events j)
  else []) ++
  (if ready.pollHup then
    if fd = server.socket then [.stop] else (List.range kMaxClients).map fun j => .hangUp fd j
  else [])

def tasks (ready : List Ready) : List Task :=
  (server.descriptors.zip ready).flatMap fun (fd, ready) => server.tasksOf fd ready

/-- The client in a slot, if there is one with this socket. A pointer that was freed must not
be there. -/
def clientAt (fd j : Nat) : Option (Option (Nat × Client)) :=
  match server.clients[j]? with
  | some (some pointer) => do
    let client ← server.memory pointer
    some (if client.socket = fd then some (pointer, client) else none)
  | _ => some none

/-- The server after a task, and the call of `CloseClient` that follows from it. -/
def runTask [CLib.CMemory] : Task → Option (Server × List Task)
  | .accept call => do
    let (server, accepted) ← server.acceptNewClient call
    some (if accepted then server else server.stop, [])
  | .read fd j event => do
    match ← server.clientAt fd j with
    | some (pointer, client) =>
      let (stream, more) := processClient client.stream event
      let server := { server with
        memory := Function.update server.memory pointer (some { client with stream }) }
      some (server, if more then [] else [.close pointer])
    | none => some (server, [])
  | .hangUp fd j => do
    match ← server.clientAt fd j with
    | some (pointer, _) => some (server, [.close pointer])
    | none => some (server, [])
  | .close pointer => do
    let server ← server.closeClient pointer
    some (server, [])
  | .stop => some (server.stop, [])

end Server

/-- `malloc` returns memory that is not in use. -/
def Task.Allocates (server : Server) : Task → Prop
  | .accept call => server.memory call.pointer = none
  | _ => True

abbrev RunLoopState := Server × List Task

/-- `poll` returns what is ready or fails; a task is run. -/
inductive RunLoopEvent where
  | poll (ready : Option (List Ready))
  | task

/-- The loop of `main` around `runloop`, which returns when the server is stopped. -/
inductive RunLoopStep [CLib.CMemory] : RunLoopState → RunLoopEvent → RunLoopState → Prop where
  | poll (running : server.running = true) :
      RunLoopStep (server, []) (.poll (some ready)) (server, server.tasks ready)
  | pollFailed (running : server.running = true) :
      RunLoopStep (server, []) (.poll none) (server.stop, [])
  | task {next : Server} (allocates : task.Allocates server)
      (done : server.runTask task = some (next, more)) :
      RunLoopStep (server, task :: rest) .task (next, if next.running then more ++ rest else [])

end KommunikationNetze.Echo
