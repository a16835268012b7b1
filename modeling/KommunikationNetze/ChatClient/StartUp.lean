import KommunikationNetze.Chat.PollPass
import KommunikationNetze.Chat.PollThread
import KommunikationNetze.ChatClient.Client
import KommunikationNetze.Net.PollWakeup

/-! The start of the chat client. The main thread registers the three descriptors and stores
each of them when `PollRegister` has returned; the poll thread applies the registrations
and calls the blocks meanwhile. What is written to the pipe is left out. -/
namespace KommunikationNetze.ChatClient
open CLib
open Chat (PollDescriptor PollState PollTable pollIn pollOut pollErr pollHup pollNval pollRegister
  pollDescriptorAddEvent pollDescriptorRemoveEvent)
open Net (ApplyUpdates Revents)

/-- The pointers to the descriptors are NULL until they are stored. -/
structure StartingClient where
  guiInFD : Int
  guiOutFD : Int
  socket : Int
  keepRunning : Bool
  socketPollDescriptor : Option PollDescriptor
  guiInPollDescriptor : Option PollDescriptor
  guiOutPollDescriptor : Option PollDescriptor
  inBuffer : Relay
  outBuffer : Relay

/-- `ClientCreate` before the first registration. -/
def startingClient (socket guiInFD guiOutFD : Int) : StartingClient :=
  { guiInFD, guiOutFD, socket, keepRunning := true, socketPollDescriptor := none
    guiInPollDescriptor := none, guiOutPollDescriptor := none, inBuffer := .empty, outBuffer := .empty }

namespace StartingClient
variable (client : StartingClient)

def fd : ClientBlock → Int
  | .socket => client.socket
  | .guiIn => client.guiInFD
  | .guiOut => client.guiOutFD

def pollDescriptor : ClientBlock → Option PollDescriptor
  | .socket => client.socketPollDescriptor
  | .guiIn => client.guiInPollDescriptor
  | .guiOut => client.guiOutPollDescriptor

def assign (pd : PollDescriptor) : ClientBlock → StartingClient
  | .socket => { client with socketPollDescriptor := some pd }
  | .guiIn => { client with guiInPollDescriptor := some pd }
  | .guiOut => { client with guiOutPollDescriptor := some pd }

end StartingClient

/-- The main thread in `ClientCreate`: before a registration, before the descriptor it has
returned is stored, and behind the last one. -/
inductive CreateThread where
  | registering (block : ClientBlock)
  | assigning (block : ClientBlock) (pd : PollDescriptor)
  | created
  deriving DecidableEq

/-- What the main thread does when the descriptor of the block is stored. -/
def ClientBlock.next : ClientBlock → CreateThread
  | .socket => .registering .guiIn
  | .guiIn => .registering .guiOut
  | .guiOut => .created

/-- The events of the registration. -/
def ClientBlock.events : ClientBlock → BitVec 16
  | .socket | .guiIn => pollIn
  | .guiOut => 0

/-- What a block does with events. -/
inductive Handler where
  | quit
  | receive
  | send
  | guiRead
  | guiWrite
  | ignore
  deriving DecidableEq

def ClientBlock.handler (revents : BitVec 16) : ClientBlock → Handler
  | .socket =>
    if revents &&& pollHup ≠ 0 then .quit
    else if revents &&& pollIn ≠ 0 then .receive
    else if revents &&& pollOut ≠ 0 then .send
    else .ignore
  | .guiIn =>
    if revents &&& pollHup ≠ 0 then .quit else if revents &&& pollIn ≠ 0 then .guiRead else .ignore
  | .guiOut =>
    if revents &&& pollHup ≠ 0 then .quit else if revents &&& pollOut ≠ 0 then .guiWrite else .ignore

/-- The block of an entry; that of the pipe does nothing. -/
def handlerOf (revents : BitVec 16) (block : Option ClientBlock) : Handler :=
  block.elim .ignore (ClientBlock.handler revents)

/-- `PollDescriptorAddEvent` or `PollDescriptorRemoveEvent` of POLLOUT, for the descriptor that
is stored for a block. -/
structure EventCall where
  add : Bool
  block : ClientBlock
  deriving DecidableEq

def EventCall.request (call : EventCall) (pd : PollDescriptor) (poll : Chat.Poll (Option ClientBlock)) :
    Chat.Poll (Option ClientBlock) :=
  if call.add then pollDescriptorAddEvent poll pd pollOut else pollDescriptorRemoveEvent poll pd pollOut

/-- What the system call of a handler returns, if it makes one. -/
inductive SystemResult where
  | nothing
  | read (result : Option (List UInt8))
  | written (len : Int)
  deriving DecidableEq

/-- The poll thread. A handler makes its system call before it looks for the descriptor. -/
inductive HandlerThread where
  | starting
  | applying (call : ApplyUpdates)
  | polling
  | visiting (i : Nat)
  | handling (i : Nat) (handler : Handler)
  | calling (i : Nat) (call : EventCall)
  | returned
  deriving DecidableEq

def afterUpdates : ApplyUpdates → HandlerThread
  | .beforePoll => .polling
  | .afterPoll failed => if failed then .returned else .visiting 0

section Handle
variable [CMemory]

/-- `ClientReceive`, `ClientSend`, `ClientGUIRead` and `ClientGUIWrite` up to the call for
their descriptor. -/
def StartingClient.handle (client : StartingClient) :
    Handler → SystemResult → Option (StartingClient × Option EventCall)
  | .quit, .nothing => some ({ client with keepRunning := false }, none)
  | .ignore, .nothing => some (client, none)
  | .receive, .read result => (readInto client.inBuffer result).map fun
    | (inBuffer, false) => ({ client with inBuffer, keepRunning := false }, none)
    | (inBuffer, true) => ({ client with inBuffer }, some ⟨true, .guiOut⟩)
  | .guiRead, .read result => (readInto client.outBuffer result).map fun
    | (outBuffer, false) => ({ client with outBuffer, keepRunning := false }, none)
    | (outBuffer, true) => ({ client with outBuffer }, some ⟨true, .socket⟩)
  | .send, .written len => (writeFrom client.outBuffer len).map fun
    | (outBuffer, .nothing) => ({ client with outBuffer, keepRunning := false }, none)
    | (outBuffer, .everything) => ({ client with outBuffer }, some ⟨false, .socket⟩)
    | (outBuffer, .partly) => ({ client with outBuffer }, none)
  | .guiWrite, .written len => (writeFrom client.inBuffer len).map fun
    | (inBuffer, .nothing) => ({ client with inBuffer, keepRunning := false }, none)
    | (inBuffer, .everything) => ({ client with inBuffer }, some ⟨false, .guiOut⟩)
    | (inBuffer, .partly) => ({ client with inBuffer }, none)
  | _, _ => none

end Handle

structure StartUp where
  client : StartingClient
  poll : PollState (Option ClientBlock)
  main : CreateThread
  thread : HandlerThread

/-- The poll thread is started before the first registration. -/
def startUp (socket guiInFD guiOutFD : Int) : StartUp :=
  { client := startingClient socket guiInFD guiOutFD, poll := Chat.pollStateCreate
    main := .registering .socket, thread := .starting }

/-- The events asked for and those that are always reported. -/
def ReportsAsked (table : PollTable PollDescriptor (Option ClientBlock)) (revents : Nat → Revents) : Prop :=
  ∀ i entry, table[i]? = some entry →
    (revents i).val &&& ~~~(entry.events ||| pollErr ||| pollHup ||| pollNval) = 0

namespace StartUp
variable (s : StartUp)

def updating (poll : Chat.Poll (Option ClientBlock)) : StartUp := { s with poll := { s.poll with poll } }

def registers (fd : Int) (events : BitVec 16) (block : Option ClientBlock) : PollDescriptor × StartUp :=
  let (pd, poll) := pollRegister s.poll.poll fd events none block
  (pd, s.updating poll)

def moves (thread : HandlerThread) : StartUp := { s with thread }

end StartUp

inductive StartUpEvent where
  | create
  | advance
  | poll (revents : Option (Nat → Revents))
  | returned (result : SystemResult)

/-- There is no step behind a call for a descriptor that is NULL. -/
inductive StartUpStep [CMemory] (s : StartUp) : StartUpEvent → StartUp → Prop where
  | register (at_ : s.main = .registering block)
      (registered : s.registers (s.client.fd block) block.events (some block) = (pd, t)) :
      StartUpStep s .create { t with main := .assigning block pd }
  | assign (at_ : s.main = .assigning block pd) :
      StartUpStep s .create { s with client := s.client.assign pd block, main := block.next }
  | start (at_ : s.thread = .starting) (pipe : Int) :
      StartUpStep s .advance ((s.registers pipe pollIn none).2.moves (.applying .beforePoll))
  | apply (at_ : s.thread = .applying call) (waiting : s.poll.poll.updateQueue ≠ [])
      (done : s.poll.applyNext = some poll) : StartUpStep s .advance { s with poll }
  | drained (at_ : s.thread = .applying call) (empty : s.poll.poll.updateQueue = []) :
      StartUpStep s .advance (s.moves (afterUpdates call))
  | poll (at_ : s.thread = .polling) (reports : ReportsAsked s.poll.table revents) :
      StartUpStep s (.poll (some revents))
        { s with poll := s.poll.callPoll revents, thread := .applying (.afterPoll false) }
  | pollFailed (at_ : s.thread = .polling) :
      StartUpStep s (.poll none) (s.moves (.applying (.afterPoll true)))
  | visit (at_ : s.thread = .visiting i) (more : 0 < s.poll.socksToHandle)
      (found : s.poll.table[i]? = some entry) (done : s.poll.visit (fun _ => []) i = some poll) :
      StartUpStep s .advance
        { s with
          poll
          thread := if 0 < entry.revents.toInt then .handling i (handlerOf entry.revents entry.block)
            else .visiting (i + 1) }
  | again (at_ : s.thread = .visiting i) (done : s.poll.socksToHandle = 0 ∨ s.poll.table.length ≤ i) :
      StartUpStep s .advance (s.moves (.applying .beforePoll))
  | handle (at_ : s.thread = .handling i handler)
      (done : s.client.handle handler result = some (client, call)) :
      StartUpStep s (.returned result)
        { s with client, thread := call.elim (.visiting (i + 1)) (.calling i) }
  | call (at_ : s.thread = .calling i call) (assigned : s.client.pollDescriptor call.block = some pd) :
      StartUpStep s .advance
        ((s.updating (call.request pd s.poll.poll)).moves (.visiting (i + 1)))

end KommunikationNetze.ChatClient
