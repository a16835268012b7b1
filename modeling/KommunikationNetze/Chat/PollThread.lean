import KommunikationNetze.Chat.Server
import KommunikationNetze.Chat.PollTable

/-! The poll thread of the chat server. It applies updates and calls the blocks of ready
entries; the main thread registers listeners meanwhile. The pipe that wakes the thread up is
an entry like the others, what is written to it is left out. -/
namespace KommunikationNetze.Chat
open CLib Utils

abbrev pollErr : BitVec 16 := 0x0008#16
abbrev pollHup : BitVec 16 := 0x0010#16
abbrev pollNval : BitVec 16 := 0x0020#16

/-- Those of the pipe and of the listeners are numbered apart from those of clients. -/
inductive Descriptor where
  | watch (number : Nat)
  | client (pd : PollDescriptor)
  deriving DecidableEq

inductive ServerBlock where
  | wakeUp
  | listener (socket : Int)
  | client (c : ClientRef)
  deriving DecidableEq

abbrev ServerTable := PollTable Descriptor ServerBlock

/-- A block on the update queue: the registration of the pipe or of a listener, or what a
handler of a client has enqueued. -/
inductive QueuedUpdate where
  | watch (number : Nat) (fd : Int) (block : ServerBlock)
  | client (update : PollUpdate ClientRef)
  deriving DecidableEq

/-- The call of the block. -/
def QueuedUpdate.apply (table : ServerTable) : QueuedUpdate → Option ServerTable
  | .watch number fd block => some (pollDoRegisterDescriptor table (.watch number) fd pollIn none block)
  | .client (.register pd fd events queue c) =>
    some (pollDoRegisterDescriptor table (.client pd) fd events queue (.client c))
  | .client (.addEvents pd events) => pollDoAddEvents table (.client pd) events
  | .client (.removeEvents pd events) => pollDoRemoveEvents table (.client pd) events
  | .client (.removeDescriptor pd) => pollDoRemoveDescriptor table (.client pd)

/-- All updates of the queue in their order. -/
def applyAll (updates : List QueuedUpdate) (table : ServerTable) : Option ServerTable :=
  updates.foldlM QueuedUpdate.apply table

/-- The two calls of `PollApplyUpdates` in a round are told apart. -/
inductive PollPosition where
  | starting
  | applying (afterPoll : Bool)
  | polling
  | handling (i : Nat)
  | returned
  deriving DecidableEq

/-- The updates that were applied are recorded and never read. -/
structure PollThread where
  world : World
  updateQueue : List QueuedUpdate
  table : ServerTable
  position : PollPosition
  socksToHandle : Int
  watches : Nat
  applied : List QueuedUpdate

def pollThreadCreate : PollThread :=
  { world := serverCreate, updateQueue := [], table := [], position := .starting, socksToHandle := 0
    watches := 0, applied := [] }

/-- What `poll` stores in the entries. -/
def ServerTable.ready (table : ServerTable) (revents : Nat → BitVec 16) : ServerTable :=
  table.mapIdx fun i entry => { entry with revents := revents i }

/-- The events asked for and those that are always reported. -/
def Reports (table : ServerTable) (revents : Nat → BitVec 16) : Prop :=
  ∀ i entry, table[i]? = some entry →
    revents i &&& ~~~(entry.events ||| pollErr ||| pollHup ||| pollNval) = 0

/-- The block of an entry, called with these events, calls a handler or none. What the system
calls return is open. -/
inductive Calls (revents : BitVec 16) : ServerBlock → Option Event → Prop where
  | wakeUp : Calls revents .wakeUp none
  | listenerHungUp (hup : revents &&& pollHup ≠ 0) : Calls revents (.listener fd) none
  | accepted (hup : revents &&& pollHup = 0) (readable : revents &&& pollIn ≠ 0) :
      Calls revents (.listener fd) (some (.accepted socket))
  | listenerIdle (hup : revents &&& pollHup = 0) (readable : revents &&& pollIn = 0) :
      Calls revents (.listener fd) none
  | hungUp (hup : revents &&& pollHup ≠ 0) : Calls revents (.client c) (some (.hungUp c))
  | readable (hup : revents &&& pollHup = 0) (readable : revents &&& pollIn ≠ 0) :
      Calls revents (.client c) (some (.readable c result))
  | writable (hup : revents &&& pollHup = 0) (readable : revents &&& pollIn = 0)
      (writable : revents &&& pollOut ≠ 0) : Calls revents (.client c) (some (.writable c len))
  | clientIdle (hup : revents &&& pollHup = 0) (readable : revents &&& pollIn = 0)
      (writable : revents &&& pollOut = 0) : Calls revents (.client c) none

section Calls
variable [CMemory]

/-- A system call transfers at most what it was offered. -/
def Offered (world : World) : Event → Prop
  | .accepted _ | .hungUp _ => True
  | .readable client result =>
    (result.getD []).length ≤ offered (makeRoom (world.client client).inBuffer)
  | .writable client len => len ≤ (world.client client).outBuffer.filled

end Calls

/-- The clients that `ClientWriteLine` was called for. -/
def writeTargets (calls : List Call) : List ClientRef :=
  calls.filterMap fun
    | .writeLine c _ _ => some c
    | _ => none

/-- The `realloc` of `ClientWriteLine` has returned a block: it was not asked for 0 bytes. -/
def Allocated (world after : World) : Prop :=
  ∀ c ∈ (writeTargets after.calls).drop (writeTargets world.calls).length,
    (after.client c).outBuffer.length ≠ 0

namespace PollThread
variable (s : PollThread)

def register (fd : Int) (block : ServerBlock) : PollThread :=
  { s with updateQueue := s.updateQueue ++ [.watch s.watches fd block], watches := s.watches + 1 }

def moves (position : PollPosition) : PollThread := { s with position }

/-- The handler is called, and the updates it has enqueued follow those in the queue. -/
def handle [CMemory] (event : Event) : PollThread :=
  let world := handleEvent s.world event
  { s with
    world
    updateQueue := s.updateQueue ++
      (world.poll.updateQueue.drop s.world.poll.updateQueue.length).map .client }

/-- The entry at the index counts as handled. -/
def counts (i : Nat) : PollThread :=
  { s with position := .handling (i + 1), socksToHandle := s.socksToHandle - 1 }

end PollThread

inductive PollLabel where
  | listen (socket : Int)
  | advance
  | call (event : Event)
  deriving DecidableEq

section Step
variable [CMemory]

inductive PollStep (s : PollThread) : PollLabel → PollThread → Prop where
  | listen : PollStep s (.listen socket) (s.register socket (.listener socket))
  | start (at_ : s.position = .starting) (pipe : Int) :
      PollStep s .advance ((s.register pipe .wakeUp).moves (.applying false))
  | apply (at_ : s.position = .applying afterPoll) (waiting : s.updateQueue = update :: rest)
      (applied : update.apply s.table = some table) :
      PollStep s .advance
        { s with updateQueue := rest, table, applied := s.applied ++ [update] }
  | enter (at_ : s.position = .applying false) (empty : s.updateQueue = []) :
      PollStep s .advance (s.moves .polling)
  | poll (at_ : s.position = .polling) (reports : Reports s.table revents) :
      PollStep s .advance
        { s with
          table := ServerTable.ready s.table revents, position := .applying true
          socksToHandle := (ServerTable.ready s.table revents).countP (·.revents ≠ 0) }
  | pollFailed (at_ : s.position = .polling) :
      PollStep s .advance { s with position := .applying true, socksToHandle := -1 }
  | stop (at_ : s.position = .applying true) (empty : s.updateQueue = [])
      (failed : s.socksToHandle < 0) : PollStep s .advance (s.moves .returned)
  | pass (at_ : s.position = .applying true) (empty : s.updateQueue = [])
      (succeeded : 0 ≤ s.socksToHandle) : PollStep s .advance (s.moves (.handling 0))
  | skip (at_ : s.position = .handling i) (more : 0 < s.socksToHandle)
      (found : s.table[i]? = some entry) (idle : entry.revents.toInt ≤ 0) :
      PollStep s .advance (s.moves (.handling (i + 1)))
  | ignore (at_ : s.position = .handling i) (more : 0 < s.socksToHandle)
      (found : s.table[i]? = some entry) (ready : 0 < entry.revents.toInt)
      (direct : entry.queue = none) (calls : Calls entry.revents entry.block none) :
      PollStep s .advance (s.counts i)
  | call (at_ : s.position = .handling i) (more : 0 < s.socksToHandle)
      (found : s.table[i]? = some entry) (ready : 0 < entry.revents.toInt)
      (direct : entry.queue = none) (calls : Calls entry.revents entry.block (some event))
      (offered : Offered s.world event) (allocated : Allocated s.world (handleEvent s.world event)) :
      PollStep s (.call event) ((s.counts i).handle event)
  | again (at_ : s.position = .handling i)
      (done : s.socksToHandle ≤ 0 ∨ s.table.length ≤ i) :
      PollStep s .advance (s.moves (.applying false))

/-- Any run of the server from its start. -/
abbrev PollRun : List PollLabel → PollThread → Prop := Transition.Run PollStep pollThreadCreate

end Step
end KommunikationNetze.Chat
