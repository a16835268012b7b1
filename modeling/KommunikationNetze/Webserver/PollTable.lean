import KommunikationNetze.Library.SlotArray

/-! The two arrays of the poll of the web server and how updates change them, with the
references it counts. Allocation succeeds and `numOfSlots` stays below 2^31, so that the
counters do not wrap. -/
namespace KommunikationNetze.Webserver
open SlotArray
variable {β κ : Type}

/-- `struct pollfd`. -/
structure PollFD where
  fd : Int
  events : BitVec 16
  revents : BitVec 16
  deriving DecidableEq

/-- `struct _PollInfo`, with none for NULL. -/
structure PollInfo (β κ : Type) where
  flags : BitVec 32
  queue : Option κ
  block : Option β
  deriving DecidableEq

def zeroPollFD : PollFD := { fd := 0, events := 0, revents := 0 }

def zeroPollInfo : PollInfo β κ := { flags := 0, queue := none, block := none }

/-- `struct _PollUpdate`. -/
structure TableUpdate (β κ : Type) where
  poll : PollFD
  pollInfo : PollInfo β κ
  deriving DecidableEq

/-- What `PollRegister` puts in its update. -/
def registerUpdate (fd : Int) (events : BitVec 16) (flags : BitVec 32) (queue : Option κ)
    (block : β) : TableUpdate β κ :=
  { poll := { fd, events, revents := 0 }, pollInfo := { flags, queue, block := some block } }

/-- What `PollUnregister` puts in its update. -/
def unregisterUpdate (fd : Int) : TableUpdate β κ :=
  { poll := { fd, events := 0, revents := 0 }, pollInfo := zeroPollInfo }

/-- The calls of `Retain` and `Release` on dispatch queues and of `Block_release` are
recorded and never read. -/
structure PollTable (β κ : Type) where
  updateQueue : List (TableUpdate β κ)
  polls : List PollFD
  pollInfos : List (PollInfo β κ)
  numOfPolls : Nat
  numOfSlots : Nat
  retained : List κ
  released : List κ
  releasedBlocks : List β

def tableCreate : PollTable β κ :=
  { updateQueue := [], polls := List.replicate 10 zeroPollFD
    pollInfos := List.replicate 10 zeroPollInfo, numOfPolls := 0, numOfSlots := 10
    retained := [], released := [], releasedBlocks := [] }

namespace PollTable

/-- `PollRegister`. -/
def register (table : PollTable β κ) (fd : Int) (events : BitVec 16) (flags : BitVec 32)
    (queue : Option κ) (block : β) : PollTable β κ :=
  { table with
    retained := table.retained ++ queue.toList
    updateQueue := table.updateQueue ++ [registerUpdate fd events flags queue block] }

/-- `PollUnregister`. -/
def unregister (table : PollTable β κ) (fd : Int) : PollTable β κ :=
  { table with updateQueue := table.updateQueue ++ [unregisterUpdate fd] }

/-- The search for the entry of a descriptor. -/
def indexOf (table : PollTable β κ) (fd : Int) : Option Nat :=
  (table.polls.take table.numOfPolls).findIdx? (·.fd = fd)

/-- The doubling of the arrays, if the index is behind them. -/
def expand (table : PollTable β κ) (foundIndex : Nat) : PollTable β κ :=
  if table.numOfSlots ≤ foundIndex then
    let oldNumOfSlots := table.numOfSlots
    let numOfSlots := oldNumOfSlots * 2
    { table with
      numOfSlots
      polls := SlotArray.expand zeroPollFD table.polls oldNumOfSlots numOfSlots
      pollInfos := SlotArray.expand zeroPollInfo table.pollInfos oldNumOfSlots numOfSlots }
  else table

def slotInfo (table : PollTable β κ) (i : Nat) : PollInfo β κ := table.pollInfos[i]?.getD zeroPollInfo

/-- The end of the first branch: what is in the slot is released, and overwritten. -/
def store (table : PollTable β κ) (foundIndex : Nat) (update : TableUpdate β κ) : PollTable β κ :=
  let old := table.slotInfo foundIndex
  { table with
    polls := table.polls.set foundIndex update.poll
    pollInfos := table.pollInfos.set foundIndex update.pollInfo
    releasedBlocks := table.releasedBlocks ++ old.block.toList
    released := table.released ++ old.queue.toList }

/-- Add or update. -/
def add (table : PollTable β κ) (update : TableUpdate β κ) : PollTable β κ :=
  match table.indexOf update.poll.fd with
  | some foundIndex => (table.expand foundIndex).store foundIndex update
  | none =>
    let foundIndex := table.numOfPolls
    (({ table with numOfPolls := table.numOfPolls + 1 }).expand foundIndex).store foundIndex update

/-- Remove. The queue of the slot is not released. -/
def remove (table : PollTable β κ) (fd : Int) : PollTable β κ :=
  match table.indexOf fd with
  | some i =>
    { table with
      releasedBlocks := table.releasedBlocks ++ (table.slotInfo i).block.toList
      polls := swapClear zeroPollFD table.polls table.numOfPolls i
      pollInfos := swapClear zeroPollInfo table.pollInfos table.numOfPolls i
      numOfPolls := table.numOfPolls - 1 }
  | none => table

/-- The body of the loop of `PollApplyUpdates`. -/
def applyUpdate (table : PollTable β κ) (update : TableUpdate β κ) : PollTable β κ :=
  match update.pollInfo.block with
  | some _ => table.add update
  | none => table.remove update.poll.fd

/-- One round of that loop, nothing if the queue is empty. -/
def applyNext (table : PollTable β κ) : PollTable β κ :=
  match table.updateQueue with
  | [] => table
  | update :: rest => ({ table with updateQueue := rest }).applyUpdate update

/-- `PollApplyUpdates`, while nobody else enqueues. -/
def applyUpdates (table : PollTable β κ) : PollTable β κ :=
  table.updateQueue.foldl applyUpdate { table with updateQueue := [] }

end PollTable

/-- A call on the poll, or one round of the loop of `PollApplyUpdates`. -/
inductive TableCall (β κ : Type)
  | register (fd : Int) (events : BitVec 16) (flags : BitVec 32) (queue : Option κ) (block : β)
  | unregister (fd : Int)
  | applyNext

namespace TableCall

def run (table : PollTable β κ) : TableCall β κ → PollTable β κ
  | register fd events flags queue block => table.register fd events flags queue block
  | unregister fd => table.unregister fd
  | applyNext => table.applyNext

/-- The update that the call enqueues. -/
def update : TableCall β κ → Option (TableUpdate β κ)
  | register fd events flags queue block => some (registerUpdate fd events flags queue block)
  | unregister fd => some (unregisterUpdate fd)
  | applyNext => none

end TableCall

/-- The table after calls in some order. -/
def tableAfter (calls : List (TableCall β κ)) : PollTable β κ := calls.foldl TableCall.run tableCreate

end KommunikationNetze.Webserver
