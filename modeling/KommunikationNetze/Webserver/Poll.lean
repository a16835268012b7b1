import KommunikationNetze.Library.SwapRemove

/-! The poll of the web server. The arrays `polls` and `pollInfos` are one list of pairs,
as long as `numOfPolls`; the pipe that only wakes the poll thread up is left out. Updates
are numbered in the order in which they are enqueued, and an entry remembers whether
its block was called; the source has neither. -/
namespace KommunikationNetze.Webserver
open SwapRemove

/-- A block that is NULL asks for the removal of the descriptor. -/
structure PollUpdate (β : Type) where
  fd : Nat
  block : Option β
  stamp : Nat

/-- `revents` is none if it is 0, and otherwise tells whether POLLHUP is set. -/
structure PollEntry (β : Type) where
  fd : Nat
  block : β
  revents : Option Bool
  stamp : Nat
  fired : Bool

structure Poll (β : Type) where
  updateQueue : List (PollUpdate β)
  polls : List (PollEntry β)
  stamps : Nat
  /-- The one-shot registrations whose block was called. -/
  fired : List Nat

namespace Poll
variable {β : Type}

def enqueue (poll : Poll β) (fd : Nat) (block : Option β) : Poll β :=
  { poll with
    updateQueue := poll.updateQueue ++ [{ fd, block, stamp := poll.stamps }]
    stamps := poll.stamps + 1 }

end Poll

variable {β : Type}

def pollRegister (poll : Poll β) (fd : Nat) (block : β) : Poll β := poll.enqueue fd (some block)

def pollUnregister (poll : Poll β) (fd : Nat) : Poll β := poll.enqueue fd none

/-- The first entry of the descriptor is overwritten, and a new one goes to the end. -/
def addOrUpdate (polls : List (PollEntry β)) (entry : PollEntry β) : List (PollEntry β) :=
  match polls.findIdx? (·.fd = entry.fd) with
  | some foundIndex => polls.set foundIndex entry
  | none => polls ++ [entry]

def removeEntry (polls : List (PollEntry β)) (fd : Nat) : List (PollEntry β) :=
  match polls.findIdx? (·.fd = fd) with
  | some i => swapRemove polls i
  | none => polls

/-- The body of the loop of `PollApplyUpdates`. -/
def applyUpdate (polls : List (PollEntry β)) (update : PollUpdate β) : List (PollEntry β) :=
  match update.block with
  | some block =>
      addOrUpdate polls
        { fd := update.fd, block, revents := none, stamp := update.stamp, fired := false }
  | none => removeEntry polls update.fd

/-- One round of that loop, for the update that `QueueDrain` returns. -/
def pollApplyUpdate (poll : Poll β) (update : PollUpdate β) (rest : List (PollUpdate β)) : Poll β :=
  { poll with updateQueue := rest, polls := applyUpdate poll.polls update }

namespace Poll

/-- What `poll` stores in the entries. -/
def ready (poll : Poll β) (revents : PollEntry β → Option Bool) : Poll β :=
  { poll with polls := poll.polls.map fun entry => { entry with revents := revents entry } }

/-- How many entries are ready. -/
def socksToHandle (poll : Poll β) : Nat := poll.polls.countP (·.revents.isSome)

/-- The removal of a one-shot entry, which the pass enqueues before the block is called. -/
def fire (poll : Poll β) (i : Nat) (entry : PollEntry β) : Poll β :=
  { pollUnregister poll entry.fd with
    polls := poll.polls.set i { entry with fired := true }
    fired := poll.fired ++ [entry.stamp] }

end Poll
end KommunikationNetze.Webserver
