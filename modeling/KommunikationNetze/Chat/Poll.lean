import Mathlib.Data.List.Basic

/-! What the rest of the chat server sees of the poll: descriptors are made at once,
every change of the table is enqueued for the poll thread. -/
namespace KommunikationNetze.Chat

/-- A pointer to a `PollDescriptor`. -/
abbrev PollDescriptor := Nat

abbrev pollIn : BitVec 16 := 0x0001#16
abbrev pollOut : BitVec 16 := 0x0004#16

/-- The blocks on the update queue, with what they captured. -/
inductive PollUpdate (Block : Type) where
  | register (pd : PollDescriptor) (fd : Int) (events : BitVec 16) (queue : Option Nat) (block : Block)
  | addEvents (pd : PollDescriptor) (events : BitVec 16)
  | removeEvents (pd : PollDescriptor) (events : BitVec 16)
  | removeDescriptor (pd : PollDescriptor)
  deriving DecidableEq

structure Poll (Block : Type) where
  /-- How many descriptors were created so far. -/
  descriptors : Nat
  updateQueue : List (PollUpdate Block)

variable {Block : Type}

def pollCreate : Poll Block := { descriptors := 0, updateQueue := [] }

def pollEnqueueUpdate (poll : Poll Block) (update : PollUpdate Block) : Poll Block :=
  { poll with updateQueue := poll.updateQueue ++ [update] }

def pollDescriptorCreate (poll : Poll Block) : PollDescriptor × Poll Block :=
  (poll.descriptors, { poll with descriptors := poll.descriptors + 1 })

def pollRegister (poll : Poll Block) (fd : Int) (events : BitVec 16) (queue : Option Nat)
    (block : Block) : PollDescriptor × Poll Block :=
  let (pd, poll) := pollDescriptorCreate poll
  (pd, pollEnqueueUpdate poll (.register pd fd events queue block))

def pollDescriptorAddEvent (poll : Poll Block) (pd : PollDescriptor) (event : BitVec 16) : Poll Block :=
  pollEnqueueUpdate poll (.addEvents pd event)

def pollDescriptorRemoveEvent (poll : Poll Block) (pd : PollDescriptor) (event : BitVec 16) : Poll Block :=
  pollEnqueueUpdate poll (.removeEvents pd event)

def pollDescritptorRemove (poll : Poll Block) (pd : PollDescriptor) : Poll Block :=
  pollEnqueueUpdate poll (.removeDescriptor pd)

end KommunikationNetze.Chat
