import KommunikationNetze.Library.Interleaving

/-! The dispatch queue of both programs: the threads that call `Dispatch` and the workers.
Its queue is an atomic FIFO, and a block that runs calls `Dispatch` from another thread
number. The destruction of the queue is left out. -/
namespace KommunikationNetze.Utils
variable {B : Type}

/-- A block, with the number of the call of `Dispatch` that enqueued it. -/
abbrev Dispatched (B : Type) := Nat × B

/-- A worker calls a block and comes back from it. -/
inductive BlockCall (B : Type) where
  | began (worker : Nat) (block : Dispatched B)
  | returned (worker : Nat) (block : Dispatched B)
  deriving DecidableEq

def BlockCall.worker : BlockCall B → Nat
  | .began worker _ | .returned worker _ => worker

/-- The blocks that were enqueued, the blocks that were taken, with the worker, and the
calls of blocks are recorded and never read. -/
structure DispatchQueue (B : Type) where
  maxThreads : Nat
  queue : List (Dispatched B)
  semaphore : Nat
  dispatched : List (Dispatched B)
  taken : List (Nat × Dispatched B)
  calls : List (BlockCall B)

def kDispatchQueueSerial : BitVec 32 := 1#32 <<< 1

def dispatchQueueCreate (flags : BitVec 32) : DispatchQueue B :=
  { maxThreads := if flags &&& kDispatchQueueSerial ≠ 0 then 1 else 10
    queue := [], semaphore := 0, dispatched := [], taken := [], calls := [] }

/-- A call of `Dispatch` before it enqueues, before it posts and after that; a worker at
`sem_wait`, before and after `QueueDrain`, and in the block. -/
inductive DispatchThread (B : Type) where
  | idle
  | enqueued
  | over
  | waiting
  | claimed
  | obtained (block : Option (Dispatched B))
  | running (block : Dispatched B)
  deriving DecidableEq

inductive DispatchAction (B : Type) where
  | dispatch (block : B)
  | advance
  deriving DecidableEq

namespace DispatchQueue
variable (queue : DispatchQueue B)

/-- `QueueEnqueue` of a copy of the block. -/
def enqueue (i : Nat) (block : B) : DispatchQueue B :=
  { queue with queue := queue.queue ++ [(i, block)], dispatched := queue.dispatched ++ [(i, block)] }

def semPost : DispatchQueue B := { queue with semaphore := queue.semaphore + 1 }

def semWait : DispatchQueue B := { queue with semaphore := queue.semaphore - 1 }

/-- `QueueDrain`, which returns NULL from an empty queue. -/
def drain (i : Nat) : DispatchQueue B × Option (Dispatched B) :=
  match queue.queue with
  | [] => (queue, none)
  | block :: rest => ({ queue with queue := rest, taken := queue.taken ++ [(i, block)] }, some block)

def record (call : BlockCall B) : DispatchQueue B := { queue with calls := queue.calls ++ [call] }

end DispatchQueue

/-- The threads with a number below `maxThreads` are the workers. -/
inductive DispatchStep (i : Nat) :
    DispatchAction B → DispatchQueue B × DispatchThread B → DispatchQueue B × DispatchThread B → Prop where
  | enqueue : DispatchStep i (.dispatch block) (queue, .idle) (queue.enqueue i block, .enqueued)
  | post : DispatchStep i .advance (queue, .enqueued) (queue.semPost, .over)
  | wait (positive : 0 < queue.semaphore) :
      DispatchStep i .advance (queue, .waiting) (queue.semWait, .claimed)
  | drain : DispatchStep i .advance (queue, .claimed)
      ((queue.drain i).1, .obtained (queue.drain i).2)
  | skip : DispatchStep i .advance (queue, .obtained none) (queue, .waiting)
  | call : DispatchStep i .advance (queue, .obtained (some block))
      (queue.record (.began i block), .running block)
  | release : DispatchStep i .advance (queue, .running block)
      (queue.record (.returned i block), .waiting)

abbrev DispatchState (B : Type) := Interleaving.State (DispatchQueue B) (DispatchThread B)

/-- A queue with this number of workers, before anything was dispatched. -/
def dispatchStart (maxThreads : Nat) : DispatchState B :=
  { shared := { maxThreads, queue := [], semaphore := 0, dispatched := [], taken := [], calls := [] }
    thread := fun i => if i < maxThreads then .waiting else .idle }

def dispatchInitial (flags : BitVec 32) : DispatchState B :=
  { shared := dispatchQueueCreate flags
    thread := fun i =>
      if i < (dispatchQueueCreate (B := B) flags).maxThreads then .waiting else .idle }

def DispatchRun (flags : BitVec 32) (labels : List (Nat × DispatchAction B)) (s : DispatchState B) : Prop :=
  Transition.Run (Interleaving.Step DispatchStep) (dispatchInitial flags) labels s

end KommunikationNetze.Utils
