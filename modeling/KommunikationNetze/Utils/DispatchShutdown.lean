import KommunikationNetze.Utils.DispatchOnce
import KommunikationNetze.Library.KeyedList

/-! The destruction of a dispatch queue. Behind the blocks that were dispatched it enqueues one
exit block for each worker and joins the workers. Memory is released after that, which is
left out. -/
namespace KommunikationNetze.Utils
variable {B : Type}

/-- A block that was dispatched, or the exit block of this number. -/
inductive QueuedBlock (B : Type) where
  | block (block : Dispatched B)
  | exit (number : Nat)
  deriving DecidableEq

/-- The workers that have called `pthread_exit` are what `pthread_join` waits for. The blocks
that were enqueued, the blocks that were taken, with the worker, and the calls of blocks
are recorded and never read. -/
structure ShutdownQueue (B : Type) where
  numOfThreads : Nat
  queue : List (QueuedBlock B)
  semaphore : Nat
  finished : List Nat
  enqueued : List (QueuedBlock B)
  taken : List (Nat × QueuedBlock B)
  calls : List (BlockCall B)

/-- A worker as in `DispatchThread`, or ended by an exit block; the thread in
`_DisptachQueueDealloc`, in its two loops and behind them; any other thread. -/
inductive ShutdownThread (B : Type) where
  | waiting
  | claimed
  | obtained (block : Option (QueuedBlock B))
  | running (block : Dispatched B)
  | ended (number : Nat)
  | dispatching (n : Nat)
  | enqueued (n : Nat)
  | joining (n : Nat)
  | joined
  | outside
  deriving DecidableEq

namespace ShutdownQueue
variable (queue : ShutdownQueue B)

def enqueue (block : QueuedBlock B) : ShutdownQueue B :=
  { queue with queue := queue.queue ++ [block], enqueued := queue.enqueued ++ [block] }

def semPost : ShutdownQueue B := { queue with semaphore := queue.semaphore + 1 }

def semWait : ShutdownQueue B := { queue with semaphore := queue.semaphore - 1 }

/-- `QueueDrain`. -/
def drain (i : Nat) : ShutdownQueue B × Option (QueuedBlock B) :=
  match queue.queue with
  | [] => (queue, none)
  | block :: rest => ({ queue with queue := rest, taken := queue.taken ++ [(i, block)] }, some block)

def record (call : BlockCall B) : ShutdownQueue B := { queue with calls := queue.calls ++ [call] }

/-- `pthread_exit` of a worker. -/
def threadExit (i : Nat) : ShutdownQueue B := { queue with finished := queue.finished ++ [i] }

end ShutdownQueue

inductive ShutdownStep (i : Nat) :
    Unit → ShutdownQueue B × ShutdownThread B → ShutdownQueue B × ShutdownThread B → Prop where
  | enqueue (more : n < queue.numOfThreads) :
      ShutdownStep i () (queue, .dispatching n) (queue.enqueue (.exit n), .enqueued n)
  | post : ShutdownStep i () (queue, .enqueued n) (queue.semPost, .dispatching (n + 1))
  | dispatched (all : ¬n < queue.numOfThreads) :
      ShutdownStep i () (queue, .dispatching n) (queue, .joining 0)
  | join (more : n < queue.numOfThreads) (finished : n ∈ queue.finished) :
      ShutdownStep i () (queue, .joining n) (queue, .joining (n + 1))
  | joined (all : ¬n < queue.numOfThreads) : ShutdownStep i () (queue, .joining n) (queue, .joined)
  | wait (positive : 0 < queue.semaphore) : ShutdownStep i () (queue, .waiting) (queue.semWait, .claimed)
  | drain : ShutdownStep i () (queue, .claimed) ((queue.drain i).1, .obtained (queue.drain i).2)
  | skip : ShutdownStep i () (queue, .obtained none) (queue, .waiting)
  | call : ShutdownStep i () (queue, .obtained (some (.block block)))
      (queue.record (.began i block), .running block)
  | release : ShutdownStep i () (queue, .running block)
      (queue.record (.returned i block), .waiting)
  | exit : ShutdownStep i () (queue, .obtained (some (.exit number))) (queue.threadExit i, .ended number)

abbrev ShutdownState (B : Type) := Interleaving.State (ShutdownQueue B) (ShutdownThread B)

/-- Where a worker stands when the destruction starts. -/
def workerPosition : DispatchThread B → ShutdownThread B
  | .waiting => .waiting
  | .claimed => .claimed
  | .obtained block => .obtained (block.map .block)
  | .running block => .running block
  | _ => .outside

/-- The start of `_DisptachQueueDealloc` in the thread behind the workers. -/
def shutdownStart (s : DispatchState B) : ShutdownState B :=
  { shared :=
      { numOfThreads := s.shared.maxThreads, queue := s.shared.queue.map .block
        semaphore := s.shared.semaphore, finished := [], enqueued := s.shared.dispatched.map .block
        taken := s.shared.taken.map fun p => (p.1, .block p.2), calls := s.shared.calls }
    thread := fun i =>
      if i < s.shared.maxThreads then workerPosition (s.thread i)
      else if i = s.shared.maxThreads then .dispatching 0 else .outside }

end KommunikationNetze.Utils
