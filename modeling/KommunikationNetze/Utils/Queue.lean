import KommunikationNetze.Library.Interleaving

/-! The queue of both programs. A step of a call is one read, write or compare-and-swap of
shared memory, together with the tests of local variables that follow it. An address is
handed out once, and `free` only marks the node. -/
namespace KommunikationNetze.Utils
variable {V : Type}

/-- The address of a `struct _QueueElement`. -/
abbrev NodeRef := Nat

/-- `element` is none for NULL, and `freed` is set by `free`. -/
structure QueueElement (V : Type) where
  element : Option V
  next : Option NodeRef
  dequeued : Bool
  freed : Bool
  deriving DecidableEq

/-- `allocated` nodes were handed out so far. The calls that have linked a node and those
that have swapped `head`, with the value, are recorded and never read. -/
structure Queue (V : Type) where
  memory : NodeRef → QueueElement V
  allocated : NodeRef
  head : NodeRef
  tail : NodeRef
  linked : List (Nat × Option V)
  swapped : List (Nat × Option V)

/-- Where a call is, with the local variables it still reads. -/
inductive QueueCall (V : Type) where
  | idle
  | enqueueReadTail (node : NodeRef)
  | enqueueReadNext (node tail : NodeRef)
  | enqueueCompare (node tail : NodeRef) (next : Option NodeRef)
  | enqueueLink (node tail : NodeRef)
  | enqueueHelp (node tail next : NodeRef)
  | enqueueSwing (node tail : NodeRef)
  | enqueued
  | drainReadHead
  | drainReadTail (head : NodeRef)
  | drainReadNext (head tail : NodeRef)
  | drainCompare (head tail : NodeRef) (next : Option NodeRef)
  | drainHelp (tail next : NodeRef)
  | drainReadElement (head next : NodeRef)
  | drainSwap (head next : NodeRef) (element : Option V)
  | drainAssert (head next : NodeRef) (element : Option V)
  | drainMark (head next : NodeRef) (element : Option V)
  | drainFree (head : NodeRef) (element : Option V)
  | drained (result : Option V)
  | aborted
  deriving DecidableEq

/-- The dummy node of an empty queue, zeroed by `memset`. -/
def zeroElement : QueueElement V := { element := none, next := none, dequeued := false, freed := false }

def queueCreate : Queue V :=
  { memory := fun _ => zeroElement, allocated := 1, head := 0, tail := 0, linked := [], swapped := [] }

namespace Queue

def store (queue : Queue V) (node : NodeRef) (fields : QueueElement V) : Queue V :=
  { queue with memory := Function.update queue.memory node fields }

@[simp] theorem store_memory (queue : Queue V) (node : NodeRef) (fields : QueueElement V) :
    (queue.store node fields).memory = Function.update queue.memory node fields := rfl

/-- `__sync_bool_compare_and_swap(&queue->tail, tail, next)`, whose result is not used. -/
def swingTail (queue : Queue V) (tail next : NodeRef) : Queue V :=
  if queue.tail = tail then { queue with tail := next } else queue

section SwingTail
variable (queue : Queue V) (tail next : NodeRef)

@[simp] theorem swingTail_memory : (queue.swingTail tail next).memory = queue.memory := by
  rw [swingTail, apply_ite Queue.memory, ite_self]

@[simp] theorem swingTail_allocated : (queue.swingTail tail next).allocated = queue.allocated := by
  rw [swingTail, apply_ite Queue.allocated, ite_self]

@[simp] theorem swingTail_head : (queue.swingTail tail next).head = queue.head := by
  rw [swingTail, apply_ite Queue.head, ite_self]

@[simp] theorem swingTail_linked : (queue.swingTail tail next).linked = queue.linked := by
  rw [swingTail, apply_ite Queue.linked, ite_self]

@[simp] theorem swingTail_swapped : (queue.swingTail tail next).swapped = queue.swapped := by
  rw [swingTail, apply_ite Queue.swapped, ite_self]

end SwingTail

/-- The node becomes the successor of `tail`. -/
def link (queue : Queue V) (c : Nat) (tail node : NodeRef) : Queue V :=
  { queue.store tail { queue.memory tail with next := some node } with
    linked := queue.linked ++ [(c, (queue.memory node).element)] }

def swapHead (queue : Queue V) (c : Nat) (next : NodeRef) (element : Option V) : Queue V :=
  { queue with head := next, swapped := queue.swapped ++ [(c, element)] }

end Queue

/-- The start of `QueueEnqueue`, up to its loop. -/
def queueEnqueue (queue : Queue V) (e : Option V) : Queue V × QueueCall V :=
  let node := queue.allocated
  ({ queue.store node { (zeroElement : QueueElement V) with element := e } with allocated := node + 1 },
    .enqueueReadTail node)

/-- The next step of a call that has begun; the assertion and a NULL pointer abort. -/
def queueAdvance (c : Nat) (queue : Queue V) : QueueCall V → Queue V × QueueCall V
  | .enqueueReadTail node => (queue, .enqueueReadNext node queue.tail)
  | .enqueueReadNext node tail => (queue, .enqueueCompare node tail (queue.memory tail).next)
  | .enqueueCompare node tail next =>
    if tail = queue.tail then
      match next with
      | none => (queue, .enqueueLink node tail)
      | some next => (queue, .enqueueHelp node tail next)
    else (queue, .enqueueReadTail node)
  | .enqueueLink node tail =>
    if (queue.memory tail).next = none then
      (queue.link c tail node, .enqueueSwing node tail)
    else (queue, .enqueueReadTail node)
  | .enqueueHelp node tail next => (queue.swingTail tail next, .enqueueReadTail node)
  | .enqueueSwing node tail => (queue.swingTail tail node, .enqueued)
  | .drainReadHead => (queue, .drainReadTail queue.head)
  | .drainReadTail head => (queue, .drainReadNext head queue.tail)
  | .drainReadNext head tail => (queue, .drainCompare head tail (queue.memory head).next)
  | .drainCompare head tail next =>
    if head = queue.head then
      if head = tail then
        match next with
        | none => (queue, .drained none)
        | some next => (queue, .drainHelp tail next)
      else
        match next with
        | none => (queue, .aborted)
        | some next => (queue, .drainReadElement head next)
    else (queue, .drainReadHead)
  | .drainHelp tail next => (queue.swingTail tail next, .drainReadHead)
  | .drainReadElement head next => (queue, .drainSwap head next (queue.memory next).element)
  | .drainSwap head next element =>
    if queue.head = head then
      (queue.swapHead c next element, .drainAssert head next element)
    else (queue, .drainReadHead)
  | .drainAssert head next element =>
    if (queue.memory next).dequeued then (queue, .aborted) else (queue, .drainMark head next element)
  | .drainMark head next element =>
    (queue.store next { queue.memory next with dequeued := true }, .drainFree head element)
  | .drainFree head element =>
    (queue.store head { queue.memory head with freed := true }, .drained element)
  | .idle => (queue, .idle)
  | .enqueued => (queue, .enqueued)
  | .drained result => (queue, .drained result)
  | .aborted => (queue, .aborted)

/-- The branches of a step one by one, each with the test that leads to it. -/
inductive QueueMove (c : Nat) (queue : Queue V) : QueueCall V → Queue V × QueueCall V → Prop where
  | enqueueReadTail : QueueMove c queue (.enqueueReadTail node) (queue, .enqueueReadNext node queue.tail)
  | enqueueReadNext : QueueMove c queue (.enqueueReadNext node tail)
      (queue, .enqueueCompare node tail (queue.memory tail).next)
  | atEnd (current : tail = queue.tail) :
      QueueMove c queue (.enqueueCompare node tail none) (queue, .enqueueLink node tail)
  | tailLags (current : tail = queue.tail) :
      QueueMove c queue (.enqueueCompare node tail (some next)) (queue, .enqueueHelp node tail next)
  | tailMoved (stale : tail ≠ queue.tail) :
      QueueMove c queue (.enqueueCompare node tail next) (queue, .enqueueReadTail node)
  | links (empty : (queue.memory tail).next = none) :
      QueueMove c queue (.enqueueLink node tail) (queue.link c tail node, .enqueueSwing node tail)
  | overtaken (taken : (queue.memory tail).next ≠ none) :
      QueueMove c queue (.enqueueLink node tail) (queue, .enqueueReadTail node)
  | enqueueHelp : QueueMove c queue (.enqueueHelp node tail next)
      (queue.swingTail tail next, .enqueueReadTail node)
  | enqueueSwing : QueueMove c queue (.enqueueSwing node tail) (queue.swingTail tail node, .enqueued)
  | drainReadHead : QueueMove c queue .drainReadHead (queue, .drainReadTail queue.head)
  | drainReadTail : QueueMove c queue (.drainReadTail head) (queue, .drainReadNext head queue.tail)
  | drainReadNext : QueueMove c queue (.drainReadNext head tail)
      (queue, .drainCompare head tail (queue.memory head).next)
  | findsEmpty (current : head = queue.head) :
      QueueMove c queue (.drainCompare head head none) (queue, .drained none)
  | behindTail (current : head = queue.head) :
      QueueMove c queue (.drainCompare head head (some next)) (queue, .drainHelp head next)
  | noSuccessor (current : head = queue.head) (different : head ≠ tail) :
      QueueMove c queue (.drainCompare head tail none) (queue, .aborted)
  | successor (current : head = queue.head) (different : head ≠ tail) :
      QueueMove c queue (.drainCompare head tail (some next)) (queue, .drainReadElement head next)
  | headMoved (stale : head ≠ queue.head) :
      QueueMove c queue (.drainCompare head tail next) (queue, .drainReadHead)
  | drainHelp : QueueMove c queue (.drainHelp tail next) (queue.swingTail tail next, .drainReadHead)
  | drainReadElement : QueueMove c queue (.drainReadElement head next)
      (queue, .drainSwap head next (queue.memory next).element)
  | swaps (current : queue.head = head) : QueueMove c queue (.drainSwap head next element)
      (queue.swapHead c next element, .drainAssert head next element)
  | tooLate (stale : queue.head ≠ head) :
      QueueMove c queue (.drainSwap head next element) (queue, .drainReadHead)
  | assertFails (marked : (queue.memory next).dequeued = true) :
      QueueMove c queue (.drainAssert head next element) (queue, .aborted)
  | asserts (clear : (queue.memory next).dequeued = false) :
      QueueMove c queue (.drainAssert head next element) (queue, .drainMark head next element)
  | marks : QueueMove c queue (.drainMark head next element)
      (queue.store next { queue.memory next with dequeued := true }, .drainFree head element)
  | frees : QueueMove c queue (.drainFree head element)
      (queue.store head { queue.memory head with freed := true }, .drained element)
  | idle : QueueMove c queue .idle (queue, .idle)
  | enqueued : QueueMove c queue .enqueued (queue, .enqueued)
  | drained : QueueMove c queue (.drained result) (queue, .drained result)
  | aborted : QueueMove c queue .aborted (queue, .aborted)

theorem queueAdvance_move (c : Nat) (queue : Queue V) (call : QueueCall V) :
    QueueMove c queue call (queueAdvance c queue call) := by
  cases call with
  | enqueueCompare node tail next =>
    simp only [queueAdvance]
    split
    · rename_i current
      cases next with
      | none => exact .atEnd current
      | some next => exact .tailLags current
    · rename_i stale
      exact .tailMoved stale
  | enqueueLink node tail =>
    simp only [queueAdvance]
    split
    · rename_i empty
      exact .links empty
    · rename_i taken
      exact .overtaken taken
  | drainCompare head tail next =>
    simp only [queueAdvance]
    split
    · rename_i current
      split
      · rename_i same
        subst same
        cases next with
        | none => exact .findsEmpty current
        | some next => exact .behindTail current
      · rename_i different
        cases next with
        | none => exact .noSuccessor current different
        | some next => exact .successor current different
    · rename_i stale
      exact .headMoved stale
  | drainSwap head next element =>
    simp only [queueAdvance]
    split
    · rename_i current
      exact .swaps current
    · rename_i stale
      exact .tooLate stale
  | drainAssert head next element =>
    simp only [queueAdvance]
    split
    · rename_i marked
      exact .assertFails marked
    · rename_i clear
      exact .asserts (Bool.eq_false_iff.mpr clear)
  | _ => constructor

inductive QueueAction (V : Type) where
  | enqueue (e : Option V)
  | drain
  | advance
  deriving DecidableEq

/-- The step of a call that it takes next, from idle the one asked for. -/
inductive QueueStep (c : Nat) :
    QueueAction V → Queue V × QueueCall V → Queue V × QueueCall V → Prop where
  | enqueue : QueueStep c (.enqueue e) (queue, .idle) (queueEnqueue queue e)
  | drain : QueueStep c .drain (queue, .idle) (queue, .drainReadHead)
  | advance : QueueStep c .advance (queue, call) (queueAdvance c queue call)

/-- Every call is told apart by its number. -/
abbrev QueueState (V : Type) := Interleaving.State (Queue V) (QueueCall V)

def queueInitial : QueueState V := { shared := queueCreate, thread := fun _ => .idle }

def QueueRun (labels : List (Nat × QueueAction V)) (s : QueueState V) : Prop :=
  Transition.Run (Interleaving.Step QueueStep) queueInitial labels s

end KommunikationNetze.Utils
