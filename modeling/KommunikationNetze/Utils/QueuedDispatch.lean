import KommunikationNetze.Library.Simulation
import KommunikationNetze.Utils.QueueProgress
import KommunikationNetze.Utils.DispatchOnce

/-! The dispatch queue on its own queue. The threads that call `Dispatch` and the workers
take the steps of `QueueEnqueue` and `QueueDrain` one by one, in any order; every call of
these gets a number of its own, under which it is a call of a run of the queue. -/
namespace KommunikationNetze.Utils
open Transition Interleaving
variable {B : Type}

/-- `begun` counts the calls of `QueueEnqueue` and `QueueDrain`; it and `calls` are recorded
and never read. -/
structure QueuedDispatch (B : Type) where
  maxThreads : Nat
  queue : Queue (Dispatched B)
  semaphore : Nat
  begun : Nat
  calls : List (BlockCall B)

/-- A thread in a call of `QueueEnqueue` or `QueueDrain` has the number of the call. -/
inductive QueuedThread (B : Type) where
  | idle
  | inQueue (number : Nat) (call : QueueCall (Dispatched B))
  | enqueued
  | over
  | waiting
  | obtained (block : Option (Dispatched B))
  | running (block : Dispatched B)

def queuedCreate (flags : BitVec 32) : QueuedDispatch B :=
  { maxThreads := if flags &&& kDispatchQueueSerial ≠ 0 then 1 else 10
    queue := queueCreate, semaphore := 0, begun := 0, calls := [] }

namespace QueuedDispatch
variable (memory : QueuedDispatch B)

/-- A call of `QueueEnqueue` or `QueueDrain` begins, in this state of the queue. -/
def begin (queue : Queue (Dispatched B)) : QueuedDispatch B :=
  { memory with queue, begun := memory.begun + 1 }

def record (call : BlockCall B) : QueuedDispatch B := { memory with calls := memory.calls ++ [call] }

end QueuedDispatch

/-- `Dispatch` enqueues a copy of the block and posts; a worker waits, drains and runs. -/
inductive QueuedStep (i : Nat) :
    DispatchAction B → QueuedDispatch B × QueuedThread B → QueuedDispatch B × QueuedThread B → Prop where
  | enqueue : QueuedStep i (.dispatch block) (memory, .idle)
      (memory.begin (queueEnqueue memory.queue (some (i, block))).1,
        .inQueue memory.begun (queueEnqueue memory.queue (some (i, block))).2)
  | inside (under : ¬call.Returned) : QueuedStep i .advance (memory, .inQueue n call)
      ({ memory with queue := (queueAdvance n memory.queue call).1 },
        .inQueue n (queueAdvance n memory.queue call).2)
  | enqueued : QueuedStep i .advance (memory, .inQueue n .enqueued) (memory, .enqueued)
  | post : QueuedStep i .advance (memory, .enqueued)
      ({ memory with semaphore := memory.semaphore + 1 }, .over)
  | wait (positive : 0 < memory.semaphore) : QueuedStep i .advance (memory, .waiting)
      (({ memory with semaphore := memory.semaphore - 1 } : QueuedDispatch B).begin memory.queue,
        .inQueue memory.begun .drainReadHead)
  | drained : QueuedStep i .advance (memory, .inQueue n (.drained result)) (memory, .obtained result)
  | skip : QueuedStep i .advance (memory, .obtained none) (memory, .waiting)
  | call : QueuedStep i .advance (memory, .obtained (some block))
      (memory.record (.began i block), .running block)
  | release : QueuedStep i .advance (memory, .running block)
      (memory.record (.returned i block), .waiting)

abbrev QueuedState (B : Type) := Interleaving.State (QueuedDispatch B) (QueuedThread B)

/-- The threads with a number below `maxThreads` are the workers. -/
def queuedInitial (flags : BitVec 32) : QueuedState B :=
  { shared := queuedCreate flags
    thread := fun i => if i < (queuedCreate (B := B) flags).maxThreads then .waiting else .idle }

def QueuedRun (flags : BitVec 32) (labels : List (Nat × DispatchAction B)) (s : QueuedState B) : Prop :=
  Run (Interleaving.Step QueuedStep) (queuedInitial flags) labels s

/-- The queue and the calls that are under way, as a state of the queue alone. -/
structure Projects (s : QueuedState B) (q : QueueState (Dispatched B)) : Prop where
  shared : q.shared = s.shared.queue
  thread : ∀ {i n call}, s.thread i = .inQueue n call → n < s.shared.begun ∧ q.thread n = call
  distinct : ∀ {i j n call other}, s.thread i = .inQueue n call → s.thread j = .inQueue n other → i = j
  fresh : ∀ {n}, s.shared.begun ≤ n → q.thread n = .idle

section Projection
variable {s : QueuedState B} {q : QueueState (Dispatched B)} {i : Nat}
  {memory : QueuedDispatch B} {thread : QueuedThread B}

/-- A step outside the queue, or the return from it. -/
theorem Projects.leave (projects : Projects s q) (queue : memory.queue = s.shared.queue)
    (begun : memory.begun = s.shared.begun) (outside : ∀ n call, thread ≠ .inQueue n call) :
    Projects (s.set i (memory, thread)) q := by
  have others : ∀ {j n call}, (s.set i (memory, thread)).thread j = .inQueue n call →
      s.thread j = .inQueue n call := by
    intro j n call here
    by_cases same : j = i
    · subst same
      rw [State.set_thread_self] at here
      exact absurd here (outside n call)
    · rwa [State.set_thread_of_ne same] at here
  refine ⟨projects.shared.trans queue.symm, fun here => ?_, fun first second => ?_, fun old => ?_⟩
  · rw [State.set_shared, begun]
    exact projects.thread (others here)
  · exact projects.distinct (others first) (others second)
  · rw [State.set_shared, begun] at old
    exact projects.fresh old

/-- A new call begins under a number that no call had. -/
theorem Projects.begin (projects : Projects s q) (memory : QueuedDispatch B)
    (begun : memory.begun = s.shared.begun) (first : QueueCall (Dispatched B)) (queue : Queue (Dispatched B)) :
    Projects (s.set i (memory.begin queue, .inQueue memory.begun first))
      (q.set s.shared.begun (queue, first)) := by
  have cases : ∀ {j n call}, (s.set i (memory.begin queue, .inQueue memory.begun first)).thread j =
      .inQueue n call → (j = i ∧ n = s.shared.begun ∧ call = first) ∨
        (j ≠ i ∧ s.thread j = .inQueue n call) := by
    intro j n call here
    by_cases same : j = i
    · subst same
      rw [State.set_thread_self] at here
      obtain ⟨rfl, rfl⟩ := QueuedThread.inQueue.inj here
      exact .inl ⟨rfl, begun, rfl⟩
    · rw [State.set_thread_of_ne same] at here
      exact .inr ⟨same, here⟩
  have older : ∀ {j n call}, s.thread j = .inQueue n call → n ≠ s.shared.begun :=
    fun there => Nat.ne_of_lt (projects.thread there).1
  refine ⟨rfl, fun here => ?_, fun here there => ?_, fun old => ?_⟩
  · rw [State.set_shared, QueuedDispatch.begin, begun]
    rcases cases here with ⟨_, rfl, rfl⟩ | ⟨_, there⟩
    · exact ⟨Nat.lt_succ_self _, State.set_thread_self⟩
    · rw [State.set_thread_of_ne (older there)]
      exact ⟨Nat.lt_succ_of_lt (projects.thread there).1, (projects.thread there).2⟩
  · rcases cases here with ⟨rfl, rfl, _⟩ | ⟨_, first⟩ <;>
      rcases cases there with ⟨rfl, new, _⟩ | ⟨_, second⟩
    · rfl
    · exact absurd rfl (older second)
    · exact absurd new (older first)
    · exact projects.distinct first second
  · rw [State.set_shared, QueuedDispatch.begin, begun] at old
    rw [State.set_thread_of_ne (Nat.ne_of_gt old)]
    exact projects.fresh (Nat.le_of_succ_le old)

/-- A step inside the queue. -/
theorem Projects.inside (projects : Projects s q) (here : s.thread i = .inQueue n call)
    (next : Queue (Dispatched B) × QueueCall (Dispatched B)) :
    Projects (s.set i ({ s.shared with queue := next.1 }, .inQueue n next.2)) (q.set n next) := by
  have cases : ∀ {j m call}, (s.set i ({ s.shared with queue := next.1 }, .inQueue n next.2)).thread j =
      .inQueue m call → (j = i ∧ m = n ∧ call = next.2) ∨ (m ≠ n ∧ s.thread j = .inQueue m call) := by
    intro j m call there
    by_cases same : j = i
    · subst same
      rw [State.set_thread_self] at there
      obtain ⟨rfl, rfl⟩ := QueuedThread.inQueue.inj there
      exact .inl ⟨rfl, rfl, rfl⟩
    · rw [State.set_thread_of_ne same] at there
      refine .inr ⟨?_, there⟩
      rintro rfl
      exact same (projects.distinct there here)
  refine ⟨rfl, fun there => ?_, fun first second => ?_, fun old => ?_⟩
  · rcases cases there with ⟨_, rfl, rfl⟩ | ⟨other, there⟩
    · exact ⟨(projects.thread here).1, State.set_thread_self⟩
    · rw [State.set_thread_of_ne other]
      exact projects.thread there
  · rcases cases first with ⟨rfl, rfl, _⟩ | ⟨other, first⟩ <;>
      rcases cases second with ⟨rfl, new, _⟩ | ⟨other', second⟩
    · rfl
    · exact absurd rfl other'
    · exact absurd new other
    · exact projects.distinct first second
  · have later : n < s.shared.begun := (projects.thread here).1
    rw [State.set_thread_of_ne (Nat.ne_of_gt (Nat.lt_of_lt_of_le later old))]
    exact projects.fresh old

/-- A step of the dispatch queue is none or one of its queue. -/
theorem Projects.step (projects : Projects s q) (stepped : Interleaving.Step QueuedStep s label t) :
    ∃ labels q', Run (Interleaving.Step QueueStep) q labels q' ∧ Projects t q' := by
  obtain ⟨taken⟩ := stepped
  rename_i i action next
  generalize here : s.thread i = thread at taken
  cases taken with
  | enqueue =>
    rename_i block
    have begins : QueueStep s.shared.begun (.enqueue (some (i, block)))
        (q.shared, q.thread s.shared.begun) (queueEnqueue s.shared.queue (some (i, block))) := by
      rw [projects.fresh (Nat.le_refl _), projects.shared]
      exact .enqueue
    exact ⟨_, _, .single (.mk begins), projects.begin _ rfl _ _⟩
  | inside =>
    rename_i n call under
    have advances : QueueStep n .advance (q.shared, q.thread n)
        (queueAdvance n s.shared.queue call) := by
      rw [(projects.thread here).2, projects.shared]
      exact .advance
    exact ⟨_, _, .single (.mk advances), projects.inside here _⟩
  | wait =>
    have begins : QueueStep s.shared.begun .drain (q.shared, q.thread s.shared.begun)
        (s.shared.queue, .drainReadHead) := by
      rw [projects.fresh (Nat.le_refl _), projects.shared]
      exact .drain
    exact ⟨_, _, .single (.mk begins),
      projects.begin { s.shared with semaphore := s.shared.semaphore - 1 } rfl _ _⟩
  | _ => exact ⟨[], q, .start, projects.leave rfl rfl nofun⟩

theorem QueuedRun.projects (run : QueuedRun flags labels (s : QueuedState B)) :
    ∃ calls q, QueueRun calls q ∧ Projects s q := by
  refine run.simulated (R := fun _ s _ q => Projects s q) ⟨rfl, ?_, ?_, fun _ => rfl⟩ ?_
  · intro i n call here
    simp only [queuedInitial] at here
    split at here <;> cases here
  · intro i j n call other here
    simp only [queuedInitial] at here
    split at here <;> cases here
  · intro _ s _ q label t _ _ projects stepped
    exact projects.step stepped

end Projection
end KommunikationNetze.Utils
