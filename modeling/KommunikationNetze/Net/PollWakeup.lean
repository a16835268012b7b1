import KommunikationNetze.Library.Transition
import Mathlib.Logic.Function.Basic

/-! The wake-up of the poll thread, alike in both programs: any number of threads enqueue
updates and write to the pipe, and the poll thread reads the pipe and drains the queue. The
queue is an atomic FIFO. What an update does and what `poll` returns is left out. -/
namespace KommunikationNetze.Net
variable {U : Type}

/-- A thread outside of the two steps of an update, and between them. -/
inductive Updater where
  | idle
  | enqueued
  deriving DecidableEq

/-- In one round of the thread, `PollApplyUpdates` comes before `poll` and after it. -/
inductive ApplyUpdates where
  | beforePoll
  | afterPoll (failed : Bool)
  deriving DecidableEq

/-- Where the poll thread is. It registers the pipe first, and the blocks it calls when it
handles events make updates as well. -/
inductive PollThread where
  | registering (update : Updater)
  | reading (call : ApplyUpdates)
  | draining (call : ApplyUpdates)
  | polling
  | handling (update : Updater)
  | returned
  deriving DecidableEq

/-- `pipe` is the number of bytes in the pipe. -/
structure PollWakeup (U : Type) where
  capacity : Nat
  updateQueue : List U
  pipe : Nat
  pollThread : PollThread
  updater : Nat → Updater

namespace PollWakeup
variable (s : PollWakeup U)

def enqueue (update : U) : PollWakeup U := { s with updateQueue := s.updateQueue ++ [update] }

/-- `write` of one byte, which fails if the pipe is full. -/
def write : PollWakeup U := { s with pipe := if s.pipe < s.capacity then s.pipe + 1 else s.pipe }

/-- `read` of up to 255 bytes. -/
def read : PollWakeup U := { s with pipe := s.pipe - min 255 s.pipe }

def moves (pollThread : PollThread) : PollWakeup U := { s with pollThread }

def updaterMoves (i : Nat) (updater : Updater) : PollWakeup U :=
  { s with updater := Function.update s.updater i updater }

end PollWakeup

/-- Where `PollApplyUpdates` returns to. -/
def ApplyUpdates.next : ApplyUpdates → PollThread
  | beforePoll => .polling
  | afterPoll failed => if failed then .returned else .handling .idle

/-- An update of a thread or a step of the poll thread. -/
inductive WakeupAction (U : Type) where
  | update (i : Nat) (update : U)
  | notify (i : Nat)
  | pollUpdate (update : U)
  | poll (failed : Bool)
  | advance

inductive WakeupStep : PollWakeup U → WakeupAction U → PollWakeup U → Prop where
  | enqueue (idle : s.updater i = .idle) :
      WakeupStep s (.update i update) ((s.enqueue update).updaterMoves i .enqueued)
  | notify (enqueued : s.updater i = .enqueued) :
      WakeupStep s (.notify i) (s.write.updaterMoves i .idle)
  | registerEnqueue (at_ : s.pollThread = .registering .idle) :
      WakeupStep s (.pollUpdate update) ((s.enqueue update).moves (.registering .enqueued))
  | registerNotify (at_ : s.pollThread = .registering .enqueued) :
      WakeupStep s .advance (s.write.moves (.reading .beforePoll))
  | read (at_ : s.pollThread = .reading call) : WakeupStep s .advance (s.read.moves (.draining call))
  | apply (at_ : s.pollThread = .draining call) (waiting : s.updateQueue = update :: rest) :
      WakeupStep s .advance { s with updateQueue := rest }
  | drained (at_ : s.pollThread = .draining call) (empty : s.updateQueue = []) :
      WakeupStep s .advance (s.moves call.next)
  | poll (at_ : s.pollThread = .polling) :
      WakeupStep s (.poll failed) (s.moves (.reading (.afterPoll failed)))
  | handleEnqueue (at_ : s.pollThread = .handling .idle) :
      WakeupStep s (.pollUpdate update) ((s.enqueue update).moves (.handling .enqueued))
  | handleNotify (at_ : s.pollThread = .handling .enqueued) :
      WakeupStep s .advance (s.write.moves (.handling .idle))
  | handled (at_ : s.pollThread = .handling .idle) :
      WakeupStep s .advance (s.moves (.reading .beforePoll))

def pollWakeup (capacity : Nat) : PollWakeup U :=
  { capacity, updateQueue := [], pipe := 0, pollThread := .registering .idle
    updater := fun _ => .idle }

/-- Any interleaving from the start of the poll thread. -/
abbrev WakeupRun (capacity : Nat) : List (WakeupAction U) → PollWakeup U → Prop :=
  Transition.Run WakeupStep (pollWakeup capacity)

/-- Between `read` and the NULL that ends the loop, the poll thread looks at the queue
without the pipe, and between the two steps of an update it writes itself. -/
def PollThread.attends : PollThread → Bool
  | registering .enqueued | draining _ | handling .enqueued => true
  | _ => false

/-- An update in the queue has a byte in the pipe or somebody who cares for it. -/
structure Awake (capacity : Nat) (s : PollWakeup U) : Prop where
  capacity : s.capacity = capacity
  awake : s.updateQueue ≠ [] → 0 < s.pipe ∨ (∃ i, s.updater i = .enqueued) ∨
    s.pollThread.attends = true

section Step
variable {s t : PollWakeup U} {capacity : Nat}

theorem write_pos (room : 0 < s.capacity) : 0 < s.write.pipe := by
  simp only [PollWakeup.write]
  split <;> omega

/-- What holds while nothing is enqueued and the pipe keeps its bytes. -/
theorem Awake.moves (awake : Awake capacity s) (pollThread : PollThread)
    (before : s.pollThread.attends = true → pollThread.attends = true ∨ s.updateQueue = []) :
    Awake capacity (s.moves pollThread) := by
  refine ⟨awake.capacity, fun queued => ?_⟩
  rcases awake.awake queued with bytes | caller | attends
  · exact .inl bytes
  · exact .inr (.inl caller)
  · exact .inr (.inr ((before attends).resolve_right queued))

theorem Awake.step (positive : 0 < capacity) (awake : Awake capacity s)
    (stepped : WakeupStep s action t) : Awake capacity t := by
  have room : 0 < s.capacity := awake.capacity ▸ positive
  cases stepped with
  | enqueue idle =>
    rename_i i update
    refine ⟨awake.capacity, fun _ => .inr (.inl ⟨i, ?_⟩)⟩
    exact Function.update_self ..
  | notify enqueued => exact ⟨awake.capacity, fun _ => .inl (write_pos room)⟩
  | registerEnqueue => exact ⟨awake.capacity, fun _ => .inr (.inr rfl)⟩
  | registerNotify => exact ⟨awake.capacity, fun _ => .inl (write_pos room)⟩
  | read => exact ⟨awake.capacity, fun _ => .inr (.inr rfl)⟩
  | apply at_ waiting =>
    refine ⟨awake.capacity, fun _ => .inr (.inr ?_)⟩
    rw [at_]
    rfl
  | drained at_ empty =>
    apply awake.moves
    intro _
    exact .inr empty
  | poll at_ =>
    apply awake.moves
    rw [at_]
    exact nofun
  | handleEnqueue => exact ⟨awake.capacity, fun _ => .inr (.inr rfl)⟩
  | handleNotify => exact ⟨awake.capacity, fun _ => .inl (write_pos room)⟩
  | handled at_ =>
    apply awake.moves
    rw [at_]
    exact nofun

end Step

theorem WakeupRun.awake (positive : 0 < capacity) (run : WakeupRun (U := U) capacity labels s) :
    Awake capacity s := by
  apply run.invariant
  · exact ⟨rfl, nofun⟩
  · intro s label t awake stepped
    exact awake.step positive stepped

/-- While the poll thread is in `poll`, an update in the queue has its byte in the pipe or a
thread that is about to write it. -/
theorem poll_wakeup (positive : 0 < capacity) (run : WakeupRun (U := U) capacity labels s)
    (polling : s.pollThread = .polling) (queued : s.updateQueue ≠ []) :
    0 < s.pipe ∨ ∃ i, s.updater i = .enqueued := by
  rcases (run.awake positive).awake queued with bytes | caller | attends
  · exact .inl bytes
  · exact .inr caller
  · rw [polling] at attends
    cases attends

theorem poll_wakeup_between : ∃ s : PollWakeup Nat,
    WakeupRun 1 [.pollUpdate 0, .advance, .advance, .advance, .advance, .update 0 1] s ∧
      s.pollThread = .polling ∧ s.updateQueue = [1] ∧
      (0 < s.pipe ∨ ∃ i, s.updater i = .enqueued) := by
  have registered : WakeupRun 1 [.pollUpdate 0, .advance] _ :=
    .snoc (.single (.registerEnqueue rfl)) (.registerNotify rfl)
  have applied := Transition.Run.snoc (registered.snoc (.read rfl)) (.apply rfl rfl)
  have run : WakeupRun 1 [.pollUpdate 0, .advance, .advance, .advance, .advance, .update 0 1] _ :=
    (applied.snoc (.drained rfl rfl)).snoc (.enqueue rfl)
  exact ⟨_, run, rfl, rfl, poll_wakeup (by decide) run rfl nofun⟩

end KommunikationNetze.Net
