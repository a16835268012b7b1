import KommunikationNetze.Utils.ShutdownDrain

/-! What the destruction of a dispatch queue leaves. -/
namespace KommunikationNetze.Utils
variable {B : Type}

def QueuedBlock.block? : QueuedBlock B → Option (Dispatched B)
  | .block body => some body
  | .exit _ => none

def QueuedBlock.isExit : QueuedBlock B → Bool
  | .block _ => false
  | .exit _ => true

/-- An exit block is followed by later exit blocks only. -/
def QueuedBlock.Precedes (first second : QueuedBlock B) : Prop :=
  ∀ n, first = .exit n → ∃ m, n < m ∧ second = .exit m

def BlockCall.began? : BlockCall B → Option (Nat × Dispatched B)
  | .began worker block => some (worker, block)
  | .returned _ _ => none

def BlockCall.returned? : BlockCall B → Option (Nat × Dispatched B)
  | .began _ _ => none
  | .returned worker block => some (worker, block)

def blockTaken? (p : Nat × QueuedBlock B) : Option (Nat × Dispatched B) := p.2.block?.map (p.1, ·)

/-- The blocks that were called, each with the worker. -/
def begunBlocks (calls : List (BlockCall B)) : List (Nat × Dispatched B) :=
  calls.filterMap BlockCall.began?

/-- The blocks that came back. -/
def returnedBlocks (calls : List (BlockCall B)) : List (Nat × Dispatched B) :=
  calls.filterMap BlockCall.returned?

/-- The dispatched blocks that were taken. -/
def blocksTaken (taken : List (Nat × QueuedBlock B)) : List (Nat × Dispatched B) :=
  taken.filterMap blockTaken?

/-- The workers that took an exit block, as often as they did. -/
def exitTakers (taken : List (Nat × QueuedBlock B)) : List Nat :=
  (taken.filter (·.2.isExit)).map Prod.fst

section Records
variable {i : Nat}

theorem began_filter (calls : List (BlockCall B)) :
    (begunBlocks calls).filter (·.1 = i) = begunBlocks (callsBy i calls) := by
  apply KeyedList.filter_filterMap BlockCall.worker Prod.fst
  intro call p made
  cases call with
  | began worker block => cases made; rfl
  | returned worker block => cases made

theorem returned_filter (calls : List (BlockCall B)) :
    (returnedBlocks calls).filter (·.1 = i) = returnedBlocks (callsBy i calls) := by
  apply KeyedList.filter_filterMap BlockCall.worker Prod.fst
  intro call p made
  cases call with
  | began worker block => cases made
  | returned worker block => cases made; rfl

theorem blocksTaken_filter (taken : List (Nat × QueuedBlock B)) :
    (blocksTaken taken).filter (·.1 = i) = ((blocksBy i taken).filterMap QueuedBlock.block?).map (i, ·) := by
  have split : (blocksTaken taken).filter (·.1 = i) = (taken.filter (·.1 = i)).filterMap blockTaken? := by
    apply KeyedList.filter_filterMap Prod.fst Prod.fst
    intro p q made
    obtain ⟨body, _, rfl⟩ := Option.map_eq_some_iff.mp made
    rfl
  rw [split, blocksBy, List.filterMap_map, List.map_filterMap]
  refine List.filterMap_congr fun p mem => ?_
  obtain rfl := of_decide_eq_true (List.mem_filter.mp mem).2
  rfl

/-- A worker has taken as many exit blocks as it is listed. -/
theorem count_exitTakers (taken : List (Nat × QueuedBlock B)) :
    (exitTakers taken).count i = (blocksBy i taken).countP QueuedBlock.isExit := by
  rw [exitTakers, List.count, List.countP_map, List.countP_filter, blocksBy, List.countP_map,
    List.countP_filter]
  refine List.countP_congr fun p _ => ?_
  simp [and_comm]

end Records

section Order
variable {workers : Nat} {blocks : List (Dispatched B)} {g : ShutdownGhost} {queue : ShutdownQueue B}

/-- Behind an exit block there are only later ones. -/
theorem enqueued_precedes (blocks : List (Dispatched B)) (exits : Nat) :
    (blocks.map QueuedBlock.block ++ (List.range exits).map QueuedBlock.exit).Pairwise QueuedBlock.Precedes := by
  refine List.pairwise_append.mpr ⟨?_, ?_, ?_⟩
  · refine List.pairwise_map.mpr (List.pairwise_of_forall fun body other n same => ?_)
    cases same
  · refine List.pairwise_map.mpr (List.pairwise_lt_range.imp fun {n m} less k same => ?_)
    cases same
    exact ⟨m, less, rfl⟩
  · intro first mem second _ n same
    obtain ⟨body, _, rfl⟩ := List.mem_map.mp mem
    cases same

theorem ShutdownShape.precedes (shape : ShutdownShape workers blocks g queue)
    (taken : (i, .exit n) ∈ queue.taken) : ∀ queued ∈ queue.queue, ∃ m, n < m ∧ queued = .exit m := by
  intro queued mem
  have ordered := enqueued_precedes blocks g.exits
  rw [← shape.blocks, shape.order] at ordered
  have apart := (List.pairwise_append.mp ordered).2.2
  exact apart _ (List.mem_map_of_mem taken) queued mem n rfl

theorem countP_blocks (blocks : List (Dispatched B)) :
    (blocks.map QueuedBlock.block).countP QueuedBlock.isExit = 0 := by
  refine List.countP_eq_zero.mpr fun queued mem => ?_
  obtain ⟨body, _, rfl⟩ := List.mem_map.mp mem
  exact Bool.false_ne_true

theorem ShutdownShape.exits_counted (shape : ShutdownShape workers blocks g queue) :
    (exitTakers queue.taken).length + queue.queue.countP QueuedBlock.isExit = g.exits := by
  have counted := congrArg (List.countP QueuedBlock.isExit) (shape.order.symm.trans shape.blocks)
  have all : ((List.range g.exits).map (QueuedBlock.exit (B := B))).countP QueuedBlock.isExit =
      g.exits := by
    refine (List.countP_eq_length.mpr fun queued mem => ?_).trans (by simp)
    obtain ⟨n, _, rfl⟩ := List.mem_map.mp mem
    rfl
  have takers : (exitTakers queue.taken).length =
      (queue.taken.map Prod.snd).countP QueuedBlock.isExit := by
    rw [exitTakers, List.length_map, List.countP_map, List.countP_eq_length_filter]
    rfl
  rw [List.countP_append, List.countP_append, countP_blocks, all, Nat.zero_add] at counted
  rw [takers, counted]

theorem ShutdownShape.exitTakers_below (shape : ShutdownShape workers blocks g queue) :
    ∀ i ∈ exitTakers queue.taken, i < workers := by
  intro i mem
  obtain ⟨p, took, rfl⟩ := List.mem_map.mp mem
  exact shape.takers p (List.mem_filter.mp took).1

theorem filterMap_blocks (blocks : List (Dispatched B)) :
    (blocks.map QueuedBlock.block).filterMap QueuedBlock.block? = blocks := by
  rw [List.filterMap_map]
  exact List.filterMap_some

/-- The dispatched blocks are taken or queued. -/
theorem ShutdownShape.taken_or_queued (shape : ShutdownShape workers blocks g queue) :
    (blocksTaken queue.taken).map Prod.snd ++ queue.queue.filterMap QueuedBlock.block? = blocks := by
  have counted := congrArg (List.filterMap QueuedBlock.block?) (shape.order.symm.trans shape.blocks)
  have none : ((List.range g.exits).map (QueuedBlock.exit (B := B))).filterMap QueuedBlock.block? = [] := by
    refine List.filterMap_eq_nil_iff.mpr fun queued mem => ?_
    obtain ⟨n, _, rfl⟩ := List.mem_map.mp mem
    rfl
  have split : (blocksTaken queue.taken).map Prod.snd =
      (queue.taken.map Prod.snd).filterMap QueuedBlock.block? := by
    rw [blocksTaken, List.map_filterMap, List.filterMap_map]
    refine List.filterMap_congr fun p _ => ?_
    simp [blockTaken?, Function.comp_def]
  rw [List.filterMap_append, List.filterMap_append, filterMap_blocks, none, List.append_nil] at counted
  rw [split, counted]

end Order

section Workers
variable {workers : Nat} {blocks : List (Dispatched B)} {g : ShutdownGhost} {t : ShutdownState B}
  {queue : ShutdownQueue B} {i : Nat} {thread : ShutdownThread B}

theorem OwnShutdown.exits (own : OwnShutdown workers g queue i thread) :
    (exitTakers queue.taken).count i = thread.current.countP QueuedBlock.isExit := by
  obtain ⟨done, taken, _⟩ := own.log
  rw [count_exitTakers, taken, List.countP_append, countP_blocks, Nat.zero_add]

theorem current_length (thread : ShutdownThread B) : thread.current.length ≤ 1 := by
  cases thread with
  | obtained block => cases block <;> simp [ShutdownThread.current]
  | _ => simp [ShutdownThread.current]

/-- No worker takes two exit blocks. -/
theorem exitTakers_nodup (own : ∀ i, OwnShutdown workers g t.shared i (t.thread i)) :
    (exitTakers t.shared.taken).Nodup := by
  refine List.nodup_iff_count_le_one.mpr fun i => ?_
  rw [(own i).exits]
  exact List.countP_le_length.trans (current_length _)

/-- As many exit blocks as workers were taken: each worker took one. -/
theorem exitTakers_perm (shape : ShutdownShape workers blocks g t.shared)
    (own : ∀ i, OwnShutdown workers g t.shared i (t.thread i))
    (many : workers ≤ (exitTakers t.shared.taken).length) :
    (exitTakers t.shared.taken).Perm (List.range workers) := by
  have distinct := exitTakers_nodup own
  have inside : exitTakers t.shared.taken ⊆ List.range workers :=
    fun i mem => List.mem_range.mpr (shape.exitTakers_below i mem)
  exact (distinct.subperm inside).perm_of_length_le (by simpa using many)

/-- A thread that is not in the middle of a block. -/
def Settled (thread : ShutdownThread B) : Prop := thread.hasEnded = true ∨ thread.works = false

theorem Settled.idle (settled : Settled thread) (i : Nat) :
    thread.current.filterMap QueuedBlock.block? = [] ∧ thread.opened i = [] := by
  rcases settled with ended | outside
  · cases thread with
    | ended => exact ⟨rfl, rfl⟩
    | _ => cases ended
  · cases thread with
    | waiting | claimed | obtained | running | ended => cases outside
    | _ => exact ⟨rfl, rfl⟩

theorem began_oneByOne (i : Nat) (done : List (Dispatched B)) :
    begunBlocks (oneByOne i done) = done.map (i, ·) := by
  induction done with
  | nil => rfl
  | cons body done ih => exact congrArg ((i, body) :: ·) ih

theorem returned_oneByOne (i : Nat) (done : List (Dispatched B)) :
    returnedBlocks (oneByOne i done) = done.map (i, ·) := by
  induction done with
  | nil => rfl
  | cons body done ih => exact congrArg ((i, body) :: ·) ih

/-- What a worker has called it has taken. -/
theorem OwnShutdown.fewer (own : OwnShutdown workers g queue i thread) :
    ((begunBlocks queue.calls).filter (·.1 = i)).Sublist
      ((blocksTaken queue.taken).filter (·.1 = i)) := by
  obtain ⟨done, taken, calls⟩ := own.log
  rw [began_filter, calls, blocksTaken_filter, taken, List.filterMap_append, filterMap_blocks,
    List.map_append, begunBlocks, List.filterMap_append, ← begunBlocks, began_oneByOne]
  refine (List.Sublist.refl _).append ?_
  cases thread with
  | running block => exact List.Sublist.refl _
  | _ => exact List.nil_sublist _

theorem OwnShutdown.calls (own : OwnShutdown workers g queue i thread) (settled : Settled thread) :
    (begunBlocks queue.calls).filter (·.1 = i) = (blocksTaken queue.taken).filter (·.1 = i) ∧
      (returnedBlocks queue.calls).filter (·.1 = i) = (blocksTaken queue.taken).filter (·.1 = i) := by
  obtain ⟨done, taken, calls⟩ := own.log
  obtain ⟨none, closed⟩ := settled.idle i
  rw [closed, List.append_nil] at calls
  rw [began_filter, returned_filter, calls, blocksTaken_filter, taken, List.filterMap_append,
    filterMap_blocks, none, List.append_nil]
  exact ⟨began_oneByOne i done, returned_oneByOne i done⟩

end Workers

section Progress
variable {workers : Nat} {blocks : List (Dispatched B)} {g : ShutdownGhost} {t u : ShutdownState B}
  {queue : ShutdownQueue B} {i : Nat} {thread : ShutdownThread B}

/-- The steps a thread has before it, with what its steps give to others. -/
def ShutdownThread.weight (workers : Nat) : ShutdownThread B → Nat
  | .claimed => 3
  | .obtained _ => 2
  | .running _ => 1
  | .dispatching n => 6 * (workers - n) + workers + 2
  | .enqueued n => 6 * (workers - n) + workers + 1
  | .joining n => workers - n + 1
  | .waiting | .ended _ | .joined | .outside => 0

/-- At most this many steps are left. -/
def remaining (workers : Nat) (t : ShutdownState B) : Nat :=
  4 * t.shared.semaphore + Interleaving.State.total (workers + 1) (·.weight workers) t

theorem drain_semaphore (queue : ShutdownQueue B) (i : Nat) :
    (queue.drain i).1.semaphore = queue.semaphore := by
  rw [ShutdownQueue.drain]
  split <;> rfl

theorem weight_decreases (shape : ShutdownShape workers blocks g queue)
    (own : OwnShutdown workers g queue i thread) (stepped : ShutdownStep i label (queue, thread) next) :
    4 * next.1.semaphore + next.2.weight workers < 4 * queue.semaphore + thread.weight workers := by
  have number := shape.number
  have exits := shape.exits
  cases stepped with
  | enqueue => exact Nat.lt_succ_self _
  | post =>
    have counted := own.progress.1
    simp only [ShutdownQueue.semPost, ShutdownThread.weight]
    omega
  | wait positive =>
    simp only [ShutdownQueue.semWait, ShutdownThread.weight]
    omega
  | drain =>
    simp only [drain_semaphore, ShutdownThread.weight]
    omega
  | dispatched | join | joined | skip | call | release | exit =>
    simp only [ShutdownThread.weight, ShutdownQueue.record, ShutdownQueue.threadExit]
    omega

/-- Only the workers and the thread behind them move. -/
theorem OwnShutdown.moves (own : OwnShutdown workers g queue i thread)
    (stepped : ShutdownStep i label (queue, thread) next) : i < workers + 1 := by
  have active : thread.works = true ∨ thread.destroys = true := by
    cases stepped with
    | enqueue | post | dispatched | join | joined => exact .inr rfl
    | _ => exact .inl rfl
  rcases active with works | destroys
  · exact Nat.lt_succ_of_lt (own.works.mp works)
  · exact Nat.lt_succ_of_le (Nat.le_of_eq (own.destroys.mp destroys))

theorem remaining_decreases
    (held : ∃ g, ShutdownShape workers blocks g t.shared ∧
      ∀ i, OwnShutdown workers g t.shared i (t.thread i))
    (stepped : Interleaving.Step ShutdownStep t move u) : remaining workers u < remaining workers t := by
  obtain ⟨g, shape, own⟩ := held
  obtain ⟨taken⟩ := stepped
  rename_i i label next
  have less := weight_decreases shape (own i) taken
  have changed := Interleaving.State.total_set ((own i).moves taken) (·.weight workers) t next
  simp only [remaining, Interleaving.State.set_shared]
  omega

/-- A worker that does not wait and has not ended goes on. -/
theorem worker_moves (works : (t.thread i).works = true) (goesOn : (t.thread i).hasEnded = false)
    (awake : t.thread i = .waiting → 0 < t.shared.semaphore) :
    ∃ move u, Interleaving.Step ShutdownStep t move u := by
  have moves : ∃ next, ShutdownStep i () (t.shared, t.thread i) next := by
    cases thread : t.thread i with
    | waiting => exact ⟨_, .wait (awake thread)⟩
    | claimed => exact ⟨_, .drain⟩
    | obtained block =>
      cases block with
      | none => exact ⟨_, .skip⟩
      | some queued =>
        cases queued with
        | block body => exact ⟨_, .call⟩
        | exit number => exact ⟨_, .exit⟩
    | running block => exact ⟨_, .release⟩
    | ended number => rw [thread] at goesOn; cases goesOn
    | _ => rw [thread] at works; cases works
  obtain ⟨next, taken⟩ := moves
  exact ⟨_, _, .mk taken⟩

/-- All exit blocks were enqueued, and a worker has not taken one: some worker can go on. -/
theorem not_stuck (shape : ShutdownShape workers blocks g t.shared)
    (own : ∀ i, OwnShutdown workers g t.shared i (t.thread i)) (exits : g.exits = workers)
    (posted : g.posting = 0) (below : i < workers) (goesOn : (t.thread i).hasEnded = false) :
    ∃ move u, Interleaving.Step ShutdownStep t move u := by
  by_cases waits : t.thread i = .waiting
  · rcases Nat.eq_zero_or_pos t.shared.semaphore with none | positive
    · by_cases claimed : g.claimed = ∅
      · -- The queue is empty, so each worker has taken an exit block, this one too.
        have count := shape.count
        rw [none, claimed, posted, Finset.card_empty] at count
        have empty := List.length_eq_zero_iff.mp count
        have counted := shape.exits_counted
        rw [empty, exits] at counted
        have perm := exitTakers_perm shape own (Nat.le_of_eq counted.symm)
        have took : i ∈ exitTakers t.shared.taken := perm.mem_iff.mpr (List.mem_range.mpr below)
        have positive := List.count_pos_iff.mpr took
        rw [(own i).exits, waits] at positive
        exact absurd positive (Nat.lt_irrefl 0)
      · obtain ⟨j, mem⟩ := Finset.nonempty_iff_ne_empty.mpr claimed
        have drains : t.thread j = .claimed := by
          have claims := (own j).claimed.mp mem
          cases thread : t.thread j with
          | claimed => rfl
          | _ => rw [thread] at claims; cases claims
        refine worker_moves (i := j) (by rw [drains]; rfl) (by rw [drains]; rfl) ?_
        intro other
        rw [drains] at other
        cases other
    · exact worker_moves ((own i).works.mpr below) goesOn fun _ => positive
  · exact worker_moves ((own i).works.mpr below) goesOn fun other => absurd other waits

theorem shutdown_moves (shape : ShutdownShape workers blocks g t.shared)
    (own : ∀ i, OwnShutdown workers g t.shared i (t.thread i)) (before : t.thread workers ≠ .joined) :
    ∃ move u, Interleaving.Step ShutdownStep t move u := by
  have destroys := (own workers).destroys.mpr rfl
  have progress := (own workers).progress
  have move : ∀ {next}, ShutdownStep workers () (t.shared, t.thread workers) next →
      ∃ move u, Interleaving.Step ShutdownStep t move u := fun taken => ⟨_, _, .mk taken⟩
  cases thread : t.thread workers with
  | dispatching n =>
    rw [thread] at move
    by_cases more : n < t.shared.numOfThreads
    · exact move (.enqueue more)
    · exact move (.dispatched more)
  | enqueued n =>
    rw [thread] at move
    exact move .post
  | joining n =>
    rw [thread] at move progress
    obtain ⟨exits, posted, _, _⟩ := progress
    by_cases more : n < t.shared.numOfThreads
    · by_cases finished : n ∈ t.shared.finished
      · exact move (.join more finished)
      · have goesOn := Bool.eq_false_iff.mpr fun ended => finished ((own n).ended.mpr ended)
        exact not_stuck shape own exits posted (shape.number ▸ more) goesOn
    · exact move (.joined more)
  | joined => exact absurd thread before
  | _ => rw [thread] at destroys; cases destroys

end Progress

section Stopped
variable {workers : Nat} {blocks : List (Dispatched B)} {g : ShutdownGhost} {t : ShutdownState B}

/-- The last join has returned, in the loop or behind it. -/
def Stopped (workers : Nat) (thread : ShutdownThread B) : Prop :=
  thread = .joining workers ∨ thread = .joined

theorem Stopped.ended {thread : ShutdownThread B} (stopped : Stopped workers thread)
    (progress : Progress workers g finished thread) :
    g.exits = workers ∧ ∀ i < workers, i ∈ finished := by
  rcases stopped with rfl | rfl
  · exact ⟨progress.1, progress.2.2.2⟩
  · exact ⟨progress.1, progress.2.2⟩

/-- Every worker has ended by an exit block. -/
theorem all_took (own : ∀ i, OwnShutdown workers g t.shared i (t.thread i))
    (ended : ∀ i < workers, i ∈ t.shared.finished) : workers ≤ (exitTakers t.shared.taken).length := by
  have inside : List.range workers ⊆ exitTakers t.shared.taken := by
    intro i mem
    have exited := (own i).ended.mp (ended i (List.mem_range.mp mem))
    refine List.count_pos_iff.mp ?_
    rw [(own i).exits]
    cases thread : t.thread i with
    | ended number => exact Nat.zero_lt_one
    | _ => rw [thread] at exited; cases exited
  have length := (List.nodup_range.subperm inside).length_le
  rwa [List.length_range] at length

theorem emptied (shape : ShutdownShape workers blocks g t.shared) (exits : g.exits = workers)
    (served : 0 < workers ∨ blocks = []) (many : workers ≤ (exitTakers t.shared.taken).length) :
    t.shared.queue = [] := by
  have counted := shape.exits_counted
  have none : t.shared.queue.countP QueuedBlock.isExit = 0 := by omega
  rcases Nat.eq_zero_or_pos workers with rfl | positive
  · have nothing := shape.order.symm.trans shape.blocks
    rw [served.resolve_left (Nat.lt_irrefl 0), exits] at nothing
    exact (List.append_eq_nil_iff.mp nothing).2
  · obtain ⟨i, mem⟩ := List.exists_mem_of_length_pos (Nat.lt_of_lt_of_le positive many)
    obtain ⟨⟨j, queued⟩, took, rfl⟩ := List.mem_map.mp mem
    obtain ⟨taken, exit⟩ := List.mem_filter.mp took
    refine List.eq_nil_iff_forall_not_mem.mpr fun other waiting => ?_
    cases queued with
    | block body => cases exit
    | exit n =>
      obtain ⟨m, _, rfl⟩ := shape.precedes taken other waiting
      exact List.countP_eq_zero.mp none _ waiting rfl

theorem all_ran (shape : ShutdownShape workers blocks g t.shared)
    (own : ∀ i, OwnShutdown workers g t.shared i (t.thread i))
    (ended : ∀ i < workers, i ∈ t.shared.finished) (empty : t.shared.queue = []) :
    ((begunBlocks t.shared.calls).map Prod.snd).Perm blocks ∧
      ((returnedBlocks t.shared.calls).map Prod.snd).Perm blocks := by
  have settled : ∀ i, Settled (t.thread i) := by
    intro i
    by_cases below : i < workers
    · exact .inl ((own i).ended.mp (ended i below))
    · exact .inr (Bool.eq_false_iff.mpr fun works => below ((own i).works.mp works))
  have all := shape.taken_or_queued
  rw [empty, List.filterMap_nil, List.append_nil] at all
  rw [← all]
  constructor
  · exact (KeyedList.perm_of_filter fun i => ((own i).calls (settled i)).1).map Prod.snd
  · exact (KeyedList.perm_of_filter fun i => ((own i).calls (settled i)).2).map Prod.snd

end Stopped

/-- Blocks that were dispatched before run at most once, and exactly once until the last join
returns. An exit block is not taken while an earlier block is queued, each worker takes one
of them, and the last join leaves an empty queue. The destruction cannot get stuck, and
it ends after a bounded number of steps. Only a queue that `DispatchQueueCreate` gave up
has no workers, and nobody has dispatched to it. -/
theorem shutdown_drains {s : DispatchState B} {t : ShutdownState B}
    (run : Transition.Run (Interleaving.Step DispatchStep) (dispatchStart workers) labels s)
    (complete : ∀ i, s.thread i ≠ .enqueued) (served : 0 < workers ∨ s.shared.dispatched = [])
    (shutdown : Transition.Run (Interleaving.Step ShutdownStep) (shutdownStart s) moves t) :
    s.shared.dispatched.Nodup ∧
    ((begunBlocks t.shared.calls).map Prod.snd).Subperm s.shared.dispatched ∧
    (∀ i n, (i, .exit n) ∈ t.shared.taken →
      ∀ queued ∈ t.shared.queue, ∃ m, n < m ∧ queued = .exit m) ∧
    (exitTakers t.shared.taken).Nodup ∧
    (Stopped workers (t.thread workers) → t.shared.queue = [] ∧
      (exitTakers t.shared.taken).Perm (List.range workers) ∧
      ((begunBlocks t.shared.calls).map Prod.snd).Perm s.shared.dispatched ∧
      ((returnedBlocks t.shared.calls).map Prod.snd).Perm s.shared.dispatched) ∧
    moves.length ≤ remaining workers (shutdownStart s) ∧
    (t.thread workers ≠ .joined → ∃ move u, Interleaving.Step ShutdownStep t move u) := by
  have start := shutdownStart_shape run complete
  obtain ⟨_, first, _⟩ := dispatchStart_shape run
  obtain ⟨g, shape, own⟩ := Interleaving.Run.owned shutdown_preserves start shutdown
  refine ⟨first.unique.of_map, ?_, fun i n taken => shape.precedes taken, exitTakers_nodup own, ?_, ?_,
    shutdown_moves shape own⟩
  · obtain ⟨part, same, fewer⟩ := KeyedList.subperm_of_filter fun i => (own i).fewer
    rw [← shape.taken_or_queued]
    exact ⟨part.map Prod.snd, same.map Prod.snd,
      (fewer.map Prod.snd).trans (List.sublist_append_left _ _)⟩
  · intro stopped
    obtain ⟨exits, ended⟩ := stopped.ended (own workers).progress
    have many := all_took own ended
    have empty := emptied shape exits served many
    exact ⟨empty, exitTakers_perm shape own many, all_ran shape own ended empty⟩
  · have bound := shutdown.length_le (P := fun t => ∃ g,
        ShutdownShape workers s.shared.dispatched g t.shared ∧
          ∀ i, OwnShutdown workers g t.shared i (t.thread i)) start
      (fun held stepped => stepped.owned shutdown_preserves held)
      fun held stepped => remaining_decreases held stepped
    exact Nat.le_trans (Nat.le_add_right _ _) bound

/-- One worker, and one block that is queued when the destruction starts. -/
theorem shutdown_drains_oneWorker : ∃ (s : DispatchState Char) (t : ShutdownState Char),
    t.shared.queue = [] ∧ ((returnedBlocks t.shared.calls).map Prod.snd).Perm s.shared.dispatched ∧
      s.shared.queue = [(1, 'a')] ∧ Stopped 1 (t.thread 1) := by
  have queued : Transition.Run (Interleaving.Step DispatchStep) (dispatchStart 1) _ _ :=
    .snoc (.snoc .start (.mk (.enqueue : DispatchStep 1 (.dispatch 'a') _ _))) (.mk (i := 1) .post)
  have begins : ∀ {labels} {s : DispatchState Char},
      Transition.Run (Interleaving.Step DispatchStep) (dispatchStart 1) labels s →
      Transition.Run (Interleaving.Step ShutdownStep) (shutdownStart s) [] (shutdownStart s) :=
    fun _ => .start
  have enqueued := (begins queued).snoc (.mk (i := 1) (.enqueue Nat.one_pos))
  have posted := (enqueued.snoc (.mk (i := 1) .post)).snoc (.mk (i := 1) (.dispatched (by decide)))
  have claimed := posted.snoc (.mk (i := 0) (.wait (by decide)))
  have called := (claimed.snoc (.mk (i := 0) .drain)).snoc (.mk (i := 0) .call)
  have waiting := (called.snoc (.mk (i := 0) .release)).snoc (.mk (i := 0) (.wait (by decide)))
  have ended := (waiting.snoc (.mk (i := 0) .drain)).snoc (.mk (i := 0) .exit)
  have joined := ended.snoc (.mk (i := 1) (.join (by decide) (by decide)))
  have drained := shutdown_drains queued ?_ (.inl Nat.one_pos) joined
  · obtain ⟨empty, _, _, returns⟩ := drained.2.2.2.2.1 (.inl rfl)
    exact ⟨_, _, empty, returns, rfl, .inl rfl⟩
  · intro i
    by_cases caller : i = 1
    · subst caller
      simp
    · simp only [Interleaving.State.set_thread_of_ne caller, dispatchStart]
      split <;> simp

end KommunikationNetze.Utils
