import KommunikationNetze.Utils.DispatchShutdown

/-! The destruction of a dispatch queue runs what was dispatched and stops all workers. The
exit blocks stand behind the other blocks, a worker takes at most one of them, and there
are as many as workers: when all workers have ended, all blocks were taken. -/
namespace KommunikationNetze.Utils
variable {B : Type}

namespace ShutdownThread

def claims : ShutdownThread B → Bool
  | .claimed => true
  | _ => false

def works : ShutdownThread B → Bool
  | .waiting | .claimed | .obtained _ | .running _ | .ended _ => true
  | _ => false

def destroys : ShutdownThread B → Bool
  | .dispatching _ | .enqueued _ | .joining _ | .joined => true
  | _ => false

def hasEnded : ShutdownThread B → Bool
  | .ended _ => true
  | _ => false

/-- A worker that has found the queue empty. -/
def emptyHanded : ShutdownThread B → Bool
  | .obtained none => true
  | _ => false

/-- The block a worker has taken last, if it is not back from it. -/
def current : ShutdownThread B → List (QueuedBlock B)
  | .obtained block => block.toList
  | .running block => [.block block]
  | .ended number => [.exit number]
  | _ => []

def opened (i : Nat) : ShutdownThread B → List (BlockCall B)
  | .running block => [.began i block]
  | _ => []

end ShutdownThread

/-- The workers between `sem_wait` and `QueueDrain`, how many exit blocks were enqueued, and
whether the last of them was not yet posted. -/
structure ShutdownGhost where
  claimed : Finset Nat
  exits : Nat
  posting : Nat

/-- The blocks this worker has taken. -/
def blocksBy (i : Nat) (taken : List (Nat × QueuedBlock B)) : List (QueuedBlock B) :=
  (taken.filter (·.1 = i)).map Prod.snd

/-- How far the destruction has come, by the position of the thread that destroys. -/
def Progress (workers : Nat) (g : ShutdownGhost) (finished : List Nat) : ShutdownThread B → Prop
  | .dispatching n => g.exits = n ∧ g.posting = 0
  | .enqueued n => g.exits = n + 1 ∧ g.posting = 1
  | .joining n => g.exits = workers ∧ g.posting = 0 ∧ n ≤ workers ∧ ∀ i < n, i ∈ finished
  | .joined => g.exits = workers ∧ g.posting = 0 ∧ ∀ i < workers, i ∈ finished
  | _ => True

structure ShutdownShape (workers : Nat) (blocks : List (Dispatched B)) (g : ShutdownGhost)
    (queue : ShutdownQueue B) : Prop where
  number : queue.numOfThreads = workers
  count : queue.queue.length = queue.semaphore + g.claimed.card + g.posting
  order : queue.enqueued = queue.taken.map Prod.snd ++ queue.queue
  blocks : queue.enqueued = blocks.map .block ++ (List.range g.exits).map .exit
  exits : g.exits ≤ workers
  takers : ∀ p ∈ queue.taken, p.1 < workers
  callers : ∀ call ∈ queue.calls, call.worker < workers

structure OwnShutdown (workers : Nat) (g : ShutdownGhost) (queue : ShutdownQueue B) (i : Nat)
    (thread : ShutdownThread B) : Prop where
  claimed : i ∈ g.claimed ↔ thread.claims = true
  works : thread.works = true ↔ i < workers
  destroys : thread.destroys = true ↔ i = workers
  ended : i ∈ queue.finished ↔ thread.hasEnded = true
  supplied : thread.emptyHanded = false
  log : ∃ done, blocksBy i queue.taken = done.map .block ++ thread.current ∧
    callsBy i queue.calls = oneByOne i done ++ thread.opened i
  progress : Progress workers g queue.finished thread

section Records
variable {i j : Nat}

theorem blocksBy_append_self (taken : List (Nat × QueuedBlock B)) (block : QueuedBlock B) :
    blocksBy i (taken ++ [(i, block)]) = blocksBy i taken ++ [block] := by
  simp [blocksBy]

theorem blocksBy_append_of_ne (other : j ≠ i) (taken : List (Nat × QueuedBlock B))
    (block : QueuedBlock B) : blocksBy j (taken ++ [(i, block)]) = blocksBy j taken := by
  simp [blocksBy, other.symm]

end Records

section Step
variable {workers : Nat} {blocks : List (Dispatched B)} {g : ShutdownGhost}
  {queue : ShutdownQueue B} {i j : Nat} {thread other : ShutdownThread B}

theorem ShutdownShape.record {call : BlockCall B} (shape : ShutdownShape workers blocks g queue)
    (worker : call.worker < workers) : ShutdownShape workers blocks g (queue.record call) := by
  refine { shape with callers := ?_ }
  intro other mem
  rcases List.mem_append.mp mem with old | new
  · exact shape.callers other old
  · obtain rfl := List.mem_singleton.mp new
    exact worker

theorem OwnShutdown.record {call : BlockCall B} (own : OwnShutdown workers g queue j thread)
    (other : call.worker ≠ j) : OwnShutdown workers g (queue.record call) j thread := by
  refine { own with log := ?_ }
  simpa only [ShutdownQueue.record, callsBy_append_of_ne other] using own.log

/-- What the thread that destroys knows does not change when other threads move. -/
theorem Progress.mono {g next : ShutdownGhost} {finished more : List Nat}
    (progress : Progress workers g finished thread) (exits : next.exits = g.exits)
    (posting : next.posting = g.posting) (grows : finished ⊆ more) :
    Progress workers next more thread := by
  cases thread with
  | dispatching n => exact ⟨exits.trans progress.1, posting.trans progress.2⟩
  | enqueued n => exact ⟨exits.trans progress.1, posting.trans progress.2⟩
  | joining n =>
    obtain ⟨all, posted, range, ended⟩ := progress
    exact ⟨exits.trans all, posting.trans posted, range, fun i below => grows (ended i below)⟩
  | joined =>
    obtain ⟨all, posted, ended⟩ := progress
    exact ⟨exits.trans all, posting.trans posted, fun i below => grows (ended i below)⟩
  | _ => trivial

/-- A thread that does not destroy knows nothing of the destruction. -/
theorem Progress.of_other (passive : thread.destroys = false) : Progress workers g finished thread := by
  cases thread with
  | dispatching | enqueued | joining | joined => cases passive
  | _ => trivial

theorem OwnShutdown.passive (own : OwnShutdown workers g queue j thread) (different : j ≠ workers) :
    thread.destroys = false :=
  Bool.eq_false_iff.mpr fun active => different (own.destroys.mp active)

/-- What a step leaves: the shape, the thread that moved, and all others. -/
def Kept (workers : Nat) (blocks : List (Dispatched B)) (g : ShutdownGhost) (queue : ShutdownQueue B)
    (i : Nat) (next : ShutdownQueue B × ShutdownThread B) : Prop :=
  ∃ g', ShutdownShape workers blocks g' next.1 ∧ OwnShutdown workers g' next.1 i next.2 ∧
    ∀ {j other}, j ≠ i → OwnShutdown workers g queue j other → OwnShutdown workers g' next.1 j other

/-- A move of the thread that destroys which leaves the queue alone. -/
theorem kept_destroyer (shape : ShutdownShape workers blocks g queue)
    (own : OwnShutdown workers g queue i thread)
    (claims : other.claims = thread.claims) (works : other.works = thread.works)
    (destroys : other.destroys = thread.destroys) (ended : other.hasEnded = thread.hasEnded)
    (current : other.current = thread.current) (opened : other.opened i = thread.opened i)
    (supplied : other.emptyHanded = false) (progress : Progress workers g queue.finished other) :
    Kept workers blocks g queue i (queue, other) := by
  refine ⟨g, shape, ?_, fun _ own => own⟩
  constructor
  · rw [claims]
    exact own.claimed
  · rw [works]
    exact own.works
  · rw [destroys]
    exact own.destroys
  · rw [ended]
    exact own.ended
  · exact supplied
  · rw [current, opened]
    exact own.log
  · exact progress

theorem kept_enqueue (shape : ShutdownShape workers blocks g queue)
    (own : OwnShutdown workers g queue i (.dispatching n)) (more : n < queue.numOfThreads) :
    Kept workers blocks g queue i (queue.enqueue (.exit n), .enqueued n) := by
  obtain ⟨exits, posting⟩ := own.progress
  have last : i = workers := own.destroys.mp rfl
  rw [shape.number] at more
  refine ⟨{ g with exits := n + 1, posting := 1 }, ?_, ?_, ?_⟩
  · refine { shape with count := ?_, order := ?_, blocks := ?_, exits := more }
    · simp only [ShutdownQueue.enqueue, List.length_append, List.length_singleton]
      have := shape.count
      omega
    · simp only [ShutdownQueue.enqueue, shape.order, List.append_assoc]
    · simp only [ShutdownQueue.enqueue, shape.blocks, exits, List.range_succ, List.map_append,
        List.map_singleton, List.append_assoc]
  · exact ⟨own.claimed, own.works, own.destroys, own.ended, rfl, own.log, rfl, rfl⟩
  · intro j other different its
    rw [last] at different
    exact { its with progress := .of_other (its.passive different) }

theorem kept_post (shape : ShutdownShape workers blocks g queue)
    (own : OwnShutdown workers g queue i (.enqueued n)) :
    Kept workers blocks g queue i (queue.semPost, .dispatching (n + 1)) := by
  obtain ⟨exits, posting⟩ := own.progress
  have last : i = workers := own.destroys.mp rfl
  refine ⟨{ g with posting := 0 }, ?_, ?_, ?_⟩
  · refine { shape with count := ?_ }
    have count := shape.count
    simp only [ShutdownQueue.semPost]
    omega
  · exact ⟨own.claimed, own.works, own.destroys, own.ended, rfl, own.log, exits, rfl⟩
  · intro j other different its
    rw [last] at different
    exact { its with progress := .of_other (its.passive different) }

theorem kept_wait (shape : ShutdownShape workers blocks g queue)
    (own : OwnShutdown workers g queue i .waiting) (positive : 0 < queue.semaphore) :
    Kept workers blocks g queue i (queue.semWait, .claimed) := by
  have absent : i ∉ g.claimed := by simp [own.claimed, ShutdownThread.claims]
  refine ⟨{ g with claimed := insert i g.claimed }, ?_, ?_, ?_⟩
  · refine { shape with count := ?_ }
    have count := shape.count
    simp only [ShutdownQueue.semWait, Finset.card_insert_of_notMem absent]
    omega
  · exact ⟨by simp [ShutdownThread.claims], own.works, own.destroys, own.ended,
      rfl, own.log, trivial⟩
  · intro j other different its
    refine { its with claimed := ?_, progress := its.progress.mono rfl rfl (List.Subset.refl _) }
    rw [Finset.mem_insert, or_iff_right different]
    exact its.claimed

/-- A claimed unit of the semaphore stands for a block of the queue. -/
theorem ShutdownShape.drained (shape : ShutdownShape workers blocks g queue) (claimed : i ∈ g.claimed) :
    ∃ block rest, queue.queue = block :: rest ∧
      queue.drain i = ({ queue with queue := rest, taken := queue.taken ++ [(i, block)] }, some block) := by
  have positive := Finset.card_pos.mpr ⟨i, claimed⟩
  have count := shape.count
  obtain ⟨block, rest, held⟩ : ∃ block rest, queue.queue = block :: rest := by
    refine List.exists_cons_of_ne_nil ?_
    intro empty
    rw [empty, List.length_nil] at count
    omega
  refine ⟨block, rest, held, ?_⟩
  simp only [ShutdownQueue.drain, held]

theorem kept_drain (shape : ShutdownShape workers blocks g queue)
    (own : OwnShutdown workers g queue i .claimed) :
    Kept workers blocks g queue i ((queue.drain i).1, .obtained (queue.drain i).2) := by
  have mem : i ∈ g.claimed := own.claimed.mpr rfl
  have positive := Finset.card_pos.mpr ⟨i, mem⟩
  have count := shape.count
  obtain ⟨block, rest, held, drained⟩ := shape.drained mem
  rw [drained]
  refine ⟨{ g with claimed := g.claimed.erase i }, ?_, ?_, ?_⟩
  · refine { shape with count := ?_, order := ?_, takers := ?_ }
    · rw [held, List.length_cons] at count
      simp only [Finset.card_erase_of_mem mem]
      omega
    · simp only [shape.order, held, List.map_append, List.map_cons, List.map_nil,
        List.append_assoc, List.singleton_append]
    · intro p taken
      rcases List.mem_append.mp taken with old | new
      · exact shape.takers p old
      · obtain rfl := List.mem_singleton.mp new
        exact own.works.mp rfl
  · obtain ⟨done, taken, calls⟩ := own.log
    refine ⟨by simp [ShutdownThread.claims], own.works, own.destroys, own.ended,
      rfl, ⟨done, ?_, calls⟩, trivial⟩
    simp only [blocksBy_append_self, taken, ShutdownThread.current, List.append_nil, Option.toList_some]
  · intro j other different its
    refine { its with claimed := ?_, log := ?_, progress := its.progress.mono rfl rfl (List.Subset.refl _) }
    · rw [Finset.mem_erase, and_iff_right different]
      exact its.claimed
    · simpa only [blocksBy_append_of_ne different] using its.log

theorem kept_call (shape : ShutdownShape workers blocks g queue)
    (own : OwnShutdown workers g queue i (.obtained (some (.block block)))) :
    Kept workers blocks g queue i (queue.record (.began i block), .running block) := by
  obtain ⟨done, taken, calls⟩ := own.log
  have logged := callsBy_append_self (.began i block) queue.calls
  refine ⟨g, shape.record (own.works.mp rfl), ?_, fun different its => its.record different.symm⟩
  refine ⟨own.claimed, own.works, own.destroys, own.ended, rfl,
    ⟨done, taken, ?_⟩, trivial⟩
  refine logged.trans ?_
  simp only [BlockCall.worker, calls, ShutdownThread.opened, List.append_nil]

theorem kept_release (shape : ShutdownShape workers blocks g queue)
    (own : OwnShutdown workers g queue i (.running block)) :
    Kept workers blocks g queue i (queue.record (.returned i block), .waiting) := by
  obtain ⟨done, taken, calls⟩ := own.log
  have logged := callsBy_append_self (.returned i block) queue.calls
  refine ⟨g, shape.record (own.works.mp rfl), ?_, fun different its => its.record different.symm⟩
  refine ⟨own.claimed, own.works, own.destroys, own.ended, rfl,
    ⟨done ++ [block], ?_, ?_⟩, trivial⟩
  · refine taken.trans ?_
    simp only [ShutdownThread.current, List.map_append, List.map_singleton, List.append_nil]
  · refine logged.trans ?_
    simp only [BlockCall.worker, calls, oneByOne_append, ShutdownThread.opened, List.append_nil]

theorem kept_exit (shape : ShutdownShape workers blocks g queue)
    (own : OwnShutdown workers g queue i (.obtained (some (.exit number)))) :
    Kept workers blocks g queue i (queue.threadExit i, .ended number) := by
  refine ⟨g, { shape with }, ?_, ?_⟩
  · refine ⟨own.claimed, own.works, own.destroys, ?_, rfl, own.log, trivial⟩
    simp [ShutdownQueue.threadExit, ShutdownThread.hasEnded]
  · intro j other different its
    refine { its with ended := ?_, progress := its.progress.mono rfl rfl (List.subset_append_left _ _) }
    simp only [ShutdownQueue.threadExit, List.mem_append, List.mem_singleton, or_iff_left different]
    exact its.ended

theorem shutdown_preserves : Interleaving.Preserves ShutdownStep
    (ShutdownShape (B := B) workers blocks) (OwnShutdown workers) := by
  intro g queue i own label next shape owned stepped
  cases stepped with
  | enqueue more => exact kept_enqueue shape owned more
  | post => exact kept_post shape owned
  | dispatched all =>
    obtain ⟨exits, posting⟩ := owned.progress
    have bound := shape.exits
    rw [shape.number] at all
    refine kept_destroyer shape owned rfl rfl rfl rfl rfl rfl rfl
      ⟨by omega, posting, Nat.zero_le _, ?_⟩
    intro i below
    exact absurd below (Nat.not_lt_zero i)
  | join more finished =>
    obtain ⟨exits, posting, _, ended⟩ := owned.progress
    rw [shape.number] at more
    refine kept_destroyer shape owned rfl rfl rfl rfl rfl rfl rfl
      ⟨exits, posting, more, ?_⟩
    intro i below
    rcases Nat.lt_succ_iff_lt_or_eq.mp below with earlier | rfl
    · exact ended i earlier
    · exact finished
  | joined all =>
    obtain ⟨exits, posting, _, ended⟩ := owned.progress
    rw [shape.number] at all
    exact kept_destroyer shape owned rfl rfl rfl rfl rfl rfl rfl
      ⟨exits, posting, fun i below => ended i (by omega)⟩
  | wait positive => exact kept_wait shape owned positive
  | drain => exact kept_drain shape owned
  | skip => cases owned.supplied
  | call => exact kept_call shape owned
  | release => exact kept_release shape owned
  | exit => exact kept_exit shape owned

end Step

section Start
variable {workers : Nat} {s : DispatchState B}

theorem blocksBy_start (i : Nat) (taken : List (Nat × Dispatched B)) :
    blocksBy i (taken.map fun p => (p.1, QueuedBlock.block p.2)) = (takenBy i taken).map .block := by
  simp only [blocksBy, takenBy, List.filter_map, List.map_map]
  rfl

/-- Threads behind the workers have taken and called nothing. -/
theorem log_outside (i : Nat) (behind : workers ≤ i) {taken : List (Nat × Dispatched B)}
    {calls : List (BlockCall B)} (takers : ∀ p ∈ taken, p.1 < workers)
    (callers : ∀ call ∈ calls, call.worker < workers) :
    takenBy i taken = [] ∧ callsBy i calls = [] := by
  constructor
  · rw [takenBy, List.filter_eq_nil_iff.mpr, List.map_nil]
    intro p mem same
    have below := takers p mem
    have eq := of_decide_eq_true same
    omega
  · rw [callsBy, List.filter_eq_nil_iff.mpr]
    intro call mem same
    have below := callers call mem
    have eq := of_decide_eq_true same
    omega

section Position
variable {thread : DispatchThread B}

theorem workerPosition_claims : (workerPosition thread).claims = thread.claims := by
  cases thread <;> rfl

theorem works_of_claims (claims : thread.claims = true) : thread.works = true := by
  cases thread with
  | claimed => rfl
  | _ => cases claims

theorem workerPosition_works : (workerPosition thread).works = thread.works := by
  cases thread <;> rfl

theorem workerPosition_destroys : (workerPosition thread).destroys = false := by
  cases thread <;> rfl

theorem workerPosition_hasEnded : (workerPosition thread).hasEnded = false := by
  cases thread <;> rfl

theorem workerPosition_emptyHanded (nonempty : thread ≠ .obtained none) :
    (workerPosition thread).emptyHanded = false := by
  cases thread with
  | obtained block =>
    cases block with
    | none => exact absurd rfl nonempty
    | some block => rfl
  | _ => rfl

theorem workerPosition_current :
    (workerPosition thread).current = thread.current.toList.map QueuedBlock.block := by
  cases thread with
  | obtained block => cases block <;> rfl
  | _ => rfl

theorem workerPosition_opened : (workerPosition thread).opened i = thread.open_ i := by
  cases thread <;> rfl

end Position

/-- A worker goes on with what it had taken. -/
theorem workerStart_own (number : s.shared.maxThreads = workers)
    (own : OwnThread g s.shared i (s.thread i)) (below : i < workers) :
    OwnShutdown workers ⟨g.claimed, 0, 0⟩ (shutdownStart s).shared i ((shutdownStart s).thread i) := by
  have position : (shutdownStart s).thread i = workerPosition (s.thread i) :=
    if_pos (number.symm ▸ below)
  obtain ⟨done, taken, calls⟩ := own.log
  rw [position]
  constructor
  · rw [workerPosition_claims]
    exact own.claimed
  · rw [workerPosition_works, ← number]
    exact own.worker
  · rw [workerPosition_destroys]
    exact iff_of_false Bool.false_ne_true (Nat.ne_of_lt below)
  · rw [workerPosition_hasEnded]
    exact iff_of_false List.not_mem_nil Bool.false_ne_true
  · exact workerPosition_emptyHanded own.nonempty
  · refine ⟨done, ?_, ?_⟩
    · rw [workerPosition_current, ← List.map_append, ← taken]
      exact blocksBy_start i s.shared.taken
    · rw [workerPosition_opened]
      exact calls
  · exact .of_other workerPosition_destroys

/-- The thread that destroys, and those that are not concerned, have taken and called nothing. -/
theorem otherStart_own {thread : ShutdownThread B} (shape : DispatchShape g s.shared)
    (number : s.shared.maxThreads = workers) (behind : workers ≤ i) (claimed : i ∉ g.claimed)
    (position : thread = if i = workers then .dispatching 0 else .outside) :
    OwnShutdown workers ⟨g.claimed, 0, 0⟩ (shutdownStart s).shared i thread := by
  obtain ⟨taken, calls⟩ := log_outside i behind (number ▸ shape.takers) (number ▸ shape.callers)
  have blocks := (blocksBy_start i s.shared.taken).trans (congrArg _ taken)
  have idle : ¬i < workers := Nat.not_lt.mpr behind
  by_cases last : i = workers
  · rw [if_pos last] at position
    subst position
    exact ⟨iff_of_false claimed Bool.false_ne_true, iff_of_false Bool.false_ne_true idle,
      iff_of_true rfl last, iff_of_false List.not_mem_nil Bool.false_ne_true, rfl,
      ⟨[], blocks, calls⟩, rfl, rfl⟩
  · rw [if_neg last] at position
    subst position
    exact ⟨iff_of_false claimed Bool.false_ne_true, iff_of_false Bool.false_ne_true idle,
      iff_of_false Bool.false_ne_true last, iff_of_false List.not_mem_nil Bool.false_ne_true, rfl,
      ⟨[], blocks, calls⟩, trivial⟩

/-- When no call of `Dispatch` is under way, the destruction may start. -/
theorem shutdownStart_shape
    (run : Transition.Run (Interleaving.Step DispatchStep) (dispatchStart workers) labels s)
    (complete : ∀ i, s.thread i ≠ .enqueued) :
    ∃ g, ShutdownShape workers s.shared.dispatched g (shutdownStart s).shared ∧
      ∀ i, OwnShutdown workers g (shutdownStart s).shared i ((shutdownStart s).thread i) := by
  obtain ⟨g, shape, own⟩ := dispatchStart_shape run
  have number : s.shared.maxThreads = workers := dispatch_maxThreads run
  have posted : g.posting = ∅ := by
    refine Finset.eq_empty_iff_forall_notMem.mpr fun i mem => ?_
    have posts := (own i).posting.mp mem
    cases thread : s.thread i with
    | enqueued => exact complete i thread
    | _ => rw [thread] at posts; cases posts
  have count := shape.count
  rw [posted, Finset.card_empty] at count
  refine ⟨⟨g.claimed, 0, 0⟩, ?_, fun i => ?_⟩
  · refine ⟨number, ?_, ?_, ?_, Nat.zero_le _, ?_, ?_⟩
    · exact (List.length_map _).trans count
    · simp only [shutdownStart, shape.order, List.map_append, List.map_map]
      rfl
    · exact (List.append_nil _).symm
    · intro p mem
      obtain ⟨q, taken, rfl⟩ := List.mem_map.mp mem
      rw [← number]
      exact shape.takers q taken
    · rw [← number]
      exact shape.callers
  · by_cases below : i < workers
    · exact workerStart_own number (own i) below
    · refine otherStart_own shape number (Nat.not_lt.mp below) ?_ ?_
      · intro claimed
        exact below (number ▸ (own i).worker.mp (works_of_claims ((own i).claimed.mp claimed)))
      · simp only [shutdownStart, number, if_neg below]

end Start
end KommunikationNetze.Utils
