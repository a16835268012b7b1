import KommunikationNetze.Utils.DispatchQueue
import Mathlib.Data.Finset.Card
import Mathlib.Data.List.Nodup

/-! Every dispatched block runs once. The semaphore lags behind the queue by the blocks of
the threads between the two halves of `Dispatch`, and a worker between `sem_wait` and
`QueueDrain` has claimed one of the blocks. -/
namespace KommunikationNetze.Utils
variable {B : Type}

namespace DispatchThread

def claims : DispatchThread B → Bool
  | .claimed => true
  | _ => false

def posts : DispatchThread B → Bool
  | .enqueued => true
  | _ => false

def works : DispatchThread B → Bool
  | .waiting | .claimed | .obtained _ | .running _ => true
  | _ => false

/-- The block a worker has taken and not finished. -/
def current : DispatchThread B → Option (Dispatched B)
  | .obtained block => block
  | .running block => some block
  | _ => none

/-- The call a worker has not come back from. -/
def open_ (i : Nat) : DispatchThread B → List (BlockCall B)
  | .running block => [.began i block]
  | _ => []

end DispatchThread

/-- The blocks this worker has taken. -/
def takenBy (i : Nat) (taken : List (Nat × Dispatched B)) : List (Dispatched B) :=
  (taken.filter (·.1 = i)).map Prod.snd

def callsBy (i : Nat) (calls : List (BlockCall B)) : List (BlockCall B) :=
  calls.filter (·.worker = i)

/-- The calls of blocks that a worker runs one after another. -/
def oneByOne (i : Nat) (blocks : List (Dispatched B)) : List (BlockCall B) :=
  blocks.flatMap fun block => [.began i block, .returned i block]

section Records
variable {i j : Nat}

@[simp] theorem takenBy_append_self (taken : List (Nat × Dispatched B)) (block : Dispatched B) :
    takenBy i (taken ++ [(i, block)]) = takenBy i taken ++ [block] := by
  simp [takenBy]

theorem takenBy_append_of_ne (other : j ≠ i) (taken : List (Nat × Dispatched B)) (block : Dispatched B) :
    takenBy j (taken ++ [(i, block)]) = takenBy j taken := by
  simp [takenBy, other.symm]

theorem callsBy_append_self (call : BlockCall B) (calls : List (BlockCall B)) :
    callsBy call.worker (calls ++ [call]) = callsBy call.worker calls ++ [call] := by
  simp [callsBy]

theorem callsBy_append_of_ne {call : BlockCall B} (other : call.worker ≠ j) (calls : List (BlockCall B)) :
    callsBy j (calls ++ [call]) = callsBy j calls := by
  simp [callsBy, other]

theorem oneByOne_append (i : Nat) (blocks : List (Dispatched B)) (block : Dispatched B) :
    oneByOne i (blocks ++ [block]) = oneByOne i blocks ++ [.began i block] ++ [.returned i block] := by
  simp [oneByOne]

end Records

/-- The workers between `sem_wait` and `QueueDrain`, and the callers between
`QueueEnqueue` and `sem_post`. -/
structure DispatchGhost where
  claimed : Finset Nat
  posting : Finset Nat

structure DispatchShape (g : DispatchGhost) (queue : DispatchQueue B) : Prop where
  count : queue.queue.length = queue.semaphore + g.claimed.card + g.posting.card
  order : queue.dispatched = queue.taken.map Prod.snd ++ queue.queue
  unique : (queue.dispatched.map Prod.fst).Nodup
  takers : ∀ p ∈ queue.taken, p.1 < queue.maxThreads
  callers : ∀ call ∈ queue.calls, call.worker < queue.maxThreads

structure OwnThread (g : DispatchGhost) (queue : DispatchQueue B) (i : Nat) (thread : DispatchThread B) :
    Prop where
  claimed : i ∈ g.claimed ↔ thread.claims = true
  posting : i ∈ g.posting ↔ thread.posts = true
  worker : thread.works = true ↔ i < queue.maxThreads
  fresh : thread = .idle → i ∉ queue.dispatched.map Prod.fst
  nonempty : thread ≠ .obtained none
  log : ∃ done, takenBy i queue.taken = done ++ thread.current.toList ∧
    callsBy i queue.calls = oneByOne i done ++ thread.open_ i

section Step
variable {g : DispatchGhost} {queue : DispatchQueue B} {i j : Nat}

theorem DispatchShape.record {call : BlockCall B} (shape : DispatchShape g queue)
    (worker : call.worker < queue.maxThreads) : DispatchShape g (queue.record call) := by
  refine { shape with callers := ?_ }
  intro other mem
  rcases List.mem_append.mp mem with old | new
  · exact shape.callers other old
  · obtain rfl := List.mem_singleton.mp new
    exact worker

theorem OwnThread.record {call : BlockCall B} (own : OwnThread g queue j thread)
    (other : call.worker ≠ j) : OwnThread g (queue.record call) j thread := by
  refine { own with log := ?_ }
  simpa only [DispatchQueue.record, callsBy_append_of_ne other] using own.log

theorem dispatch_preserves : Interleaving.Preserves DispatchStep (DispatchShape (B := B)) OwnThread := by
  intro g queue i own label next shape owned stepped
  cases stepped with
  | enqueue =>
    rename_i block
    have absent : i ∉ g.posting := by simp [owned.posting, DispatchThread.posts]
    refine ⟨{ g with posting := insert i g.posting }, ?_, ?_, ?_⟩
    · refine { shape with count := ?_, order := ?_, unique := ?_ }
      · simp only [DispatchQueue.enqueue, List.length_append, List.length_singleton,
          Finset.card_insert_of_notMem absent]
        have := shape.count
        omega
      · simp only [DispatchQueue.enqueue, shape.order, List.append_assoc]
      · simp only [DispatchQueue.enqueue, List.map_append, List.map_cons, List.map_nil]
        rw [← List.concat_eq_append]
        exact shape.unique.concat (owned.fresh rfl)
    · refine ⟨owned.claimed, by simp [DispatchThread.posts], owned.worker, nofun, nofun, owned.log⟩
    · intro j other different own
      refine ⟨own.claimed, ?_, own.worker, ?_, own.nonempty, own.log⟩
      · rw [Finset.mem_insert, or_iff_right different]
        exact own.posting
      · intro idle
        simp only [DispatchQueue.enqueue, List.map_append, List.map_cons, List.map_nil,
          List.mem_append, List.mem_singleton, not_or]
        exact ⟨own.fresh idle, different⟩
  | post =>
    have mem : i ∈ g.posting := owned.posting.mpr rfl
    refine ⟨{ g with posting := g.posting.erase i }, ?_, ?_, ?_⟩
    · refine { shape with count := ?_ }
      have positive := Finset.card_pos.mpr ⟨i, mem⟩
      have count := shape.count
      simp only [DispatchQueue.semPost, Finset.card_erase_of_mem mem]
      omega
    · refine ⟨owned.claimed, by simp [DispatchThread.posts], owned.worker, nofun, nofun, owned.log⟩
    · intro j other different own
      refine { own with posting := ?_ }
      rw [Finset.mem_erase, and_iff_right different]
      exact own.posting
  | wait positive =>
    have absent : i ∉ g.claimed := by simp [owned.claimed, DispatchThread.claims]
    refine ⟨{ g with claimed := insert i g.claimed }, ?_, ?_, ?_⟩
    · refine { shape with count := ?_ }
      have count := shape.count
      simp only [DispatchQueue.semWait, Finset.card_insert_of_notMem absent]
      omega
    · refine ⟨by simp [DispatchThread.claims], owned.posting, owned.worker, nofun, nofun, owned.log⟩
    · intro j other different own
      refine { own with claimed := ?_ }
      rw [Finset.mem_insert, or_iff_right different]
      exact own.claimed
  | drain =>
    have mem : i ∈ g.claimed := owned.claimed.mpr rfl
    have positive := Finset.card_pos.mpr ⟨i, mem⟩
    have count := shape.count
    have worker : i < queue.maxThreads := owned.worker.mp rfl
    -- A claimed unit stands for a block of the queue.
    obtain ⟨block, rest, held⟩ : ∃ block rest, queue.queue = block :: rest := by
      refine List.exists_cons_of_ne_nil ?_
      intro empty
      rw [empty, List.length_nil] at count
      omega
    have drained : queue.drain i =
        ({ queue with queue := rest, taken := queue.taken ++ [(i, block)] }, some block) := by
      simp only [DispatchQueue.drain, held]
    rw [drained]
    refine ⟨{ g with claimed := g.claimed.erase i }, ?_, ?_, ?_⟩
    · refine { shape with count := ?_, order := ?_, takers := ?_ }
      · rw [held, List.length_cons] at count
        simp only [Finset.card_erase_of_mem mem]
        omega
      · simp only [shape.order, held, List.map_append, List.map_cons, List.map_nil,
          List.append_assoc, List.singleton_append]
      · intro p taken
        rcases List.mem_append.mp taken with old | new
        · exact shape.takers p old
        · obtain rfl := List.mem_singleton.mp new
          exact worker
    · obtain ⟨done, taken, calls⟩ := owned.log
      refine ⟨by simp [DispatchThread.claims], owned.posting, owned.worker, nofun, nofun, done, ?_, calls⟩
      simp only [takenBy_append_self, taken, DispatchThread.current, Option.toList_none,
        Option.toList_some, List.append_nil]
    · intro j other different own
      refine ⟨?_, own.posting, own.worker, own.fresh, own.nonempty, ?_⟩
      · rw [Finset.mem_erase, and_iff_right different]
        exact own.claimed
      · simpa only [takenBy_append_of_ne different] using own.log
  | skip => exact absurd rfl owned.nonempty
  | call =>
    rename_i block
    obtain ⟨done, taken, calls⟩ := owned.log
    have logged := callsBy_append_self (.began i block) queue.calls
    refine ⟨g, shape.record (owned.worker.mp rfl), ?_, fun different own => own.record different.symm⟩
    refine ⟨owned.claimed, owned.posting, owned.worker, nofun, nofun, done, taken, ?_⟩
    refine logged.trans ?_
    simp only [BlockCall.worker, calls, DispatchThread.open_, List.append_nil]
  | release =>
    rename_i block
    obtain ⟨done, taken, calls⟩ := owned.log
    have logged := callsBy_append_self (.returned i block) queue.calls
    refine ⟨g, shape.record (owned.worker.mp rfl), ?_, fun different own => own.record different.symm⟩
    refine ⟨owned.claimed, owned.posting, owned.worker, nofun, nofun, done ++ [block], ?_, ?_⟩
    · exact taken.trans (List.append_nil _).symm
    · refine logged.trans ?_
      simp only [BlockCall.worker, calls, oneByOne_append, DispatchThread.open_, List.append_nil]

theorem dispatchStart_shape {s : DispatchState B}
    (run : Transition.Run (Interleaving.Step DispatchStep) (dispatchStart maxThreads) labels s) :
    ∃ g, DispatchShape g s.shared ∧ ∀ i, OwnThread g s.shared i (s.thread i) := by
  refine Interleaving.Run.owned dispatch_preserves ⟨⟨∅, ∅⟩, ?_, ?_⟩ run
  · exact ⟨rfl, rfl, List.nodup_nil, by simp [dispatchStart], by simp [dispatchStart]⟩
  · intro i
    by_cases worker : i < maxThreads
    · simp only [dispatchStart, if_pos worker]
      exact ⟨by simp [DispatchThread.claims], by simp [DispatchThread.posts], by simp [DispatchThread.works, worker],
        nofun, nofun, [], rfl, rfl⟩
    · simp only [dispatchStart, if_neg worker]
      exact ⟨by simp [DispatchThread.claims], by simp [DispatchThread.posts], by simp [DispatchThread.works, worker],
        fun _ => List.not_mem_nil, nofun, [], rfl, rfl⟩

theorem DispatchRun.shape (run : DispatchRun flags labels (s : DispatchState B)) :
    ∃ g, DispatchShape g s.shared ∧ ∀ i, OwnThread g s.shared i (s.thread i) :=
  dispatchStart_shape run

/-- No step changes the number of workers. -/
theorem dispatch_maxThreads {origin s : DispatchState B}
    (run : Transition.Run (Interleaving.Step DispatchStep) origin labels s) :
    s.shared.maxThreads = origin.shared.maxThreads := by
  refine run.invariant (P := fun s : DispatchState B =>
    s.shared.maxThreads = origin.shared.maxThreads) rfl ?_
  intro s label t held stepped
  obtain ⟨taken⟩ := stepped
  generalize s.thread _ = thread at taken
  cases taken with
  | drain =>
    simp only [Interleaving.State.set_shared, DispatchQueue.drain]
    split <;> exact held
  | _ => exact held

theorem DispatchRun.maxThreads (run : DispatchRun flags labels (s : DispatchState B)) :
    s.shared.maxThreads = if flags &&& kDispatchQueueSerial ≠ 0 then 1 else 10 :=
  dispatch_maxThreads run

end Step

/-- The calls of `Dispatch` that have enqueued their block. -/
def dispatches (labels : List (Nat × DispatchAction B)) : List (Dispatched B) :=
  labels.filterMap fun
    | (i, .dispatch block) => some (i, block)
    | (_, .advance) => none

theorem DispatchRun.dispatched (run : DispatchRun flags labels (s : DispatchState B)) :
    s.shared.dispatched = dispatches labels := by
  induction run with
  | start => rfl
  | snoc earlier stepped ih =>
    obtain ⟨taken⟩ := stepped
    rw [dispatches, List.filterMap_append, ← dispatches, ← ih]
    generalize Interleaving.State.thread _ _ = thread at taken
    cases taken with
    | enqueue => rfl
    | drain =>
      simp only [Interleaving.State.set_shared, DispatchQueue.drain]
      split <;> exact (List.append_nil _).symm
    | _ => exact (List.append_nil _).symm

/-- How many workers are between `sem_wait` and `QueueDrain`. -/
def claims (s : DispatchState B) : Nat :=
  ((List.range s.shared.maxThreads).filter fun i => (s.thread i).claims).length

theorem claims_eq {s : DispatchState B} (own : ∀ i, OwnThread g s.shared i (s.thread i)) :
    claims s = g.claimed.card := by
  have same : ((List.range s.shared.maxThreads).filter fun i => (s.thread i).claims).toFinset =
      g.claimed := by
    ext i
    rw [List.mem_toFinset, List.mem_filter, List.mem_range, (own i).claimed]
    refine and_iff_right_of_imp fun claimed => (own i).worker.mp ?_
    cases thread : s.thread i <;> simp_all [DispatchThread.claims, DispatchThread.works]
  rw [claims, ← same, List.toFinset_card_of_nodup (List.nodup_range.filter _)]

/-- Every dispatched block is queued or taken by one worker, which calls the blocks it has
taken once each and one after another. A worker that has passed `sem_wait` finds a block,
and a serial queue calls all blocks in the order in which they were enqueued. -/
theorem dispatch_exactly_once (run : DispatchRun flags labels (s : DispatchState B)) :
    s.shared.dispatched = dispatches labels ∧ (s.shared.dispatched.map Prod.fst).Nodup ∧
    (∀ block ∈ s.shared.dispatched,
      (block ∈ s.shared.queue ∧ ∀ i, (i, block) ∉ s.shared.taken) ∨
        (block ∉ s.shared.queue ∧ ∃! i, (i, block) ∈ s.shared.taken)) ∧
    (∀ i, ∃ done, takenBy i s.shared.taken = done ++ (s.thread i).current.toList ∧
      callsBy i s.shared.calls = oneByOne i done ++ (s.thread i).open_ i) ∧
    (∀ i, s.thread i = .claimed → s.shared.queue ≠ []) ∧ (∀ i, s.thread i ≠ .obtained none) ∧
    s.shared.semaphore + claims s ≤ s.shared.queue.length ∧
    (flags &&& kDispatchQueueSerial ≠ 0 → ∃ done,
      s.shared.dispatched = done ++ (s.thread 0).current.toList ++ s.shared.queue ∧
      s.shared.calls = oneByOne 0 done ++ (s.thread 0).open_ 0) := by
  obtain ⟨g, shape, own⟩ := run.shape
  have count := shape.count
  have counted := claims_eq own
  have distinct : (s.shared.taken.map Prod.snd ++ s.shared.queue).Nodup :=
    shape.order ▸ shape.unique.of_map
  obtain ⟨takenOnce, _, apart⟩ := List.nodup_append.mp distinct
  refine ⟨run.dispatched, shape.unique, ?_, fun i => (own i).log, ?_, fun i => (own i).nonempty, ?_, ?_⟩
  · intro block mem
    rw [shape.order] at mem
    rcases List.mem_append.mp mem with taken | queued
    · obtain ⟨⟨i, _⟩, entry, rfl⟩ := List.mem_map.mp taken
      refine .inr ⟨fun queued => apart _ taken _ queued rfl, i, entry, ?_⟩
      intro j other
      exact congrArg Prod.fst (List.inj_on_of_nodup_map takenOnce other entry rfl)
    · exact .inl ⟨queued, fun i taken => apart _ (List.mem_map_of_mem taken) _ queued rfl⟩
  · intro i thread empty
    have mem : i ∈ g.claimed := (own i).claimed.mpr (by rw [thread]; rfl)
    have positive := Finset.card_pos.mpr ⟨i, mem⟩
    rw [empty, List.length_nil] at count
    omega
  · omega
  · intro serial
    have single : s.shared.maxThreads = 1 := run.maxThreads.trans (if_pos serial)
    obtain ⟨done, taken, calls⟩ := (own 0).log
    have all : takenBy 0 s.shared.taken = s.shared.taken.map Prod.snd := by
      rw [takenBy, List.filter_eq_self.mpr]
      intro p mem
      have := shape.takers p mem
      exact decide_eq_true (by omega)
    have allCalls : callsBy 0 s.shared.calls = s.shared.calls := by
      rw [callsBy, List.filter_eq_self.mpr]
      intro call mem
      have := shape.callers call mem
      exact decide_eq_true (by omega)
    refine ⟨done, ?_, allCalls.symm.trans calls⟩
    rw [shape.order, ← all, taken]

/-- A serial queue to which two blocks are dispatched, while its worker runs the first. -/
theorem dispatch_exactly_once_serial : ∃ s : DispatchState Char,
    s.thread 0 = .running (1, 'a') ∧ s.shared.queue = [(2, 'b')] ∧
      s.shared.semaphore + claims s ≤ s.shared.queue.length := by
  have first : DispatchRun kDispatchQueueSerial _ _ :=
    .snoc (.snoc .start (.mk (.enqueue : DispatchStep 1 (.dispatch 'a') _ _))) (.mk (i := 1) .post)
  have claimed := Transition.Run.snoc first (.mk (i := 0) (.wait (by decide)))
  have second := claimed.snoc (.mk (.enqueue : DispatchStep 2 (.dispatch 'b') _ _))
  have run : DispatchRun kDispatchQueueSerial _ _ :=
    .snoc (.snoc second (.mk (i := 0) .drain)) (.mk (i := 0) .call)
  exact ⟨_, rfl, rfl, (dispatch_exactly_once run).2.2.2.2.2.2.1⟩

end KommunikationNetze.Utils
