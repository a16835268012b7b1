import KommunikationNetze.Utils.QueuedDispatch

/-! The dispatch queue on its own queue does what it would do on an atomic one: a block is
enqueued when its node is linked and taken when `head` moves past it. A worker that has
passed `sem_wait` finds a block, although `QueueDrain` may return NULL. -/
namespace KommunikationNetze.Utils
open Transition Interleaving
variable {B : Type}

/-- What a call of the queue is for the dispatch queue on an atomic queue. -/
def QueueCall.seen : QueueCall (Dispatched B) → DispatchThread B
  | .enqueueSwing .. | .enqueued => .enqueued
  | .drainReadHead | .drainReadTail _ | .drainReadNext .. | .drainCompare .. | .drainHelp ..
  | .drainReadElement .. | .drainSwap .. => .claimed
  | .drainAssert _ _ e | .drainMark _ _ e | .drainFree _ e | .drained e => .obtained e
  | _ => .idle

def QueuedThread.seen : QueuedThread B → DispatchThread B
  | .idle => .idle
  | .inQueue _ call => call.seen
  | .enqueued => .enqueued
  | .over => .over
  | .waiting => .waiting
  | .obtained block => .obtained block
  | .running block => .running block

/-- The node of a thread in `QueueEnqueue` that has not linked it yet. -/
def QueuedThread.node? : QueuedThread B → Option NodeRef
  | .inQueue _ call => call.node?
  | _ => none

/-- The abstract state holds the values of the linked nodes that were not taken. -/
structure Refines (s : QueuedState B) (t : DispatchState B) : Prop where
  maxThreads : t.shared.maxThreads = s.shared.maxThreads
  semaphore : t.shared.semaphore = s.shared.semaphore
  calls : t.shared.calls = s.shared.calls
  queue : t.shared.queue.map some = s.shared.queue.contents
  dispatched : t.shared.dispatched.map some = s.shared.queue.linked.map Prod.snd
  thread : ∀ i, t.thread i = (s.thread i).seen

/-- A block that was dispatched is enqueued or in the node that its thread has not linked,
and no call has read that `head` has no successor. -/
structure Explained (labels : List (Nat × DispatchAction B)) (s : QueuedState B)
    (dispatched : List (Dispatched B)) : Prop where
  node : ∀ {i n call a}, s.thread i = .inQueue n call → call.node? = some a →
    ∃ block, (s.shared.queue.memory a).element = some (i, block) ∧ (i, .dispatch block) ∈ labels
  asked : ∀ p ∈ dispatched, (p.1, .dispatch p.2) ∈ labels
  kept : ∀ {i block}, (i, .dispatch block) ∈ labels → (i, block) ∈ dispatched ∨
    ∃ n call a, s.thread i = .inQueue n call ∧ call.node? = some a ∧
      (s.shared.queue.memory a).element = some (i, block)
  successor : ∀ {i n head tail}, s.thread i ≠ .inQueue n (.drainCompare head tail none)

section Call
variable {queue : Queue (Dispatched B)} {call : QueueCall (Dispatched B)} {g : QueueLayout} {c : Nat}

/-- A step of a call links its node, or takes a value, or is not seen. -/
theorem queueAdvance_seen (own : OwnCall g queue c call) (under : ¬call.Returned)
    (successor : ∀ head tail, call ≠ .drainCompare head tail none) :
    let after := queueAdvance c queue call
    (after.1.linked = queue.linked ∧ after.1.swapped = queue.swapped ∧
      after.2.seen = call.seen ∧ after.2.node? = call.node?) ∨
    (∃ node, call.node? = some node ∧ after.2.node? = none ∧ call.seen = .idle ∧
      after.2.seen = .enqueued ∧ after.1.swapped = queue.swapped ∧
      after.1.linked = queue.linked ++ [(c, (queue.memory node).element)]) ∨
    ∃ e, call.node? = none ∧ after.2.node? = none ∧ call.seen = .claimed ∧
      after.2.seen = .obtained e ∧ after.1.linked = queue.linked ∧
      after.1.swapped = queue.swapped ++ [(c, e)] := by
  intro after
  have move := queueAdvance_move c queue call
  change QueueMove c queue call after at move
  clear_value after
  cases move with
  | links => exact .inr (.inl ⟨_, rfl, rfl, rfl, rfl, rfl, rfl⟩)
  | swaps => exact .inr (.inr ⟨_, rfl, rfl, rfl, rfl, rfl, rfl⟩)
  | findsEmpty | noSuccessor => exact absurd rfl (successor _ _)
  | assertFails marked =>
    obtain ⟨_, _, _, _, clear⟩ := own
    rw [clear] at marked
    cases marked
  | enqueueHelp | enqueueSwing | drainHelp =>
    exact .inl ⟨Queue.swingTail_linked .., Queue.swingTail_swapped .., rfl, rfl⟩
  | enqueued | drained => exact absurd trivial under
  | _ => exact .inl ⟨rfl, rfl, rfl, rfl⟩

/-- A call that reads no successor of `head` has an empty queue before it. -/
theorem QueueShape.empty_of_next {first last : NodeRef} (shape : QueueShape g queue)
    (own : OwnCall g queue c (.drainReadNext first last)) (empty : (queue.memory first).next = none) :
    queue.contents = [] := by
  obtain ⟨_, i, j, passed, ordered, behind, found, _⟩ := own
  have length := shape.at_end found empty
  have inside := (List.getElem?_eq_some_iff.mp shape.tail).1
  have nodes := shape.order_length
  have last := shape.behind
  apply List.drop_eq_nil_of_le
  rw [List.length_map]
  omega

end Call

section Atomic
variable {g : DispatchGhost} {t : DispatchState B}

/-- A unit of the semaphore that a worker has taken stands for a block of the queue. -/
theorem DispatchRun.queue_ne_nil (run : DispatchRun flags labels t) (claimed : t.thread i = .claimed) :
    t.shared.queue ≠ [] := by
  obtain ⟨g, shape, own⟩ := run.shape
  have mem : i ∈ g.claimed := (own i).claimed.mpr (by rw [claimed]; rfl)
  have positive := Finset.card_pos.mpr ⟨i, mem⟩
  have count := shape.count
  intro empty
  rw [empty, List.length_nil] at count
  omega

end Atomic

section Set
variable {s : QueuedState B} {t t' : DispatchState B} {memory : QueuedDispatch B}
  {thread : QueuedThread B} {i : Nat}

/-- A step that is not seen. -/
theorem Refines.stutter (refines : Refines s t) (maxThreads : memory.maxThreads = s.shared.maxThreads)
    (semaphore : memory.semaphore = s.shared.semaphore) (calls : memory.calls = s.shared.calls)
    (linked : memory.queue.linked = s.shared.queue.linked)
    (swapped : memory.queue.swapped = s.shared.queue.swapped)
    (seen : thread.seen = (s.thread i).seen) : Refines (s.set i (memory, thread)) t where
  maxThreads := refines.maxThreads.trans maxThreads.symm
  semaphore := refines.semaphore.trans semaphore.symm
  calls := refines.calls.trans calls.symm
  queue := by
    rw [State.set_shared, Queue.contents, linked, swapped]
    exact refines.queue
  dispatched := by
    rw [State.set_shared, linked]
    exact refines.dispatched
  thread j := by
    by_cases same : j = i
    · subst same
      rw [State.set_thread_self, seen]
      exact refines.thread j
    · rw [State.set_thread_of_ne same]
      exact refines.thread j

/-- The threads of a step that both systems take. -/
theorem Refines.thread_set (refines : Refines s t) (thread : QueuedThread B)
    (shared : DispatchQueue B) (j : Nat) :
    (t.set i (shared, thread.seen)).thread j = ((s.set i (memory, thread)).thread j).seen := by
  by_cases same : j = i
  · subst same
    rw [State.set_thread_self, State.set_thread_self]
  · rw [State.set_thread_of_ne same, State.set_thread_of_ne same]
    exact refines.thread j

/-- A step with which the thread dispatches no block. -/
theorem Explained.advance {labels : List (Nat × DispatchAction B)} {before after : List (Dispatched B)}
    (explained : Explained labels s before)
    (element : ∀ {j n call a}, s.thread j = .inQueue n call → call.node? = some a →
      (memory.queue.memory a).element = (s.shared.queue.memory a).element)
    (node : ∀ {n call a}, thread = .inQueue n call → call.node? = some a →
      ∃ n call, s.thread i = .inQueue n call ∧ call.node? = some a)
    (enqueued : before ⊆ after)
    (asked : ∀ p ∈ after, p ∈ before ∨ ∃ n call a, s.thread i = .inQueue n call ∧
      call.node? = some a ∧ (s.shared.queue.memory a).element = some p)
    (kept : ∀ {n call a block}, s.thread i = .inQueue n call → call.node? = some a →
      (s.shared.queue.memory a).element = some (i, block) → (i, block) ∈ after ∨
        ∃ n call, thread = .inQueue n call ∧ call.node? = some a)
    (successor : ∀ {n head tail}, thread ≠ .inQueue n (.drainCompare head tail none)) :
    Explained (labels ++ [(i, .advance)]) (s.set i (memory, thread)) after := by
  have earlier : ∀ {j block}, (j, DispatchAction.dispatch block) ∈ labels ++ [(i, .advance)] →
      (j, .dispatch block) ∈ labels := by
    intro j block mem
    simpa using mem
  refine ⟨?_, ?_, ?_, ?_⟩
  · intro j n call a here held
    rw [State.set_shared]
    by_cases same : j = i
    · subst same
      rw [State.set_thread_self] at here
      obtain ⟨n, call, there, before⟩ := node here held
      obtain ⟨block, stored, mem⟩ := explained.node there before
      exact ⟨block, (element there before).trans stored, List.mem_append_left _ mem⟩
    · rw [State.set_thread_of_ne same] at here
      obtain ⟨block, stored, mem⟩ := explained.node here held
      exact ⟨block, (element here held).trans stored, List.mem_append_left _ mem⟩
  · intro p mem
    apply List.mem_append_left
    rcases asked p mem with old | ⟨n, call, a, here, held, stored⟩
    · exact explained.asked p old
    · obtain ⟨block, same, asked⟩ := explained.node here held
      obtain rfl := Option.some.inj (stored.symm.trans same)
      exact asked
  · intro j block mem
    rw [State.set_shared]
    rcases explained.kept (earlier mem) with done | ⟨n, call, a, here, held, stored⟩
    · exact .inl (enqueued done)
    · by_cases same : j = i
      · subst same
        rcases kept here held stored with done | ⟨n', call', there, still⟩
        · exact .inl done
        · refine .inr ⟨n', call', a, ?_, still, (element here held).trans stored⟩
          rw [State.set_thread_self]
          exact there
      · refine .inr ⟨n, call, a, ?_, held, (element here held).trans stored⟩
        rw [State.set_thread_of_ne same]
        exact here
  · intro j n head tail
    by_cases same : j = i
    · subst same
      rw [State.set_thread_self]
      exact successor
    · rw [State.set_thread_of_ne same]
      exact explained.successor

/-- A step with which the thread leaves the queue, enters `QueueDrain` or does neither. -/
theorem Explained.outside {labels : List (Nat × DispatchAction B)} {dispatched : List (Dispatched B)}
    (explained : Explained labels s dispatched) (queue : memory.queue = s.shared.queue)
    (unheld : (s.thread i).node? = none) (new : ∀ {n call}, thread = .inQueue n call → call = .drainReadHead) :
    Explained (labels ++ [(i, .advance)]) (s.set i (memory, thread)) dispatched := by
  refine explained.advance (fun _ _ => by rw [queue]) (fun here held => ?_) (List.Subset.refl _)
    (fun p mem => .inl mem) (fun here held => ?_) (fun {_ head tail} here => ?_)
  · rw [new here] at held
    cases held
  · rw [here, QueuedThread.node?, held] at unheld
    cases unheld
  · cases new here

/-- `Dispatch` begins: its block is in a node that is not linked yet. -/
theorem Explained.dispatch {labels : List (Nat × DispatchAction B)} {dispatched : List (Dispatched B)}
    (explained : Explained labels s dispatched) (idle : s.thread i = .idle)
    (allocated : ∀ {j n call a}, s.thread j = .inQueue n call → call.node? = some a →
      a < s.shared.queue.allocated) :
    Explained (labels ++ [(i, .dispatch block)])
      (s.set i (s.shared.begin (queueEnqueue s.shared.queue (some (i, block))).1,
        .inQueue s.shared.begun (queueEnqueue s.shared.queue (some (i, block))).2)) dispatched := by
  have kept : ∀ {j n call a}, s.thread j = .inQueue n call → call.node? = some a →
      ((queueEnqueue s.shared.queue (some (i, block))).1.memory a).element =
        (s.shared.queue.memory a).element := by
    intro j n call a here held
    have old := Nat.ne_of_lt (allocated here held)
    simp only [queueEnqueue, Queue.store_memory, Function.update_of_ne old]
  refine ⟨?_, ?_, ?_, ?_⟩
  · intro j n call a here held
    rw [State.set_shared]
    by_cases same : j = i
    · subst same
      rw [State.set_thread_self] at here
      obtain ⟨rfl, rfl⟩ := QueuedThread.inQueue.inj here
      obtain rfl := Option.some.inj held
      refine ⟨block, ?_, by simp⟩
      simp [QueuedDispatch.begin, queueEnqueue]
    · rw [State.set_thread_of_ne same] at here
      obtain ⟨block, stored, mem⟩ := explained.node here held
      exact ⟨block, (kept here held).trans stored, List.mem_append_left _ mem⟩
  · exact fun p mem => List.mem_append_left _ (explained.asked p mem)
  · intro j other mem
    rw [State.set_shared]
    rcases List.mem_append.mp mem with old | new
    · rcases explained.kept old with done | ⟨n, call, a, here, held, stored⟩
      · exact .inl done
      · have different : j ≠ i := by
          rintro rfl
          rw [idle] at here
          cases here
        refine .inr ⟨n, call, a, ?_, held, (kept here held).trans stored⟩
        rw [State.set_thread_of_ne different]
        exact here
    · simp only [List.mem_singleton, Prod.mk.injEq, DispatchAction.dispatch.injEq] at new
      obtain ⟨rfl, rfl⟩ := new
      refine .inr ⟨_, _, _, State.set_thread_self, rfl, ?_⟩
      simp [QueuedDispatch.begin, queueEnqueue]
  · intro j n head tail
    by_cases same : j = i
    · subst same
      rw [State.set_thread_self]
      intro here
      cases here
    · rw [State.set_thread_of_ne same]
      exact explained.successor

end Set

/-- What holds of the two systems after every run. -/
def Refinement (labels : List (Nat × DispatchAction B)) (s : QueuedState B)
    (_ : List (Nat × DispatchAction B)) (t : DispatchState B) : Prop :=
  Refines s t ∧ Explained labels s t.shared.dispatched

section Matching
variable {flags : BitVec 32} {labels atomic : List (Nat × DispatchAction B)} {s : QueuedState B}
  {t : DispatchState B} {i : Nat}

/-- The steps inside the queue. -/
theorem refinement_inside (run : QueuedRun flags labels s) (other : DispatchRun flags atomic t)
    (related : Refinement labels s atomic t) (here : s.thread i = .inQueue n call)
    (under : ¬call.Returned) :
    ∃ ns t', Run (Interleaving.Step DispatchStep) t ns t' ∧
      Refinement (labels ++ [(i, .advance)])
        (s.set i ({ s.shared with queue := (queueAdvance n s.shared.queue call).1 },
          .inQueue n (queueAdvance n s.shared.queue call).2)) (atomic ++ ns) t' := by
  obtain ⟨refines, explained⟩ := related
  obtain ⟨calls, q, qrun, projects⟩ := run.projects
  obtain ⟨g, shape, own⟩ := qrun.shape
  rw [projects.shared] at shape own
  have owned : ∀ {j m call}, s.thread j = .inQueue m call → OwnCall g s.shared.queue m call := by
    intro j m call there
    have known := own m
    rwa [(projects.thread there).2] at known
  have seen := refines.thread i
  rw [here] at seen
  obtain ⟨g', shape', mine, leaves⟩ := queueAdvance_preserves shape (owned here)
  have element : ∀ {j m call a}, s.thread j = .inQueue m call → call.node? = some a →
      ((queueAdvance n s.shared.queue _).1.memory a).element = (s.shared.queue.memory a).element :=
    fun there held => leaves.element ((owned there).node held).allocated
  have successor : ∀ {m head tail}, QueuedThread.inQueue n (queueAdvance n s.shared.queue call).2 ≠
      .inQueue m (.drainCompare head tail none) := by
    intro m head tail read
    obtain ⟨rfl, empty⟩ := queueAdvance_compare (QueuedThread.inQueue.inj read).2
    have nothing := shape.empty_of_next (owned here) empty
    rw [← refines.queue, List.map_eq_nil_iff] at nothing
    exact other.queue_ne_nil seen nothing
  have before := shape.swapped_contents
  have after := shape'.swapped_contents
  rcases queueAdvance_seen (owned here) under (fun head tail same => explained.successor (same ▸ here)) with
    ⟨linked, swapped, same, node⟩ | ⟨a, held, gone, idle, posted, swapped, linked⟩ |
      ⟨e, unheld, gone, claimed, obtained, linked, swapped⟩
  · refine ⟨[], t, .start, refines.stutter rfl rfl rfl linked swapped ?_, ?_⟩
    · rw [here]
      exact same
    · refine explained.advance element ?_ (List.Subset.refl _) (fun p mem => .inl mem) ?_ successor
      · intro m call a there held
        obtain ⟨rfl, rfl⟩ := QueuedThread.inQueue.inj there
        exact ⟨_, _, here, node ▸ held⟩
      · intro m call a block there held stored
        rw [here] at there
        obtain ⟨rfl, rfl⟩ := QueuedThread.inQueue.inj there
        exact .inr ⟨_, _, rfl, node.trans held⟩
  · obtain ⟨block, stored, asked⟩ := explained.node here held
    have enqueues : DispatchStep i (.dispatch block) (t.shared, t.thread i)
        (t.shared.enqueue i block, QueueCall.seen (queueAdvance n s.shared.queue call).2) := by
      rw [seen, QueuedThread.seen, idle, posted]
      exact .enqueue
    refine ⟨_, _, .single (.mk enqueues), ⟨refines.maxThreads, refines.semaphore, refines.calls, ?_, ?_,
      fun j => refines.thread_set (.inQueue n _) _ j⟩, ?_⟩
    · rw [linked, swapped, List.map_append, ← before, List.append_assoc] at after
      rw [State.set_shared, State.set_shared, List.append_cancel_left after, DispatchQueue.enqueue,
        List.map_append, refines.queue, stored]
      rfl
    · rw [State.set_shared, State.set_shared, linked, DispatchQueue.enqueue, List.map_append,
        refines.dispatched, List.map_append, stored]
      rfl
    · refine explained.advance element ?_ (List.subset_append_left _ _) ?_ ?_ successor
      · intro m call a there none
        obtain ⟨rfl, rfl⟩ := QueuedThread.inQueue.inj there
        rw [gone] at none
        cases none
      · intro p mem
        rcases List.mem_append.mp mem with old | new
        · exact .inl old
        · obtain rfl := List.mem_singleton.mp new
          exact .inr ⟨_, _, _, here, held, stored⟩
      · intro m call b block' there held' stored'
        rw [here] at there
        obtain ⟨rfl, rfl⟩ := QueuedThread.inQueue.inj there
        obtain rfl := Option.some.inj (held.symm.trans held')
        obtain ⟨_, rfl⟩ := Prod.mk.inj (Option.some.inj (stored.symm.trans stored'))
        exact .inl (List.mem_append_right _ (List.mem_singleton_self _))
  · rw [linked, swapped, List.map_append, ← before, List.append_assoc] at after
    have first : e :: (queueAdvance n s.shared.queue call).1.contents = t.shared.queue.map some := by
      rw [refines.queue]
      exact List.append_cancel_left after
    obtain ⟨block, rest, held, rfl, remaining⟩ := List.map_eq_cons_iff.mp first.symm
    have drained : t.shared.drain i =
        ({ t.shared with queue := rest, taken := t.shared.taken ++ [(i, block)] }, some block) := by
      simp only [DispatchQueue.drain, held]
    have drains : DispatchStep i .advance (t.shared, t.thread i)
        ((t.shared.drain i).1, QueueCall.seen (queueAdvance n s.shared.queue call).2) := by
      rw [seen, QueuedThread.seen, claimed, obtained, drained]
      have step : DispatchStep i .advance (t.shared, .claimed)
          ((t.shared.drain i).1, .obtained (t.shared.drain i).2) := .drain
      rwa [drained] at step
    refine ⟨_, _, .single (.mk drains), ⟨?_, ?_, ?_, ?_, ?_,
      fun j => refines.thread_set (.inQueue n _) _ j⟩, ?_⟩
    · rw [State.set_shared, drained]
      exact refines.maxThreads
    · rw [State.set_shared, drained]
      exact refines.semaphore
    · rw [State.set_shared, drained]
      exact refines.calls
    · rw [State.set_shared, drained]
      exact remaining
    · rw [State.set_shared, drained, State.set_shared, linked]
      exact refines.dispatched
    · rw [State.set_shared, drained]
      refine explained.advance element ?_ (List.Subset.refl _) (fun p mem => .inl mem) ?_ successor
      · intro m call a there none
        obtain ⟨rfl, rfl⟩ := QueuedThread.inQueue.inj there
        rw [gone] at none
        cases none
      · intro m call a block' there held' _
        rw [here] at there
        obtain ⟨rfl, rfl⟩ := QueuedThread.inQueue.inj there
        rw [unheld] at held'
        cases held'

theorem refinement_matched (flags : BitVec 32) :
    Matched (Interleaving.Step QueuedStep) (Interleaving.Step DispatchStep) (queuedInitial (B := B) flags)
      (dispatchInitial flags) Refinement := by
  intro labels s atomic t label s' run other related stepped
  obtain ⟨refines, explained⟩ := related
  obtain ⟨calls, q, qrun, projects⟩ := QueuedRun.projects run
  obtain ⟨taken⟩ := stepped
  rename_i i action next
  have seen := refines.thread i
  generalize here : s.thread i = thread at taken seen
  cases taken with
  | enqueue =>
    refine ⟨[], t, .start, refines.stutter rfl rfl rfl rfl rfl (by rw [here]; rfl), ?_⟩
    refine explained.dispatch here fun {_ n _ _} there held => ?_
    obtain ⟨g, shape, own⟩ := qrun.shape
    have known := own n
    rw [(projects.thread there).2, projects.shared] at known
    exact (known.node held).allocated
  | inside under => exact refinement_inside run other ⟨refines, explained⟩ here under
  | enqueued | drained =>
    refine ⟨[], t, .start, refines.stutter rfl rfl rfl rfl rfl (by rw [here]; rfl), ?_⟩
    exact explained.outside rfl (by rw [here]; rfl) nofun
  | post =>
    have posts : DispatchStep i .advance (t.shared, t.thread i) (t.shared.semPost, .over) :=
      seen ▸ .post
    refine ⟨_, _, .single (.mk posts), ⟨refines.maxThreads, ?_, refines.calls, refines.queue,
      refines.dispatched, refines.thread_set .over _⟩, ?_⟩
    · exact congrArg (· + 1) refines.semaphore
    · exact explained.outside rfl (by rw [here]; rfl) nofun
  | wait positive =>
    have waits : DispatchStep i .advance (t.shared, t.thread i) (t.shared.semWait, .claimed) :=
      seen ▸ .wait (refines.semaphore ▸ positive)
    refine ⟨_, _, .single (.mk waits), ⟨refines.maxThreads, ?_, refines.calls, refines.queue,
      refines.dispatched, refines.thread_set (.inQueue _ .drainReadHead) _⟩, ?_⟩
    · exact congrArg (· - 1) refines.semaphore
    · refine explained.outside rfl (by rw [here]; rfl) fun same => ?_
      exact (QueuedThread.inQueue.inj same).2.symm
  | skip =>
    have skips : DispatchStep i .advance (t.shared, t.thread i) (t.shared, .waiting) := seen ▸ .skip
    refine ⟨_, _, .single (.mk skips), ⟨refines.maxThreads, refines.semaphore, refines.calls,
      refines.queue, refines.dispatched, refines.thread_set .waiting _⟩, ?_⟩
    exact explained.outside rfl (by rw [here]; rfl) nofun
  | call =>
    rename_i block
    have calls : DispatchStep i .advance (t.shared, t.thread i)
        (t.shared.record (.began i block), .running block) := seen ▸ .call
    refine ⟨_, _, .single (.mk calls), ⟨refines.maxThreads, refines.semaphore, ?_, refines.queue,
      refines.dispatched, refines.thread_set (.running block) _⟩, ?_⟩
    · exact congrArg (· ++ [.began i block]) refines.calls
    · exact explained.outside rfl (by rw [here]; rfl) nofun
  | release =>
    rename_i block
    have releases : DispatchStep i .advance (t.shared, t.thread i)
        (t.shared.record (.returned i block), .waiting) := seen ▸ .release
    refine ⟨_, _, .single (.mk releases), ⟨refines.maxThreads, refines.semaphore, ?_, refines.queue,
      refines.dispatched, refines.thread_set .waiting _⟩, ?_⟩
    · exact congrArg (· ++ [.returned i block]) refines.calls
    · exact explained.outside rfl (by rw [here]; rfl) nofun

/-- Every run of the dispatch queue on its lock-free queue is one on an atomic FIFO, with the
same calls of blocks and the same semaphore. No worker gets NULL from `QueueDrain`, no call
of the queue fails, and a block that was dispatched is in the FIFO's record, or in the node
that its thread is about to link. -/
theorem dispatch_refines (run : QueuedRun flags labels (s : QueuedState B)) :
    (∃ atomic t, DispatchRun flags atomic t ∧ Refines s t ∧
      (∀ p ∈ t.shared.dispatched, (p.1, .dispatch p.2) ∈ labels) ∧
      ∀ i block, (i, .dispatch block) ∈ labels → (i, block) ∈ t.shared.dispatched ∨
        ∃ a, (s.thread i).node? = some a ∧
          (s.shared.queue.memory a).element = some (i, block)) ∧
    ∀ i, s.thread i ≠ .obtained none ∧
      ∀ n, s.thread i ≠ .inQueue n (.drained none) ∧ s.thread i ≠ .inQueue n .aborted := by
  have initial : Refinement [] (queuedInitial (B := B) flags) [] (dispatchInitial flags) := by
    refine ⟨⟨rfl, rfl, rfl, rfl, rfl, fun i => ?_⟩, ?_, nofun, nofun, ?_⟩
    · have same : (queuedCreate (B := B) flags).maxThreads =
          (dispatchQueueCreate (B := B) flags).maxThreads := rfl
      simp only [dispatchInitial, queuedInitial, same]
      split <;> rfl
    · intro i n call a here
      simp only [queuedInitial] at here
      split at here <;> cases here
    · intro i n head tail here
      simp only [queuedInitial] at here
      split at here <;> cases here
  obtain ⟨atomic, t, other, refines, explained⟩ := run.simulated initial (refinement_matched flags)
  obtain ⟨calls, q, qrun, projects⟩ := run.projects
  obtain ⟨_, _, own⟩ := DispatchRun.shape other
  obtain ⟨_, _, owned⟩ := qrun.shape
  have something : ∀ i, (s.thread i).seen ≠ .obtained none := by
    intro i
    rw [← refines.thread i]
    exact (own i).nonempty
  refine ⟨⟨atomic, t, other, refines, explained.asked, fun i block mem => ?_⟩, fun i => ⟨?_, fun n => ⟨?_, ?_⟩⟩⟩
  · rcases explained.kept mem with done | ⟨n, call, a, here, held, stored⟩
    · exact .inl done
    · refine .inr ⟨a, ?_, stored⟩
      rw [here]
      exact held
  · intro here
    exact something i (by rw [here]; rfl)
  · intro here
    exact something i (by rw [here]; rfl)
  · intro here
    have known := owned n
    rw [(projects.thread here).2] at known
    exact known

end Matching

/-- The thread of a call of `Dispatch` has linked the node of its block. -/
theorem dispatch_refines_single : ∃ s : QueuedState Char, s.thread 10 = .inQueue 0 (.enqueueSwing 1 0) ∧
    ∃ (atomic : List (Nat × DispatchAction Char)) (t : DispatchState Char),
      DispatchRun 0 atomic t ∧ t.shared.queue.map some = [some (10, 'a')] := by
  have begun : QueuedRun 0 _ _ :=
    .single (.mk (.enqueue : QueuedStep 10 (.dispatch 'a') (queuedCreate 0, .idle) _))
  obtain ⟨labels, s, linked, thread, contents⟩ : ∃ labels s, QueuedRun 0 labels s ∧
      s.thread 10 = .inQueue 0 (.enqueueSwing 1 0) ∧ s.shared.queue.contents = [some (10, 'a')] :=
    ⟨_, _, (((begun.snoc (.mk (i := 10) (.inside nofun))).snoc (.mk (i := 10) (.inside nofun))).snoc
      (.mk (i := 10) (.inside nofun))).snoc (.mk (i := 10) (.inside nofun)), rfl, rfl⟩
  obtain ⟨⟨atomic, t, run, refines, _⟩, _⟩ := dispatch_refines linked
  exact ⟨s, thread, atomic, t, run, refines.queue.trans contents⟩

end KommunikationNetze.Utils
