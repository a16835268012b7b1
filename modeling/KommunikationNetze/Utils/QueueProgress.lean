import KommunikationNetze.Library.Retries
import KommunikationNetze.Utils.QueueLinearizable

/-! The queue is lock-free. A call starts its loop over only when a compare-and-swap has
succeeded since it last read `head` or `tail`, and there are three for each value. -/
namespace KommunikationNetze.Utils
open Transition
variable {V : Type}

/-- One of the compare-and-swaps succeeds: a node is linked, or `head` or `tail` moves. -/
def Succeeds (s : QueueState V) (_ : Nat × QueueAction V) (t : QueueState V) : Prop :=
  t.shared.linked ≠ s.shared.linked ∨ t.shared.head ≠ s.shared.head ∨ t.shared.tail ≠ s.shared.tail

namespace QueueCall

def Returned : QueueCall V → Prop
  | .enqueued | .drained _ => True
  | _ => False

/-- The call is at the head of its loop for the first time. -/
def Begun : QueueCall V → Prop
  | .enqueueReadTail _ | .drainReadHead => True
  | _ => False

/-- How many steps the call has left, when every compare-and-swap it tries succeeds. -/
def rank : QueueCall V → Nat
  | .drainReadHead => 9
  | .drainReadTail _ => 8
  | .drainReadNext .. => 7
  | .drainCompare .. => 6
  | .drainReadElement .. | .enqueueReadTail _ => 5
  | .drainHelp .. | .drainSwap .. | .enqueueReadNext .. => 4
  | .drainAssert .. | .enqueueCompare .. => 3
  | .drainMark .. | .enqueueLink .. | .enqueueHelp .. => 2
  | .drainFree .. | .enqueueSwing .. => 1
  | .idle | .enqueued | .drained _ | .aborted => 0

/-- What the call has read of the queue still holds. -/
def Current (queue : Queue V) : QueueCall V → Prop
  | .enqueueReadNext _ tail | .enqueueHelp _ tail _ | .drainHelp tail _ => tail = queue.tail
  | .enqueueCompare _ tail next => tail = queue.tail ∧ next = (queue.memory tail).next
  | .enqueueLink _ tail => (queue.memory tail).next = none
  | .drainReadTail head | .drainReadElement head _ | .drainSwap head _ _ => head = queue.head
  | .drainReadNext head tail | .drainCompare head tail _ => head = queue.head ∧ tail = queue.tail
  | _ => True

end QueueCall

section Step
variable {g : QueueLayout} {queue : Queue V} {call : QueueCall V} {c : Nat}

/-- A node keeps its successor in every step that links no node. -/
theorem queueAdvance_next (unlinked : (queueAdvance c queue call).1.linked = queue.linked)
    (a : NodeRef) : ((queueAdvance c queue call).1.memory a).next = (queue.memory a).next := by
  have move := queueAdvance_move c queue call
  generalize queueAdvance c queue call = after at move unlinked ⊢
  cases move with
  | links =>
    have longer := congrArg List.length unlinked
    simp [Queue.link] at longer
  | @marks head next element =>
    by_cases same : a = next
    · subst same
      simp only [Queue.store_memory, Function.update_self]
    · simp only [Queue.store_memory, Function.update_of_ne same]
  | @frees head element =>
    by_cases same : a = head
    · subst same
      simp only [Queue.store_memory, Function.update_self]
    · simp only [Queue.store_memory, Function.update_of_ne same]
  | enqueueHelp | enqueueSwing | drainHelp => rw [Queue.swingTail_memory]
  | _ => rfl

/-- What a call has read holds as long as `head`, `tail` and the successors stay. -/
theorem QueueCall.Current.mono {after : Queue V} (current : call.Current queue)
    (tail : after.tail = queue.tail) (head : after.head = queue.head)
    (next : ∀ {i a}, g.At i a → (after.memory a).next = (queue.memory a).next)
    (own : OwnCall g queue c call) : call.Current after := by
  cases call with
  | enqueueReadNext | enqueueHelp | drainHelp => exact Eq.trans current tail.symm
  | enqueueCompare =>
    obtain ⟨_, i, _, found, _⟩ := own
    exact ⟨current.1.trans tail.symm, current.2.trans (next found).symm⟩
  | enqueueLink =>
    obtain ⟨_, i, _, found⟩ := own
    exact Eq.trans (next found) current
  | drainReadTail | drainReadElement | drainSwap => exact Eq.trans current head.symm
  | drainReadNext | drainCompare => exact ⟨current.1.trans head.symm, current.2.trans tail.symm⟩
  | _ => trivial

/-- Helping moves `tail`, if it has not moved since it was read. -/
theorem QueueShape.swingTail_moves (shape : QueueShape g queue) (found : g.At i queue.tail)
    (follows : g.At (i + 1) b) : (queue.swingTail queue.tail b).tail ≠ queue.tail := by
  rw [Queue.swingTail, if_pos rfl]
  rintro rfl
  have same := shape.position found follows
  omega

/-- A step of the call is one of an attempt that goes on, or the attempt has failed because
it was overtaken. -/
theorem queueAdvance_attempt (shape : QueueShape g queue) (own : OwnCall g queue c call)
    (under : ¬call.Returned) (begun : call ≠ .idle) :
    let after := queueAdvance c queue call
    (after.2.rank < call.rank ∧ (call.Current queue → after.1.linked = queue.linked →
      after.1.head = queue.head → after.1.tail = queue.tail → after.2.Current after.1)) ∨
    (after.2.rank < call.rank + 6 ∧ after.2.Current after.1 ∧ (call.Current queue →
      after.1.tail ≠ queue.tail)) := by
  intro after
  have move := queueAdvance_move c queue call
  change QueueMove c queue call after at move
  clear_value after
  cases move with
  | enqueueReadTail | drainReadHead => exact .inl ⟨by simp [QueueCall.rank], fun _ _ _ _ => rfl⟩
  | enqueueReadNext => exact .inl ⟨by simp [QueueCall.rank], fun current _ _ _ => ⟨current, rfl⟩⟩
  | atEnd => exact .inl ⟨by simp [QueueCall.rank], fun current _ _ _ => current.2.symm⟩
  | tailLags => exact .inl ⟨by simp [QueueCall.rank], fun current _ _ _ => current.1⟩
  | tailMoved stale => exact .inr ⟨by simp [QueueCall.rank], trivial, fun current => absurd current.1 stale⟩
  | links => exact .inl ⟨by simp [QueueCall.rank], fun _ _ _ _ => trivial⟩
  | overtaken taken => exact .inr ⟨by simp [QueueCall.rank], trivial, fun current => absurd current taken⟩
  | enqueueHelp =>
    obtain ⟨_, i, found, follows⟩ := own
    refine .inr ⟨by simp [QueueCall.rank], trivial, fun current => ?_⟩
    obtain rfl : _ = queue.tail := current
    exact shape.swingTail_moves found follows
  | enqueueSwing => exact .inl ⟨by simp [QueueCall.rank], fun _ _ _ _ => trivial⟩
  | drainReadTail => exact .inl ⟨by simp [QueueCall.rank], fun current _ _ _ => ⟨current, rfl⟩⟩
  | drainReadNext => exact .inl ⟨by simp [QueueCall.rank], fun current _ _ _ => current⟩
  | findsEmpty => exact .inl ⟨by simp [QueueCall.rank], fun _ _ _ _ => trivial⟩
  | behindTail => exact .inl ⟨by simp [QueueCall.rank], fun current _ _ _ => current.2⟩
  | noSuccessor => exact .inl ⟨by simp [QueueCall.rank], fun _ _ _ _ => trivial⟩
  | successor => exact .inl ⟨by simp [QueueCall.rank], fun current _ _ _ => current.1⟩
  | headMoved stale => exact .inr ⟨by simp [QueueCall.rank], trivial, fun current => absurd current.1 stale⟩
  | drainHelp =>
    obtain ⟨_, i, found, follows⟩ := own
    refine .inr ⟨by simp [QueueCall.rank], trivial, fun current => ?_⟩
    obtain rfl : _ = queue.tail := current
    exact shape.swingTail_moves found follows
  | drainReadElement => exact .inl ⟨by simp [QueueCall.rank], fun current _ _ _ => current⟩
  | swaps => exact .inl ⟨by simp [QueueCall.rank], fun _ _ _ _ => trivial⟩
  | tooLate stale => exact .inr ⟨by simp [QueueCall.rank], trivial, fun current => absurd current.symm stale⟩
  | assertFails => exact .inl ⟨by simp [QueueCall.rank], fun _ _ _ _ => trivial⟩
  | asserts | marks | frees => exact .inl ⟨by simp [QueueCall.rank], fun _ _ _ _ => trivial⟩
  | idle => exact absurd rfl begun
  | enqueued | drained => exact absurd trivial under
  | aborted => exact own.elim

end Step

section Run
variable {s t m : QueueState V} {labels : List (Nat × QueueAction V)} {c : Nat}

/-- The queue is in shape, and the call has begun. -/
def UnderWay (c : Nat) (s : QueueState V) : Prop :=
  (∃ g, QueueShape g s.shared ∧ ∀ d, OwnCall g s.shared d (s.thread d)) ∧ s.thread c ≠ .idle

theorem UnderWay.step (good : UnderWay c s) (stepped : Interleaving.Step QueueStep s label t) :
    UnderWay c t := by
  obtain ⟨shaped, begun⟩ := good
  refine ⟨stepped.owned queue_preserves shaped, ?_⟩
  obtain ⟨taken⟩ := stepped
  rename_i d action next
  by_cases same : c = d
  · subst same
    rw [Interleaving.State.set_thread_self]
    generalize s.thread c = call at taken begun
    cases taken with
    | enqueue => nofun
    | drain => nofun
    | advance =>
      have move := queueAdvance_move c s.shared call
      generalize queueAdvance c s.shared call = after at move ⊢
      cases move <;> first | exact begun | nofun
  · rw [Interleaving.State.set_thread_of_ne same]
    exact begun

theorem QueueShape.next_of_step {g : QueueLayout} (shape : QueueShape g s.shared)
    (stepped : Interleaving.Step QueueStep s label t) (unlinked : t.shared.linked = s.shared.linked)
    (found : g.At i a) : (t.shared.memory a).next = (s.shared.memory a).next := by
  obtain ⟨taken⟩ := stepped
  rename_i d action next
  rw [Interleaving.State.set_shared] at unlinked ⊢
  generalize s.thread d = call at taken
  cases taken with
  | enqueue =>
    have old := shape.allocated a (List.mem_of_getElem? found)
    simp only [queueEnqueue, Queue.store_memory, Function.update_of_ne (Nat.ne_of_lt old)]
  | drain => rfl
  | advance => exact queueAdvance_next unlinked a

theorem not_succeeds {label : Nat × QueueAction V} (failed : ¬Succeeds s label t) :
    t.shared.linked = s.shared.linked ∧ t.shared.head = s.shared.head ∧
      t.shared.tail = s.shared.tail := by
  simpa only [Succeeds, ne_eq, not_or, not_not] using failed

/-- A call of the queue starts over only when a compare-and-swap has succeeded meanwhile. -/
theorem queue_retries (c : Nat) :
    Retries (Interleaving.Step QueueStep) (Succeeds (V := V)) (fun label => label.1 == c) (UnderWay c)
      (fun s => (s.thread c).Current s.shared) (fun s => (s.thread c).Returned)
      (fun s => (s.thread c).rank) 6 where
  kept good stepped := good.step stepped
  lasting := by
    intro s label t _ stepped returned
    obtain ⟨taken⟩ := stepped
    rename_i d action next
    by_cases same : c = d
    · subst same
      rw [Interleaving.State.set_thread_self]
      generalize s.thread c = call at taken returned
      cases taken with
      | enqueue => exact returned.elim
      | drain => exact returned.elim
      | advance => cases call <;> first | exact returned | exact returned.elim
    · rw [Interleaving.State.set_thread_of_ne same]
      exact returned
  others := by
    intro s label t good stepped other
    obtain ⟨⟨g, shape, own⟩, _⟩ := good
    have kept : t.thread c = s.thread c := by
      obtain ⟨taken⟩ := stepped
      apply Interleaving.State.set_thread_of_ne
      rintro rfl
      simp at other
    rw [kept]
    refine ⟨Nat.le_refl _, fun current failed => ?_⟩
    obtain ⟨linked, head, tail⟩ := not_succeeds failed
    exact current.mono tail head (shape.next_of_step stepped linked) (own c)
  own := by
    intro s label t good stepped mine before after
    obtain ⟨⟨g, shape, own⟩, begun⟩ := good
    obtain ⟨taken⟩ := stepped
    rename_i d action next
    obtain rfl : d = c := by simpa using mine
    have owned := own d
    generalize called : s.thread d = call at taken before begun owned
    rw [Interleaving.State.set_thread_self, Interleaving.State.set_shared]
    cases taken with
    | enqueue => exact absurd rfl begun
    | drain => exact absurd rfl begun
    | advance =>
      rcases queueAdvance_attempt shape owned before begun with ⟨nearer, still⟩ | ⟨near, renewed, only⟩
      · refine .inl ⟨nearer, fun current failed => ?_⟩
        obtain ⟨linked, head, tail⟩ := not_succeeds failed
        exact still current linked head tail
      · refine .inr ⟨near, renewed, fun current => ?_⟩
        exact .inr (.inr (only current))

/-- How far the queue has come: the values linked, the values taken and the nodes `tail`
has passed. -/
def Progressed (s : QueueState V) (k : Nat) : Prop :=
  ∃ g, QueueShape g s.shared ∧ (∀ d, OwnCall g s.shared d (s.thread d)) ∧
    k = s.shared.linked.length + s.shared.swapped.length + g.last

theorem QueueShape.step {g : QueueLayout} (shape : QueueShape g s.shared)
    (own : ∀ d, OwnCall g s.shared d (s.thread d)) (stepped : Interleaving.Step QueueStep s (c, action) t) :
    ∃ g', QueueShape g' t.shared ∧ (∀ d, OwnCall g' t.shared d (t.thread d)) ∧
      Leaves c g g' s.shared t.shared := by
  obtain ⟨taken⟩ := stepped
  rename_i next
  have owned := own c
  generalize s.thread c = call at taken owned
  have set : ∀ {g'}, QueueShape g' next.1 → OwnCall g' next.1 c next.2 →
      Leaves c g g' s.shared next.1 → ∃ g', QueueShape g' (s.set c next).shared ∧
        (∀ d, OwnCall g' (s.set c next).shared d ((s.set c next).thread d)) ∧
        Leaves c g g' s.shared (s.set c next).shared := by
    intro g' after mine leaves
    refine ⟨g', after, fun d => ?_, leaves⟩
    by_cases same : d = c
    · subst same
      rw [Interleaving.State.set_thread_self]
      exact mine
    · rw [Interleaving.State.set_thread_of_ne same]
      exact leaves.own shape same (own d)
  cases taken with
  | enqueue =>
    obtain ⟨owner, after, node, leaves⟩ := shape.enqueue c _ owned.1
    exact set after node leaves
  | drain => exact set shape owned.2 (.refl c g _)
  | advance =>
    obtain ⟨g', after, mine, leaves⟩ := queueAdvance_preserves shape owned
    exact set after mine leaves

/-- Where neither the record of the links nor that of the swaps nor the position of `tail`
grows, no compare-and-swap has succeeded. -/
theorem Progressed.step (progressed : Progressed s k) (stepped : Interleaving.Step QueueStep s label t) :
    ∃ k', Progressed t k' ∧ k ≤ k' ∧ (Succeeds s label t → k < k') := by
  obtain ⟨g, shape, own, rfl⟩ := progressed
  obtain ⟨c, action⟩ := label
  obtain ⟨g', shape', own', leaves⟩ := shape.step own stepped
  have linked := leaves.linked.length_le
  have swapped := leaves.swapped_le
  have last := leaves.last
  refine ⟨_, ⟨g', shape', own', rfl⟩, by omega, fun succeeds => ?_⟩
  by_contra stays
  have links : t.shared.linked = s.shared.linked :=
    (leaves.linked.eq_of_length (by omega)).symm
  have head : t.shared.head = s.shared.head := by
    have before := leaves.at_order shape.head
    rw [show s.shared.swapped.length = t.shared.swapped.length by omega] at before
    exact Option.some.inj (shape'.head.symm.trans before)
  have tail : t.shared.tail = s.shared.tail := by
    have before := leaves.at_order shape.tail
    rw [show g.last = g'.last by omega] at before
    exact Option.some.inj (shape'.tail.symm.trans before)
  rcases succeeds with new | new | new
  · exact new links
  · exact new head
  · exact new tail

theorem QueueShape.order_length {g : QueueLayout} {queue : Queue V} (shape : QueueShape g queue) :
    g.order.length = queue.linked.length + 1 := by
  have nodes := congrArg List.length shape.elements
  have inside := (List.getElem?_eq_some_iff.mp shape.head).1
  simp only [List.length_map, List.length_tail] at nodes
  omega

/-- Three compare-and-swaps for each linked value. -/
theorem Progressed.le (progressed : Progressed s k) : k ≤ 3 * s.shared.linked.length := by
  obtain ⟨g, shape, _, rfl⟩ := progressed
  have taken := shape.drained.length_le
  have inside := (List.getElem?_eq_some_iff.mp shape.tail).1
  have nodes := shape.order_length
  simp only [List.length_map] at taken
  omega

def QueueAction.enqueues : QueueAction V → Bool
  | .enqueue _ => true
  | _ => false

/-- A call links one node. -/
theorem QueueRun.linked_le (run : QueueRun labels s) :
    s.shared.linked.length ≤ labels.countP fun label => label.2.enqueues := by
  obtain ⟨g, shape, _⟩ := run.shape
  let asked := labels.filter fun label => label.2.enqueues
  have among : s.shared.linked.map Prod.fst ⊆ asked.map Prod.fst := by
    intro c mem
    obtain ⟨⟨c, e⟩, linked, rfl⟩ := List.mem_map.mp mem
    apply List.mem_map.mpr
    exact ⟨(c, .enqueue e), List.mem_filter.mpr ⟨run.arguments.linked _ linked, rfl⟩, rfl⟩
  have within := (shape.linkedOnce.subperm among).length_le
  simpa only [asked, List.length_map, List.countP_eq_length_filter] using within

theorem QueueCall.Begun.rank_le {call : QueueCall V} (begun : call.Begun) : call.rank ≤ 9 := by
  cases call with
  | enqueueReadTail | drainReadHead => simp [QueueCall.rank]
  | _ => exact begun.elim

theorem QueueCall.Begun.current {call : QueueCall V} (begun : call.Begun) (queue : Queue V) :
    call.Current queue := by
  cases call with
  | enqueueReadTail | drainReadHead => trivial
  | _ => exact begun.elim

/-- A call that has not returned has taken fewer than nine steps, and six for each
compare-and-swap that has succeeded since it began. Of these there are never more than three
for each call of `QueueEnqueue`, so that every call returns if no new ones begin. -/
theorem queue_lock_free (run : QueueRun earlier m) (begun : (m.thread c).Begun)
    (rest : Counted (Interleaving.Step QueueStep) (Succeeds (V := V)) m n later s) :
    ((s.thread c).Returned ∨ later.countP (fun label => label.1 == c) < 9 + 6 * n) ∧
      n ≤ 3 * (earlier ++ later).countP fun label => label.2.enqueues := by
  obtain ⟨g, shape, own⟩ := run.shape
  have under : UnderWay c m := by
    refine ⟨⟨g, shape, own⟩, fun idle => ?_⟩
    rw [idle] at begun
    exact begun
  constructor
  · rcases (queue_retries c).spent_le under (begun.current m.shared) rest with ended | within
    · exact .inl ended
    · by_cases ended : (s.thread c).Returned
      · exact .inl ended
      have left : 0 < (s.thread c).rank := by
        obtain ⟨⟨_, _, own⟩, started⟩ := rest.run.invariant under UnderWay.step
        have owned := own c
        generalize s.thread c = call at ended owned started
        cases call with
        | idle => exact absurd rfl started
        | enqueued | drained => exact absurd trivial ended
        | aborted => exact owned.elim
        | _ => simp [QueueCall.rank]
      have start := begun.rank_le
      exact .inr (by omega)
  · obtain ⟨k, progressed, counts⟩ := rest.measure_le (P := Progressed) ⟨g, shape, own, rfl⟩ Progressed.step
    have bound := progressed.le
    have values := QueueRun.linked_le (Transition.Run.trans run rest.run)
    omega

end Run

/-- A call that has linked its value and has yet to move `tail`. -/
theorem queue_lock_free_single : ∃ (s : QueueState Nat) (n : Nat),
    s.thread 0 = .enqueueSwing 1 0 ∧ ((s.thread 0).Returned ∨ 4 < 9 + 6 * n) ∧ n ≤ 3 := by
  have asked : QueueRun [(0, .enqueue (some 7))]
      (queueInitial.set 0 (queueEnqueue queueCreate (some 7))) := .single (.mk .enqueue)
  have linked : Run (Interleaving.Step QueueStep)
      (queueInitial.set 0 (queueEnqueue queueCreate (some 7))) _ _ :=
    .snoc (.snoc (.snoc (.single (.mk (i := 0) .advance)) (.mk (i := 0) .advance))
      (.mk (i := 0) .advance)) (.mk (i := 0) .advance)
  obtain ⟨n, counted⟩ : ∃ n, Counted _ Succeeds _ n _ _ := Counted.of_run linked
  exact ⟨_, n, rfl, queue_lock_free (c := 0) asked trivial counted⟩

end KommunikationNetze.Utils
