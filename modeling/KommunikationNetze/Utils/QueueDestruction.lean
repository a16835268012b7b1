import KommunikationNetze.Utils.QueueProgress

/-! Who frees a node. A node that is not freed is in the list from `head` on, or a call has
it in hand; `QueueDestroy` frees those of the list when no call is under way. -/
namespace KommunikationNetze.Utils
variable {V : Type}

/-- The node that is not in the list and only this call can reach or free: the one it has
not linked yet, or the one it has taken off the list. -/
def QueueCall.holds : QueueCall V → Option NodeRef
  | .enqueueReadTail node | .enqueueReadNext node _ | .enqueueCompare node _ _
  | .enqueueLink node _ | .enqueueHelp node _ _ => some node
  | .drainAssert head _ _ | .drainMark head _ _ | .drainFree head _ => some head
  | _ => none

/-- The loop of `QueueDestroy`, at `element`. None when it would read or free a node that
was freed before, or does not come to an end in so many rounds. -/
def queueDestroyFrom : Nat → Queue V → Option NodeRef → Option (Queue V)
  | _, queue, none => some queue
  | 0, _, some _ => none
  | rounds + 1, queue, some old =>
    if (queue.memory old).freed then none
    else queueDestroyFrom rounds (queue.store old { queue.memory old with freed := true })
      (queue.memory old).next

/-- `QueueDestroy`, without the free of the queue itself. -/
def queueDestroy (queue : Queue V) : Option (Queue V) :=
  queueDestroyFrom queue.allocated queue (some queue.head)

section Destroy
variable {queue : Queue V}

theorem After.congr {memory after : NodeRef → QueueElement V}
    (next : ∀ b, (after b).next = (memory b).next) (chain : After memory a list) :
    After after a list := by
  induction chain with
  | last none => exact .last ((next _).trans none)
  | link follows _ ih => exact .link ((next _).trans follows) ih

theorem queueDestroyFrom_frees (chain : After queue.memory a list) (nodup : (a :: list).Nodup)
    (live : ∀ b ∈ a :: list, (queue.memory b).freed = false) (enough : list.length < rounds) :
    ∃ after, queueDestroyFrom rounds queue (some a) = some after ∧
      ∀ b, (after.memory b).freed = true ↔ b ∈ a :: list ∨ (queue.memory b).freed = true := by
  induction list generalizing queue a rounds with
  | nil =>
    obtain ⟨rounds, rfl⟩ := Nat.exists_eq_add_of_lt enough
    obtain ⟨none⟩ := chain
    refine ⟨queue.store a { queue.memory a with freed := true }, ?_, fun b => ?_⟩
    · simp only [queueDestroyFrom, live a List.mem_cons_self, none, Bool.false_eq_true, if_false]
    · by_cases same : b = a
      · subst same
        simp
      · simp [same]
  | cons b list ih =>
    cases rounds with
    | zero => exact absurd enough (Nat.not_lt_zero _)
    | succ rounds =>
      obtain ⟨_, _⟩ | ⟨follows, rest⟩ := chain
      let freed := queue.store a { queue.memory a with freed := true }
      have next : ∀ b, (freed.memory b).next = (queue.memory b).next := by
        intro b
        by_cases same : b = a
        · subst same
          simp only [freed, Queue.store_memory, Function.update_self]
        · simp only [freed, Queue.store_memory, Function.update_of_ne same]
      have others : ∀ {b}, b ≠ a → (freed.memory b).freed = (queue.memory b).freed := by
        intro b other
        simp only [freed, Queue.store_memory, Function.update_of_ne other]
      obtain ⟨absent, distinct⟩ := List.nodup_cons.mp nodup
      obtain ⟨after, destroyed, all⟩ := ih (rest.congr next) distinct
        (fun d mem => by
          rw [others (ne_of_mem_of_not_mem mem absent)]
          exact live d (List.mem_cons_of_mem _ mem))
        (by simpa using enough)
      refine ⟨after, ?_, fun d => ?_⟩
      · rw [queueDestroyFrom, if_neg (by simp [live a List.mem_cons_self]), follows]
        exact destroyed
      · rw [all d]
        by_cases same : d = a
        · subst same
          simp [freed]
        · rw [others same, List.mem_cons (a := d) (b := a), or_iff_right same]

end Destroy

section Reclaimed
variable {g g' : QueueLayout} {s t : QueueState V} {labels : List (Nat × QueueAction V)} {c : Nat}

/-- An allocated node is freed, or in the list, or in the hands of a call. -/
def Accounted (g : QueueLayout) (s : QueueState V) : Prop :=
  ∀ a < s.shared.allocated, (s.shared.memory a).freed = false ↔
    a ∈ g.order.drop s.shared.swapped.length ∨ ∃ c, (s.thread c).holds = some a

/-- The list stays, unless a node is linked. -/
theorem Leaves.order_eq {queue after : Queue V} (leaves : Leaves c g g' queue after)
    (shape : QueueShape g queue) (shape' : QueueShape g' after) (same : after.linked = queue.linked) :
    g'.order = g.order := by
  refine (leaves.order.eq_of_length ?_).symm
  rw [shape.order_length, shape'.order_length, same]

theorem Leaves.order_link {queue after : Queue V} (leaves : Leaves c g g' queue after)
    (shape : QueueShape g queue) (shape' : QueueShape g' after)
    (longer : after.linked = queue.linked ++ [p]) (mem : a ∈ g'.order) (new : a ∉ g.order) :
    g'.order = g.order ++ [a] := by
  obtain ⟨rest, same⟩ := leaves.order
  have lengths := congrArg List.length same
  rw [List.length_append, shape.order_length, shape'.order_length, longer, List.length_append,
    List.length_singleton] at lengths
  obtain ⟨b, rfl⟩ := List.length_eq_one_iff.mp (by omega : rest.length = 1)
  rw [← same] at mem ⊢
  rcases List.mem_append.mp mem with old | last
  · exact absurd old new
  · rw [List.mem_singleton.mp last]

/-- What a call holds is its own node, or the one at the position of its swap. -/
theorem OwnCall.holds {queue : Queue V} (own : OwnCall g queue c call) (held : call.holds = some a) :
    OwnNode g queue c a ∨ ∃ k e, queue.swapped[k]? = some (c, e) ∧ g.At k a := by
  cases call with
  | enqueueReadTail | enqueueReadNext | enqueueCompare | enqueueLink | enqueueHelp =>
    exact .inl (own.node held)
  | drainAssert head next e | drainMark head next e =>
    obtain rfl := Option.some.inj held
    obtain ⟨k, swapped, found, _⟩ := own
    exact .inr ⟨k, e, swapped, found⟩
  | drainFree head e =>
    obtain rfl := Option.some.inj held
    obtain ⟨k, swapped, found⟩ := own
    exact .inr ⟨k, e, swapped, found⟩
  | _ => cases held

/-- No other call holds the node that a call has taken off the list. -/
theorem QueueShape.holds_unique {queue : Queue V} (shape : QueueShape g queue) (found : g.At k a)
    (swapped : queue.swapped[k]? = some (c, e)) (own : OwnCall g queue d call)
    (held : call.holds = some a) : d = c := by
  rcases own.holds held with node | ⟨k', e', theirs, found'⟩
  · exact absurd (List.mem_of_getElem? found) node.unlinked
  · obtain rfl := shape.position found found'
    exact congrArg Prod.fst (Option.some.inj (theirs.symm.trans swapped))

theorem holds_split (s : QueueState V) (c : Nat) (a : NodeRef) :
    (∃ d, (s.thread d).holds = some a) ↔
      (s.thread c).holds = some a ∨ ∃ d, d ≠ c ∧ (s.thread d).holds = some a := by
  constructor
  · rintro ⟨d, held⟩
    by_cases same : d = c
    · exact .inl (same ▸ held)
    · exact .inr ⟨d, same, held⟩
  · rintro (held | ⟨d, _, held⟩)
    · exact ⟨c, held⟩
    · exact ⟨d, held⟩

theorem holds_set (s : QueueState V) (c : Nat) (next : Queue V × QueueCall V) (a : NodeRef) :
    (∃ d, ((s.set c next).thread d).holds = some a) ↔
      next.2.holds = some a ∨ ∃ d, d ≠ c ∧ (s.thread d).holds = some a := by
  rw [holds_split _ c, Interleaving.State.set_thread_self]
  refine or_congr_right (exists_congr fun d => and_congr_right fun other => ?_)
  rw [Interleaving.State.set_thread_of_ne other]

theorem Accounted.step (accounted : Accounted g s) (shape : QueueShape g s.shared)
    (own : ∀ d, OwnCall g s.shared d (s.thread d)) (shape' : QueueShape g' t.shared)
    (own' : ∀ d, OwnCall g' t.shared d (t.thread d)) (leaves : Leaves c g g' s.shared t.shared)
    (stepped : Interleaving.Step QueueStep s (c, action) t) : Accounted g' t := by
  obtain ⟨taken⟩ := stepped
  rename_i next
  have owned := own c
  have mine := own' c
  rw [Interleaving.State.set_thread_self] at mine
  rw [Interleaving.State.set_shared] at shape' mine leaves
  intro a old
  have before : a < s.shared.allocated → ((s.shared.memory a).freed = false ↔
      a ∈ g.order.drop s.shared.swapped.length ∨ (s.thread c).holds = some a ∨
        ∃ d, d ≠ c ∧ (s.thread d).holds = some a) := fun old => by
    rw [accounted a old, holds_split s c]
  rw [holds_set, Interleaving.State.set_shared]
  rw [Interleaving.State.set_shared] at old
  generalize others : (∃ d, d ≠ c ∧ (s.thread d).holds = some a) = held at before ⊢
  generalize s.thread c = call at taken owned before
  cases taken with
  | enqueue =>
    rw [leaves.order_eq shape shape' rfl]
    by_cases new : a = s.shared.allocated
    · subst new
      simp [queueEnqueue, zeroElement, QueueCall.holds]
    · have earlier : a < s.shared.allocated := Nat.lt_of_le_of_ne (Nat.le_of_lt_succ old) new
      simp only [queueEnqueue, Queue.store_memory, Function.update_of_ne new]
      refine (before earlier).trans ?_
      simp [Queue.store, QueueCall.holds, Ne.symm new]
  | drain =>
    rw [leaves.order_eq shape shape' rfl]
    exact before old
  | advance =>
    have move := queueAdvance_move c s.shared call
    generalize queueAdvance c s.shared call = after at move shape' mine leaves old ⊢
    have inside := (List.getElem?_eq_some_iff.mp shape.head).1
    cases move with
    | @links tail node =>
      obtain ⟨_, i, _, follows⟩ := mine
      rw [leaves.order_link shape shape' rfl (List.mem_of_getElem? follows) owned.1.unlinked,
        QueueShape.link_memory]
      refine (before old).trans ?_
      simp only [Queue.link, Queue.store, List.drop_append_of_le_length (Nat.le_of_lt inside),
        List.mem_append, List.mem_singleton, QueueCall.holds, Option.some.injEq, reduceCtorEq,
        false_or, or_assoc, eq_comm (a := node)]
    | @swaps head next e current =>
      have first : g.order.drop s.shared.swapped.length =
          head :: g.order.drop (s.shared.swapped.length + 1) := by
        rw [List.drop_eq_getElem_cons inside, (List.getElem?_eq_some_iff.mp shape.head).2, current]
      rw [leaves.order_eq shape shape' rfl]
      refine (before old).trans ?_
      simp only [Queue.swapHead, first, List.length_append, List.length_singleton, List.mem_cons,
        QueueCall.holds, Option.some.injEq, reduceCtorEq, false_or, eq_comm (a := head),
        or_left_comm, or_assoc]
    | assertFails => exact mine.elim
    | @frees head e =>
      rw [leaves.order_eq shape shape' rfl]
      obtain ⟨k, swapped, found⟩ := owned
      by_cases same : a = head
      · subst same
        have passed := (List.getElem?_eq_some_iff.mp swapped).1
        have alone : ¬held := by
          rw [← others]
          rintro ⟨d, other, holds⟩
          exact other (shape.holds_unique found swapped (own d) holds)
        have gone : a ∉ g.order.drop s.shared.swapped.length := by
          intro mem
          obtain ⟨j, at_j⟩ := List.mem_iff_getElem?.mp mem
          rw [List.getElem?_drop] at at_j
          have position := shape.position found at_j
          omega
        simp [Queue.store, QueueCall.holds, alone, gone]
      · simp only [Queue.store_memory, Function.update_of_ne same]
        refine (before old).trans ?_
        simp [Queue.store, QueueCall.holds, Ne.symm same]
    | @marks head next e =>
      rw [leaves.order_eq shape shape' rfl]
      have kept : ((s.shared.store next { s.shared.memory next with dequeued := true }).memory a).freed =
          (s.shared.memory a).freed := by
        by_cases same : a = next
        · subst same
          simp only [Queue.store_memory, Function.update_self]
        · simp only [Queue.store_memory, Function.update_of_ne same]
      rw [kept]
      exact before old
    | enqueueHelp | enqueueSwing | drainHelp =>
      rw [leaves.order_eq shape shape' (Queue.swingTail_linked ..)]
      rw [Queue.swingTail_allocated] at old
      rw [Queue.swingTail_memory, Queue.swingTail_swapped]
      exact before old
    | _ =>
      rw [leaves.order_eq shape shape' rfl]
      exact before old

theorem QueueRun.accounted (run : QueueRun labels s) :
    ∃ g, QueueShape g s.shared ∧ (∀ c, OwnCall g s.shared c (s.thread c)) ∧ Accounted g s := by
  refine run.invariant (P := fun s => ∃ g, QueueShape g s.shared ∧
    (∀ c, OwnCall g s.shared c (s.thread c)) ∧ Accounted g s) ?_ ?_
  · refine ⟨_, .initial, fun c => ⟨List.not_mem_nil, List.not_mem_nil⟩, ?_⟩
    intro a old
    obtain rfl : a = 0 := Nat.lt_one_iff.mp old
    simp [queueInitial, queueCreate, zeroElement, QueueCall.holds]
  · rintro s ⟨c, action⟩ t ⟨g, shape, own, accounted⟩ stepped
    obtain ⟨g', shape', own', leaves⟩ := shape.step own stepped
    exact ⟨g', shape', own', accounted.step shape own shape' own' leaves stepped⟩

/-- No call frees a node that was freed before. When no call is under way, `QueueDestroy`
comes to an end, frees no node that was freed before, and no allocated node is left. -/
theorem queue_freed_once (run : QueueRun labels s) :
    (∀ c head e, s.thread c = .drainFree head e → (s.shared.memory head).freed = false) ∧
    ((∀ c, s.thread c = .idle ∨ (s.thread c).Returned) →
      ∃ after, queueDestroy s.shared = some after ∧
        ∀ a < s.shared.allocated, (after.memory a).freed = true) := by
  obtain ⟨g, shape, own, accounted⟩ := run.accounted
  constructor
  · intro c head e thread
    have owned := own c
    rw [thread] at owned
    obtain ⟨k, _, found⟩ := owned
    refine (accounted head (shape.allocated head (List.mem_of_getElem? found))).mpr (.inr ⟨c, ?_⟩)
    rw [thread]
    rfl
  · intro quiet
    have unheld : ∀ c a, (s.thread c).holds ≠ some a := by
      intro c a
      rcases quiet c with idle | ended
      · rw [idle]
        nofun
      · generalize s.thread c = call at ended
        cases call with
        | enqueued | drained => nofun
        | _ => exact ended.elim
    have inside := (List.getElem?_eq_some_iff.mp shape.head).1
    have list : s.shared.head :: g.order.drop (s.shared.swapped.length + 1) =
        g.order.drop s.shared.swapped.length := by
      rw [List.drop_eq_getElem_cons inside, (List.getElem?_eq_some_iff.mp shape.head).2]
    have known : ∀ a ∈ g.order.drop s.shared.swapped.length, a < s.shared.allocated :=
      fun a mem => shape.allocated a (List.mem_of_mem_drop mem)
    -- The nodes of the list are among those that were allocated.
    have within : (g.order.drop s.shared.swapped.length).length ≤ s.shared.allocated := by
      have among : g.order.drop s.shared.swapped.length ⊆ List.range s.shared.allocated :=
        fun a mem => List.mem_range.mpr (known a mem)
      have fewer := ((shape.nodup.sublist (List.drop_sublist _ _)).subperm among).length_le
      rwa [List.length_range] at fewer
    obtain ⟨after, destroyed, all⟩ := queueDestroyFrom_frees (shape.after shape.head)
      (list ▸ shape.nodup.sublist (List.drop_sublist _ _))
      (fun a mem => (accounted a (known a (list ▸ mem))).mpr (.inl (list ▸ mem)))
      (by rw [← list] at within; exact Nat.lt_of_succ_le within)
    refine ⟨after, destroyed, fun a old => (all a).mpr ?_⟩
    by_cases live : (s.shared.memory a).freed = false
    · rcases (accounted a old).mp live with mem | ⟨c, held⟩
      · exact .inl (list ▸ mem)
      · exact absurd held (unheld c a)
    · exact .inr (Bool.not_eq_false _ |>.mp live)

end Reclaimed

/-- A queue that is destroyed with one value in it. -/
theorem queue_freed_once_single : ∃ (s : QueueState Nat) (after : Queue Nat),
    s.shared.contents = [some 7] ∧ queueDestroy s.shared = some after ∧
      (after.memory 0).freed = true ∧ (after.memory 1).freed = true := by
  have asked : QueueRun [(0, .enqueue (some 7))]
      (queueInitial.set 0 (queueEnqueue queueCreate (some 7))) := .single (.mk .enqueue)
  have enqueued := asked.advances 0 5
  obtain ⟨after, destroyed, all⟩ := (queue_freed_once enqueued).2 fun c => by
    by_cases first : c = 0
    · subst first
      exact .inr trivial
    · refine .inl ?_
      simp only [queueAdvances, Interleaving.State.set_thread_of_ne first]
      rfl
  exact ⟨_, after, rfl, destroyed, all 0 (by decide), all 1 (by decide)⟩

end KommunikationNetze.Utils
