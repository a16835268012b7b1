import KommunikationNetze.Utils.QueueLinearizable

/-! Whether a call can touch a node after another call has freed it. The node that
`QueueDrain` frees was left by `head` and `tail`, but copies of them may still point to it. -/
namespace KommunikationNetze.Utils
variable {V : Type}

/-- The node of which the next step of the call reads or writes a field. -/
def QueueCall.touches : QueueCall V → Option NodeRef
  | .enqueueReadNext _ tail | .enqueueLink _ tail => some tail
  | .drainReadNext head _ => some head
  | .drainReadElement _ next | .drainAssert _ next _ | .drainMark _ next _ => some next
  | _ => none

/-- The node the call will touch before it reads `head` or `tail` again to compare. -/
def QueueCall.willTouch : QueueCall V → Option NodeRef
  | .drainReadTail head => some head
  | call => call.touches

def UseAfterFree (s : QueueState V) (c : Nat) : Prop :=
  ∃ a, (s.thread c).touches = some a ∧ (s.shared.memory a).freed = true

/-- If the step frees a node, then no other call is about to touch it. -/
def FreesUnobserved (s : QueueState V) (label : Nat × QueueAction V) : Prop :=
  label.2 = .advance → ∀ head element, s.thread label.1 = .drainFree head element →
    ∀ d, d ≠ label.1 → (s.thread d).willTouch ≠ some head

theorem FreesUnobserved.of_ne {s : QueueState V} (other : label.2 ≠ .advance) :
    FreesUnobserved s label := fun same => absurd same other

def GuardedStep (s : QueueState V) (label : Nat × QueueAction V) (t : QueueState V) : Prop :=
  FreesUnobserved s label ∧ Interleaving.Step QueueStep s label t

def GuardedRun (labels : List (Nat × QueueAction V)) (s : QueueState V) : Prop :=
  Transition.Run GuardedStep queueInitial labels s

/-- No call is about to touch a freed node. -/
def NoDangling (s : QueueState V) : Prop :=
  ∀ {c a}, (s.thread c).willTouch = some a → (s.shared.memory a).freed = false

section Step
variable {g : QueueLayout} {queue : Queue V} {call : QueueCall V} {c : Nat} {s t : QueueState V}

theorem willTouch_of_touches (touches : call.touches = some a) : call.willTouch = some a := by
  cases call <;> first | exact touches | cases touches

/-- Nothing but the last step of `QueueDrain` frees a node. -/
theorem queueAdvance_freed (c : Nat) (queue : Queue V) (call : QueueCall V) (a : NodeRef) :
    ((queueAdvance c queue call).1.memory a).freed = (queue.memory a).freed ∨
      ∃ element, call = .drainFree a element := by
  have move := queueAdvance_move c queue call
  generalize queueAdvance c queue call = after at move ⊢
  cases move with
  | @frees head element =>
    by_cases same : a = head
    · subst same
      exact .inr ⟨element, rfl⟩
    · simp only [Queue.store_memory, Function.update_of_ne same]
      exact .inl trivial
  | @marks head next element =>
    by_cases same : a = next
    · subst same
      simp only [Queue.store_memory, Function.update_self]
      exact .inl trivial
    · simp only [Queue.store_memory, Function.update_of_ne same]
      exact .inl trivial
  | links =>
    rw [QueueShape.link_memory]
    exact .inl rfl
  | enqueueHelp | enqueueSwing | drainHelp =>
    rw [Queue.swingTail_memory]
    exact .inl rfl
  | _ => exact .inl rfl

/-- A pointer that is read from `head` or `tail`, or was just found to follow `head`, is
to a node that is not freed. -/
theorem queueAdvance_touch (shape : QueueShape g queue) (own : OwnCall g queue c call)
    (held : ∀ {a}, call.willTouch = some a → (queue.memory a).freed = false)
    (touch : (queueAdvance c queue call).2.willTouch = some a) : (queue.memory a).freed = false := by
  have liveTail : (queue.memory queue.tail).freed = false := shape.live shape.behind shape.tail
  have liveHead : (queue.memory queue.head).freed = false := shape.live (Nat.le_refl _) shape.head
  have liveNext : ∀ {i b}, g.At i queue.head → g.At (i + 1) b → (queue.memory b).freed = false := by
    intro i b found follows
    have position := shape.position found shape.head
    exact shape.live (by omega) follows
  have move := queueAdvance_move c queue call
  generalize queueAdvance c queue call = after at move touch
  cases move with
  | enqueueReadTail =>
    obtain rfl := Option.some.inj touch
    exact liveTail
  | atEnd current =>
    obtain rfl := Option.some.inj touch
    rw [current]
    exact liveTail
  | drainReadHead =>
    obtain rfl := Option.some.inj touch
    exact liveHead
  | drainReadTail | asserts =>
    obtain rfl := Option.some.inj touch
    exact held rfl
  | successor current =>
    obtain ⟨_, i, j, _, _, first, _, _, follows⟩ := own
    obtain rfl := Option.some.inj touch
    exact liveNext (current ▸ first) (follows _ rfl)
  | swaps current =>
    obtain ⟨_, ⟨i, _, found, follows⟩, _⟩ := own
    obtain rfl := Option.some.inj touch
    exact liveNext (current ▸ found) follows
  | _ => cases touch

theorem NoDangling.step (safe : NoDangling s) (shape : QueueShape g s.shared)
    (own : ∀ c, OwnCall g s.shared c (s.thread c)) (stepped : GuardedStep s label t) :
    NoDangling t := by
  obtain ⟨unobserved, ⟨taken⟩⟩ := stepped
  rename_i c action next
  generalize before : s.thread c = call at taken
  have owned := own c
  rw [before] at owned
  intro d a touch
  rw [Interleaving.State.set_shared]
  by_cases same : d = c
  · subst same
    rw [Interleaving.State.set_thread_self] at touch
    cases taken with
    | enqueue => cases touch
    | drain => cases touch
    | advance =>
      have live := queueAdvance_touch shape owned (fun held => safe (before ▸ held)) touch
      rcases queueAdvance_freed d s.shared call a with kept | ⟨element, rfl⟩
      · exact kept.trans live
      · cases touch
  · rw [Interleaving.State.set_thread_of_ne same] at touch
    cases taken with
    | enqueue =>
      by_cases new : a = s.shared.allocated
      · subst new
        simp only [queueEnqueue, Queue.store_memory, Function.update_self]
        rfl
      · simp only [queueEnqueue, Queue.store_memory, Function.update_of_ne new]
        exact safe touch
    | drain => exact safe touch
    | advance =>
      rcases queueAdvance_freed c s.shared call a with kept | ⟨element, rfl⟩
      · exact kept.trans (safe touch)
      · exact absurd touch (unobserved rfl a element before d same)

end Step

section Run
variable {s t : QueueState V} {labels : List (Nat × QueueAction V)}

theorem GuardedRun.queueRun (run : GuardedRun labels s) : QueueRun labels s := by
  induction run with
  | start => exact .start
  | snoc _ stepped ih => exact .snoc ih stepped.2

theorem GuardedRun.noDangling (run : GuardedRun labels s) : NoDangling s := by
  induction run with
  | start =>
    intro c a touch
    cases touch
  | snoc earlier stepped ih =>
    obtain ⟨g, shape, own⟩ := (GuardedRun.queueRun earlier).shape
    exact ih.step shape own stepped

/-- A call that is about to touch a node does it in its next step or the one after. -/
theorem touched (touch : (s.thread c).willTouch = some a) (freed : (s.shared.memory a).freed = true) :
    ∃ later t, Transition.Run GuardedStep s later t ∧ UseAfterFree t c := by
  cases call : s.thread c with
  | drainReadTail head =>
    rw [call] at touch
    obtain rfl := Option.some.inj touch
    refine ⟨_, _, .single ⟨?_, .mk (i := c) .advance⟩, head, ?_, ?_⟩
    · intro _ freed element other
      rw [call] at other
      cases other
    · rw [Interleaving.State.set_thread_self, call]
      rfl
    · rw [Interleaving.State.set_shared, call]
      exact freed
  | _ =>
    refine ⟨[], s, .start, a, ?_, freed⟩
    rw [call] at touch ⊢
    exact touch

/-- While every `free` is of a node no other call is about to touch, no call touches a
freed node; and the first other `free` lets some call do so. -/
theorem queue_reclamation (run : GuardedRun labels s) :
    (∀ c, ¬UseAfterFree s c) ∧ ∀ {label t}, Interleaving.Step QueueStep s label t →
      (FreesUnobserved s label ↔
        ∀ later u, Transition.Run GuardedStep t later u → ∀ c, ¬UseAfterFree u c) := by
  have safe : ∀ {labels s}, GuardedRun labels s → ∀ c, ¬UseAfterFree (V := V) s c := by
    rintro labels s run c ⟨a, touches, freed⟩
    rw [run.noDangling (willTouch_of_touches touches)] at freed
    cases freed
  refine ⟨safe run, fun {label t} stepped => ?_⟩
  constructor
  · intro unobserved later u rest
    exact safe ((Transition.Run.snoc run ⟨unobserved, stepped⟩).trans rest)
  · intro never action head element free d other touch
    obtain ⟨taken⟩ := stepped
    rename_i c action next
    subst action
    simp only at free other
    rw [free] at taken
    cases taken with
    | advance =>
      have kept : ((s.set c (queueAdvance c s.shared (.drainFree head element))).thread d).willTouch =
          some head := by
        rw [Interleaving.State.set_thread_of_ne other]
        exact touch
      obtain ⟨later, u, rest, used⟩ := touched kept (by
        simp [queueAdvance])
      exact never later u rest d used

/-- A call keeps the condition while no other call is about to touch a node. -/
theorem GuardedRun.advances (run : GuardedRun labels s)
    (alone : ∀ d, d ≠ c → (s.thread d).willTouch = none) (n : Nat) :
    GuardedRun (labels ++ List.replicate n (c, .advance)) (queueAdvances c n s) := by
  induction n generalizing labels s with
  | zero =>
    rw [List.replicate_zero, List.append_nil]
    exact run
  | succ n ih =>
    rw [List.replicate_succ, ← List.singleton_append, ← List.append_assoc]
    refine ih (.snoc run ⟨?_, .mk .advance⟩) ?_
    · intro _ head element _ d other touch
      rw [alone d other] at touch
      cases touch
    · intro d other
      rw [Interleaving.State.set_thread_of_ne other]
      exact alone d other

end Run

/-- One call enqueues 7 and then another one takes it and frees the dummy node. -/
theorem queue_reclamation_single : ∃ s : QueueState Nat,
    s.thread 1 = .drained (some 7) ∧ (s.shared.memory 0).freed = true ∧ ∀ c, ¬UseAfterFree s c := by
  have asked : GuardedRun [(0, .enqueue (some 7))]
      (queueInitial.set 0 (queueEnqueue queueCreate (some 7))) :=
    .single ⟨.of_ne (by simp), .mk .enqueue⟩
  have enqueued := asked.advances (c := 0) (fun d other => by
    rw [Interleaving.State.set_thread_of_ne other]
    rfl) 5
  have begun : GuardedRun _ ((queueAdvances 0 5 _).set 1 (_, .drainReadHead)) :=
    .snoc enqueued ⟨.of_ne (by simp), .mk (i := 1) .drain⟩
  have drained := begun.advances (c := 1) (fun d other => by
    rw [Interleaving.State.set_thread_of_ne other]
    by_cases first : d = 0
    · subst first
      rfl
    · simp only [queueAdvances, Interleaving.State.set_thread_of_ne first]
      rfl) 9
  exact ⟨_, rfl, rfl, (queue_reclamation drained).1⟩

/-- One call of `QueueEnqueue` has read `tail`; another one links a value, which a call of
`QueueDrain` takes, freeing the node the first call reads next. -/
theorem queue_use_after_free : ∃ (labels : List (Nat × QueueAction Nat)) (s : QueueState Nat),
    QueueRun labels s ∧ UseAfterFree s 0 := by
  have asked : QueueRun [(0, .enqueue (some 7))] (queueInitial.set 0 (queueEnqueue queueCreate (some 7))) :=
    .single (.mk .enqueue)
  have stale := asked.advances 0 1
  have other : QueueRun _ ((queueAdvances 0 1 _).set 1 (queueEnqueue _ (some 8))) :=
    .snoc stale (.mk (i := 1) .enqueue)
  have linked := other.advances 1 5
  have begun : QueueRun _ ((queueAdvances 1 5 _).set 2 (_, .drainReadHead)) :=
    .snoc linked (.mk (i := 2) .drain)
  exact ⟨_, _, begun.advances 2 9, 0, rfl, rfl⟩

end KommunikationNetze.Utils
