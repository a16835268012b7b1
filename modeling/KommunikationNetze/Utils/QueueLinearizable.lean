import KommunikationNetze.Utils.QueueOrder

/-! The queue is a FIFO. A value enters it with the compare-and-swap that links its node
and leaves it with the one that moves `head`, and both are steps of the calls. -/
namespace KommunikationNetze.Utils
variable {V : Type}

/-- The nodes after a node of the list. -/
inductive After (memory : NodeRef → QueueElement V) : NodeRef → List NodeRef → Prop where
  | last : (memory a).next = none → After memory a []
  | link : (memory a).next = some b → After memory b list → After memory a (b :: list)

/-- The call is between its first and its last step. -/
def QueueCall.Draining : QueueCall V → Prop
  | .drainReadHead | .drainReadTail _ | .drainReadNext .. | .drainCompare .. | .drainHelp ..
  | .drainReadElement .. | .drainSwap .. | .drainAssert .. | .drainMark .. | .drainFree .. => True
  | _ => False

/-- At some moment of the run the call was under way and no node came after `head`. -/
def EmptyDuring (c : Nat) (labels : List (Nat × QueueAction V)) (s : QueueState V) : Prop :=
  ∃ earlier later m, labels = earlier ++ later ∧ QueueRun earlier m ∧
    Transition.Run (Interleaving.Step QueueStep) m later s ∧
    (m.thread c).Draining ∧ (m.shared.memory m.shared.head).next = none

/-- The node of a call that has not linked it yet. -/
def QueueCall.node? : QueueCall V → Option NodeRef
  | .enqueueReadTail node | .enqueueReadNext node _ | .enqueueCompare node _ _
  | .enqueueLink node _ | .enqueueHelp node _ _ => some node
  | _ => none

section Contents
variable {g : QueueLayout} {queue : Queue V}

/-- What an atomic queue would hold: the values that were linked and not taken. -/
def Queue.contents (queue : Queue V) : List (Option V) :=
  (queue.linked.map Prod.snd).drop queue.swapped.length

theorem QueueShape.after (shape : QueueShape g queue) (found : g.At i a) :
    After queue.memory a (g.order.drop (i + 1)) := by
  generalize rest : g.order.drop (i + 1) = list
  induction list generalizing i a with
  | nil =>
    refine .last ((shape.next found).trans (List.getElem?_eq_none ?_))
    exact List.drop_eq_nil_iff.mp rest
  | cons b list ih =>
    have follows : g.At (i + 1) b := by
      have first := congrArg List.head? rest
      rwa [List.head?_drop, List.head?_cons] at first
    refine .link ((shape.next found).trans follows) (ih follows ?_)
    rw [← List.drop_drop, rest, List.drop_one, List.tail_cons]

/-- The list after `head` holds the contents. -/
theorem QueueShape.contents (shape : QueueShape g queue) :
    (g.order.drop (queue.swapped.length + 1)).map (fun a => (queue.memory a).element) =
      queue.contents := by
  rw [Queue.contents, ← shape.elements, List.map_drop, List.map_tail, List.drop_tail]

theorem QueueShape.swapped_contents (shape : QueueShape g queue) :
    queue.swapped.map Prod.snd ++ queue.contents = queue.linked.map Prod.snd := by
  have taken := List.prefix_iff_eq_take.mp shape.drained
  rw [List.length_map] at taken
  rw [taken, Queue.contents, List.take_append_drop]

end Contents

section Step
variable {queue : Queue V} {call : QueueCall V} {c : Nat}

/-- A step links the node of its call, or takes a value, or neither. -/
theorem queueAdvance_records (c : Nat) (queue : Queue V) (call : QueueCall V) :
    ((queueAdvance c queue call).1.linked = queue.linked ∧
      (queueAdvance c queue call).1.swapped = queue.swapped) ∨
    (∃ node, call.node? = some node ∧
      (queueAdvance c queue call).1.linked = queue.linked ++ [(c, (queue.memory node).element)] ∧
      (queueAdvance c queue call).1.swapped = queue.swapped) ∨
    ∃ e, (queueAdvance c queue call).1.linked = queue.linked ∧
      (queueAdvance c queue call).1.swapped = queue.swapped ++ [(c, e)] := by
  have move := queueAdvance_move c queue call
  generalize queueAdvance c queue call = after at move ⊢
  cases move with
  | links => exact .inr (.inl ⟨_, rfl, rfl, rfl⟩)
  | swaps => exact .inr (.inr ⟨_, rfl, rfl⟩)
  | enqueueHelp | enqueueSwing | drainHelp =>
    exact .inl ⟨Queue.swingTail_linked .., Queue.swingTail_swapped ..⟩
  | _ => exact .inl ⟨rfl, rfl⟩

/-- A call keeps its node until it is linked, and gets no other one. -/
theorem queueAdvance_node (kept : (queueAdvance c queue call).2.node? = some a) :
    call.node? = some a := by
  have move := queueAdvance_move c queue call
  generalize queueAdvance c queue call = after at move kept
  cases move with
  | enqueueReadTail | enqueueReadNext | atEnd | tailLags | tailMoved | overtaken | enqueueHelp =>
    exact kept
  | _ => cases kept

/-- The only way to learn that a node has no successor is to read it. -/
theorem queueAdvance_compare (read : (queueAdvance c queue call).2 = .drainCompare head tail none) :
    call = .drainReadNext head tail ∧ (queue.memory head).next = none := by
  have move := queueAdvance_move c queue call
  generalize queueAdvance c queue call = after at move read
  cases move with
  | drainReadNext =>
    simp only [QueueCall.drainCompare.injEq] at read
    obtain ⟨rfl, rfl, empty⟩ := read
    exact ⟨rfl, empty⟩
  | _ => cases read

/-- A call returns from the test that finds the queue empty, or with the value it took. -/
theorem queueAdvance_drained (returned : (queueAdvance c queue call).2 = .drained result) :
    call = .drained result ∨ (result = none ∧ ∃ head tail, call = .drainCompare head tail none) ∨
      ∃ head, call = .drainFree head result := by
  have move := queueAdvance_move c queue call
  generalize queueAdvance c queue call = after at move returned
  cases move with
  | drained => exact .inl returned
  | findsEmpty =>
    obtain rfl := QueueCall.drained.inj returned
    exact .inr (.inl ⟨rfl, _, _, rfl⟩)
  | frees =>
    obtain rfl := QueueCall.drained.inj returned
    exact .inr (.inr ⟨_, rfl⟩)
  | _ => cases returned

end Step

section Run
variable {s t : QueueState V} {labels : List (Nat × QueueAction V)} {c : Nat}

theorem OwnCall.node {g : QueueLayout} {queue : Queue V} (own : OwnCall g queue c call)
    (kept : call.node? = some a) : OwnNode g queue c a := by
  cases call with
  | enqueueReadTail node =>
    obtain rfl := Option.some.inj kept
    exact own
  | enqueueReadNext node tail | enqueueCompare node tail next | enqueueLink node tail
  | enqueueHelp node tail next =>
    obtain rfl := Option.some.inj kept
    exact own.1
  | _ => cases kept

theorem QueueRun.leaves (run : QueueRun labels s)
    (stepped : Interleaving.Step QueueStep s (c, action) t) :
    ∃ g g', Leaves c g g' s.shared t.shared := by
  obtain ⟨g, shape, own⟩ := run.shape
  obtain ⟨taken⟩ := stepped
  rename_i next
  generalize before : s.thread c = call at taken
  have owned := own c
  rw [before] at owned
  cases taken with
  | enqueue =>
    obtain ⟨_, _, _, leaves⟩ := shape.enqueue c _ owned.1
    exact ⟨_, _, leaves⟩
  | drain => exact ⟨g, g, .refl c g _⟩
  | advance =>
    obtain ⟨g', _, _, leaves⟩ := queueAdvance_preserves shape owned
    exact ⟨g, g', leaves⟩

/-- A node holds the value its call was asked to enqueue, and so does the record of links. -/
structure Arguments (labels : List (Nat × QueueAction V)) (s : QueueState V) : Prop where
  node : ∀ {c a}, (s.thread c).node? = some a → (c, .enqueue (s.shared.memory a).element) ∈ labels
  linked : ∀ p ∈ s.shared.linked, (p.1, .enqueue p.2) ∈ labels

theorem QueueRun.arguments (run : QueueRun labels s) : Arguments labels s := by
  induction run with
  | start =>
    constructor
    · intro c a kept
      cases kept
    · intro p mem
      cases mem
  | snoc earlier stepped ih =>
    rename_i labels s label t
    obtain ⟨c, action⟩ := label
    obtain ⟨_, _, leaves⟩ := QueueRun.leaves earlier stepped
    have element := fun {a} => leaves.element (a := a)
    obtain ⟨g, _, own⟩ := QueueRun.shape earlier
    obtain ⟨taken⟩ := stepped
    rename_i next
    have others : ∀ {d a}, d ≠ c → ((s.set c next).thread d).node? = some a →
        (d, .enqueue ((s.set c next).shared.memory a).element) ∈ labels ++ [(c, action)] := by
      intro d a other kept
      rw [Interleaving.State.set_thread_of_ne other] at kept
      rw [element ((own d).node kept).allocated]
      exact List.mem_append_left _ (ih.node kept)
    generalize before : s.thread c = call at taken
    have owned := own c
    rw [before] at owned
    constructor
    · intro d a kept
      by_cases same : d = c
      · subst same
        rw [Interleaving.State.set_thread_self] at kept
        cases taken with
        | enqueue =>
          obtain rfl := Option.some.inj kept
          simp [queueEnqueue]
        | drain => cases kept
        | advance =>
          have mine := queueAdvance_node kept
          rw [element (owned.node mine).allocated]
          exact List.mem_append_left _ (ih.node (before ▸ mine))
      · exact others same kept
    · intro p mem
      rw [Interleaving.State.set_shared] at mem
      cases taken with
      | enqueue => exact List.mem_append_left _ (ih.linked p mem)
      | drain => exact List.mem_append_left _ (ih.linked p mem)
      | advance =>
        rcases queueAdvance_records c s.shared call with ⟨same, _⟩ | ⟨node, kept, added, _⟩ | ⟨_, same, _⟩
        · rw [same] at mem
          exact List.mem_append_left _ (ih.linked p mem)
        · rw [added] at mem
          rcases List.mem_append.mp mem with old | new
          · exact List.mem_append_left _ (ih.linked p old)
          · obtain rfl := List.mem_singleton.mp new
            exact List.mem_append_left _ (ih.node (before ▸ kept))
        · rw [same] at mem
          exact List.mem_append_left _ (ih.linked p mem)

theorem EmptyDuring.snoc (empty : EmptyDuring c labels s)
    (stepped : Interleaving.Step QueueStep s label t) : EmptyDuring c (labels ++ [label]) t := by
  obtain ⟨earlier, later, m, rfl, run, rest, under, none⟩ := empty
  exact ⟨earlier, later ++ [label], m, List.append_assoc .., run, rest.snoc stepped, under, none⟩

/-- A call that has read no successor of `head`, or that has returned without a value,
began before a moment at which the queue was empty. -/
theorem QueueRun.emptyDuring (run : QueueRun labels s) :
    (∀ head tail, s.thread c = .drainCompare head tail none → EmptyDuring c labels s) ∧
      (s.thread c = .drained none → c ∉ s.shared.swapped.map Prod.fst → EmptyDuring c labels s) := by
  induction run with
  | start =>
    constructor
    · intro head tail compare
      cases compare
    · intro drained
      cases drained
  | snoc earlier stepped ih =>
    rename_i labels s label t
    obtain ⟨d, action⟩ := label
    obtain ⟨_, _, leaves⟩ := QueueRun.leaves earlier stepped
    obtain ⟨g, shape, own⟩ := QueueRun.shape earlier
    have extended : EmptyDuring c labels s → EmptyDuring c (labels ++ [(d, action)]) t :=
      fun empty => empty.snoc stepped
    have now : (s.thread c).Draining → (s.shared.memory s.shared.head).next = none →
        EmptyDuring c (labels ++ [(d, action)]) t := fun under empty =>
      EmptyDuring.snoc ⟨labels, [], s, (List.append_nil _).symm, earlier, .start, under, empty⟩ stepped
    have untaken : c ∉ t.shared.swapped.map Prod.fst → c ∉ s.shared.swapped.map Prod.fst :=
      fun absent mem => absent ((leaves.swapped.map _).subset mem)
    by_cases same : c = d
    · subst same
      obtain ⟨taken⟩ := stepped
      rename_i next
      generalize before : s.thread c = call at taken
      have owned := own c
      rw [before] at owned
      rw [Interleaving.State.set_thread_self]
      cases taken with
      | enqueue =>
        constructor
        · intro head tail compare
          cases compare
        · intro drained
          cases drained
      | drain =>
        constructor
        · intro head tail compare
          cases compare
        · intro drained
          cases drained
      | advance =>
        constructor
        · intro head tail compare
          obtain ⟨rfl, empty⟩ := queueAdvance_compare compare
          obtain ⟨_, i, j, passed, ordered, behind, first, _⟩ := owned
          have length := shape.at_end first empty
          have inside := (List.getElem?_eq_some_iff.mp shape.tail).1
          have position : i = s.shared.swapped.length := by
            have := shape.behind
            omega
          have current : head = s.shared.head := by
            subst position
            exact Option.some.inj (first.symm.trans shape.head)
          refine now ?_ (current ▸ empty)
          rw [before]
          trivial
        · intro drained absent
          rcases queueAdvance_drained drained with rfl | ⟨_, head, tail, rfl⟩ | ⟨head, rfl⟩
          · exact extended (ih.2 before (untaken absent))
          · exact extended (ih.1 head tail before)
          · obtain ⟨k, swapped, _⟩ := owned
            exact absurd (List.mem_map_of_mem (List.mem_of_getElem? swapped)) (untaken absent)
    · have unmoved : t.thread c = s.thread c := by
        obtain ⟨taken⟩ := stepped
        exact Interleaving.State.set_thread_of_ne same
      rw [unmoved]
      exact ⟨fun head tail compare => extended (ih.1 head tail compare),
        fun drained absent => extended (ih.2 drained (untaken absent))⟩

/-- Taken values and contents together are what was enqueued, in the order of the links.
Every call takes and links at most once, a value is returned by the call that took it, and
NULL only from a queue that was empty meanwhile, unless NULL itself was enqueued. -/
theorem queue_linearizable (run : QueueRun labels s) :
    (∃ list, After s.shared.memory s.shared.head list ∧ s.shared.tail ∈ s.shared.head :: list ∧
      s.shared.swapped.map Prod.snd ++ list.map (fun a => (s.shared.memory a).element) =
        s.shared.linked.map Prod.snd) ∧
    (s.shared.linked.map Prod.fst).Nodup ∧ (s.shared.swapped.map Prod.fst).Nodup ∧
    (∀ c e, (c, e) ∈ s.shared.linked → (c, .enqueue e) ∈ labels) ∧
    (∀ c, s.thread c = .enqueued → c ∈ s.shared.linked.map Prod.fst) ∧
    (∀ c v, s.thread c = .drained (some v) → (c, some v) ∈ s.shared.swapped) ∧
    (∀ c e result, (c, e) ∈ s.shared.swapped → s.thread c = .drained result → result = e) ∧
    (∀ c, s.thread c = .drained none → EmptyDuring c labels s ∨ ∃ d, (d, .enqueue none) ∈ labels) ∧
    ∀ c, s.thread c ≠ .aborted := by
  obtain ⟨g, shape, own⟩ := run.shape
  have known : ∀ {c call}, s.thread c = call → OwnCall g s.shared c call := by
    rintro c _ rfl
    exact own c
  refine ⟨⟨g.order.drop (s.shared.swapped.length + 1), shape.after shape.head, ?_, ?_⟩,
    shape.linkedOnce, shape.swappedOnce, fun c e mem => run.arguments.linked (c, e) mem,
    fun c enqueued => known enqueued, ?_, ?_, ?_, fun c aborted => known aborted⟩
  · have inside : s.shared.tail ∈ g.order.drop s.shared.swapped.length := by
      refine List.mem_of_getElem? (i := g.last - s.shared.swapped.length) ?_
      rw [List.getElem?_drop, Nat.add_sub_cancel' shape.behind]
      exact shape.tail
    have first := (List.getElem?_eq_some_iff.mp shape.head).1
    have head := (List.getElem?_eq_some_iff.mp shape.head).2
    rwa [List.drop_eq_getElem_cons first, head] at inside
  · rw [shape.contents, shape.swapped_contents]
  · intro c v drained
    rcases known drained with taken | ⟨null, _⟩
    · exact taken
    · cases null
  · intro c e result taken drained
    rcases known drained with returned | ⟨_, absent⟩
    · exact List.inj_on_of_nodup_map shape.swappedOnce returned taken rfl |> congrArg Prod.snd
    · exact absurd (List.mem_map_of_mem taken) absent
  · intro c drained
    rcases known drained with taken | ⟨_, absent⟩
    · have stored : none ∈ s.shared.linked.map Prod.snd :=
        shape.drained.subset (List.mem_map_of_mem taken)
      obtain ⟨⟨d, e⟩, linked, rfl⟩ := List.mem_map.mp stored
      exact .inr ⟨d, run.arguments.linked _ linked⟩
    · exact .inl (run.emptyDuring.2 drained absent)

/-- The call takes so many steps in a row. -/
def queueAdvances (c : Nat) : Nat → QueueState V → QueueState V
  | 0, s => s
  | n + 1, s => queueAdvances c n (s.set c (queueAdvance c s.shared (s.thread c)))

theorem QueueRun.advances (run : QueueRun labels s) (c n : Nat) :
    QueueRun (labels ++ List.replicate n (c, .advance)) (queueAdvances c n s) := by
  induction n generalizing labels s with
  | zero =>
    rw [List.replicate_zero, List.append_nil]
    exact run
  | succ n ih =>
    rw [List.replicate_succ, ← List.singleton_append, ← List.append_assoc]
    exact ih (.snoc run (.mk .advance))

end Run

/-- A call takes 7 while the one that enqueues it is under way: it begins before 7 is linked, and
moves the tail itself before it returns. -/
theorem queue_linearizable_single : ∃ s : QueueState Nat,
    QueueRun ([(0, .enqueue (some 7)), (1, .drain)] ++ List.replicate 2 (1, .advance) ++
      List.replicate 4 (0, .advance) ++ List.replicate 12 (1, .advance) ++ [(0, .advance)]) s ∧
      s.thread 0 = .enqueued ∧ s.thread 1 = .drained (some 7) ∧ (1, some 7) ∈ s.shared.swapped := by
  have asked : QueueRun [(0, .enqueue (some 7))] (queueInitial.set 0 (queueEnqueue queueCreate (some 7))) :=
    .single (.mk .enqueue)
  have begun := QueueRun.advances (.snoc asked (.mk (i := 1) .drain)) 1 2
  have drained := (begun.advances 0 4).advances 1 12
  have returned := drained.advances 0 1
  exact ⟨_, returned, rfl, rfl, (queue_linearizable returned).2.2.2.2.2.1 1 7 rfl⟩

end KommunikationNetze.Utils
