import KommunikationNetze.Utils.DictionaryEnumeration
import KommunikationNetze.Utils.StackBounds

/-! The stack of a dictionary iterator. A left child waits on it while everything below the
right child is passed, so its height depends on the shape of the tree, and the memory of a
new stack holds two entries. -/
namespace KommunikationNetze.Utils
open CLib SearchTree Transition
variable {α : Type}

/-- The stack calls of `if (entry) StackPush(stack, entry);`. -/
def pushCalls : DictionaryEntry α → List (StackCall (DictionaryEntry α))
  | .nil => []
  | entry@(.node ..) => [.push entry]

/-- The stack calls of `DictionaryIteratorNext`. -/
def nextCalls (stack : Stack (DictionaryEntry α)) : List (StackCall (DictionaryEntry α)) :=
  .pop :: match (stackPop stack).1 with
    | some (.node _ _ leftEntry rightEntry) => pushCalls leftEntry ++ pushCalls rightEntry
    | _ => []

/-- The stack calls of so many steps of an iterator. -/
def stepCalls : Nat → DictionaryIterator α → List (StackCall (DictionaryEntry α))
  | 0, _ => []
  | steps + 1, iter => nextCalls iter.stack ++ stepCalls steps (dictionaryIteratorNext iter).2

/-- The stack calls of `DictionaryGetIterator` and of so many steps after it. -/
def iteratorCalls (headEntry : DictionaryEntry α) (steps : Nat) : List (StackCall (DictionaryEntry α)) :=
  .push headEntry ::
    stepCalls (steps + 2) { currentEntry := .nil, stack := stackPush stackCreate headEntry }

/-- What the push of an entry adds to the stack: nothing for NULL. -/
def onStack : DictionaryEntry α → List (DictionaryEntry α)
  | .nil => []
  | entry@(.node ..) => [entry]

/-- How many entries are on the stack at most while a tree is passed. The left child waits
while the right one is passed. -/
def needed : DictionaryEntry α → Nat
  | .nil => 0
  | .node _ _ leftEntry rightEntry =>
      max 1 (max (needed leftEntry) (needed rightEntry + (onStack leftEntry).length))

/-- The same for the trees that are on the stack, the uppermost first. -/
def neededAll : List (DictionaryEntry α) → Nat
  | [] => 0
  | entry :: rest => max (needed entry + rest.length) (neededAll rest)

section Calls

theorem foldl_pushCalls (stack : Stack (DictionaryEntry α)) (entry : DictionaryEntry α) :
    (pushCalls entry).foldl StackCall.run stack = pushEntry stack entry := by
  cases entry <;> rfl

/-- The calls do to the stack what the step of the iterator does. -/
theorem foldl_nextCalls (iter : DictionaryIterator α) :
    (nextCalls iter.stack).foldl StackCall.run iter.stack = (dictionaryIteratorNext iter).2.stack := by
  rw [nextCalls, dictionaryIteratorNext, List.foldl_cons]
  generalize popped : stackPop iter.stack = result
  obtain ⟨entry, stack⟩ := result
  have left : StackCall.pop.run iter.stack = stack := congrArg Prod.snd popped
  rw [left]
  cases entry with
  | none => rfl
  | some entry =>
    cases entry with
    | nil => rfl
    | node key value leftEntry rightEntry =>
      simp only [List.foldl_append, foldl_pushCalls]

end Calls

/-- During these calls on these objects never more than `most` of them wait. -/
def Within {τ : Type} (most : Nat) (objects : List τ) (calls : List (StackCall τ)) : Prop :=
  ∀ before, before <+: calls → (before.foldl StackCall.waiting objects).length ≤ most

section Within
variable {τ : Type} {most : Nat} {objects : List τ}

theorem within_nil : Within most objects [] ↔ objects.length ≤ most := by
  constructor
  · exact fun within => within [] (List.prefix_refl _)
  · intro few before early
    rw [List.prefix_nil.mp early]
    exact few

theorem within_cons (call : StackCall τ) (calls : List (StackCall τ)) :
    Within most objects (call :: calls) ↔
      objects.length ≤ most ∧ Within most (call.waiting objects) calls := by
  constructor
  · intro within
    refine ⟨within [] (List.nil_prefix ..), fun before early => ?_⟩
    exact within (call :: before) ((List.prefix_cons_inj call).mpr early)
  · rintro ⟨few, within⟩ before early
    rcases List.prefix_cons_iff.mp early with rfl | ⟨rest, rfl, shorter⟩
    · exact few
    · exact within rest shorter

theorem within_append (first second : List (StackCall τ)) :
    Within most objects (first ++ second) ↔
      Within most objects first ∧ Within most (first.foldl StackCall.waiting objects) second := by
  induction first generalizing objects with
  | nil =>
    rw [List.nil_append, within_nil]
    exact (and_iff_right_of_imp fun within => within [] (List.nil_prefix ..)).symm
  | cons call first ih =>
    rw [List.cons_append, within_cons, ih, within_cons, List.foldl_cons, and_assoc]

theorem foldl_run_contents (stack : Stack τ) (calls : List (StackCall τ)) :
    (calls.foldl StackCall.run stack).contents = calls.foldl StackCall.waiting stack.contents := by
  induction calls generalizing stack with
  | nil => rfl
  | cons call calls ih => rw [List.foldl_cons, List.foldl_cons, ih, (run_contents stack call).1]

end Within

section Needed
variable {iter : DictionaryIterator α} {entries : List (DictionaryEntry α)} {most : Nat}

theorem foldl_waiting_pushCalls (entry : DictionaryEntry α) (objects : List (DictionaryEntry α)) :
    (pushCalls entry).foldl StackCall.waiting objects = onStack entry ++ objects := by
  cases entry <;> rfl

theorem within_pushCalls (entry : DictionaryEntry α) (objects : List (DictionaryEntry α)) :
    Within most objects (pushCalls entry) ↔ (onStack entry ++ objects).length ≤ most := by
  cases entry with
  | nil => exact within_nil
  | node _ _ _ _ =>
    rw [pushCalls, within_cons, within_nil]
    exact and_iff_right_of_imp fun more => Nat.le_of_succ_le more

theorem needed_pos (present : entry ≠ .nil) : 0 < needed (entry : DictionaryEntry α) := by
  cases entry with
  | nil => exact absurd rfl present
  | node _ _ _ _ => exact Nat.lt_of_lt_of_le Nat.one_pos (Nat.le_max_left 1 _)

theorem length_le_neededAll (clean : ∀ entry ∈ entries, entry ≠ .nil) :
    entries.length ≤ neededAll entries := by
  cases entries with
  | nil => exact Nat.le_refl _
  | cons entry rest =>
    have positive := needed_pos (clean entry List.mem_cons_self)
    rw [List.length_cons, neededAll]
    omega

/-- An entry needs itself on the stack and then what its children need. -/
theorem neededAll_node (key : CString) (value : Option α) (left right : DictionaryEntry α)
    (rest : List (DictionaryEntry α)) :
    neededAll (.node key value left right :: rest) =
      max (rest.length + 1) (neededAll (onStack right ++ (onStack left ++ rest))) := by
  cases left <;> cases right <;>
    simp only [needed, neededAll, onStack, List.cons_append, List.nil_append, List.length_cons,
      List.length_nil] <;>
    omega

/-- The calls of one step, with what they leave on the stack. -/
theorem within_nextCalls (most : Nat) (clean : iter.Clean) :
    (Within most iter.stack.contents (nextCalls iter.stack) ↔
      iter.stack.contents.length ≤ most ∧
        (dictionaryIteratorNext iter).2.stack.contents.length ≤ most) ∧
    neededAll iter.stack.contents =
      max iter.stack.contents.length (neededAll (dictionaryIteratorNext iter).2.stack.contents) := by
  have after : (dictionaryIteratorNext iter).2.stack.contents =
      (nextCalls iter.stack).foldl StackCall.waiting iter.stack.contents := by
    rw [← foldl_nextCalls, foldl_run_contents]
  rw [after]
  cases top : iter.stack.contents with
  | nil =>
    have calls : nextCalls iter.stack = [.pop] := by
      rw [nextCalls, Stack.pop_of_contents_nil top]
    rw [calls, within_cons, within_nil]
    exact ⟨Iff.rfl, rfl⟩
  | cons entry rest =>
    obtain ⟨popped, _⟩ := Stack.pop_of_contents_cons top
    cases entry with
    | nil => exact absurd rfl (clean .nil (by simp [top]))
    | node key value left right =>
      have calls : nextCalls iter.stack = .pop :: (pushCalls left ++ pushCalls right) := by
        rw [nextCalls, popped]
      rw [calls, within_cons, within_append, within_pushCalls, foldl_waiting_pushCalls,
        within_pushCalls, List.foldl_cons, List.foldl_append, foldl_waiting_pushCalls,
        foldl_waiting_pushCalls]
      refine ⟨?_, neededAll_node key value left right rest⟩
      refine and_congr_right fun _ => and_iff_right_of_imp fun more => ?_
      exact (List.suffix_append _ _).length_le.trans more

theorem within_stepCalls (clean : iter.Clean) (few : neededAll iter.stack.contents ≤ most) (steps : Nat) :
    Within most iter.stack.contents (stepCalls steps iter) := by
  induction steps generalizing iter with
  | zero => exact within_nil.mpr ((length_le_neededAll clean).trans few)
  | succ steps ih =>
    obtain ⟨step, needs⟩ := within_nextCalls most clean
    have cleanNext := (DictionaryIterator.next_spec clean).2.1
    rw [needs, Nat.max_le] at few
    rw [stepCalls, within_append, step, ← foldl_run_contents, foldl_nextCalls]
    exact ⟨⟨few.1, (length_le_neededAll cleanNext).trans few.2⟩, ih cleanNext few.2⟩

/-- A step takes an entry off the stack and puts none on it that it did not count. -/
theorem pendingSize_next (clean : iter.Clean) (top : iter.stack.contents = entry :: rest) :
    DictionaryIterator.pendingSize (dictionaryIteratorNext iter).2.stack <
      DictionaryIterator.pendingSize iter.stack := by
  obtain ⟨popped, left⟩ := Stack.pop_of_contents_cons top
  have size : DictionaryIterator.pendingSize iter.stack = entry.size + (rest.map Tree.size).sum := by
    simp [DictionaryIterator.pendingSize, top]
  cases entry with
  | nil => exact absurd rfl (clean .nil (by simp [top]))
  | node key value leftEntry rightEntry =>
    simp only [dictionaryIteratorNext, popped, DictionaryIterator.pendingSize_pushEntry, size, Tree.size]
    simp only [DictionaryIterator.pendingSize, left]
    omega

theorem neededAll_le (clean : iter.Clean)
    (within : ∀ steps, Within most iter.stack.contents (stepCalls steps iter)) :
    neededAll iter.stack.contents ≤ most := by
  generalize bound : DictionaryIterator.pendingSize iter.stack = size
  induction size using Nat.strong_induction_on generalizing iter with
  | _ size ih =>
    obtain ⟨step, needs⟩ := within_nextCalls most clean
    have cleanNext := (DictionaryIterator.next_spec clean).2.1
    cases top : iter.stack.contents with
    | nil => exact Nat.zero_le _
    | cons entry rest =>
      have smaller := pendingSize_next clean top
      rw [bound] at smaller
      rw [← top, needs]
      refine Nat.max_le.mpr ⟨within_nil.mp (within 0), ih _ smaller cleanNext (fun steps => ?_) rfl⟩
      have later := within (steps + 1)
      rw [stepCalls, within_append, ← foldl_run_contents, foldl_nextCalls] at later
      exact later.2

theorem stepCalls_extends (steps : Nat) (iter : DictionaryIterator α) :
    stepCalls steps iter <+: stepCalls (steps + 1) iter := by
  induction steps generalizing iter with
  | zero => exact List.nil_prefix
  | succ steps ih =>
    rw [stepCalls, stepCalls]
    exact (List.prefix_append_right_inj _).mpr (ih _)

/-- The height of the stack over a whole iteration. -/
theorem within_iteratorCalls {headEntry : DictionaryEntry α} (present : headEntry ≠ .nil) :
    (∀ steps, Within most [] (iteratorCalls headEntry steps)) ↔ needed headEntry ≤ most := by
  let iter : DictionaryIterator α := { currentEntry := .nil, stack := stackPush stackCreate headEntry }
  have top : iter.stack.contents = [headEntry] := by simp [iter]
  have clean : iter.Clean := by
    intro entry mem
    rw [top, List.mem_singleton] at mem
    exact mem ▸ present
  have needs : neededAll iter.stack.contents = needed headEntry := by
    rw [top, neededAll, neededAll, List.length_nil, Nat.add_zero, Nat.max_zero]
  have calls : ∀ steps, Within most [] (iteratorCalls headEntry steps) ↔
      Within most iter.stack.contents (stepCalls (steps + 2) iter) := by
    intro steps
    rw [iteratorCalls, within_cons, top]
    exact and_iff_right (Nat.zero_le _)
  rw [← needs]
  constructor
  · intro within
    refine neededAll_le clean fun steps before early => ?_
    have longer := (stepCalls_extends steps iter).trans (stepCalls_extends (steps + 1) iter)
    exact (calls steps).mp (within steps) before (early.trans longer)
  · intro few steps
    exact (calls steps).mpr (within_stepCalls clean few (steps + 2))

end Needed

/-- Half of the entries, rounded up, are enough. -/
theorem needed_le (entry : DictionaryEntry α) : 2 * needed entry ≤ entry.size + 1 := by
  induction entry with
  | nil => exact Nat.zero_le _
  | node key value left right ihl ihr =>
    have waits : (onStack left).length ≤ left.size := by
      cases left with
      | nil => exact Nat.le_refl _
      | node _ _ _ _ => exact Nat.succ_le_succ (Nat.zero_le _)
    have once : (onStack left).length ≤ 1 := by cases left <;> simp [onStack]
    rw [needed, Tree.size]
    omega

/-- A whole iteration stays inside the memory of its stack exactly if its tree never makes
more than two entries wait. With four entries it cannot; five are enough for an overflow. -/
theorem iterator_stack {calls : List (DictionaryCall α)} (nonempty : ∀ call ∈ calls, call.key ≠ []) :
    ((∀ steps, EveryStep (fun before call => call.InBounds (stackAfter before))
        (iteratorCalls (dictionaryAfter calls).headEntry steps)) ↔
      needed (dictionaryAfter calls).headEntry ≤ 2) ∧
    ((DictionaryIterator.entries (dictionaryAfter calls)).length ≤ 4 →
      needed (dictionaryAfter calls).headEntry ≤ 2) := by
  obtain ⟨left, shape, upcoming, _⟩ :=
    DictionaryIterator.iteratorFrom_spec _ (dictionaryAfter_head nonempty)
  constructor
  · simp only [everyInBounds_iff]
    exact within_iteratorCalls (by simp [shape])
  · intro few
    rw [DictionaryIterator.entries, upcoming, (DictionaryIterator.order_perm left).length_eq,
      Tree.length_walk] at few
    have half := needed_le left
    rw [shape, needed, needed]
    have once : (onStack left).length ≤ 1 := by cases left <;> simp [onStack]
    omega

/-- Five nicknames, of which the third one has one on each side of it. -/
def fiveCalls : List (DictionaryCall Nat) :=
  [.set (literal "m") (some 1), .set (literal "t") (some 2), .set (literal "f") (some 3),
    .set (literal "h") (some 4), .set (literal "c") (some 5)]

theorem iterator_stack_five : ¬∀ steps, EveryStep (fun before call => call.InBounds (stackAfter before))
    (iteratorCalls (dictionaryAfter fiveCalls).headEntry steps) := by
  have nonempty : ∀ call ∈ fiveCalls, call.key ≠ [] := by decide
  rw [(iterator_stack nonempty).1]
  decide

end KommunikationNetze.Utils
