import KommunikationNetze.Library.Transition
import KommunikationNetze.Utils.Stack
import Mathlib.Data.List.Induction

/-! Whether the stack stays inside its memory. It only grows once the uppermost object is
already behind the last slot, so the third object is stored behind the two slots of a new
stack. The counters do not wrap below 2^31 objects. -/
namespace KommunikationNetze.Utils
open Transition
variable {α : Type}

inductive StackCall (α : Type) where
  | push (object : α)
  | pop
  deriving DecidableEq

namespace StackCall

def run (stack : Stack α) : StackCall α → Stack α
  | push object => stackPush stack object
  | pop => (stackPop stack).2

/-- The index that the call writes or reads. -/
def index (stack : Stack α) : StackCall α → Option Int
  | push _ => some (stack.uppermostObject + 1)
  | pop => if stack.uppermostObject < 0 then none else some stack.uppermostObject

/-- Inside the slots that are allocated when the index is used: a push grows first, and a pop
leaves the slots alone. -/
def InBounds (stack : Stack α) (call : StackCall α) : Prop :=
  ∀ i, call.index stack = some i → 0 ≤ i ∧ i < (call.run stack).slots

/-- What a pop returns. -/
def result (stack : Stack α) : StackCall α → Option (Option α)
  | push _ => none
  | pop => some (stackPop stack).1

/-- The list of the objects that wait to be popped, the last pushed first. -/
def waiting (objects : List α) : StackCall α → List α
  | push object => object :: objects
  | pop => objects.tail

/-- What a pop of that list returns: NULL if it is empty. -/
def lifo (objects : List α) : StackCall α → Option (Option α)
  | push _ => none
  | pop => some objects.head?

end StackCall

/-- The stack after calls in some order. -/
def stackAfter (calls : List (StackCall α)) : Stack α := calls.foldl StackCall.run stackCreate

/-- The objects that are pushed and not popped yet. -/
def waitingAfter (calls : List (StackCall α)) : List α := calls.foldl StackCall.waiting []

theorem stackAfter_snoc (calls : List (StackCall α)) (call : StackCall α) :
    stackAfter (calls ++ [call]) = call.run (stackAfter calls) := by
  rw [stackAfter, List.foldl_append]
  rfl

theorem waitingAfter_snoc (calls : List (StackCall α)) (call : StackCall α) :
    waitingAfter (calls ++ [call]) = call.waiting (waitingAfter calls) := by
  rw [waitingAfter, List.foldl_append]
  rfl

/-- One call on the memory is one call on the list. -/
theorem run_contents (stack : Stack α) (call : StackCall α) :
    (call.run stack).contents = call.waiting stack.contents ∧
      call.result stack = call.lifo stack.contents := by
  cases call with
  | push object => exact ⟨stack.contents_push object, rfl⟩
  | pop =>
    cases top : stack.contents with
    | nil =>
      rw [StackCall.run, StackCall.result, Stack.pop_of_contents_nil top]
      exact ⟨top, rfl⟩
    | cons object rest =>
      obtain ⟨popped, left⟩ := Stack.pop_of_contents_cons top
      rw [StackCall.run, StackCall.result, popped]
      exact ⟨left, rfl⟩

theorem contents_stackAfter (calls : List (StackCall α)) :
    (stackAfter calls).contents = waitingAfter calls := by
  induction calls using List.reverseRecOn with
  | nil => rfl
  | append_singleton calls call ih =>
    rw [stackAfter_snoc, waitingAfter_snoc, (run_contents _ call).1, ih]

theorem Stack.uppermost_contents (stack : Stack α) :
    stack.uppermostObject + 1 = stack.contents.length := by
  have bottom := stack.bottom
  have written := stack.written
  rw [Stack.contents, List.length_reverse, List.length_take]
  omega

/-- With at most two objects on two slots a call does not grow the stack. -/
theorem slots_run {stack : Stack α} (slots : stack.slots = 2) (few : stack.contents.length ≤ 2)
    (call : StackCall α) : (call.run stack).slots = 2 := by
  have depth := stack.uppermost_contents
  cases call with
  | push object =>
    rw [StackCall.run, stackPush]
    simp only
    rw [if_neg (by omega), slots]
  | pop =>
    rw [StackCall.run, stackPop]
    split
    · exact slots
    · exact slots

/-- Then a call stays inside the slots if it leaves at most two objects. -/
theorem inBounds_iff {stack : Stack α} (slots : stack.slots = 2) (few : stack.contents.length ≤ 2)
    (call : StackCall α) : call.InBounds stack ↔ (call.waiting stack.contents).length ≤ 2 := by
  have depth := stack.uppermost_contents
  rw [StackCall.InBounds, slots_run slots few]
  cases call with
  | push object =>
    simp only [StackCall.index, StackCall.waiting, List.length_cons, Option.some.injEq, forall_eq']
    omega
  | pop =>
    refine iff_of_true ?_ ?_
    · intro i used
      rw [StackCall.index] at used
      split at used
      · cases used
      · cases used
        omega
    · rw [StackCall.waiting, List.length_tail]
      omega

/-- At most two objects ever wait. -/
def AtMostTwo (calls : List (StackCall α)) : Prop :=
  ∀ before, before <+: calls → (waitingAfter before).length ≤ 2

theorem atMostTwo_concat (calls : List (StackCall α)) (call : StackCall α) :
    AtMostTwo (calls ++ [call]) ↔ AtMostTwo calls ∧ (waitingAfter (calls ++ [call])).length ≤ 2 := by
  constructor
  · intro few
    exact ⟨fun before early => few before (early.trans (List.prefix_append _ _)),
      few _ (List.prefix_refl _)⟩
  · rintro ⟨few, last⟩ before early
    rcases List.prefix_concat_iff.mp early with rfl | shorter
    · exact last
    · exact few before shorter

theorem slots_stackAfter (few : AtMostTwo (calls : List (StackCall α))) :
    (stackAfter calls).slots = 2 := by
  induction calls using List.reverseRecOn with
  | nil => rfl
  | append_singleton calls call ih =>
    obtain ⟨earlier, _⟩ := (atMostTwo_concat calls call).mp few
    have depth := earlier calls (List.prefix_refl _)
    rw [← contents_stackAfter] at depth
    rw [stackAfter_snoc]
    exact slots_run (ih earlier) depth call

theorem everyInBounds_iff (calls : List (StackCall α)) :
    EveryStep (fun before call => call.InBounds (stackAfter before)) calls ↔ AtMostTwo calls := by
  induction calls using List.reverseRecOn with
  | nil =>
    refine iff_of_true everyStep_nil ?_
    intro before early
    rw [List.prefix_nil.mp early]
    exact Nat.zero_le 2
  | append_singleton calls call ih =>
    rw [everyStep_concat, atMostTwo_concat, ih]
    refine and_congr_right fun few => ?_
    have depth := few calls (List.prefix_refl _)
    rw [← contents_stackAfter] at depth
    rw [waitingAfter_snoc, ← contents_stackAfter]
    exact inBounds_iff (slots_stackAfter few) depth call

/-- Every index stays inside the slots, and every pop returns what a pop of the list does,
exactly if there are never more than two objects on the stack. -/
theorem stack_bounds (calls : List (StackCall α)) :
    EveryStep (fun before call => call.InBounds (stackAfter before) ∧
      call.result (stackAfter before) = call.lifo (waitingAfter before)) calls ↔
    AtMostTwo calls := by
  rw [← everyInBounds_iff]
  constructor
  · exact fun every before call early => (every before call early).1
  · intro every before call early
    refine ⟨every before call early, ?_⟩
    rw [(run_contents _ call).2, contents_stackAfter]

/-- The third object is stored at the index 2 of two slots. -/
theorem stack_bounds_third : ¬ EveryStep (fun before call => call.InBounds (stackAfter before) ∧
    call.result (stackAfter before) = call.lifo (waitingAfter before))
      [StackCall.push 0, .push 1, .push 2] := by
  intro every
  obtain ⟨inside, _⟩ := every [.push 0, .push 1] (.push 2) (List.prefix_refl _)
  have below := (inside 2 (by decide)).2
  exact absurd below (by decide)

end KommunikationNetze.Utils
