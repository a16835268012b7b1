import KommunikationNetze.Utils.Queue
import Mathlib.Data.List.Infix
import Mathlib.Data.List.Nodup

/-! The nodes of the queue in the order in which they were linked, the dummy first. `head`
and `tail` are positions in it, and a local copy in a call is a position that they have
left or not. A step of a call moves the positions forward or puts a node at the end. -/
namespace KommunikationNetze.Utils
variable {V : Type}

/-- The linked nodes, the position of `tail`, and for a node that is not linked yet the
call that does it. -/
structure QueueLayout where
  order : List NodeRef
  last : Nat
  owner : NodeRef → Option Nat

/-- The node at this position. -/
def QueueLayout.At (g : QueueLayout) (i : Nat) (a : NodeRef) : Prop := g.order[i]? = some a

structure QueueShape (g : QueueLayout) (queue : Queue V) : Prop where
  nodup : g.order.Nodup
  allocated : ∀ a ∈ g.order, a < queue.allocated
  next : ∀ {i a}, g.At i a → (queue.memory a).next = g.order[i + 1]?
  head : g.At queue.swapped.length queue.head
  tail : g.At g.last queue.tail
  behind : queue.swapped.length ≤ g.last
  elements : g.order.tail.map (fun a => (queue.memory a).element) = queue.linked.map Prod.snd
  drained : queue.swapped.map Prod.snd <+: queue.linked.map Prod.snd
  unmarked : ∀ {i a}, queue.swapped.length < i → g.At i a →
    (queue.memory a).dequeued = false
  live : ∀ {i a}, queue.swapped.length ≤ i → g.At i a → (queue.memory a).freed = false
  linkedOnce : (queue.linked.map Prod.fst).Nodup
  swappedOnce : (queue.swapped.map Prod.fst).Nodup

/-- The node a call of `QueueEnqueue` has allocated and will link. -/
structure OwnNode (g : QueueLayout) (queue : Queue V) (c : Nat) (node : NodeRef) : Prop where
  owner : g.owner node = some c
  allocated : node < queue.allocated
  unlinked : node ∉ g.order
  fields : (queue.memory node).next = none ∧ (queue.memory node).dequeued = false ∧
    (queue.memory node).freed = false
  fresh : c ∉ queue.linked.map Prod.fst

/-- The node whose predecessor this call of `QueueDrain` has taken. -/
def Took (g : QueueLayout) (queue : Queue V) (c : Nat) (head next : NodeRef) (element : Option V) : Prop :=
  ∃ k, queue.swapped[k]? = some (c, element) ∧ g.At k head ∧
    g.At (k + 1) next ∧ (queue.memory next).dequeued = false

/-- What a call knows about its local variables. -/
def OwnCall (g : QueueLayout) (queue : Queue V) (c : Nat) : QueueCall V → Prop
  | .idle => c ∉ queue.linked.map Prod.fst ∧ c ∉ queue.swapped.map Prod.fst
  | .enqueueReadTail node => OwnNode g queue c node
  | .enqueueReadNext node tail | .enqueueLink node tail =>
    OwnNode g queue c node ∧ ∃ i ≤ g.last, g.At i tail
  | .enqueueCompare node tail next => OwnNode g queue c node ∧
    ∃ i ≤ g.last, g.At i tail ∧ ∀ n, next = some n → g.At (i + 1) n
  | .enqueueHelp node tail next => OwnNode g queue c node ∧
    ∃ i, g.At i tail ∧ g.At (i + 1) next
  | .enqueueSwing node tail => c ∈ queue.linked.map Prod.fst ∧
    ∃ i, g.At i tail ∧ g.At (i + 1) node
  | .enqueued => c ∈ queue.linked.map Prod.fst
  | .drainReadHead => c ∉ queue.swapped.map Prod.fst
  | .drainReadTail head => c ∉ queue.swapped.map Prod.fst ∧
    ∃ i ≤ queue.swapped.length, g.At i head
  | .drainReadNext head tail => c ∉ queue.swapped.map Prod.fst ∧
    ∃ i j, i ≤ queue.swapped.length ∧ i ≤ j ∧ j ≤ g.last ∧
      g.At i head ∧ g.At j tail
  | .drainCompare head tail next => c ∉ queue.swapped.map Prod.fst ∧
    ∃ i j, i ≤ j ∧ j ≤ g.last ∧ g.At i head ∧ g.At j tail ∧
      (next = none → i = j) ∧ ∀ n, next = some n → g.At (i + 1) n
  | .drainHelp tail next => c ∉ queue.swapped.map Prod.fst ∧
    ∃ i, g.At i tail ∧ g.At (i + 1) next
  | .drainReadElement head next => c ∉ queue.swapped.map Prod.fst ∧
    ∃ i < g.last, g.At i head ∧ g.At (i + 1) next
  | .drainSwap head next element => c ∉ queue.swapped.map Prod.fst ∧
    (∃ i < g.last, g.At i head ∧ g.At (i + 1) next) ∧
      element = (queue.memory next).element
  | .drainAssert head next element | .drainMark head next element => Took g queue c head next element
  | .drainFree head element => ∃ k, queue.swapped[k]? = some (c, element) ∧ g.At k head
  | .drained result => (c, result) ∈ queue.swapped ∨ result = none ∧ c ∉ queue.swapped.map Prod.fst
  | .aborted => False

/-- What a step of the call `c` leaves to the other calls. -/
structure Leaves (c : Nat) (g g' : QueueLayout) (queue after : Queue V) : Prop where
  order : g.order <+: g'.order
  last : g.last ≤ g'.last
  linked : queue.linked <+: after.linked
  swapped : queue.swapped <+: after.swapped
  unlinked : ∀ {d}, d ≠ c → d ∉ queue.linked.map Prod.fst → d ∉ after.linked.map Prod.fst
  unswapped : ∀ {d}, d ≠ c → d ∉ queue.swapped.map Prod.fst → d ∉ after.swapped.map Prod.fst
  element : ∀ {a}, a < queue.allocated → (after.memory a).element = (queue.memory a).element
  node : ∀ {d a}, d ≠ c → OwnNode g queue d a → OwnNode g' after d a
  unmarked : ∀ {d k e a}, d ≠ c → queue.swapped[k]? = some (d, e) → g.At (k + 1) a →
    (queue.memory a).dequeued = false → (after.memory a).dequeued = false

namespace Leaves
variable {c d : Nat} {g g' : QueueLayout} {queue after : Queue V}

theorem refl (c : Nat) (g : QueueLayout) (queue : Queue V) : Leaves c g g queue queue where
  order := List.prefix_refl _
  last := Nat.le_refl _
  linked := List.prefix_refl _
  swapped := List.prefix_refl _
  unlinked _ := id
  unswapped _ := id
  element _ := rfl
  node _ := id
  unmarked _ _ _ := id

variable (leaves : Leaves c g g' queue after)
include leaves

theorem at_order (found : g.At i a) : g'.At i a := by
  obtain ⟨rest, same⟩ := leaves.order
  rw [QueueLayout.At, ← same, List.getElem?_append_left (List.getElem?_eq_some_iff.mp found).1]
  exact found

theorem at_swapped {k : Nat} {p : Nat × Option V} (found : queue.swapped[k]? = some p) :
    after.swapped[k]? = some p := by
  obtain ⟨rest, same⟩ := leaves.swapped
  rw [← same, List.getElem?_append_left (List.getElem?_eq_some_iff.mp found).1]
  exact found

theorem swapped_le : queue.swapped.length ≤ after.swapped.length := leaves.swapped.length_le

theorem own (shape : QueueShape g queue) (other : d ≠ c) (own : OwnCall g queue d call) :
    OwnCall g' after d call := by
  cases call with
  | idle => exact ⟨leaves.unlinked other own.1, leaves.unswapped other own.2⟩
  | enqueueReadTail node => exact leaves.node other own
  | enqueueReadNext node tail | enqueueLink node tail =>
    obtain ⟨owned, i, passed, found⟩ := own
    exact ⟨leaves.node other owned, i, passed.trans leaves.last, leaves.at_order found⟩
  | enqueueCompare node tail next =>
    obtain ⟨owned, i, passed, found, follows⟩ := own
    exact ⟨leaves.node other owned, i, passed.trans leaves.last, leaves.at_order found,
      fun n same => leaves.at_order (follows n same)⟩
  | enqueueHelp node tail next =>
    obtain ⟨owned, i, found, follows⟩ := own
    exact ⟨leaves.node other owned, i, leaves.at_order found, leaves.at_order follows⟩
  | enqueueSwing node tail =>
    obtain ⟨linked, i, found, follows⟩ := own
    exact ⟨(leaves.linked.map _).subset linked, i, leaves.at_order found, leaves.at_order follows⟩
  | enqueued => exact (leaves.linked.map _).subset own
  | drainReadHead => exact leaves.unswapped other own
  | drainReadTail head =>
    obtain ⟨fresh, i, passed, found⟩ := own
    exact ⟨leaves.unswapped other fresh, i, passed.trans leaves.swapped_le, leaves.at_order found⟩
  | drainReadNext head tail =>
    obtain ⟨fresh, i, j, passed, ordered, behind, first, second⟩ := own
    exact ⟨leaves.unswapped other fresh, i, j, passed.trans leaves.swapped_le, ordered,
      behind.trans leaves.last, leaves.at_order first, leaves.at_order second⟩
  | drainCompare head tail next =>
    obtain ⟨fresh, i, j, ordered, behind, first, second, empty, follows⟩ := own
    exact ⟨leaves.unswapped other fresh, i, j, ordered, behind.trans leaves.last,
      leaves.at_order first, leaves.at_order second, empty,
      fun n same => leaves.at_order (follows n same)⟩
  | drainHelp tail next =>
    obtain ⟨fresh, i, found, follows⟩ := own
    exact ⟨leaves.unswapped other fresh, i, leaves.at_order found, leaves.at_order follows⟩
  | drainReadElement head next =>
    obtain ⟨fresh, i, behind, found, follows⟩ := own
    exact ⟨leaves.unswapped other fresh, i, behind.trans_le leaves.last, leaves.at_order found,
      leaves.at_order follows⟩
  | drainSwap head next element =>
    obtain ⟨fresh, ⟨i, behind, found, follows⟩, read⟩ := own
    refine ⟨leaves.unswapped other fresh,
      ⟨i, behind.trans_le leaves.last, leaves.at_order found, leaves.at_order follows⟩, ?_⟩
    rw [leaves.element (shape.allocated next (List.mem_of_getElem? follows))]
    exact read
  | drainAssert head next element | drainMark head next element =>
    obtain ⟨k, swapped, found, follows, unmarked⟩ := own
    exact ⟨k, leaves.at_swapped swapped, leaves.at_order found, leaves.at_order follows,
      leaves.unmarked other swapped follows unmarked⟩
  | drainFree head element =>
    obtain ⟨k, swapped, found⟩ := own
    exact ⟨k, leaves.at_swapped swapped, leaves.at_order found⟩
  | drained result =>
    rcases own with swapped | ⟨null, fresh⟩
    · exact .inl (leaves.swapped.subset swapped)
    · exact .inr ⟨null, leaves.unswapped other fresh⟩
  | aborted => exact own

end Leaves

namespace QueueShape
variable {g : QueueLayout} {queue : Queue V} {c : Nat}

theorem initial : QueueShape { order := [0], last := 0, owner := fun _ => none } (queueCreate : Queue V) where
  nodup := List.nodup_singleton 0
  allocated a mem := by
    obtain rfl := List.mem_singleton.mp mem
    exact Nat.zero_lt_one
  next {i a} found := by
    cases i with
    | zero => rfl
    | succ i => simp [QueueLayout.At] at found
  head := rfl
  tail := rfl
  behind := Nat.le_refl _
  elements := rfl
  drained := List.prefix_refl _
  unmarked _ _ := rfl
  live _ _ := rfl
  linkedOnce := List.nodup_nil
  swappedOnce := List.nodup_nil

variable (shape : QueueShape g queue)
include shape

theorem position (left : g.At i a) (right : g.At j a) : i = j :=
  (List.getElem?_inj (List.getElem?_eq_some_iff.mp left).1 shape.nodup).mp (left.trans right.symm)

/-- Marking or freeing a node of the list. -/
theorem store {fields : QueueElement V} (found : g.At i a) (next : fields.next = (queue.memory a).next)
    (element : fields.element = (queue.memory a).element)
    (unmarked : queue.swapped.length < i → fields.dequeued = false)
    (live : queue.swapped.length ≤ i → fields.freed = false) :
    QueueShape g (queue.store a fields) where
  nodup := shape.nodup
  allocated := shape.allocated
  next {j b} at_j := by
    by_cases same : b = a
    · subst same
      simp only [Queue.store_memory, Function.update_self]
      exact next.trans (shape.next at_j)
    · simp only [Queue.store_memory, Function.update_of_ne same]
      exact shape.next at_j
  head := shape.head
  tail := shape.tail
  behind := shape.behind
  elements := by
    refine Eq.trans (List.map_congr_left fun b _ => ?_) shape.elements
    by_cases same : b = a
    · subst same
      simpa only [Queue.store_memory, Function.update_self] using element
    · simp only [Queue.store_memory, Function.update_of_ne same]
  drained := shape.drained
  unmarked {j b} above at_j := by
    by_cases same : b = a
    · subst same
      simp only [Queue.store_memory, Function.update_self]
      exact unmarked (shape.position at_j found ▸ above)
    · simp only [Queue.store_memory, Function.update_of_ne same]
      exact shape.unmarked above at_j
  live {j b} above at_j := by
    by_cases same : b = a
    · subst same
      simp only [Queue.store_memory, Function.update_self]
      exact live (shape.position at_j found ▸ above)
    · simp only [Queue.store_memory, Function.update_of_ne same]
      exact shape.live above at_j
  linkedOnce := shape.linkedOnce
  swappedOnce := shape.swappedOnce

/-- What storing to a node of the list leaves to the others, if its element stays. -/
theorem leaves_store {fields : QueueElement V} (found : g.At i a)
    (element : fields.element = (queue.memory a).element)
    (unmarked : ∀ {d k e}, d ≠ c → queue.swapped[k]? = some (d, e) → i = k + 1 →
      (queue.memory a).dequeued = false → fields.dequeued = false) :
    Leaves c g g queue (queue.store a fields) where
  order := List.prefix_refl _
  last := Nat.le_refl _
  linked := List.prefix_refl _
  swapped := List.prefix_refl _
  unlinked _ := id
  unswapped _ := id
  element {b} _ := by
    by_cases same : b = a
    · subst same
      simpa only [Queue.store_memory, Function.update_self] using element
    · simp only [Queue.store_memory, Function.update_of_ne same]
  node {d b} _ owned := by
    have other : b ≠ a := by
      rintro rfl
      exact owned.unlinked (List.mem_of_getElem? found)
    refine { owned with fields := ?_ }
    simpa only [Queue.store_memory, Function.update_of_ne other] using owned.fields
  unmarked {d k e b} other swapped at_next clear := by
    by_cases same : b = a
    · subst same
      simp only [Queue.store_memory, Function.update_self]
      exact unmarked other swapped (shape.position found at_next) clear
    · simpa only [Queue.store_memory, Function.update_of_ne same] using clear

/-- The compare-and-swap of `tail` from a node to its successor. -/
theorem swingTail (found : g.At i a) (follows : g.At (i + 1) b) : ∃ last,
    QueueShape { g with last } (queue.swingTail a b) ∧
      Leaves c g { g with last } queue (queue.swingTail a b) := by
  by_cases current : queue.tail = a
  · have position : i = g.last := shape.position found (current ▸ shape.tail)
    subst position
    refine ⟨g.last + 1, ?_, ?_⟩
    · rw [Queue.swingTail, if_pos current]
      exact { shape with
        tail := follows
        behind := Nat.le_succ_of_le shape.behind }
    · rw [Queue.swingTail, if_pos current]
      exact { Leaves.refl c g queue with
        last := Nat.le_succ _
        node := fun _ owned => ⟨owned.owner, owned.allocated, owned.unlinked, owned.fields, owned.fresh⟩ }
  · refine ⟨g.last, ?_, ?_⟩
    · rw [Queue.swingTail, if_neg current]
      exact shape
    · rw [Queue.swingTail, if_neg current]
      exact Leaves.refl c g queue

omit shape in
theorem at_append (found : g.At i a) : { g with order := g.order ++ [node] }.At i a := by
  rw [QueueLayout.At, List.getElem?_append_left (List.getElem?_eq_some_iff.mp found).1]
  exact found

omit shape in
/-- A position of the longer list is an old one or that of the new node. -/
theorem at_append_cases (found : { g with order := g.order ++ [node] }.At i a) :
    g.At i a ∨ i = g.order.length ∧ a = node := by
  obtain ⟨inside, value⟩ := List.getElem?_eq_some_iff.mp found
  rw [List.length_append, List.length_singleton] at inside
  by_cases old : i < g.order.length
  · rw [QueueLayout.At, List.getElem?_append_left old] at found
    exact .inl found
  · obtain rfl : i = g.order.length := by omega
    exact .inr ⟨rfl, by simpa using value.symm⟩

/-- A node without a successor is the last one. -/
theorem at_end (found : g.At i a) (empty : (queue.memory a).next = none) : g.order.length = i + 1 := by
  have inside := (List.getElem?_eq_some_iff.mp found).1
  have atEnd : g.order.length ≤ i + 1 :=
    List.getElem?_eq_none_iff.mp ((shape.next found).symm.trans empty)
  omega

omit shape in
/-- Only a successor changes. -/
theorem link_memory (queue : Queue V) (c : Nat) (a node b : NodeRef) :
    (queue.link c a node).memory b =
      { queue.memory b with next := if b = a then some node else (queue.memory b).next } := by
  by_cases same : b = a
  · subst same
    simp only [Queue.link, Queue.store_memory, Function.update_self, if_true]
  · simp only [Queue.link, Queue.store_memory, Function.update_of_ne same, if_neg same]

/-- The compare-and-swap of the successor of the last node, when it succeeds. -/
theorem link (owned : OwnNode g queue c node) (found : g.At i a)
    (empty : (queue.memory a).next = none) :
    QueueShape { g with order := g.order ++ [node] } (queue.link c a node) where
  nodup := by
    rw [← List.concat_eq_append]
    exact shape.nodup.concat owned.unlinked
  allocated b mem := by
    rcases List.mem_append.mp mem with old | new
    · exact shape.allocated b old
    · obtain rfl := List.mem_singleton.mp new
      exact owned.allocated
  next {j b} at_j := by
    have length := shape.at_end found empty
    rcases at_append_cases at_j with old | ⟨rfl, rfl⟩
    · by_cases same : b = a
      · subst same
        obtain rfl := shape.position old found
        rw [link_memory, ← length, List.getElem?_concat_length]
        exact if_pos rfl
      · have before : j + 1 < g.order.length := by
          have inside := (List.getElem?_eq_some_iff.mp old).1
          have different : j ≠ i := by
            rintro rfl
            exact same (Option.some.inj (old.symm.trans found))
          omega
        rw [link_memory, List.getElem?_append_left before]
        exact (if_neg same).trans (shape.next old)
    · have other : b ≠ a := by
        rintro rfl
        exact owned.unlinked (List.mem_of_getElem? found)
      rw [link_memory, List.getElem?_eq_none (by simp)]
      exact (if_neg other).trans owned.fields.1
  head := at_append shape.head
  tail := at_append shape.tail
  behind := shape.behind
  elements := by
    have nonempty : g.order ≠ [] := by
      rintro empty
      have inside := (List.getElem?_eq_some_iff.mp found).1
      simp [empty] at inside
    simp only [link_memory, List.map_append, List.tail_append_of_ne_nil nonempty]
    rw [shape.elements]
    simp only [Queue.link, List.map_append, List.map_cons, List.map_nil]
  drained := by
    simp only [Queue.link, List.map_append]
    exact shape.drained.trans (List.prefix_append _ _)
  unmarked {j b} above at_j := by
    rw [link_memory]
    rcases at_append_cases at_j with old | ⟨_, rfl⟩
    · exact shape.unmarked above old
    · exact owned.fields.2.1
  live {j b} above at_j := by
    rw [link_memory]
    rcases at_append_cases at_j with old | ⟨_, rfl⟩
    · exact shape.live above old
    · exact owned.fields.2.2
  linkedOnce := by
    simp only [Queue.link, List.map_append, List.map_cons, List.map_nil]
    rw [← List.concat_eq_append]
    exact shape.linkedOnce.concat owned.fresh
  swappedOnce := shape.swappedOnce

omit shape in
theorem leaves_link (owned : OwnNode g queue c node) (found : g.At i a) :
    Leaves c g { g with order := g.order ++ [node] } queue (queue.link c a node) where
  order := List.prefix_append _ _
  last := Nat.le_refl _
  linked := List.prefix_append _ _
  swapped := List.prefix_refl _
  unlinked other fresh := by
    simp only [Queue.link, List.map_append, List.map_cons, List.map_nil, List.mem_append,
      List.mem_singleton, not_or]
    exact ⟨fresh, other⟩
  unswapped _ := id
  element {b} _ := by rw [link_memory]
  node {d b} other theirs := by
    have different : b ≠ node := by
      rintro rfl
      exact other (Option.some.inj (theirs.owner.symm.trans owned.owner))
    have linked : b ≠ a := by
      rintro rfl
      exact theirs.unlinked (List.mem_of_getElem? found)
    refine ⟨theirs.owner, theirs.allocated, ?_, ?_, ?_⟩
    · simp only [List.mem_append, List.mem_singleton, not_or]
      exact ⟨theirs.unlinked, different⟩
    · rw [link_memory]
      exact ⟨(if_neg linked).trans theirs.fields.1, theirs.fields.2⟩
    · simp only [Queue.link, List.map_append, List.map_cons, List.map_nil, List.mem_append,
        List.mem_singleton, not_or]
      exact ⟨theirs.fresh, other⟩
  unmarked {d k e b} _ _ _ clear := by
    rw [link_memory]
    exact clear

/-- The compare-and-swap of `head`, when it succeeds. -/
theorem swapHead (behind : i < g.last) (found : g.At i queue.head) (follows : g.At (i + 1) b)
    (fresh : c ∉ queue.swapped.map Prod.fst) :
    QueueShape g (queue.swapHead c b (queue.memory b).element) := by
  obtain rfl := shape.position found shape.head
  have length : (queue.swapped ++ [(c, (queue.memory b).element)]).length =
      queue.swapped.length + 1 := by simp
  refine { shape with head := ?_, behind := ?_, drained := ?_, unmarked := ?_, live := ?_, swappedOnce := ?_ }
  · rw [Queue.swapHead, length]
    exact follows
  · rw [Queue.swapHead, length]
    exact behind
  · have value : (queue.linked.map Prod.snd)[queue.swapped.length]? =
        some (queue.memory b).element := by
      have tail : g.order.tail[queue.swapped.length]? = some b := by
        rw [List.getElem?_tail]
        exact follows
      rw [← shape.elements, List.getElem?_map, tail]
      rfl
    obtain ⟨inside, same⟩ := List.getElem?_eq_some_iff.mp value
    have longer := List.concat_get_prefix shape.drained (by simpa using inside)
    simpa [Queue.swapHead, ← same] using longer
  · intro j a above
    rw [Queue.swapHead, length] at above
    exact shape.unmarked (by omega)
  · intro j a above
    rw [Queue.swapHead, length] at above
    exact shape.live (by omega)
  · simp only [Queue.swapHead, List.map_append, List.map_cons, List.map_nil]
    rw [← List.concat_eq_append]
    exact shape.swappedOnce.concat fresh

omit shape in
theorem leaves_swapHead : Leaves c g g queue (queue.swapHead c b element) :=
  { Leaves.refl c g queue with
    swapped := List.prefix_append _ _
    unswapped := fun other fresh => by
      simp only [Queue.swapHead, List.map_append, List.map_cons, List.map_nil, List.mem_append,
        List.mem_singleton, not_or]
      exact ⟨fresh, other⟩
    node := fun _ owned => ⟨owned.owner, owned.allocated, owned.unlinked, owned.fields, owned.fresh⟩ }

/-- The start of `QueueEnqueue`: a node that nobody else can know. -/
theorem enqueue (c : Nat) (e : Option V) (fresh : c ∉ queue.linked.map Prod.fst) :
    ∃ owner, QueueShape { g with owner } (queueEnqueue queue e).1 ∧
      OwnNode { g with owner } (queueEnqueue queue e).1 c queue.allocated ∧
      Leaves c g { g with owner } queue (queueEnqueue queue e).1 := by
  have unlinked : queue.allocated ∉ g.order := fun mem =>
    Nat.lt_irrefl _ (shape.allocated _ mem)
  have kept : ∀ {a}, a ≠ queue.allocated →
      (queueEnqueue queue e).1.memory a = queue.memory a := fun other =>
    Function.update_of_ne other ..
  have stored : ∀ {a}, a ∈ g.order → (queueEnqueue queue e).1.memory a = queue.memory a := by
    intro a mem
    refine kept ?_
    rintro rfl
    exact unlinked mem
  have inside : ∀ {i a}, g.At i a → a ∈ g.order := List.mem_of_getElem?
  refine ⟨Function.update g.owner queue.allocated (some c), ?_, ?_, ?_⟩
  · refine { shape with allocated := ?_, next := ?_, elements := ?_, unmarked := ?_, live := ?_ }
    · exact fun a mem => Nat.lt_succ_of_lt (shape.allocated a mem)
    · intro i a found
      rw [stored (inside found)]
      exact shape.next found
    · refine Eq.trans (List.map_congr_left fun a mem => ?_) shape.elements
      rw [stored (List.mem_of_mem_tail mem)]
    · intro i a above found
      rw [stored (inside found)]
      exact shape.unmarked above found
    · intro i a above found
      rw [stored (inside found)]
      exact shape.live above found
  · refine ⟨Function.update_self .., Nat.lt_succ_self _, unlinked, ?_, fresh⟩
    simp only [queueEnqueue, Queue.store_memory, Function.update_self]
    exact ⟨rfl, rfl, rfl⟩
  · refine { Leaves.refl c g queue with element := ?_, node := ?_, unmarked := ?_ }
    · intro a old
      rw [kept (Nat.ne_of_lt old)]
    · intro d a other owned
      have old : a ≠ queue.allocated := Nat.ne_of_lt owned.allocated
      refine ⟨?_, Nat.lt_succ_of_lt owned.allocated, owned.unlinked, ?_, owned.fresh⟩
      · exact (Function.update_of_ne old ..).trans owned.owner
      · rw [kept old]
        exact owned.fields
    · intro d k e a _ _ found clear
      rw [stored (inside found)]
      exact clear

end QueueShape

section Step
variable {g : QueueLayout} {queue : Queue V} {c : Nat}

/-- Every step of a call keeps the list, and the call keeps track of its variables. -/
theorem queueAdvance_preserves (shape : QueueShape g queue) (own : OwnCall g queue c call) :
    ∃ g', QueueShape g' (queueAdvance c queue call).1 ∧
      OwnCall g' (queueAdvance c queue call).1 c (queueAdvance c queue call).2 ∧
      Leaves c g g' queue (queueAdvance c queue call).1 := by
  have same : ∀ {next}, OwnCall g queue c next →
      ∃ g', QueueShape g' queue ∧ OwnCall g' queue c next ∧ Leaves c g g' queue queue :=
    fun own => ⟨g, shape, own, .refl c g queue⟩
  cases call with
  | idle => exact same own
  | enqueueReadTail node => exact same ⟨own, g.last, Nat.le_refl _, shape.tail⟩
  | enqueueReadNext node tail =>
    obtain ⟨owned, i, passed, found⟩ := own
    exact same ⟨owned, i, passed, found, fun n read => (shape.next found).symm.trans read⟩
  | enqueueCompare node tail next =>
    obtain ⟨owned, i, passed, found, follows⟩ := own
    simp only [queueAdvance]
    split
    · cases next with
      | none => exact same ⟨owned, i, passed, found⟩
      | some next => exact same ⟨owned, i, found, follows next rfl⟩
    · exact same owned
  | enqueueLink node tail =>
    obtain ⟨owned, i, passed, found⟩ := own
    simp only [queueAdvance]
    split
    · rename_i empty
      have length := shape.at_end found empty
      refine ⟨_, shape.link owned found empty, ⟨?_, i, ?_, ?_⟩, QueueShape.leaves_link owned found⟩
      · simp [Queue.link]
      · exact QueueShape.at_append found
      · rw [QueueLayout.At, ← length]
        exact List.getElem?_concat_length
    · exact same owned
  | enqueueHelp node tail next =>
    obtain ⟨owned, i, found, follows⟩ := own
    obtain ⟨last, after, leaves⟩ := shape.swingTail (c := c) found follows
    refine ⟨_, after, ⟨owned.owner, ?_, owned.unlinked, ?_, ?_⟩, leaves⟩
    · simpa only [queueAdvance, Queue.swingTail_allocated] using owned.allocated
    · simpa only [queueAdvance, Queue.swingTail_memory] using owned.fields
    · simpa only [queueAdvance, Queue.swingTail_linked] using owned.fresh
  | enqueueSwing node tail =>
    obtain ⟨linked, i, found, follows⟩ := own
    obtain ⟨last, after, leaves⟩ := shape.swingTail (c := c) found follows
    refine ⟨_, after, ?_, leaves⟩
    simpa only [queueAdvance, OwnCall, Queue.swingTail_linked] using linked
  | enqueued => exact same own
  | drainReadHead => exact same ⟨own, _, Nat.le_refl _, shape.head⟩
  | drainReadTail head =>
    obtain ⟨fresh, i, passed, found⟩ := own
    exact same ⟨fresh, i, g.last, passed, passed.trans shape.behind, Nat.le_refl _, found, shape.tail⟩
  | drainReadNext head tail =>
    obtain ⟨fresh, i, j, passed, ordered, behind, first, second⟩ := own
    refine same ⟨fresh, i, j, ordered, behind, first, second, ?_, ?_⟩
    · intro empty
      have length := shape.at_end first empty
      have inside := (List.getElem?_eq_some_iff.mp second).1
      omega
    · exact fun n read => (shape.next first).symm.trans read
  | drainCompare head tail next =>
    obtain ⟨fresh, i, j, ordered, behind, first, second, empty, follows⟩ := own
    simp only [queueAdvance]
    split
    · split
      · cases next with
        | none => exact same (.inr ⟨rfl, fresh⟩)
        | some next =>
          rename_i equal
          exact same ⟨fresh, i, equal ▸ first, follows next rfl⟩
      · rename_i different
        cases next with
        | none =>
          obtain rfl := empty rfl
          exact absurd (Option.some.inj (first.symm.trans second)) different
        | some next =>
          have before : i ≠ j := by
            rintro rfl
            exact different (Option.some.inj (first.symm.trans second))
          exact same ⟨fresh, i, by omega, first, follows next rfl⟩
    · exact same fresh
  | drainHelp tail next =>
    obtain ⟨fresh, i, found, follows⟩ := own
    obtain ⟨last, after, leaves⟩ := shape.swingTail (c := c) found follows
    refine ⟨_, after, ?_, leaves⟩
    simpa only [queueAdvance, OwnCall, Queue.swingTail_swapped] using fresh
  | drainReadElement head next =>
    obtain ⟨fresh, found⟩ := own
    exact same ⟨fresh, found, rfl⟩
  | drainSwap head next element =>
    obtain ⟨fresh, ⟨i, behind, found, follows⟩, rfl⟩ := own
    simp only [queueAdvance]
    split
    · rename_i current
      subst current
      have position := shape.position found shape.head
      refine ⟨g, shape.swapHead behind found follows fresh, ⟨i, ?_, found, follows, ?_⟩,
        QueueShape.leaves_swapHead⟩
      · rw [position]
        exact List.getElem?_concat_length
      · exact shape.unmarked (by omega) follows
    · exact same fresh
  | drainAssert head next element =>
    obtain ⟨k, swapped, found, follows, clear⟩ := own
    simp only [queueAdvance, clear, Bool.false_eq_true, if_false]
    exact same ⟨k, swapped, found, follows, clear⟩
  | drainMark head next element =>
    obtain ⟨k, swapped, found, follows, clear⟩ := own
    have taken := (List.getElem?_eq_some_iff.mp swapped).1
    refine ⟨g, shape.store follows rfl rfl (fun above => ?_) (fun above => ?_), ⟨k, swapped, found⟩,
      shape.leaves_store follows rfl ?_⟩
    · omega
    · exact shape.live above follows
    · intro d k' e other theirs position _
      obtain rfl : k = k' := by omega
      exact absurd (congrArg Prod.fst (Option.some.inj (theirs.symm.trans swapped))) other
  | drainFree head element =>
    obtain ⟨k, swapped, found⟩ := own
    have taken := (List.getElem?_eq_some_iff.mp swapped).1
    refine ⟨g, shape.store found rfl rfl (fun above => ?_) (fun above => ?_),
      .inl (List.mem_of_getElem? swapped), shape.leaves_store found rfl fun _ _ _ clear => clear⟩
    · exact shape.unmarked above found
    · omega
  | drained result => exact same own
  | aborted => exact own.elim

theorem queue_preserves :
    Interleaving.Preserves QueueStep (QueueShape (V := V)) OwnCall := by
  intro g queue c own label next shape owned stepped
  cases stepped with
  | enqueue =>
    obtain ⟨owner, after, node, leaves⟩ := shape.enqueue c _ owned.1
    exact ⟨_, after, node, leaves.own shape⟩
  | drain => exact ⟨g, shape, owned.2, fun _ => id⟩
  | advance =>
    obtain ⟨g', after, moved, leaves⟩ := queueAdvance_preserves shape owned
    exact ⟨g', after, moved, leaves.own shape⟩

theorem QueueRun.shape (run : QueueRun labels (s : QueueState V)) :
    ∃ g, QueueShape g s.shared ∧ ∀ c, OwnCall g s.shared c (s.thread c) := by
  refine Interleaving.Run.owned queue_preserves ⟨_, .initial, fun c => ?_⟩ run
  exact ⟨List.not_mem_nil, List.not_mem_nil⟩

end Step
end KommunikationNetze.Utils
