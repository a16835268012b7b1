import Mathlib.Algebra.Group.Nat.Defs

/-! The arrays of listeners and servers, which both programs fill alike for the addresses of
`getaddrinfo`. The counts are in elements, but what is passed to `realloc` as a number of
bytes is the number of slots. -/
namespace KommunikationNetze.Net
variable {A α : Type}

/-- The value an unsigned 16-bit variable takes. -/
def u16 (n : Nat) : Nat := n % 2 ^ 16

theorem u16_of_lt (fits : n < 2 ^ 16) : u16 n = n := Nat.mod_eq_of_lt fits

/-- A store of a pointer, with the number of bytes allocated for the array at the time. -/
structure PointerStore (α : Type) where
  index : Nat
  pointer : α
  allocated : Nat

structure PointerArray (α : Type) where
  count : Nat
  slots : Nat
  /-- The size last passed to `calloc`, `malloc` or `realloc`. -/
  allocated : Nat
  stores : List (PointerStore α)

namespace PointerArray

/-- The body of the loop for a socket that was created. -/
def add (array : PointerArray α) (pointer : α) : PointerArray α :=
  let array :=
    if array.slots ≤ array.count then
      let slots := u16 (array.slots * 2)
      { array with slots, allocated := slots }
    else array
  { array with
    stores := array.stores ++ [{ index := array.count, pointer, allocated := array.allocated }]
    count := u16 (array.count + 1) }

/-- The loop over the addresses. -/
def addAll (create : A → Option α) (addresses : List A) (array : PointerArray α) : PointerArray α :=
  addresses.foldl (fun array address => ((create address).map array.add).getD array) array

/-- Room for five pointers, of which this many bytes are allocated. -/
def start (allocated : Nat) : PointerArray α := { count := 0, slots := 5, allocated, stores := [] }

end PointerArray

/-- `ServerCreateListeners`: `calloc(5, sizeof(Listener))`. -/
def serverCreateListeners (pointerSize : Nat) (createListener : A → Option α) (addresses : List A) :
    PointerArray α :=
  .addAll createListener addresses (.start (5 * pointerSize))

/-- `CreateServers`: `malloc(5)`. -/
def createServers (createServer : A → Option α) (addresses : List A) : PointerArray α :=
  .addAll createServer addresses (.start 5)

/-- The sockets that are created for the addresses. -/
def created (create : A → Option α) (addresses : List A) : List α := addresses.filterMap create

/-- The store is inside of what is allocated. -/
def PointerStore.Inside (pointerSize : Nat) (store : PointerStore α) : Prop :=
  (store.index + 1) * pointerSize ≤ store.allocated

instance (pointerSize : Nat) (store : PointerStore α) : Decidable (store.Inside pointerSize) :=
  inferInstanceAs (Decidable (_ ≤ _))

namespace PointerArray

theorem addAll_eq (create : A → Option α) (addresses : List A) (array : PointerArray α) :
    addAll create addresses array = (created create addresses).foldl add array := by
  induction addresses generalizing array with
  | nil => rfl
  | cons address addresses ih =>
    rw [addAll, List.foldl_cons, ← addAll, ih]
    cases found : create address with
    | none => simp [created, found]
    | some pointer => simp [created, found]

/-- The size is the first one up to the fifth pointer, then it is the number of slots, which
is less than twice the number of pointers. -/
structure Filled (first n : Nat) (array : PointerArray α) : Prop where
  counted : array.count = n
  indices : array.stores.map PointerStore.index = List.range n
  room : n ≤ array.slots
  sizes : array.slots = 5 ∧ array.allocated = first ∨
    5 < n ∧ array.allocated = array.slots ∧ array.slots ≤ 2 * (n - 1)
  stores : ∀ store ∈ array.stores, store.index < 5 ∧ store.allocated = first ∨
    5 ≤ store.index ∧ store.index < store.allocated ∧ store.allocated ≤ 2 * store.index

theorem filled_start (first : Nat) : Filled first 0 (.start first : PointerArray α) where
  counted := rfl
  indices := rfl
  room := Nat.zero_le _
  sizes := .inl ⟨rfl, rfl⟩
  stores := nofun

theorem Filled.add {array : PointerArray α} (filled : Filled first n array) (small : n < 2 ^ 15)
    (pointer : α) : Filled first (n + 1) (array.add pointer) := by
  obtain ⟨counted, indices, room, sizes, stores⟩ := filled
  have next : u16 (n + 1) = n + 1 := u16_of_lt (by omega)
  by_cases full : array.slots ≤ n
  · have double : u16 (array.slots * 2) = array.slots * 2 := u16_of_lt (by omega)
    simp only [PointerArray.add, counted, if_pos full, double, next]
    refine ⟨rfl, ?_, ?_, .inr ⟨?_, rfl, ?_⟩, ?_⟩
    · simp [indices, List.range_succ]
    · simp only
      omega
    · omega
    · simp only
      omega
    · simp only [List.forall_mem_append, List.forall_mem_singleton]
      exact ⟨stores, by omega⟩
  · simp only [PointerArray.add, counted, if_neg full, next]
    refine ⟨rfl, ?_, ?_, ?_, ?_⟩
    · simp [indices, List.range_succ]
    · simp only
      omega
    · simp only
      omega
    · simp only [List.forall_mem_append, List.forall_mem_singleton]
      exact ⟨stores, by omega⟩

theorem filled_foldl (pointers : List α) {array : PointerArray α} (filled : Filled first n array)
    (small : n + pointers.length ≤ 2 ^ 15) :
    Filled first (n + pointers.length) (pointers.foldl add array) := by
  induction pointers generalizing array n with
  | nil => exact filled
  | cons pointer pointers ih =>
    rw [List.length_cons] at small ⊢
    have more := ih (filled.add (by omega) pointer) (by omega)
    rwa [Nat.add_assoc, Nat.add_comm 1] at more

/-- The sixth pointer is stored in a block that is shorter than it seems. -/
theorem Filled.inside_iff {array : PointerArray α} (filled : Filled first n array)
    (narrow : size ≤ 1 → 5 * size ≤ first) :
    (∀ store ∈ array.stores, store.Inside size) ↔ size ≤ 1 ∨ n ≤ 5 ∧ n * size ≤ first := by
  have index : ∀ {i}, i < n → ∃ store ∈ array.stores, store.index = i := by
    intro i below
    have mem : i ∈ array.stores.map PointerStore.index := filled.indices ▸ List.mem_range.mpr below
    exact List.mem_map.mp mem
  constructor
  · intro inside
    by_cases narrow : size ≤ 1
    · exact .inl narrow
    by_cases many : 5 < n
    · obtain ⟨store, mem, sixth⟩ := index many
      have fits := inside store mem
      have least := Nat.mul_le_mul_left 6 (Nat.lt_of_not_le narrow)
      rw [PointerStore.Inside, sixth] at fits
      have short := filled.stores store mem
      omega
    · refine .inr ⟨Nat.le_of_not_lt many, ?_⟩
      cases n with
      | zero =>
        rw [Nat.zero_mul]
        exact Nat.zero_le first
      | succ n =>
        obtain ⟨store, mem, last⟩ := index (Nat.lt_succ_self n)
        have fits := inside store mem
        rw [PointerStore.Inside, last] at fits
        have short := filled.stores store mem
        have same : store.allocated = first := by omega
        exact same ▸ fits
  · intro small store mem
    have below : store.index < n := List.mem_range.mp (filled.indices ▸ List.mem_map_of_mem mem)
    rw [PointerStore.Inside]
    rcases filled.stores store mem with ⟨early, same⟩ | ⟨late, within, _⟩
    · have most : (store.index + 1) * size ≤ 5 * size := Nat.mul_le_mul_right size early
      rcases small with one | ⟨_, all⟩
      · exact same ▸ Nat.le_trans most (narrow one)
      · exact same ▸ Nat.le_trans (Nat.mul_le_mul_right size below) all
    · rcases small with one | ⟨few, _⟩
      · exact Nat.le_trans (Nat.mul_le_mul_left _ one) ((Nat.mul_one _).symm ▸ within)
      · omega

theorem filled_addAll (first : Nat) (create : A → Option α) {addresses : List A}
    (few : addresses.length < 2 ^ 15) :
    Filled first (created create addresses).length (addAll create addresses (start first)) := by
  have length : (created create addresses).length ≤ addresses.length := List.length_filterMap_le _ _
  rw [addAll_eq]
  have filled := filled_foldl (created create addresses) (filled_start first) (by omega)
  rwa [Nat.zero_add] at filled

end PointerArray

/-- The arrays hold what is stored exactly as long as at most five listeners are created, and
no more servers than pointers fit into five bytes. Pointers of one byte would always fit. -/
theorem pointer_arrays_inside {B β : Type} (pointerSize : Nat)
    (createListener : A → Option α) (addresses : List A) (few : addresses.length < 2 ^ 15)
    (createServer : B → Option β) (others : List B) (fewOthers : others.length < 2 ^ 15) :
    ((∀ store ∈ (serverCreateListeners pointerSize createListener addresses).stores,
        store.Inside pointerSize) ↔
        pointerSize ≤ 1 ∨ (created createListener addresses).length ≤ 5) ∧
      ((∀ store ∈ (createServers createServer others).stores, store.Inside pointerSize) ↔
        pointerSize ≤ 1 ∨ (created createServer others).length * pointerSize ≤ 5) := by
  constructor
  · have filled := PointerArray.filled_addAll (5 * pointerSize) createListener few
    refine (filled.inside_iff fun _ => Nat.le_refl _).trans (or_congr_right ?_)
    exact and_iff_left_of_imp fun most => Nat.mul_le_mul_right pointerSize most
  · have filled := PointerArray.filled_addAll 5 createServer fewOthers
    refine (filled.inside_iff fun narrow => by omega).trans ?_
    by_cases narrow : pointerSize ≤ 1
    · exact iff_of_true (.inl narrow) (.inl narrow)
    · refine or_congr_right (and_iff_right_of_imp fun all => ?_)
      exact Nat.le_trans (Nat.le_mul_of_pos_right _ (by omega)) all

/-- Two addresses for the chat server, none for the web server. -/
theorem pointer_arrays_inside_two :
    (∀ store ∈ (serverCreateListeners 8 some [0, 1]).stores, store.Inside 8) ∧
      ∀ store ∈ (createServers some ([] : List Nat)).stores, store.Inside 8 := by
  obtain ⟨listeners, servers⟩ :=
    pointer_arrays_inside 8 some [0, 1] (by decide) some ([] : List Nat) (by decide)
  exact ⟨listeners.mpr (.inr (by decide)), servers.mpr (.inr (by decide))⟩

/-- The sixth listener and the first server of pointers of eight bytes. -/
theorem pointer_arrays_outside :
    (¬∀ store ∈ (serverCreateListeners 8 some (List.range 6)).stores, store.Inside 8) ∧
      ¬∀ store ∈ (createServers some [0]).stores, store.Inside 8 := by
  decide

end KommunikationNetze.Net
