import KommunikationNetze.CLib.Buffer

/-! The receive loop in the `runloop` of the echo client. It reads until a line is complete
or the buffer is full, and it does not look for the end of the connection. -/
namespace KommunikationNetze.Echo
open CLib

/-- The variables of the loop. -/
structure ReceiveState where
  buffer : List UInt8
  i : Nat

namespace ReceiveState

def start : ReceiveState := { buffer := List.replicate 255 0, i := 0 }

/-- The condition of the loop; `strstr` looks for one character. -/
def continues (s : ReceiveState) : Bool :=
  s.i = 0 || ((strchr s.buffer 10).isNone && s.i < 254)

/-- The bytes of one `recv`. -/
def store (s : ReceiveState) (bytes : List UInt8) : ReceiveState :=
  { buffer := memcpy s.buffer s.i bytes, i := s.i + bytes.length }

end ReceiveState

/-- In front of a `recv`, behind the loop, or after `exit`. -/
inductive ReceiveLoop where
  | running (s : ReceiveState)
  | left (s : ReceiveState)
  | exited

namespace ReceiveLoop

def test (s : ReceiveState) : ReceiveLoop := if s.continues then .running s else .left s

/-- One iteration with this result of `recv`, none for an error. -/
def iterate : ReceiveLoop → Option (List UInt8) → ReceiveLoop
  | .running _, none => .exited
  | .running s, some bytes => test (s.store bytes)
  | loop, _ => loop

end ReceiveLoop

/-- The loop after this many iterations. -/
def receiveLoop (results : Nat → Option (List UInt8)) : Nat → ReceiveLoop
  | 0 => .test .start
  | n + 1 => (receiveLoop results n).iterate (results n)

/-- The bytes of the first `n` results. -/
def received (results : Nat → Option (List UInt8)) : Nat → List UInt8
  | 0 => []
  | n + 1 => received results n ++ (results n).getD []

/-- A line that is complete before any zero byte, or as many bytes as the buffer can hold. -/
def Answered (bytes : List UInt8) : Prop :=
  bytes ≠ [] ∧ (10 ∈ bytes.takeWhile (· ≠ 0) ∨ 254 ≤ bytes.length)

/-- `recv` returns no more bytes than it was asked for. -/
def Allowed (results : Nat → Option (List UInt8)) : Prop :=
  ∀ n s, receiveLoop results n = .running s → ((results n).getD []).length ≤ 254 - s.i

/-- An iteration that does not leave the loop increases `i`. -/
def Progress (results : Nat → Option (List UInt8)) : Prop :=
  ∀ n s t, receiveLoop results n = .running s → receiveLoop results (n + 1) = .running t → s.i < t.i

/-- The loop ends after at most 254 iterations. -/
def Ends (results : Nat → Option (List UInt8)) : Prop :=
  ∃ n ≤ 254, receiveLoop results n = .exited ∨ ∃ s, receiveLoop results n = .left s ∧ s.i ≤ 254

section State
variable {s t : ReceiveState} {bytes added : List UInt8} {results : Nat → Option (List UInt8)} {n : Nat}

/-- The bytes so far, and zeros behind them. -/
structure Filled (s : ReceiveState) (bytes : List UInt8) : Prop where
  buffer : s.buffer = bytes ++ List.replicate (255 - bytes.length) 0
  i : s.i = bytes.length
  inside : bytes.length ≤ 254

theorem filled_start : Filled .start [] := ⟨rfl, rfl, Nat.zero_le _⟩

theorem Filled.store (filled : Filled s bytes) (fits : added.length ≤ 254 - s.i) :
    Filled (s.store added) (bytes ++ added) := by
  obtain ⟨buffer, i, inside⟩ := filled
  refine ⟨?_, ?_, ?_⟩
  · simp only [ReceiveState.store, buffer, i, memcpy_append, List.drop_replicate, List.length_append, Nat.sub_sub]
  · rw [List.length_append, ← i]
    rfl
  · rw [List.length_append]
    omega

theorem strchr_isNone (memory : List UInt8) :
    (strchr memory 10).isNone = true ↔ 10 ∉ memory.takeWhile (· ≠ 0) := by
  induction memory with
  | nil => exact iff_of_true rfl List.not_mem_nil
  | cons b memory ih =>
    by_cases newline : b = 10
    · subst newline
      simp [strchr]
    · by_cases zero : b = 0
      · subst zero
        simp [strchr]
      · simp only [strchr, if_neg newline, if_neg zero, Option.isNone_map, ih]
        simp [zero, Ne.symm newline]

theorem takeWhile_zeros (bytes : List UInt8) (count : Nat) :
    (bytes ++ List.replicate count 0).takeWhile (· ≠ 0) = bytes.takeWhile (· ≠ 0) := by
  induction bytes with
  | nil => cases count <;> simp [List.replicate_succ]
  | cons b bytes ih => rw [List.cons_append, List.takeWhile_cons, List.takeWhile_cons, ih]

theorem Filled.continues_iff (filled : Filled s bytes) : s.continues = true ↔ ¬Answered bytes := by
  obtain ⟨buffer, i, inside⟩ := filled
  have newline := strchr_isNone s.buffer
  rw [buffer, takeWhile_zeros] at newline
  rw [ReceiveState.continues, Answered, i, Bool.or_eq_true, Bool.and_eq_true, buffer, newline,
    decide_eq_true_iff, decide_eq_true_iff, List.length_eq_zero_iff, not_and, not_or, Nat.not_le]
  exact Decidable.or_iff_not_imp_left

theorem test_running : ReceiveLoop.test s = .running t ↔ s.continues = true ∧ s = t := by
  rw [ReceiveLoop.test]
  split <;> simp_all

/-- What an iteration that does not leave the loop did. -/
theorem running_succ : receiveLoop results (n + 1) = .running t ↔
    ∃ s added, receiveLoop results n = .running s ∧ results n = some added ∧
      (s.store added).continues = true ∧ s.store added = t := by
  rw [receiveLoop]
  cases receiveLoop results n with
  | running s =>
    cases results n with
    | none => simp [ReceiveLoop.iterate]
    | some added => simp [ReceiveLoop.iterate, test_running]
  | left s => simp [ReceiveLoop.iterate]
  | exited => simp [ReceiveLoop.iterate]

/-- In front of a `recv` the buffer holds what was received, and that is no answer. -/
theorem filled_running (allowed : Allowed results) (running : receiveLoop results n = .running s) :
    Filled s (received results n) ∧ s.continues = true := by
  induction n generalizing s with
  | zero =>
    obtain ⟨continues, rfl⟩ := test_running.mp running
    exact ⟨filled_start, continues⟩
  | succ n ih =>
    obtain ⟨before, added, earlier, result, continues, rfl⟩ := running_succ.mp running
    have fits := allowed n before earlier
    rw [result, Option.getD_some] at fits
    rw [received, result, Option.getD_some]
    exact ⟨(ih earlier).1.store fits, continues⟩

theorem running_iff (allowed : Allowed results) : (∃ s, receiveLoop results n = .running s) ↔
    (∀ m < n, results m ≠ none) ∧ ∀ m ≤ n, ¬Answered (received results m) := by
  induction n with
  | zero =>
    refine iff_of_true ⟨.start, rfl⟩ ⟨nofun, fun m none answered => ?_⟩
    rw [Nat.le_zero.mp none] at answered
    exact answered.1 rfl
  | succ n ih =>
    constructor
    · rintro ⟨t, running⟩
      obtain ⟨s, added, earlier, result, _⟩ := running_succ.mp running
      obtain ⟨errors, answers⟩ := ih.mp ⟨s, earlier⟩
      obtain ⟨filled, continues⟩ := filled_running allowed running
      refine ⟨fun m below => ?_, fun m most => ?_⟩
      · rcases Nat.lt_succ_iff_lt_or_eq.mp below with before | rfl
        · exact errors m before
        · simp [result]
      · rcases Nat.le_succ_iff.mp most with before | rfl
        · exact answers m before
        · exact filled.continues_iff.mp continues
    · rintro ⟨errors, answers⟩
      obtain ⟨s, earlier⟩ := ih.mpr ⟨fun m below => errors m (Nat.lt_succ_of_lt below),
        fun m most => answers m (Nat.le_succ_of_le most)⟩
      obtain ⟨added, result⟩ := Option.ne_none_iff_exists'.mp (errors n (Nat.lt_succ_self n))
      have fits := allowed n s earlier
      rw [result, Option.getD_some] at fits
      have filled := (filled_running allowed earlier).1.store fits
      have unanswered := answers (n + 1) (Nat.le_refl _)
      rw [received, result, Option.getD_some] at unanswered
      exact ⟨_, running_succ.mpr ⟨s, added, earlier, result, filled.continues_iff.mpr unanswered, rfl⟩⟩

/-- The loop was left with a string that fits the buffer. -/
theorem left_inside (allowed : Allowed results) (left : receiveLoop results n = .left s) : s.i ≤ 254 := by
  induction n with
  | zero =>
    rw [receiveLoop, ReceiveLoop.test, if_pos (by decide)] at left
    cases left
  | succ n ih =>
    rw [receiveLoop] at left
    cases loop : receiveLoop results n with
    | running before =>
      cases result : results n with
      | none => simp [loop, result, ReceiveLoop.iterate] at left
      | some added =>
        have fits := allowed n before loop
        have filled := (filled_running allowed loop).1
        rw [result, Option.getD_some] at fits
        have stored := filled.store fits
        rw [loop, result, ReceiveLoop.iterate, ReceiveLoop.test] at left
        split at left
        · cases left
        · obtain rfl := ReceiveLoop.left.inj left
          exact stored.i ▸ stored.inside
    | left before =>
      rw [loop, ReceiveLoop.iterate] at left
      · exact ih (loop.trans left)
      · nofun
      · nofun
    | exited => simp [loop, ReceiveLoop.iterate] at left

/-- An iteration adds at least one to `i`. -/
theorem le_i (progress : Progress results) (running : receiveLoop results n = .running s) : n ≤ s.i := by
  induction n generalizing s with
  | zero => exact Nat.zero_le _
  | succ n ih =>
    obtain ⟨before, added, earlier, _⟩ := running_succ.mp running
    exact Nat.lt_of_le_of_lt (ih earlier) (progress n before s earlier running)

theorem ends_of_progress (allowed : Allowed results) (progress : Progress results) : Ends results := by
  refine ⟨254, Nat.le_refl _, ?_⟩
  cases loop : receiveLoop results 254 with
  | running s =>
    obtain ⟨filled, continues⟩ := filled_running allowed loop
    have full := le_i progress loop
    refine absurd ?_ (filled.continues_iff.mp continues)
    refine ⟨fun nil => ?_, .inr (filled.i ▸ full)⟩
    rw [filled.i, nil] at full
    cases full
  | left s => exact .inr ⟨s, rfl, left_inside allowed loop⟩
  | exited => exact .inl rfl

theorem store_nil (s : ReceiveState) : s.store [] = s := by
  cases s
  simp [ReceiveState.store, memcpy]

/-- The loop makes progress and ends exactly if the server does not close the connection
before an error or a complete answer. -/
theorem receive_loop_ends (allowed : Allowed results) :
    Progress results ∧ Ends results ↔ ∀ n, results n = some [] →
      (∃ m < n, results m = none) ∨ ∃ m ≤ n, Answered (received results m) := by
  constructor
  · rintro ⟨progress, _⟩ n closed
    by_contra early
    rw [not_or, not_exists, not_exists] at early
    obtain ⟨s, running⟩ := (running_iff (n := n) allowed).mpr
      ⟨fun m below error => early.1 m ⟨below, error⟩, fun m most answered => early.2 m ⟨most, answered⟩⟩
    have continues := (filled_running allowed running).2
    have again : receiveLoop results (n + 1) = .running s :=
      running_succ.mpr ⟨s, [], running, closed, (store_nil s).symm ▸ continues, store_nil s⟩
    exact Nat.lt_irrefl s.i (progress n s s running again)
  · intro open_
    have progress : Progress results := by
      intro n s t running next
      obtain ⟨before, added, earlier, result, _, rfl⟩ := running_succ.mp next
      obtain rfl := ReceiveLoop.running.inj (earlier.symm.trans running)
      obtain ⟨errors, answers⟩ := (running_iff allowed).mp ⟨_, running⟩
      have nonempty : added ≠ [] := by
        rintro rfl
        rcases open_ n result with ⟨m, below, error⟩ | ⟨m, most, answered⟩
        · exact errors m below error
        · exact answers m most answered
      exact Nat.lt_add_of_pos_right (List.length_pos_of_ne_nil nonempty)
    exact ⟨progress, ends_of_progress allowed progress⟩

end State

/-- A line at once, and then the connection is closed. -/
def oneLine : Nat → Option (List UInt8)
  | 0 => some [104, 105, 10]
  | _ + 1 => some []

theorem oneLine_allowed : Allowed oneLine := by
  rintro (_ | n) s running
  · obtain ⟨_, rfl⟩ := test_running.mp running
    decide
  · exact Nat.zero_le _

theorem receive_loop_ends_oneLine : Progress oneLine ∧ Ends oneLine := by
  refine (receive_loop_ends oneLine_allowed).mpr fun n closed => ?_
  cases n with
  | zero => cases closed
  | succ n => exact .inr ⟨1, Nat.le_add_left 1 n, by decide, .inl (by decide)⟩

/-- The server closes the connection at once, and the loop never ends. -/
theorem receive_loop_closed : Allowed (fun _ => some []) ∧ ¬Progress (fun _ => some []) ∧
    ¬Ends fun _ => some [] := by
  have running : ∀ n, receiveLoop (fun _ => some []) n = .running .start := by
    intro n
    induction n with
    | zero => rfl
    | succ n ih => exact running_succ.mpr ⟨_, [], ih, rfl, rfl, rfl⟩
  refine ⟨fun _ _ _ => Nat.zero_le _, fun progress => ?_, ?_⟩
  · exact Nat.lt_irrefl 0 (progress 0 _ _ (running 0) (running 1))
  · rintro ⟨n, _, exited | ⟨s, left, _⟩⟩
    · cases (running n).symm.trans exited
    · cases (running n).symm.trans left

end KommunikationNetze.Echo
