import KommunikationNetze.Library.Pieces
import KommunikationNetze.Utils.StrHelper

/-! Repeated calls of `strsep_ext`. They return the maximal runs of characters that are no
delimiters, from left to right, and then NULL. -/
namespace KommunikationNetze.Utils
open CLib Pieces

/-- `*stringp` after this many calls. -/
def stringpAfter (delim : CString) (stringp : Option CString) : Nat → Option CString
  | 0 => stringp
  | calls + 1 => (strsepExt (stringpAfter delim stringp calls) delim).2

/-- What the call after this many calls returns. -/
def strsepExtCall (delim : CString) (stringp : Option CString) (calls : Nat) : Option CString :=
  (strsepExt (stringpAfter delim stringp calls) delim).1

section Calls
variable {delim : CString}

theorem stringpAfter_first (stringp : Option CString) (calls : Nat) :
    stringpAfter delim stringp (calls + 1) = stringpAfter delim (strsepExt stringp delim).2 calls := by
  induction calls with
  | zero => rfl
  | succ calls ih => rw [stringpAfter, ih, stringpAfter]

theorem strsepExtCall_first (stringp : Option CString) (calls : Nat) :
    strsepExtCall delim stringp (calls + 1) = strsepExtCall delim (strsepExt stringp delim).2 calls := by
  rw [strsepExtCall, stringpAfter_first, strsepExtCall]

theorem strsepExt_gap {gap : CString} (delimiters : ∀ c ∈ gap, decide (c ∈ delim) = true) (rest : CString) :
    strsepExt (some (gap ++ rest)) delim = strsepExt (some rest) delim := by
  induction gap with
  | nil => rfl
  | cons c gap ih =>
    obtain ⟨first, others⟩ := List.forall_mem_cons.mp delimiters
    rw [List.cons_append, strsepExt_delim (of_decide_eq_true first), ih others]

/-- The token from position `i` up to position `j`. -/
def token (string : CString) (i j : Nat) : CString := (string.drop i).take (j - i)

/-- The text behind the delimiter at this position. -/
def remainder (string : CString) (j : Nat) : Option CString :=
  if j = string.length then none else some (string.drop (j + 1))

/-- The calls from position `p` on return these runs and then NULL. -/
structure Tokens (delim string : CString) (p : Nat) (stringp : Option CString) (runs : List (Nat × Nat)) :
    Prop where
  mem : ∀ i j, (i, j) ∈ runs ↔ MaximalRun (· ∈ delim) string i j ∧ p ≤ i
  ordered : runs.Pairwise fun run next => run.2 < next.1
  tokens : ∀ calls i j, runs[calls]? = some (i, j) →
    strsepExtCall delim stringp calls = some (token string i j) ∧
      stringpAfter delim stringp (calls + 1) = remainder string j
  ends : strsepExtCall delim stringp runs.length = none

theorem Tokens.nil {string : CString} {stringp : Option CString} {p : Nat}
    (absent : ∀ i j, ¬(MaximalRun (· ∈ delim) string i j ∧ p ≤ i))
    (ends : (strsepExt stringp delim).1 = none) : Tokens delim string p stringp [] where
  mem i j := iff_of_false List.not_mem_nil (absent i j)
  ordered := .nil
  tokens := nofun
  ends := ends

theorem Tokens.cons {string : CString} {stringp : Option CString} {runs : List (Nat × Nat)} {a b p : Nat}
    (first : MaximalRun (· ∈ delim) string a b) (behind : p ≤ a)
    (gap : ∀ k, p ≤ k → k < a → SeparatorAt (· ∈ delim) string k)
    (call : strsepExt stringp delim = (some (token string a b), remainder string b))
    (others : Tokens delim string (b + 1) (remainder string b) runs) :
    Tokens delim string p stringp ((a, b) :: runs) where
  mem i j := by
    rw [List.mem_cons, Prod.mk.injEq, others.mem, run_iff_first first behind gap]
    rfl
  ordered := by
    refine List.pairwise_cons.mpr ⟨?_, others.ordered⟩
    rintro ⟨i, j⟩ mem
    exact ((others.mem i j).mp mem).2
  tokens := by
    rintro (_ | calls) i j found
    · obtain ⟨rfl, rfl⟩ := Prod.mk.inj (Option.some.inj found)
      exact ⟨congrArg Prod.fst call, congrArg Prod.snd call⟩
    · rw [strsepExtCall_first, stringpAfter_first, call]
      exact others.tokens calls i j found
  ends := by
    rw [List.length_cons, strsepExtCall_first, call]
    exact others.ends

/-- The first call, from the gap in front of its token on. -/
theorem strsepExt_split {string gap piece rest : CString} {p : Nat} (within : p ≤ string.length)
    (shape : string.drop p = gap ++ (piece ++ rest)) (delimiters : ∀ c ∈ gap, decide (c ∈ delim) = true)
    (nonempty : piece ≠ []) (free : ∀ c ∈ piece, decide (c ∈ delim) = false)
    (stop : rest = [] ∨ ∃ c after, rest = c :: after ∧ decide (c ∈ delim) = true) :
    strsepExt (some (string.drop p)) delim =
      (some (token string (p + gap.length) (p + gap.length + piece.length)),
        remainder string (p + gap.length + piece.length)) := by
  have length := congrArg List.length shape
  rw [List.length_drop, List.length_append, List.length_append] at length
  have atPiece : string.drop (p + gap.length) = piece ++ rest := by
    rw [← List.drop_drop, shape, List.drop_left]
  have behind : string.drop (p + gap.length + piece.length) = rest := by
    rw [← List.drop_drop, atPiece, List.drop_left]
  have clean : ∀ c ∈ piece, c ∉ delim := fun c mem => of_decide_eq_false (free c mem)
  rw [shape, strsepExt_gap delimiters, token, atPiece, Nat.add_sub_cancel_left, List.take_left, remainder,
    ← List.drop_drop, behind]
  rcases stop with rfl | ⟨c, after, rfl, delimiter⟩
  · rw [List.length_nil] at length
    rw [if_pos (by omega), List.append_nil, strsepExt_last nonempty clean]
  · rw [List.length_cons] at length
    rw [if_neg (by omega), strsepExt_token nonempty clean (of_decide_eq_true delimiter)]
    rfl

theorem exists_tokens {string : CString} {p : Nat} (within : p ≤ string.length)
    (start : p = 0 ∨ SeparatorAt (· ∈ delim) string (p - 1)) :
    ∃ runs, Tokens delim string p (some (string.drop p)) runs := by
  induction size : string.length - p using Nat.strongRecOn generalizing p with
  | _ n ih =>
    rcases split_first (· ∈ delim) (string.drop p) with
      separators | ⟨gap, piece, rest, shape, separators, nonempty, free, stop⟩
    · have whole : string.drop p = string.drop p ++ [] := (List.append_nil _).symm
      refine ⟨[], .nil (fun i j => no_run_behind fun k least most => ?_) ?_⟩
      · exact separatorAt_of_split whole separators least (by rw [List.length_drop]; omega)
      · rw [whole, strsepExt_gap separators, strsepExt_nil]
    · have first := run_of_split shape within start separators nonempty free stop
      have between := fun k => separatorAt_of_split (k := k) shape separators
      have call := strsepExt_split within shape separators nonempty free stop
      generalize p + gap.length + piece.length = b at first call
      by_cases last : b = string.length
      · have none : remainder string b = none := if_pos last
        refine ⟨[_], .cons first (Nat.le_add_right _ _) between call (.nil ?_ ?_)⟩
        · rintro i j ⟨run, late⟩
          have nonempty := run.nonempty
          have inside := run.inside
          omega
        · rw [none, strsepExt_none]
      · have more : remainder string b = some (string.drop (b + 1)) := if_neg last
        have nonempty := first.nonempty
        have inside := first.inside
        obtain ⟨runs, others⟩ := ih (string.length - (b + 1)) (by omega)
          (show b + 1 ≤ string.length by omega) (.inr (first.stop.resolve_left last)) rfl
        exact ⟨_, .cons first (Nat.le_add_right _ _) between call (more ▸ others)⟩

/-- The calls return the maximal runs, from left to right, then NULL; each leaves the text
behind its delimiter. -/
theorem strsepExt_tokenises (delim string : CString) :
    ∃ runs : List (Nat × Nat),
      (∀ i j, (i, j) ∈ runs ↔ MaximalRun (· ∈ delim) string i j) ∧
      (runs.Pairwise fun run next => run.2 < next.1) ∧
      (∀ calls i j, runs[calls]? = some (i, j) →
        strsepExtCall delim (some string) calls = some (token string i j) ∧
          stringpAfter delim (some string) (calls + 1) = remainder string j) ∧
      strsepExtCall delim (some string) runs.length = none := by
  obtain ⟨runs, mem, ordered, tokens, ends⟩ : ∃ runs, Tokens delim string 0 (some string) runs :=
    exists_tokens (Nat.zero_le string.length) (.inl rfl)
  exact ⟨runs, fun i j => (mem i j).trans (and_iff_left (Nat.zero_le i)), ordered, tokens, ends⟩

end Calls
end KommunikationNetze.Utils
