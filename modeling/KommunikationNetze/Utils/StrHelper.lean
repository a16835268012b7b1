import KommunikationNetze.CLib.CString

/-! The string helpers. Tokenising is destructive in C; here the token and the rest
are returned, and NULL is `none`. Both programs have the same `strsep_ext`, but
each has its own `strtrim`. -/
namespace KommunikationNetze.Utils
open CLib

/-- The token up to the first delimiter, and what follows that delimiter. -/
def strsep : Option CString → CString → Option CString × Option CString
  | none, _ => (none, none)
  | some string, delim =>
    match string.dropWhile (· ∉ delim) with
    | [] => (some (string.takeWhile (· ∉ delim)), none)
    | _ :: rest => (some (string.takeWhile (· ∉ delim)), some rest)

/-- One more than the length, so that a NULL pointer is the least. -/
def strsepMeasure (stringp : Option CString) : Nat := stringp.elim 0 fun s => s.length + 1

theorem strsepMeasure_strsep (stringp : Option CString) (delim : CString)
    (found : (strsep stringp delim).1 = some token) :
    strsepMeasure (strsep stringp delim).2 < strsepMeasure stringp := by
  cases stringp with
  | none => simp [strsep] at found
  | some string =>
    have shorter := (List.dropWhile_sublist (l := string) (· ∉ delim)).length_le
    simp only [strsep]
    split
    · simp [strsepMeasure]
    · rename_i rest shape
      rw [shape, List.length_cons] at shorter
      simp only [strsepMeasure, Option.elim_some]
      omega

/-- Empty tokens are skipped. -/
def strsepExt (stringp : Option CString) (delim : CString) : Option CString × Option CString :=
  match _found : (strsep stringp delim).1 with
  | some [] => strsepExt (strsep stringp delim).2 delim
  | value => (value, (strsep stringp delim).2)
  termination_by strsepMeasure stringp
  decreasing_by exact strsepMeasure_strsep stringp delim _found

theorem strsepExt_of_empty {stringp : Option CString} (empty : (strsep stringp delim).1 = some []) :
    strsepExt stringp delim = strsepExt (strsep stringp delim).2 delim := by
  conv_lhs => unfold strsepExt
  split
  · rfl
  · simp_all

theorem strsepExt_of_ne_empty {stringp : Option CString}
    (nonempty : (strsep stringp delim).1 ≠ some []) :
    strsepExt stringp delim = strsep stringp delim := by
  conv_lhs => unfold strsepExt
  split
  · simp_all
  · rfl

theorem strsepMeasure_strsepExt (stringp : Option CString) (delim : CString)
    (found : (strsepExt stringp delim).1 = some token) :
    strsepMeasure (strsepExt stringp delim).2 < strsepMeasure stringp := by
  induction stringp using strsepExt.induct delim with
  | case1 stringp empty ih =>
    rw [strsepExt_of_empty empty] at found ⊢
    exact (ih found).trans (strsepMeasure_strsep stringp delim empty)
  | case2 stringp nonempty =>
    rw [strsepExt_of_ne_empty nonempty] at found ⊢
    exact strsepMeasure_strsep stringp delim found

@[simp] theorem strsepExt_none (delim : CString) : strsepExt none delim = (none, none) := by
  rw [strsepExt]
  simp [strsep]

@[simp] theorem strsepExt_nil (delim : CString) : strsepExt (some []) delim = (none, none) := by
  rw [strsepExt]
  simp [strsep]

/-- A delimiter in front of the rest makes an empty token. -/
theorem strsepExt_delim {c : CChar} (delimiter : c ∈ delim) (rest : CString) :
    strsepExt (some (c :: rest)) delim = strsepExt (some rest) delim := by
  have first : strsep (some (c :: rest)) delim = (some [], some rest) := by
    simp [strsep, delimiter]
  rw [strsepExt, first]

/-- A token that ends with the string. -/
theorem strsepExt_last {token delim : CString} (nonempty : token ≠ [])
    (free : ∀ c ∈ token, c ∉ delim) : strsepExt (some token) delim = (some token, none) := by
  have dropped : token.dropWhile (· ∉ delim) = [] := List.dropWhile_eq_nil_iff.mpr (by simpa using free)
  have taken : token.takeWhile (· ∉ delim) = token := List.takeWhile_eq_self_iff.mpr (by simpa using free)
  have first : strsep (some token) delim = (some token, none) := by
    simp only [strsep, dropped, taken]
  obtain ⟨c, s, rfl⟩ := List.exists_cons_of_ne_nil nonempty
  rw [strsepExt, first]

/-- A token that ends at a delimiter. -/
theorem strsepExt_token {token delim : CString} {c : CChar} (nonempty : token ≠ [])
    (free : ∀ c ∈ token, c ∉ delim) (delimiter : c ∈ delim) (rest : CString) :
    strsepExt (some (token ++ c :: rest)) delim = (some token, some rest) := by
  have pass : ∀ c ∈ token, decide (c ∉ delim) = true := by simpa using free
  have dropped : (token ++ c :: rest).dropWhile (· ∉ delim) = c :: rest := by
    rw [List.dropWhile_append_of_pos pass, List.dropWhile_cons_of_neg (by simpa using delimiter)]
  have taken : (token ++ c :: rest).takeWhile (· ∉ delim) = token := by
    rw [List.takeWhile_append_of_pos pass, List.takeWhile_cons_of_neg (by simpa using delimiter),
      List.append_nil]
  have first : strsep (some (token ++ c :: rest)) delim = (some token, some rest) := by
    simp only [strsep, dropped, taken]
  obtain ⟨d, s, rfl⟩ := List.exists_cons_of_ne_nil nonempty
  rw [strsepExt, first]

end KommunikationNetze.Utils

namespace KommunikationNetze.Chat
open CLib

/-- Leading whitespace is skipped and the string ends at the first whitespace after
that. -/
def strtrim (string : CString) : CString :=
  (string.dropWhile fun c => isspace c.val).takeWhile fun c => !isspace c.val

theorem strtrim_not_isspace (string : CString) : ∀ c ∈ strtrim string, isspace c.val = false := by
  intro c mem
  simpa using List.mem_takeWhile_imp mem

end KommunikationNetze.Chat

namespace KommunikationNetze.Webserver
open CLib

/-- The condition of the second loop. -/
def strtrimEndTest (string : CString) : Bool :=
  0 < string.length && isspace (string.byteAt string.length)

/-- The byte at the length is the terminator. -/
theorem strtrimEndTest_false (string : CString) : strtrimEndTest string = false := by
  have terminator : string.byteAt string.length = 0 := by simp [CString.byteAt]
  simp [strtrimEndTest, terminator, isspace]

/-- The body of the second loop stores a terminator over the terminator. -/
def strtrim (string : CString) : CString :=
  let string := string.dropWhile fun c => isspace c.val
  if strtrimEndTest string then string.take string.length else string

theorem strtrim_eq (string : CString) : strtrim string = string.dropWhile (fun c => isspace c.val) := by
  simp [strtrim, strtrimEndTest_false]

end KommunikationNetze.Webserver
