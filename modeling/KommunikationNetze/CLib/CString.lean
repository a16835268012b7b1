import Mathlib.Data.Nat.Digits.Defs
import Mathlib.Data.Nat.Digits.Lemmas
import Mathlib.Data.List.TakeWhile
import Mathlib.Tactic.IntervalCases

/-! Strings of the C library. A character of a string is a byte other than the
terminator, so every list of characters is a well-formed string and no function
on strings has to argue about embedded terminators. -/
namespace KommunikationNetze.CLib

abbrev CChar := {b : UInt8 // b ≠ 0}

/-- Membership in a set of characters is decidable. -/
instance : LawfulBEq CChar := inferInstance

/-- The characters before the terminator. -/
abbrev CString := List CChar

def CString.bytes (s : CString) : List UInt8 := s.map Subtype.val

/-- The string a `char*` to these bytes denotes: up to the first zero byte. -/
def stringAt : List UInt8 → CString
  | [] => []
  | b :: rest => if h : b = 0 then [] else ⟨b, h⟩ :: stringAt rest

/-- A string literal of the source. -/
def literal (s : String) : CString := stringAt (s.toList.map fun c => UInt8.ofNat c.toNat)

/-- The byte at an index, the terminator from the length on. -/
def CString.byteAt (s : CString) (i : Nat) : UInt8 := s.bytes.getD i 0

@[simp] theorem bytes_nil : CString.bytes [] = [] := rfl

@[simp] theorem bytes_cons (c : CChar) (s : CString) :
    CString.bytes (c :: s) = c.val :: CString.bytes s := rfl

@[simp] theorem bytes_append (s t : CString) :
    CString.bytes (s ++ t) = CString.bytes s ++ CString.bytes t := List.map_append

@[simp] theorem length_bytes (s : CString) : (CString.bytes s).length = s.length :=
  List.length_map _

theorem bytes_ne_zero (s : CString) : ∀ b ∈ CString.bytes s, b ≠ 0 := by
  intro b mem
  obtain ⟨c, _, rfl⟩ := List.mem_map.mp mem
  exact c.property

theorem bytes_injective (same : CString.bytes s = CString.bytes t) : s = t :=
  List.map_injective_iff.mpr Subtype.val_injective same

theorem stringAt_bytes_append (s : CString) (rest : List UInt8) :
    stringAt (s.bytes ++ 0 :: rest) = s := by
  induction s with
  | nil => simp [stringAt]
  | cons c s ih =>
    have nonzero := c.property
    simp [stringAt, nonzero, ih]

theorem bytes_stringAt (buffer : List UInt8) :
    (stringAt buffer).bytes = buffer.takeWhile (· ≠ 0) := by
  induction buffer with
  | nil => rfl
  | cons b rest ih =>
    by_cases zero : b = 0
    · simp [stringAt, zero]
    · simpa [stringAt, zero] using ih

/-- `strcmp`: the difference of the first bytes that differ, as unsigned
characters; the terminator counts as zero. -/
def strcmp : CString → CString → Int
  | [], [] => 0
  | [], d :: _ => -(d.val.toNat : Int)
  | c :: _, [] => c.val.toNat
  | c :: s, d :: t => if c = d then strcmp s t else (c.val.toNat : Int) - d.val.toNat

theorem toNat_pos (c : CChar) : 0 < c.val.toNat := by
  have nonzero : c.val.toNat ≠ 0 := fun zero => c.property (UInt8.toNat_inj.mp zero)
  omega

theorem toNat_ne {c d : CChar} (different : c ≠ d) : c.val.toNat ≠ d.val.toNat :=
  fun same => different (Subtype.ext (UInt8.toNat_inj.mp same))

@[simp] theorem strcmp_self (s : CString) : strcmp s s = 0 := by
  induction s with
  | nil => rfl
  | cons c s ih => simp [strcmp, ih]

theorem strcmp_eq_zero {s t : CString} : strcmp s t = 0 ↔ s = t := by
  refine ⟨?_, fun same => same ▸ strcmp_self s⟩
  induction s generalizing t with
  | nil =>
    cases t with
    | nil => intro; rfl
    | cons d t =>
      have := toNat_pos d
      simp only [strcmp]
      omega
  | cons c s ih =>
    cases t with
    | nil =>
      have := toNat_pos c
      simp only [strcmp]
      omega
    | cons d t =>
      by_cases same : c = d
      · subst d
        simp only [strcmp, if_true]
        intro zero
        rw [ih zero]
      · have := toNat_ne same
        simp only [strcmp, if_neg same]
        omega

/-- `strncmp` looks at the first `n` characters only. -/
def strncmp (s t : CString) (n : Nat) : Int := strcmp (s.take n) (t.take n)

theorem strncmp_eq_zero {s t : CString} : strncmp s t t.length = 0 ↔ t <+: s := by
  rw [strncmp, List.take_length, strcmp_eq_zero, List.prefix_iff_eq_take]
  exact eq_comm

theorem strcmp_swap (s t : CString) : strcmp t s = -strcmp s t := by
  induction s generalizing t with
  | nil => cases t <;> simp [strcmp]
  | cons c s ih =>
    cases t with
    | nil => simp [strcmp]
    | cons d t =>
      by_cases same : c = d
      · simp only [strcmp, same, if_true, ih]
      · have other : ¬d = c := fun h => same h.symm
        simp only [strcmp, if_neg same, if_neg other]
        omega

theorem strcmp_neg_trans {s t u : CString} (first : strcmp s t < 0) (second : strcmp t u < 0) :
    strcmp s u < 0 := by
  induction s generalizing t u with
  | nil =>
    cases u with
    | nil => cases t <;> simp [strcmp] at first second; omega
    | cons d u =>
      have := toNat_pos d
      simp only [strcmp]
      omega
  | cons c s ih =>
    cases t with
    | nil =>
      simp only [strcmp] at first
      omega
    | cons d t =>
      cases u with
      | nil =>
        simp only [strcmp] at second
        omega
      | cons e u =>
        by_cases cd : c = d <;> by_cases de : d = e
        · subst d e
          simp only [strcmp, if_true] at first second ⊢
          exact ih first second
        · subst d
          simpa only [strcmp, if_neg de] using second
        · subst e
          simpa only [strcmp, if_neg cd] using first
        · simp only [strcmp, if_neg cd, if_neg de] at first second
          have ce : ¬c = e := by
            rintro rfl
            omega
          simp only [strcmp, if_neg ce]
          omega

/-- The order in which `strcmp` sorts: a strict total order. -/
def Less (s t : CString) : Prop := strcmp s t < 0

theorem less_of_strcmp_pos (positive : 0 < strcmp s t) : Less t s := by
  rw [Less, strcmp_swap s t]
  omega

/-- `isspace` in the C locale. -/
def isspace (b : UInt8) : Bool := b = 32 || (9 ≤ b && b ≤ 13)

/-- `%u` and `%d` of a nonnegative number. -/
def decimal (n : Nat) : CString :=
  if n = 0 then literal "0"
  else ((Nat.digits 10 n).reverse.map fun d => UInt8.ofNat (48 + d)) |> stringAt

theorem bytes_stringAt_of_nonzero {bytes : List UInt8} (nonzero : ∀ b ∈ bytes, b ≠ 0) :
    (stringAt bytes).bytes = bytes := by
  rw [bytes_stringAt]
  exact List.takeWhile_eq_self_iff.mpr (by simpa using nonzero)

theorem toNat_digit (small : d < 10) : (UInt8.ofNat (48 + d)).toNat = 48 + d :=
  UInt8.toNat_ofNat_of_lt' (by simp only [UInt8.size]; omega)

/-- Every digit is a character, so the whole number is written. -/
theorem bytes_decimal (positive : n ≠ 0) :
    (decimal n).bytes = (Nat.digits 10 n).reverse.map fun d => UInt8.ofNat (48 + d) := by
  rw [decimal, if_neg positive]
  refine bytes_stringAt_of_nonzero ?_
  intro b mem zero
  obtain ⟨d, digit, rfl⟩ := List.mem_map.mp mem
  have value := toNat_digit (Nat.digits_lt_base (by omega) (List.mem_reverse.mp digit))
  rw [zero, UInt8.toNat_zero] at value
  omega

theorem digits_of_bytes (digits : List Nat) (small : ∀ d ∈ digits, d < 10) :
    (digits.map fun d => UInt8.ofNat (48 + d)).map (fun b => b.toNat - 48) = digits := by
  rw [List.map_map]
  refine (List.map_congr_left fun d mem => ?_).trans (List.map_id _)
  simp only [Function.comp_apply, toNat_digit (small d mem), id_eq]
  omega

theorem decimal_injective {m n : Nat} (left : m ≠ 0) (right : n ≠ 0) (same : decimal m = decimal n) :
    m = n := by
  have bytes := congrArg CString.bytes same
  rw [bytes_decimal left, bytes_decimal right, List.map_reverse, List.map_reverse,
    List.reverse_inj] at bytes
  have digits := congrArg (List.map fun b => b.toNat - 48) bytes
  rw [digits_of_bytes _ fun _ => Nat.digits_lt_base (by omega),
    digits_of_bytes _ fun _ => Nat.digits_lt_base (by omega)] at digits
  exact Nat.digits_inj_iff.mp digits

/-- No character of a number is whitespace. -/
theorem decimal_not_isspace (positive : n ≠ 0) : ∀ c ∈ decimal n, isspace c.val = false := by
  intro c mem
  have byte : c.val ∈ (decimal n).bytes := List.mem_map_of_mem mem
  rw [bytes_decimal positive] at byte
  obtain ⟨d, digit, value⟩ := List.mem_map.mp byte
  have small := Nat.digits_lt_base (by omega) (List.mem_reverse.mp digit)
  rw [← value]
  interval_cases d <;> decide

end KommunikationNetze.CLib
