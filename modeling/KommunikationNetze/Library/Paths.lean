import Mathlib.Data.List.Basic
import Mathlib.Data.List.Infix

/-! Absolute paths as lists of names. The text of a path has the separator in front of
every name and names are free of it, so that a prefix of the text that ends in a name
determines all names but the last one. -/
namespace KommunikationNetze.Paths
variable {α : Type*}

def render (separator : α) (names : List (List α)) : List α := names.flatMap (separator :: ·)

variable {separator : α}

@[simp] theorem render_nil : render separator [] = [] := rfl

@[simp] theorem render_cons (name : List α) (names : List (List α)) :
    render separator (name :: names) = separator :: (name ++ render separator names) := by
  simp [render]

@[simp] theorem render_append (names others : List (List α)) :
    render separator (names ++ others) = render separator names ++ render separator others :=
  List.flatMap_append

/-- A text free of the separator does not reach into the next name. -/
theorem prefix_name {name other rest : List α} (free : separator ∉ name)
    (same : name ++ rest = other ++ render separator names) : name <+: other := by
  rcases List.append_eq_append_iff.mp same with ⟨more, extended, _⟩ | ⟨more, longer, after⟩
  · exact ⟨more, extended.symm⟩
  · cases more with
    | nil => exact ⟨[], by rw [longer, List.append_nil, List.append_nil]⟩
    | cons c more =>
      cases names with
      | nil => simp at after
      | cons next names =>
        rw [render_cons, List.cons_append] at after
        obtain ⟨rfl, _⟩ := List.cons.inj after
        exact absurd (by simp [longer]) free

/-- Two texts with a separator behind their first names agree in these names. -/
theorem first_name {name other rest : List α} (free : separator ∉ name) (freeOther : separator ∉ other)
    (same : name ++ separator :: rest = other ++ render separator names) :
    name = other ∧ separator :: rest = render separator names := by
  obtain ⟨more, rfl⟩ := prefix_name free same
  rw [List.append_assoc] at same
  have after := List.append_cancel_left same
  cases more with
  | nil => exact ⟨(List.append_nil _).symm, after⟩
  | cons c more =>
    rw [List.cons_append] at after
    obtain ⟨rfl, _⟩ := List.cons.inj after
    exact absurd (by simp) freeOther

/-- A path extends another one as a text exactly if it continues at the same place with
a name that begins with its last name. -/
theorem render_prefix_iff {parents names : List (List α)} {name : List α}
    (freeParents : ∀ parent ∈ parents, separator ∉ parent) (free : separator ∉ name)
    (freeNames : ∀ other ∈ names, separator ∉ other) :
    render separator (parents ++ [name]) <+: render separator names ↔
      ∃ suffix rest, names = parents ++ (name ++ suffix) :: rest := by
  constructor
  · rintro ⟨rest, same⟩
    induction parents generalizing names with
    | nil =>
      cases names with
      | nil => simp at same
      | cons other names =>
        simp only [List.nil_append, render_cons, render_nil, List.append_nil, List.cons_append,
          List.cons.injEq, true_and] at same
        obtain ⟨suffix, rfl⟩ := prefix_name free same
        exact ⟨suffix, names, rfl⟩
    | cons parent parents ih =>
      cases names with
      | nil => simp at same
      | cons other names =>
        have below : ∃ tail, render separator (parents ++ [name]) = separator :: tail := by
          cases parents <;> simp
        obtain ⟨tail, shape⟩ := below
        rw [List.cons_append, render_cons, render_cons, shape] at same
        simp only [List.cons_append, List.append_assoc, List.cons.injEq, true_and] at same
        obtain ⟨rfl, after⟩ := first_name (freeParents parent (by simp)) (freeNames other (by simp)) same
        have continued : render separator (parents ++ [name]) ++ rest = render separator names := by
          rw [shape, List.cons_append, after]
        obtain ⟨suffix, others, rfl⟩ := ih (fun p mem => freeParents p (List.mem_cons_of_mem _ mem))
          (fun p mem => freeNames p (List.mem_cons_of_mem _ mem)) continued
        exact ⟨suffix, others, rfl⟩
  · rintro ⟨suffix, rest, rfl⟩
    exact ⟨suffix ++ render separator rest, by simp⟩

end KommunikationNetze.Paths
