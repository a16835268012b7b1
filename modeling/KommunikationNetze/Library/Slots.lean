import Mathlib.Data.List.Basic

/-! A table of slots, each empty or with an element, in which no element has two slots. -/
namespace KommunikationNetze.Slots
variable {α : Type*}

def Distinct (slots : List (Option α)) : Prop :=
  ∀ (i j : Nat) (a : α), slots[i]? = some (some a) → slots[j]? = some (some a) → i = j

variable {slots : List (Option α)} {slot : Option α} {i j : Nat} {a b : α}

/-- What the slots hold after one of them was written. -/
theorem held_set (inside : i < slots.length) : (slots.set i slot)[j]? = some (some a) ↔
    j = i ∧ slot = some a ∨ j ≠ i ∧ slots[j]? = some (some a) := by
  by_cases same : j = i
  · subst same
    rw [List.getElem?_set_self inside, Option.some.injEq]
    simp
  · rw [List.getElem?_set_ne (Ne.symm same)]
    simp [same]

theorem mem_iff : some a ∈ slots ↔ ∃ i : Nat, slots[i]? = some (some a) := List.mem_iff_getElem?

section Find
variable [DecidableEq α]

/-- The first slot that holds this. -/
theorem findIdx?_spec (found : slots.findIdx? (· = slot) = some i) : slots[i]? = some slot := by
  obtain ⟨inside, held, _⟩ := List.findIdx?_eq_some_iff_getElem.mp found
  rw [List.getElem?_eq_getElem inside, of_decide_eq_true held]

theorem findIdx?_of_mem (mem : slot ∈ slots) : ∃ i, slots.findIdx? (· = slot) = some i := by
  cases found : slots.findIdx? (· = slot) with
  | some i => exact ⟨i, rfl⟩
  | none =>
    have other := List.findIdx?_eq_none_iff.mp found slot mem
    exact absurd rfl (of_decide_eq_false other)

theorem findIdx?_of_not_mem (absent : slot ∉ slots) : slots.findIdx? (· = slot) = none := by
  refine List.findIdx?_eq_none_iff.mpr fun other mem => decide_eq_false fun same => absent ?_
  exact same ▸ mem

end Find

namespace Distinct

theorem existsUnique (distinct : Distinct slots) (mem : some a ∈ slots) :
    ∃! i : Nat, slots[i]? = some (some a) := by
  obtain ⟨i, held⟩ := mem_iff.mp mem
  exact ⟨i, held, fun j other => distinct j i a other held⟩

theorem fill (distinct : Distinct slots) (inside : i < slots.length) (fresh : some a ∉ slots) :
    Distinct (slots.set i (some a)) := by
  intro j k b first second
  rcases (held_set inside).mp first with ⟨atJ, new⟩ | ⟨_, old⟩ <;>
    rcases (held_set inside).mp second with ⟨atK, other⟩ | ⟨_, before⟩
  · exact atJ.trans atK.symm
  · cases new
    exact absurd (mem_iff.mpr ⟨k, before⟩) fresh
  · cases other
    exact absurd (mem_iff.mpr ⟨j, old⟩) fresh
  · exact distinct j k b old before

theorem clear (distinct : Distinct slots) (inside : i < slots.length) : Distinct (slots.set i none) := by
  intro j k b first second
  rcases (held_set inside).mp first with ⟨_, empty⟩ | ⟨_, old⟩
  · cases empty
  rcases (held_set inside).mp second with ⟨_, empty⟩ | ⟨_, before⟩
  · cases empty
  · exact distinct j k b old before

end Distinct

theorem mem_fill (empty : slots[i]? = some none) :
    some b ∈ slots.set i (some a) ↔ b = a ∨ some b ∈ slots := by
  have inside := (List.getElem?_eq_some_iff.mp empty).1
  rw [mem_iff, mem_iff]
  constructor
  · rintro ⟨j, held⟩
    rcases (held_set inside).mp held with ⟨_, new⟩ | ⟨_, old⟩
    · exact .inl (Option.some.inj new).symm
    · exact .inr ⟨j, old⟩
  · rintro (rfl | ⟨j, held⟩)
    · exact ⟨i, (held_set inside).mpr (.inl ⟨rfl, rfl⟩)⟩
    · refine ⟨j, (held_set inside).mpr (.inr ⟨fun same => ?_, held⟩)⟩
      rw [same, empty] at held
      cases held

theorem mem_clear (distinct : Distinct slots) (held : slots[i]? = some (some a)) :
    some b ∈ slots.set i none ↔ some b ∈ slots ∧ b ≠ a := by
  have inside := (List.getElem?_eq_some_iff.mp held).1
  rw [mem_iff, mem_iff]
  constructor
  · rintro ⟨j, other⟩
    rcases (held_set inside).mp other with ⟨_, empty⟩ | ⟨different, old⟩
    · cases empty
    · refine ⟨⟨j, old⟩, fun same => different ?_⟩
      subst same
      exact distinct j i b old held
  · rintro ⟨⟨j, old⟩, different⟩
    refine ⟨j, (held_set inside).mpr (.inr ⟨fun same => different ?_, old⟩)⟩
    rw [same, held] at old
    cases old
    rfl

end KommunikationNetze.Slots
