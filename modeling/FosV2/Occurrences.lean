import Mathlib.Algebra.BigOperators.Group.Finset.Basic
import Mathlib.Data.Finset.Card

/-!
Counting references. A finite set of slots may each point at a target; `occurrences`
is the number of slots that point at a given one. The lemmas say how the count moves
when a single slot is redirected.
-/

namespace Occurrences

variable {ι α : Type} [DecidableEq α]

def occurrences (slots : Finset ι) (target : ι → Option α) (value : α) : Nat :=
  (slots.filter fun slot => target slot = some value).card

theorem occurrences_congr {slots : Finset ι} {target target' : ι → Option α}
    (same : ∀ slot ∈ slots, target' slot = target slot) (value : α) :
    occurrences slots target' value = occurrences slots target value := by
  unfold occurrences
  congr 1
  apply Finset.filter_congr
  intro slot member
  rw [same slot member]

theorem occurrences_pos {slots : Finset ι} {target : ι → Option α} {slot : ι} {value : α}
    (member : slot ∈ slots) (points : target slot = some value) :
    0 < occurrences slots target value :=
  Finset.card_pos.mpr ⟨slot, Finset.mem_filter.mpr ⟨member, points⟩⟩

theorem occurrences_eq_zero_iff {slots : Finset ι} {target : ι → Option α} {value : α} :
    occurrences slots target value = 0 ↔ ∀ slot ∈ slots, target slot ≠ some value := by
  simp [occurrences, Finset.filter_eq_empty_iff]

theorem occurrences_mono {slots : Finset ι} {target target' : ι → Option α} {value : α}
    (kept : ∀ slot ∈ slots, target' slot = some value → target slot = some value) :
    occurrences slots target' value ≤ occurrences slots target value := by
  apply Finset.card_le_card
  intro slot member
  obtain ⟨inside, points⟩ := Finset.mem_filter.mp member
  exact Finset.mem_filter.mpr ⟨inside, kept slot inside points⟩

variable [DecidableEq ι]

theorem occurrences_erase {slots : Finset ι} (target : ι → Option α) {slot : ι}
    (member : slot ∈ slots) (value : α) :
    occurrences slots target value =
      occurrences (slots.erase slot) target value +
        if target slot = some value then 1 else 0 := by
  unfold occurrences
  rw [Finset.filter_erase]
  by_cases points : target slot = some value
  · rw [if_pos points, Finset.card_erase_add_one]
    exact Finset.mem_filter.mpr ⟨member, points⟩
  · rw [if_neg points, Nat.add_zero, Finset.erase_eq_of_notMem]
    simp [points]

/-- Redirecting one slot moves the count by what it pointed at before and after. -/
theorem occurrences_redirect {slots : Finset ι} (target target' : ι → Option α) {slot : ι}
    (member : slot ∈ slots)
    (same : ∀ other ∈ slots, other ≠ slot → target' other = target other) (value : α) :
    occurrences slots target' value + (if target slot = some value then 1 else 0) =
      occurrences slots target value + (if target' slot = some value then 1 else 0) := by
  have rest : occurrences (slots.erase slot) target' value =
      occurrences (slots.erase slot) target value := by
    apply occurrences_congr
    intro other belongs
    exact same other (Finset.mem_of_mem_erase belongs) (Finset.ne_of_mem_erase belongs)
  rw [occurrences_erase target' member, occurrences_erase target member, rest]
  omega

omit [DecidableEq ι] in
theorem eq_of_occurrences_le_one {slots : Finset ι} {target : ι → Option α} {value : α}
    (single : occurrences slots target value ≤ 1) {slot other : ι}
    (member : slot ∈ slots) (otherMember : other ∈ slots)
    (points : target slot = some value) (otherPoints : target other = some value) :
    slot = other :=
  Finset.card_le_one.mp single slot (Finset.mem_filter.mpr ⟨member, points⟩) other
    (Finset.mem_filter.mpr ⟨otherMember, otherPoints⟩)

end Occurrences
