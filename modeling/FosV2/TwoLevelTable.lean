import Mathlib.Logic.Function.Basic

/-!
Two-level tables. A top level names a second-level table for some of its indices, and the
tables live in a common store. As long as no two top-level entries name the same table, a
write into one table is a write to exactly one pair of indices, and a table that is
installed empty changes no lookup.
-/

namespace TwoLevelTable

variable {ι κ τ β : Type}

def lookup (top : ι → Option τ) (store : τ → κ → β) (vacant : β) (i : ι) (j : κ) : β :=
  match top i with
  | some table => store table j
  | none => vacant

def Distinct (domain : ι → Prop) (top : ι → Option τ) : Prop :=
  ∀ i i' table, domain i → domain i' → top i = some table → top i' = some table → i = i'

theorem lookup_some {top : ι → Option τ} {i : ι} {table : τ} (named : top i = some table)
    (store : τ → κ → β) (vacant : β) (j : κ) : lookup top store vacant i j = store table j := by
  simp only [lookup, named]

theorem lookup_none {top : ι → Option τ} {i : ι} (absent : top i = none)
    (store : τ → κ → β) (vacant : β) (j : κ) : lookup top store vacant i j = vacant := by
  simp only [lookup, absent]

theorem lookup_congr {top top' : ι → Option τ} {store store' : τ → κ → β} {vacant : β} {i : ι}
    {j : κ} (sameTop : top' i = top i)
    (sameStore : ∀ table, top i = some table → store' table j = store table j) :
    lookup top' store' vacant i j = lookup top store vacant i j := by
  unfold lookup
  rw [sameTop]
  cases named : top i with
  | none => rfl
  | some table => exact sameStore table named

variable [DecidableEq τ] [DecidableEq κ]

def write (store : τ → κ → β) (table : τ) (j : κ) (value : β) : τ → κ → β :=
  Function.update store table (Function.update (store table) j value)

theorem write_apply (store : τ → κ → β) (table query : τ) (j j' : κ) (value : β) :
    write store table j value query j' =
      if query = table ∧ j' = j then value else store query j' := by
  by_cases same : query = table
  · subst same
    simp [write, Function.update_apply]
  · simp [write, same]

theorem write_same (store : τ → κ → β) (table : τ) (j : κ) (value : β) :
    write store table j value table j = value := by
  simp [write_apply]

theorem write_other {store : τ → κ → β} {table query : τ} (different : query ≠ table) (j : κ)
    (value : β) : write store table j value query = store query := by
  funext j'
  simp [write_apply, different]

variable [DecidableEq ι]

theorem lookup_write {domain : ι → Prop} {top : ι → Option τ} (distinct : Distinct domain top)
    {i i' : ι} {table : τ} (inside : domain i) (inside' : domain i') (named : top i = some table)
    (store : τ → κ → β) (vacant : β) (j j' : κ) (value : β) :
    lookup top (write store table j value) vacant i' j' =
      if i' = i ∧ j' = j then value else lookup top store vacant i' j' := by
  by_cases same : i' = i
  · subst same
    simp only [lookup_some named, write_apply, true_and]
  · rw [if_neg fun both => same both.1]
    apply lookup_congr rfl
    intro other named'
    have different : other ≠ table :=
      fun equal => same (distinct i' i table inside' inside (equal ▸ named') named)
    rw [write_other different]

omit [DecidableEq κ] in
theorem lookup_install {domain : ι → Prop} {top : ι → Option τ} {i i' : ι} {table : τ}
    (absent : top i = none) (fresh : ∀ i', domain i' → top i' ≠ some table) (inside' : domain i')
    (store : τ → κ → β) (vacant : β) (j : κ) :
    lookup (Function.update top i (some table)) (Function.update store table fun _ => vacant)
      vacant i' j = lookup top store vacant i' j := by
  by_cases same : i' = i
  · subst same
    simp [lookup, absent]
  · apply lookup_congr
    · simp [same]
    · intro other named
      have different : other ≠ table := fun equal => fresh i' inside' (equal ▸ named)
      simp [different]

omit [DecidableEq τ] [DecidableEq κ] in
theorem Distinct.install {domain : ι → Prop} {top : ι → Option τ} (distinct : Distinct domain top)
    (i : ι) {table : τ} (fresh : ∀ i', domain i' → top i' ≠ some table) :
    Distinct domain (Function.update top i (some table)) := by
  intro first second shared firstInside secondInside firstNamed secondNamed
  by_cases firstHere : first = i <;> by_cases secondHere : second = i
  · rw [firstHere, secondHere]
  · simp only [firstHere, Function.update_self, Option.some.injEq, Function.update_of_ne secondHere]
      at firstNamed secondNamed
    exact absurd (firstNamed ▸ secondNamed) (fresh second secondInside)
  · simp only [secondHere, Function.update_self, Option.some.injEq, Function.update_of_ne firstHere]
      at firstNamed secondNamed
    exact absurd (secondNamed ▸ firstNamed) (fresh first firstInside)
  · rw [Function.update_of_ne firstHere] at firstNamed
    rw [Function.update_of_ne secondHere] at secondNamed
    exact distinct first second shared firstInside secondInside firstNamed secondNamed

end TwoLevelTable
