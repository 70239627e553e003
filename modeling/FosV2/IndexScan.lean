import Mathlib.Data.List.Basic

/-!
The indices of a table at which a predicate holds, as a scan from some index on finds them.
-/

namespace IndexScan

variable (p : Nat → Bool) (n : Nat)

def matchesFrom (i : Nat) : List Nat := (List.range' i (n - i)).filter p

variable {p n} {i : Nat}

theorem matchesFrom_end : matchesFrom p n n = [] := by
  rw [matchesFrom, Nat.sub_self]
  rfl

theorem matchesFrom_step (inside : i < n) : matchesFrom p n i =
    if p i then i :: matchesFrom p n (i + 1) else matchesFrom p n (i + 1) := by
  have count : n - i = n - (i + 1) + 1 := by omega
  rw [matchesFrom, matchesFrom, count, List.range'_succ, List.filter_cons]

theorem matchesFrom_skip {count : Nat} (below : i + count ≤ n)
    (none : ∀ j, i ≤ j → j < i + count → p j = false) :
    matchesFrom p n i = matchesFrom p n (i + count) := by
  induction count generalizing i with
  | zero => rfl
  | succ count ih =>
      have next : i + (count + 1) = i + 1 + count := by omega
      rw [next] at below none ⊢
      have here := none i (Nat.le_refl _) (by omega)
      rw [matchesFrom_step (by omega), here]
      exact ih below fun j above => none j (by omega)

theorem exists_next (within : i ≤ n) :
    ∃ count, i + count ≤ n ∧ (∀ j, i ≤ j → j < i + count → p j = false) ∧
      (i + count < n → p (i + count) = true) := by
  obtain ⟨left, rfl⟩ := Nat.exists_eq_add_of_le within
  induction left generalizing i with
  | zero => exact ⟨0, Nat.le_refl _, fun j above below => by omega, fun more => by omega⟩
  | succ left ih =>
      cases here : p i with
      | true => exact ⟨0, by omega, fun j above below => by omega, fun _ => here⟩
      | false =>
          obtain ⟨count, most, none, found⟩ := ih (i := i + 1) (by omega)
          have next : i + (count + 1) = i + 1 + count := by omega
          have size : i + (left + 1) = i + 1 + left := by omega
          rw [size]
          refine ⟨count + 1, by omega, fun j above below => ?_, fun more => ?_⟩
          · by_cases first : j = i
            · exact first ▸ here
            · exact none j (by omega) (by omega)
          · rw [next]
            exact found (by omega)

end IndexScan
