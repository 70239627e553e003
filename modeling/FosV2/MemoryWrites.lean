import Mathlib.Order.Basic

/-!
A memory after a sequence of bulk writes. Each cell holds what the last write that covers it
has put there.
-/

namespace MemoryWrites

variable {A α : Type}

structure Write (A α : Type) where
  covers : A → Bool
  value : A → α

def Write.apply (write : Write A α) (mem : A → α) : A → α :=
  fun a => if write.covers a then write.value a else mem a

def written (writes : Nat → Write A α) : Nat → (A → α) → A → α
  | 0, mem => mem
  | n + 1, mem => (writes n).apply (written writes n mem)

variable {writes : Nat → Write A α} {n : Nat} {mem : A → α} {a : A}

theorem written_of_none (none : ∀ l < n, ¬(writes l).covers a) : written writes n mem a = mem a := by
  induction n with
  | zero => rfl
  | succ n ih =>
      rw [written, Write.apply, if_neg (none n n.lt_succ_self)]
      exact ih fun l less => none l (Nat.lt_succ_of_lt less)

structure Last (writes : Nat → Write A α) (n : Nat) (a : A) (j : Nat) : Prop where
  inside : j < n
  covers : (writes j).covers a
  latest : ∀ l, j < l → l < n → ¬(writes l).covers a

theorem Last.written {j : Nat} (last : Last writes n a j) :
    written writes n mem a = (writes j).value a := by
  obtain ⟨inside, covers, latest⟩ := last
  induction n with
  | zero => exact absurd inside (Nat.not_lt_zero j)
  | succ n ih =>
      rw [MemoryWrites.written, Write.apply]
      by_cases newest : j = n
      · rw [← newest, if_pos covers]
      · rw [if_neg (latest n (by omega) n.lt_succ_self)]
        exact ih (by omega) fun l later less => latest l later (by omega)

theorem exists_last {i : Nat} (inside : i < n) (covers : (writes i).covers a) :
    ∃ j, i ≤ j ∧ Last writes n a j := by
  induction n with
  | zero => exact absurd inside (Nat.not_lt_zero i)
  | succ n ih =>
      by_cases newest : (writes n).covers a
      · exact ⟨n, by omega, n.lt_succ_self, newest, fun l later less => by omega⟩
      · have earlier : i < n := by
          rcases Nat.lt_or_eq_of_le (Nat.le_of_lt_succ inside) with less | same
          · exact less
          · rw [same] at covers
            exact absurd covers newest
        obtain ⟨j, atLeast, last⟩ := ih earlier
        refine ⟨j, atLeast, Nat.lt_succ_of_lt last.inside, last.covers, ?_⟩
        intro l later less
        rcases Nat.lt_or_eq_of_le (Nat.le_of_lt_succ less) with less | same
        · exact last.latest l later less
        · rwa [same]

end MemoryWrites
