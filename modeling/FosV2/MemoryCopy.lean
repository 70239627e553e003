import Mathlib.Logic.Function.Basic

/-!
Copying within a memory, one cell after the other. The source and the destination may
overlap: the copy is right as long as no cell is written before it is read.
-/

namespace MemoryCopy

variable {A α : Type} [DecidableEq A]

def copy (dst src : Nat → A) : Nat → (A → α) → A → α
  | 0, mem => mem
  | n + 1, mem =>
      let copied := copy dst src n mem
      Function.update copied (dst n) (copied (src n))

variable {dst src : Nat → A} {n : Nat} {mem : A → α}

theorem copy_of_ne {a : A} (other : ∀ k < n, a ≠ dst k) : copy dst src n mem a = mem a := by
  induction n with
  | zero => rfl
  | succ n ih =>
      rw [copy, Function.update_of_ne (other n n.lt_succ_self)]
      exact ih fun k small => other k (Nat.lt_succ_of_lt small)

theorem copy_dst (apart : ∀ k < n, ∀ j < n, dst k = dst j → k = j)
    (unread : ∀ k < n, ∀ j < k, src k ≠ dst j) {k : Nat} (small : k < n) :
    copy dst src n mem (dst k) = mem (src k) := by
  induction n with
  | zero => exact absurd small (Nat.not_lt_zero k)
  | succ n ih =>
      rw [copy]
      by_cases last : k = n
      · subst last
        rw [Function.update_self]
        exact copy_of_ne (unread k small)
      · have earlier : k < n := by omega
        have differs : dst k ≠ dst n := fun same => last (apart k small n n.lt_succ_self same)
        rw [Function.update_of_ne differs]
        exact ih (fun i less j less' => apart i (by omega) j (by omega))
          (fun i less => unread i (by omega)) earlier

theorem copy_succ (n : Nat) (mem : A → α) : copy dst src (n + 1) mem =
    copy (fun k => dst (k + 1)) (fun k => src (k + 1)) n
      (Function.update mem (dst 0) (mem (src 0))) := by
  induction n with
  | zero => rfl
  | succ n ih => rw [copy, ih, copy]

end MemoryCopy
