import FosV2.PrintFormat

/-!
Which bytes of a string `%s` looks at. It reads the byte behind the last one that the
precision admits, and what it prints depends on nothing else.
-/

namespace FosV2

structure Looked (text : Text) (precision : Word) (i n : Nat) : Prop where
  from_ : i ≤ n
  admitted : 0 ≤ precision.toInt → n ≤ i + precision.toNat
  printed : ∀ k, i ≤ k → k < n → ∃ ch, text k = .ok ch ∧ ch ≠ 0

section Texts

variable {σ : Type} {putch : σ → Word → σ} {text text' : Text} {altflag : Bool}
  {fuel i n : Nat} {precision width : Word} {putdat : σ} {ch : Byte}

def nextPrecision (precision : Word) : Word :=
  if precision.toInt < 0 then precision else precision - 1

theorem nextPrecision_negative (negative : precision.toInt < 0) :
    nextPrecision precision = precision := if_pos negative

theorem nextPrecision_positive (positive : 0 ≤ precision.toInt)
    (more : 0 ≤ (precision - 1).toInt) :
    nextPrecision precision = precision - 1 ∧ 0 < precision.toNat ∧
      (precision - 1).toNat = precision.toNat - 1 := by
  have bits := precision.isLt
  have one : (1 : Word).toNat = 1 := rfl
  simp only [BitVec.toInt_eq_toNat_cond, BitVec.toNat_sub, one] at positive more ⊢
  refine ⟨if_neg (by rw [BitVec.toInt_eq_toNat_cond]; omega), ?_, ?_⟩
  · omega
  · omega

theorem more_of_pos (positive : 0 ≤ precision.toInt) (some : 0 < precision.toNat) :
    0 ≤ (precision - 1).toInt := by
  have bits := precision.isLt
  have one : (1 : Word).toNat = 1 := rfl
  simp only [BitVec.toInt_eq_toNat_cond, BitVec.toNat_sub, one] at positive ⊢
  omega

theorem eq_zero_of_cut (cut : ¬(precision.toInt < 0 ∨ 0 ≤ (precision - 1).toInt)) : precision = 0 := by
  have bits := precision.isLt
  have one : (1 : Word).toNat = 1 := rfl
  apply BitVec.eq_of_toNat_eq
  simp only [BitVec.toInt_eq_toNat_cond, BitVec.toNat_sub, one] at cut
  change precision.toNat = 0
  omega

theorem putText_succ (putch : σ → Word → σ) (text : Text) (altflag : Bool) (fuel i : Nat)
    (precision width : Word) (putdat : σ) :
    putText putch text altflag (fuel + 1) i precision width putdat = (do
      let ch ← text i
      if ch = 0 then return (width, putdat)
      else if precision.toInt < 0 ∨ 0 ≤ (precision - 1).toInt then
        putText putch text altflag fuel (i + 1) (nextPrecision precision) (width - 1)
          (putch putdat ((if altflag ∧ ¬isBetween (char ' ') (char '~') ch then char '?'
            else ch).signExtend 32))
      else return (width, putdat)) := rfl

theorem Looked.self (text : Text) (precision : Word) (i : Nat) : Looked text precision i i :=
  ⟨Nat.le_refl i, fun _ => Nat.le_add_right _ _, fun _ later before => absurd before (by omega)⟩

theorem Looked.later (read : text i = .ok ch) (some : ch ≠ 0)
    (more : precision.toInt < 0 ∨ 0 ≤ (precision - 1).toInt)
    (looked : Looked text (nextPrecision precision) (i + 1) n) : Looked text precision i n := by
  refine ⟨Nat.le_of_succ_le looked.from_, fun positive => ?_, fun k start before => ?_⟩
  · have less : 0 ≤ (precision - 1).toInt := by omega
    obtain ⟨next, nonzero, smaller⟩ := nextPrecision_positive positive less
    have admitted := looked.admitted
    rw [next] at admitted
    have bound := admitted less
    omega
  · rcases Nat.eq_or_lt_of_le start with same | after
    · exact ⟨ch, same ▸ read, some⟩
    · exact looked.printed k after before

theorem Looked.next (looked : Looked text precision i n) (after : i < n) :
    (precision.toInt < 0 ∨ 0 ≤ (precision - 1).toInt) ∧
      Looked text (nextPrecision precision) (i + 1) n := by
  have more : precision.toInt < 0 ∨ 0 ≤ (precision - 1).toInt := by
    by_cases positive : 0 ≤ precision.toInt
    · have admitted := looked.admitted positive
      exact Or.inr (more_of_pos positive (by omega))
    · exact Or.inl (by omega)
  refine ⟨more, after, fun positive => ?_, fun k start before => ?_⟩
  · by_cases negative : precision.toInt < 0
    · rw [nextPrecision_negative negative] at positive
      omega
    · have less : 0 ≤ (precision - 1).toInt := by omega
      obtain ⟨next, nonzero, smaller⟩ := nextPrecision_positive (by omega) less
      have admitted := looked.admitted (by omega)
      rw [next]
      omega
  · exact looked.printed k (by omega) before

/-- Two strings print alike when they agree on the bytes that are looked at. -/
theorem putText_congr (same : ∀ n, Looked text precision i n → text' n = text n) :
    putText putch text' altflag fuel i precision width putdat =
      putText putch text altflag fuel i precision width putdat := by
  induction fuel generalizing i precision width putdat with
  | zero => rfl
  | succ fuel ih =>
      rw [putText_succ, putText_succ, same i (.self text precision i)]
      cases read : text i with
      | error stop => rfl
      | ok ch =>
          rw [ok_bind, ok_bind]
          by_cases ended : ch = 0
          · rw [if_pos ended, if_pos ended]
          · rw [if_neg ended, if_neg ended]
            by_cases more : precision.toInt < 0 ∨ 0 ≤ (precision - 1).toInt
            · rw [if_pos more, if_pos more]
              exact ih fun n looked => same n (.later read ended more looked)
            · rw [if_neg more, if_neg more]

theorem putText_error {stop : Stop} (looked : Looked text precision i n)
    (unreadable : text n = .error stop) (enough : n < i + fuel) :
    putText putch text altflag fuel i precision width putdat = .error stop := by
  induction fuel generalizing i precision width putdat with
  | zero => exact absurd looked.from_ (by omega)
  | succ fuel ih =>
      rw [putText_succ]
      rcases Nat.eq_or_lt_of_le looked.from_ with here | after
      · rw [here, unreadable, error_bind]
      · obtain ⟨ch, read, some⟩ := looked.printed i (Nat.le_refl i) after
        obtain ⟨more, next⟩ := looked.next after
        rw [read, ok_bind, if_neg some, if_pos more]
        exact ih next (by omega)

theorem putText_nul (looked : Looked text precision i n) (nul : text n = .ok 0)
    (enough : n < i + fuel) :
    ∃ result, putText putch text altflag fuel i precision width putdat = .ok result := by
  induction fuel generalizing i precision width putdat with
  | zero => exact absurd looked.from_ (by omega)
  | succ fuel ih =>
      rw [putText_succ]
      rcases Nat.eq_or_lt_of_le looked.from_ with here | after
      · rw [here, nul, ok_bind, if_pos rfl]
        exact ⟨_, rfl⟩
      · obtain ⟨ch, read, some⟩ := looked.printed i (Nat.le_refl i) after
        obtain ⟨more, next⟩ := looked.next after
        rw [read, ok_bind, if_neg some, if_pos more]
        exact ih next (by omega)

end Texts

end FosV2
