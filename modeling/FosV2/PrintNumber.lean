import FosV2.PrintFormat
import Mathlib.Data.Nat.Digits.Defs

/-!
What `printnum` prints: padding, and then the digits of the number in its base.
-/

namespace FosV2

def digitByte (digit : Nat) : Byte := char digit.digitChar

def numeral (base n : Nat) : List Byte := (Nat.toDigits base n).map char

def putBytes {σ : Type} (putch : σ → Word → σ) (bytes : List Byte) (putdat : σ) : σ :=
  bytes.foldl (fun putdat ch => putch putdat (ch.signExtend 32)) putdat

theorem numeral_of_lt {base n : Nat} (small : n < base) : numeral base n = [digitByte n] := by
  rw [numeral, Nat.toDigits_of_lt_base small]
  rfl

theorem numeral_of_le {base n : Nat} (two : 1 < base) (large : base ≤ n) :
    numeral base n = numeral base (n / base) ++ [digitByte (n % base)] := by
  rw [numeral, Nat.toDigits_of_base_le two large, List.map_append]
  rfl

theorem hexDigits_getD {digit : Nat} (small : digit < 16) :
    hexDigits.getD digit 0 = digitByte digit := by
  revert digit
  decide

theorem hexDigits_mod {base : BitVec 64} (positive : 0 < base.toNat) (most : base.toNat ≤ 16)
    (num : BitVec 64) :
    hexDigits.getD (num % base).toNat 0 = digitByte (num.toNat % base.toNat) := by
  rw [BitVec.toNat_umod, hexDigits_getD]
  exact Nat.lt_of_lt_of_le (Nat.mod_lt _ positive) most

theorem signExtend_injective : Function.Injective (BitVec.signExtend 32 : Byte → Word) := by
  have narrow : ∀ b : Byte, (b.signExtend 32).setWidth 8 = b := by decide
  exact Function.LeftInverse.injective (g := BitVec.setWidth 8) narrow

section Printnum

variable {σ : Type} (putch : σ → Word → σ)

theorem printnum_eq {fuel : Nat} {num base : BitVec 64} (two : 1 < base.toNat)
    (most : base.toNat ≤ 16) (fits : num.toNat < base.toNat ^ (fuel + 1)) (width : Word)
    (padc : Byte) (putdat : σ) :
    printnum putch (fuel + 1) num base width padc putdat =
      .ok (putBytes putch (numeral base.toNat num.toNat) (putPadding putch
        (width - BitVec.ofNat 32 (numeral base.toNat num.toNat).length) padc putdat)) := by
  induction fuel generalizing num width with
  | zero =>
      rw [Nat.pow_one] at fits
      have below : ¬base ≤ num := by
        rw [BitVec.le_def]
        omega
      rw [printnum, hexDigits_mod (by omega) most, numeral_of_lt fits, Nat.mod_eq_of_lt fits]
      simp only [below, if_false]
      rfl
  | succ fuel ih =>
      rw [printnum, hexDigits_mod (by omega) most]
      by_cases large : base ≤ num
      · have large' : base.toNat ≤ num.toNat := large
        have quotient : (num / base).toNat = num.toNat / base.toNat := BitVec.toNat_udiv
        have fits' : (num / base).toNat < base.toNat ^ (fuel + 1) := by
          rw [quotient]
          exact Nat.div_lt_of_lt_mul (by rwa [Nat.pow_succ'] at fits)
        simp only [large, if_true]
        rw [ih fits' (width - 1), quotient, numeral_of_le two large', List.length_append,
          List.length_singleton, map_ok, putBytes, putBytes, List.foldl_append]
        have less : width - 1 - BitVec.ofNat 32 (numeral base.toNat
            (num.toNat / base.toNat)).length =
            width - BitVec.ofNat 32 ((numeral base.toNat
              (num.toNat / base.toNat)).length + 1) := by
          rw [BitVec.ofNat_add, BitVec.sub_sub, BitVec.add_comm]
          rfl
        rw [less]
        rfl
      · have small : num.toNat < base.toNat := by
          rw [BitVec.le_def] at large
          omega
        rw [numeral_of_lt small, Nat.mod_eq_of_lt small]
        simp only [large, if_false]
        rfl

theorem putNumber_eq {num base : BitVec 64} (two : 1 < base.toNat) (most : base.toNat ≤ 16)
    (escape : Escape) (putdat : σ) :
    putNumber putch num base escape putdat =
      .ok (putBytes putch (numeral base.toNat num.toNat) (putPadding putch
        (escape.width - BitVec.ofNat 32 (numeral base.toNat num.toNat).length) escape.padc
        putdat)) := by
  have fits : num.toNat < base.toNat ^ 64 :=
    Nat.lt_of_lt_of_le num.isLt (Nat.pow_le_pow_left two 64)
  exact printnum_eq putch two most fits escape.width escape.padc putdat

end Printnum

theorem putBytes_record (bytes : List Byte) (chars : List Word) :
    putBytes record bytes chars = chars ++ bytes.map (BitVec.signExtend 32) := by
  induction bytes generalizing chars with
  | nil => exact (List.append_nil chars).symm
  | cons ch rest ih =>
      rw [putBytes, List.foldl_cons, ← putBytes, ih, record, List.append_assoc]
      rfl

theorem putPadding_record (width : Word) (padc : Byte) (chars : List Word) :
    putPadding record width padc chars =
      chars ++ List.replicate width.toInt.toNat (padc.signExtend 32) := by
  rw [putPadding]
  induction width.toInt.toNat with
  | zero => exact (List.append_nil chars).symm
  | succ count ih => rw [Nat.repeat, ih, record, List.replicate_succ', List.append_assoc]

theorem putNumber_record (num : BitVec 64) {base : BitVec 64} (two : 1 < base.toNat)
    (most : base.toNat ≤ 16) (escape : Escape) (chars : List Word) :
    putNumber record num base escape chars = .ok (chars ++
      (List.replicate (escape.width - BitVec.ofNat 32
          (numeral base.toNat num.toNat).length).toInt.toNat escape.padc ++
        numeral base.toNat num.toNat).map (BitVec.signExtend 32)) := by
  rw [putNumber_eq record two most, putBytes_record, putPadding_record, List.map_append,
    List.map_replicate, List.append_assoc]

theorem numeral_length_le (num : BitVec 64) {base : BitVec 64} (two : 1 < base.toNat) :
    (numeral base.toNat num.toNat).length ≤ 64 := by
  have fits : num.toNat < base.toNat ^ 64 :=
    Nat.lt_of_lt_of_le num.isLt (Nat.pow_le_pow_left two 64)
  rw [numeral, List.length_map]
  exact Nat.toDigits_length _ _ _ (by omega) fits

theorem putNumber_start (num : BitVec 64) {base : BitVec 64} (two : 1 < base.toNat)
    (most : base.toNat ≤ 16) (chars : List Word) :
    putNumber record num base .start chars = .ok (chars ++
      (numeral base.toNat num.toNat).map (BitVec.signExtend 32)) := by
  have length := numeral_length_le num two
  have none : ((-1 : Word) - BitVec.ofNat 32
      (numeral base.toNat num.toNat).length).toInt.toNat = 0 := by
    rw [BitVec.toInt_eq_toNat_cond]
    generalize (numeral base.toNat num.toNat).length = digits at length
    have difference : ((-1 : Word) - BitVec.ofNat 32 digits).toNat = 2 ^ 32 - 1 - digits := by
      bv_omega
    rw [difference]
    omega
  rw [putNumber_record num two most, Escape.start, none, List.replicate_zero, List.nil_append]

end FosV2
