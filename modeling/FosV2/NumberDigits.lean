import FosV2.PrintNumber

/-!
`printnum` as it stands, for any width: the padding counts down an `int`, and the digits are
those of the number, the most significant first.
-/

namespace FosV2

def digitsValue (base : Nat) (digits : List Nat) : Nat :=
  digits.foldl (fun value digit => value * base + digit) 0

structure DigitsOf (base n : Nat) (digits : List Nat) : Prop where
  nonempty : digits ≠ []
  below : ∀ digit ∈ digits, digit < base
  leading : digits.head? = some 0 → digits = [0]
  value : digitsValue base digits = n

def PrintsNumber (num base : BitVec 64) (width : Word) (padc : Byte) : Prop :=
  ∃ digits, DigitsOf base.toNat num.toNat digits ∧
    ∀ (σ : Type) (putch : σ → Word → σ) (putdat : σ),
      printnum putch 64 num base width padc putdat =
        .ok (((List.replicate (max 0 (width.toInt - digits.length)).toNat padc ++
          digits.map fun digit => hexDigits.getD digit 0).map (BitVec.signExtend 32)).foldl
            putch putdat)

section Digits

variable {base n : Nat} {digits : List Nat}

theorem digitsValue_append (base : Nat) (digits : List Nat) (last : Nat) :
    digitsValue base (digits ++ [last]) = digitsValue base digits * base + last := by
  rw [digitsValue, List.foldl_append]
  rfl

theorem DigitsOf.single (small : n < base) : DigitsOf base n [n] := by
  refine ⟨List.cons_ne_nil _ _, ?_, ?_, ?_⟩
  · simpa using small
  · intro zero
    rw [Option.some.inj zero]
  · rw [digitsValue, List.foldl_cons, List.foldl_nil, Nat.zero_mul, Nat.zero_add]

theorem DigitsOf.append (numeral : DigitsOf base (n / base) digits) (large : base ≤ n)
    (positive : 0 < base) : DigitsOf base n (digits ++ [n % base]) := by
  have quotient : 0 < n / base := Nat.div_pos large positive
  refine ⟨by simp, ?_, ?_, ?_⟩
  · intro digit member
    rcases List.mem_append.mp member with high | last
    · exact numeral.below digit high
    · rw [List.mem_singleton.mp last]
      exact Nat.mod_lt _ positive
  · intro zero
    rw [List.head?_append_of_ne_nil _ numeral.nonempty] at zero
    have none : digitsValue base [0] = 0 := by simp [digitsValue]
    have value := numeral.value
    rw [numeral.leading zero, none] at value
    omega
  · rw [digitsValue_append, numeral.value, Nat.div_add_mod']

theorem exists_digitsOf (two : 1 < base) (most : base ≤ 16) (n : Nat) :
    ∃ digits, DigitsOf base n digits ∧
      numeral base n = digits.map fun digit => hexDigits.getD digit 0 := by
  induction n using Nat.strongRecOn with
  | ind n ih =>
      by_cases small : n < base
      · refine ⟨[n], .single small, ?_⟩
        rw [numeral_of_lt small, List.map_cons, List.map_nil, hexDigits_getD (by omega)]
      · have large : base ≤ n := Nat.not_lt.mp small
        have last : n % base < base := Nat.mod_lt _ (by omega)
        obtain ⟨digits, isDigits, same⟩ := ih (n / base) (Nat.div_lt_self (by omega) two)
        refine ⟨digits ++ [n % base], isDigits.append large (by omega), ?_⟩
        rw [numeral_of_le two large, same, List.map_append, List.map_cons, List.map_nil,
          hexDigits_getD (by omega)]

end Digits

theorem putPadding_eq {σ : Type} (putch : σ → Word → σ) (width : Word) (padc : Byte) (putdat : σ) :
    putPadding putch width padc putdat =
      ((List.replicate width.toInt.toNat padc).map (BitVec.signExtend 32)).foldl putch putdat := by
  rw [putPadding]
  induction width.toInt.toNat with
  | zero => rfl
  | succ count ih =>
      rw [Nat.repeat, ih, List.replicate_succ', List.map_append, List.foldl_append]
      rfl

theorem printnum_chars (num : BitVec 64) {base : BitVec 64} (two : 1 < base.toNat)
    (most : base.toNat ≤ 16) (width : Word) (padc : Byte) {σ : Type} (putch : σ → Word → σ) (putdat : σ) :
    printnum putch 64 num base width padc putdat =
      .ok (((List.replicate (width - BitVec.ofNat 32
          (numeral base.toNat num.toNat).length).toInt.toNat padc ++
        numeral base.toNat num.toNat).map (BitVec.signExtend 32)).foldl putch putdat) := by
  have fits : num.toNat < base.toNat ^ 64 :=
    Nat.lt_of_lt_of_le num.isLt (Nat.pow_le_pow_left two 64)
  rw [printnum_eq putch two most fits width padc putdat, putPadding_eq, putBytes]
  simp only [List.map_append, List.foldl_append, List.foldl_map]

/-- Unless the width runs below the least `int` on the way, `printnum` prints the number. -/
theorem printsNumber {num base : BitVec 64} (two : 2 ≤ base.toNat) (most : base.toNat ≤ 16)
    {width : Word} (padc : Byte)
    (fits : (Nat.toDigits base.toNat num.toNat).length ≤ width.toInt + 2 ^ 31) :
    PrintsNumber num base width padc := by
  obtain ⟨digits, isDigits, same⟩ := exists_digitsOf two most num.toNat
  have length : digits.length = (numeral base.toNat num.toNat).length := by
    rw [same, List.length_map]
  have few := numeral_length_le num two
  have counted : (Nat.toDigits base.toNat num.toNat).length = digits.length := by
    rw [length, numeral, List.length_map]
  refine ⟨digits, isDigits, fun σ putch putdat => ?_⟩
  have left : (width - BitVec.ofNat 32 digits.length).toInt.toNat =
      (max 0 (width.toInt - digits.length)).toNat := by
    rw [counted] at fits
    rw [← length] at few
    generalize digits.length = d at few fits
    have bits := width.isLt
    rw [BitVec.toInt_eq_toNat_cond] at fits ⊢
    rw [BitVec.toInt_eq_toNat_cond, BitVec.toNat_sub, BitVec.toNat_ofNat]
    split at fits <;> split <;> omega
  rw [printnum_chars num two most, ← length, left, same]

theorem printsNumber_narrow : PrintsNumber 0x1F 16 (-5) (char ' ') :=
  printsNumber (by decide) (by decide) (char ' ') (by decide)

/-- From the least `int` the width comes round to the greatest one. -/
theorem not_printsNumber_least : ¬PrintsNumber 0 10 (BitVec.intMin 32) (char ' ') := by
  rintro ⟨digits, isDigits, prints⟩
  have spaces : ((BitVec.intMin 32 - BitVec.ofNat 32 1 : Word)).toInt.toNat = 2147483646 + 1 := by
    decide
  have none : (max 0 ((BitVec.intMin 32).toInt - digits.length : Int)).toNat = 0 := by
    have least : (BitVec.intMin 32).toInt = -2147483648 := by decide
    omega
  have two : 1 < (10 : BitVec 64).toNat := by decide
  have one : (numeral (10 : BitVec 64).toNat (0 : BitVec 64).toNat).length = 1 := by decide
  have printed := printnum_chars 0 two (by decide) (BitVec.intMin 32) (char ' ') record []
  rw [one, spaces, List.replicate_succ, prints, none] at printed
  rw [Except.ok.injEq, foldl_record, foldl_record, List.nil_append, List.nil_append,
    (List.map_injective_iff.mpr signExtend_injective).eq_iff] at printed
  cases digits with
  | nil => exact isDigits.nonempty rfl
  | cons digit rest =>
      have small : digit < 10 := isDigits.below digit List.mem_cons_self
      have noSpace : ∀ digit < 10, hexDigits.getD digit 0 ≠ char ' ' := by decide
      exact noSpace digit small (List.cons.inj printed).1

end FosV2
