import FosV2.FormatEscapes
import FosV2.NumberRoundTrip

/-!
What `reswitch` reads off an escape, piece by piece: a flag, a width, a precision, the `l`s. A
number of the escape is written in decimal or taken from the arguments. Written, it has to
begin with another digit than 0, which is a flag.
-/

namespace FosV2

def Reaches (after : List Byte) (ap : Arguments) (escape : Escape) (ch : Byte)
    (rest : List Byte) (ap' : Arguments) (escape' : Escape) : Prop :=
  ∀ fuel before, after.length ≤ fuel → ∃ before',
    reswitch fuel ⟨before, after⟩ ap escape = .ok (ch, ⟨before', rest⟩, ap', escape')

def Passed (piece : List Byte) (next : List Byte) (ap ap' : Arguments)
    (escape escape' : Escape) : Prop :=
  piece ≠ [] ∧ ∀ fuel before, ∃ before',
    reswitch (fuel + 1) ⟨before, piece ++ next⟩ ap escape =
      reswitch fuel ⟨before', next⟩ ap' escape'

section Pieces

variable {ap ap' ap'' : Arguments} {escape escape' escape'' : Escape} {ch : Byte}
  {piece next rest : List Byte}

theorem Passed.reaches (passed : Passed piece next ap ap' escape escape')
    (reaches : Reaches next ap' escape' ch rest ap'' escape'') :
    Reaches (piece ++ next) ap escape ch rest ap'' escape'' := by
  intro fuel before enough
  have some : 0 < piece.length := List.length_pos_iff.mpr passed.1
  rw [List.length_append] at enough
  obtain ⟨fuel, rfl⟩ : ∃ less, fuel = less + 1 := ⟨fuel - 1, by omega⟩
  obtain ⟨before', turn⟩ := passed.2 fuel before
  obtain ⟨last, reached⟩ := reaches fuel before' (by omega)
  exact ⟨last, turn.trans reached⟩

theorem reaches_end (ends : isFlag ch = false) (rest : List Byte) (ap : Arguments)
    (escape : Escape) : Reaches (ch :: rest) ap escape ch rest ap escape := by
  intro fuel before enough
  rw [List.length_cons] at enough
  obtain ⟨fuel, rfl⟩ : ∃ less, fuel = less + 1 := ⟨fuel - 1, by omega⟩
  exact ⟨_, reswitch_end ends fuel before rest ap escape⟩

theorem passed_dash (next : List Byte) (ap : Arguments) (escape : Escape) :
    Passed [char '-'] next ap ap escape { escape with padc := char '-' } :=
  ⟨List.cons_ne_nil _ _, fun _ _ => ⟨_, rfl⟩⟩

theorem passed_zero (next : List Byte) (ap : Arguments) (escape : Escape) :
    Passed [char '0'] next ap ap escape { escape with padc := char '0' } :=
  ⟨List.cons_ne_nil _ _, fun _ _ => ⟨_, rfl⟩⟩

theorem passed_long (next : List Byte) (ap : Arguments) (escape : Escape) :
    Passed [char 'l'] next ap ap escape { escape with lflag := escape.lflag + 1 } :=
  ⟨List.cons_ne_nil _ _, fun _ _ => ⟨_, rfl⟩⟩

/-- A precision without a width makes the width 0. -/
def Escape.atPoint (escape : Escape) : Escape :=
  if escape.width.toInt < 0 then { escape with width := 0 } else escape

theorem passed_point (next : List Byte) (ap : Arguments) (escape : Escape) :
    Passed [char '.'] next ap ap escape escape.atPoint := by
  refine ⟨List.cons_ne_nil _ _, fun fuel before => ⟨char '.' :: before, ?_⟩⟩
  have turn : reswitch (fuel + 1) ⟨before, char '.' :: next⟩ ap escape =
      if escape.width.toInt < 0 then
        reswitch fuel ⟨char '.' :: before, next⟩ ap { escape with width := 0 }
      else reswitch fuel ⟨char '.' :: before, next⟩ ap escape := rfl
  rw [List.singleton_append, turn, Escape.atPoint]
  split
  · rfl
  · rfl

theorem passed_star (next : List Byte) (ap : Arguments) (escape : Escape) :
    Passed [char '*'] next ap ap.rest escape
      { escape with precision := ap 0 }.processPrecision :=
  ⟨List.cons_ne_nil _ _, fun _ _ => ⟨_, rfl⟩⟩

end Pieces

/-! Numbers -/

def decimalValue (precision : Word) (digits : List Byte) : Word :=
  digits.foldl (fun precision ch => precision * 10 + (ch - char '0').setWidth 32) precision

theorem digitByte_value {digit : Nat} (small : digit < 10) :
    (digitByte digit - char '0').setWidth 32 = BitVec.ofNat 32 digit := by
  revert digit
  decide

theorem decimalValue_numeral (n : Nat) : decimalValue 0 (numeral 10 n) = BitVec.ofNat 32 n := by
  induction n using Nat.strongRecOn with
  | ind n ih =>
      by_cases small : n < 10
      · rw [numeral_of_lt small, decimalValue, List.foldl_cons, List.foldl_nil,
          digitByte_value small]
        simp
      · have last : n % 10 < 10 := Nat.mod_lt _ (by omega)
        rw [numeral_of_le (by omega) (by omega), decimalValue, List.foldl_append]
        change decimalValue 0 (numeral 10 (n / 10)) * BitVec.ofNat 32 10 +
          (digitByte (n % 10) - char '0').setWidth 32 = _
        rw [ih (n / 10) (by omega), digitByte_value last]
        rw [← BitVec.ofNat_mul, ← BitVec.ofNat_add, Nat.div_add_mod']

theorem readNumber_value {digits : List Byte}
    (decimal : ∀ c ∈ digits, isBetween (char '0') (char '9') c = true) {next : Byte}
    (ends : isBetween (char '0') (char '9') next = false) (rest : List Byte) (precision : Word)
    (ch : Byte) (before : List Byte) :
    ∃ before', readNumber precision ch before (digits ++ next :: rest) =
      .ok (decimalValue precision (ch :: digits), ⟨before', next :: rest⟩) := by
  induction digits generalizing precision ch before with
  | nil =>
      refine ⟨before, ?_⟩
      rw [List.nil_append, readNumber]
      simp only [ends, Bool.false_eq_true, if_false]
      rfl
  | cons digit digits ih =>
      have isDigit := decimal digit (List.mem_cons_self ..)
      obtain ⟨before', read⟩ := ih (fun c member => decimal c (List.mem_cons_of_mem _ member))
        (precision * 10 + (ch - char '0').setWidth 32) digit (digit :: before)
      refine ⟨before', ?_⟩
      rw [List.cons_append, readNumber]
      simp only [isDigit, if_true]
      exact read

/-- A number but 0 begins with another digit than 0. -/
theorem numeral_eq_cons {n : Nat} (positive : 0 < n) :
    ∃ first others, numeral 10 n = first :: others ∧
      isBetween (char '1') (char '9') first = true ∧
      ∀ c ∈ others, isBetween (char '0') (char '9') c = true := by
  induction n using Nat.strongRecOn with
  | ind n ih =>
      have digits : ∀ digit < 10, isBetween (char '0') (char '9') (digitByte digit) = true := by
        decide
      by_cases small : n < 10
      · have nonzero : ∀ digit < 10, 0 < digit →
            isBetween (char '1') (char '9') (digitByte digit) = true := by decide
        exact ⟨digitByte n, [], numeral_of_lt small, nonzero n small positive,
          fun _ member => absurd member List.not_mem_nil⟩
      · obtain ⟨first, others, same, nonzero, decimal⟩ := ih (n / 10) (by omega) (by omega)
        refine ⟨first, others ++ [digitByte (n % 10)], ?_, nonzero, fun c member => ?_⟩
        · rw [numeral_of_le (by omega) (by omega), same, List.cons_append]
        · rcases List.mem_append.mp member with earlier | last
          · exact decimal c earlier
          · rw [List.mem_singleton.mp last]
            exact digits _ (Nat.mod_lt _ (by omega))

theorem passed_numeral {n : Nat} (positive : 0 < n) {next : Byte}
    (ends : isBetween (char '0') (char '9') next = false) (rest : List Byte) (ap : Arguments)
    (escape : Escape) :
    Passed (numeral 10 n) (next :: rest) ap ap escape
      { escape with precision := BitVec.ofNat 32 n }.processPrecision := by
  obtain ⟨first, others, same, nonzero, decimal⟩ := numeral_eq_cons positive
  have value := decimalValue_numeral n
  rw [same] at value ⊢
  refine ⟨List.cons_ne_nil _ _, fun fuel before => ?_⟩
  obtain ⟨before', read⟩ := readNumber_value decimal ends rest 0 first (first :: before)
  rw [value] at read
  refine ⟨before', ?_⟩
  rw [List.cons_append, reswitch_number nonzero fuel before _ ap escape read]

inductive Amount where
  | written (value : Word)
  | argument
deriving DecidableEq

namespace Amount

def bytes : Amount → List Byte
  | written value => numeral 10 value.toNat
  | argument => [char '*']

def value (ap : Arguments) : Amount → Word
  | written value => value
  | argument => ap 0

def rest (ap : Arguments) : Amount → Arguments
  | written _ => ap
  | argument => ap.rest

end Amount

theorem passed_amount {amount : Amount} (nonzero : amount ≠ .written 0) {next : Byte}
    (ends : isBetween (char '0') (char '9') next = false) (rest : List Byte) (ap : Arguments)
    (escape : Escape) :
    Passed amount.bytes (next :: rest) ap (amount.rest ap) escape
      { escape with precision := amount.value ap }.processPrecision := by
  cases amount with
  | written value =>
      have positive : 0 < value.toNat := by
        rcases Nat.eq_zero_or_pos value.toNat with zero | positive
        · have null : value = 0 := BitVec.eq_of_toNat_eq zero
          rw [null] at nonzero
          exact absurd rfl nonzero
        · exact positive
      have passed := passed_numeral positive ends rest ap escape
      rwa [BitVec.ofNat_toNat, BitVec.setWidth_eq] at passed
  | argument => exact passed_star (next :: rest) ap escape

/-- A written 0 is a flag. -/
def Escape.withAmount (escape : Escape) (amount : Amount) (ap : Arguments) : Escape :=
  if amount = .written 0 then { escape with padc := char '0' }
  else { escape with precision := amount.value ap }.processPrecision

theorem passed_withAmount (amount : Amount) {next : Byte}
    (ends : isBetween (char '0') (char '9') next = false) (rest : List Byte) (ap : Arguments)
    (escape : Escape) :
    Passed amount.bytes (next :: rest) ap (amount.rest ap) escape
      (escape.withAmount amount ap) := by
  rw [Escape.withAmount]
  split
  · rename_i zero
    have digit : (Amount.written 0).bytes = [char '0'] := by decide
    rw [zero, digit]
    exact passed_zero (next :: rest) ap escape
  · rename_i nonzero
    exact passed_amount nonzero ends rest ap escape

/-! The escape as the whole format -/

theorem printed_escape {load : Word → Except Stop Byte} {rest : List Byte}
    {ap ap' last : Arguments} {escape : Escape} {ch : Byte}
    {result : Except Stop (List Word)}
    (reaches : Reaches (rest ++ [0]) ap .start ch [0] ap' escape)
    (converted : ∀ fmt, convert record load (printfmt record load) ch fmt ap' escape [] = (do
      let chars ← result
      return (fmt, last, chars))) :
    printed load (char '%' :: rest) ap = result := by
  obtain ⟨before, reached⟩ := reaches (rest.length + 1) [char '%'] (by simp)
  exact vprintfmt_escape rest reached (converted _)

end FosV2
