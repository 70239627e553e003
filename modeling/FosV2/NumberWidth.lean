import FosV2.FormatDirective

/-!
The field width of the numeric conversions. `printnum` counts the width down along the digits
and pads before the first of them, whatever the padding; the sign of `%d` is printed before
it and is not counted.
-/

namespace FosV2

inductive IntegerType where
  | int
  | long
  | longLong

namespace IntegerType

def letters : IntegerType → List Byte
  | int => []
  | long => [char 'l']
  | longLong => [char 'l', char 'l']

def lflag : IntegerType → Word
  | int => 0
  | long => 1
  | longLong => 2

def signed (ap : Arguments) : IntegerType → Int
  | int | long => (ap 0).toInt
  | longLong => ap.longLong.toInt

def unsigned (ap : Arguments) : IntegerType → Nat
  | int | long => (ap 0).toNat
  | longLong => ap.longLong.toNat

end IntegerType

inductive PaddingFlag where
  | space
  | zero
  | dash

namespace PaddingFlag

def bytes : PaddingFlag → List Byte
  | space => []
  | zero => [char '0']
  | dash => [char '-']

def padc : PaddingFlag → Byte
  | space => char ' '
  | zero => char '0'
  | dash => char '-'

end PaddingFlag

def fieldFormat (flag : PaddingFlag) (width : Amount) (type : IntegerType)
    (conversion : Byte) : List Byte :=
  char '%' :: (flag.bytes ++ (width.bytes ++ (type.letters ++ [conversion])))

def decimal (n : Int) : List Byte :=
  if n < 0 then char '-' :: numeral 10 n.natAbs else numeral 10 n.natAbs

def FillsField (load : Word → Except Stop Byte) (flag : PaddingFlag) (width : Amount)
    (type : IntegerType) (ap : Arguments) : Prop :=
  ∃ chars, printed load (fieldFormat flag width type (char 'd')) ap = .ok chars ∧
    chars.length = max (width.value ap).toNat (decimal (type.signed (width.rest ap))).length

inductive UnsignedConversion where
  | u
  | x

namespace UnsignedConversion

def letter : UnsignedConversion → Byte
  | u => char 'u'
  | x => char 'x'

def base : UnsignedConversion → Nat
  | u => 10
  | x => 16

end UnsignedConversion

def PadsRight (load : Word → Except Stop Byte) (conversion : UnsignedConversion)
    (width : Amount) (type : IntegerType) (ap : Arguments) : Prop :=
  let digits := numeral conversion.base (type.unsigned (width.rest ap))
  printed load (fieldFormat .dash width type conversion.letter) ap =
    .ok ((digits ++ List.replicate ((width.value ap).toNat - digits.length) (char ' ')).map
      (BitVec.signExtend 32))

section Field

variable {load : Word → Except Stop Byte} {flag : PaddingFlag} {width : Amount}
  {type : IntegerType} {ap : Arguments} {ch : Byte}

theorem reaches_letters (ends : isFlag ch = false) (ap : Arguments) {escape : Escape}
    (none : escape.lflag = 0) :
    Reaches (type.letters ++ [ch, 0]) ap escape ch [0] ap
      { escape with lflag := type.lflag } := by
  obtain ⟨padc, width, precision, lflag, altflag⟩ := escape
  subst none
  cases type with
  | int => exact reaches_end ends [0] ap _
  | long => exact (passed_long _ _ _).reaches (reaches_end ends [0] ap _)
  | longLong =>
      exact (passed_long _ _ _).reaches ((passed_long _ _ _).reaches (reaches_end ends [0] ap _))

variable (type) in
theorem letters_cons (ends : isFlag ch = false) :
    ∃ next rest, type.letters ++ [ch, 0] = next :: rest ∧
      isBetween (char '0') (char '9') next = false := by
  have noDigit : ∀ ch : Byte, isFlag ch = false →
      isBetween (char '0') (char '9') ch = false := by decide
  cases type with
  | int => exact ⟨_, _, rfl, noDigit ch ends⟩
  | long => exact ⟨_, _, rfl, by decide⟩
  | longLong => exact ⟨_, _, rfl, by decide⟩

theorem reaches_field (ends : isFlag ch = false) (positive : 1 ≤ (width.value ap).toInt) :
    Reaches (flag.bytes ++ (width.bytes ++ (type.letters ++ [ch])) ++ [0]) ap .start ch [0]
      (width.rest ap) ⟨flag.padc, width.value ap, -1, type.lflag, false⟩ := by
  have nonzero : width ≠ .written 0 := by
    rintro rfl
    exact absurd positive (show ¬1 ≤ (0 : Word).toInt by decide)
  obtain ⟨next, rest, same, noDigit⟩ := letters_cons type ends
  have number : Reaches (width.bytes ++ (type.letters ++ [ch, 0])) ap
      { Escape.start with padc := flag.padc } ch [0] (width.rest ap)
      ⟨flag.padc, width.value ap, -1, type.lflag, false⟩ := by
    have passed := passed_amount nonzero noDigit rest ap { Escape.start with padc := flag.padc }
    rw [← same] at passed
    exact passed.reaches (reaches_letters ends (width.rest ap) rfl)
  simp only [List.append_assoc, List.cons_append, List.nil_append]
  cases flag with
  | space => exact number
  | zero => exact (passed_zero _ _ _).reaches number
  | dash => exact (passed_dash _ _ _).reaches number

theorem padding_toNat {w : Word} (positive : 1 ≤ w.toInt) {digits : Nat} (few : digits ≤ 64) :
    (w - BitVec.ofNat 32 digits).toInt.toNat = w.toNat - digits := by
  have bits := w.isLt
  rw [BitVec.toInt_eq_toNat_cond] at positive ⊢
  rw [BitVec.toNat_sub, BitVec.toNat_ofNat]
  omega

theorem getint_signed (ap : Arguments) (type : IntegerType) :
    (getint ap type.lflag).1.toInt = type.signed ap := by
  cases type with
  | int => exact BitVec.toInt_signExtend_of_le (by omega)
  | long => exact BitVec.toInt_signExtend_of_le (by omega)
  | longLong => rfl

theorem getuint_unsigned (ap : Arguments) (type : IntegerType) :
    (getuint ap type.lflag).1.toNat = type.unsigned ap := by
  cases type with
  | int => exact BitVec.toNat_setWidth_of_le (by omega)
  | long => exact BitVec.toNat_setWidth_of_le (by omega)
  | longLong => rfl

theorem natAbs_toInt (num : BitVec 64) :
    num.toInt.natAbs = if num.toInt < 0 then (-num).toNat else num.toNat := by
  have bits := num.isLt
  rw [BitVec.toInt_eq_toNat_cond, BitVec.toNat_neg]
  split <;> split <;> omega

/-- The sign stands before the padding. -/
theorem putSigned_field (num : BitVec 64) (escape : Escape) (positive : 1 ≤ escape.width.toInt) :
    putSigned record num escape [] =
      .ok (((if num.toInt < 0 then [char '-'] else []) ++
        (List.replicate (escape.width.toNat - (numeral 10 num.toInt.natAbs).length) escape.padc ++
          numeral 10 num.toInt.natAbs)).map (BitVec.signExtend 32)) := by
  have two : 1 < (10 : BitVec 64).toNat := by decide
  have most : (10 : BitVec 64).toNat ≤ 16 := by decide
  rw [putSigned, natAbs_toInt, List.map_append]
  split
  · rw [putNumber_record (-num) two most, padding_toNat positive (numeral_length_le (-num) two)]
    rfl
  · rw [putNumber_record num two most, padding_toNat positive (numeral_length_le num two)]
    rfl

theorem printed_decimal (positive : 1 ≤ (width.value ap).toInt) :
    printed load (fieldFormat flag width type (char 'd')) ap =
      let n := type.signed (width.rest ap)
      .ok (((if n < 0 then [char '-'] else []) ++
        (List.replicate ((width.value ap).toNat - (numeral 10 n.natAbs).length) flag.padc ++
          numeral 10 n.natAbs)).map (BitVec.signExtend 32)) := by
  have put := putSigned_field (getint (width.rest ap) type.lflag).1
    ⟨flag.padc, width.value ap, -1, type.lflag, false⟩ positive
  rw [getint_signed] at put
  exact (printed_escape (reaches_field (by decide) positive) fun fmt => convert_decimal).trans put

theorem printed_unsigned (positive : 1 ≤ (width.value ap).toInt)
    (conversion : UnsignedConversion) :
    printed load (fieldFormat flag width type conversion.letter) ap =
      let digits := numeral conversion.base (type.unsigned (width.rest ap))
      .ok ((List.replicate ((width.value ap).toNat - digits.length) flag.padc ++ digits).map
        (BitVec.signExtend 32)) := by
  have chosen : isFlag conversion.letter = false ∧ ∃ base : BitVec 64,
      base.toNat = conversion.base ∧ 1 < base.toNat ∧ base.toNat ≤ 16 ∧
      ∀ fmt, convert record load (printfmt record load) conversion.letter fmt (width.rest ap)
        ⟨flag.padc, width.value ap, -1, type.lflag, false⟩ [] = (do
          let putdat ← putNumber record (getuint (width.rest ap) type.lflag).1 base
            ⟨flag.padc, width.value ap, -1, type.lflag, false⟩ []
          return (fmt, (getuint (width.rest ap) type.lflag).2, putdat)) := by
    cases conversion with
    | u => exact ⟨by decide, 10, rfl, by decide, by decide, fun fmt => convert_unsigned⟩
    | x => exact ⟨by decide, 16, rfl, by decide, by decide, fun fmt => convert_hexadecimal⟩
  obtain ⟨ends, base, same, two, most, converted⟩ := chosen
  have put := putNumber_record (getuint (width.rest ap) type.lflag).1 two most
    ⟨flag.padc, width.value ap, -1, type.lflag, false⟩ []
  rw [padding_toNat positive (numeral_length_le _ two), same, getuint_unsigned] at put
  exact (printed_escape (reaches_field ends positive) converted).trans put

end Field

theorem numeral_ne_nil {base : Nat} (two : 1 < base) (n : Nat) : numeral base n ≠ [] := by
  by_cases small : n < base
  · rw [numeral_of_lt small]
    exact List.cons_ne_nil _ _
  · rw [numeral_of_le two (by omega)]
    exact List.append_ne_nil_of_right_ne_nil _ (List.cons_ne_nil _ _)

/-- The field comes out one character too long exactly where it leaves room for the sign of a
negative number. -/
theorem fillsField_iff (load : Word → Except Stop Byte) (zero : Bool) (width : Amount)
    (type : IntegerType) (ap : Arguments) (positive : 1 ≤ (width.value ap).toInt) :
    FillsField load (if zero then .zero else .space) width type ap ↔
      0 ≤ type.signed (width.rest ap) ∨
        (width.value ap).toNat ≤ (numeral 10 (type.signed (width.rest ap)).natAbs).length := by
  rw [FillsField, printed_decimal positive]
  generalize type.signed (width.rest ap) = n
  have length : ∀ padc : Byte, (((if n < 0 then [char '-'] else []) ++
      (List.replicate ((width.value ap).toNat - (numeral 10 n.natAbs).length) padc ++
        numeral 10 n.natAbs)).map (BitVec.signExtend 32) : List Word).length =
      (if n < 0 then 1 else 0) + max (width.value ap).toNat (numeral 10 n.natAbs).length := by
    intro padc
    simp only [List.length_map, List.length_append, List.length_replicate]
    split <;> simp only [List.length_singleton, List.length_nil] <;> omega
  have own : (decimal n).length = (if n < 0 then 1 else 0) + (numeral 10 n.natAbs).length := by
    rw [decimal]
    split
    · rw [List.length_cons, Nat.add_comm]
    · exact (Nat.zero_add _).symm
  constructor
  · rintro ⟨chars, shown, filled⟩
    rw [← Except.ok.inj shown, length, own] at filled
    split at filled <;> omega
  · intro fits
    refine ⟨_, rfl, ?_⟩
    rw [length, own]
    split <;> omega

/-- `%5d` of 42, and `%02ld` of -42, which needs its two digits. -/
theorem fillsField_iff_twoDigits :
    FillsField (fun _ => .ok 0) .space (.written 5) .int (fun _ => 42) ∧
      FillsField (fun _ => .ok 0) .zero (.written 2) .long (fun _ => -42) := by
  constructor
  · exact (fillsField_iff _ false (.written 5) .int _ (by decide)).mpr (.inl (by decide))
  · exact (fillsField_iff _ true (.written 2) .long _ (by decide)).mpr (.inr (by decide))

/-- `%5d` of -42 prints `-   42`. -/
theorem not_fillsField_minus : ¬FillsField (fun _ => .ok 0) .space (.written 5) .int
    (fun _ => -42) := by
  rintro ⟨chars, shown, filled⟩
  have six : printed (fun _ => .ok 0) (fieldFormat .space (.written 5) .int (char 'd'))
      (fun _ => -42) = .ok (("-   42".toList.map char).map (BitVec.signExtend 32)) := by decide
  rw [← Except.ok.inj (six.symm.trans shown)] at filled
  exact absurd filled (by decide)

/-- Padding on the right is padding on the left with dashes: it is right where none is needed. -/
theorem padsRight_iff (load : Word → Except Stop Byte) (conversion : UnsignedConversion)
    (width : Amount) (type : IntegerType) (ap : Arguments)
    (positive : 1 ≤ (width.value ap).toInt) :
    PadsRight load conversion width type ap ↔ (width.value ap).toNat ≤
      (numeral conversion.base (type.unsigned (width.rest ap))).length := by
  have two : 1 < conversion.base := by cases conversion <;> decide
  have most : conversion.base ≤ 16 := by cases conversion <;> decide
  rw [PadsRight, printed_unsigned positive]
  generalize type.unsigned (width.rest ap) = n
  have numerals := isNumeral_numeral two most n
  have some := numeral_ne_nil two n
  generalize numeral conversion.base n = digits at numerals some
  constructor
  · intro same
    by_contra wide
    obtain ⟨pads, more⟩ : ∃ pads, (width.value ap).toNat - digits.length = pads + 1 :=
      ⟨(width.value ap).toNat - digits.length - 1, by omega⟩
    obtain ⟨first, rest, rfl⟩ := List.exists_cons_of_ne_nil some
    have heads := Except.ok.inj same
    rw [more, List.replicate_succ, List.cons_append, List.cons_append, List.map_cons,
      List.map_cons] at heads
    have dash := signExtend_injective (List.cons.inj heads).1
    have digit := numerals first (List.mem_cons_self ..)
    exact isNumeral_ne digit (by decide) dash.symm
  · intro fits
    have none : (width.value ap).toNat - digits.length = 0 := by omega
    simp only [none, List.replicate_zero, List.nil_append, List.append_nil]

/-- `%-2x` of 0x2a. -/
theorem padsRight_iff_twoDigits : PadsRight (fun _ => .ok 0) .x (.written 2) .int (fun _ => 42) :=
  (padsRight_iff _ .x (.written 2) .int _ (by decide)).mpr (by decide)

/-- `%-5u` of 42 prints `---42`. -/
theorem not_padsRight_dashes : ¬PadsRight (fun _ => .ok 0) .u (.written 5) .int (fun _ => 42) := by
  have dashes : printed (fun _ => .ok 0) (fieldFormat .dash (.written 5) .int (char 'u'))
      (fun _ => 42) = .ok (("---42".toList.map char).map (BitVec.signExtend 32)) := by decide
  intro padded
  exact absurd (dashes.symm.trans padded) (by decide)

end FosV2
