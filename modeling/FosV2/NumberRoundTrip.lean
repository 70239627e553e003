import FosV2.PrintNumber

/-!
Printing a number and reading it back with `strtol`. Overflow is not detected on the way
back, so the words above 0x7fffffff come back by wrapping.
-/

namespace FosV2

def IsNumeral (base : Nat) (c : Byte) : Prop := ∃ dig < base, digitValue c = some dig

theorem digitValue_digitByte {digit : Nat} (small : digit < 16) :
    digitValue (digitByte digit) = some digit := by
  revert digit
  decide

section Digits

variable {base n : Nat}

theorem isNumeral_digitByte (most : base ≤ 16) {digit : Nat} (small : digit < base) :
    IsNumeral base (digitByte digit) :=
  ⟨digit, small, digitValue_digitByte (by omega)⟩

theorem isNumeral_numeral (two : 1 < base) (most : base ≤ 16) (n : Nat) :
    ∀ c ∈ numeral base n, IsNumeral base c := by
  induction n using Nat.strongRecOn with
  | ind n ih =>
      intro c member
      by_cases small : n < base
      · rw [numeral_of_lt small, List.mem_singleton] at member
        rw [member]
        exact isNumeral_digitByte most small
      · rw [numeral_of_le two (by omega), List.mem_append, List.mem_singleton] at member
        rcases member with earlier | last
        · exact ih (n / base) (Nat.div_lt_self (by omega) two) c earlier
        · rw [last]
          exact isNumeral_digitByte most (Nat.mod_lt _ (by omega))

theorem strtolDigits_cons (val : Word) {digit : Nat} (small : digit < base) (most : base ≤ 16)
    (s : List Byte) : strtolDigits base val (digitByte digit :: s) =
      strtolDigits base (val * BitVec.ofNat 32 base + BitVec.ofNat 32 digit) s := by
  rw [strtolDigits, digitValue_digitByte (by omega)]
  exact if_neg (by omega)

theorem strtolDigits_numeral (two : 1 < base) (most : base ≤ 16) (n : Nat) (s : List Byte) :
    strtolDigits base 0 (numeral base n ++ s) = strtolDigits base (BitVec.ofNat 32 n) s := by
  induction n using Nat.strongRecOn generalizing s with
  | ind n ih =>
      by_cases small : n < base
      · rw [numeral_of_lt small, List.singleton_append, strtolDigits_cons _ small most]
        have same : (0 : Word) * BitVec.ofNat 32 base + BitVec.ofNat 32 n = BitVec.ofNat 32 n := by
          simp
        rw [same]
      · rw [numeral_of_le two (by omega), List.append_assoc, List.singleton_append,
          ih (n / base) (Nat.div_lt_self (by omega) two),
          strtolDigits_cons _ (Nat.mod_lt _ (by omega)) most, ← BitVec.ofNat_mul,
          ← BitVec.ofNat_add, Nat.div_add_mod']

theorem strtolDigits_zeros (one : 1 ≤ base) (most : base ≤ 16) (count : Nat) (s : List Byte) :
    strtolDigits base 0 (List.replicate count (char '0') ++ s) = strtolDigits base 0 s := by
  induction count with
  | zero => rfl
  | succ count ih =>
      have same : (0 : Word) * BitVec.ofNat 32 base + BitVec.ofNat 32 0 = 0 := by simp
      have first := strtolDigits_cons 0 one most
        (List.replicate count (char '0') ++ s)
      rw [same, ih] at first
      exact first

end Digits

/-! The parts of `strtol` before the digits -/

theorem not_isNumeral_of_none {base : Nat} {c : Byte} (noDigit : digitValue c = none) :
    ¬IsNumeral base c := by
  rintro ⟨dig, _, value⟩
  rw [noDigit] at value
  cases value

theorem isNumeral_ne_x {base : Nat} {c : Byte} (numeral : IsNumeral base c) (most : base ≤ 16) :
    c ≠ char 'x' := by
  rintro rfl
  obtain ⟨dig, small, value⟩ := numeral
  have large : digitValue (char 'x') = some 33 := by decide
  rw [large] at value
  cases value
  omega

theorem isNumeral_ne {base : Nat} {c d : Byte} (numeral : IsNumeral base c)
    (noDigit : digitValue d = none) : c ≠ d := by
  rintro rfl
  exact not_isNumeral_of_none noDigit numeral

theorem strtol_spaces (count : Nat) (s : List Byte) (base : Nat) :
    strtol (List.replicate count (char ' ') ++ s) base = strtol s base := by
  induction count with
  | zero => rfl
  | succ count ih =>
      rw [List.replicate_succ, List.cons_append, ← ih, strtol, strtol,
        List.dropWhile_cons_of_pos (by simp)]

theorem strtol_digits {base : Nat} {s : List Byte} (chosen : base = 10 ∨ base = 16)
    (numerals : ∀ c ∈ s, IsNumeral base c) : strtol s base = strtolDigits base 0 s := by
  have most : base ≤ 16 := by omega
  have positive : base ≠ 0 := by omega
  cases s with
  | nil => rcases chosen with rfl | rfl <;> rfl
  | cons c s =>
      have first : IsNumeral base c := numerals c (List.mem_cons_self ..)
      have noSpace : ¬(c = char ' ' ∨ c = char '\t') := by
        rintro (space | tab)
        · exact isNumeral_ne first (by decide) space
        · exact isNumeral_ne first (by decide) tab
      have noPlus : c ≠ char '+' := isNumeral_ne first (by decide)
      have noMinus : c ≠ char '-' := isNumeral_ne first (by decide)
      have noPrefix : s.head? ≠ some (char 'x') := by
        intro second
        have member : char 'x' ∈ s := List.mem_of_mem_head? second
        exact isNumeral_ne_x (numerals _ (List.mem_cons_of_mem _ member)) most rfl
      simp [strtol, noSpace, noPlus, noMinus, noPrefix, positive]

theorem strtol_hexadecimal (s : List Byte) :
    strtol (char '0' :: char 'x' :: s) 16 = strtolDigits 16 0 s := by
  rfl

theorem strtol_minus (s : List Byte) :
    strtol (char '-' :: s) 10 = (-(strtolDigits 10 0 s).1, (strtolDigits 10 0 s).2) := by
  rfl

theorem strtol_padded {base : Nat} {padc : Byte} (chosen : base = 10 ∨ base = 16)
    (padding : padc = char ' ' ∨ padc = char '0') (pads n : Nat) :
    strtol (List.replicate pads padc ++ numeral base n) base = (BitVec.ofNat 32 n, []) := by
  have two : 1 < base := by omega
  have most : base ≤ 16 := by omega
  have numerals := isNumeral_numeral two most n
  have value := strtolDigits_numeral two most n []
  rw [List.append_nil] at value
  rcases padding with rfl | rfl
  · rw [strtol_spaces, strtol_digits chosen numerals, value]
    rfl
  · have zero : IsNumeral base (digitByte 0) := isNumeral_digitByte most (by omega)
    have same : digitByte 0 = char '0' := by decide
    rw [same] at zero
    have padded : ∀ c ∈ List.replicate pads (char '0') ++ numeral base n, IsNumeral base c := by
      intro c member
      rcases List.mem_append.mp member with pad | digit
      · rwa [List.eq_of_mem_replicate pad]
      · exact numerals c digit
    rw [strtol_digits chosen padded, strtolDigits_zeros (by omega) most, value]
    rfl

/-! Escapes with a field width -/

def numberFormat (zero : Bool) (width : List Byte) (conversion : Char) : List Byte :=
  char '%' :: ((if zero then [char '0'] else []) ++ width ++ [char conversion])

def fieldWidth (width : Option Nat) : List Byte := width.elim [] (numeral 10)

theorem isBetween_of_isNumeral {c : Byte} (numeral : IsNumeral 10 c) :
    isBetween (char '0') (char '9') c = true := by
  obtain ⟨dig, small, value⟩ := numeral
  rw [digitValue] at value
  split at value
  · assumption
  · split at value
    · have := Option.some.inj value
      omega
    · split at value
      · have := Option.some.inj value
        omega
      · cases value

theorem zero_or_isBetween {c : Byte} (digit : isBetween (char '0') (char '9') c = true) :
    c = char '0' ∨ isBetween (char '1') (char '9') c = true := by
  revert c
  decide

def Padded (escape : Escape) : Prop :=
  escape.lflag = 0 ∧ (escape.padc = char ' ' ∨ escape.padc = char '0')

theorem Padded.processPrecision {escape : Escape} (padded : Padded escape) (precision : Word) :
    Padded { escape with precision := precision }.processPrecision := by
  rw [Escape.processPrecision]
  split
  · exact padded
  · exact padded

def ReachesHex (fuel : Nat) (fmt : Cursor) (ap ap' : Arguments) (escape : Escape) : Prop :=
  ∃ before escape', reswitch fuel fmt ap escape =
    .ok (char 'x', ⟨before, [0]⟩, ap', escape') ∧ Padded escape'

theorem reachesHex_here (before : List Byte) {escape : Escape} (padded : Padded escape)
    (fuel : Nat) (ap : Arguments) :
    ReachesHex (fuel + 1) ⟨before, [char 'x', 0]⟩ ap ap escape :=
  ⟨char 'x' :: before, escape, rfl, padded⟩

theorem readNumber_digits {digits : List Byte}
    (decimal : ∀ c ∈ digits, isBetween (char '0') (char '9') c = true) (precision : Word)
    (ch : Byte) (before : List Byte) :
    ∃ precision' before', readNumber precision ch before (digits ++ [char 'x', 0]) =
      .ok (precision', ⟨before', [char 'x', 0]⟩) := by
  induction digits generalizing precision ch before with
  | nil => exact ⟨_, _, rfl⟩
  | cons next digits ih =>
      have digit := decimal next (List.mem_cons_self ..)
      have others : ∀ c ∈ digits, isBetween (char '0') (char '9') c = true :=
        fun c member => decimal c (List.mem_cons_of_mem _ member)
      rw [List.cons_append, readNumber]
      simp only [digit, if_true]
      exact ih others _ next (next :: before)

theorem reachesHex_digits {digits : List Byte}
    (decimal : ∀ c ∈ digits, isBetween (char '0') (char '9') c = true) {fuel : Nat}
    (enough : digits.length < fuel) (before : List Byte) (ap : Arguments) {escape : Escape}
    (padded : Padded escape) :
    ReachesHex fuel ⟨before, digits ++ [char 'x', 0]⟩ ap ap escape := by
  induction digits generalizing fuel before escape with
  | nil =>
      obtain ⟨fuel, rfl⟩ : ∃ less, fuel = less + 1 := ⟨fuel - 1, by simp at enough; omega⟩
      exact reachesHex_here before padded fuel ap
  | cons next digits ih =>
      rw [List.length_cons] at enough
      obtain ⟨fuel, rfl⟩ : ∃ less, fuel = less + 2 := ⟨fuel - 2, by omega⟩
      have others : ∀ c ∈ digits, isBetween (char '0') (char '9') c = true :=
        fun c member => decimal c (List.mem_cons_of_mem _ member)
      rcases zero_or_isBetween (decimal next (List.mem_cons_self ..)) with rfl | digit
      · exact ih others (by omega) _ ⟨padded.1, .inr rfl⟩
      · have noDash : next ≠ char '-' := by
          rintro rfl
          exact absurd digit (by decide)
        have noZero : next ≠ char '0' := by
          rintro rfl
          exact absurd digit (by decide)
        obtain ⟨precision, before', number⟩ :=
          readNumber_digits others 0 next (next :: before)
        obtain ⟨last, escape', reached, padded'⟩ :=
          reachesHex_here before' (padded.processPrecision precision) fuel ap
        refine ⟨last, escape', ?_, padded'⟩
        rw [List.cons_append, reswitch, Cursor.next, ok_bind]
        simp only [noDash, noZero, digit, if_false, if_true]
        rw [number, ok_bind, reached]

/-! The characters that are printed, read back -/

def textOf (chars : List Word) : List Byte := chars.map (BitVec.setWidth 8)

theorem textOf_signExtend (bytes : List Byte) :
    textOf (bytes.map (BitVec.signExtend 32)) = bytes := by
  rw [textOf, List.map_map]
  have same : ∀ ch : Byte, (ch.signExtend 32).setWidth 8 = ch := by decide
  induction bytes with
  | nil => rfl
  | cons ch rest ih => rw [List.map_cons, ih, Function.comp_apply, same]

def ReadsBack (load : Word → Except Stop Byte) (fmt : List Byte) (ap : Arguments) (base : Nat)
    (value : Word) : Prop :=
  ∃ chars, printed load fmt ap = .ok chars ∧ strtol (textOf chars) base = (value, [])

section ReadsBack

variable {load : Word → Except Stop Byte} {ap ap' : Arguments}

theorem readsBack_of_reachesHex {rest : List Byte}
    (reaches : ReachesHex (rest.length + 1) ⟨[char '%'], rest ++ [0]⟩ ap ap' .start) :
    ReadsBack load (char '%' :: rest) ap 16 (ap' 0) := by
  obtain ⟨before, escape, reached, lflag, padding⟩ := reaches
  have two : 1 < (16 : BitVec 64).toNat := by decide
  have most : (16 : BitVec 64).toNat ≤ 16 := by decide
  have put := putNumber_record ((ap' 0).setWidth 64) two most escape []
  have converted : ∀ fmt, convert record load (printfmt record load) (char 'x') fmt ap' escape [] =
      (do
        let putdat ← putNumber record ((ap' 0).setWidth 64) 16 escape []
        return (fmt, ap'.rest, putdat)) := by
    intro fmt
    rw [convert_hexadecimal, getuint, lflag]
    rfl
  refine ⟨_, (vprintfmt_escape rest reached (converted _)).trans put, ?_⟩
  · rw [List.nil_append, textOf_signExtend]
    refine (strtol_padded (.inr rfl) padding _ _).trans ?_
    rw [BitVec.toNat_setWidth_of_le (by omega), BitVec.ofNat_toNat, BitVec.setWidth_eq]

theorem readsBack_width (zero : Bool) (width : Option Nat) :
    ReadsBack load (numberFormat zero (fieldWidth width) 'x') ap 16 (ap 0) := by
  have decimal : ∀ c ∈ (if zero then [char '0'] else []) ++ fieldWidth width,
      isBetween (char '0') (char '9') c = true := by
    intro c member
    rcases List.mem_append.mp member with flag | digit
    · cases zero with
      | false => cases flag
      | true =>
          rw [List.mem_singleton.mp flag]
          decide
    · cases width with
      | none => cases digit
      | some width =>
          exact isBetween_of_isNumeral (isNumeral_numeral (by omega) (by omega) width c digit)
  apply readsBack_of_reachesHex
  rw [List.append_assoc _ _ [(0 : Byte)]]
  apply reachesHex_digits decimal
  · simp only [List.length_append, List.length_singleton]
    omega
  · exact ⟨rfl, .inl rfl⟩

theorem readsBack_star (zero : Bool) :
    ReadsBack load (numberFormat zero [char '*'] 'x') ap 16 (ap 1) := by
  apply @readsBack_of_reachesHex load ap ap.rest
  cases zero with
  | false =>
      have padded : Padded .start := ⟨rfl, .inl rfl⟩
      exact reachesHex_here _ (padded.processPrecision (ap 0)) 1 ap.rest
  | true =>
      have padded : Padded { Escape.start with padc := char '0' } := ⟨rfl, .inr rfl⟩
      exact reachesHex_here _ (padded.processPrecision (ap 0)) 1 ap.rest

theorem readsBack_pointer : ReadsBack load (numberFormat false [] 'p') ap 16 (ap 0) := by
  have two : 1 < (16 : BitVec 64).toNat := by decide
  have most : (16 : BitVec 64).toNat ≤ 16 := by decide
  have put := putNumber_start ((ap 0).setWidth 64) two most
    ([char '0', char 'x'].map (BitVec.signExtend 32))
  rw [← List.map_append] at put
  refine ⟨_, vprintfmt_escape [char 'p'] rfl convert_pointer |>.trans put, ?_⟩
  rw [textOf_signExtend]
  have value := strtolDigits_numeral two most ((ap 0).setWidth 64).toNat []
  rw [List.append_nil] at value
  refine (strtol_hexadecimal _).trans (value.trans ?_)
  rw [BitVec.toNat_setWidth_of_le (by omega), BitVec.ofNat_toNat, BitVec.setWidth_eq]
  rfl

theorem setWidth_signExtend (x : Word) : (x.signExtend 64).setWidth 32 = x := by
  apply BitVec.eq_of_getLsbD_eq
  intro i small
  rw [BitVec.getLsbD_setWidth, BitVec.getLsbD_signExtend]
  simp [small]
  omega

theorem readsBack_decimal : ReadsBack load (numberFormat false [] 'd') ap 10 (ap 0) := by
  have two : 1 < (10 : BitVec 64).toNat := by decide
  have most : (10 : BitVec 64).toNat ≤ 16 := by decide
  have low : BitVec.ofNat 32 ((ap 0).signExtend 64).toNat = ap 0 := by
    rw [BitVec.ofNat_toNat]
    exact setWidth_signExtend (ap 0)
  have readBack := strtol_padded (.inl rfl) (.inl rfl) 0
  rw [List.replicate_zero] at readBack
  by_cases negative : ((ap 0).signExtend 64).toInt < 0
  · have put := putNumber_start (-(ap 0).signExtend 64) two most
      ([char '-'].map (BitVec.signExtend 32))
    rw [← List.map_append] at put
    have reached : putSigned record ((ap 0).signExtend 64) .start [] = _ :=
      (if_pos negative).trans put
    refine ⟨_, vprintfmt_escape [char 'd'] rfl convert_decimal |>.trans
      reached, ?_⟩
    rw [textOf_signExtend]
    have value := strtolDigits_numeral two most (-(ap 0).signExtend 64).toNat []
    have minus : BitVec.ofNat 32 (-(ap 0).signExtend 64).toNat = -ap 0 := by
      rw [BitVec.ofNat_toNat, BitVec.setWidth_neg_of_le (by omega), ← BitVec.ofNat_toNat, low]
    rw [List.append_nil, minus] at value
    calc strtol (char '-' :: numeral 10 (-(ap 0).signExtend 64).toNat) 10
        = (- -ap 0, []) := by
          rw [strtol_minus]
          exact congrArg (fun read : Word × List Byte => (-read.1, read.2)) value
      _ = (ap 0, []) := by rw [BitVec.neg_neg]
  · have put := putNumber_start ((ap 0).signExtend 64) two most []
    have reached : putSigned record ((ap 0).signExtend 64) .start [] = _ :=
      (if_neg negative).trans put
    refine ⟨_, vprintfmt_escape [char 'd'] rfl convert_decimal |>.trans
      reached, ?_⟩
    rw [List.nil_append, textOf_signExtend]
    exact (readBack _).trans (by rw [low])

/-- Every word comes back from `%x` under each field width and padding, written into the
format or taken from the arguments, from `%p`, and from `%d` as a signed number. -/
theorem numbers_roundTrip (load : Word → Except Stop Byte) (ap : Arguments) :
    (∀ zero width, ReadsBack load (numberFormat zero (fieldWidth width) 'x') ap 16 (ap 0)) ∧
      (∀ zero, ReadsBack load (numberFormat zero [char '*'] 'x') ap 16 (ap 1)) ∧
      ReadsBack load (numberFormat false [] 'p') ap 16 (ap 0) ∧
      ReadsBack load (numberFormat false [] 'd') ap 10 (ap 0) :=
  ⟨readsBack_width, readsBack_star, readsBack_pointer, readsBack_decimal⟩

end ReadsBack

end FosV2
