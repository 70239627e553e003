import FosV2.FormatDirective
import FosV2.PrintText

/-!
The field of a `%s`: width, precision and the side of the padding. What is left of the width
is kept in an `int` that goes down with every character, also behind the string.
-/

namespace FosV2

structure StringAt (load : Word → Except Stop Byte) (p : Word) (s : List Byte) : Prop where
  notNull : p ≠ 0
  bytes : ∀ i ch, s[i]? = some ch → load (p + BitVec.ofNat 32 i) = .ok ch ∧ ch ≠ 0
  nul : load (p + BitVec.ofNat 32 s.length) = .ok 0

def Spells (text : Text) : Nat → List Byte → Prop
  | i, [] => text i = .ok 0
  | i, ch :: s => text i = .ok ch ∧ ch ≠ 0 ∧ Spells text (i + 1) s

def admitted (precision : Word) (length : Nat) : Nat :=
  if precision.toInt < 0 then length else min precision.toNat length

section Texts

variable {σ : Type} {load : Word → Except Stop Byte} {p : Word} {s : List Byte} {text : Text}
  {i : Nat}

theorem spells_of_bytes (bytes : ∀ k ch, s[k]? = some ch → text (i + k) = .ok ch ∧ ch ≠ 0)
    (nul : text (i + s.length) = .ok 0) : Spells text i s := by
  induction s generalizing i with
  | nil => exact nul
  | cons ch s ih =>
      obtain ⟨read, some⟩ := bytes 0 ch rfl
      refine ⟨read, some, ih (fun k ch' found => ?_) ?_⟩
      · rw [Nat.add_right_comm]
        exact bytes (k + 1) ch' found
      · rw [Nat.add_right_comm]
        exact nul

theorem StringAt.spells (string : StringAt load p s) : Spells (textAt load p) 0 s := by
  have here : ∀ n, textAt load p (0 + n) = load (p + BitVec.ofNat 32 n) := by
    intro n
    rw [textAt, if_neg string.notNull, Nat.zero_add]
  apply spells_of_bytes
  · intro k ch found
    rw [here]
    exact string.bytes k ch found
  · rw [here]
    exact string.nul

theorem StringAt.length_lt (string : StringAt load p s) : s.length < 2 ^ 32 := by
  refine AlignedWord.lt_two_pow_of_new p fun i inside same => ?_
  obtain ⟨read, some⟩ := string.bytes _ _ (List.getElem?_eq_getElem inside)
  rw [same, string.nul] at read
  exact some (Except.ok.inj read).symm

def textMemory (p : Word) (s : List Byte) : Word → Except Stop Byte :=
  fun a => .ok (s.getD (a - p).toNat 0)

theorem stringAt_textMemory (notNull : p ≠ 0) (noNul : 0 ∉ s) (short : s.length < 2 ^ 32) :
    StringAt (textMemory p s) p s := by
  have held := holdsString_stringMemory p noNul short
  refine ⟨notNull, fun i ch found => ?_, congrArg Except.ok held.nul⟩
  obtain ⟨read, some⟩ := held.bytes i ch found
  exact ⟨congrArg Except.ok read, some⟩

theorem admitted_le (precision : Word) (length : Nat) : admitted precision length ≤ length := by
  rw [admitted]
  split
  · exact Nat.le_refl _
  · exact Nat.min_le_right _ _

theorem admitted_zero (length : Nat) : admitted 0 length = 0 := Nat.zero_min length

theorem admitted_succ {precision : Word} (more : precision.toInt < 0 ∨ 0 ≤ (precision - 1).toInt)
    (length : Nat) :
    admitted precision (length + 1) = admitted (nextPrecision precision) length + 1 := by
  by_cases negative : precision.toInt < 0
  · rw [nextPrecision_negative negative, admitted, admitted, if_pos negative, if_pos negative]
  · have less : 0 ≤ (precision - 1).toInt := by omega
    obtain ⟨next, positive, value⟩ := nextPrecision_positive (by omega) less
    rw [next, admitted, admitted, if_neg negative, if_neg (by omega), value]
    omega

theorem putText_spells (putch : σ → Word → σ) (spells : Spells text i s) {fuel : Nat}
    (enough : s.length < fuel) (precision width : Word) (putdat : σ) :
    putText putch text false fuel i precision width putdat =
      .ok (width - BitVec.ofNat 32 (admitted precision s.length),
        putBytes putch (s.take (admitted precision s.length)) putdat) := by
  induction s generalizing fuel i precision width putdat with
  | nil =>
      obtain ⟨fuel, rfl⟩ : ∃ less, fuel = less + 1 := ⟨fuel - 1, by omega⟩
      have none : admitted precision 0 = 0 := Nat.le_zero.mp (admitted_le precision 0)
      have whole : width - BitVec.ofNat 32 0 = width := BitVec.sub_zero width
      rw [putText_succ, show text i = .ok 0 from spells, ok_bind, if_pos rfl, List.length_nil,
        none, whole]
      rfl
  | cons ch s ih =>
      obtain ⟨read, some, spells⟩ := spells
      rw [List.length_cons] at enough
      obtain ⟨fuel, rfl⟩ : ∃ less, fuel = less + 1 := ⟨fuel - 1, by omega⟩
      rw [putText_succ, read, ok_bind, if_neg some, List.length_cons]
      by_cases more : precision.toInt < 0 ∨ 0 ≤ (precision - 1).toInt
      · have less : width - 1 - BitVec.ofNat 32 (admitted (nextPrecision precision) s.length) =
            width - BitVec.ofNat 32 (admitted (nextPrecision precision) s.length + 1) := by
          rw [BitVec.ofNat_add, BitVec.sub_sub, BitVec.add_comm]
          rfl
        rw [if_pos more, admitted_succ more, List.take_succ_cons, ih spells (by omega), less]
        rfl
      · have whole : width - BitVec.ofNat 32 0 = width := BitVec.sub_zero width
        rw [if_neg more, eq_zero_of_cut more, admitted_zero, whole]
        rfl

theorem strnlen_spells (spells : Spells text i s) (size : Nat) :
    strnlen text size i = .ok (i + min size s.length) := by
  induction size generalizing i s with
  | zero =>
      rw [Nat.zero_min]
      rfl
  | succ size ih =>
      rw [strnlen]
      cases s with
      | nil =>
          rw [show text i = .ok 0 from spells, ok_bind]
          rfl
      | cons ch s =>
          obtain ⟨read, some, spells⟩ := spells
          rw [read, ok_bind, if_neg some, ih spells, List.length_cons]
          congr 1
          omega

def Escape.PadsLeft (escape : Escape) : Prop :=
  0 < escape.width.toInt ∧ escape.padc ≠ char '-'

instance (escape : Escape) : Decidable escape.PadsLeft :=
  inferInstanceAs (Decidable (_ ∧ _))

def padsBefore (escape : Escape) (length : Nat) : Nat :=
  if escape.PadsLeft then (escape.width - BitVec.ofNat 32 length).toInt.toNat else 0

def widthLeft (escape : Escape) (length : Nat) : Word :=
  if escape.PadsLeft then
    if 0 < (escape.width - BitVec.ofNat 32 length).toInt then 0
    else escape.width - BitVec.ofNat 32 length
  else escape.width

def padsBehind (escape : Escape) (length shown : Nat) : Nat :=
  (widthLeft escape length - BitVec.ofNat 32 shown).toInt.toNat

theorem padText_spells (spells : Spells text 0 s) (escape : Escape) (chars : List Word) :
    padText record text escape chars =
      .ok (widthLeft escape (min escape.precision.toNat s.length), chars ++
        List.replicate (padsBefore escape (min escape.precision.toNat s.length))
          (escape.padc.signExtend 32)) := by
  rw [padText, widthLeft, padsBefore]
  by_cases left : escape.PadsLeft
  · have left' : 0 < escape.width.toInt ∧ escape.padc ≠ char '-' := left
    rw [if_pos left, if_pos left, if_pos left', strnlen_spells spells, ok_bind, Nat.zero_add]
    dsimp only
    rw [putPadding_record]
    rfl
  · have left' : ¬(0 < escape.width.toInt ∧ escape.padc ≠ char '-') := left
    rw [if_neg left, if_neg left, if_neg left', List.replicate_zero, List.append_nil]

theorem putString_spells (spells : Spells text 0 s) (short : s.length < 2 ^ 32)
    {escape : Escape} (plain : escape.altflag = false) :
    putString record text escape [] =
      .ok ((List.replicate (padsBefore escape (min escape.precision.toNat s.length)) escape.padc ++
        (s.take (admitted escape.precision s.length) ++
          List.replicate (padsBehind escape (min escape.precision.toNat s.length)
            (admitted escape.precision s.length)) (char ' '))).map (BitVec.signExtend 32)) := by
  rw [putString, padText_spells spells, ok_bind, plain]
  dsimp only
  rw [putText_spells record spells (by rw [textFuel]; exact short), ok_bind]
  dsimp only
  rw [putPadding_record, putBytes_record, padsBehind]
  simp only [List.nil_append, List.map_append, List.map_replicate, List.append_assoc]
  rfl

end Texts

/-- `%`, perhaps the flag `-`, a width, a point with a precision, and `s`. -/
structure StringDirective where
  dash : Bool
  width : Option Amount
  precision : Option Amount

namespace StringDirective

def amountBytes (amount : Option Amount) : List Byte := amount.elim [] Amount.bytes

def format (d : StringDirective) : List Byte :=
  char '%' :: ((if d.dash then [char '-'] else []) ++ (amountBytes d.width ++
    (d.precision.elim [] (fun amount => char '.' :: amount.bytes) ++ [char 's'])))

def afterWidth (d : StringDirective) (ap : Arguments) : Arguments :=
  d.width.elim ap fun amount => amount.rest ap

def rest (d : StringDirective) (ap : Arguments) : Arguments :=
  d.precision.elim (d.afterWidth ap) fun amount => amount.rest (d.afterWidth ap)

def widthValue (d : StringDirective) (ap : Arguments) : Word :=
  d.width.elim 0 fun amount => amount.value ap

def precisionValue (d : StringDirective) (ap : Arguments) : Option Word :=
  d.precision.map fun amount => amount.value (d.afterWidth ap)

structure Valid (d : StringDirective) (ap : Arguments) : Prop where
  width : 0 ≤ (d.widthValue ap).toInt
  precision : ∀ value, d.precisionValue ap = some value → 0 ≤ value.toInt

def shown (d : StringDirective) (ap : Arguments) (s : List Byte) : Nat :=
  (d.precisionValue ap).elim s.length fun value => min value.toNat s.length

def field (d : StringDirective) (ap : Arguments) (s : List Byte) : List Byte :=
  let pads := List.replicate ((d.widthValue ap).toNat - d.shown ap s) (char ' ')
  if d.dash then s.take (d.shown ap s) ++ pads else pads ++ s.take (d.shown ap s)

def Fits (d : StringDirective) (ap : Arguments) (s : List Byte) : Prop :=
  let w := (d.widthValue ap).toNat
  let m := d.shown ap s
  if d.precision = some (.written 0) then s = List.replicate w (char ' ')
  else if w = 0 ∧ d.precision = none ∧ d.width ≠ some .argument then m < 2 ^ 31 ∨ m = 2 ^ 32 - 1
  else m ≤ w + 2 ^ 31 ∧ (d.dash ∨ w = 0 ∨ 2 * m ≤ w + 2 ^ 31 ∨ 2 ^ 32 + w ≤ 2 * m)

/-! The escape that `reswitch` reads -/

def escape (d : StringDirective) (ap : Arguments) : Escape :=
  let escape := if d.dash then { Escape.start with padc := char '-' } else .start
  let escape := d.width.elim escape fun amount => escape.withAmount amount ap
  d.precision.elim escape fun amount => escape.atPoint.withAmount amount (d.afterWidth ap)

theorem reaches_precision (precision : Option Amount) (ap : Arguments) (escape : Escape) :
    Reaches (precision.elim [] (fun amount => char '.' :: amount.bytes) ++ [char 's', 0]) ap escape
      (char 's') [0] (precision.elim ap fun amount => amount.rest ap)
      (precision.elim escape fun amount => escape.atPoint.withAmount amount ap) := by
  have noDigit : isBetween (char '0') (char '9') (char 's') = false := by decide
  cases precision with
  | none => exact reaches_end (by decide) [0] ap escape
  | some amount =>
      have conversion : isFlag (char 's') = false := by decide
      have ends := reaches_end conversion [0] (amount.rest ap)
        (escape.atPoint.withAmount amount ap)
      exact (passed_point _ _ _).reaches
        ((passed_withAmount amount noDigit [0] ap escape.atPoint).reaches ends)

theorem reaches_escape (d : StringDirective) (ap : Arguments) :
    Reaches (((if d.dash then [char '-'] else []) ++ (amountBytes d.width ++
      (d.precision.elim [] (fun amount => char '.' :: amount.bytes) ++ [char 's']))) ++ [0]) ap
      .start (char 's') [0] (d.rest ap) (d.escape ap) := by
  obtain ⟨dash, width, precision⟩ := d
  have behind : ∃ next more, precision.elim [] (fun amount => char '.' :: amount.bytes) ++
      [char 's', 0] = next :: more ∧ isBetween (char '0') (char '9') next = false := by
    cases precision with
    | none => exact ⟨_, _, rfl, by decide⟩
    | some amount => exact ⟨_, _, rfl, by decide⟩
  obtain ⟨next, more, same, noDigit⟩ := behind
  have field (escape : Escape) : Reaches (amountBytes width ++
      (precision.elim [] (fun amount => char '.' :: amount.bytes) ++ [char 's', 0])) ap escape
      (char 's') [0] (rest ⟨dash, width, precision⟩ ap)
      (precision.elim (width.elim escape fun amount => escape.withAmount amount ap) fun amount =>
        (width.elim escape fun amount => escape.withAmount amount ap).atPoint.withAmount amount
          (afterWidth ⟨dash, width, precision⟩ ap)) := by
    cases width with
    | none => exact reaches_precision precision ap escape
    | some amount =>
        have passed := passed_withAmount amount noDigit more ap escape
        rw [← same] at passed
        exact passed.reaches (reaches_precision precision (amount.rest ap) _)
  simp only [List.append_assoc, List.singleton_append]
  cases dash with
  | false => exact field .start
  | true => exact (passed_dash _ _ _).reaches (field _)

/-- A written 0 pads with zeros, for the width as for the precision. -/
def padc (d : StringDirective) : Byte :=
  if d.width = some (.written 0) ∨ d.precision = some (.written 0) then char '0'
  else if d.dash then char '-' else char ' '

/-- Neither a missing width nor a written 0 sets the width, but a point does. -/
def startWidth (d : StringDirective) (ap : Arguments) : Word :=
  if d.widthValue ap = 0 ∧ d.precision = none ∧ d.width ≠ some .argument then -1
  else d.widthValue ap

def startPrecision (d : StringDirective) (ap : Arguments) : Word :=
  if d.precision = some (.written 0) then -1 else (d.precisionValue ap).getD (-1)

theorem withAmount_unset (padc : Byte) (amount : Amount) (ap : Arguments) :
    (⟨padc, -1, -1, 0, false⟩ : Escape).withAmount amount ap =
      ⟨if amount = .written 0 then char '0' else padc,
        if amount = .written 0 then -1 else amount.value ap, -1, 0, false⟩ := by
  have unset : (-1 : Word).toInt < 0 := by decide
  rw [Escape.withAmount]
  split
  · rfl
  · exact if_pos unset

theorem withAmount_set (padc : Byte) {width : Word} (set : 0 ≤ width.toInt) (amount : Amount)
    (ap : Arguments) :
    (⟨padc, width, -1, 0, false⟩ : Escape).withAmount amount ap =
      ⟨if amount = .written 0 then char '0' else padc, width,
        if amount = .written 0 then -1 else amount.value ap, 0, false⟩ := by
  rw [Escape.withAmount]
  split
  · rfl
  · exact if_neg (by dsimp only; omega)

theorem atPoint_unset (padc : Byte) :
    (⟨padc, -1, -1, 0, false⟩ : Escape).atPoint = ⟨padc, 0, -1, 0, false⟩ := by
  have unset : (-1 : Word).toInt < 0 := by decide
  exact if_pos unset

theorem atPoint_set (padc : Byte) {width : Word} (set : 0 ≤ width.toInt) :
    (⟨padc, width, -1, 0, false⟩ : Escape).atPoint = ⟨padc, width, -1, 0, false⟩ :=
  if_neg (by dsimp only; omega)

theorem escape_eq (d : StringDirective) {ap : Arguments} (valid : d.Valid ap) :
    d.escape ap = ⟨d.padc, d.startWidth ap, d.startPrecision ap, 0, false⟩ := by
  obtain ⟨dash, width, precision⟩ := d
  have none : (0 : Word).toInt = 0 := rfl
  have first : (if dash then { Escape.start with padc := char '-' } else .start) =
      (⟨if dash then char '-' else char ' ', -1, -1, 0, false⟩ : Escape) := by
    cases dash <;> rfl
  simp only [escape, first, padc, startWidth, startPrecision, widthValue, precisionValue]
  cases width with
  | none =>
      cases precision with
      | none => simp
      | some amount =>
          simp only [Option.elim_none, Option.elim_some, atPoint_unset]
          rw [withAmount_set _ (Int.le_of_eq none.symm)]
          simp
  | some number =>
      have set : 0 ≤ (number.value ap).toInt := valid.width
      simp only [Option.elim_some, withAmount_unset]
      by_cases zero : number = .written 0
      · subst zero
        cases precision with
        | none => simp [Amount.value]
        | some amount =>
            simp only [Option.elim_some, if_true, atPoint_unset]
            rw [withAmount_set _ (Int.le_of_eq none.symm)]
            simp [Amount.value]
      · have given : number.value ap = 0 → number = .argument := by
          cases number with
          | written value => exact fun same => absurd (congrArg Amount.written same) zero
          | argument => exact fun _ => rfl
        cases precision with
        | none =>
            simp only [Option.elim_none, zero, if_false]
            by_cases null : number.value ap = 0
            · simp [given null]
            · simp only [null, Option.some.injEq, zero, reduceCtorEq, or_self, false_and, if_false,
                Option.map_none, Option.getD_none]
        | some amount =>
            simp only [Option.elim_some, zero, if_false]
            rw [atPoint_set _ set, withAmount_set _ set]
            simp only [Option.some.injEq, zero, reduceCtorEq, false_or, false_and, and_false,
              if_false, Option.map_some, Option.getD_some]

end StringDirective

/-! Where the arithmetic on the width wraps -/

section Wrapping

variable {escape : Escape} {m : Nat}

theorem min_toNat_eq_admitted {precision : Word} (given : precision = -1 ∨ 0 ≤ precision.toInt)
    {length : Nat} (short : length < 2 ^ 32) :
    min precision.toNat length = admitted precision length := by
  rcases given with rfl | positive
  · have all : (-1 : Word).toNat = 2 ^ 32 - 1 := by decide
    rw [all, admitted, if_pos (by decide), Nat.min_eq_right (by omega)]
  · rw [admitted, if_neg (by omega)]

theorem toInt_sub_ofNat {w : Word} (set : 0 ≤ w.toInt) {n : Nat}
    (most : n ≤ w.toNat + 2 ^ 31 + 2 ^ 32) :
    (w - BitVec.ofNat 32 n).toInt =
      if n ≤ w.toNat + 2 ^ 31 then (w.toNat : Int) - n else (w.toNat : Int) - n + 2 ^ 32 := by
  have bits := w.isLt
  rw [BitVec.toInt_eq_toNat_cond] at set ⊢
  rw [BitVec.toNat_sub, BitVec.toNat_ofNat]
  split <;> omega

theorem toNat_lt_of_set {w : Word} (set : 0 ≤ w.toInt) : w.toNat < 2 ^ 31 := by
  rw [BitVec.toInt_eq_toNat_cond] at set
  omega

theorem padsBefore_of_left (left : escape.PadsLeft) (small : m < 2 ^ 32) :
    padsBefore escape m = if m ≤ escape.width.toNat + 2 ^ 31 then escape.width.toNat - m
      else escape.width.toNat + 2 ^ 32 - m := by
  have difference := toInt_sub_ofNat (n := m) (Int.le_of_lt left.1) (by omega)
  rw [padsBefore, if_pos left, difference]
  split <;> omega

theorem padsBehind_of_left (left : escape.PadsLeft) (most : m ≤ escape.width.toNat + 2 ^ 31) :
    padsBehind escape m m =
      if 2 * m ≤ escape.width.toNat + 2 ^ 31 ∨ escape.width.toNat + 2 ^ 32 ≤ 2 * m then 0
      else escape.width.toNat + 2 ^ 32 - 2 * m := by
  have set : 0 ≤ escape.width.toInt := Int.le_of_lt left.1
  have below := toNat_lt_of_set set
  have once := toInt_sub_ofNat (n := m) set (by omega)
  rw [if_pos most] at once
  rw [padsBehind, widthLeft, if_pos left, once]
  by_cases wide : m < escape.width.toNat
  · have none : (0 : Word).toNat = 0 := rfl
    have behind := toInt_sub_ofNat (w := 0) (n := m) (by decide) (by omega)
    rw [none, if_pos (by omega)] at behind
    rw [if_pos (by omega), behind, if_pos (by omega)]
    omega
  · have twice : escape.width - BitVec.ofNat 32 m - BitVec.ofNat 32 m =
        escape.width - BitVec.ofNat 32 (2 * m) := by
      rw [BitVec.sub_sub, ← BitVec.ofNat_add, Nat.two_mul]
    have behind := toInt_sub_ofNat (n := 2 * m) set (by omega)
    rw [if_neg (by omega), twice, behind]
    split <;> split <;> omega

theorem pads_of_left (left : escape.PadsLeft) (small : m < 2 ^ 32) :
    padsBefore escape m + padsBehind escape m m = escape.width.toNat - m ↔
      m ≤ escape.width.toNat + 2 ^ 31 ∧
        (2 * m ≤ escape.width.toNat + 2 ^ 31 ∨ 2 ^ 32 + escape.width.toNat ≤ 2 * m) := by
  rw [padsBefore_of_left left small]
  by_cases most : m ≤ escape.width.toNat + 2 ^ 31
  · rw [if_pos most, padsBehind_of_left left most]
    split <;> omega
  · rw [if_neg most]
    omega

theorem pads_of_not_left (left : ¬escape.PadsLeft) (set : 0 ≤ escape.width.toInt)
    (small : m < 2 ^ 32) :
    padsBefore escape m + padsBehind escape m m = escape.width.toNat - m ↔
      m ≤ escape.width.toNat + 2 ^ 31 := by
  have difference := toInt_sub_ofNat (n := m) set (by omega)
  rw [padsBefore, padsBehind, widthLeft, if_neg left, if_neg left, difference]
  split <;> omega

theorem pads_of_unset (unset : escape.width = -1) (small : m < 2 ^ 32) :
    padsBefore escape m + padsBehind escape m m = 0 ↔ m < 2 ^ 31 ∨ m = 2 ^ 32 - 1 := by
  have negative : (-1 : Word).toInt < 0 := by decide
  have all : (-1 : Word).toNat = 2 ^ 32 - 1 := by decide
  have left : ¬escape.PadsLeft := by
    rintro ⟨positive, _⟩
    rw [unset] at positive
    omega
  rw [padsBefore, padsBehind, widthLeft, if_neg left, if_neg left, unset,
    BitVec.toInt_eq_toNat_cond, BitVec.toNat_sub, BitVec.toNat_ofNat, all]
  split <;> omega

end Wrapping

section Directive

variable {load : Word → Except Stop Byte} {d : StringDirective} {ap : Arguments} {s : List Byte}
  {m : Nat}

def StringDirective.read (d : StringDirective) (ap : Arguments) : Escape :=
  ⟨d.padc, d.startWidth ap, d.startPrecision ap, 0, false⟩

def StringDirective.Printed (load : Word → Except Stop Byte) (d : StringDirective)
    (ap : Arguments) (s : List Byte) : Prop :=
  printed load d.format ap = .ok ((d.field ap s).map (BitVec.signExtend 32))

theorem printed_string (valid : d.Valid ap) (string : StringAt load (d.rest ap 0) s) :
    printed load d.format ap =
      let shown := admitted (d.startPrecision ap) s.length
      .ok ((List.replicate (padsBefore (d.read ap) shown) d.padc ++ (s.take shown ++
        List.replicate (padsBehind (d.read ap) shown shown) (char ' '))).map
          (BitVec.signExtend 32)) := by
  have given : d.startPrecision ap = -1 ∨ 0 ≤ (d.startPrecision ap).toInt := by
    rw [StringDirective.startPrecision]
    split
    · exact .inl rfl
    · cases precision : d.precisionValue ap with
      | none => exact .inl rfl
      | some value => exact .inr (valid.precision value precision)
  have plain : (d.read ap).altflag = false := rfl
  have put := putString_spells string.spells string.length_lt plain
  have same : min (d.read ap).precision.toNat s.length =
      admitted (d.startPrecision ap) s.length :=
    min_toNat_eq_admitted given string.length_lt
  rw [same] at put
  have reaches := d.reaches_escape ap
  rw [d.escape_eq valid] at reaches
  exact (printed_escape reaches fun fmt => convert_string).trans put

theorem printed_iff (valid : d.Valid ap) (string : StringAt load (d.rest ap 0) s) :
    d.Printed load ap s ↔
      let shown := admitted (d.startPrecision ap) s.length
      List.replicate (padsBefore (d.read ap) shown) d.padc ++ (s.take shown ++
        List.replicate (padsBehind (d.read ap) shown shown) (char ' ')) = d.field ap s := by
  rw [StringDirective.Printed, printed_string valid string, Except.ok.injEq]
  exact (List.map_injective_iff.mpr signExtend_injective).eq_iff

theorem width_of_zero (zero : d.precision = some (.written 0)) :
    (d.read ap).width = d.widthValue ap := by
  simp [StringDirective.read, StringDirective.startWidth, zero]

theorem field_of_zero (zero : d.precision = some (.written 0)) :
    d.field ap s = List.replicate (d.widthValue ap).toNat (char ' ') := by
  have none : (d.precisionValue ap) = some 0 := by
    rw [StringDirective.precisionValue, zero]
    rfl
  simp [StringDirective.field, StringDirective.shown, none]

/-- The flag for zeros pads before the string, unless the width is 0. -/
theorem widthValue_of_zero (valid : d.Valid ap) (zero : d.precision = some (.written 0))
    (right : ¬(d.read ap).PadsLeft) : (d.widthValue ap).toNat = 0 := by
  have set := valid.width
  have padc : d.padc = char '0' := by simp [StringDirective.padc, zero]
  by_contra some
  refine right ⟨?_, ?_⟩
  · rw [width_of_zero zero]
    rw [BitVec.toInt_eq_toNat_cond] at set ⊢
    omega
  · change d.padc ≠ char '-'
    rw [padc]
    decide

theorem padsBehind_of_zero (valid : d.Valid ap) (zero : d.precision = some (.written 0))
    {behind : Nat} (small : m < 2 ^ 32) (noZeros : padsBefore (d.read ap) m = 0)
    (lengths : m + behind = (d.widthValue ap).toNat) : behind = 0 := by
  by_cases padded : (d.read ap).PadsLeft
  · rw [padsBefore_of_left padded small, width_of_zero zero] at noZeros
    split at noZeros <;> omega
  · have narrow := widthValue_of_zero valid zero padded
    omega

theorem pads_of_zero (valid : d.Valid ap) (zero : d.precision = some (.written 0))
    (length : m = (d.widthValue ap).toNat) :
    padsBefore (d.read ap) m = 0 ∧ padsBehind (d.read ap) m m = 0 := by
  have below := toNat_lt_of_set valid.width
  have width : (d.read ap).width = d.widthValue ap := width_of_zero zero
  have set : 0 ≤ (d.read ap).width.toInt := width ▸ valid.width
  have small : m < 2 ^ 32 := by omega
  have none : padsBefore (d.read ap) m + padsBehind (d.read ap) m m =
      (d.read ap).width.toNat - m := by
    by_cases padded : (d.read ap).PadsLeft
    · exact (pads_of_left padded small).mpr (by rw [width]; omega)
    · exact (pads_of_not_left padded set small).mpr (by rw [width]; omega)
  rw [width] at none
  omega

/-- Behind a written precision 0 the whole string is printed, and zeros before it. -/
theorem printed_iff_of_zero (valid : d.Valid ap) (string : StringAt load (d.rest ap 0) s)
    (zero : d.precision = some (.written 0)) :
    d.Printed load ap s ↔ s = List.replicate (d.widthValue ap).toNat (char ' ') := by
  have padc : d.padc = char '0' := by simp [StringDirective.padc, zero]
  have all : admitted (d.startPrecision ap) s.length = s.length := by
    simp [StringDirective.startPrecision, zero, admitted]
  rw [printed_iff valid string, all, field_of_zero zero, padc]
  dsimp only
  rw [List.take_length]
  constructor
  · intro same
    have noZeros : padsBefore (d.read ap) s.length = 0 := by
      by_contra some
      have member : char '0' ∈ List.replicate (d.widthValue ap).toNat (char ' ') := by
        rw [← same]
        exact List.mem_append_left _ (List.mem_replicate.mpr ⟨some, rfl⟩)
      exact absurd (List.eq_of_mem_replicate member) (by decide)
    have lengths := congrArg List.length same
    simp only [List.length_append, List.length_replicate, noZeros, Nat.zero_add] at lengths
    rw [noZeros, padsBehind_of_zero valid zero string.length_lt noZeros lengths] at same
    simpa using same
  · intro spaces
    have length : s.length = (d.widthValue ap).toNat := by
      rw [spaces, List.length_replicate]
    obtain ⟨before, behind⟩ := pads_of_zero valid zero length
    rw [before, behind]
    simpa using spaces

theorem width_ne_zero (wide : 0 < (d.widthValue ap).toNat) : d.width ≠ some (.written 0) := by
  intro zero
  have null : d.widthValue ap = 0 := by
    rw [StringDirective.widthValue, zero]
    rfl
  rw [null] at wide
  exact absurd wide (by decide)

theorem padsLeft_iff (valid : d.Valid ap) (nonzero : d.precision ≠ some (.written 0)) :
    (d.read ap).PadsLeft ↔ 0 < (d.widthValue ap).toNat ∧ d.dash = false := by
  have set := valid.width
  have positive : 0 < (d.widthValue ap).toInt ↔ 0 < (d.widthValue ap).toNat := by
    rw [BitVec.toInt_eq_toNat_cond] at set ⊢
    omega
  have started : 0 < (d.startWidth ap).toInt ↔ 0 < (d.widthValue ap).toNat := by
    rw [StringDirective.startWidth]
    split
    · rename_i unset
      rw [unset.1]
      decide
    · exact positive
  change 0 < (d.startWidth ap).toInt ∧ d.padc ≠ char '-' ↔ _
  rw [started]
  refine and_congr_right fun wide => ?_
  have written := width_ne_zero wide
  simp only [StringDirective.padc, written, nonzero, or_self, if_false]
  cases d.dash
  · exact iff_of_true (by decide) rfl
  · exact iff_of_false (by decide) Bool.noConfusion

theorem widthValue_of_not_padsLeft (valid : d.Valid ap) (nonzero : d.precision ≠ some (.written 0))
    (left : ¬(d.read ap).PadsLeft) (dash : d.dash = false) : (d.widthValue ap).toNat = 0 := by
  rw [padsLeft_iff valid nonzero] at left
  by_contra some
  exact left ⟨Nat.pos_of_ne_zero some, dash⟩

theorem padc_of_padsLeft (padded : (d.read ap).PadsLeft)
    (nonzero : d.precision ≠ some (.written 0)) (valid : d.Valid ap) : d.padc = char ' ' := by
  obtain ⟨wide, right⟩ := (padsLeft_iff valid nonzero).mp padded
  rw [StringDirective.padc, if_neg (not_or.mpr ⟨width_ne_zero wide, nonzero⟩), right]
  rfl

theorem width_read (d : StringDirective) (ap : Arguments) :
    (d.widthValue ap = 0 ∧ d.precision = none ∧ d.width ≠ some .argument ∧
      (d.read ap).width = -1) ∨ (d.read ap).width = d.widthValue ap ∧
        ¬(d.widthValue ap = 0 ∧ d.precision = none ∧ d.width ≠ some .argument) := by
  by_cases unset : d.widthValue ap = 0 ∧ d.precision = none ∧ d.width ≠ some .argument
  · exact .inl ⟨unset.1, unset.2.1, unset.2.2, if_pos unset⟩
  · exact .inr ⟨if_neg unset, unset⟩

theorem shown_le (d : StringDirective) (ap : Arguments) (s : List Byte) :
    d.shown ap s ≤ s.length := by
  rw [StringDirective.shown]
  cases d.precisionValue ap with
  | none => exact Nat.le_refl _
  | some value => exact Nat.min_le_right _ _

theorem admitted_startPrecision (valid : d.Valid ap)
    (nonzero : d.precision ≠ some (.written 0)) (s : List Byte) :
    admitted (d.startPrecision ap) s.length = d.shown ap s := by
  rw [StringDirective.startPrecision, if_neg nonzero, StringDirective.shown]
  cases precision : d.precisionValue ap with
  | none => exact if_pos (show (-1 : Word).toInt < 0 by decide)
  | some value => exact if_neg (Int.not_lt.mpr (valid.precision value precision))

theorem length_take_shown (d : StringDirective) (ap : Arguments) (s : List Byte) :
    (s.take (d.shown ap s)).length = d.shown ap s := by
  rw [List.length_take]
  exact Nat.min_eq_left (shown_le d ap s)

theorem length_field (d : StringDirective) (ap : Arguments) (s : List Byte) :
    (d.field ap s).length = (d.widthValue ap).toNat - d.shown ap s + d.shown ap s := by
  rw [StringDirective.field]
  split
  · rw [List.length_append, length_take_shown, List.length_replicate, Nat.add_comm]
  · rw [List.length_append, length_take_shown, List.length_replicate]

/-- The paddings are of the right length together where no difference wraps. -/
theorem pads_iff_fits (valid : d.Valid ap) (short : s.length < 2 ^ 32)
    (nonzero : d.precision ≠ some (.written 0)) :
    padsBefore (d.read ap) (d.shown ap s) +
        padsBehind (d.read ap) (d.shown ap s) (d.shown ap s) =
          (d.widthValue ap).toNat - d.shown ap s ↔ d.Fits ap s := by
  have small : d.shown ap s < 2 ^ 32 := Nat.lt_of_le_of_lt (shown_le d ap s) short
  have null : d.widthValue ap = 0 ↔ (d.widthValue ap).toNat = 0 :=
    ⟨fun zero => zero ▸ rfl, fun zero => BitVec.eq_of_toNat_eq zero⟩
  rw [StringDirective.Fits, if_neg nonzero]
  rcases width_read d ap with ⟨zero, noPrecision, noStar, unset⟩ | ⟨width, given⟩
  · rw [if_pos ⟨null.mp zero, noPrecision, noStar⟩, ← pads_of_unset unset small, null.mp zero,
      Nat.zero_sub]
  · have set : 0 ≤ (d.read ap).width.toInt := width ▸ valid.width
    rw [null] at given
    rw [if_neg given]
    by_cases left : (d.read ap).PadsLeft
    · obtain ⟨some, right⟩ := (padsLeft_iff valid nonzero).mp left
      have pads := pads_of_left left small
      rw [width] at pads
      rw [pads, right]
      simp only [Bool.false_eq_true, false_or]
      omega
    · have pads := pads_of_not_left left set small
      rw [width] at pads
      rw [pads]
      cases dash : d.dash with
      | false =>
          have narrow := widthValue_of_not_padsLeft valid nonzero left dash
          omega
      | true => simp

/-- Behind any other precision only the amount of padding can be wrong. -/
theorem printed_iff_of_nonzero (valid : d.Valid ap) (string : StringAt load (d.rest ap 0) s)
    (nonzero : d.precision ≠ some (.written 0)) :
    d.Printed load ap s ↔
      padsBefore (d.read ap) (d.shown ap s) +
        padsBehind (d.read ap) (d.shown ap s) (d.shown ap s) =
          (d.widthValue ap).toNat - d.shown ap s := by
  rw [printed_iff valid string, admitted_startPrecision valid nonzero]
  dsimp only
  constructor
  · intro same
    have lengths := congrArg List.length same
    simp only [List.length_append, List.length_replicate, length_take_shown, length_field] at lengths
    omega
  · intro pads
    by_cases left : (d.read ap).PadsLeft
    · obtain ⟨wide, right⟩ := (padsLeft_iff valid nonzero).mp left
      have width : (d.read ap).width = d.widthValue ap := by
        rcases width_read d ap with ⟨zero, _⟩ | ⟨same, _⟩
        · rw [zero] at wide
          exact absurd wide (by decide)
        · exact same
      have small : d.shown ap s < 2 ^ 32 :=
        Nat.lt_of_le_of_lt (shown_le d ap s) string.length_lt
      have whole := pads
      rw [← width, pads_of_left left small] at whole
      have behind := padsBehind_of_left left whole.1
      rw [if_pos (by omega)] at behind
      have before : padsBefore (d.read ap) (d.shown ap s) =
          (d.widthValue ap).toNat - d.shown ap s := by omega
      rw [behind, before, padc_of_padsLeft left nonzero valid, StringDirective.field, right,
        List.replicate_zero, List.append_nil]
      rfl
    · have before : padsBefore (d.read ap) (d.shown ap s) = 0 := if_neg left
      have behind : padsBehind (d.read ap) (d.shown ap s) (d.shown ap s) =
          (d.widthValue ap).toNat - d.shown ap s := by omega
      rw [before, behind, List.replicate_zero, List.nil_append, StringDirective.field]
      cases dash : d.dash with
      | false => simp [widthValue_of_not_padsLeft valid nonzero left dash]
      | true => rfl

/-- `%W.Ns` and `%-W.Ns` come out as they should exactly where the precision is not a written
0 and the arithmetic on the width does not wrap. -/
theorem stringField_iff (load : Word → Except Stop Byte) (d : StringDirective) (ap : Arguments)
    (valid : d.Valid ap) (s : List Byte) (string : StringAt load (d.rest ap 0) s) :
    d.Printed load ap s ↔ d.Fits ap s := by
  by_cases zero : d.precision = some (.written 0)
  · rw [printed_iff_of_zero valid string zero, StringDirective.Fits, if_pos zero]
  · rw [printed_iff_of_nonzero valid string zero, pads_iff_fits valid string.length_lt zero]

end Directive

/-- `%5.*s` of `abc` with the precision 2. -/
theorem stringField_iff_star :
    (⟨false, some (.written 5), some .argument⟩ : StringDirective).Printed
      (textMemory 4096 ("abc".toList.map char)) (fun i => if i = 0 then 2 else 4096)
      ("abc".toList.map char) := by
  have string : StringAt (textMemory 4096 ("abc".toList.map char)) 4096
      ("abc".toList.map char) :=
    stringAt_textMemory (by decide) (by decide) (by decide)
  have valid : StringDirective.Valid ⟨false, some (.written 5), some .argument⟩
      (fun i => if i = 0 then 2 else 4096) := by
    refine ⟨by decide, fun value given => ?_⟩
    have two : 2 = value := Option.some.inj given
    rw [← two]
    decide
  have fits : StringDirective.Fits ⟨false, some (.written 5), some .argument⟩
      (fun i => if i = 0 then 2 else 4096) ("abc".toList.map char) := by
    rw [StringDirective.Fits, if_neg (by decide), if_neg (by decide)]
    decide
  exact (stringField_iff _ _ _ valid _ string).mpr fits

/-- `%5.0s` of `ab` prints `000ab`. -/
theorem not_stringField_zero :
    ¬(⟨false, some (.written 5), some (.written 0)⟩ : StringDirective).Printed
      (textMemory 4096 ("ab".toList.map char)) (fun _ => 4096) ("ab".toList.map char) := by
  have zeros : printed (textMemory 4096 ("ab".toList.map char))
      (StringDirective.format ⟨false, some (.written 5), some (.written 0)⟩) (fun _ => 4096) =
      .ok (("000ab".toList.map char).map (BitVec.signExtend 32)) := by decide
  intro padded
  exact absurd (zeros.symm.trans padded) (by decide)

end FosV2
