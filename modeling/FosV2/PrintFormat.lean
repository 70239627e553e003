import FosV2.MemoryManagerCore
import FosV2.StringLibrary
import Mathlib.Tactic.SplitIfs

/-!
The formatted printing of `lib/printfmt.c`, shared by the kernel and the user programs. A
format is a string with its terminating NUL; the pointer into it moves forward over an
escape and back again when the escape is not recognised. The words on the stack from the
first variable argument on are a stream. `putch` is any function on the data behind `putdat`.
-/

namespace FosV2

/-- A pointer into a string: the bytes before it, the nearest one first, and those from it on. -/
structure Cursor where
  before : List Byte
  after : List Byte

namespace Cursor

def ofString (s : List Byte) : Cursor := ⟨[], s ++ [0]⟩

/-- `*fmt++` -/
def next (fmt : Cursor) : Except Stop (Byte × Cursor) :=
  match fmt.after with
  | [] => .error .outsideString
  | ch :: rest => .ok (ch, ⟨ch :: fmt.before, rest⟩)

/-- `fmt--` -/
def back (fmt : Cursor) : Except Stop Cursor :=
  match fmt.before with
  | [] => .error .outsideString
  | ch :: rest => .ok ⟨rest, ch :: fmt.after⟩

/-- `for (; fmt[-1] != '%'; fmt--)` -/
def backToPercent : List Byte → List Byte → Except Stop Cursor
  | [], _ => .error .outsideString
  | ch :: before, after =>
      if ch = char '%' then .ok ⟨ch :: before, after⟩
      else backToPercent before (ch :: after)

end Cursor

abbrev Arguments := Nat → Word

def Arguments.rest (ap : Arguments) : Arguments := fun i => ap (i + 1)

structure Escape where
  padc : Byte
  width : Word
  precision : Word
  lflag : Word
  altflag : Bool

def Escape.start : Escape := ⟨char ' ', -1, -1, 0, false⟩

def Escape.processPrecision (escape : Escape) : Escape :=
  if escape.width.toInt < 0 then
    { escape with width := escape.precision, precision := -1 }
  else escape

/-- The loop over the digits of a number in the format; `ch` is the digit just read. -/
def readNumber (precision : Word) (ch : Byte) (before : List Byte) :
    List Byte → Except Stop (Word × Cursor)
  | [] => .error .outsideString
  | next :: rest =>
      let precision := precision * 10 + (ch - char '0').setWidth 32
      if isBetween (char '0') (char '9') next then
        readNumber precision next (next :: before) rest
      else .ok (precision, ⟨before, next :: rest⟩)

/-- From `reswitch` to the character that ends the escape. -/
def reswitch : Nat → Cursor → Arguments → Escape →
    Except Stop (Byte × Cursor × Arguments × Escape)
  | 0, _, _, _ => .error .endlessLoop
  | fuel + 1, fmt, ap, escape => do
      let (ch, fmt) ← fmt.next
      if ch = char '-' then reswitch fuel fmt ap { escape with padc := char '-' }
      else if ch = char '0' then reswitch fuel fmt ap { escape with padc := char '0' }
      else if isBetween (char '1') (char '9') ch then
        let (precision, fmt) ← readNumber 0 ch fmt.before fmt.after
        reswitch fuel fmt ap { escape with precision := precision }.processPrecision
      else if ch = char '*' then
        reswitch fuel fmt ap.rest { escape with precision := ap 0 }.processPrecision
      else if ch = char '.' then
        if escape.width.toInt < 0 then reswitch fuel fmt ap { escape with width := 0 }
        else reswitch fuel fmt ap escape
      else if ch = char '#' then reswitch fuel fmt ap { escape with altflag := true }
      else if ch = char 'l' then reswitch fuel fmt ap { escape with lflag := escape.lflag + 1 }
      else return (ch, fmt, ap, escape)

/-- `va_arg(ap, unsigned long long)`, the low word first -/
def Arguments.longLong (ap : Arguments) : BitVec 64 := ap 1 ++ ap 0

def getuint (ap : Arguments) (lflag : Word) : BitVec 64 × Arguments :=
  if 2 ≤ lflag.toInt then (ap.longLong, ap.rest.rest)
  else ((ap 0).setWidth 64, ap.rest)

def getint (ap : Arguments) (lflag : Word) : BitVec 64 × Arguments :=
  if 2 ≤ lflag.toInt then (ap.longLong, ap.rest.rest)
  else ((ap 0).signExtend 64, ap.rest)

abbrev Text := Nat → Except Stop Byte

def literal (s : List Byte) : Text := fun i => .ok (s.getD i 0)

def nullText : List Byte := [0x28, 0x6E, 0x75, 0x6C, 0x6C, 0x29]

def textAt (load : Word → Except Stop Byte) (p : Word) : Text :=
  if p = 0 then literal nullText else fun i => load (p + BitVec.ofNat 32 i)

/-- The first argument is the `size` that is left. -/
def strnlen (text : Text) : Nat → Nat → Except Stop Nat
  | 0, n => .ok n
  | size + 1, n => do
      let ch ← text n
      if ch = 0 then return n
      else strnlen text size (n + 1)

def maxError : Word := 7

/-- `error_string`; the last entry is not initialized, hence null. -/
def errorString : List (Option (List Byte)) :=
  [none, some ("unspecified error".toList.map char), some ("bad environment".toList.map char),
    some ("invalid parameter".toList.map char), some ("out of memory".toList.map char),
    some ("out of environments".toList.map char), some ("segmentation fault".toList.map char),
    none]

theorem mem_errorString {i : Nat} {p : List Byte} (entry : errorString.getD i none = some p) :
    some p ∈ errorString := by
  rw [List.getD_eq_getElem?_getD] at entry
  cases found : errorString[i]? with
  | none =>
      rw [found] at entry
      cases entry
  | some entry' =>
      rw [found] at entry
      exact entry ▸ List.mem_of_getElem? found

section Printing

variable {σ : Type} (putch : σ → Word → σ)

/-- `for (; width > 0; width--) putch(padc, putdat);` -/
def putPadding (width : Word) (padc : Byte) (putdat : σ) : σ :=
  Nat.repeat (fun putdat => putch putdat (padc.signExtend 32)) width.toInt.toNat putdat

def hexDigits : List Byte := "0123456789abcdef".toList.map char

/-- The fuel is at least the number of digits. -/
def printnum : Nat → BitVec 64 → BitVec 64 → Word → Byte → σ → Except Stop σ
  | 0, _, _, _, _, _ => .error .endlessLoop
  | fuel + 1, num, base, width, padc, putdat =>
      let before :=
        if base ≤ num then printnum fuel (num / base) base (width - 1) padc putdat
        else .ok (putPadding putch (width - 1) padc putdat)
      (putch · ((hexDigits.getD (num % base).toNat 0).signExtend 32)) <$> before

/-- The loop over the characters of a string. What is left of the width comes back. -/
def putText (text : Text) (altflag : Bool) :
    Nat → Nat → Word → Word → σ → Except Stop (Word × σ)
  | 0, _, _, _, _ => .error .endlessLoop
  | fuel + 1, i, precision, width, putdat => do
      let ch ← text i
      if ch = 0 then return (width, putdat)
      else if precision.toInt < 0 ∨ 0 ≤ (precision - 1).toInt then
        let precision := if precision.toInt < 0 then precision else precision - 1
        let shown := if altflag ∧ ¬isBetween (char ' ') (char '~') ch then char '?' else ch
        putText text altflag fuel (i + 1) precision (width - 1)
          (putch putdat (shown.signExtend 32))
      else return (width, putdat)

def padText (text : Text) (escape : Escape) (putdat : σ) : Except Stop (Word × σ) :=
  if 0 < escape.width.toInt ∧ escape.padc ≠ char '-' then do
    let length ← strnlen text escape.precision.toNat 0
    let width := escape.width - BitVec.ofNat 32 length
    return (if 0 < width.toInt then 0 else width, putPadding putch width escape.padc putdat)
  else .ok (escape.width, putdat)

/-- A string without a NUL would fill the address space. -/
def textFuel : Nat := 2 ^ 32

/-- `case 's'` -/
def putString (text : Text) (escape : Escape) (putdat : σ) : Except Stop σ := do
  let (width, putdat) ← padText putch text escape putdat
  let (width, putdat) ←
    putText putch text escape.altflag textFuel 0 escape.precision width putdat
  return putPadding putch width (char ' ') putdat

/-- `number` -/
def putNumber (num base : BitVec 64) (escape : Escape) (putdat : σ) : Except Stop σ :=
  printnum putch 64 num base escape.width escape.padc putdat

/-- `case 'd'` -/
def putSigned (num : BitVec 64) (escape : Escape) (putdat : σ) : Except Stop σ :=
  if num.toInt < 0 then
    putNumber putch (-num) 10 escape (putch putdat ((char '-').signExtend 32))
  else putNumber putch num 10 escape putdat

/-- `case 'e'`. `-err` may still be negative; the table index is then a multiple of 2^30. -/
def putError (printfmt : List Byte → Arguments → σ → Except Stop σ) (err : Word) (putdat : σ) :
    Except Stop σ :=
  let err := if err.toInt < 0 then -err else err
  let entry := (errorString.getD (err <<< 2 >>> 2).toNat none)
  match if maxError.toInt < err.toInt then none else entry with
  | none => printfmt ("error %d".toList.map char) (fun _ => err) putdat
  | some p => putString putch (literal p) .start putdat

def convert (load : Word → Except Stop Byte)
    (printfmt : List Byte → Arguments → σ → Except Stop σ) (ch : Byte) (fmt : Cursor)
    (ap : Arguments) (escape : Escape) (putdat : σ) : Except Stop (Cursor × Arguments × σ) :=
  if ch = char 'c' then .ok (fmt, ap.rest, putch putdat (ap 0))
  else if ch = char 'e' then do
    let putdat ← putError putch printfmt (ap 0) putdat
    return (fmt, ap.rest, putdat)
  else if ch = char 's' then do
    let putdat ← putString putch (textAt load (ap 0)) escape putdat
    return (fmt, ap.rest, putdat)
  else if ch = char 'd' then do
    let (num, ap) := getint ap escape.lflag
    let putdat ← putSigned putch num escape putdat
    return (fmt, ap, putdat)
  else if ch = char 'u' then do
    let (num, ap) := getuint ap escape.lflag
    let putdat ← putNumber putch num 10 escape putdat
    return (fmt, ap, putdat)
  else if ch = char 'o' then
    let x : Word := (char 'X').signExtend 32
    .ok (fmt, ap, putch (putch (putch putdat x) x) x)
  else if ch = char 'p' then do
    let putdat := putch putdat ((char '0').signExtend 32)
    let putdat := putch putdat ((char 'x').signExtend 32)
    let putdat ← putNumber putch ((ap 0).setWidth 64) 16 escape putdat
    return (fmt, ap.rest, putdat)
  else if ch = char 'x' then do
    let (num, ap) := getuint ap escape.lflag
    let putdat ← putNumber putch num 16 escape putdat
    return (fmt, ap, putdat)
  else if ch = char '%' then .ok (fmt, ap, putch putdat (ch.setWidth 32))
  else do
    let fmt ← fmt.back
    let fmt ← Cursor.backToPercent fmt.before fmt.after
    return (fmt, ap, putch putdat ((char '%').signExtend 32))

def printEscapes (load : Word → Except Stop Byte)
    (printfmt : List Byte → Arguments → σ → Except Stop σ) :
    Nat → Cursor → Arguments → σ → Except Stop σ
  | 0, _, _, _ => .error .endlessLoop
  | fuel + 1, fmt, ap, putdat => do
      let (ch, fmt) ← fmt.next
      if ch ≠ char '%' then
        if ch = 0 then return putdat
        else printEscapes load printfmt fuel fmt ap (putch putdat (ch.setWidth 32))
      else
        let (ch, fmt, ap, escape) ← reswitch fmt.after.length fmt ap .start
        let (fmt, ap, putdat) ← convert putch load printfmt ch fmt ap escape putdat
        printEscapes load printfmt fuel fmt ap putdat

def printFormat (load : Word → Except Stop Byte)
    (printfmt : List Byte → Arguments → σ → Except Stop σ) (fmt : List Byte) (ap : Arguments)
    (putdat : σ) : Except Stop σ :=
  printEscapes putch load printfmt (fmt.length + 1) (.ofString fmt) ap putdat

/-- `printfmt`, called for `%e` only and with a format that has no `%e`. -/
def printfmt (load : Word → Except Stop Byte) (fmt : List Byte) (ap : Arguments) (putdat : σ) :
    Except Stop σ :=
  printFormat putch load (fun _ _ _ => .error .endlessLoop) fmt ap putdat

def vprintfmt (load : Word → Except Stop Byte) (fmt : List Byte) (ap : Arguments) (putdat : σ) :
    Except Stop σ :=
  printFormat putch load (printfmt putch load) fmt ap putdat

end Printing

/-! One escape at a time -/

section Escapes

variable {σ : Type} {putch : σ → Word → σ} {load : Word → Except Stop Byte}
  {nested : List Byte → Arguments → σ → Except Stop σ} {fuel : Nat} {before rest : List Byte}
  {fmt : Cursor} {ap ap' : Arguments} {ch : Byte} {escape : Escape} {putdat : σ}

theorem printEscapes_nul :
    printEscapes putch load nested (fuel + 1) ⟨before, 0 :: rest⟩ ap putdat = .ok putdat := by
  have literal : (0 : Byte) ≠ char '%' := by decide
  rw [printEscapes, Cursor.next, ok_bind]
  exact (if_pos literal).trans (if_pos rfl)

theorem printEscapes_literal (literal : ch ≠ char '%') (some : ch ≠ 0) :
    printEscapes putch load nested (fuel + 1) ⟨before, ch :: rest⟩ ap putdat =
      printEscapes putch load nested fuel ⟨ch :: before, rest⟩ ap
        (putch putdat (ch.setWidth 32)) := by
  rw [printEscapes, Cursor.next, ok_bind]
  exact (if_pos literal).trans (if_neg some)

theorem printEscapes_escape
    (reached : reswitch rest.length ⟨char '%' :: before, rest⟩ ap .start =
      .ok (ch, fmt, ap', escape)) :
    printEscapes putch load nested (fuel + 1) ⟨before, char '%' :: rest⟩ ap putdat = (do
      let (fmt, ap, putdat) ← convert putch load nested ch fmt ap' escape putdat
      printEscapes putch load nested fuel fmt ap putdat) := by
  rw [printEscapes, Cursor.next, ok_bind]
  refine (if_neg (not_not.mpr rfl)).trans ?_
  rw [reached, ok_bind]

theorem convert_string : convert putch load nested (char 's') fmt ap escape putdat = (do
    let putdat ← putString putch (textAt load (ap 0)) escape putdat
    return (fmt, ap.rest, putdat)) := by
  rw [convert, if_neg (by decide), if_neg (by decide), if_pos rfl]

theorem convert_decimal : convert putch load nested (char 'd') fmt ap escape putdat = (do
    let (num, ap) := getint ap escape.lflag
    let putdat ← putSigned putch num escape putdat
    return (fmt, ap, putdat)) := by
  rw [convert, if_neg (by decide), if_neg (by decide), if_neg (by decide), if_pos rfl]

theorem convert_unsigned : convert putch load nested (char 'u') fmt ap escape putdat = (do
    let (num, ap) := getuint ap escape.lflag
    let putdat ← putNumber putch num 10 escape putdat
    return (fmt, ap, putdat)) := by
  rw [convert, if_neg (by decide), if_neg (by decide), if_neg (by decide), if_neg (by decide),
    if_pos rfl]

theorem convert_pointer : convert putch load nested (char 'p') fmt ap escape putdat = (do
    let putdat := putch putdat ((char '0').signExtend 32)
    let putdat := putch putdat ((char 'x').signExtend 32)
    let putdat ← putNumber putch ((ap 0).setWidth 64) 16 escape putdat
    return (fmt, ap.rest, putdat)) := by
  rw [convert, if_neg (by decide), if_neg (by decide), if_neg (by decide), if_neg (by decide),
    if_neg (by decide), if_neg (by decide), if_pos rfl]

theorem convert_hexadecimal : convert putch load nested (char 'x') fmt ap escape putdat = (do
    let (num, ap) := getuint ap escape.lflag
    let putdat ← putNumber putch num 16 escape putdat
    return (fmt, ap, putdat)) := by
  rw [convert, if_neg (by decide), if_neg (by decide), if_neg (by decide), if_neg (by decide),
    if_neg (by decide), if_neg (by decide), if_neg (by decide), if_pos rfl]

theorem vprintfmt_escape (rest : List Byte) {result : Except Stop σ} {last : Arguments}
    (reached : reswitch (rest.length + 1) ⟨[char '%'], rest ++ [0]⟩ ap .start =
      .ok (ch, ⟨before, [0]⟩, ap', escape))
    (converted : convert putch load (printfmt putch load) ch ⟨before, [0]⟩ ap' escape putdat =
      (do
        let putdat ← result
        return (⟨before, [0]⟩, last, putdat))) :
    vprintfmt putch load (char '%' :: rest) ap putdat = result := by
  have length : (rest ++ [0]).length = rest.length + 1 := by simp
  rw [← length] at reached
  rw [vprintfmt, printFormat, Cursor.ofString, List.length_cons, List.cons_append,
    printEscapes_escape reached, converted]
  cases result with
  | error stop => rfl
  | ok putdat =>
      change printEscapes putch load (printfmt putch load) (rest.length + 1) ⟨before, [0]⟩ last
        putdat = .ok putdat
      exact printEscapes_nul

end Escapes

/-! Printing does not depend on where the characters go. -/

section Naturality

variable {σ τ : Type} {putch : σ → Word → σ} {putch' : τ → Word → τ} {h : σ → τ}

theorem putPadding_map (commutes : ∀ putdat ch, h (putch putdat ch) = putch' (h putdat) ch)
    (width : Word) (padc : Byte) (putdat : σ) :
    h (putPadding putch width padc putdat) = putPadding putch' width padc (h putdat) := by
  rw [putPadding, putPadding]
  induction width.toInt.toNat generalizing putdat with
  | zero => rfl
  | succ count ih => rw [Nat.repeat, Nat.repeat, commutes, ih]

theorem printnum_map (commutes : ∀ putdat ch, h (putch putdat ch) = putch' (h putdat) ch)
    (fuel : Nat) (num base : BitVec 64) (width : Word) (padc : Byte) (putdat : σ) :
    h <$> printnum putch fuel num base width padc putdat =
      printnum putch' fuel num base width padc (h putdat) := by
  induction fuel generalizing num width with
  | zero => rfl
  | succ fuel ih =>
      simp only [printnum, Functor.map_map, commutes]
      split
      · rw [← ih, Functor.map_map]
      · rw [← putPadding_map commutes]
        rfl

theorem putText_map (commutes : ∀ putdat ch, h (putch putdat ch) = putch' (h putdat) ch)
    (text : Text) (altflag : Bool) (fuel i : Nat) (precision width : Word) (putdat : σ) :
    Prod.map id h <$> putText putch text altflag fuel i precision width putdat =
      putText putch' text altflag fuel i precision width (h putdat) := by
  induction fuel generalizing i precision width putdat with
  | zero => rfl
  | succ fuel ih =>
      rw [putText, putText, map_bind]
      congr 1
      funext ch
      split
      · rfl
      · simp only [← commutes, ← ih]
        split_ifs <;> rfl

theorem padText_map (commutes : ∀ putdat ch, h (putch putdat ch) = putch' (h putdat) ch)
    (text : Text) (escape : Escape) (putdat : σ) :
    Prod.map id h <$> padText putch text escape putdat = padText putch' text escape (h putdat) := by
  rw [padText, padText]
  split
  · simp only [map_bind, map_pure, Prod.map_apply, id, putPadding_map commutes]
  · rfl

theorem putString_map (commutes : ∀ putdat ch, h (putch putdat ch) = putch' (h putdat) ch)
    (text : Text) (escape : Escape) (putdat : σ) :
    h <$> putString putch text escape putdat = putString putch' text escape (h putdat) := by
  rw [putString, putString, ← padText_map commutes, map_bind, bind_map_left]
  congr 1
  funext padded
  obtain ⟨width, putdat⟩ := padded
  simp only [Prod.map_apply, id, ← putText_map commutes, map_bind, bind_map_left]
  congr 1
  funext shown
  obtain ⟨left, putdat⟩ := shown
  simp only [Prod.map_apply, id, map_pure, putPadding_map commutes]

theorem putNumber_map (commutes : ∀ putdat ch, h (putch putdat ch) = putch' (h putdat) ch)
    (num base : BitVec 64) (escape : Escape) (putdat : σ) :
    h <$> putNumber putch num base escape putdat = putNumber putch' num base escape (h putdat) :=
  printnum_map commutes _ _ _ _ _ _

theorem putSigned_map (commutes : ∀ putdat ch, h (putch putdat ch) = putch' (h putdat) ch)
    (num : BitVec 64) (escape : Escape) (putdat : σ) :
    h <$> putSigned putch num escape putdat = putSigned putch' num escape (h putdat) := by
  rw [putSigned, putSigned, ← commutes]
  split
  · exact putNumber_map commutes _ _ _ _
  · exact putNumber_map commutes _ _ _ _

variable {printfmt : List Byte → Arguments → σ → Except Stop σ}
  {printfmt' : List Byte → Arguments → τ → Except Stop τ}

theorem putError_map (commutes : ∀ putdat ch, h (putch putdat ch) = putch' (h putdat) ch)
    (nested : ∀ fmt ap putdat, h <$> printfmt fmt ap putdat = printfmt' fmt ap (h putdat))
    (err : Word) (putdat : σ) :
    h <$> putError putch printfmt err putdat = putError putch' printfmt' err (h putdat) := by
  simp only [putError]
  split
  · exact nested _ _ _
  · exact putString_map commutes _ _ _

theorem map_ite_congr {α β : Type} {f : α → β} {c : Prop} [Decidable c] {x y : Except Stop α}
    {x' y' : Except Stop β} (taken : f <$> x = x') (other : f <$> y = y') :
    f <$> (if c then x else y) = if c then x' else y' := by
  split
  · exact taken
  · exact other

theorem map_convert {x : Except Stop σ} {y : Except Stop τ} (printed : h <$> x = y)
    (fmt : Cursor) (ap : Arguments) :
    Prod.map id (Prod.map id h) <$> (do
      let putdat ← x
      return (fmt, ap, putdat)) = (do
      let putdat ← y
      return (fmt, ap, putdat)) := by
  rw [← printed, map_bind, bind_map_left]
  rfl

theorem convert_map (commutes : ∀ putdat ch, h (putch putdat ch) = putch' (h putdat) ch)
    (nested : ∀ fmt ap putdat, h <$> printfmt fmt ap putdat = printfmt' fmt ap (h putdat))
    (load : Word → Except Stop Byte) (ch : Byte) (fmt : Cursor) (ap : Arguments)
    (escape : Escape) (putdat : σ) :
    Prod.map id (Prod.map id h) <$> convert putch load printfmt ch fmt ap escape putdat =
      convert putch' load printfmt' ch fmt ap escape (h putdat) := by
  have written : ∀ (fmt : Cursor) (ap : Arguments) (ch : Word),
      Prod.map id (Prod.map id h) <$> (.ok (fmt, ap, putch putdat ch) : Except Stop _) =
        .ok (fmt, ap, putch' (h putdat) ch) := by
    intro fmt ap ch
    rw [map_ok, ← commutes]
    rfl
  rw [convert, convert]
  apply map_ite_congr
  case taken => exact written fmt ap.rest (ap 0)
  apply map_ite_congr
  case taken => exact map_convert (putError_map commutes nested _ _) fmt ap.rest
  apply map_ite_congr
  case taken => exact map_convert (putString_map commutes _ _ _) fmt ap.rest
  apply map_ite_congr
  case taken => exact map_convert (putSigned_map commutes _ _ _) fmt _
  apply map_ite_congr
  case taken => exact map_convert (putNumber_map commutes _ _ _ _) fmt _
  apply map_ite_congr
  case taken =>
    simp only [← commutes]
    rfl
  apply map_ite_congr
  case taken =>
    simp only [← commutes]
    exact map_convert (putNumber_map commutes _ _ _ _) fmt ap.rest
  apply map_ite_congr
  case taken => exact map_convert (putNumber_map commutes _ _ _ _) fmt _
  apply map_ite_congr
  case taken => exact written fmt ap (ch.setWidth 32)
  rw [map_bind]
  congr 1
  funext back
  rw [map_bind]
  congr 1
  funext percent
  exact written percent ap ((char '%').signExtend 32)

theorem printEscapes_map (commutes : ∀ putdat ch, h (putch putdat ch) = putch' (h putdat) ch)
    (nested : ∀ fmt ap putdat, h <$> printfmt fmt ap putdat = printfmt' fmt ap (h putdat))
    (load : Word → Except Stop Byte) (fuel : Nat) (fmt : Cursor) (ap : Arguments) (putdat : σ) :
    h <$> printEscapes putch load printfmt fuel fmt ap putdat =
      printEscapes putch' load printfmt' fuel fmt ap (h putdat) := by
  induction fuel generalizing fmt ap putdat with
  | zero => rfl
  | succ fuel ih =>
      rw [printEscapes, printEscapes, map_bind]
      congr 1
      funext first
      obtain ⟨ch, fmt⟩ := first
      dsimp only
      split_ifs
      · rfl
      · rw [ih, commutes]
      · rw [map_bind]
        congr 1
        funext reached
        obtain ⟨ch, fmt, ap, escape⟩ := reached
        dsimp only
        rw [← convert_map commutes nested, map_bind, bind_map_left]
        congr 1
        funext converted
        exact ih _ _ _

theorem printFormat_map (commutes : ∀ putdat ch, h (putch putdat ch) = putch' (h putdat) ch)
    (nested : ∀ fmt ap putdat, h <$> printfmt fmt ap putdat = printfmt' fmt ap (h putdat))
    (load : Word → Except Stop Byte) (fmt : List Byte) (ap : Arguments) (putdat : σ) :
    h <$> printFormat putch load printfmt fmt ap putdat =
      printFormat putch' load printfmt' fmt ap (h putdat) :=
  printEscapes_map commutes nested _ _ _ _ _

theorem vprintfmt_map (commutes : ∀ putdat ch, h (putch putdat ch) = putch' (h putdat) ch)
    (load : Word → Except Stop Byte) (fmt : List Byte) (ap : Arguments) (putdat : σ) :
    h <$> vprintfmt putch load fmt ap putdat = vprintfmt putch' load fmt ap (h putdat) := by
  apply printFormat_map commutes
  intro fmt ap putdat
  apply printFormat_map commutes
  exact fun _ _ _ => rfl

end Naturality

def record (chars : List Word) (ch : Word) : List Word := chars ++ [ch]

theorem foldl_record (chars before : List Word) : chars.foldl record before = before ++ chars := by
  induction chars generalizing before with
  | nil => exact (List.append_nil before).symm
  | cons ch rest ih => rw [List.foldl_cons, ih, record, List.append_assoc, List.singleton_append]

def printed (load : Word → Except Stop Byte) (fmt : List Byte) (ap : Arguments) :
    Except Stop (List Word) :=
  vprintfmt record load fmt ap []

theorem vprintfmt_eq_printed {σ : Type} (putch : σ → Word → σ) (load : Word → Except Stop Byte)
    (fmt : List Byte) (ap : Arguments) (putdat : σ) :
    vprintfmt putch load fmt ap putdat =
      (fun chars => chars.foldl putch putdat) <$> printed load fmt ap := by
  have commutes : ∀ (chars : List Word) (ch : Word),
      (record chars ch).foldl putch putdat = putch (chars.foldl putch putdat) ch := by
    intro chars ch
    rw [record, List.foldl_append, List.foldl_cons, List.foldl_nil]
  have natural := vprintfmt_map commutes load fmt ap []
  exact natural.symm

end FosV2
