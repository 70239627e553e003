import FosV2.StringLibrary

/-!
`kbd_proc_data` of `kern/console.c`: scan codes to characters, with one word of shift state.
The code of a key has its top bit set where it came behind an `E0`.
-/

namespace FosV2

def shiftFlag : Word := BitVec.twoPow 32 0
def ctlFlag : Word := BitVec.twoPow 32 1
def altFlag : Word := BitVec.twoPow 32 2
def capsLockFlag : Word := BitVec.twoPow 32 3
def numLockFlag : Word := BitVec.twoPow 32 4
def scrollLockFlag : Word := BitVec.twoPow 32 5
def e0Esc : Word := BitVec.twoPow 32 6

def keyHome : Byte := 0xE0
def keyEnd : Byte := 0xE1
def keyUp : Byte := 0xE2
def keyDn : Byte := 0xE3
def keyLf : Byte := 0xE4
def keyRt : Byte := 0xE5
def keyPgup : Byte := 0xE6
def keyPgdn : Byte := 0xE7
def keyIns : Byte := 0xE8
def keyDel : Byte := 0xE9

def shiftcode (data : Byte) : Word :=
  if data = 0x1D ∨ data = 0x9D then ctlFlag
  else if data = 0x2A ∨ data = 0x36 then shiftFlag
  else if data = 0x38 ∨ data = 0xB8 then altFlag
  else 0

def togglecode (data : Byte) : Word :=
  if data = 0x3A then capsLockFlag
  else if data = 0x45 then numLockFlag
  else if data = 0x46 then scrollLockFlag
  else 0

def charTable (first : List Byte) (designated : List (Byte × Byte)) (data : Byte) : Byte :=
  first.getD data.toNat ((designated.lookup data).getD 0)

def no : Byte := 0

def bytesOf (s : String) : List Byte := s.toList.map char

/-- The keys from 0x37 to 0x57, which `Shift` leaves alone. -/
def keypadRow : List Byte :=
  bytesOf "*" ++ [no] ++ bytesOf " " ++ List.replicate 13 no ++ bytesOf "789-456+1230." ++
    List.replicate 4 no

def movingKeys : List (Byte × Byte) :=
  [(0x97, keyHome), (0xC8, keyUp), (0xC9, keyPgup), (0xCB, keyLf), (0xCD, keyRt), (0xCF, keyEnd),
    (0xD0, keyDn), (0xD1, keyPgdn), (0xD2, keyIns), (0xD3, keyDel)]

def normalmap : Byte → Byte :=
  charTable ([no, 0x1B] ++ bytesOf "1234567890-=" ++ [0x08] ++ bytesOf "\tqwertyuiop[]\n" ++ [no] ++
      bytesOf "asdfghjkl;" ++ [0x27, 0x60, no, 0x5C] ++ bytesOf "zxcvbnm,./" ++ [no] ++ keypadRow)
    ([(0x9C, 0x0A), (0xB5, 0x2F)] ++ movingKeys)

def shiftmap : Byte → Byte :=
  charTable ([no, 0x1B] ++ bytesOf "!@#$%^&*()_+" ++ [0x08] ++ bytesOf "\tQWERTYUIOP" ++
      [0x7B, 0x7D, 0x0A, no] ++ bytesOf "ASDFGHJKL:" ++ [0x22, 0x7E, no, 0x7C] ++
      bytesOf "ZXCVBNM<>?" ++ [no] ++ keypadRow)
    ([(0x9C, 0x0A), (0xB5, 0x2F)] ++ movingKeys)

/-- `C(x)` -/
def control (x : Byte) : Byte := x - 0x40

def ctlmap : Byte → Byte :=
  charTable (List.replicate 16 no ++ (bytesOf "QWERTYUIOP").map control ++ [no, no, 0x0D, no] ++
      (bytesOf "ASDFGHJKL").map control ++ [no, no, no, no, control 0x5C] ++
      (bytesOf "ZXCVBNM").map control ++ [no, no, control 0x2F, no, no])
    ([(0xB5, control 0x2F)] ++ movingKeys)

/-- `charcode[shift & (CTL | SHIFT)]` -/
def charcode (shift : Word) : Byte → Byte :=
  if shift &&& ctlFlag ≠ 0 then ctlmap else if shift &&& shiftFlag ≠ 0 then shiftmap else normalmap

def exchangeCase (c : Word) : Word :=
  if (0x61 : Word).sle c && c.sle 0x7A then c + (0x41 - 0x61)
  else if (0x41 : Word).sle c && c.sle 0x5A then c + (0x61 - 0x41)
  else c

structure KbdResult where
  c : Word
  shift : Word
  rebooting : Bool

/-- Without data there is nothing in the buffer of the controller. -/
def kbdProcData (shift : Word) : Option Byte → KbdResult
  | none => ⟨-1, shift, false⟩
  | some data =>
      if data = 0xE0 then ⟨0, shift ||| e0Esc, false⟩
      else if data &&& 0x80 ≠ 0 then
        let data := if shift &&& e0Esc ≠ 0 then data else data &&& 0x7F
        ⟨0, shift &&& ~~~(shiftcode data ||| e0Esc), false⟩
      else
        let (data, shift) := if shift &&& e0Esc ≠ 0 then (data ||| 0x80, shift &&& ~~~e0Esc)
          else (data, shift)
        let shift := shift ||| shiftcode data
        let shift := shift ^^^ togglecode data
        let c := (charcode shift data).setWidth 32
        let c := if shift &&& capsLockFlag ≠ 0 then exchangeCase c else c
        ⟨c, shift, decide (~~~shift &&& (ctlFlag ||| altFlag) = 0) &&
          decide (c = keyDel.setWidth 32)⟩

example : (kbdProcData shiftFlag (some 0x1E)).c = (char 'A').setWidth 32 := by decide

def shiftBehind (shift : Word) (bytes : List Byte) : Word :=
  bytes.foldl (fun shift data => (kbdProcData shift (some data)).shift) shift

/-! ## The keys -/

/-- A key with its code; the release of `0x60` would be an `E0`. -/
structure ScanKey where
  extended : Bool
  code : BitVec 7
  notEscape : code ≠ 0x60
  deriving DecidableEq

namespace ScanKey

variable (key : ScanKey)

def pressed : Byte := key.code.setWidth 8

def released : Byte := 0x80 ||| key.code.setWidth 8

def index : Byte := if key.extended then 0x80 ||| key.code.setWidth 8 else key.code.setWidth 8

def escape : List Byte := if key.extended then [0xE0] else []

end ScanKey

/-! ## One byte -/

section Bytes

variable {shift : Word} {data : Byte} {i : Nat}

theorem flag_ne_zero_iff (small : i < 32) :
    shift &&& BitVec.twoPow 32 i ≠ 0 ↔ shift.getLsbD i = true := by
  rw [BitVec.and_twoPow]
  cases shift.getLsbD i with
  | false => exact iff_of_false (fun same => same rfl) Bool.false_ne_true
  | true =>
      refine iff_of_true (fun zero => ?_) rfl
      have bit : (BitVec.twoPow 32 i).getLsbD i = true := by simp [small]
      rw [if_pos rfl] at zero
      rw [zero] at bit
      simp at bit

theorem e0Esc_bit (i : Nat) : e0Esc.getLsbD i = decide (i = 6) := by
  rw [e0Esc, BitVec.getLsbD_twoPow]
  simp only [eq_comm, Nat.reduceLT, decide_true, Bool.true_and]

theorem escaped_bit (shift : Word) : (shift ||| e0Esc).getLsbD 6 = true := by
  rw [BitVec.getLsbD_or, e0Esc_bit]
  exact Bool.or_true _

/-- Only the lock keys have a toggle code. -/
theorem togglecode_bit (data : Byte) (other : i < 3 ∨ i = 6) :
    (togglecode data).getLsbD i = false := by
  have all : ∀ data : Byte, (togglecode data).getLsbD 0 = false ∧
      (togglecode data).getLsbD 1 = false ∧ (togglecode data).getLsbD 2 = false ∧
      (togglecode data).getLsbD 6 = false := by decide
  obtain ⟨zero, one, two, six⟩ := all data
  rcases other with below | rfl
  · rcases (by omega : i = 0 ∨ i = 1 ∨ i = 2) with rfl | rfl | rfl <;> assumption
  · exact six

theorem shiftcode_escape (data : Byte) : (shiftcode data).getLsbD 6 = false := by
  revert data
  decide

theorem kbdProcData_release (other : data ≠ 0xE0) (top : data &&& 0x80 ≠ 0) :
    (kbdProcData shift (some data)).shift = shift &&&
      ~~~(shiftcode (if shift.getLsbD 6 then data else data &&& 0x7F) ||| e0Esc) := by
  have escaped : (shift &&& e0Esc ≠ 0) = (shift.getLsbD 6 = true) :=
    propext (flag_ne_zero_iff (by decide))
  rw [kbdProcData, if_neg other, if_pos top]
  simp only [escaped]

theorem kbdProcData_press (other : data ≠ 0xE0) (top : data &&& 0x80 = 0) :
    (kbdProcData shift (some data)).shift =
      if shift.getLsbD 6 then ((shift &&& ~~~e0Esc) ||| shiftcode (data ||| 0x80)) ^^^
        togglecode (data ||| 0x80)
      else (shift ||| shiftcode data) ^^^ togglecode data := by
  have escaped : (shift &&& e0Esc ≠ 0) = (shift.getLsbD 6 = true) :=
    propext (flag_ne_zero_iff (by decide))
  rw [kbdProcData, if_neg other, if_neg (not_not.mpr top)]
  simp only [escaped]
  split <;> rfl

end Bytes

/-! ## One key -/

namespace ScanKey

variable {shift : Word} (key : ScanKey)

theorem codes : key.pressed ≠ 0xE0 ∧ key.pressed &&& 0x80 = 0 ∧ key.released ≠ 0xE0 ∧
    key.released &&& 0x80 ≠ 0 ∧ key.pressed ||| 0x80 = key.released ∧
    key.released &&& 0x7F = key.pressed := by
  have all : ∀ code : BitVec 7, code ≠ 0x60 → code.setWidth 8 ≠ (0xE0 : Byte) ∧
      code.setWidth 8 &&& (0x80 : Byte) = 0 ∧ (0x80 : Byte) ||| code.setWidth 8 ≠ 0xE0 ∧
      ((0x80 : Byte) ||| code.setWidth 8) &&& 0x80 ≠ 0 ∧
      code.setWidth 8 ||| (0x80 : Byte) = 0x80 ||| code.setWidth 8 ∧
      ((0x80 : Byte) ||| code.setWidth 8) &&& 0x7F = code.setWidth 8 := by decide
  exact all key.code key.notEscape

theorem bytes_plain (plain : key.extended = false) :
    key.escape = [] ∧ key.index = key.pressed := by
  rw [escape, index, plain]
  exact ⟨rfl, rfl⟩

theorem bytes_extended (extended : key.extended = true) :
    key.escape = [0xE0] ∧ key.index = key.released := by
  rw [escape, index, extended]
  exact ⟨rfl, rfl⟩

theorem shiftBehind_press (clear : shift.getLsbD 6 = false) :
    shiftBehind shift (key.escape ++ [key.pressed]) =
      (shift ||| shiftcode key.index) ^^^ togglecode key.index := by
  obtain ⟨other, top, _, _, index, _⟩ := key.codes
  cases prefixed : key.extended with
  | false =>
      obtain ⟨none, plain⟩ := key.bytes_plain prefixed
      rw [none, plain]
      exact (kbdProcData_press other top).trans (by rw [clear]; rfl)
  | true =>
      obtain ⟨one, extended⟩ := key.bytes_extended prefixed
      have undone : (shift ||| e0Esc) &&& ~~~e0Esc = shift := by
        apply BitVec.eq_of_getLsbD_eq
        intro i inside
        rw [BitVec.getLsbD_and, BitVec.getLsbD_or, BitVec.getLsbD_not, e0Esc_bit]
        by_cases six : i = 6
        · rw [six, clear]
          rfl
        · simp [six, inside]
      rw [one, extended]
      refine (@kbdProcData_press (shift ||| e0Esc) _ other top).trans ?_
      rw [escaped_bit, if_pos rfl, undone, index]

theorem shiftBehind_release (clear : shift.getLsbD 6 = false) :
    shiftBehind shift (key.escape ++ [key.released]) =
      shift &&& ~~~(shiftcode key.index ||| e0Esc) := by
  obtain ⟨_, _, other, top, _, masked⟩ := key.codes
  cases prefixed : key.extended with
  | false =>
      obtain ⟨none, plain⟩ := key.bytes_plain prefixed
      rw [none, plain]
      refine (kbdProcData_release other top).trans ?_
      rw [clear, masked]
      rfl
  | true =>
      obtain ⟨one, extended⟩ := key.bytes_extended prefixed
      rw [one, extended]
      refine (@kbdProcData_release (shift ||| e0Esc) _ other top).trans ?_
      rw [escaped_bit, if_pos rfl]
      apply BitVec.eq_of_getLsbD_eq
      intro i inside
      simp only [BitVec.getLsbD_and, BitVec.getLsbD_or, BitVec.getLsbD_not, e0Esc_bit]
      by_cases six : i = 6 <;> simp [six]

theorem press_bit (clear : shift.getLsbD 6 = false) {i : Nat} (other : i < 3 ∨ i = 6) :
    (shiftBehind shift (key.escape ++ [key.pressed])).getLsbD i =
      (shift.getLsbD i || (shiftcode key.index).getLsbD i) := by
  rw [key.shiftBehind_press clear, BitVec.getLsbD_xor, BitVec.getLsbD_or, togglecode_bit _ other,
    Bool.xor_false]

theorem release_bit (clear : shift.getLsbD 6 = false) {i : Nat} (other : i < 3) :
    (shiftBehind shift (key.escape ++ [key.released])).getLsbD i =
      (shift.getLsbD i && !(shiftcode key.index).getLsbD i) := by
  have notEscape : decide (i = 6) = false := decide_eq_false (by omega)
  rw [key.shiftBehind_release clear, BitVec.getLsbD_and, BitVec.getLsbD_not, BitVec.getLsbD_or,
    e0Esc_bit, notEscape, Bool.or_false, decide_eq_true (by omega : i < 32), Bool.true_and]

theorem release_escape (clear : shift.getLsbD 6 = false) :
    (shiftBehind shift (key.escape ++ [key.released])).getLsbD 6 = false := by
  rw [key.shiftBehind_release clear, BitVec.getLsbD_and, clear, Bool.false_and]

end ScanKey

end FosV2
