import FosV2.MemoryLayout

/-!
`strtol` of `lib/string.c`, and strings in memory. A string is the list of its bytes up to the
terminating NUL, and what remains of it behind a pointer is the rest of that list.
-/

namespace FosV2

abbrev Byte := BitVec 8

def char (c : Char) : Byte := BitVec.ofNat 8 c.toNat

/-- `*s >= from && *s <= to`, where `char` is signed -/
def isBetween (first last c : Byte) : Bool := first.sle c && c.sle last

/-- The value of a digit, or `none` where the loop over the digits is left. -/
def digitValue (c : Byte) : Option Nat :=
  if isBetween (char '0') (char '9') c then some (c - char '0').toNat
  else if isBetween (char 'a') (char 'z') c then some ((c - char 'a').toNat + 10)
  else if isBetween (char 'A') (char 'Z') c then some ((c - char 'A').toNat + 10)
  else none

/-- The loop over the digits. The value wraps: "we don't properly detect overflow!" -/
def strtolDigits (base : Nat) : Word → List Byte → Word × List Byte
  | val, [] => (val, [])
  | val, c :: s =>
      match digitValue c with
      | none => (val, c :: s)
      | some dig =>
          if base ≤ dig then (val, c :: s)
          else strtolDigits base (val * BitVec.ofNat 32 base + BitVec.ofNat 32 dig) s

/-- The result together with the string behind `*endptr`. -/
def strtol (s : List Byte) (base : Nat) : Word × List Byte :=
  let s := s.dropWhile fun c => c = char ' ' ∨ c = char '\t'
  let (neg, s) :=
    if s.head? = some (char '+') then (false, s.tail)
    else if s.head? = some (char '-') then (true, s.tail)
    else (false, s)
  let (base, s) :=
    if (base = 0 ∨ base = 16) ∧ s.head? = some (char '0') ∧ s.tail.head? = some (char 'x') then
      (16, s.drop 2)
    else if base = 0 ∧ s.head? = some (char '0') then (8, s.tail)
    else if base = 0 then (10, s)
    else (base, s)
  let (val, s) := strtolDigits base 0 s
  (if neg then -val else val, s)

example : strtol ("0xF0000000".toList.map char) 16 = (kernelBase, []) := by decide

example : strtol ("-10 is ten".toList.map char) 16 = (-16, " is ten".toList.map char) := by decide

structure HoldsString (mem : Word → Byte) (p : Word) (s : List Byte) : Prop where
  bytes : ∀ i c, s[i]? = some c → mem (p + BitVec.ofNat 32 i) = c ∧ c ≠ 0
  nul : mem (p + BitVec.ofNat 32 s.length) = 0

theorem HoldsString.length_lt {mem : Word → Byte} {p : Word} {s : List Byte}
    (held : HoldsString mem p s) : s.length < 2 ^ 32 := by
  refine AlignedWord.lt_two_pow_of_new p fun i inside same => ?_
  obtain ⟨read, some⟩ := held.bytes _ _ (List.getElem?_eq_getElem inside)
  rw [same, held.nul] at read
  exact some read.symm

def stringMemory (p : Word) (s : List Byte) : Word → Byte := fun a => s.getD (a - p).toNat 0

theorem holdsString_stringMemory (p : Word) {s : List Byte} (noNul : 0 ∉ s)
    (short : s.length < 2 ^ 32) : HoldsString (stringMemory p s) p s := by
  constructor
  · intro i c found
    obtain ⟨inside, _⟩ := List.getElem?_eq_some_iff.mp found
    have small : i < 2 ^ 32 := Nat.lt_trans inside short
    rw [stringMemory, AlignedWord.toNat_add_ofNat_sub p small, List.getD_eq_getElem?_getD, found]
    refine ⟨rfl, ?_⟩
    rintro rfl
    exact noNul (List.mem_of_getElem? found)
  · rw [stringMemory, AlignedWord.toNat_add_ofNat_sub p short,
      List.getD_eq_default _ _ (Nat.le_refl _)]

end FosV2
