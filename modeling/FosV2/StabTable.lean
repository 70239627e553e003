import FosV2.MemoryLayout
import FosV2.SparseBisection
import FosV2.StringLibrary
import FosV2.WhileLoop

/-!
`stab_binsearch` of `kern/kdebug.c`. The indices are those of a table of 12-byte entries in a
32-bit address space, so that the sum of two of them does not leave an `int`; the search key
is a `uint32 *`, which moves by four.
-/

namespace FosV2

structure Stab where
  nStrx : Word
  nType : Byte
  nValue : Word
  deriving DecidableEq, Repr

def nFun : Int := 0x24
def nSo : Int := 0x64
def nSol : Int := 0x84

/-- The entries that can be read behind a `const struct Stab *`, by their index. -/
abbrev Stabs := Int → Option Stab

def Stabs.ofList (table : List Stab) : Stabs := fun index =>
  if 0 ≤ index then table[index.toNat]? else none

inductive StabStop where
  | unreadable (index : Int)
  | unreadableByte (address : Word)
  | noUserStabData
  | endlessLoop
  deriving DecidableEq, Repr

def Stabs.entry (stabs : Stabs) (index : Int) : Except StabStop Stab :=
  match stabs index with
  | some stab => .ok stab
  | none => .error (.unreadable index)

def Stab.hasType (stab : Stab) (type : Int) : Bool := (stab.nType.toNat : Int) = type

/-- `while (m > low && stabs[m].n_type != type) m--;` with `m - low`, if that is positive, as
the first argument. -/
def scanBack (stabs : Stabs) (type : Int) : Nat → Int → Except StabStop Int
  | 0, m => .ok m
  | steps + 1, m => do
      let stab ← stabs.entry m
      if stab.hasType type then return m
      else scanBack stabs type steps (m - 1)

structure StabSearch where
  l : Int
  r : Int
  regionLeft : Int
  regionRight : Int
  anyMatches : Bool
  addr : Word

def middle (l r : Int) : Int := (l + r).tdiv 2

namespace StabSearch

def begin (regionLeft regionRight : Int) (addr : Word) : StabSearch where
  l := regionLeft
  r := regionRight
  regionLeft := regionLeft
  regionRight := regionRight
  anyMatches := false
  addr := addr

def test (search : StabSearch) : Bool := search.l ≤ search.r

def turn (stabs : Stabs) (type : Int) (search : StabSearch) : Except StabStop StabSearch := do
  let trueM := middle search.l search.r
  let m ← scanBack stabs type (trueM - (search.l - 1)).toNat trueM
  if m < search.l then return { search with l := trueM + 1 }
  else
    let stab ← stabs.entry m
    if stab.nValue < search.addr then
      return { search with regionLeft := m, l := trueM + 1, anyMatches := true }
    else if stab.nValue > search.addr then
      return { search with regionRight := m - 1, r := m - 1, anyMatches := true }
    else
      return { search with regionLeft := m, l := m, anyMatches := true, addr := search.addr + 4 }

/-- What follows the loop: the values of `*region_left` and `*region_right`. -/
def finish (stabs : Stabs) (type : Int) (search : StabSearch) : Except StabStop (Int × Int) :=
  if ¬search.anyMatches then .ok (search.regionLeft, search.regionLeft - 1)
  else do
    let l ← scanBack stabs type (search.regionRight - search.regionLeft).toNat search.regionRight
    return (l, search.regionRight)

/-- Each position is the left end of the window for two turns at most. -/
def fuel (l r : Int) : Nat := 2 * (r + 1 - l).toNat + 2

end StabSearch

def stabBinsearch (stabs : Stabs) (regionLeft regionRight : Int) (type : Int) (addr : Word) :
    Except StabStop (Int × Int) := do
  let search ← WhileLoop.run StabSearch.test (StabSearch.turn stabs type) .endlessLoop
    (StabSearch.fuel regionLeft regionRight) (.begin regionLeft regionRight addr)
  search.finish stabs type

def valueAt (stabs : Stabs) (type index : Int) : Option Nat :=
  match stabs index with
  | some stab => if stab.hasType type then some stab.nValue.toNat else none
  | none => none

def Readable (stabs : Stabs) (l r : Int) : Prop := ∀ i, l ≤ i → i ≤ r → (stabs i).isSome

end FosV2
