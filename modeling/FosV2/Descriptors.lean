import FosV2.BitFields
import FosV2.EnvironmentPool
import FosV2.WordStack

/-!
The descriptors of `inc/mmu.h`: the bit fields as the compiler lays them out, and the same
eight bytes as the processor reads them. The assembler has a `SEG` of its own.
-/

namespace FosV2

open BitFields

structure Segdesc where
  sdLim150 : BitVec 16
  sdBase150 : BitVec 16
  sdBase2316 : BitVec 8
  sdType : BitVec 4
  sdS : BitVec 1
  sdDpl : BitVec 2
  sdP : BitVec 1
  sdLim1916 : BitVec 4
  sdAvl : BitVec 1
  sdRsv1 : BitVec 1
  sdDb : BitVec 1
  sdG : BitVec 1
  sdBase3124 : BitVec 8

def Segdesc.fields (d : Segdesc) : List Field :=
  [⟨16, d.sdLim150⟩, ⟨16, d.sdBase150⟩, ⟨8, d.sdBase2316⟩, ⟨4, d.sdType⟩, ⟨1, d.sdS⟩, ⟨2, d.sdDpl⟩,
    ⟨1, d.sdP⟩, ⟨4, d.sdLim1916⟩, ⟨1, d.sdAvl⟩, ⟨1, d.sdRsv1⟩, ⟨1, d.sdDb⟩, ⟨1, d.sdG⟩,
    ⟨8, d.sdBase3124⟩]

def segNull : Segdesc := ⟨0, 0, 0, 0, 0, 0, 0, 0, 0, 0, 0, 0, 0⟩

def seg (type : BitVec 4) (base lim : Word) (dpl : BitVec 2) : Segdesc :=
  ⟨((lim >>> 12) &&& 0xFFFF).setWidth 16, (base &&& 0xFFFF).setWidth 16,
    ((base >>> 16) &&& 0xFF).setWidth 8, type, 1, dpl, 1, (lim >>> 28).setWidth 4, 0, 0, 1, 1,
    (base >>> 24).setWidth 8⟩

def seg16 (type : BitVec 4) (base lim : Word) (dpl : BitVec 2) : Segdesc :=
  ⟨(lim &&& 0xFFFF).setWidth 16, (base &&& 0xFFFF).setWidth 16,
    ((base >>> 16) &&& 0xFF).setWidth 8, type, 1, dpl, 1, (lim >>> 16).setWidth 4, 0, 0, 1, 0,
    (base >>> 24).setWidth 8⟩

/-- `SEG` for the assembler: two `.word` and four `.byte`. -/
def asmSeg (type base lim : Word) : List Field :=
  [⟨16, ((lim >>> 12) &&& 0xFFFF).setWidth 16⟩, ⟨16, (base &&& 0xFFFF).setWidth 16⟩,
    ⟨8, ((base >>> 16) &&& 0xFF).setWidth 8⟩, ⟨8, ((0x90 : Word) ||| type).setWidth 8⟩,
    ⟨8, ((0xC0 : Word) ||| ((lim >>> 28) &&& 0xF)).setWidth 8⟩, ⟨8, ((base >>> 24) &&& 0xFF).setWidth 8⟩]

structure Gatedesc where
  gdOff150 : BitVec 16
  gdSs : BitVec 16
  gdArgs : BitVec 5
  gdRsv1 : BitVec 3
  gdType : BitVec 4
  gdS : BitVec 1
  gdDpl : BitVec 2
  gdP : BitVec 1
  gdOff3116 : BitVec 16

def Gatedesc.fields (d : Gatedesc) : List Field :=
  [⟨16, d.gdOff150⟩, ⟨16, d.gdSs⟩, ⟨5, d.gdArgs⟩, ⟨3, d.gdRsv1⟩, ⟨4, d.gdType⟩, ⟨1, d.gdS⟩,
    ⟨2, d.gdDpl⟩, ⟨1, d.gdP⟩, ⟨16, d.gdOff3116⟩]

def staX : BitVec 4 := 0x8
def staW : BitVec 4 := 0x2
def staR : BitVec 4 := 0x2
def stsT32a : BitVec 4 := 0x9
def stsIg32 : BitVec 4 := 0xE
def stsTg32 : BitVec 4 := 0xF

def setGate (istrap : Bool) (sel : BitVec 16) (off : Word) (dpl : BitVec 2) : Gatedesc :=
  ⟨(off &&& 0xFFFF).setWidth 16, sel, 0, 0, if istrap then stsTg32 else stsIg32, 0, dpl, 1,
    (off >>> 16).setWidth 16⟩

/-! What the processor makes of eight bytes. -/

structure Segment where
  base : Word
  -- The last offset inside the segment.
  limit : Word
  type : BitVec 4
  application : BitVec 1
  dpl : BitVec 2
  present : BitVec 1

def segmentOf (n : Nat) : Segment where
  base := bits n 56 8 ++ bits n 16 24
  limit := if bits n 55 1 = 1 then (bits n 48 4 ++ bits n 0 16) ++ (0xFFF : BitVec 12)
    else (bits n 48 4 ++ bits n 0 16 : BitVec 20).setWidth 32
  type := bits n 40 4
  application := bits n 44 1
  dpl := bits n 45 2
  present := bits n 47 1

structure Gate where
  offset : Word
  selector : BitVec 16
  type : BitVec 4
  application : BitVec 1
  dpl : BitVec 2
  present : BitVec 1

def gateOf (n : Nat) : Gate where
  offset := bits n 48 16 ++ bits n 0 16
  selector := bits n 16 16
  type := bits n 40 4
  application := bits n 44 1
  dpl := bits n 45 2
  present := bits n 47 1

section Layout

/-- The processor finds every field where the compiler has put it. -/
theorem segmentOf_fields (d : Segdesc) : segmentOf (pack d.fields) =
    { base := d.sdBase3124 ++ (d.sdBase2316 ++ d.sdBase150)
      limit := if d.sdG = 1 then (d.sdLim1916 ++ d.sdLim150) ++ (0xFFF : BitVec 12)
        else (d.sdLim1916 ++ d.sdLim150 : BitVec 20).setWidth 32
      type := d.sdType
      application := d.sdS
      dpl := d.sdDpl
      present := d.sdP } := by
  have field : ∀ (i w : Nat) (x : BitVec w), d.fields[i]? = some ⟨w, x⟩ →
      bits (pack d.fields) (width (d.fields.take i)) w = x := fun _ _ _ found => bits_field found
  have high : bits (pack d.fields) 56 8 = d.sdBase3124 := field 12 8 _ rfl
  have middle : bits (pack d.fields) (16 + 16) 8 = d.sdBase2316 := field 2 8 _ rfl
  have low : bits (pack d.fields) 16 16 = d.sdBase150 := field 1 16 _ rfl
  have base : bits (pack d.fields) 16 24 = d.sdBase2316 ++ d.sdBase150 := by
    have joined := bits_append (pack d.fields) 16 16 8
    rw [middle, low] at joined
    exact joined.symm
  have limitHigh : bits (pack d.fields) 48 4 = d.sdLim1916 := field 7 4 _ rfl
  have limitLow : bits (pack d.fields) 0 16 = d.sdLim150 := field 0 16 _ rfl
  have granularity : bits (pack d.fields) 55 1 = d.sdG := field 11 1 _ rfl
  have type : bits (pack d.fields) 40 4 = d.sdType := field 3 4 _ rfl
  have application : bits (pack d.fields) 44 1 = d.sdS := field 4 1 _ rfl
  have dpl : bits (pack d.fields) 45 2 = d.sdDpl := field 5 2 _ rfl
  have isPresent : bits (pack d.fields) 47 1 = d.sdP := field 6 1 _ rfl
  simp only [segmentOf, high, base, limitHigh, limitLow, granularity, type, application, dpl,
    isPresent]

theorem gateOf_fields (d : Gatedesc) : gateOf (pack d.fields) =
    { offset := d.gdOff3116 ++ d.gdOff150
      selector := d.gdSs
      type := d.gdType
      application := d.gdS
      dpl := d.gdDpl
      present := d.gdP } := by
  have field : ∀ (i w : Nat) (x : BitVec w), d.fields[i]? = some ⟨w, x⟩ →
      bits (pack d.fields) (width (d.fields.take i)) w = x := fun _ _ _ found => bits_field found
  have high : bits (pack d.fields) 48 16 = d.gdOff3116 := field 8 16 _ rfl
  have low : bits (pack d.fields) 0 16 = d.gdOff150 := field 0 16 _ rfl
  have selector : bits (pack d.fields) 16 16 = d.gdSs := field 1 16 _ rfl
  have type : bits (pack d.fields) 40 4 = d.gdType := field 4 4 _ rfl
  have application : bits (pack d.fields) 44 1 = d.gdS := field 5 1 _ rfl
  have dpl : bits (pack d.fields) 45 2 = d.gdDpl := field 6 2 _ rfl
  have isPresent : bits (pack d.fields) 47 1 = d.gdP := field 7 1 _ rfl
  simp only [gateOf, high, low, selector, type, application, dpl, isPresent]

end Layout

section Words

theorem setWidth_mask16 (x : Word) : (x &&& 0xFFFF).setWidth 16 = x.setWidth 16 := by
  have mask : (0xFFFF : Word).setWidth 16 = BitVec.allOnes 16 := rfl
  rw [BitVec.setWidth_and, mask, BitVec.and_allOnes]

theorem setWidth_mask8 (x : Word) : (x &&& 0xFF).setWidth 8 = x.setWidth 8 := by
  have mask : (0xFF : Word).setWidth 8 = BitVec.allOnes 8 := rfl
  rw [BitVec.setWidth_and, mask, BitVec.and_allOnes]

theorem setWidth_ushiftRight (x : Word) {start len : Nat} :
    (x >>> start).setWidth len = x.extractLsb' start len := by
  apply BitVec.eq_of_getLsbD_eq
  intro i inside
  simp [inside]

theorem halves (x : Word) : (x >>> 16).setWidth 16 ++ (x &&& 0xFFFF).setWidth 16 = x := by
  rw [setWidth_mask16, setWidth_ushiftRight, BitVec.setWidth_eq_extractLsb' (by omega)]
  exact BitVec.extractLsb'_append_extractLsb'

theorem baseParts (x : Word) : (x >>> 24).setWidth 8 ++
    (((x >>> 16) &&& 0xFF).setWidth 8 ++ (x &&& 0xFFFF).setWidth 16) = x := by
  have low : x.extractLsb' 16 8 ++ x.extractLsb' 0 16 = x.extractLsb' 0 24 :=
    BitVec.extractLsb'_append_extractLsb'_eq_extractLsb' rfl
  have whole : x.extractLsb' 24 8 ++ x.extractLsb' 0 24 = x := BitVec.extractLsb'_append_extractLsb'
  rw [setWidth_mask16, setWidth_mask8, setWidth_ushiftRight, setWidth_ushiftRight,
    BitVec.setWidth_eq_extractLsb' (by omega), low]
  exact whole

theorem limitParts (x : Word) : ((x >>> 28).setWidth 4 ++ ((x >>> 12) &&& 0xFFFF).setWidth 16) ++
    (0xFFF : BitVec 12) = x ||| 0xFFF := by
  have pages : x.extractLsb' 28 4 ++ x.extractLsb' 12 16 = x.extractLsb' 12 20 :=
    BitVec.extractLsb'_append_extractLsb'_eq_extractLsb' rfl
  have split : x ||| 0xFFF = x.extractLsb' 12 20 ++ (x ||| 0xFFF).extractLsb' 0 12 := by
    have upper : (x ||| 0xFFF).extractLsb' 12 20 = x.extractLsb' 12 20 := by
      rw [BitVec.extractLsb'_or]
      exact BitVec.or_zero
    rw [← upper]
    exact BitVec.extractLsb'_append_extractLsb'.symm
  have ones : (x ||| 0xFFF).extractLsb' 0 12 = 0xFFF := by
    rw [BitVec.extractLsb'_or]
    exact BitVec.or_allOnes
  rw [setWidth_mask16, setWidth_ushiftRight, setWidth_ushiftRight, pages, split, ones]

end Words

section Macros

variable (type : BitVec 4) (base lim : Word) (dpl : BitVec 2)

/-- A limit is kept up to the end of its page. -/
theorem segmentOf_seg : segmentOf (pack (seg type base lim dpl).fields) =
    ⟨base, lim ||| 0xFFF, type, 1, dpl, 1⟩ := by
  simp only [segmentOf_fields, seg, baseParts, limitParts, if_true]

theorem segmentOf_seg16 (fits : lim.toNat < 2 ^ 20) :
    segmentOf (pack (seg16 type base lim dpl).fields) = ⟨base, lim, type, 1, dpl, 1⟩ := by
  have whole : ((lim >>> 16).setWidth 4 ++ (lim &&& 0xFFFF).setWidth 16 : BitVec 20).setWidth 32 =
      lim := by
    have joined : lim.extractLsb' 16 4 ++ lim.extractLsb' 0 16 = lim.extractLsb' 0 20 :=
      BitVec.extractLsb'_append_extractLsb'_eq_extractLsb' rfl
    have low : lim.setWidth 16 = lim.extractLsb' 0 16 := BitVec.setWidth_eq_extractLsb' (by omega)
    rw [setWidth_mask16, setWidth_ushiftRight, low, joined]
    apply BitVec.eq_of_toNat_eq
    rw [BitVec.toNat_setWidth, BitVec.extractLsb'_toNat, Nat.shiftRight_zero]
    omega
  have small : ¬(0 : BitVec 1) = 1 := by decide
  simp only [segmentOf_fields, seg16, baseParts, whole, small, if_false]

/-- The assembler and the compiler agree on a segment for the kernel. -/
theorem pack_asmSeg : pack (asmSeg (type.setWidth 32) base lim) =
    pack (seg type base lim 0).fields := by
  have typeByte : ∀ type : BitVec 4, (0x90 ||| type.setWidth 32 : Word).setWidth 8 =
      (1 : BitVec 1) ++ ((0 : BitVec 2) ++ ((1 : BitVec 1) ++ type)) := by decide
  have limitByte : ∀ high : BitVec 4, (0xC0 ||| high.setWidth 32 : Word).setWidth 8 =
      (1 : BitVec 1) ++ ((1 : BitVec 1) ++ ((0 : BitVec 1) ++ ((0 : BitVec 1) ++ high))) := by
    decide
  have typeFields : ∀ rest : List Field, pack (⟨4, type⟩ :: ⟨1, 1⟩ :: ⟨2, 0⟩ :: ⟨1, 1⟩ :: rest) =
      pack (⟨8, ((0x90 : Word) ||| type.setWidth 32).setWidth 8⟩ :: rest) := by
    intro rest
    rw [pack_merge, pack_merge, pack_merge, typeByte]
  have limitFields : ∀ (high : BitVec 4) (rest : List Field),
      pack (⟨4, high⟩ :: ⟨1, 0⟩ :: ⟨1, 0⟩ :: ⟨1, 1⟩ :: ⟨1, 1⟩ :: rest) =
        pack (⟨8, ((0xC0 : Word) ||| high.setWidth 32).setWidth 8⟩ :: rest) := by
    intro high rest
    rw [pack_merge, pack_merge, pack_merge, pack_merge, limitByte]
  have nibble : ((lim >>> 28).setWidth 4).setWidth 32 = lim >>> 28 &&& (0xF : Word) := by
    apply BitVec.eq_of_toNat_eq
    have mask : (0xF : Word).toNat = 2 ^ 4 - 1 := rfl
    rw [BitVec.toNat_and, mask, Nat.and_two_pow_sub_one_eq_mod, BitVec.toNat_setWidth,
      BitVec.toNat_setWidth]
    omega
  let front : List Field := [⟨16, ((lim >>> 12) &&& 0xFFFF).setWidth 16⟩,
    ⟨16, (base &&& 0xFFFF).setWidth 16⟩, ⟨8, ((base >>> 16) &&& 0xFF).setWidth 8⟩]
  let last : Field := ⟨8, (base >>> 24).setWidth 8⟩
  have bytes : asmSeg (type.setWidth 32) base lim =
      front ++ (⟨8, ((0x90 : Word) ||| type.setWidth 32).setWidth 8⟩ ::
        [⟨8, ((0xC0 : Word) ||| ((lim >>> 28).setWidth 4).setWidth 32).setWidth 8⟩, last]) := by
    rw [asmSeg, nibble, setWidth_mask8 (base >>> 24)]
    rfl
  have parts : (seg type base lim 0).fields =
      front ++ (⟨4, type⟩ :: ⟨1, 1⟩ :: ⟨2, 0⟩ :: ⟨1, 1⟩ ::
        (⟨4, (lim >>> 28).setWidth 4⟩ :: ⟨1, 0⟩ :: ⟨1, 0⟩ :: ⟨1, 1⟩ :: ⟨1, 1⟩ :: [last])) := rfl
  rw [bytes, parts]
  apply pack_congr
  rw [typeFields]
  exact pack_congr [_] (limitFields _ _).symm

theorem gateOf_setGate (istrap : Bool) (sel : BitVec 16) (off : Word) :
    gateOf (pack (setGate istrap sel off dpl).fields) =
      ⟨off, sel, if istrap then stsTg32 else stsIg32, 0, dpl, 1⟩ := by
  simp only [gateOf_fields, setGate, halves]

end Macros

end FosV2
