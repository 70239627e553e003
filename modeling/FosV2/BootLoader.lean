import FosV2.AlignedWord
import FosV2.MemoryManagerCore
import FosV2.MemoryWrites
import FosV2.StringLibrary
import FosV2.WhileLoop

/-!
The boot loader of `boot/main.c`. The disk is a sequence of bytes with the kernel image from
the second sector on; `readsect` is taken to copy one sector. A segment is read in whole
sectors, so that bytes around it are written as well, and what an earlier segment has there
is lost.
-/

namespace FosV2

def sectSize : Nat := 512

def elfHdr : Word := 0x10000

/-- `"\x7FELF"` in little endian -/
def elfMagic : Word := 0x464C457F

abbrev Memory := Word → Byte

abbrev Disk := Nat → Byte

def readsect (disk : Disk) (mem : Memory) (dst offset : Word) : Memory := fun a =>
  if (a - dst).toNat < sectSize then disk (sectSize * offset.toNat + (a - dst).toNat) else mem a

structure SectorLoop where
  va : Word
  offset : Word
  mem : Memory

def SectorLoop.turn (disk : Disk) (s : SectorLoop) : SectorLoop :=
  ⟨s.va + BitVec.ofNat 32 sectSize, s.offset + 1, readsect disk s.mem s.va s.offset⟩

/-- A loop that has not ended by then has gone once around the address space. -/
def readsegFuel : Nat := 2 ^ 23 + 1

def readseg (disk : Disk) (mem : Memory) (va count offset : Word) : Except Stop Memory :=
  let va := va &&& 0xFFFFFF
  let endVa := va + count
  let va := AlignedWord.alignDown 9 va
  let offset := offset / BitVec.ofNat 32 sectSize + 1
  SectorLoop.mem <$> WhileLoop.run (fun s => decide (s.va < endVa)) (fun s => .ok (s.turn disk))
    .endlessLoop readsegFuel ⟨va, offset, mem⟩

def load16 (mem : Memory) (a : Word) : BitVec 16 := mem (a + 1) ++ mem a

def load32 (mem : Memory) (a : Word) : Word := load16 mem (a + 2) ++ load16 mem a

inductive BootResult where
  | bad (mem : Memory)
  | entered (entry : Word) (mem : Memory)

structure HeaderLoop where
  ph : Word
  mem : Memory

def HeaderLoop.turn (disk : Disk) (s : HeaderLoop) : Except Stop HeaderLoop := do
  let mem ← readseg disk s.mem (load32 s.mem (s.ph + 8)) (load32 s.mem (s.ph + 20))
    (load32 s.mem (s.ph + 4))
  return ⟨s.ph + 32, mem⟩

/-- `e_phnum` is a `uint16`. -/
def headerFuel : Nat := 2 ^ 16 + 1

def cmain (disk : Disk) (mem : Memory) : Except Stop BootResult := do
  let mem ← readseg disk mem elfHdr (BitVec.ofNat 32 (sectSize * 8)) 0
  if load32 mem elfHdr ≠ elfMagic then return .bad mem
  else
    let ph := elfHdr + load32 mem (elfHdr + 28)
    let eph := ph + 32 * (load16 mem (elfHdr + 44)).setWidth 32
    let s ← WhileLoop.run (fun s => decide (s.ph < eph)) (HeaderLoop.turn disk) .endlessLoop
      headerFuel ⟨ph, mem⟩
    return .entered (load32 s.mem (elfHdr + 24) &&& 0xFFFFFF) s.mem

/-! ## Sectors -/

def sectorStart (a : Nat) : Nat := a / sectSize * sectSize

def inSectors (start count a : Nat) : Bool := sectorStart start ≤ a ∧ sectorStart a < start + count

def segmentWrite (disk : Disk) (start count offset : Nat) : MemoryWrites.Write Word Byte :=
  ⟨fun a => inSectors start count a.toNat,
    fun a => disk (sectSize + sectorStart offset + (a.toNat - sectorStart start))⟩

section Readseg

variable {disk : Disk} {mem : Memory}

theorem segmentWrite_apply (start count offset : Nat) (a : Word) :
    (segmentWrite disk start count offset).apply mem a =
      if inSectors start count a.toNat then
        disk (sectSize + sectorStart offset + (a.toNat - sectorStart start))
      else mem a := rfl

theorem readsect_toNat {dst offset : Word} (fits : dst.toNat + sectSize ≤ 2 ^ 32) (a : Word) :
    readsect disk mem dst offset a =
      if dst.toNat ≤ a.toNat ∧ a.toNat < dst.toNat + sectSize then
        disk (sectSize * offset.toNat + (a.toNat - dst.toNat))
      else mem a := by
  have size : sectSize = 512 := rfl
  have bound := a.isLt
  rw [readsect]
  by_cases behind : dst.toNat ≤ a.toNat
  · have distance : (a - dst).toNat = a.toNat - dst.toNat := BitVec.toNat_sub_of_le behind
    rw [distance]
    congr 1
    simp only [behind, true_and, eq_iff_iff]
    omega
  · have far : ¬(a - dst).toNat < sectSize := by
      rw [BitVec.toNat_sub]
      omega
    rw [if_neg far, if_neg fun inside => behind inside.1]

def sectorsRead (disk : Disk) (mem : Memory) (base sector turn : Nat) : SectorLoop :=
  ⟨BitVec.ofNat 32 (base + sectSize * turn), BitVec.ofNat 32 (sector + turn), fun a =>
    if base ≤ a.toNat ∧ a.toNat < base + sectSize * turn then
      disk (sectSize * sector + (a.toNat - base))
    else mem a⟩

theorem sectorsRead_turn {base sector turn : Nat}
    (fits : base + sectSize * (turn + 1) ≤ 2 ^ 32) (small : sector + turn < 2 ^ 32) :
    (sectorsRead disk mem base sector turn).turn disk =
      sectorsRead disk mem base sector (turn + 1) := by
  have size : sectSize = 512 := rfl
  have more : sectSize * (turn + 1) = sectSize * turn + sectSize := Nat.mul_succ ..
  have va : (BitVec.ofNat 32 (base + sectSize * turn)).toNat = base + sectSize * turn := by
    rw [BitVec.toNat_ofNat]
    omega
  have offset : (BitVec.ofNat 32 (sector + turn)).toNat = sector + turn := by
    rw [BitVec.toNat_ofNat]
    omega
  rw [sectorsRead, sectorsRead, SectorLoop.turn, SectorLoop.mk.injEq]
  refine ⟨?_, ?_, ?_⟩
  · rw [← BitVec.ofNat_add, more, Nat.add_assoc]
  · exact (BitVec.ofNat_add (sector + turn) 1).symm
  · funext a
    dsimp only
    rw [readsect_toNat (by omega), va, offset]
    by_cases here : base + sectSize * turn ≤ a.toNat ∧ a.toNat < base + sectSize * turn + sectSize
    · rw [if_pos here, if_pos (by omega)]
      congr 1
      rw [Nat.mul_add]
      omega
    · rw [if_neg here]
      congr 1
      simp only [eq_iff_iff]
      omega

theorem sectorsRead_zero (base sector : Nat) : sectorsRead disk mem base sector 0 =
    ⟨BitVec.ofNat 32 base, BitVec.ofNat 32 sector, mem⟩ := by
  rw [sectorsRead, SectorLoop.mk.injEq]
  refine ⟨rfl, rfl, ?_⟩
  funext a
  exact if_neg fun inside => absurd inside.2 (Nat.not_lt.mpr inside.1)

theorem sectorLoop_returns {base sector turns : Nat} {endVa : Word}
    (fits : base + sectSize * turns < 2 ^ 32) (small : sector + turns < 2 ^ 32)
    (goesOn : ∀ turn < turns, base + sectSize * turn < endVa.toNat)
    (ends : endVa.toNat ≤ base + sectSize * turns) :
    WhileLoop.run (fun s : SectorLoop => decide (s.va < endVa)) (fun s => .ok (s.turn disk))
      Stop.endlessLoop readsegFuel (sectorsRead disk mem base sector 0) =
      .ok (sectorsRead disk mem base sector turns) := by
  have size : sectSize = 512 := rfl
  have fuel : readsegFuel = 8388609 := rfl
  have va : ∀ turn ≤ turns, (sectorsRead disk mem base sector turn).va.toNat =
      base + sectSize * turn := by
    intro turn most
    rw [size] at fits
    rw [sectorsRead, size, BitVec.toNat_ofNat]
    omega
  have continues : ∀ turn < turns, ∀ s, s = sectorsRead disk mem base sector turn →
      decide (s.va < endVa) = true ∧ ∃ next, (.ok (s.turn disk) : Except Stop SectorLoop) =
        .ok next ∧ next = sectorsRead disk mem base sector (turn + 1) := by
    rintro turn more s rfl
    refine ⟨?_, _, rfl, sectorsRead_turn ?_ (by omega)⟩
    · rw [decide_eq_true_eq, BitVec.lt_def, va turn (Nat.le_of_lt more)]
      exact goesOn turn more
    · rw [size] at fits ⊢
      omega
  have stops : ∀ s, s = sectorsRead disk mem base sector turns →
      decide (s.va < endVa) = false := by
    rintro s rfl
    rw [decide_eq_false_iff_not, BitVec.lt_def, va turns (Nat.le_refl _)]
    omega
  have enough : turns < 0 + readsegFuel := by
    rw [size] at fits
    rw [fuel]
    omega
  obtain ⟨s, returned, rfl⟩ := WhileLoop.run_of_invariant continues stops (Nat.zero_le _) rfl enough
  exact returned

/-- The whole sectors around the segment are read, and nothing else changes. -/
theorem readseg_sectors {va count offset : Word}
    (fits : (va &&& 0xFFFFFF).toNat + count.toNat < 2 ^ 32 - sectSize) :
    readseg disk mem va count offset = .ok ((segmentWrite disk (va &&& 0xFFFFFF).toNat
      count.toNat offset.toNat).apply mem) := by
  have size : sectSize = 512 := rfl
  have offsetBound := offset.isLt
  rw [readseg]
  generalize (va &&& 0xFFFFFF) = first at fits ⊢
  have endVa : (first + count).toNat = first.toNat + count.toNat := by
    rw [BitVec.toNat_add]
    omega
  have base : AlignedWord.alignDown 9 first = BitVec.ofNat 32 (sectorStart first.toNat) := by
    apply BitVec.eq_of_toNat_eq
    have aligned : (AlignedWord.alignDown 9 first).toNat = sectorStart first.toNat :=
      AlignedWord.toNat_alignDown 9 first
    rw [aligned, BitVec.toNat_ofNat, Nat.mod_eq_of_lt]
    exact Nat.lt_of_le_of_lt (Nat.div_mul_le_self _ _) first.isLt
  have sector : offset / BitVec.ofNat 32 sectSize + 1 =
      BitVec.ofNat 32 (offset.toNat / sectSize + 1) := by
    apply BitVec.eq_of_toNat_eq
    have quotient : (offset / BitVec.ofNat 32 sectSize).toNat = offset.toNat / sectSize :=
      BitVec.toNat_udiv
    have one : (1 : Word).toNat = 1 := rfl
    rw [BitVec.toNat_add, quotient, one, BitVec.toNat_ofNat]
  obtain ⟨turns, count'⟩ : ∃ turns, turns =
      (first.toNat + count.toNat - sectorStart first.toNat + 511) / 512 := ⟨_, rfl⟩
  have aligned : sectorStart first.toNat = first.toNat / 512 * 512 := rfl
  have fits' : sectorStart first.toNat + sectSize * turns < 2 ^ 32 := by
    rw [size] at fits ⊢
    omega
  have small : offset.toNat / sectSize + 1 + turns < 2 ^ 32 := by
    rw [size] at fits ⊢
    omega
  have goesOn : ∀ turn < turns,
      sectorStart first.toNat + sectSize * turn < (first + count).toNat := by
    intro turn more
    rw [endVa, size]
    omega
  have ends : (first + count).toNat ≤ sectorStart first.toNat + sectSize * turns := by
    rw [endVa, size]
    omega
  have loop := @sectorLoop_returns disk mem _ _ turns _ fits' small goesOn ends
  rw [sectorsRead_zero] at loop
  rw [base, sector, loop, map_ok]
  congr 1
  funext a
  have covers : (sectorStart first.toNat ≤ a.toNat ∧
      a.toNat < sectorStart first.toNat + sectSize * turns) ↔
      inSectors first.toNat count.toNat a.toNat := by
    have down : sectorStart a.toNat = a.toNat / 512 * 512 := rfl
    rw [inSectors, decide_eq_true_iff, size]
    omega
  have source : sectSize * (offset.toNat / sectSize + 1) = sectSize + sectorStart offset.toNat := by
    rw [sectorStart, size]
    omega
  rw [segmentWrite_apply, sectorsRead, source]
  exact if_congr covers rfl rfl

end Readseg

/-- `readseg` puts the bytes of the image where they are asked for, and writes only the
sectors around them. -/
theorem readseg_copies (disk : Disk) (mem : Memory) (va count offset : Word)
    (congruent : va.toNat % 512 = offset.toNat % 512)
    (fits : (va &&& 0xFFFFFF).toNat + count.toNat < 2 ^ 32 - 512) :
    ∃ mem', readseg disk mem va count offset = .ok mem' ∧
      (∀ k < count.toNat, mem' ((va &&& 0xFFFFFF) + BitVec.ofNat 32 k) =
        disk (512 + offset.toNat + k)) ∧
      ∀ a : Word, a.toNat < (va &&& 0xFFFFFF).toNat / 512 * 512 ∨
        ((va &&& 0xFFFFFF).toNat + count.toNat + 511) / 512 * 512 ≤ a.toNat → mem' a = mem a := by
  have mask : (va &&& 0xFFFFFF).toNat = va.toNat % 2 ^ 24 := by
    rw [BitVec.toNat_and]
    exact Nat.and_two_pow_sub_one_eq_mod va.toNat 24
  have aligned : (va &&& 0xFFFFFF).toNat % 512 = offset.toNat % 512 := by omega
  refine ⟨_, readseg_sectors fits, fun k inside => ?_, fun a outside => ?_⟩
  · generalize (va &&& 0xFFFFFF) = first at fits aligned ⊢
    have place : (first + BitVec.ofNat 32 k).toNat = first.toNat + k := by
      rw [BitVec.toNat_add, BitVec.toNat_ofNat]
      omega
    have read : inSectors first.toNat count.toNat (first.toNat + k) = true := by
      rw [inSectors, decide_eq_true_iff, sectorStart, sectorStart, sectSize]
      omega
    rw [segmentWrite_apply, place, if_pos read]
    congr 1
    rw [sectorStart, sectorStart, sectSize]
    omega
  · generalize (va &&& 0xFFFFFF) = first at fits aligned outside ⊢
    have unread : ¬inSectors first.toNat count.toNat a.toNat = true := by
      rw [inSectors, decide_eq_true_iff, sectorStart, sectorStart, sectSize]
      omega
    rw [segmentWrite_apply, if_neg unread]

/-- From the middle of a sector to the middle of the next one. -/
theorem readseg_copies_twoSectors : ∃ mem',
    readseg (fun k => BitVec.ofNat 8 (k / 512)) (fun _ => 0) 0xF0100300 0x200 0x1300 = .ok mem' ∧
      mem' 0x1003FF = 10 ∧ mem' 0x100400 = 11 ∧ mem' 0x1004FF = 11 ∧ mem' 0x1001FF = 0 ∧
      mem' 0x100600 = 0 := by
  obtain ⟨mem', returned, copied, kept⟩ := readseg_copies (fun k => BitVec.ofNat 8 (k / 512))
    (fun _ => 0) 0xF0100300 0x200 0x1300 (by decide) (by decide)
  exact ⟨mem', returned, copied 0xFF (by decide), copied 0x100 (by decide),
    copied 0x1FF (by decide), kept 0x1001FF (by decide), kept 0x100600 (by decide)⟩

end FosV2
