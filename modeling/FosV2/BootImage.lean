import FosV2.BootLoader
import Mathlib.Data.Nat.ModEq

/-!
What `cmain` makes of an ELF image. The program headers are read from the scratch page while
the segments are loaded; the loaded memory is the memory of the last segment whose sectors
cover an address.
-/

namespace FosV2

def image (disk : Disk) (k : Nat) : Byte := disk (sectSize + k)

def imageHalf (disk : Disk) (k : Nat) : BitVec 16 := image disk (k + 1) ++ image disk k

def imageWord (disk : Disk) (k : Nat) : Word := imageHalf disk (k + 2) ++ imageHalf disk k

def ePhoff (disk : Disk) : Nat := (imageWord disk 28).toNat

def ePhnum (disk : Disk) : Nat := (imageHalf disk 44).toNat

def headerField (disk : Disk) (j field : Nat) : Word :=
  imageWord disk (ePhoff disk + 32 * j + field)

def pOffset (disk : Disk) (j : Nat) : Nat := (headerField disk j 4).toNat

def pVa (disk : Disk) (j : Nat) : Word := headerField disk j 8

def pMemsz (disk : Disk) (j : Nat) : Nat := (headerField disk j 20).toNat

def pStart (disk : Disk) (j : Nat) : Nat := (pVa disk j &&& 0xFFFFFF).toNat

def inSegment (disk : Disk) (j a : Nat) : Prop :=
  pStart disk j ≤ a ∧ a < pStart disk j + pMemsz disk j

structure Loadable (disk : Disk) : Prop where
  magic : imageWord disk 0 = elfMagic
  headers : ePhoff disk + 32 * ePhnum disk ≤ 4096
  increasing : ∀ j < ePhnum disk, ∀ i < j, pStart disk i ≤ pStart disk j
  disjoint : ∀ j < ePhnum disk, ∀ i < j, ∀ a, inSegment disk i a → ¬inSegment disk j a
  above : ∀ j < ePhnum disk, elfHdr.toNat + 4096 ≤ pStart disk j
  below : ∀ j < ePhnum disk, pStart disk j + pMemsz disk j ≤ 2 ^ 24
  congruent : ∀ j < ePhnum disk, (pVa disk j).toNat ≡ pOffset disk j [MOD 4096]

def SegmentsLoaded (disk : Disk) (mem : Memory) : Prop :=
  ∀ j < ePhnum disk, ∀ k < pMemsz disk j,
    mem (BitVec.ofNat 32 (pStart disk j + k)) = image disk (pOffset disk j + k)

/-- Where the sectors of a later segment take in a byte of an earlier one, the image has the
same byte in both places; of several later segments, the last one counts. -/
def SharedSectorsAgree (disk : Disk) : Prop :=
  ∀ j < ePhnum disk, ∀ i < j, ∀ a, inSegment disk i a →
    inSectors (pStart disk j) (pMemsz disk j) a →
    (∀ l < ePhnum disk, j < l → ¬inSectors (pStart disk l) (pMemsz disk l) a) →
    image disk (pOffset disk i + a - pStart disk i) =
      image disk (pOffset disk j + a - pStart disk j)

def loadWrite (disk : Disk) (j : Nat) : MemoryWrites.Write Word Byte :=
  segmentWrite disk (pStart disk j) (pMemsz disk j) (pOffset disk j)

def Scratch (disk : Disk) (mem : Memory) : Prop :=
  ∀ k < 4096, mem (elfHdr + BitVec.ofNat 32 k) = image disk k

section Scratch

variable {disk : Disk} {mem : Memory}

theorem scratch_toNat {k : Nat} (small : k < 4096) :
    (elfHdr + BitVec.ofNat 32 k).toNat = 0x10000 + k := by
  have base : elfHdr.toNat = 0x10000 := rfl
  rw [BitVec.toNat_add, base, BitVec.toNat_ofNat]
  omega

theorem Scratch.load16 (scratch : Scratch disk mem) (k : Nat) (small : k + 2 ≤ 4096) :
    load16 mem (elfHdr + BitVec.ofNat 32 k) = imageHalf disk k := by
  have next : elfHdr + BitVec.ofNat 32 k + 1 = elfHdr + BitVec.ofNat 32 (k + 1) := by
    rw [BitVec.ofNat_add, ← BitVec.add_assoc]
    rfl
  rw [FosV2.load16, next, scratch k (by omega), scratch (k + 1) (by omega), imageHalf]

theorem Scratch.load32 (scratch : Scratch disk mem) (k : Nat) (small : k + 4 ≤ 4096) :
    load32 mem (elfHdr + BitVec.ofNat 32 k) = imageWord disk k := by
  have next : elfHdr + BitVec.ofNat 32 k + 2 = elfHdr + BitVec.ofNat 32 (k + 2) := by
    rw [BitVec.ofNat_add, ← BitVec.add_assoc]
    rfl
  rw [FosV2.load32, next, scratch.load16 _ (by omega), scratch.load16 _ (by omega), imageWord]

theorem scratch_read (disk : Disk) (mem : Memory) :
    ∃ mem', readseg disk mem elfHdr (BitVec.ofNat 32 (sectSize * 8)) 0 = .ok mem' ∧
      Scratch disk mem' := by
  refine ⟨_, readseg_sectors (by decide), ?_⟩
  intro k small
  have start : (elfHdr &&& 0xFFFFFF).toNat = 0x10000 := by decide
  have count : (BitVec.ofNat 32 (sectSize * 8)).toNat = 4096 := by decide
  have size : sectSize = 512 := rfl
  have covered : inSectors 0x10000 4096 (0x10000 + k) := by
    rw [inSectors, decide_eq_true_iff, sectorStart, sectorStart, size]
    omega
  have down : sectorStart 0x10000 = 0x10000 := by decide
  have first : sectorStart (0 : Word).toNat = 0 := by decide
  have same : sectSize + 0 + (0x10000 + k - 0x10000) = sectSize + k := by omega
  rw [start, count, segmentWrite_apply, scratch_toNat small, if_pos covered, image, first, down,
    same]

theorem Scratch.written (scratch : Scratch disk mem) (loadable : Loadable disk) {n : Nat}
    (most : n ≤ ePhnum disk) : Scratch disk (MemoryWrites.written (loadWrite disk) n mem) := by
  have size : sectSize = 512 := rfl
  have base : elfHdr.toNat = 0x10000 := rfl
  intro k small
  rw [← scratch k small]
  apply MemoryWrites.written_of_none
  intro l less covers
  have above := loadable.above l (by omega)
  have inside : inSectors (pStart disk l) (pMemsz disk l)
    (elfHdr + BitVec.ofNat 32 k).toNat := covers
  rw [inSectors, decide_eq_true_iff, sectorStart, scratch_toNat small, size] at inside
  omega

def phAt (disk : Disk) (j : Nat) : Word := elfHdr + BitVec.ofNat 32 (ePhoff disk + 32 * j)

theorem phAt_next (disk : Disk) (j : Nat) : phAt disk j + 32 = phAt disk (j + 1) := by
  rw [phAt, phAt, Nat.mul_succ, ← Nat.add_assoc, BitVec.ofNat_add (ePhoff disk + 32 * j),
    BitVec.add_assoc]
  rfl

theorem Scratch.field (scratch : Scratch disk mem) (loadable : Loadable disk) {j : Nat}
    (inside : j < ePhnum disk) (offset : Nat) (small : offset + 4 ≤ 32) :
    FosV2.load32 mem (phAt disk j + BitVec.ofNat 32 offset) = headerField disk j offset := by
  have headers := loadable.headers
  rw [phAt, BitVec.add_assoc, ← BitVec.ofNat_add, scratch.load32 _ (by omega), headerField]

theorem header_turn (scratch : Scratch disk mem) (loadable : Loadable disk) {j : Nat}
    (inside : j < ePhnum disk) :
    HeaderLoop.turn disk ⟨phAt disk j, mem⟩ =
      .ok ⟨phAt disk (j + 1), (loadWrite disk j).apply mem⟩ := by
  have below := loadable.below j inside
  have va : load32 mem (phAt disk j + 8) = headerField disk j 8 :=
    scratch.field loadable inside 8 (by omega)
  have memsz : load32 mem (phAt disk j + 20) = headerField disk j 20 :=
    scratch.field loadable inside 20 (by omega)
  have offset : load32 mem (phAt disk j + 4) = headerField disk j 4 :=
    scratch.field loadable inside 4 (by omega)
  have fits : (headerField disk j 8 &&& 0xFFFFFF).toNat + (headerField disk j 20).toNat <
      2 ^ 32 - sectSize := by
    have size : sectSize = 512 := rfl
    rw [pStart, pVa, pMemsz] at below
    omega
  rw [HeaderLoop.turn, va, memsz, offset, readseg_sectors fits, ok_bind, phAt_next]
  rfl

theorem headerLoop_entered (scratch : Scratch disk mem) (loadable : Loadable disk) :
    WhileLoop.run (fun s : HeaderLoop => decide (s.ph < phAt disk (ePhnum disk)))
      (HeaderLoop.turn disk) Stop.endlessLoop headerFuel ⟨phAt disk 0, mem⟩ =
      .ok ⟨phAt disk (ePhnum disk),
        MemoryWrites.written (loadWrite disk) (ePhnum disk) mem⟩ := by
  have headers := loadable.headers
  have fuel : headerFuel = 65537 := rfl
  have address : ∀ j ≤ ePhnum disk, (phAt disk j).toNat = 0x10000 + (ePhoff disk + 32 * j) := by
    intro j most
    have base : elfHdr.toNat = 0x10000 := rfl
    rw [phAt, BitVec.toNat_add, base, BitVec.toNat_ofNat]
    omega
  have continues : ∀ j < ePhnum disk, ∀ s,
      s = ⟨phAt disk j, MemoryWrites.written (loadWrite disk) j mem⟩ →
      decide (s.ph < phAt disk (ePhnum disk)) = true ∧
        ∃ next, HeaderLoop.turn disk s = .ok next ∧
          next = ⟨phAt disk (j + 1), MemoryWrites.written (loadWrite disk) (j + 1) mem⟩ := by
    rintro j inside s rfl
    refine ⟨?_, _, header_turn (scratch.written loadable (Nat.le_of_lt inside)) loadable inside,
      rfl⟩
    rw [decide_eq_true_eq, BitVec.lt_def, address j (Nat.le_of_lt inside),
      address _ (Nat.le_refl _)]
    omega
  have stops : ∀ s : HeaderLoop,
      s = ⟨phAt disk (ePhnum disk), MemoryWrites.written (loadWrite disk) (ePhnum disk) mem⟩ →
      decide (s.ph < phAt disk (ePhnum disk)) = false := by
    rintro s rfl
    rw [decide_eq_false_iff_not]
    exact Nat.lt_irrefl _
  have enough : ePhnum disk < 0 + headerFuel := by omega
  obtain ⟨s, returned, rfl⟩ := WhileLoop.run_of_invariant continues stops (Nat.zero_le _) rfl enough
  exact returned

theorem cmain_entered (loadable : Loadable disk) (mem : Memory) :
    ∃ first, cmain disk mem = .ok (.entered (imageWord disk 24 &&& 0xFFFFFF)
      (MemoryWrites.written (loadWrite disk) (ePhnum disk) first)) := by
  obtain ⟨first, read, scratch⟩ := scratch_read disk mem
  have magic : load32 first elfHdr = elfMagic := by
    rw [← loadable.magic, ← scratch.load32 0 (by omega)]
    rfl
  have phoff : load32 first (elfHdr + 28) = imageWord disk 28 := scratch.load32 28 (by omega)
  have phnum : load16 first (elfHdr + 44) = imageHalf disk 44 := scratch.load16 44 (by omega)
  have ph : elfHdr + imageWord disk 28 = phAt disk 0 := by
    rw [phAt, ePhoff, Nat.mul_zero, Nat.add_zero, BitVec.ofNat_toNat, BitVec.setWidth_eq]
  have eph : phAt disk 0 + 32 * (imageHalf disk 44).setWidth 32 = phAt disk (ePhnum disk) := by
    have count : (imageHalf disk 44).setWidth 32 = BitVec.ofNat 32 (ePhnum disk) :=
      (BitVec.ofNat_toNat _ _).symm
    rw [phAt, phAt, count, BitVec.add_assoc, Nat.mul_zero, Nat.add_zero, BitVec.ofNat_add,
      BitVec.ofNat_mul]
    rfl
  have entry : load32 (MemoryWrites.written (loadWrite disk) (ePhnum disk) first)
      (elfHdr + 24) = imageWord disk 24 :=
    (scratch.written loadable (Nat.le_refl _)).load32 24 (by omega)
  refine ⟨first, ?_⟩
  rw [cmain, read, ok_bind]
  simp only [magic, phoff, phnum, ph, eph, ne_eq, not_true, if_false,
    headerLoop_entered scratch loadable, ok_bind, entry]
  rfl

end Scratch

/-! What is in memory when the kernel is entered -/

section Loaded

variable {disk : Disk} {j a : Nat}

theorem inSectors_of_inSegment (inside : inSegment disk j a) :
    inSectors (pStart disk j) (pMemsz disk j) a := by
  obtain ⟨low, high⟩ := inside
  rw [inSectors, decide_eq_true_iff]
  exact ⟨Nat.le_trans (Nat.div_mul_le_self _ _) low,
    Nat.lt_of_le_of_lt (Nat.div_mul_le_self _ _) high⟩

theorem Loadable.sameOffset (loadable : Loadable disk) (inside : j < ePhnum disk) :
    pStart disk j % sectSize = pOffset disk j % sectSize := by
  have congruent : (pVa disk j).toNat % 4096 = pOffset disk j % 4096 := loadable.congruent j inside
  have mask : (0xFFFFFF : Word).toNat = 2 ^ 24 - 1 := rfl
  have start : pStart disk j = (pVa disk j).toNat % 2 ^ 24 := by
    rw [pStart, BitVec.toNat_and, mask, Nat.and_two_pow_sub_one_eq_mod]
  have size : sectSize = 512 := rfl
  rw [size]
  omega

theorem loadWrite_value (loadable : Loadable disk) (inside : j < ePhnum disk) {address : Word}
    (covered : (loadWrite disk j).covers address) :
    (loadWrite disk j).value address =
      image disk (pOffset disk j + address.toNat - pStart disk j) := by
  have same := loadable.sameOffset inside
  have size : sectSize = 512 := rfl
  have sectors : inSectors (pStart disk j) (pMemsz disk j) address.toNat := covered
  rw [inSectors, decide_eq_true_iff, sectorStart, size] at sectors
  rw [size] at same
  have source : sectSize + sectorStart (pOffset disk j) +
      (address.toNat - sectorStart (pStart disk j)) =
      sectSize + (pOffset disk j + address.toNat - pStart disk j) := by
    rw [sectorStart, sectorStart, size]
    omega
  exact congrArg disk source

theorem written_last (loadable : Loadable disk) (first : Memory) {address : Word}
    (last : MemoryWrites.Last (loadWrite disk) (ePhnum disk) address j) :
    MemoryWrites.written (loadWrite disk) (ePhnum disk) first address =
      image disk (pOffset disk j + address.toNat - pStart disk j) := by
  rw [last.written, loadWrite_value loadable last.inside last.covers]

theorem segmentsLoaded_iff (loadable : Loadable disk) (first : Memory) :
    SegmentsLoaded disk (MemoryWrites.written (loadWrite disk) (ePhnum disk) first) ↔
      SharedSectorsAgree disk := by
  have address : ∀ i < ePhnum disk, ∀ a, inSegment disk i a → (BitVec.ofNat 32 a).toNat = a := by
    intro i inside a segment
    have below := loadable.below i inside
    have high := segment.2
    rw [BitVec.toNat_ofNat]
    omega
  constructor
  · intro loaded j inside i earlier a segment sectors latest
    have word := address i (by omega) a segment
    have last : MemoryWrites.Last (loadWrite disk) (ePhnum disk) (BitVec.ofNat 32 a) j := by
      refine ⟨inside, ?_, ?_⟩
      · exact (congrArg (inSectors (pStart disk j) (pMemsz disk j)) word).trans sectors
      · intro l later less covers
        apply latest l less later
        exact (congrArg (inSectors (pStart disk l) (pMemsz disk l)) word).symm.trans covers
    have here := loaded i (by omega) (a - pStart disk i) (by have := segment.1; have := segment.2; omega)
    have back : pStart disk i + (a - pStart disk i) = a := Nat.add_sub_of_le segment.1
    rw [back, written_last loadable first last, word] at here
    rw [Nat.add_sub_assoc segment.1]
    exact here.symm
  · intro agree i inside k small
    have segment : inSegment disk i (pStart disk i + k) := ⟨by omega, by omega⟩
    have word := address i inside _ segment
    have covers : (loadWrite disk i).covers (BitVec.ofNat 32 (pStart disk i + k)) := by
      exact (congrArg (inSectors (pStart disk i) (pMemsz disk i)) word).trans
        (inSectors_of_inSegment segment)
    obtain ⟨j, atLeast, last⟩ := MemoryWrites.exists_last inside covers
    rw [written_last loadable first last, word]
    rcases Nat.eq_or_lt_of_le atLeast with rfl | later
    · congr 1
      omega
    · have sectors : inSectors (pStart disk j) (pMemsz disk j) (pStart disk i + k) :=
        (congrArg (inSectors (pStart disk j) (pMemsz disk j)) word).symm.trans last.covers
      have latest : ∀ l < ePhnum disk, j < l →
          ¬inSectors (pStart disk l) (pMemsz disk l) (pStart disk i + k) := by
        intro l less after sectors
        apply last.latest l after less
        exact (congrArg (inSectors (pStart disk l) (pMemsz disk l)) word).trans sectors
      rw [← agree j last.inside i later _ segment sectors latest]
      congr 1
      omega

end Loaded

def BootLoads (disk : Disk) (mem : Memory) : Prop :=
  ∃ entry mem', cmain disk mem = .ok (.entered entry mem') ∧ SegmentsLoaded disk mem'

theorem BootLoads.agree {disk : Disk} {mem : Memory} (boots : BootLoads disk mem)
    (loadable : Loadable disk) : SharedSectorsAgree disk := by
  obtain ⟨entry, mem', result, loaded⟩ := boots
  obtain ⟨first, entered⟩ := cmain_entered loadable mem
  rw [entered] at result
  cases result
  exact (segmentsLoaded_iff loadable first).mp loaded

/-- The segments are all in memory just if no sector that is shared takes a byte away. -/
theorem bootLoads_iff {disk : Disk} (loadable : Loadable disk) (mem : Memory) :
    BootLoads disk mem ↔ SharedSectorsAgree disk := by
  constructor
  · exact fun boots => boots.agree loadable
  · intro agree
    obtain ⟨first, entered⟩ := cmain_entered loadable mem
    exact ⟨_, _, entered, (segmentsLoaded_iff loadable first).mpr agree⟩

/-- Segments that share a sector and lie in the image as they do in memory do no harm. -/
theorem sharedSectorsAgree_of_distance {disk : Disk}
    (distance : ∀ j < ePhnum disk, ∀ i < j, ∀ a, inSegment disk i a →
      inSectors (pStart disk j) (pMemsz disk j) a →
      pOffset disk j + pStart disk i = pOffset disk i + pStart disk j) :
    SharedSectorsAgree disk := by
  intro j inside i earlier a segment sectors _
  have same := distance j inside i earlier a segment sectors
  have place : pOffset disk i + a - pStart disk i = pOffset disk j + a - pStart disk j := by omega
  rw [place]

def sharingHeaders (page : Byte) : List Byte :=
  [0x7F, 0x45, 0x4C, 0x46] ++ List.replicate 24 0 ++ [52, 0, 0, 0] ++ List.replicate 12 0 ++
    [2, 0] ++ List.replicate 6 0 ++
    [0, 0, 0, 0, 0, 0x10, 0, 0, 0, 0, 0x10, 0xF0] ++ List.replicate 8 0 ++
    [16, 0, 0, 0] ++ List.replicate 8 0 ++
    [0, 0, 0, 0, 16, page, 0, 0, 16, 0, 0x10, 0xF0] ++ List.replicate 8 0 ++
    [16, 0, 0, 0] ++ List.replicate 8 0

def sharingDisk (page : Byte) : Disk := fun n =>
  if n = sectSize + 0x1000 then 0x90 else (sharingHeaders page).getD (n - sectSize) 0

section Sharing

variable (page : Byte)

theorem image_sharingDisk (k : Nat) : image (sharingDisk page) k =
    if k = 0x1000 then 0x90 else (sharingHeaders page).getD k 0 := by
  rw [image, sharingDisk, Nat.add_sub_cancel_left]
  simp only [Nat.add_left_cancel_iff]

theorem imageHalf_sharingDisk {k : Nat} (inside : k + 1 < 0x1000) :
    imageHalf (sharingDisk page) k =
      (sharingHeaders page).getD (k + 1) 0 ++ (sharingHeaders page).getD k 0 := by
  rw [imageHalf, image_sharingDisk, image_sharingDisk, if_neg (by omega), if_neg (by omega)]

theorem imageWord_sharingDisk {k : Nat} (inside : k + 3 < 0x1000) :
    imageWord (sharingDisk page) k =
      ((sharingHeaders page).getD (k + 3) 0 ++ (sharingHeaders page).getD (k + 2) 0) ++
        ((sharingHeaders page).getD (k + 1) 0 ++ (sharingHeaders page).getD k 0) := by
  rw [imageWord, imageHalf_sharingDisk page (by omega), imageHalf_sharingDisk page (by omega)]

theorem sharingDisk_phoff : ePhoff (sharingDisk page) = 52 := by
  rw [ePhoff, imageWord_sharingDisk page (by decide)]
  simp [sharingHeaders]

theorem sharingDisk_phnum : ePhnum (sharingDisk page) = 2 := by
  rw [ePhnum, imageHalf_sharingDisk page (by decide)]
  simp [sharingHeaders]

theorem headerField_sharingDisk {j field : Nat} (inside : 52 + 32 * j + field + 3 < 0x1000) :
    headerField (sharingDisk page) j field =
      ((sharingHeaders page).getD (52 + 32 * j + field + 3) 0 ++
        (sharingHeaders page).getD (52 + 32 * j + field + 2) 0) ++
      ((sharingHeaders page).getD (52 + 32 * j + field + 1) 0 ++
        (sharingHeaders page).getD (52 + 32 * j + field) 0) := by
  rw [headerField, sharingDisk_phoff, imageWord_sharingDisk page inside]

theorem sharingDisk_va : pVa (sharingDisk page) 0 = 0xF0100000 ∧
    pVa (sharingDisk page) 1 = 0xF0100010 := by
  rw [pVa, pVa, headerField_sharingDisk page (by decide), headerField_sharingDisk page (by decide)]
  simp [sharingHeaders]

theorem sharingDisk_first : pStart (sharingDisk page) 0 = 0x100000 ∧
    pMemsz (sharingDisk page) 0 = 16 ∧ pOffset (sharingDisk page) 0 = 0x1000 := by
  rw [pStart, (sharingDisk_va page).1, pMemsz, pOffset, headerField_sharingDisk page (by decide),
    headerField_sharingDisk page (by decide)]
  simp [sharingHeaders]

theorem sharingDisk_second : pStart (sharingDisk page) 1 = 0x100010 ∧
    pMemsz (sharingDisk page) 1 = 16 ∧ pOffset (sharingDisk page) 1 = 256 * page.toNat + 16 := by
  have offset : ((0 : BitVec 16) ++ (page ++ (16 : Byte))).toNat = 256 * page.toNat + 16 := by
    have small : (16 : Byte).toNat < 2 ^ 8 := by decide
    rw [BitVec.toNat_append, BitVec.toNat_append, ← Nat.shiftLeft_add_eq_or_of_lt small,
      Nat.shiftLeft_eq]
    simp
    omega
  rw [pStart, (sharingDisk_va page).2, pMemsz, pOffset, headerField_sharingDisk page (by decide),
    headerField_sharingDisk page (by decide)]
  rw [← offset]
  simp [sharingHeaders]

theorem sharingDisk_loadable (pages : page.toNat * 256 % 4096 = 0) :
    Loadable (sharingDisk page) := by
  have base : elfHdr.toNat = 0x10000 := rfl
  have count := sharingDisk_phnum page
  obtain ⟨start, memsz, offset⟩ := sharingDisk_first page
  obtain ⟨start', memsz', offset'⟩ := sharingDisk_second page
  have va : (pVa (sharingDisk page) 0).toNat = 0xF0100000 := by
    rw [(sharingDisk_va page).1]
    rfl
  have va' : (pVa (sharingDisk page) 1).toNat = 0xF0100010 := by
    rw [(sharingDisk_va page).2]
    rfl
  constructor
  case magic =>
    rw [imageWord_sharingDisk page (by decide)]
    simp [sharingHeaders, elfMagic]
  case headers =>
    rw [sharingDisk_phoff, count]
    decide
  case increasing =>
    intro j inside i earlier
    obtain ⟨rfl, rfl⟩ : j = 1 ∧ i = 0 := by omega
    omega
  case disjoint =>
    intro j inside i earlier a first second
    obtain ⟨rfl, rfl⟩ : j = 1 ∧ i = 0 := by omega
    have before := first.2
    have behind := second.1
    omega
  case above =>
    intro j inside
    obtain rfl | rfl : j = 0 ∨ j = 1 := by omega
    · omega
    · omega
  case below =>
    intro j inside
    obtain rfl | rfl : j = 0 ∨ j = 1 := by omega
    · omega
    · omega
  case congruent =>
    intro j inside
    obtain rfl | rfl : j = 0 ∨ j = 1 := by omega
    · rw [Nat.ModEq, va, offset]
    · rw [Nat.ModEq, va', offset']
      omega

end Sharing

/-- In the image the second segment follows the first one, as it does in memory. -/
theorem bootLoads_iff_adjoining :
    BootLoads (sharingDisk 0x10) (fun _ => 0) := by
  have loadable : Loadable (sharingDisk 0x10) := sharingDisk_loadable 0x10 (by decide)
  obtain ⟨start, _, offset⟩ := sharingDisk_first 0x10
  obtain ⟨start', _, offset'⟩ := sharingDisk_second 0x10
  have page : (0x10 : Byte).toNat = 16 := by decide
  refine (bootLoads_iff loadable _).mpr (sharedSectorsAgree_of_distance ?_)
  intro j inside i earlier a _ _
  rw [sharingDisk_phnum] at inside
  obtain ⟨rfl, rfl⟩ : j = 1 ∧ i = 0 := by omega
  omega

/-- The byte 0x90 at the start of the first segment is lost. -/
theorem not_bootLoads_sharing :
    Loadable (sharingDisk 0x20) ∧ ¬BootLoads (sharingDisk 0x20) (fun _ => 0) := by
  have loadable : Loadable (sharingDisk 0x20) := sharingDisk_loadable 0x20 (by decide)
  obtain ⟨start, memsz, offset⟩ := sharingDisk_first 0x20
  obtain ⟨start', memsz', offset'⟩ := sharingDisk_second 0x20
  have page : (0x20 : Byte).toNat = 32 := by decide
  refine ⟨loadable, ?_⟩
  intro boots
  have segment : inSegment (sharingDisk 0x20) 0 0x100000 := by
    rw [inSegment, start, memsz]
    decide
  have sectors : inSectors (pStart (sharingDisk 0x20) 1) (pMemsz (sharingDisk 0x20) 1) 0x100000 := by
    rw [start', memsz']
    decide
  have agree := boots.agree loadable 1 (by rw [sharingDisk_phnum]; decide) 0 Nat.zero_lt_one _ segment
    sectors (by
      intro l inside later
      rw [sharingDisk_phnum] at inside
      omega)
  rw [start, start', offset, offset', page, image_sharingDisk, image_sharingDisk] at agree
  exact absurd agree (by decide)

end FosV2
