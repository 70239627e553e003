import FosV2.AlignedWord

/-!
Constants and macros of `inc/memlayout.h`, `inc/mmu.h`, `inc/types.h`, `inc/error.h`, and
the address macros of `kern/helpers.h`. Addresses, entries and C integers are 32-bit words.
-/

namespace FosV2

abbrev Word := BitVec 32

def pageSize : Word := 4096
def npdEntries : Nat := 1024
@[irreducible] def nptEntries : Nat := 1024
def ptSize : Word := 4096 * 1024

def permPresent : Word := 0x001
def permWriteable : Word := 0x002
def permUser : Word := 0x004
def permAvailable : Word := 0xE00

def kernelBase : Word := 0xF0000000
def physIoMem : Word := 0x0A0000
def physExtendedMem : Word := 0x100000
def vpt : Word := kernelBase - ptSize
def kernelStackTop : Word := vpt
def kernelStackSize : Word := 8 * pageSize
def userLimit : Word := kernelStackTop - ptSize
def uvpt : Word := userLimit - ptSize
def readOnlyFramesInfo : Word := uvpt - ptSize
def uenvs : Word := readOnlyFramesInfo - ptSize
def userTop : Word := uenvs

def eBadEnv : Word := -2
def eInval : Word := -3
def eNoMem : Word := -4

def ppn (la : Word) : Nat := (la >>> 12).toNat
def pdx (la : Word) : Nat := ((la >>> 22) &&& 0x3FF).toNat
def ptx (la : Word) : Nat := ((la >>> 12) &&& 0x3FF).toNat

@[irreducible] def userEntries : Nat := pdx userTop

def extractAddress (entry : Word) : Word := entry &&& ~~~0xFFF
def constructEntry (physFrameAddress permissions : Word) : Word := physFrameAddress ||| permissions

def roundDown (a n : Word) : Word := a - a % n
def roundUp (a n : Word) : Word := roundDown (a + n - 1) n

/-- `to_physical_address`; a `struct Frame_Info *` is its index in `frames_info`. -/
def toPhysicalAddress (frame : Nat) : Word := BitVec.ofNat 32 frame <<< 12

def entryFrame (entry : Word) : Nat := ppn (extractAddress entry)

theorem ppn_eq (la : Word) : ppn la = la.toNat / 4096 := by
  simp [ppn, Nat.shiftRight_eq_div_pow]

theorem pdx_eq (la : Word) : pdx la = la.toNat / 4194304 := by
  have field : pdx la = la.toNat / 4194304 % 1024 :=
    AlignedWord.toNat_field la 22 10 (by omega)
  have bound := la.isLt
  omega

theorem pdx_lt (la : Word) : pdx la < 1024 := by
  have bound := la.isLt
  rw [pdx_eq]
  omega

theorem ptx_eq (la : Word) : ptx la = la.toNat / 4096 % 1024 :=
  AlignedWord.toNat_field la 12 10 (by omega)

theorem nptEntries_eq : nptEntries = 1024 := by
  unfold nptEntries
  rfl

theorem ptx_lt (la : Word) : ptx la < nptEntries := by
  rw [ptx_eq, nptEntries_eq]
  omega

theorem ppn_eq_pdx_ptx (la : Word) : ppn la = pdx la * nptEntries + ptx la := by
  rw [ppn_eq, pdx_eq, ptx_eq, nptEntries_eq]
  omega

theorem ppn_div (la : Word) : ppn la / nptEntries = pdx la := by
  have slot : ptx la < nptEntries := ptx_lt la
  rw [ppn_eq_pdx_ptx]
  rw [nptEntries_eq] at slot ⊢
  omega

theorem ppn_mod (la : Word) : ppn la % nptEntries = ptx la := by
  have slot : ptx la < nptEntries := ptx_lt la
  rw [ppn_eq_pdx_ptx]
  rw [nptEntries_eq] at slot ⊢
  omega

theorem userEntries_eq : userEntries = 955 := by
  unfold userEntries
  decide

theorem pdx_lt_userEntries {va : Word} (below : va < userTop) : pdx va < userEntries := by
  have bound : va.toNat < 4005560320 := below
  rw [userEntries_eq, pdx_eq]
  omega

theorem extractAddress_toNat (entry : Word) :
    (extractAddress entry).toNat = entry.toNat / 4096 * 4096 :=
  AlignedWord.toNat_alignDown 12 entry

theorem entryFrame_eq (entry : Word) : entryFrame entry = entry.toNat / 4096 := by
  rw [entryFrame, ppn_eq, extractAddress_toNat]
  omega

@[simp] theorem entryFrame_zero : entryFrame 0 = 0 := by decide

@[simp] theorem extractAddress_zero : extractAddress 0 = 0 := by decide

theorem toPhysicalAddress_toNat {frame : Nat} (fits : frame < 1048576) :
    (toPhysicalAddress frame).toNat = frame * 4096 :=
  AlignedWord.toNat_ofNat_shiftLeft (w := 32) (k := 12) (by omega)

theorem ppn_toPhysicalAddress {frame : Nat} (fits : frame < 1048576) :
    ppn (toPhysicalAddress frame) = frame := by
  rw [ppn_eq, toPhysicalAddress_toNat fits]
  omega

theorem constructEntry_toNat {frame : Nat} {perm : Word} (fits : frame < 1048576)
    (small : perm.toNat < 4096) :
    (constructEntry (toPhysicalAddress frame) perm).toNat = frame * 4096 + perm.toNat := by
  rw [constructEntry, AlignedWord.toNat_or_of_aligned (k := 12) _ _ _ small,
    toPhysicalAddress_toNat fits]
  rw [toPhysicalAddress_toNat fits]
  exact ⟨frame, by omega⟩

theorem or_present_toNat_lt {perm : Word} (small : perm.toNat < 4096) :
    (perm ||| permPresent).toNat < 4096 := by
  rw [BitVec.toNat_or]
  exact Nat.or_lt_two_pow (n := 12) small (by decide)

/-- The entry the kernel writes for a frame: it names the frame, is present, and carries
exactly the permission bits asked for. -/
theorem entryFrame_constructEntry {frame : Nat} {perm : Word} (fits : frame < 1048576)
    (small : perm.toNat < 4096) :
    entryFrame (constructEntry (toPhysicalAddress frame) perm) = frame := by
  rw [entryFrame_eq, constructEntry_toNat fits small]
  omega

theorem extractAddress_eq_iff {entry : Word} {frame : Nat} (fits : frame < 1048576) :
    extractAddress entry = toPhysicalAddress frame ↔ entryFrame entry = frame := by
  rw [← BitVec.toNat_inj, extractAddress_toNat, toPhysicalAddress_toNat fits, entryFrame_eq]
  omega

def present (entry : Word) : Prop := entry &&& permPresent = permPresent

instance (entry : Word) : Decidable (present entry) :=
  inferInstanceAs (Decidable (entry &&& permPresent = permPresent))

theorem not_present_zero : ¬present 0 := by decide

theorem ne_zero_of_present {entry : Word} (isPresent : present entry) : entry ≠ 0 := by
  rintro rfl
  exact not_present_zero isPresent

theorem present_constructEntry (address perm : Word) :
    present (constructEntry address (perm ||| permPresent)) := by
  unfold present constructEntry
  apply BitVec.eq_of_getLsbD_eq
  intro i bound
  simp only [BitVec.getLsbD_and, BitVec.getLsbD_or]
  cases permPresent.getLsbD i <;> simp

def lowBits (entry : Word) : Word := entry &&& 0xFFF

theorem lowBits_toNat (entry : Word) : (lowBits entry).toNat = entry.toNat % 4096 := by
  have mask : (0xFFF : Word).toNat = 2 ^ 12 - 1 := by decide
  rw [lowBits, BitVec.toNat_and, mask, Nat.and_two_pow_sub_one_eq_mod]

theorem lowBits_constructEntry {frame : Nat} {perm : Word} (fits : frame < 1048576)
    (small : perm.toNat < 4096) : lowBits (constructEntry (toPhysicalAddress frame) perm) = perm := by
  apply BitVec.eq_of_toNat_eq
  rw [lowBits_toNat, constructEntry_toNat fits small]
  omega

end FosV2
