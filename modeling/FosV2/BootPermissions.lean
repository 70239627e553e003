import FosV2.BootUnmapped

/-!
The permissions of kernel space after boot, as the processor composes them from the two
levels, against those of the memory map in `inc/memlayout.h`. The directory entry of
`UENVS` is opened to the user after its range is mapped; that of `READ_ONLY_FRAMES_INFO`
is not.
-/

namespace FosV2

structure Permission where
  present : Bool
  writeable : Bool
  user : Bool
  deriving DecidableEq, Repr

def hasBits (entry bits : Word) : Bool := entry &&& bits = bits

def permissionOf (entry : Word) : Permission :=
  ⟨hasBits entry permPresent, hasBits entry permWriteable, hasBits entry permUser⟩

def effectivePermission (σ : State) (pgdir : Nat) (va : Word) : Permission :=
  let directoryEntry := σ.memory pgdir (pdx va)
  permissionOf (directoryEntry &&& σ.memory (entryFrame directoryEntry) (ptx va))

-- "RW/--" and "R-/R-" in the memory map.
def kernelOnly : Permission := ⟨true, true, false⟩
def userReadOnly : Permission := ⟨true, false, true⟩

/-- The memory map's permission for the pages that `initialize_kernel_VM` maps. -/
def documentedPermission (va : Word) : Permission :=
  if uenvs ≤ va ∧ va < uvpt then userReadOnly else kernelOnly

def AsDocumented (vm : KernelVM) (va : Word) : Prop :=
  effectivePermission vm.state vm.ptrPageDirectory va = documentedPermission va

def PermissionsDocumented (vm : KernelVM) : Prop :=
  ∀ va, InMappedRange vm.state.numberOfFrames va → AsDocumented vm va

theorem hasBits_and (entry other bits : Word) :
    hasBits (entry &&& other) bits = (hasBits entry bits && hasBits other bits) := by
  rw [Bool.eq_iff_iff, Bool.and_eq_true]
  simp only [hasBits, decide_eq_true_iff]
  constructor
  · intro both
    have bit (i : Nat) := congrArg (fun word : Word => word.getLsbD i) both
    constructor <;>
    · apply BitVec.eq_of_getLsbD_eq
      intro i _
      have at_i := bit i
      simp only [BitVec.getLsbD_and] at at_i ⊢
      revert at_i
      cases entry.getLsbD i <;> cases other.getLsbD i <;> cases bits.getLsbD i <;> simp
  · rintro ⟨first, second⟩
    rw [BitVec.and_assoc, second, first]

theorem permissionOf_and (entry other : Word) : permissionOf (entry &&& other) =
    ⟨(permissionOf entry).present && (permissionOf other).present,
      (permissionOf entry).writeable && (permissionOf other).writeable,
      (permissionOf entry).user && (permissionOf other).user⟩ := by
  simp only [permissionOf, hasBits_and]

theorem aligned_and_low {pa bits : Word} (aligned : pa.toNat % 4096 = 0) (low : bits.toNat < 4096) :
    pa &&& bits = 0 := by
  obtain ⟨high, eq⟩ := Nat.dvd_of_mod_eq_zero aligned
  apply BitVec.eq_of_getLsbD_eq
  intro i _
  rw [BitVec.getLsbD_and, BitVec.getLsbD, BitVec.getLsbD, eq]
  by_cases below : i < 12
  · have clear : (4096 * high).testBit i = false := by
      rw [show 4096 = 2 ^ 12 by rfl, Nat.testBit_two_pow_mul]
      simp [below]
    rw [clear]
    simp
  · have small : bits.toNat < 2 ^ i :=
      Nat.lt_of_lt_of_le low (Nat.pow_le_pow_right (n := 2) (by omega) (Nat.not_lt.mp below))
    rw [Nat.testBit_lt_two_pow small]
    simp

theorem hasBits_constructEntry {pa bits : Word} (aligned : pa.toNat % 4096 = 0)
    (low : bits.toNat < 4096) (perm : Word) :
    hasBits (constructEntry pa perm) bits = hasBits perm bits := by
  have distributed : constructEntry pa perm &&& bits = perm &&& bits := by
    have clear := aligned_and_low aligned low
    have bit (i : Nat) := congrArg (fun word : Word => word.getLsbD i) clear
    apply BitVec.eq_of_getLsbD_eq
    intro i _
    have at_i := bit i
    simp only [constructEntry, BitVec.getLsbD_and, BitVec.getLsbD_or] at at_i ⊢
    revert at_i
    cases pa.getLsbD i <;> cases bits.getLsbD i <;> simp
  simp only [hasBits, distributed]

theorem permissionOf_constructEntry {pa : Word} (aligned : pa.toNat % 4096 = 0) (perm : Word) :
    permissionOf (constructEntry pa perm) = permissionOf perm := by
  have low : permPresent.toNat < 4096 ∧ permWriteable.toNat < 4096 ∧ permUser.toNat < 4096 := by
    decide
  simp only [permissionOf, hasBits_constructEntry aligned low.1 perm,
    hasBits_constructEntry aligned low.2.1 perm, hasBits_constructEntry aligned low.2.2 perm]

theorem permissionOf_bootTableEntry {table : Nat} (fits : table < 1048576) (more : Word) :
    permissionOf (bootTableEntry table ||| more) =
      permissionOf (permPresent ||| permWriteable ||| more) := by
  have aligned : (toPhysicalAddress table).toNat % 4096 = 0 := by
    rw [toPhysicalAddress_toNat fits]
    omega
  rw [bootTableEntry, constructEntry, BitVec.or_assoc]
  exact permissionOf_constructEntry aligned _

theorem permissionOf_entry {range : BootRange} (aligned : range.physicalAddress.toNat % 4096 = 0)
    (page : Nat) : permissionOf (range.entry page) = permissionOf (range.perm ||| permPresent) := by
  apply permissionOf_constructEntry
  rw [BitVec.toNat_add, toPhysicalAddress_eq, BitVec.toNat_ofNat]
  omega

section Space

variable {image : BootImage} {σ₀ σ : State} {va : Word}

theorem effectivePermission_eq {pgdir table i : Nat} {more : Word} {range : BootRange} {page : Nat}
    (window : pdx va = i) (fits : table < 1048576)
    (named : σ.memory pgdir i = bootTableEntry table ||| more)
    (target : entryFrame (σ.memory pgdir i) = table)
    (maps : σ.memory table (ptx va) = range.entry page)
    (aligned : range.physicalAddress.toNat % 4096 = 0) :
    effectivePermission σ pgdir va =
      permissionOf ((permPresent ||| permWriteable ||| more) &&& (range.perm ||| permPresent)) := by
  subst window
  rw [effectivePermission, target, maps, named, permissionOf_and, permissionOf_and,
    permissionOf_bootTableEntry fits, permissionOf_entry aligned]

variable (space : KernelSpace image σ₀ σ)
include space

theorem KernelSpace.permission_stack (window : pdx va = 958) (slot : 1016 ≤ ptx va) :
    effectivePermission σ image.directory va = kernelOnly := by
  have bounds := image.directory_bounds
  have fits : image.stackTable < 1048576 := by
    unfold BootImage.stackTable
    omega
  have inside : ptx va < 1024 := nptEntries_eq ▸ ptx_lt va
  have target : entryFrame (σ.memory image.directory 958) = image.stackTable := by
    rw [space.stackWindow, entryFrame_bootTableEntry fits]
  have maps := space.stack (ptx va) inside
  rw [if_pos slot] at maps
  rw [effectivePermission_eq window fits (space.stackWindow.trans BitVec.or_zero.symm) target maps
    (stackBottom_aligned image)]
  change permissionOf (_ &&& (permWriteable ||| permPresent)) = _
  decide

theorem KernelSpace.permission_kernel (window : 960 ≤ pdx va) :
    effectivePermission σ image.directory va = kernelOnly := by
  have bounds := image.directory_bounds
  have framesInfo : image.framesInfo = image.directory + 66 := rfl
  have inside : ptx va < 1024 := nptEntries_eq ▸ ptx_lt va
  have high : pdx va < 1024 := by
    have wide := va.isLt
    rw [pdx_eq]
    omega
  obtain ⟨table, _, above, entry, content⟩ := space.kernelWindow (pdx va) window high
  have fits : table < 1048576 := by omega
  have target : entryFrame (σ.memory image.directory (pdx va)) = table := by
    rw [entry, entryFrame_bootTableEntry fits]
  rw [effectivePermission_eq rfl fits (entry.trans BitVec.or_zero.symm) target
    (content (ptx va) inside) (by decide : (0 : Word).toNat % 4096 = 0)]
  change permissionOf (_ &&& (permWriteable ||| permPresent)) = _
  decide

variable (limit : σ₀.numberOfFrames ≤ 16639)
include limit

/-- The user cannot read the image of `frames_info`: the directory entry stops it. -/
theorem KernelSpace.permission_framesInfo (window : pdx va = 956)
    (slot : ptx va < framesInfoPages σ₀.numberOfFrames) :
    effectivePermission σ image.directory va = ⟨true, false, false⟩ := by
  have bounds := image.directory_bounds
  have few := framesInfoPages_le limit
  have framesInfo : image.framesInfo = image.directory + 66 := rfl
  have fits : image.framesTable σ₀.numberOfFrames < 1048576 := by
    unfold BootImage.framesTable
    omega
  have inside : ptx va < 1024 := nptEntries_eq ▸ ptx_lt va
  have target : entryFrame (σ.memory image.directory 956) =
      image.framesTable σ₀.numberOfFrames := by
    rw [space.framesWindow, entryFrame_bootTableEntry fits]
  have maps := space.framesInfo (ptx va) inside
  rw [if_pos slot] at maps
  have aligned : image.framesRange.physicalAddress.toNat % 4096 = 0 := by
    change (toPhysicalAddress image.framesInfo).toNat % 4096 = 0
    rw [toPhysicalAddress_toNat (by omega)]
    omega
  rw [effectivePermission_eq window fits (space.framesWindow.trans BitVec.or_zero.symm) target maps
    aligned]
  change permissionOf (_ &&& (permUser ||| permPresent)) = _
  decide

theorem KernelSpace.permission_envs (window : pdx va = 955) (slot : ptx va < 25) :
    effectivePermission σ image.directory va = userReadOnly := by
  have bounds := image.directory_bounds
  have few := framesInfoPages_le limit
  have envs : image.envs σ₀.numberOfFrames =
    image.directory + 67 + framesInfoPages σ₀.numberOfFrames := rfl
  have fits : image.envsTable σ₀.numberOfFrames < 1048576 := by
    unfold BootImage.envsTable
    omega
  have inside : ptx va < 1024 := nptEntries_eq ▸ ptx_lt va
  have target : entryFrame (σ.memory image.directory 955) = image.envsTable σ₀.numberOfFrames := by
    rw [space.envsWindow, entryFrame_or fits]
  have maps := space.envs (ptx va) inside
  rw [if_pos slot] at maps
  have aligned : (image.envsRange σ₀.numberOfFrames).physicalAddress.toNat % 4096 = 0 := by
    change (toPhysicalAddress (image.envs σ₀.numberOfFrames)).toNat % 4096 = 0
    rw [toPhysicalAddress_toNat (by omega)]
    omega
  rw [effectivePermission_eq window fits space.envsWindow target maps aligned]
  change permissionOf (_ &&& (permUser ||| permPresent)) = _
  decide

end Space

theorem documentedPermission_eq (va : Word) : documentedPermission va =
    if pdx va = 955 ∨ pdx va = 956 then userReadOnly else kernelOnly := by
  have low : uenvs.toNat = 4005560320 := by decide
  have high : uvpt.toNat = 4013948928 := by decide
  have same : uenvs ≤ va ∧ va < uvpt ↔ pdx va = 955 ∨ pdx va = 956 := by
    rw [BitVec.le_def, BitVec.lt_def, low, high, pdx_eq]
    omega
  simp only [documentedPermission, same]

theorem inRange_framesInfo_iff (numberOfFrames : Nat) (limit : numberOfFrames ≤ 16639) (va : Word) :
    InRange readOnlyFramesInfo (numberOfFrames * 12) va ↔
      pdx va = 956 ∧ ptx va < framesInfoPages numberOfFrames := by
  have start : readOnlyFramesInfo.toNat = 4009754624 := by decide
  have wide := va.isLt
  rw [InRange, start, pdx_eq, ptx_eq]
  unfold framesInfoPages
  omega

section Documented

variable {image : BootImage} {σ₀ : State} {vm : KernelVM}
  (space : KernelSpace image σ₀ vm.state) (pgdir : vm.ptrPageDirectory = image.directory)
  (limit : σ₀.numberOfFrames ≤ 16639)
include space pgdir limit

theorem KernelSpace.asDocumented_iff {va : Word} (mapped : InMappedRange σ₀.numberOfFrames va) :
    AsDocumented vm va ↔ ¬InRange readOnlyFramesInfo (σ₀.numberOfFrames * 12) va := by
  rw [inRange_framesInfo_iff _ limit, AsDocumented, pgdir, documentedPermission_eq]
  rw [inMappedRange_iff limit] at mapped
  rcases mapped with ⟨window, slot⟩ | window | ⟨window, slot⟩ | ⟨window, slot⟩
  · rw [space.permission_stack window slot, if_neg (by omega)]
    simp [window]
  · rw [space.permission_kernel window, if_neg (by omega)]
    simp only [true_iff]
    omega
  · rw [space.permission_framesInfo limit window slot, if_pos (Or.inr window)]
    constructor
    · intro same
      cases same
    · exact fun other => absurd ⟨window, slot⟩ other
  · rw [space.permission_envs limit window slot, if_pos (Or.inl window)]
    simp [window]

/-- The first page of the image of `frames_info` is always there. -/
theorem KernelSpace.not_permissionsDocumented : ¬PermissionsDocumented vm := by
  intro documented
  have enough := space.enough
  have place : image.firstFree σ₀.numberOfFrames =
    image.directory + 93 + framesInfoPages σ₀.numberOfFrames := rfl
  have window : pdx readOnlyFramesInfo = 956 := by decide
  have slot : ptx readOnlyFramesInfo = 0 := by decide
  have pages : 0 < framesInfoPages σ₀.numberOfFrames := by
    unfold framesInfoPages
    omega
  have mapped : InMappedRange σ₀.numberOfFrames readOnlyFramesInfo := by
    rw [inMappedRange_iff limit, window, slot]
    omega
  have asDocumented := documented readOnlyFramesInfo (space.sameFrames.symm ▸ mapped)
  rw [space.asDocumented_iff pgdir limit mapped, inRange_framesInfo_iff _ limit] at asDocumented
  exact asDocumented ⟨window, slot ▸ pages⟩

end Documented

theorem kernelSpace_of_booted {image : BootImage} {σ : State} {vm : KernelVM}
    (unused : σ.ptrFreeMem = 0) (limit : σ.numberOfFrames ≤ 16639)
    (booted : initializeKernelVM image σ = .ok vm) :
    vm.ptrPageDirectory = image.directory ∧ KernelSpace image σ vm.state := by
  rcases initializeKernelVM_cases image unused limit with
    ⟨vm', returned, pgdir, space⟩ | ⟨⟨stop, failed⟩, _⟩
  · rw [booted] at returned
    cases returned
    exact ⟨pgdir, space⟩
  · rw [booted] at failed
    cases failed

/-- After every boot that succeeds the permissions are the documented ones except on the
image of `frames_info`, and so never all of them. -/
theorem documented_except_framesInfo {image : BootImage} {σ : State} {vm : KernelVM}
    {baseReading extendedReading : BitVec 16} (unused : σ.ptrFreeMem = 0)
    (detected : σ.numberOfFrames =
      (detectMemory baseReading extendedReading).numberOfFrames.toNat)
    (booted : initializeKernelVM image σ = .ok vm) :
    (∀ va, InMappedRange σ.numberOfFrames va →
        (AsDocumented vm va ↔ ¬InRange readOnlyFramesInfo (σ.numberOfFrames * 12) va)) ∧
      ¬PermissionsDocumented vm := by
  have limit := numberOfFrames_detectMemory baseReading extendedReading
  rw [← detected] at limit
  obtain ⟨pgdir, space⟩ := kernelSpace_of_booted unused limit booted
  exact ⟨fun va mapped => space.asDocumented_iff pgdir limit mapped,
    space.not_permissionsDocumented pgdir limit⟩

theorem fourMegabytes_boots : ∃ vm, initializeKernelVM exampleImage (fourMegabytes 0) = .ok vm ∧
    vm.ptrPageDirectory = exampleImage.directory ∧
      KernelSpace exampleImage (fourMegabytes 0) vm.state := by
  have limit : (fourMegabytes 0).numberOfFrames ≤ 16639 := by decide
  rcases initializeKernelVM_cases exampleImage rfl limit with booted | ⟨_, short⟩
  · exact booted
  · exact absurd short (by decide)

theorem documented_except_framesInfo_fourMegabytes :
    ∃ vm, initializeKernelVM exampleImage (fourMegabytes 0) = .ok vm ∧
      AsDocumented vm uenvs ∧ ¬AsDocumented vm readOnlyFramesInfo := by
  obtain ⟨vm, booted, _⟩ := fourMegabytes_boots
  have detected : (fourMegabytes 0).numberOfFrames =
    (detectMemory 640 3072).numberOfFrames.toNat := by decide
  have documented := (documented_except_framesInfo rfl detected booted).1
  have limit : (fourMegabytes 0).numberOfFrames ≤ 16639 := by decide
  refine ⟨vm, booted, ?_, ?_⟩
  · have mapped : InMappedRange (fourMegabytes 0).numberOfFrames uenvs :=
      (inMappedRange_iff limit uenvs).mpr (by decide)
    rw [documented uenvs mapped, inRange_framesInfo_iff _ limit]
    decide
  · have mapped : InMappedRange (fourMegabytes 0).numberOfFrames readOnlyFramesInfo :=
      (inMappedRange_iff limit readOnlyFramesInfo).mpr (by decide)
    rw [documented readOnlyFramesInfo mapped, inRange_framesInfo_iff _ limit]
    decide

theorem not_permissionsDocumented_fourMegabytes :
    ∃ vm, initializeKernelVM exampleImage (fourMegabytes 0) = .ok vm ∧
      ¬PermissionsDocumented vm := by
  obtain ⟨vm, booted, pgdir, space⟩ := fourMegabytes_boots
  exact ⟨vm, booted, space.not_permissionsDocumented pgdir (by decide)⟩

end FosV2
