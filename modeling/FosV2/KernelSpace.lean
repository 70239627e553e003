import FosV2.AllocatePage
import FosV2.KernelVM
import Mathlib.Order.Interval.Finset.Nat

/-!
What `initialize_kernel_VM` leaves, word for word: the directory, the page tables of the
kernel half, and, in the slots that no range covers, whatever the frames held before.
-/

namespace FosV2

open TwoLevelTable

section Ranges

variable {kernel : KernelImage} {inside : Nat → Prop} {range : BootRange} {start pages count : Nat}
  {σ₀ σ : State} {size physicalAddress : Word}

theorem bootMapRange_cases (maps : MapsFrom kernel inside range start pages σ₀)
    (covers : (size.toNat + 4095) / 4096 = pages) (wide : pages < 1048576)
    (aligned : roundUp physicalAddress pageSize = range.physicalAddress) :
    (∃ σ, bootMapRange kernel.endOfKernel σ₀ range.pgdir (toPhysicalAddress range.firstPage)
        size physicalAddress range.perm = .ok σ ∧
          RangeMapped kernel inside range start σ₀ pages σ) ∨
      (∃ stop, bootMapRange kernel.endOfKernel σ₀ range.pgdir (toPhysicalAddress range.firstPage)
        size physicalAddress range.perm = .error stop) ∧
          σ₀.numberOfFrames < range.nextAfter σ₀ start pages := by
  cases result : bootMapRange kernel.endOfKernel σ₀ range.pgdir
      (toPhysicalAddress range.firstPage) size physicalAddress range.perm with
  | ok σ => exact Or.inl ⟨σ, rfl, bootMapRange_mapped maps covers wide aligned result⟩
  | error stop =>
      refine Or.inr ⟨⟨stop, rfl⟩, ?_⟩
      by_contra enough
      obtain ⟨σ, returned, _⟩ :=
        bootMapRange_returns maps covers wide aligned (Nat.not_lt.mp enough)
      rw [result] at returned
      cases returned

structure OneWindow (kernel : KernelImage) (range : BootRange) (w start count : Nat)
    (σ₀ σ : State) : Prop where
  next : NextFrame kernel σ (start + 1)
  sameFrames : σ.numberOfFrames = σ₀.numberOfFrames
  directory : ∀ i, σ.memory range.pgdir i =
    if i = w then bootTableEntry start else σ₀.memory range.pgdir i
  table : ∀ j < 1024, σ.memory start j =
    if range.Contains count (1024 * w + j) then range.entry (1024 * w + j) else σ₀.memory start j
  others : ∀ frame, frame ≠ range.pgdir → frame ≠ start → σ.memory frame = σ₀.memory frame
  checked : 1 < count → start < σ₀.numberOfFrames

theorem newWindows_oneWindow {w : Nat} (windows : ∀ k < count, range.window k = w)
    (some : 0 < count) (absent : σ₀.memory range.pgdir w = 0) :
    range.newWindows σ₀ count = {w} := by
  ext i
  rw [BootRange.mem_newWindows, Finset.mem_singleton]
  constructor
  · rintro ⟨⟨k, below, rfl⟩, _⟩
    exact windows k below
  · rintro rfl
    exact ⟨⟨0, some, windows 0 some⟩, absent⟩

theorem RangeMapped.oneWindow {w : Nat}
    (mapped : RangeMapped kernel (· = w) range start σ₀ count σ)
    (windows : ∀ k < count, range.window k = w) (some : 0 < count)
    (absent : σ₀.memory range.pgdir w = 0) (fits : start < 1048576) :
    OneWindow kernel range w start count σ₀ σ := by
  have new := newWindows_oneWindow windows some absent
  have after : range.nextAfter σ₀ start count = start + 1 := by
    rw [BootRange.nextAfter, new, Finset.card_singleton]
  obtain ⟨table, low, high, entry⟩ := mapped.made w (by rw [new, Finset.mem_singleton])
  rw [after] at high
  have first : table = start := by omega
  subst first
  have named := pageTable_of_bootTableEntry fits entry
  constructor
  · rw [← after]
    exact mapped.next
  · exact mapped.sameFrames
  · intro i
    by_cases same : i = w
    · rw [if_pos same, same, entry]
    · rw [if_neg same]
      apply mapped.old
      rw [new, Finset.mem_singleton]
      exact same
  · exact mapped.pages w rfl table named
  · intro frame notDirectory notTable
    apply mapped.others frame notDirectory
    rintro _ rfl other
    rw [named] at other
    exact notTable (Option.some.inj other).symm
  · intro two
    apply mapped.checked 0 two
    · rw [windows 0 some, windows 1 two]
    · rw [windows 0 some, named]

theorem OwnTables.of_absent {pgdir : Nat} (absent : ∀ w, inside w → σ.memory pgdir w = 0) :
    OwnTables inside pgdir start σ := by
  have none : ∀ w, inside w → ∀ table, pageTable σ pgdir w ≠ some table := by
    intro w covered table named
    exact (entryTarget_eq_some_iff.mp named).1 (absent w covered)
  refine ⟨?_, ?_⟩
  · intro w covered table named
    exact absurd named (none w covered table)
  · intro w _ table covered _ named
    exact absurd named (none w covered table)

theorem oneWindow_cases {w : Nat} (next : NextFrame kernel σ₀ start)
    (absent : σ₀.memory range.pgdir w = 0) (low : range.pgdir < start) (room : start + 1 < 65536)
    (windows : ∀ k < pages, range.window k = w) (some : 0 < pages) (inSpace : w < 1024)
    (covers : (size.toNat + 4095) / 4096 = pages)
    (aligned : roundUp physicalAddress pageSize = range.physicalAddress) :
    (∃ σ, bootMapRange kernel.endOfKernel σ₀ range.pgdir (toPhysicalAddress range.firstPage)
        size physicalAddress range.perm = .ok σ ∧ OneWindow kernel range w start pages σ₀ σ) ∨
      (∃ stop, bootMapRange kernel.endOfKernel σ₀ range.pgdir (toPhysicalAddress range.firstPage)
        size physicalAddress range.perm = .error stop) ∧ σ₀.numberOfFrames < start + 1 := by
  have after : range.nextAfter σ₀ start pages = start + 1 := by
    rw [BootRange.nextAfter, newWindows_oneWindow windows some absent, Finset.card_singleton]
  have last := windows (pages - 1) (by omega)
  have first := windows 0 some
  unfold BootRange.window at last first
  have maps : MapsFrom kernel (· = w) range start pages σ₀ := by
    constructor
    · exact windows
    · omega
    · apply OwnTables.of_absent
      rintro _ rfl
      exact absent
    · exact low
    · exact next
    · omega
  rcases bootMapRange_cases maps covers (by omega) aligned with ⟨σ, returned, mapped⟩ | short
  · exact Or.inl ⟨σ, returned, mapped.oneWindow windows some absent (by omega)⟩
  · rw [after] at short
    exact Or.inr short

structure KernelWindows (kernel : KernelImage) (range : BootRange) (start : Nat) (σ₀ σ : State) :
    Prop where
  next : NextFrame kernel σ (start + 64)
  sameFrames : σ.numberOfFrames = σ₀.numberOfFrames
  below : ∀ i, ¬(960 ≤ i ∧ i < 1024) → σ.memory range.pgdir i = σ₀.memory range.pgdir i
  above : ∀ i, 960 ≤ i → i < 1024 → ∃ table, start ≤ table ∧ table < start + 64 ∧
    σ.memory range.pgdir i = bootTableEntry table ∧
      ∀ j < 1024, σ.memory table j = range.entry (1024 * i + j)
  distinct : Distinct (fun i => 960 ≤ i ∧ i < 1024) (pageTable σ range.pgdir)
  others : ∀ frame, frame ≠ range.pgdir → ¬(start ≤ frame ∧ frame < start + 64) →
    σ.memory frame = σ₀.memory frame

theorem newWindows_kernel (first : range.firstPage = 983040)
    (absent : ∀ i, 960 ≤ i → i < 1024 → σ₀.memory range.pgdir i = 0) :
    range.newWindows σ₀ 65536 = Finset.Ico 960 1024 := by
  ext i
  rw [BootRange.mem_newWindows, Finset.mem_Ico]
  unfold BootRange.window
  rw [first]
  constructor
  · rintro ⟨⟨k, below, rfl⟩, _⟩
    omega
  · rintro ⟨low, high⟩
    exact ⟨⟨1024 * (i - 960), by omega, by omega⟩, absent i low high⟩

theorem kernelWindows_cases (next : NextFrame kernel σ₀ start) (first : range.firstPage = 983040)
    (absent : ∀ i, 960 ≤ i → i < 1024 → σ₀.memory range.pgdir i = 0)
    (low : range.pgdir < start) (room : start + 64 < 65536)
    (covers : (size.toNat + 4095) / 4096 = 65536)
    (aligned : roundUp physicalAddress pageSize = range.physicalAddress) :
    (∃ σ, bootMapRange kernel.endOfKernel σ₀ range.pgdir (toPhysicalAddress range.firstPage)
        size physicalAddress range.perm = .ok σ ∧ KernelWindows kernel range start σ₀ σ) ∨
      (∃ stop, bootMapRange kernel.endOfKernel σ₀ range.pgdir (toPhysicalAddress range.firstPage)
        size physicalAddress range.perm = .error stop) ∧ σ₀.numberOfFrames < start + 64 := by
  have new := newWindows_kernel first absent
  have after : range.nextAfter σ₀ start 65536 = start + 64 := by
    rw [BootRange.nextAfter, new, Nat.card_Ico]
  have maps : MapsFrom kernel (fun i => 960 ≤ i ∧ i < 1024) range start 65536 σ₀ := by
    constructor
    · intro k below
      unfold BootRange.window
      omega
    · omega
    · exact OwnTables.of_absent fun i covered => absent i covered.1 covered.2
    · exact low
    · exact next
    · omega
  rcases bootMapRange_cases maps covers (by omega) aligned with ⟨σ, returned, mapped⟩ | short
  · refine Or.inl ⟨σ, returned, ?_⟩
    have made (i : Nat) (covered : 960 ≤ i ∧ i < 1024) := mapped.made i (by
      rw [new, Finset.mem_Ico]
      exact covered)
    rw [after] at made
    constructor
    · rw [← after]
      exact mapped.next
    · exact mapped.sameFrames
    · intro i outside
      apply mapped.old
      rw [new, Finset.mem_Ico]
      exact outside
    · intro i low' high
      obtain ⟨table, lower, upper, entry⟩ := made i ⟨low', high⟩
      refine ⟨table, lower, upper, entry, ?_⟩
      intro j below
      have named := pageTable_of_bootTableEntry (by omega : table < 1048576) entry
      rw [mapped.pages i ⟨low', high⟩ table named j below, if_pos]
      unfold BootRange.Contains
      omega
    · exact mapped.own.distinct
    · intro frame notDirectory outside
      apply mapped.others frame notDirectory
      intro i covered named
      obtain ⟨table, lower, upper, entry⟩ := made i covered
      rw [pageTable_of_bootTableEntry (by omega) entry] at named
      cases named
      exact outside ⟨lower, upper⟩
  · rw [after] at short
    exact Or.inr short

end Ranges

/-! Where things lie: frames by number, from the end of the kernel on. -/

def framesInfoPages (numberOfFrames : Nat) : Nat := (12 * numberOfFrames + 4095) / 4096

namespace BootImage

variable (image : BootImage) (numberOfFrames : Nat)

def directory : Nat := (image.endOfKernel.toNat - 4026531840 + 4095) / 4096
def stackTable : Nat := image.directory + 1
-- The 64 tables above `KERNEL_BASE` come here.
def kernelTables : Nat := image.directory + 2
def framesInfo : Nat := image.directory + 66
def framesTable : Nat := image.directory + 66 + framesInfoPages numberOfFrames
def envs : Nat := image.directory + 67 + framesInfoPages numberOfFrames
def envsTable : Nat := image.directory + 92 + framesInfoPages numberOfFrames
def firstFree : Nat := image.directory + 93 + framesInfoPages numberOfFrames

def stackRange : BootRange :=
  ⟨image.directory, 982008, image.ptrStackBottom - kernelBase, permWriteable⟩
def kernelRange : BootRange := ⟨image.directory, 983040, 0, permWriteable⟩
def framesRange : BootRange :=
  ⟨image.directory, 978944, toPhysicalAddress image.framesInfo, permUser⟩
def envsRange : BootRange :=
  ⟨image.directory, 977920, toPhysicalAddress (image.envs numberOfFrames), permUser⟩

theorem layout : image.stackTable = image.directory + 1 ∧
    image.kernelTables = image.directory + 2 ∧ image.framesInfo = image.directory + 66 ∧
    image.framesTable numberOfFrames = image.directory + 66 + framesInfoPages numberOfFrames ∧
    image.envsTable numberOfFrames = image.directory + 92 + framesInfoPages numberOfFrames ∧
    image.firstFree numberOfFrames = image.directory + 93 + framesInfoPages numberOfFrames :=
  ⟨rfl, rfl, rfl, rfl, rfl, rfl⟩

theorem stackRange_pgdir : image.stackRange.pgdir = image.directory := rfl
theorem stackRange_perm : image.stackRange.perm = permWriteable := rfl
theorem kernelRange_pgdir : image.kernelRange.pgdir = image.directory := rfl
theorem kernelRange_perm : image.kernelRange.perm = permWriteable := rfl
theorem framesRange_pgdir : image.framesRange.pgdir = image.directory := rfl
theorem framesRange_perm : image.framesRange.perm = permUser := rfl
theorem envsRange_pgdir : (image.envsRange numberOfFrames).pgdir = image.directory := rfl
theorem envsRange_perm : (image.envsRange numberOfFrames).perm = permUser := rfl

theorem directory_bounds : 256 ≤ image.directory ∧ image.directory ≤ 1024 := by
  have low : 4027580416 ≤ image.endOfKernel.toNat := image.linked
  have high : image.endOfKernel.toNat ≤ 4030726144 := image.small
  unfold directory
  omega

theorem nextFrame_directory {σ : State} (unused : σ.ptrFreeMem = 0) :
    NextFrame image.toKernelImage σ image.directory := by
  have low : 4027580416 ≤ image.endOfKernel.toNat := image.linked
  have high : image.endOfKernel.toNat ≤ 4030726144 := image.small
  rw [NextFrame, if_pos unused, roundUp_toNat]
  unfold directory
  omega

end BootImage

structure KernelSpace (image : BootImage) (σ₀ σ : State) : Prop where
  enough : image.firstFree σ₀.numberOfFrames ≤ σ₀.numberOfFrames
  sameFrames : σ.numberOfFrames = σ₀.numberOfFrames
  next : NextFrame image.toKernelImage σ (image.firstFree σ₀.numberOfFrames)
  user : ∀ i < 955, σ.memory image.directory i = 0
  envsWindow : σ.memory image.directory 955 =
    bootTableEntry (image.envsTable σ₀.numberOfFrames) |||
      (permUser ||| (permPresent &&& ~~~permWriteable))
  framesWindow : σ.memory image.directory 956 =
    bootTableEntry (image.framesTable σ₀.numberOfFrames)
  uvptWindow : σ.memory image.directory 957 =
    toPhysicalAddress image.directory ||| permUser ||| permPresent
  stackWindow : σ.memory image.directory 958 = bootTableEntry image.stackTable
  vptWindow : σ.memory image.directory 959 = bootTableEntry image.directory
  kernelWindow : ∀ i, 960 ≤ i → i < 1024 → ∃ table, image.kernelTables ≤ table ∧
    table < image.framesInfo ∧ σ.memory image.directory i = bootTableEntry table ∧
      ∀ j < 1024, σ.memory table j = image.kernelRange.entry (1024 * i + j)
  kernelDistinct : Distinct (fun i => 960 ≤ i ∧ i < 1024) (pageTable σ image.directory)
  stack : ∀ j < 1024, σ.memory image.stackTable j =
    if 1016 ≤ j then image.stackRange.entry (1024 * 958 + j)
      else σ₀.memory image.stackTable j
  framesInfo : ∀ j < 1024, σ.memory (image.framesTable σ₀.numberOfFrames) j =
    if j < framesInfoPages σ₀.numberOfFrames then image.framesRange.entry (1024 * 956 + j)
      else σ₀.memory (image.framesTable σ₀.numberOfFrames) j
  envs : ∀ j < 1024, σ.memory (image.envsTable σ₀.numberOfFrames) j =
    if j < 25 then (image.envsRange σ₀.numberOfFrames).entry (1024 * 955 + j)
      else σ₀.memory (image.envsTable σ₀.numberOfFrames) j

theorem roundUp_toPhysicalAddress {frame : Nat} (fits : frame < 1048576) :
    roundUp (toPhysicalAddress frame) pageSize = toPhysicalAddress frame := by
  apply roundUp_of_aligned
  rw [toPhysicalAddress_toNat fits]
  omega

section Stages

variable (image : BootImage) {σ : State}

theorem kPhysicalAddress_stackBottom :
    kPhysicalAddress image.ptrStackBottom = .ok (image.ptrStackBottom - kernelBase) := by
  apply kPhysicalAddress_of_le
  have above : 4027580416 ≤ image.ptrStackBottom.toNat := image.stackAbove
  have base : kernelBase.toNat = 4026531840 := by decide
  rw [BitVec.le_def, base]
  omega

theorem stackBottom_toNat : (image.ptrStackBottom - kernelBase).toNat =
    image.ptrStackBottom.toNat - 4026531840 := by
  have above : 4027580416 ≤ image.ptrStackBottom.toNat := image.stackAbove
  have wide := image.ptrStackBottom.isLt
  have base : kernelBase.toNat = 4026531840 := by decide
  rw [BitVec.toNat_sub, base]
  omega

theorem stackBottom_aligned : (image.ptrStackBottom - kernelBase).toNat % 4096 = 0 := by
  have aligned := congrArg BitVec.toNat image.stackAligned
  have page : pageSize.toNat = 4096 := by decide
  have zero : (0 : Word).toNat = 0 := rfl
  rw [BitVec.toNat_umod, page, zero] at aligned
  rw [stackBottom_toNat]
  omega

theorem stack_cases (next : NextFrame image.toKernelImage σ image.stackTable)
    (absent : σ.memory image.directory 958 = 0) :
    (∃ σ', bootMapRange image.endOfKernel σ image.directory (kernelStackTop - kernelStackSize)
        kernelStackSize (image.ptrStackBottom - kernelBase) permWriteable = .ok σ' ∧
          OneWindow image.toKernelImage image.stackRange 958 image.stackTable 8 σ σ') ∨
      (∃ stop, bootMapRange image.endOfKernel σ image.directory (kernelStackTop - kernelStackSize)
        kernelStackSize (image.ptrStackBottom - kernelBase) permWriteable = .error stop) ∧
          σ.numberOfFrames < image.stackTable + 1 := by
  have bounds := image.directory_bounds
  have address : kernelStackTop - kernelStackSize =
      toPhysicalAddress image.stackRange.firstPage := by
    change _ = toPhysicalAddress 982008
    decide
  have size : (kernelStackSize.toNat + 4095) / 4096 = 8 := by decide
  have aligned : roundUp (image.ptrStackBottom - kernelBase) pageSize =
      image.stackRange.physicalAddress := roundUp_of_aligned (stackBottom_aligned image)
  have low : image.stackRange.pgdir < image.stackTable := Nat.lt_succ_self _
  have room : image.stackTable + 1 < 65536 := by
    unfold BootImage.stackTable
    omega
  have windows : ∀ k < 8, image.stackRange.window k = 958 := by
    intro k below
    change (982008 + k) / 1024 = 958
    omega
  rw [address, ← image.stackRange_pgdir, ← image.stackRange_perm]
  exact oneWindow_cases next absent low room windows (by omega) (by omega) size aligned

theorem kernel_cases (next : NextFrame image.toKernelImage σ image.kernelTables)
    (absent : ∀ i, 960 ≤ i → i < 1024 → σ.memory image.directory i = 0) :
    (∃ σ', bootMapRange image.endOfKernel σ image.directory kernelBase (0xFFFFFFFF - kernelBase) 0
        permWriteable = .ok σ' ∧
          KernelWindows image.toKernelImage image.kernelRange image.kernelTables σ σ') ∨
      (∃ stop, bootMapRange image.endOfKernel σ image.directory kernelBase
        (0xFFFFFFFF - kernelBase) 0 permWriteable = .error stop) ∧
          σ.numberOfFrames < image.kernelTables + 64 := by
  have bounds := image.directory_bounds
  have address : kernelBase = toPhysicalAddress image.kernelRange.firstPage := by
    change _ = toPhysicalAddress 983040
    decide
  have size : ((0xFFFFFFFF - kernelBase).toNat + 4095) / 4096 = 65536 := by decide
  have aligned : roundUp 0 pageSize = image.kernelRange.physicalAddress := by
    change _ = (0 : Word)
    decide
  have low : image.kernelRange.pgdir < image.kernelTables := by
    change image.directory < image.directory + 2
    omega
  have room : image.kernelTables + 64 < 65536 := by
    unfold BootImage.kernelTables
    omega
  generalize limit : (0xFFFFFFFF - kernelBase : Word) = reach at size ⊢
  rw [address, ← image.kernelRange_pgdir, ← image.kernelRange_perm]
  exact kernelWindows_cases next rfl absent low room size aligned

theorem arraySize_toNat {numberOfFrames : Nat} (limit : numberOfFrames ≤ 16639) :
    (BitVec.ofNat 32 numberOfFrames * sizeofFrameInfo).toNat = 12 * numberOfFrames := by
  have size : sizeofFrameInfo.toNat = 12 := by decide
  rw [BitVec.toNat_mul, BitVec.toNat_ofNat, size]
  omega

theorem framesInfoPages_le {numberOfFrames : Nat} (limit : numberOfFrames ≤ 16639) :
    framesInfoPages numberOfFrames ≤ 49 := by
  unfold framesInfoPages
  omega

variable {numberOfFrames : Nat}

theorem framesInfo_cases (limit : numberOfFrames ≤ 16639) (some : 0 < numberOfFrames)
    (next : NextFrame image.toKernelImage σ (image.framesTable numberOfFrames))
    (absent : σ.memory image.directory 956 = 0) :
    (∃ σ', bootMapRange image.endOfKernel σ image.directory readOnlyFramesInfo
        (BitVec.ofNat 32 numberOfFrames * sizeofFrameInfo) (toPhysicalAddress image.framesInfo)
        permUser = .ok σ' ∧ OneWindow image.toKernelImage image.framesRange 956
          (image.framesTable numberOfFrames) (framesInfoPages numberOfFrames) σ σ') ∨
      (∃ stop, bootMapRange image.endOfKernel σ image.directory readOnlyFramesInfo
        (BitVec.ofNat 32 numberOfFrames * sizeofFrameInfo) (toPhysicalAddress image.framesInfo)
        permUser = .error stop) ∧ σ.numberOfFrames < image.framesTable numberOfFrames + 1 := by
  have bounds := image.directory_bounds
  have few := framesInfoPages_le limit
  have address : readOnlyFramesInfo = toPhysicalAddress image.framesRange.firstPage := by
    change _ = toPhysicalAddress 978944
    decide
  have size : ((BitVec.ofNat 32 numberOfFrames * sizeofFrameInfo).toNat + 4095) / 4096 =
      framesInfoPages numberOfFrames := by
    rw [arraySize_toNat limit, framesInfoPages]
  have fits : image.framesInfo < 1048576 := by
    unfold BootImage.framesInfo
    omega
  have aligned : roundUp (toPhysicalAddress image.framesInfo) pageSize =
      image.framesRange.physicalAddress := roundUp_toPhysicalAddress fits
  have low : image.framesRange.pgdir < image.framesTable numberOfFrames := by
    rw [image.framesRange_pgdir]
    unfold BootImage.framesTable
    omega
  have room : image.framesTable numberOfFrames + 1 < 65536 := by
    unfold BootImage.framesTable
    omega
  have pages : 0 < framesInfoPages numberOfFrames := by
    unfold framesInfoPages
    omega
  have windows : ∀ k < framesInfoPages numberOfFrames, image.framesRange.window k = 956 := by
    intro k below
    change (978944 + k) / 1024 = 956
    omega
  rw [address, ← image.framesRange_pgdir, ← image.framesRange_perm]
  exact oneWindow_cases next absent low room windows pages (by omega) size aligned

theorem envs_cases (limit : numberOfFrames ≤ 16639)
    (next : NextFrame image.toKernelImage σ (image.envsTable numberOfFrames))
    (absent : σ.memory image.directory 955 = 0) :
    (∃ σ', bootMapRange image.endOfKernel σ image.directory uenvs
        (BitVec.ofNat 32 nenv * sizeofEnv) (toPhysicalAddress (image.envs numberOfFrames))
        permUser = .ok σ' ∧ OneWindow image.toKernelImage (image.envsRange numberOfFrames) 955
          (image.envsTable numberOfFrames) 25 σ σ') ∨
      (∃ stop, bootMapRange image.endOfKernel σ image.directory uenvs
        (BitVec.ofNat 32 nenv * sizeofEnv) (toPhysicalAddress (image.envs numberOfFrames))
        permUser = .error stop) ∧ σ.numberOfFrames < image.envsTable numberOfFrames + 1 := by
  have bounds := image.directory_bounds
  have few := framesInfoPages_le limit
  have address : uenvs = toPhysicalAddress (image.envsRange numberOfFrames).firstPage := by
    change _ = toPhysicalAddress 977920
    decide
  have size : ((BitVec.ofNat 32 nenv * sizeofEnv).toNat + 4095) / 4096 = 25 := by decide
  have fits : image.envs numberOfFrames < 1048576 := by
    unfold BootImage.envs
    omega
  have aligned : roundUp (toPhysicalAddress (image.envs numberOfFrames)) pageSize =
      (image.envsRange numberOfFrames).physicalAddress := roundUp_toPhysicalAddress fits
  have low : (image.envsRange numberOfFrames).pgdir < image.envsTable numberOfFrames := by
    rw [image.envsRange_pgdir]
    unfold BootImage.envsTable
    omega
  have room : image.envsTable numberOfFrames + 1 < 65536 := by
    unfold BootImage.envsTable
    omega
  have windows : ∀ k < 25, (image.envsRange numberOfFrames).window k = 955 := by
    intro k below
    change (977920 + k) / 1024 = 955
    omega
  rw [address, ← image.envsRange_pgdir numberOfFrames, ← image.envsRange_perm numberOfFrames]
  exact oneWindow_cases next absent low room windows (by omega) (by omega) size aligned

end Stages

structure MappingStages (image : BootImage) (σ₀ σ₁ σ₂ σ₃ σ₄ σ₅ σ₆ σ₇ : State) : Prop where
  limit : σ₀.numberOfFrames ≤ 16639
  clear : ∀ i, σ₁.memory image.directory i = 0
  start : ∀ frame, frame ≠ image.directory → σ₁.memory frame = σ₀.memory frame
  sameStart : σ₁.numberOfFrames = σ₀.numberOfFrames
  stack : OneWindow image.toKernelImage image.stackRange 958 image.stackTable 8 σ₁ σ₂
  kernel : KernelWindows image.toKernelImage image.kernelRange image.kernelTables σ₂ σ₃
  array : σ₄.memory = σ₃.memory
  sameArray : σ₄.numberOfFrames = σ₃.numberOfFrames
  framesInfo : OneWindow image.toKernelImage image.framesRange 956
    (image.framesTable σ₀.numberOfFrames) (framesInfoPages σ₀.numberOfFrames) σ₄ σ₅
  listing : σ₆.memory = (setupListing σ₅ image.directory).memory
  sameListing : σ₆.numberOfFrames = σ₅.numberOfFrames
  envs : OneWindow image.toKernelImage (image.envsRange σ₀.numberOfFrames) 955
    (image.envsTable σ₀.numberOfFrames) 25 σ₆ σ₇

def openEnvs (σ : State) (pgdir : Nat) : State :=
  σ.setWord pgdir (pdx uenvs)
    (σ.memory pgdir (pdx uenvs) ||| (permUser ||| (permPresent &&& ~~~permWriteable)))

section Assembly

variable {image : BootImage} {σ₀ σ₁ σ₂ σ₃ σ₄ σ₅ σ₆ σ₇ : State}

theorem memory_setupListing (σ : State) (pgdir i : Nat) : (setupListing σ pgdir).memory pgdir i =
    if i = 957 then toPhysicalAddress pgdir ||| permUser ||| permPresent
    else if i = 959 then bootTableEntry pgdir else σ.memory pgdir i := by
  have first : pdx vpt = 959 := by decide
  have second : pdx uvpt = 957 := by decide
  change write (write σ.memory pgdir (pdx vpt) (bootTableEntry pgdir)) pgdir (pdx uvpt) _ pgdir i = _
  rw [write_apply, write_apply, first, second]
  simp only [true_and]

theorem setupListing_other (σ : State) {pgdir frame : Nat} (different : frame ≠ pgdir) :
    (setupListing σ pgdir).memory frame = σ.memory frame := by
  change write (write σ.memory pgdir (pdx vpt) (bootTableEntry pgdir)) pgdir (pdx uvpt) _ frame = _
  rw [write_other different, write_other different]

theorem memory_openEnvs (σ : State) (pgdir i : Nat) : (openEnvs σ pgdir).memory pgdir i =
    if i = 955 then σ.memory pgdir 955 ||| (permUser ||| (permPresent &&& ~~~permWriteable))
    else σ.memory pgdir i := by
  have window : pdx uenvs = 955 := by decide
  change write σ.memory pgdir (pdx uenvs) _ pgdir i = _
  rw [write_apply, window]
  simp only [true_and]

theorem openEnvs_other (σ : State) {pgdir frame : Nat} (different : frame ≠ pgdir) :
    (openEnvs σ pgdir).memory frame = σ.memory frame := write_other different _ _

theorem MappingStages.directory (stages : MappingStages image σ₀ σ₁ σ₂ σ₃ σ₄ σ₅ σ₆ σ₇) (i : Nat)
    (low : i < 960) : (openEnvs σ₇ image.directory).memory image.directory i =
      if i = 955 then bootTableEntry (image.envsTable σ₀.numberOfFrames) |||
        (permUser ||| (permPresent &&& ~~~permWriteable))
      else if i = 957 then toPhysicalAddress image.directory ||| permUser ||| permPresent
      else if i = 959 then bootTableEntry image.directory
      else if i = 956 then bootTableEntry (image.framesTable σ₀.numberOfFrames)
      else if i = 958 then bootTableEntry image.stackTable else 0 := by
  have envs := stages.envs.directory
  have framesInfo := stages.framesInfo.directory
  have stack := stages.stack.directory
  have kernel := stages.kernel.below i (by omega)
  rw [image.envsRange_pgdir] at envs
  rw [image.framesRange_pgdir] at framesInfo
  rw [image.stackRange_pgdir] at stack
  rw [image.kernelRange_pgdir] at kernel
  rw [memory_openEnvs, envs, if_pos rfl, envs i, stages.listing, memory_setupListing, framesInfo,
    stages.array, kernel, stack, stages.clear]
  split_ifs <;> rfl

theorem MappingStages.kernelDirectory (stages : MappingStages image σ₀ σ₁ σ₂ σ₃ σ₄ σ₅ σ₆ σ₇)
    {i : Nat} (high : 960 ≤ i) : (openEnvs σ₇ image.directory).memory image.directory i =
      σ₃.memory image.directory i := by
  have envs := stages.envs.directory i
  have framesInfo := stages.framesInfo.directory i
  rw [image.envsRange_pgdir, if_neg (by omega)] at envs
  rw [image.framesRange_pgdir, if_neg (by omega)] at framesInfo
  rw [memory_openEnvs, if_neg (by omega), envs, stages.listing, memory_setupListing,
    if_neg (by omega), if_neg (by omega), framesInfo, stages.array]

/-- A frame is written by the stage that takes it, and by none after. -/
theorem MappingStages.sinceFramesInfo (stages : MappingStages image σ₀ σ₁ σ₂ σ₃ σ₄ σ₅ σ₆ σ₇)
    {frame : Nat} (notDirectory : frame ≠ image.directory)
    (notEnvs : frame ≠ image.envsTable σ₀.numberOfFrames) :
    (openEnvs σ₇ image.directory).memory frame = σ₅.memory frame := by
  rw [openEnvs_other _ notDirectory, stages.envs.others frame notDirectory notEnvs, stages.listing,
    setupListing_other _ notDirectory]

theorem MappingStages.sinceKernel (stages : MappingStages image σ₀ σ₁ σ₂ σ₃ σ₄ σ₅ σ₆ σ₇)
    {frame : Nat} (notDirectory : frame ≠ image.directory)
    (notFramesInfo : frame ≠ image.framesTable σ₀.numberOfFrames)
    (notEnvs : frame ≠ image.envsTable σ₀.numberOfFrames) :
    (openEnvs σ₇ image.directory).memory frame = σ₃.memory frame := by
  rw [stages.sinceFramesInfo notDirectory notEnvs,
    stages.framesInfo.others frame notDirectory notFramesInfo, stages.array]

/-- Up to the stage that takes it, a frame holds what it held at first. -/
theorem MappingStages.untilFramesInfo (stages : MappingStages image σ₀ σ₁ σ₂ σ₃ σ₄ σ₅ σ₆ σ₇)
    {frame : Nat} (above : image.framesInfo ≤ frame) : σ₄.memory frame = σ₀.memory frame := by
  obtain ⟨third, first, second, _⟩ := image.layout σ₀.numberOfFrames
  have notDirectory : frame ≠ image.directory := by omega
  have kernel := stages.kernel.others frame notDirectory (by omega)
  have stack := stages.stack.others frame notDirectory (by omega)
  rw [stages.array, kernel, stack, stages.start frame notDirectory]

theorem MappingStages.untilEnvs (stages : MappingStages image σ₀ σ₁ σ₂ σ₃ σ₄ σ₅ σ₆ σ₇)
    {frame : Nat} (above : image.framesTable σ₀.numberOfFrames < frame) :
    σ₆.memory frame = σ₀.memory frame := by
  obtain ⟨_, _, array, table, _⟩ := image.layout σ₀.numberOfFrames
  have notDirectory : frame ≠ image.directory := by omega
  have framesInfo := stages.framesInfo.others frame notDirectory (by omega)
  rw [stages.listing, setupListing_other _ notDirectory, framesInfo,
    stages.untilFramesInfo (by omega)]

theorem MappingStages.space (stages : MappingStages image σ₀ σ₁ σ₂ σ₃ σ₄ σ₅ σ₆ σ₇) :
    KernelSpace image σ₀ (openEnvs σ₇ image.directory) := by
  have bounds := image.directory_bounds
  have few := framesInfoPages_le stages.limit
  obtain ⟨stackTable, kernelTables, framesInfo, framesTable, envsTable, firstFree⟩ :=
    image.layout σ₀.numberOfFrames
  have frames : σ₆.numberOfFrames = σ₀.numberOfFrames := by
    rw [stages.sameListing, stages.framesInfo.sameFrames, stages.sameArray,
      stages.kernel.sameFrames, stages.stack.sameFrames, stages.sameStart]
  constructor
  · have checked := stages.envs.checked (by omega)
    omega
  · change σ₇.numberOfFrames = _
    rw [stages.envs.sameFrames, frames]
  · have last : image.firstFree σ₀.numberOfFrames = image.envsTable σ₀.numberOfFrames + 1 := by
      omega
    rw [last]
    exact stages.envs.next.congr rfl
  · intro i below
    rw [stages.directory i (by omega), if_neg (by omega), if_neg (by omega), if_neg (by omega),
      if_neg (by omega), if_neg (by omega)]
  · rw [stages.directory 955 (by omega)]
    rfl
  · rw [stages.directory 956 (by omega)]
    rfl
  · rw [stages.directory 957 (by omega)]
    rfl
  · rw [stages.directory 958 (by omega)]
    rfl
  · rw [stages.directory 959 (by omega)]
    rfl
  · intro i low high
    obtain ⟨table, above, below, entry, content⟩ := stages.kernel.above i low high
    rw [image.kernelRange_pgdir] at entry
    refine ⟨table, above, by omega, ?_, ?_⟩
    · rw [stages.kernelDirectory low, entry]
    · intro j inside
      rw [stages.sinceKernel (by omega) (by omega) (by omega), content j inside]
  · intro i i' table inside inside' named named'
    have distinct := stages.kernel.distinct i i' table inside inside'
    rw [image.kernelRange_pgdir] at distinct
    rw [pageTable, stages.kernelDirectory inside.1] at named
    rw [pageTable, stages.kernelDirectory inside'.1] at named'
    exact distinct named named'
  · intro j inside
    have different : image.stackTable ≠ image.directory := by omega
    have kernel := stages.kernel.others image.stackTable different (by omega)
    rw [stages.sinceKernel different (by omega) (by omega), kernel, stages.stack.table j inside,
      stages.start _ different]
    have same : image.stackRange.Contains 8 (1024 * 958 + j) ↔ 1016 ≤ j := by
      change 982008 ≤ _ ∧ _ < 982008 + 8 ↔ _
      omega
    simp only [same]
  · intro j inside
    rw [stages.sinceFramesInfo (by omega) (by omega), stages.framesInfo.table j inside,
      stages.untilFramesInfo (by omega)]
    have same : image.framesRange.Contains (framesInfoPages σ₀.numberOfFrames) (1024 * 956 + j) ↔
        j < framesInfoPages σ₀.numberOfFrames := by
      change 978944 ≤ _ ∧ _ < 978944 + _ ↔ _
      omega
    simp only [same]
  · intro j inside
    rw [openEnvs_other _ (by omega), stages.envs.table j inside, stages.untilEnvs (by omega)]
    have same : (image.envsRange σ₀.numberOfFrames).Contains 25 (1024 * 955 + j) ↔ j < 25 := by
      change 977920 ≤ _ ∧ _ < 977920 + 25 ↔ _
      omega
    simp only [same]

end Assembly

section Boot

variable (image : BootImage) {σ σ₀ : State}

theorem memory_bootAllocateSpace (endOfKernel : Word) (σ : State) (size align : Word) :
    (bootAllocateSpace endOfKernel σ size align).2.memory = σ.memory := by
  simp only [bootAllocateSpace]

theorem numberOfFrames_bootAllocateSpace (endOfKernel : Word) (σ : State) (size align : Word) :
    (bootAllocateSpace endOfKernel σ size align).2.numberOfFrames = σ.numberOfFrames := by
  simp only [bootAllocateSpace]

theorem directory_made (unused : σ.ptrFreeMem = 0) {σ₁ : State}
    (made : (bootAllocateSpace image.endOfKernel σ pageSize pageSize).2.clearFrame
      image.directory = σ₁) :
    NextFrame image.toKernelImage σ₁ image.stackTable ∧ (∀ i, σ₁.memory image.directory i = 0) ∧
      (∀ frame, frame ≠ image.directory → σ₁.memory frame = σ.memory frame) ∧
        σ₁.numberOfFrames = σ.numberOfFrames := by
  have bounds := image.directory_bounds
  have onePage : (pageSize.toNat + 4095) / 4096 = 1 := by decide
  subst made
  refine ⟨?_, ?_, ?_, ?_⟩
  · have moved := (image.nextFrame_directory unused).allocate pageSize onePage (by omega)
    exact moved.congr (by simp only [State.clearFrame])
  · exact clearFrame_self _ image.directory
  · intro frame different
    rw [clearFrame_other _ different, memory_bootAllocateSpace]
  · simp only [State.clearFrame, numberOfFrames_bootAllocateSpace]

theorem mapKernelSpace_cases (unused : σ₀.ptrFreeMem = 0) (limit : σ₀.numberOfFrames ≤ 16639) :
    (∃ vm, mapKernelSpace image σ₀ = .ok vm ∧ vm.ptrPageDirectory = image.directory ∧
        vm.framesInfo.toNat = 4026531840 + 4096 * image.framesInfo ∧
        KernelSpace image σ₀ vm.state) ∨
      (∃ stop, mapKernelSpace image σ₀ = .error stop) ∧
        σ₀.numberOfFrames < image.firstFree σ₀.numberOfFrames := by
  have bounds := image.directory_bounds
  have few := framesInfoPages_le limit
  obtain ⟨stackTable, kernelTables, framesInfo, framesTable, envsTable, firstFree⟩ :=
    image.layout σ₀.numberOfFrames
  simp only [mapKernelSpace, (image.nextFrame_directory unused).kPhysicalAddress, ok_bind,
    ppn_toPhysicalAddress (by omega : image.directory < 1048576), kPhysicalAddress_stackBottom]
  generalize made : (bootAllocateSpace image.endOfKernel σ₀ pageSize pageSize).2.clearFrame
    image.directory = σ₁
  obtain ⟨next₁, clear, start, sameStart⟩ := directory_made image unused made
  rcases stack_cases image next₁ (clear 958) with ⟨σ₂, returned, stack⟩ | ⟨⟨stop, failed⟩, short⟩
  case inr =>
    refine Or.inr ⟨⟨stop, ?_⟩, by omega⟩
    rw [failed, error_bind]
  simp only [returned, ok_bind]
  have some := stack.checked (by omega)
  have sameStack : σ₂.numberOfFrames = σ₀.numberOfFrames := by
    rw [stack.sameFrames, sameStart]
  have noKernel : ∀ i, 960 ≤ i → i < 1024 → σ₂.memory image.directory i = 0 := by
    intro i low _
    have directory := stack.directory i
    rw [image.stackRange_pgdir, if_neg (by omega), clear] at directory
    exact directory
  rcases kernel_cases image stack.next noKernel with
    ⟨σ₃, returned, kernel⟩ | ⟨⟨stop, failed⟩, short⟩
  case inr =>
    refine Or.inr ⟨⟨stop, ?_⟩, by omega⟩
    rw [failed, error_bind]
  have sameKernel : σ₃.numberOfFrames = σ₀.numberOfFrames := by
    rw [kernel.sameFrames, sameStack]
  have arrayPages : ((BitVec.ofNat 32 σ₀.numberOfFrames * sizeofFrameInfo).toNat + 4095) / 4096 =
      framesInfoPages σ₀.numberOfFrames := by
    rw [arraySize_toNat limit, framesInfoPages]
  have nextArray : NextFrame image.toKernelImage σ₃ image.framesInfo := kernel.next
  simp only [returned, ok_bind, sameKernel, nextArray.kPhysicalAddress]
  have pointer : (bootAllocateSpace image.endOfKernel σ₃
    (BitVec.ofNat 32 σ₀.numberOfFrames * sizeofFrameInfo) pageSize).1.toNat =
      4026531840 + 4096 * image.framesInfo := nextArray
  have next₄ := nextArray.allocate pageSize arrayPages (by omega)
  have array := memory_bootAllocateSpace image.endOfKernel σ₃
    (BitVec.ofNat 32 σ₀.numberOfFrames * sizeofFrameInfo) pageSize
  have sameArray := numberOfFrames_bootAllocateSpace image.endOfKernel σ₃
    (BitVec.ofNat 32 σ₀.numberOfFrames * sizeofFrameInfo) pageSize
  generalize (bootAllocateSpace image.endOfKernel σ₃
    (BitVec.ofNat 32 σ₀.numberOfFrames * sizeofFrameInfo) pageSize).1 = ptr at pointer ⊢
  generalize (bootAllocateSpace image.endOfKernel σ₃
    (BitVec.ofNat 32 σ₀.numberOfFrames * sizeofFrameInfo) pageSize).2 = σ₄ at next₄ array sameArray ⊢
  have noFramesInfo : σ₄.memory image.directory 956 = 0 := by
    have below := kernel.below 956 (by omega)
    have directory := stack.directory 956
    rw [image.kernelRange_pgdir] at below
    rw [image.stackRange_pgdir, if_neg (by omega), clear] at directory
    rw [array, below, directory]
  have atTable : image.framesInfo + framesInfoPages σ₀.numberOfFrames =
    image.framesTable σ₀.numberOfFrames := rfl
  rcases framesInfo_cases image limit (by omega) (atTable ▸ next₄) noFramesInfo with
    ⟨σ₅, returned, framesMapped⟩ | ⟨⟨stop, failed⟩, short⟩
  case inr =>
    refine Or.inr ⟨⟨stop, ?_⟩, by omega⟩
    rw [failed, error_bind]
  have nextEnvs : NextFrame image.toKernelImage (setupListing σ₅ image.directory)
      (image.envs σ₀.numberOfFrames) := by
    have after : image.framesTable σ₀.numberOfFrames + 1 = image.envs σ₀.numberOfFrames := by
      change _ = image.directory + 67 + framesInfoPages σ₀.numberOfFrames
      omega
    exact after ▸ framesMapped.next.congr rfl
  simp only [returned, ok_bind, nextEnvs.kPhysicalAddress]
  have envsPages : ((BitVec.ofNat 32 nenv * sizeofEnv).toNat + 4095) / 4096 = 25 := by decide
  have next₆ := nextEnvs.allocate pageSize envsPages (by
    change image.directory + 67 + framesInfoPages σ₀.numberOfFrames + 25 < 65536
    omega)
  have listing := memory_bootAllocateSpace image.endOfKernel (setupListing σ₅ image.directory)
    (BitVec.ofNat 32 nenv * sizeofEnv) pageSize
  have sameListing := numberOfFrames_bootAllocateSpace image.endOfKernel
    (setupListing σ₅ image.directory) (BitVec.ofNat 32 nenv * sizeofEnv) pageSize
  generalize (bootAllocateSpace image.endOfKernel (setupListing σ₅ image.directory)
    (BitVec.ofNat 32 nenv * sizeofEnv) pageSize).2 = σ₆ at next₆ listing sameListing ⊢
  have noEnvs : σ₆.memory image.directory 955 = 0 := by
    have framesInfo := framesMapped.directory 955
    have below := kernel.below 955 (by omega)
    have directory := stack.directory 955
    rw [image.framesRange_pgdir, if_neg (by omega)] at framesInfo
    rw [image.kernelRange_pgdir] at below
    rw [image.stackRange_pgdir, if_neg (by omega), clear] at directory
    rw [listing, memory_setupListing, if_neg (by omega), if_neg (by omega), framesInfo, array,
      below, directory]
  have atTable : image.envs σ₀.numberOfFrames + 25 = image.envsTable σ₀.numberOfFrames := by
    change image.directory + 67 + framesInfoPages σ₀.numberOfFrames + 25 = _
    omega
  have sameFrames : σ₆.numberOfFrames = σ₀.numberOfFrames := by
    rw [sameListing]
    change σ₅.numberOfFrames = _
    rw [framesMapped.sameFrames, sameArray, sameKernel]
  rcases envs_cases image limit (atTable ▸ next₆) noEnvs with
    ⟨σ₇, returned, envsMapped⟩ | ⟨⟨stop, failed⟩, short⟩
  case inr =>
    refine Or.inr ⟨⟨stop, ?_⟩, by omega⟩
    rw [failed, error_bind]
  have stages : MappingStages image σ₀ σ₁ σ₂ σ₃ σ₄ σ₅ σ₆ σ₇ :=
    ⟨limit, clear, start, sameStart, stack, kernel, array, sameArray, framesMapped, listing,
      sameListing, envsMapped⟩
  rw [returned, ok_bind]
  exact Or.inl ⟨_, rfl, rfl, pointer, stages.space⟩

end Boot

end FosV2
