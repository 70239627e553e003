import FosV2.BootUnmapped
import FosV2.PageCheck

/-!
`FOS_initialize` of `kern/init.c` as far as it concerns memory: detection, kernel space, the
free list and its check, one after the other, and the state the prompt starts from. The
console, the environments and the interrupt table have no part in that state.
-/

namespace FosV2

open IntrusiveList TwoLevelTable

def fosInitialize (image : BootImage) (baseReading extendedReading : BitVec 16) (σ : State) :
    Except Stop KernelVM := do
  -- The globals among the uninitialized data, which is cleared first.
  let σ := { σ with ptrFreeMem := 0, freeFrameList := σ.freeFrameList.init }
  let detected := detectMemory baseReading extendedReading
  let σ := { σ with numberOfFrames := detected.numberOfFrames.toNat }
  let vm ← initializeKernelVM image σ
  let σ ← initializePaging vm.state
  let σ ← pageCheck σ vm.ptrPageDirectory
  return { vm with state := σ }

def ReservedAtBoot (σ : State) (frame : Nat) : Prop :=
  frame = 0 ∨ (ppn physIoMem ≤ frame ∧ frame < ppn physExtendedMem) ∨
    (ppn physExtendedMem ≤ frame ∧ frame < firstFreeFrame σ)

theorem reservedAtBoot_iff {σ : State} (low : 256 ≤ firstFreeFrame σ) (frame : Nat) :
    ReservedAtBoot σ frame ↔ frame = 0 ∨ (160 ≤ frame ∧ frame < firstFreeFrame σ) := by
  have hole : ppn physIoMem = 160 := by decide
  have extended : ppn physExtendedMem = 256 := by decide
  rw [ReservedAtBoot, hole, extended]
  omega

/-! The kernel half of the directory. -/

def ListingWindow (i : Nat) : Prop := i = pdx uvpt ∨ i = pdx vpt

def KernelWindow (i : Nat) : Prop := userEntries ≤ i ∧ i < npdEntries ∧ ¬ListingWindow i

theorem listingWindow_iff {i : Nat} : ListingWindow i ↔ i = 957 ∨ i = 959 := by
  have first : pdx uvpt = 957 := by decide
  have second : pdx vpt = 959 := by decide
  rw [ListingWindow, first, second]

theorem kernelWindow_iff {i : Nat} :
    KernelWindow i ↔ i = 955 ∨ i = 956 ∨ i = 958 ∨ (960 ≤ i ∧ i < 1024) := by
  have last : npdEntries = 1024 := rfl
  rw [KernelWindow, listingWindow_iff, userEntries_eq, last]
  omega

structure KernelHalf (pgdir first : Nat) (σ : State) : Prop where
  directory : 256 ≤ pgdir ∧ pgdir < first
  listing : ∀ i, ListingWindow i → pageTable σ pgdir i = some pgdir
  window : ∀ i, KernelWindow i → ∃ table, pageTable σ pgdir i = some table ∧ 256 ≤ table ∧
    table < first ∧ table ≠ pgdir
  distinct : Distinct KernelWindow (pageTable σ pgdir)

theorem KernelHalf.heldDirectory {pgdir first numberOfFrames : Nat} {σ : State}
    (half : KernelHalf pgdir first σ) : heldSinceBoot first numberOfFrames pgdir = 1 := by
  have place := half.directory
  rw [heldSinceBoot, if_neg]
  rw [mem_freeAfterBoot]
  omega

theorem KernelHalf.congr {pgdir first : Nat} {σ σ' : State} (half : KernelHalf pgdir first σ)
    (directory : σ'.memory pgdir = σ.memory pgdir) : KernelHalf pgdir first σ' := by
  have same (i : Nat) : pageTable σ' pgdir i = pageTable σ pgdir i := by
    rw [pageTable, directory, pageTable]
  constructor
  · exact half.directory
  · intro i listing
    rw [same, half.listing i listing]
  · intro i window
    rw [same]
    exact half.window i window
  · rw [funext same]
    exact half.distinct

section Space

variable {image : BootImage} {σ₀ σ : State}

theorem BootImage.firstFree_bound (image : BootImage) {numberOfFrames : Nat}
    (limit : numberOfFrames ≤ 16639) : image.firstFree numberOfFrames ≤ 1166 := by
  have bounds := image.directory_bounds
  have few := framesInfoPages_le limit
  unfold BootImage.firstFree
  omega

theorem pageTable_of_entry {σ : State} {pgdir i table : Nat} {entry : Word}
    (written : σ.memory pgdir i = entry) (isPresent : present entry) (frame : entryFrame entry = table) :
    pageTable σ pgdir i = some table := by
  rw [pageTable, written, entryTarget_of_ne (ne_zero_of_present isPresent), frame]

theorem KernelSpace.window_cases (space : KernelSpace image σ₀ σ)
    (limit : σ₀.numberOfFrames ≤ 16639) {i : Nat} (window : KernelWindow i) :
    (i = 955 ∧ pageTable σ image.directory i = some (image.envsTable σ₀.numberOfFrames)) ∨
    (i = 956 ∧ pageTable σ image.directory i = some (image.framesTable σ₀.numberOfFrames)) ∨
    (i = 958 ∧ pageTable σ image.directory i = some image.stackTable) ∨
    (960 ≤ i ∧ i < 1024 ∧ ∃ table, image.kernelTables ≤ table ∧ table < image.framesInfo ∧
      pageTable σ image.directory i = some table) := by
  have bounds := image.directory_bounds
  have few := framesInfoPages_le limit
  rcases kernelWindow_iff.mp window with rfl | rfl | rfl | ⟨above, below⟩
  · refine Or.inl ⟨rfl, pageTable_of_entry space.envsWindow ?_ (entryFrame_or ?_)⟩
    · exact present_or (present_bootTableEntry _)
    · unfold BootImage.envsTable
      omega
  · refine Or.inr (Or.inl ⟨rfl, pageTable_of_entry space.framesWindow ?_ (entryFrame_bootTableEntry ?_)⟩)
    · exact present_bootTableEntry _
    · unfold BootImage.framesTable
      omega
  · refine Or.inr (Or.inr (Or.inl ⟨rfl, pageTable_of_entry space.stackWindow ?_
      (entryFrame_bootTableEntry ?_)⟩))
    · exact present_bootTableEntry _
    · unfold BootImage.stackTable
      omega
  · obtain ⟨table, low, high, entry, _⟩ := space.kernelWindow i above below
    have framesInfo : image.framesInfo = image.directory + 66 := rfl
    refine Or.inr (Or.inr (Or.inr ⟨above, below, table, low, high, ?_⟩))
    exact pageTable_of_entry entry (present_bootTableEntry _) (entryFrame_bootTableEntry (by omega))

theorem KernelSpace.kernelHalf (space : KernelSpace image σ₀ σ)
    (limit : σ₀.numberOfFrames ≤ 16639) :
    KernelHalf image.directory (image.firstFree σ₀.numberOfFrames) σ := by
  have bounds := image.directory_bounds
  obtain ⟨stackTable, kernelTables, framesInfo, framesTable, envsTable, firstFree⟩ :=
    image.layout σ₀.numberOfFrames
  constructor
  · omega
  · intro i listing
    rcases listingWindow_iff.mp listing with rfl | rfl
    · have entry : σ.memory image.directory 957 = constructEntry (toPhysicalAddress image.directory)
          (permUser ||| permPresent) := by
        rw [space.uvptWindow, BitVec.or_assoc, constructEntry]
      exact pageTable_of_entry entry (present_constructEntry _ _)
        (entryFrame_constructEntry (by omega) (by decide))
    · exact pageTable_of_entry space.vptWindow (present_bootTableEntry _)
        (entryFrame_bootTableEntry (by omega))
  · intro i window
    rcases space.window_cases limit window with ⟨_, named⟩ | ⟨_, named⟩ | ⟨_, named⟩ |
      ⟨_, _, table, _, _, named⟩
    all_goals exact ⟨_, named, by omega, by omega, by omega⟩
  · intro i i' table window window' named named'
    have bound := (kernelWindow_iff.mp window)
    have bound' := (kernelWindow_iff.mp window')
    by_cases kernel : 960 ≤ i ∧ 960 ≤ i'
    · exact space.kernelDistinct i i' table ⟨kernel.1, by omega⟩ ⟨kernel.2, by omega⟩ named named'
    -- The other tables lie in different places.
    · rcases space.window_cases limit window with ⟨_, first⟩ | ⟨_, first⟩ | ⟨_, first⟩ |
        ⟨_, _, _, _, _, first⟩ <;>
      rcases space.window_cases limit window' with ⟨_, second⟩ | ⟨_, second⟩ | ⟨_, second⟩ |
        ⟨_, _, _, _, _, second⟩
      all_goals
        have same := Option.some.inj (first.symm.trans named)
        have same' := Option.some.inj (second.symm.trans named')
        omega

theorem KernelSpace.firstFreeFrame (space : KernelSpace image σ₀ σ)
    (limit : σ₀.numberOfFrames ≤ 16639) :
    kernelBase ≤ σ.ptrFreeMem ∧ firstFreeFrame σ = image.firstFree σ₀.numberOfFrames := by
  have bounds := image.directory_bounds
  have firstFree : image.firstFree σ₀.numberOfFrames =
    image.directory + 93 + framesInfoPages σ₀.numberOfFrames := rfl
  have high := image.firstFree_bound limit
  have next := space.next
  have moved : σ.ptrFreeMem ≠ 0 := by
    intro unused
    have start := image.nextFrame_directory unused
    rw [NextFrame] at start next
    omega
  rw [NextFrame, if_neg moved, roundUp_toNat] at next
  have inKernel : kernelBase ≤ σ.ptrFreeMem := by
    have base : kernelBase.toNat = 4026531840 := by decide
    rw [BitVec.le_def, base]
    omega
  refine ⟨inKernel, ?_⟩
  rw [firstFreeFrame_eq inKernel]
  omega

theorem KernelSpace.frameZero (space : KernelSpace image σ₀ σ) :
    ∃ table, pageTable σ image.directory 960 = some table ∧ 256 ≤ table ∧
      table < image.firstFree σ₀.numberOfFrames ∧ entryTarget (σ.memory table 0) = some 0 := by
  have bounds := image.directory_bounds
  obtain ⟨_, kernelTables, framesInfo, _, _, firstFree⟩ := image.layout σ₀.numberOfFrames
  obtain ⟨table, low, high, entry, content⟩ := space.kernelWindow 960 (by omega) (by omega)
  refine ⟨table, ?_, by omega, by omega, ?_⟩
  · exact pageTable_of_entry entry (present_bootTableEntry _)
      (entryFrame_bootTableEntry (by omega))
  · rw [content 0 (by omega)]
    have start : (0 : Word) + toPhysicalAddress (1024 * 960 - 983040) = toPhysicalAddress 0 := by
      decide
    change entryTarget (constructEntry (0 + toPhysicalAddress (1024 * 960 - 983040))
      (permWriteable ||| permPresent)) = some 0
    rw [start]
    exact entryTarget_constructEntry (by omega) (by decide)

end Space

/-! The state that the prompt starts from. -/

structure AtPrompt (image : BootImage) (vm : KernelVM) : Prop where
  directory : vm.ptrPageDirectory = image.directory
  bound : vm.state.numberOfFrames ≤ 16639
  low : 256 ≤ firstFreeFrame vm.state
  high : firstFreeFrame vm.state ≤ vm.state.numberOfFrames
  wf : ∃ free, WellFormed image.directory
    (heldSinceBoot (firstFreeFrame vm.state) vm.state.numberOfFrames) free vm.state
  user : ∀ i < userEntries, vm.state.memory image.directory i = 0
  kernelHalf : KernelHalf image.directory (firstFreeFrame vm.state) vm.state
  frameZero : ∃ table, pageTable vm.state image.directory 960 = some table ∧
    entryTarget (vm.state.memory table 0) = some 0

theorem freeAfterBoot_three (first numberOfFrames : Nat) :
    ∃ pp0 pp1 pp2 rest, freeAfterBoot first numberOfFrames = pp0 :: pp1 :: pp2 :: rest := by
  have long : 3 ≤ (freeAfterBoot first numberOfFrames).length := by
    simp only [freeAfterBoot, List.length_append, List.length_reverse, List.length_range']
    omega
  cases three : freeAfterBoot first numberOfFrames with
  | nil => simp [three] at long
  | cons pp0 behind =>
      rcases behind with _ | ⟨pp1, _ | ⟨pp2, rest⟩⟩
      · simp [three] at long
      · simp [three] at long
      · exact ⟨pp0, pp1, pp2, rest, rfl⟩

section Boot

variable {image : BootImage} {σ₀ : State} {vm : KernelVM}

theorem KernelSpace.atPrompt (space : KernelSpace image σ₀ vm.state)
    (pgdir : vm.ptrPageDirectory = image.directory) (limit : σ₀.numberOfFrames ≤ 16639) :
    ∃ σ σ', initializePaging vm.state = .ok σ ∧ pageCheck σ vm.ptrPageDirectory = .ok σ' ∧
      AtPrompt image { vm with state := σ' } := by
  have bounds := image.directory_bounds
  have enough := space.enough
  have firstFree : image.firstFree σ₀.numberOfFrames =
    image.directory + 93 + framesInfoPages σ₀.numberOfFrames := rfl
  obtain ⟨inKernel, first⟩ := space.firstFreeFrame limit
  have low : 256 ≤ FosV2.firstFreeFrame vm.state := by omega
  have high : FosV2.firstFreeFrame vm.state ≤ vm.state.numberOfFrames := by
    rw [first, space.sameFrames]
    exact enough
  obtain ⟨σ, paging, initialized⟩ := initializePaging_spec inKernel low high
  obtain ⟨frames, memory, pointer, _⟩ := initialized.machine
  have left : LeftByInitializePaging image.directory (FosV2.firstFreeFrame vm.state) σ := by
    refine ⟨⟨vm.state, rfl, paging⟩, ?_, low, frames ▸ high, ?_, ?_, ?_⟩
    · rw [frames, space.sameFrames]
      omega
    · rw [frames, space.sameFrames]
      omega
    · rw [mem_freeAfterBoot]
      omega
    · rw [memory, userEntries_eq]
      exact space.user
  obtain ⟨pp0, pp1, pp2, rest, list⟩ := freeAfterBoot_three (FosV2.firstFreeFrame vm.state) σ.numberOfFrames
  have wf := left.wellFormed
  rw [list] at wf
  have empty (i : Nat) (below : i < userEntries) : σ.memory image.directory i = 0 :=
    left.userHalf i below
  have inside : 1 < userEntries := by
    rw [userEntries_eq]
    omega
  obtain ⟨σ', checked, after⟩ := pageCheck_returns wf (empty 0 (by omega)) (empty 1 inside)
  have sameFirst : FosV2.firstFreeFrame σ' = FosV2.firstFreeFrame vm.state := by
    simp only [FosV2.firstFreeFrame, after.pointer, pointer]
  have sameFrames : σ'.numberOfFrames = vm.state.numberOfFrames := after.sameFrames.trans frames
  have sameDirectory : σ'.memory image.directory = vm.state.memory image.directory := by
    rw [after.directory, memory]
  have inUse {table : Nat} (above : 256 ≤ table) (below : table < image.firstFree σ₀.numberOfFrames) :
      σ'.memory table = vm.state.memory table := by
    rw [after.memory table, memory]
    intro member
    have member' : table ∈ freeAfterBoot (FosV2.firstFreeFrame vm.state) σ.numberOfFrames := by
      rw [list]
      rcases List.mem_cons.mp member with rfl | member
      · simp
      rcases List.mem_cons.mp member with rfl | member
      · simp
      rcases List.mem_cons.mp member with rfl | member
      · simp
      · simp [member]
    rw [mem_freeAfterBoot] at member'
    omega
  refine ⟨σ, σ', paging, by rw [pgdir]; exact checked, pgdir, ?_, ?_, ?_, ⟨pp2 :: pp1 :: pp0 :: rest, ?_⟩,
    ?_, ?_, ?_⟩
  · rw [sameFrames, space.sameFrames]
    exact limit
  · rw [sameFirst]
    exact low
  · rw [sameFirst, sameFrames]
    exact high
  · rw [sameFirst, after.sameFrames]
    exact after.wf
  · intro i below
    rw [after.directory]
    exact empty i below
  · rw [sameFirst, first]
    exact (space.kernelHalf limit).congr sameDirectory
  · obtain ⟨table, named, above, below, target⟩ := space.frameZero
    refine ⟨table, ?_, ?_⟩
    · rw [pageTable, sameDirectory]
      exact named
    · rw [inUse above below]
      exact target

def detectedMachine (baseReading extendedReading : BitVec 16) (σ : State) : State :=
  { σ with
    ptrFreeMem := 0
    freeFrameList := σ.freeFrameList.init
    numberOfFrames := (detectMemory baseReading extendedReading).numberOfFrames.toNat }

theorem fosInitialize_eq (image : BootImage) (baseReading extendedReading : BitVec 16) (σ : State) :
    fosInitialize image baseReading extendedReading σ = do
      let vm ← initializeKernelVM image (detectedMachine baseReading extendedReading σ)
      let σ ← initializePaging vm.state
      let σ ← pageCheck σ vm.ptrPageDirectory
      return { vm with state := σ } := rfl

theorem fosInitialize_atPrompt {baseReading extendedReading : BitVec 16} {σ : State}
    (booted : fosInitialize image baseReading extendedReading σ = .ok vm) : AtPrompt image vm := by
  have limit : (detectedMachine baseReading extendedReading σ).numberOfFrames ≤ 16639 :=
    numberOfFrames_detectMemory baseReading extendedReading
  rw [fosInitialize_eq] at booted
  rcases initializeKernelVM_cases image rfl limit with
    ⟨mapped, returned, pgdir, space⟩ | ⟨⟨stop, failed⟩, _⟩
  · obtain ⟨_, σ', paging, checked, atPrompt⟩ := space.atPrompt pgdir limit
    simp only [returned, ok_bind, paging, checked] at booted
    cases booted
    exact atPrompt
  · rw [failed, error_bind] at booted
    cases booted

theorem fosInitialize_returns (image : BootImage) (baseReading extendedReading : BitVec 16)
    (σ : State) (enough :
      image.firstFree (detectMemory baseReading extendedReading).numberOfFrames.toNat ≤
        (detectMemory baseReading extendedReading).numberOfFrames.toNat) :
    ∃ vm, fosInitialize image baseReading extendedReading σ = .ok vm := by
  have limit : (detectedMachine baseReading extendedReading σ).numberOfFrames ≤ 16639 :=
    numberOfFrames_detectMemory baseReading extendedReading
  rcases initializeKernelVM_cases image rfl limit with
    ⟨mapped, returned, pgdir, space⟩ | ⟨_, short⟩
  · obtain ⟨_, σ', paging, checked, _⟩ := space.atPrompt pgdir limit
    refine ⟨{ mapped with state := σ' }, ?_⟩
    rw [fosInitialize_eq]
    simp only [returned, ok_bind, paging, checked]
    rfl
  · exact absurd enough (Nat.not_le.mpr short)

end Boot

end FosV2
