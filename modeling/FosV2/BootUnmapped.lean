import FosV2.KernelCheck

/-!
What `initialize_kernel_VM` should not map. `boot_get_page_table` leaves in a new table
whatever the frame held, where `get_page_table` clears it, so the slots outside the ranges
are as the memory was when the machine was switched on.
-/

namespace FosV2

def InRange (start : Word) (size : Nat) (va : Word) : Prop :=
  start.toNat ≤ va.toNat ∧ va.toNat / 4096 * 4096 < start.toNat + size

def InMappedRange (numberOfFrames : Nat) (va : Word) : Prop :=
  InRange (kernelStackTop - kernelStackSize) kernelStackSize.toNat va ∨ kernelBase ≤ va ∨
    InRange readOnlyFramesInfo (numberOfFrames * 12) va ∨ InRange uenvs (nenv * 100) va

def InListingWindow (va : Word) : Prop := pdx va = pdx vpt ∨ pdx va = pdx uvpt

def UnmappedOutside (image : BootImage) (σ : State) : Prop :=
  ∃ vm, initializeKernelVM image σ = .ok vm ∧ ∀ va, ¬InMappedRange σ.numberOfFrames va →
    ¬InListingWindow va → ¬Mapped vm.state vm.ptrPageDirectory va

/-- The frames that become the tables of partly filled windows hold no present entry in
the slots that stay as they are. -/
structure TablesClear (image : BootImage) (σ : State) : Prop where
  stack : ∀ j < 1016, ¬present (σ.memory image.stackTable j)
  framesInfo : ∀ j < 1024, framesInfoPages σ.numberOfFrames ≤ j →
    ¬present (σ.memory (image.framesTable σ.numberOfFrames) j)
  envs : ∀ j < 1024, 25 ≤ j → ¬present (σ.memory (image.envsTable σ.numberOfFrames) j)

theorem mapped_iff {σ : State} {pgdir i table : Nat} {va : Word} (window : pdx va = i)
    (isPresent : present (σ.memory pgdir i)) (named : entryFrame (σ.memory pgdir i) = table) :
    Mapped σ pgdir va ↔ present (σ.memory table (ptx va)) := by
  subst window named
  constructor
  · exact Mapped.page
  · exact Mapped.mk isPresent

theorem entryFrame_bootTableEntry {table : Nat} (fits : table < 1048576) :
    entryFrame (bootTableEntry table) = table := entryFrame_constructEntry fits (by decide)

theorem entryFrame_or {table : Nat} (fits : table < 1048576) :
    entryFrame (bootTableEntry table ||| (permUser ||| (permPresent &&& ~~~permWriteable))) =
      table := by
  rw [bootTableEntry, constructEntry, BitVec.or_assoc]
  exact entryFrame_constructEntry fits (by decide)

section Space

variable {image : BootImage} {σ₀ σ : State} (space : KernelSpace image σ₀ σ)
  (limit : σ₀.numberOfFrames ≤ 16639) {va : Word}
include space limit

theorem KernelSpace.mapped_envs (window : pdx va = 955) : Mapped σ image.directory va ↔
    present (σ.memory (image.envsTable σ₀.numberOfFrames) (ptx va)) := by
  have enough := space.enough
  have place : image.firstFree σ₀.numberOfFrames = image.envsTable σ₀.numberOfFrames + 1 := by
    change image.directory + 93 + framesInfoPages σ₀.numberOfFrames =
      image.directory + 92 + framesInfoPages σ₀.numberOfFrames + 1
    omega
  apply mapped_iff window
  · rw [space.envsWindow]
    exact present_or (present_bootTableEntry _)
  · rw [space.envsWindow, entryFrame_or (by omega)]

theorem KernelSpace.mapped_framesInfo (window : pdx va = 956) : Mapped σ image.directory va ↔
    present (σ.memory (image.framesTable σ₀.numberOfFrames) (ptx va)) := by
  have enough := space.enough
  have place : image.firstFree σ₀.numberOfFrames = image.framesTable σ₀.numberOfFrames + 27 := by
    change image.directory + 93 + framesInfoPages σ₀.numberOfFrames =
      image.directory + 66 + framesInfoPages σ₀.numberOfFrames + 27
    omega
  apply mapped_iff window
  · rw [space.framesWindow]
    exact present_bootTableEntry _
  · rw [space.framesWindow, entryFrame_bootTableEntry (by omega)]

omit limit in
theorem KernelSpace.mapped_stack (window : pdx va = 958) : Mapped σ image.directory va ↔
    present (σ.memory image.stackTable (ptx va)) := by
  have bounds := image.directory_bounds
  have place : image.stackTable = image.directory + 1 := rfl
  apply mapped_iff window
  · rw [space.stackWindow]
    exact present_bootTableEntry _
  · rw [space.stackWindow, entryFrame_bootTableEntry (by omega)]

end Space

theorem inMappedRange_iff {numberOfFrames : Nat} (limit : numberOfFrames ≤ 16639) (va : Word) :
    InMappedRange numberOfFrames va ↔ (pdx va = 958 ∧ 1016 ≤ ptx va) ∨ 960 ≤ pdx va ∨
      (pdx va = 956 ∧ ptx va < framesInfoPages numberOfFrames) ∨ (pdx va = 955 ∧ ptx va < 25) := by
  have stack : (kernelStackTop - kernelStackSize).toNat = 4022304768 := by decide
  have stackSize : kernelStackSize.toNat = 32768 := by decide
  have base : kernelBase.toNat = 4026531840 := by decide
  have framesInfo : readOnlyFramesInfo.toNat = 4009754624 := by decide
  have envs : uenvs.toNat = 4005560320 := by decide
  have wide := va.isLt
  rw [InMappedRange, InRange, InRange, InRange, BitVec.le_def, stack, stackSize, base, framesInfo,
    envs, pdx_eq, ptx_eq]
  unfold framesInfoPages nenv
  omega

theorem inListingWindow_iff (va : Word) : InListingWindow va ↔ pdx va = 957 ∨ pdx va = 959 := by
  have first : pdx vpt = 959 := by decide
  have second : pdx uvpt = 957 := by decide
  rw [InListingWindow, first, second]
  exact Or.comm

section Space

variable {image : BootImage} {σ₀ σ : State} (space : KernelSpace image σ₀ σ)
  (limit : σ₀.numberOfFrames ≤ 16639)
include space limit

theorem KernelSpace.unmapped_of_clear (clear : TablesClear image σ₀) {va : Word}
    (outside : ¬InMappedRange σ₀.numberOfFrames va) (notListing : ¬InListingWindow va) :
    ¬Mapped σ image.directory va := by
  have inside : ptx va < 1024 := nptEntries_eq ▸ ptx_lt va
  rw [inMappedRange_iff limit] at outside
  rw [inListingWindow_iff] at notListing
  have window : pdx va < 955 ∨ pdx va = 955 ∨ pdx va = 956 ∨ pdx va = 958 := by omega
  rcases window with user | envs | framesInfo | stack
  · intro mapped
    exact ne_zero_of_present mapped.table (space.user _ user)
  · rw [space.mapped_envs limit envs, space.envs _ inside, if_neg (by omega)]
    exact clear.envs _ inside (by omega)
  · rw [space.mapped_framesInfo limit framesInfo, space.framesInfo _ inside, if_neg (by omega)]
    exact clear.framesInfo _ inside (by omega)
  · rw [space.mapped_stack stack, space.stack _ inside, if_neg (by omega)]
    exact clear.stack _ (by omega)

theorem KernelSpace.clear_of_unmapped (unmapped : ∀ va, ¬InMappedRange σ₀.numberOfFrames va →
    ¬InListingWindow va → ¬Mapped σ image.directory va) : TablesClear image σ₀ := by
  have slotOf (i j : Nat) (window : i < 1024) (slot : j < 1024) :
      pdx (toPhysicalAddress (1024 * i + j)) = i ∧ ptx (toPhysicalAddress (1024 * i + j)) = j := by
    rw [pdx_toPhysicalAddress (by omega), ptx_toPhysicalAddress (by omega)]
    omega
  constructor
  · intro j below
    obtain ⟨window, slot⟩ := slotOf 958 j (by omega) (by omega)
    have notMapped := unmapped (toPhysicalAddress (1024 * 958 + j))
      (by rw [inMappedRange_iff limit]; omega) (by rw [inListingWindow_iff]; omega)
    rwa [space.mapped_stack window, slot, space.stack _ (by omega), if_neg (by omega)] at notMapped
  · intro j below above
    obtain ⟨window, slot⟩ := slotOf 956 j (by omega) below
    have notMapped := unmapped (toPhysicalAddress (1024 * 956 + j))
      (by rw [inMappedRange_iff limit]; omega) (by rw [inListingWindow_iff]; omega)
    rwa [space.mapped_framesInfo limit window, slot, space.framesInfo _ below,
      if_neg (by omega)] at notMapped
  · intro j below above
    obtain ⟨window, slot⟩ := slotOf 955 j (by omega) below
    have notMapped := unmapped (toPhysicalAddress (1024 * 955 + j))
      (by rw [inMappedRange_iff limit]; omega) (by rw [inListingWindow_iff]; omega)
    rwa [space.mapped_envs limit window, slot, space.envs _ below, if_neg (by omega)] at notMapped

end Space

theorem clear_of_unmappedOutside {image : BootImage} {σ : State} (unused : σ.ptrFreeMem = 0)
    (limit : σ.numberOfFrames ≤ 16639) (unmapped : UnmappedOutside image σ) :
    TablesClear image σ := by
  obtain ⟨vm, returned, outside⟩ := unmapped
  rcases initializeKernelVM_cases image unused limit with
    ⟨vm', returned', pgdir, space⟩ | ⟨⟨stop, failed⟩, _⟩
  · rw [returned] at returned'
    cases returned'
    rw [pgdir] at outside
    exact space.clear_of_unmapped limit outside
  · rw [returned] at failed
    cases failed

/-- Nothing is mapped outside the ranges exactly when the memory was clear, by luck, where
the partly filled tables come to lie. -/
theorem unmappedOutside_iff {image : BootImage} {σ : State} (unused : σ.ptrFreeMem = 0)
    (limit : σ.numberOfFrames ≤ 16639)
    (enough : image.firstFree σ.numberOfFrames ≤ σ.numberOfFrames) :
    UnmappedOutside image σ ↔ TablesClear image σ := by
  constructor
  · exact clear_of_unmappedOutside unused limit
  · intro clear
    rcases initializeKernelVM_cases image unused limit with
      ⟨vm, returned, pgdir, space⟩ | ⟨_, short⟩
    · refine ⟨vm, returned, ?_⟩
      rw [pgdir]
      exact fun va outside notListing => space.unmapped_of_clear limit clear outside notListing
    · exact absurd enough (Nat.not_le.mpr short)

/-! A machine of four megabytes whose words all held `word` before. -/

def exampleImage : BootImage where
  endOfKernel := 0xF0120000
  linked := by decide
  ptrStackBottom := 0xF0110000
  stackAligned := by decide
  stackAbove := by decide
  stackBelow := by decide
  small := by decide

def fourMegabytes (word : Word) : State where
  numberOfFrames := 1024
  memory _ _ := word
  references _ := 0
  freeFrameList := ⟨none, fun _ => ⟨none, none⟩⟩
  ptrFreeMem := 0
  tlb := []

theorem unmappedOutside_fourMegabytes : UnmappedOutside exampleImage (fourMegabytes 0) := by
  refine (unmappedOutside_iff rfl (by decide) (by decide)).mpr ⟨?_, ?_, ?_⟩
  · exact fun _ _ => not_present_zero
  · exact fun _ _ _ => not_present_zero
  · exact fun _ _ _ => not_present_zero

/-- With any other content that has the present bit set, "Invalid Memory" is mapped. -/
theorem not_unmappedOutside_fourMegabytes :
    exampleImage.firstFree (fourMegabytes 1).numberOfFrames ≤ (fourMegabytes 1).numberOfFrames ∧
      ¬UnmappedOutside exampleImage (fourMegabytes 1) := by
  refine ⟨by decide, ?_⟩
  intro unmapped
  have clear := clear_of_unmappedOutside rfl (by decide) unmapped
  exact clear.stack 0 (by omega) (by decide)

end FosV2
