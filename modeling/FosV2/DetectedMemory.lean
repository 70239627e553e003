import FosV2.KernelVM

/-!
What `detect_memory` finds against what `initialize_paging` gives away: the free list has the
frames up to the legacy limit of 640 KB on it, whatever the size of the base memory is.
-/

namespace FosV2

open IntrusiveList

def DetectedRam (detected : DetectedMemory) (frame : Nat) : Prop :=
  4096 * frame + 4096 ≤ detected.sizeOfBaseMem.toNat ∨
    (physExtendedMem.toNat ≤ 4096 * frame ∧
      4096 * frame + 4096 ≤ physExtendedMem.toNat + detected.sizeOfExtendedMem.toNat)

def FreesDetected (detected : DetectedMemory) (σ : State) : Prop :=
  ∃ σ', initializePaging σ = .ok σ' ∧
    ∀ frame, σ'.freeFrameList.Reaches .head frame → DetectedRam detected frame

/-- The globals at the call of `initialize_paging`: the boot structures end above the first
megabyte and inside the extended memory. -/
structure BootStructuresFit (detected : DetectedMemory) (σ : State) : Prop where
  frames : σ.numberOfFrames = detected.numberOfFrames.toNat
  kernel : kernelBase ≤ σ.ptrFreeMem
  above : 256 ≤ firstFreeFrame σ
  enough : firstFreeFrame σ ≤ σ.numberOfFrames

theorem freesDetected_iff {baseReading extendedReading : BitVec 16} {σ : State}
    (fit : BootStructuresFit (detectMemory baseReading extendedReading) σ) :
    FreesDetected (detectMemory baseReading extendedReading) σ ↔ 640 ≤ baseReading.toNat := by
  have base := sizeOfBaseMem_detectMemory baseReading extendedReading
  have extended := sizeOfExtendedMem_detectMemory baseReading extendedReading
  have count := numberOfFrames_eq baseReading extendedReading
  have low : physExtendedMem.toNat = 1048576 := by decide
  have above := fit.above
  have enough := fit.enough
  rw [fit.frames] at enough
  obtain ⟨σ', initialized, left⟩ := initializePaging_spec fit.kernel above fit.enough
  have free (frame : Nat) : σ'.freeFrameList.Reaches .head frame ↔
      (1 ≤ frame ∧ frame < 160) ∨
        (firstFreeFrame σ ≤ frame ∧ frame < σ.numberOfFrames) := by
    rw [left.linked.reaches_iff, mem_freeAfterBoot]
  rw [fit.frames] at free
  constructor
  · rintro ⟨σ'', initialized', detected⟩
    rw [initialized] at initialized'
    cases initialized'
    -- The last frame below the limit is the first one that a smaller base memory lacks.
    have last := detected 159 ((free 159).mpr (by omega))
    rw [DetectedRam, base, low] at last
    omega
  · intro large
    refine ⟨σ', initialized, ?_⟩
    intro frame onList
    rw [DetectedRam, base, extended, low]
    split at count
    · omega
    · rcases (free frame).mp onList with below | between
      · exact Or.inl (by omega)
      · exact Or.inr (by omega)

/-! Three megabytes of extended memory, of which the boot structures take the first. -/

def machineAtPaging : State := { smallMachine with numberOfFrames := 1024, ptrFreeMem := 0xF0200000 }

theorem machineAtPaging_fits (baseReading : BitVec 16) :
    BootStructuresFit (detectMemory baseReading 3072) machineAtPaging := by
  have frames := numberOfFrames_eq baseReading 3072
  constructor
  · rw [frames]
    decide
  · decide
  · decide
  · decide

theorem freesDetected_640 : FreesDetected (detectMemory 640 3072) machineAtPaging :=
  (freesDetected_iff (machineAtPaging_fits 640)).mpr (by decide)

/-- A BIOS that keeps the last kilobyte below 640 KB for its data reports 639. -/
theorem not_freesDetected_639 :
    BootStructuresFit (detectMemory 639 3072) machineAtPaging ∧
      ∃ σ, initializePaging machineAtPaging = .ok σ ∧
        ∃ frame, σ.freeFrameList.Reaches .head frame ∧ ¬DetectedRam (detectMemory 639 3072) frame := by
  have fit := machineAtPaging_fits 639
  obtain ⟨σ, initialized, left⟩ := initializePaging_spec fit.kernel fit.above fit.enough
  refine ⟨fit, σ, initialized, 159, ?_, ?_⟩
  · rw [left.linked.reaches_iff, mem_freeAfterBoot]
    omega
  · have base := sizeOfBaseMem_detectMemory 639 3072
    have low : physExtendedMem.toNat = 1048576 := by decide
    have reading : (639 : BitVec 16).toNat = 639 := by decide
    rw [DetectedRam, base, low, reading]
    omega

end FosV2
