import FosV2.BumpAllocator
import FosV2.InitializePaging

/-!
Two allocators share physical memory: what `boot_allocate_space` has handed out must never
come back from `allocate_frame`. The pointer of the first one is 32 bits wide, and nothing
stops it at the end of the address space.
-/

namespace FosV2

open IntrusiveList BumpAllocator

def bootAllocations (endOfKernel : Word) : List (Word × Word) → State → List (Word × Word) × State
  | [], σ => ([], σ)
  | (size, align) :: requests, σ =>
      let (ptr, σ) := bootAllocateSpace endOfKernel σ size align
      let (blocks, σ) := bootAllocations endOfKernel requests σ
      ((ptr, size) :: blocks, σ)

def HoldsByte (block : Word × Word) (frame : Nat) : Prop :=
  ∃ offset < block.2.toNat, kernelBase ≤ block.1 + BitVec.ofNat 32 offset ∧
    ppn (block.1 + BitVec.ofNat 32 offset - kernelBase) = frame

def Reserved (endOfKernel : Word) (blocks : List (Word × Word)) (frame : Nat) : Prop :=
  frame = 0 ∨ (ppn physIoMem ≤ frame ∧ frame < ppn physExtendedMem) ∨
    (∃ byte : Word, kernelBase + physExtendedMem ≤ byte ∧ byte < endOfKernel ∧
      ppn (byte - kernelBase) = frame) ∨
    ∃ block ∈ blocks, HoldsByte block frame

structure HandedOver (endOfKernel : Word) (blocks : List (Word × Word)) (first : Nat) (σ : State) :
    Prop where
  partition : ∃ free, σ.freeFrameList.WellLinked free ∧
    (∀ frame, frame ∈ free ↔
      (1 ≤ frame ∧ frame < 160) ∨ (first ≤ frame ∧ frame < σ.numberOfFrames)) ∧
    (∀ frame < σ.numberOfFrames, σ.references frame = if frame ∈ free then 0 else 1) ∧
    ∀ calls, ∃ taken σ', taken.Nodup ∧ taken ⊆ free ∧ taken.length = min calls free.length ∧
      allocateFrames calls σ =
        .ok (taken.map some ++ List.replicate (calls - taken.length) none, σ')
  never : ∀ calls frames σ', allocateFrames calls σ = .ok (frames, σ') →
    ∀ frame, some frame ∈ frames → ¬Reserved endOfKernel blocks frame

/-! The pointer of `boot_allocate_space` is the pointer of a bump allocator. -/

/-- A kernel as the linker script places it, from `0xF0100000` on. -/
structure KernelImage where
  endOfKernel : Word
  linked : kernelBase + physExtendedMem ≤ endOfKernel

theorem KernelImage.low (kernel : KernelImage) : 4027580416 ≤ kernel.endOfKernel.toNat :=
  kernel.linked

def KernelImage.arena (kernel : KernelImage) : Arena where
  align := 4096
  limit := 4294967296
  origin := kernel.endOfKernel.toNat
  positive := by omega
  aligned := by omega
  nonzero := by
    have low := kernel.low
    omega
  inside := kernel.endOfKernel.isLt

def requestSizes (requests : List (Word × Word)) : List Nat :=
  requests.map fun request => request.1.toNat

variable (kernel : KernelImage)

theorem bootAllocateSpace_ptr (σ : State) (size align : Word) :
    (bootAllocateSpace kernel.endOfKernel σ size align).1 =
      BitVec.ofNat 32 (kernel.arena.start σ.ptrFreeMem.toNat) := by
  apply BitVec.eq_of_toNat_eq
  rw [bootAllocateSpace, roundUp_toNat, BitVec.toNat_ofNat, Arena.start]
  by_cases zero : σ.ptrFreeMem = 0
  · have none : σ.ptrFreeMem.toNat = 0 := by rw [zero]; rfl
    rw [if_pos zero, if_pos none]
    rfl
  · have nonzero : ¬σ.ptrFreeMem.toNat = 0 := fun equal => zero (BitVec.eq_of_toNat_eq equal)
    rw [if_neg zero, if_neg nonzero]
    rfl

theorem bootAllocateSpace_next (σ : State) (size align : Word) :
    (bootAllocateSpace kernel.endOfKernel σ size align).2.ptrFreeMem.toNat =
      (kernel.arena.start σ.ptrFreeMem.toNat + size.toNat) % 4294967296 := by
  have ptr : (bootAllocateSpace kernel.endOfKernel σ size align).2.ptrFreeMem =
      (bootAllocateSpace kernel.endOfKernel σ size align).1 + size := rfl
  rw [ptr, bootAllocateSpace_ptr kernel, BitVec.toNat_add, BitVec.toNat_ofNat]
  omega

theorem finish_bootAllocations (requests : List (Word × Word)) (σ : State) :
    (bootAllocations kernel.endOfKernel requests σ).2.ptrFreeMem.toNat =
      kernel.arena.finish (requestSizes requests) σ.ptrFreeMem.toNat := by
  induction requests generalizing σ with
  | nil => rfl
  | cons request requests ih =>
      obtain ⟨size, align⟩ := request
      simp only [bootAllocations, requestSizes, List.map_cons, Arena.finish]
      rw [ih, bootAllocateSpace_next kernel]
      rfl

theorem numberOfFrames_bootAllocations (endOfKernel : Word) (requests : List (Word × Word)) (σ : State) :
    (bootAllocations endOfKernel requests σ).2.numberOfFrames = σ.numberOfFrames := by
  induction requests generalizing σ with
  | nil => rfl
  | cons request requests ih =>
      simp only [bootAllocations]
      rw [ih]
      rfl

theorem holdsByte_iff (start : Nat) (size : Word) (frame : Nat) :
    HoldsByte (BitVec.ofNat 32 start, size) frame ↔
      ∃ address, kernel.arena.Covers (start, start + size.toNat) address ∧
        4026531840 ≤ address ∧ (address - 4026531840) / 4096 = frame := by
  have base : kernelBase.toNat = 4026531840 := by decide
  have wide := size.isLt
  constructor
  · rintro ⟨offset, small, above, inFrame⟩
    change offset < size.toNat at small
    have number : (BitVec.ofNat 32 start + BitVec.ofNat 32 offset).toNat =
        (start + offset) % 4294967296 := by
      rw [BitVec.toNat_add, BitVec.toNat_ofNat, BitVec.toNat_ofNat]
      omega
    rw [BitVec.le_def, number, base] at above
    rw [ppn_eq, BitVec.toNat_sub, number, base] at inFrame
    refine ⟨(start + offset) % 4294967296, ⟨start + offset, ?_, ?_, rfl⟩, above, ?_⟩
    · exact Nat.le_add_right start offset
    · change start + offset < start + size.toNat
      omega
    · omega
  · rintro ⟨address, ⟨byte, lower, upper, wrapped⟩, above, inFrame⟩
    change start ≤ byte at lower
    change byte < start + size.toNat at upper
    change byte % 4294967296 = address at wrapped
    have number : (BitVec.ofNat 32 start + BitVec.ofNat 32 (byte - start)).toNat = address := by
      rw [BitVec.toNat_add, BitVec.toNat_ofNat, BitVec.toNat_ofNat]
      omega
    refine ⟨byte - start, ?_, ?_, ?_⟩
    · change byte - start < size.toNat
      omega
    · rw [BitVec.le_def, number, base]
      exact above
    · rw [ppn_eq, BitVec.toNat_sub, number, base]
      omega

theorem exists_holdsByte_iff (requests : List (Word × Word)) (σ : State) (frame : Nat) :
    (∃ block ∈ (bootAllocations kernel.endOfKernel requests σ).1, HoldsByte block frame) ↔
      ∃ block ∈ kernel.arena.blocks (requestSizes requests) σ.ptrFreeMem.toNat,
        ∃ address, kernel.arena.Covers block address ∧
          4026531840 ≤ address ∧ (address - 4026531840) / 4096 = frame := by
  induction requests generalizing σ with
  | nil => simp [bootAllocations, requestSizes, Arena.blocks]
  | cons request requests ih =>
      obtain ⟨size, align⟩ := request
      have next := bootAllocateSpace_next kernel σ size align
      simp only [bootAllocations, requestSizes, List.map_cons, Arena.blocks, List.exists_mem_cons_iff]
      rw [bootAllocateSpace_ptr kernel, holdsByte_iff kernel, ih, next]
      rfl

/-! Consecutive calls of `allocate_frame`. -/

theorem allocateFrames_eq {free : List Nat} {σ : State} (linked : σ.freeFrameList.WellLinked free)
    (calls : Nat) : ∃ σ', allocateFrames calls σ =
      .ok ((free.take calls).map some ++ List.replicate (calls - free.length) none, σ') := by
  induction calls generalizing σ free with
  | zero => exact ⟨σ, by simp [allocateFrames]⟩
  | succ calls ih =>
      cases free with
      | nil =>
          obtain ⟨σ', rest⟩ := ih linked
          refine ⟨σ', ?_⟩
          simp only [allocateFrames, allocateFrame_nil linked, ok_bind, rest]
          simp only [List.take_nil, List.map_nil, List.nil_append, List.length_nil, Nat.sub_zero,
            List.replicate_succ]
          rfl
      | cons frame rest =>
          obtain ⟨list, shorter, allocated⟩ := allocateFrame_first linked
          have after : LinkedList.WellLinked (State.freeFrameList { σ with
              freeFrameList := list
              references := Function.update σ.references frame 0 }) rest := shorter
          obtain ⟨σ', others⟩ := ih after
          refine ⟨σ', ?_⟩
          simp only [allocateFrames, allocated, ok_bind, others]
          simp only [List.take_succ_cons, List.map_cons, List.cons_append, List.length_cons,
            Nat.add_sub_add_right]
          rfl

theorem firstFreeFrame_eq {σ : State} (inKernel : kernelBase ≤ σ.ptrFreeMem) :
    firstFreeFrame σ = (σ.ptrFreeMem.toNat - 4026531840 + 4095) / 4096 := by
  have base : kernelBase.toNat = 4026531840 := by decide
  have above : kernelBase.toNat ≤ σ.ptrFreeMem.toNat := inKernel
  have below := σ.ptrFreeMem.isLt
  have size : pageSize.toNat = 4096 := by decide
  have physical : (σ.ptrFreeMem - kernelBase).toNat = σ.ptrFreeMem.toNat - 4026531840 := by
    rw [BitVec.toNat_sub, base]
    omega
  rw [firstFreeFrame, BitVec.toNat_udiv, roundUp_toNat, physical, size]
  omega

/-! Whether a free frame is spoken for. -/

section Reservations

variable {kernel : KernelImage} {σ : State} {requests : List (Word × Word)} {first : Nat}

def arenaBlocks (kernel : KernelImage) (requests : List (Word × Word)) : List (Nat × Nat) :=
  kernel.arena.blocks (requestSizes requests) 0

structure AtHandover (kernel : KernelImage) (first : Nat) (requests : List (Word × Word))
    (σ : State) : Prop where
  fresh : σ.ptrFreeMem = 0
  inKernel : kernelBase ≤ (bootAllocations kernel.endOfKernel requests σ).2.ptrFreeMem
  first_eq : firstFreeFrame (bootAllocations kernel.endOfKernel requests σ).2 = first
  low : 256 ≤ first

theorem AtHandover.finish (handover : AtHandover kernel first requests σ) :
    4026531840 ≤ kernel.arena.finish (requestSizes requests) 0 ∧
      first = (kernel.arena.finish (requestSizes requests) 0 -
        4026531840 + 4095) / 4096 := by
  have pointer := finish_bootAllocations kernel requests σ
  have zero : σ.ptrFreeMem.toNat = 0 := by rw [handover.fresh]; rfl
  have above : 4026531840 ≤ (bootAllocations kernel.endOfKernel requests σ).2.ptrFreeMem.toNat :=
    handover.inKernel
  have first_eq := handover.first_eq
  rw [firstFreeFrame_eq handover.inKernel] at first_eq
  rw [pointer, zero] at above first_eq
  exact ⟨above, first_eq.symm⟩

theorem AtHandover.reserved_of_covers (handover : AtHandover kernel first requests σ) {frame : Nat}
    (covered : ∃ block ∈ arenaBlocks kernel requests,
      kernel.arena.Covers block (4026531840 + frame * 4096)) :
    Reserved kernel.endOfKernel (bootAllocations kernel.endOfKernel requests σ).1 frame := by
  have zero : σ.ptrFreeMem.toNat = 0 := by rw [handover.fresh]; rfl
  obtain ⟨block, member, covers⟩ := covered
  refine Or.inr (Or.inr (Or.inr ((exists_holdsByte_iff kernel requests σ frame).mpr ?_)))
  rw [zero]
  exact ⟨block, member, _, covers, by omega, by omega⟩

theorem AtHandover.reserved_of_overrun (handover : AtHandover kernel first requests σ)
    (overrun : ∃ block ∈ arenaBlocks kernel requests, 4294967296 < block.2) :
    Reserved kernel.endOfKernel (bootAllocations kernel.endOfKernel requests σ).1 1 := by
  obtain ⟨above, first_eq⟩ := handover.finish
  have low := handover.low
  apply handover.reserved_of_covers
  apply Arena.covers_of_overrun
  · exact ⟨983041, by change _ = 4096 * 983041; omega⟩
  · change 4026531840 + 1 * 4096 < 4294967296
    omega
  · intro size member
    obtain ⟨request, _, rfl⟩ := List.mem_map.mp member
    exact request.1.isLt
  · change 0 < 4294967296
    omega
  · exact overrun
  · omega

theorem AtHandover.origin_le (handover : AtHandover kernel first requests σ)
    (within : ∀ block ∈ arenaBlocks kernel requests, block.2 ≤ 4294967296) :
    (∀ block ∈ arenaBlocks kernel requests, alignUp 4096 kernel.endOfKernel.toNat ≤ block.1) ∧
      alignUp 4096 kernel.endOfKernel.toNat ≤
        kernel.arena.finish (requestSizes requests) 0 := by
  obtain ⟨above, _⟩ := handover.finish
  obtain ⟨starts, last⟩ := Arena.blocks_within (Or.inl rfl) within
  refine ⟨starts, ?_⟩
  rcases last with zero | last
  · omega
  · exact last

theorem AtHandover.reserved_of_reset (handover : AtHandover kernel first requests σ)
    (within : ∀ block ∈ arenaBlocks kernel requests, block.2 ≤ 4294967296)
    (reset : ∃ block ∈ arenaBlocks kernel requests, block.2 = 4294967296) (small : first < 65536) :
    Reserved kernel.endOfKernel (bootAllocations kernel.endOfKernel requests σ).1 first := by
  obtain ⟨above, first_eq⟩ := handover.finish
  obtain ⟨_, origin⟩ := handover.origin_le within
  apply handover.reserved_of_covers
  apply Arena.covers_of_reset
  · exact ⟨983040 + first, by change _ = 4096 * (983040 + first); omega⟩
  · change 4026531840 + first * 4096 < 4294967296
    omega
  · exact within
  · exact reset
  · change alignUp 4096 kernel.endOfKernel.toNat ≤ _
    omega

/-- Which free frames are spoken for: none as long as no request reaches the end of the
address space; and if the pointer has started over there, those above it. -/
theorem AtHandover.free_not_reserved_iff (handover : AtHandover kernel first requests σ)
    (numberOfFrames : Nat) :
    (∀ frame ∈ freeAfterBoot first numberOfFrames,
        ¬Reserved kernel.endOfKernel (bootAllocations kernel.endOfKernel requests σ).1 frame) ↔
      (∀ block ∈ arenaBlocks kernel requests, block.2 < 4294967296) ∨
      ((∀ block ∈ arenaBlocks kernel requests, block.2 ≤ 4294967296) ∧
        (numberOfFrames ≤ first ∨ 65536 ≤ first)) := by
  constructor
  · intro unreserved
    by_contra reached
    rw [not_or, not_and_or, not_or, not_le, not_le] at reached
    obtain ⟨reaches, beyond⟩ := reached
    by_cases within : ∀ block ∈ arenaBlocks kernel requests, block.2 ≤ 4294967296
    · obtain ⟨more, small⟩ := beyond.resolve_left (not_not.mpr within)
      push Not at reaches
      obtain ⟨block, member, top⟩ := reaches
      refine unreserved first (mem_freeAfterBoot.mpr (Or.inr ⟨Nat.le_refl _, more⟩)) ?_
      exact handover.reserved_of_reset within ⟨block, member, le_antisymm (within block member) top⟩
        small
    · push Not at within
      exact unreserved 1 (mem_freeAfterBoot.mpr (by omega)) (handover.reserved_of_overrun within)
  · intro condition frame member reserved
    have low := handover.low
    rw [mem_freeAfterBoot] at member
    have within : ∀ block ∈ arenaBlocks kernel requests, block.2 ≤ 4294967296 := by
      rcases condition with below | ⟨within, _⟩
      · exact fun block member => (below block member).le
      · exact within
    obtain ⟨starts, origin⟩ := handover.origin_le within
    obtain ⟨above, first_eq⟩ := handover.finish
    have kernelLow := kernel.low
    have originLow : kernel.endOfKernel.toNat ≤ alignUp 4096 kernel.endOfKernel.toNat :=
      le_alignUp (by omega) _
    have holeStart : ppn physIoMem = 160 := by decide
    have holeEnd : ppn physExtendedMem = 256 := by decide
    rcases reserved with zero | hole | ⟨byte, lower, upper, inFrame⟩ | holds
    · omega
    · omega
    · have base : kernelBase.toNat = 4026531840 := by decide
      have lower' : 4027580416 ≤ byte.toNat := lower
      have upper' : byte.toNat < kernel.endOfKernel.toNat := upper
      rw [ppn_eq, BitVec.toNat_sub, base] at inFrame
      omega
    · obtain ⟨block, blockMember, address, ⟨byte, fromStart, toStop, wrapped⟩, inside, inFrame⟩ :=
        (exists_holdsByte_iff kernel requests σ frame).mp holds
      have zero : σ.ptrFreeMem.toNat = 0 := by rw [handover.fresh]; rfl
      rw [zero] at blockMember
      change byte % 4294967296 = address at wrapped
      have starts' := starts block blockMember
      have stops' := within block blockMember
      rcases condition with below | ⟨_, few⟩
      · have finish := (Arena.stop_le_finish below).2 block blockMember
        omega
      · omega

theorem HandedOver.not_reserved {endOfKernel : Word} {blocks : List (Word × Word)}
    (handedOver : HandedOver endOfKernel blocks first σ) {free : List Nat}
    (linked : σ.freeFrameList.WellLinked free) : ∀ frame ∈ free, ¬Reserved endOfKernel blocks frame := by
  intro frame member
  obtain ⟨σ', allocated⟩ := allocateFrames_eq linked free.length
  apply handedOver.never free.length _ σ' allocated frame
  simp [member]

theorem PagingInitialized.partition {σ' : State} (initialized : PagingInitialized σ σ')
    (calls : Nat) :
    ∃ taken σ'', taken.Nodup ∧ taken ⊆ freeAfterBoot (firstFreeFrame σ) σ.numberOfFrames ∧
      taken.length = min calls (freeAfterBoot (firstFreeFrame σ) σ.numberOfFrames).length ∧
      allocateFrames calls σ' =
        .ok (taken.map some ++ List.replicate (calls - taken.length) none, σ'') := by
  obtain ⟨σ'', allocated⟩ := allocateFrames_eq initialized.linked calls
  refine ⟨_, σ'', ?_, List.take_subset calls _, List.length_take, ?_⟩
  · exact initialized.linked.nodup.sublist (List.take_sublist calls _)
  · rw [allocated, List.length_take]
    congr 4
    omega

/-- When the hand-over keeps the two allocators apart, exactly. -/
theorem handedOver_iff (handover : AtHandover kernel first requests σ)
    (high : first ≤ σ.numberOfFrames) :
    (∃ σ', initializePaging (bootAllocations kernel.endOfKernel requests σ).2 = .ok σ' ∧
      HandedOver kernel.endOfKernel (bootAllocations kernel.endOfKernel requests σ).1 first σ') ↔
    (∀ block ∈ arenaBlocks kernel requests, block.2 < 4294967296) ∨
      ((∀ block ∈ arenaBlocks kernel requests, block.2 ≤ 4294967296) ∧
        (σ.numberOfFrames ≤ first ∨ 65536 ≤ first)) := by
  have first_eq := handover.first_eq
  have low := handover.low
  have sameFrames := numberOfFrames_bootAllocations kernel.endOfKernel requests σ
  obtain ⟨σ', left, initialized⟩ := initializePaging_spec handover.inKernel
    (by rw [first_eq]; exact low) (by rw [first_eq, sameFrames]; exact high)
  have linked := initialized.linked
  have frames := initialized.machine.numberOfFrames
  rw [first_eq, sameFrames] at linked
  rw [sameFrames] at frames
  rw [← handover.free_not_reserved_iff σ.numberOfFrames]
  constructor
  · rintro ⟨after, left', handedOver⟩
    rw [left] at left'
    rw [← Except.ok.inj left'] at handedOver
    exact handedOver.not_reserved linked
  · intro unreserved
    refine ⟨σ', left, ⟨freeAfterBoot first σ.numberOfFrames, linked, ?_, ?_, ?_⟩, ?_⟩
    · intro frame
      rw [mem_freeAfterBoot, frames]
    · intro frame bound
      have free := initialized.free frame
      have inUse := initialized.inUse frame
      rw [first_eq, sameFrames] at free inUse
      rw [frames] at bound
      split
      · rename_i member
        exact free member
      · rename_i outside
        exact inUse bound outside
    · have partition := initialized.partition
      rw [first_eq, sameFrames] at partition
      exact partition
    · intro calls results after allocated frame returned
      obtain ⟨σ'', allocated'⟩ := allocateFrames_eq linked calls
      rw [allocated'] at allocated
      rw [← (Prod.mk.inj (Except.ok.inj allocated)).1] at returned
      apply unreserved
      rcases List.mem_append.mp returned with taken | exhausted
      · obtain ⟨frame', member, same⟩ := List.mem_map.mp taken
        rw [← Option.some.inj same]
        exact List.mem_of_mem_take member
      · exact absurd (List.eq_of_mem_replicate exhausted) (by simp)

end Reservations

/-! A kernel that ends at `0xF0200000`, on a machine of 600 frames. -/

def kernelOfTwoMegabytes : KernelImage := ⟨0xF0200000, by decide⟩

def machineAtBoot : State := { smallMachine with numberOfFrames := 600, ptrFreeMem := 0 }

theorem handedOver_onePage :
    ∃ σ', initializePaging (bootAllocations 0xF0200000 [(0x1000, 0x1000)] machineAtBoot).2 = .ok σ' ∧
      HandedOver 0xF0200000 (bootAllocations 0xF0200000 [(0x1000, 0x1000)] machineAtBoot).1 513 σ' := by
  have handover : AtHandover kernelOfTwoMegabytes 513 [(0x1000, 0x1000)] machineAtBoot :=
    ⟨by decide, by decide, by decide, by decide⟩
  refine (handedOver_iff handover (by decide)).mpr (Or.inl ?_)
  decide

/-- One request for all but a page of the address space leaves the pointer below the end
of the kernel again. -/
theorem not_handedOver_wholeSpace :
    AtHandover kernelOfTwoMegabytes 511 [(0xFFFFF000, 0x1000)] machineAtBoot ∧
      ¬∃ σ', initializePaging
          (bootAllocations 0xF0200000 [(0xFFFFF000, 0x1000)] machineAtBoot).2 = .ok σ' ∧
        HandedOver 0xF0200000 (bootAllocations 0xF0200000 [(0xFFFFF000, 0x1000)] machineAtBoot).1
          511 σ' := by
  have handover : AtHandover kernelOfTwoMegabytes 511 [(0xFFFFF000, 0x1000)] machineAtBoot :=
    ⟨by decide, by decide, by decide, by decide⟩
  refine ⟨handover, ?_⟩
  rintro ⟨σ', _, handedOver⟩
  obtain ⟨free, linked, members, _⟩ := handedOver.partition
  have overrun : ∃ block ∈ arenaBlocks kernelOfTwoMegabytes [(0xFFFFF000, 0x1000)],
      4294967296 < block.2 := by decide
  exact handedOver.not_reserved linked 1 ((members 1).mpr (by omega))
    (handover.reserved_of_overrun overrun)

end FosV2
