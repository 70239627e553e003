import FosV2.MemoryManagerSpecs
import Mathlib.Data.List.Range

/-!
The hand-over at boot: `boot_allocate_space` moves a pointer up from the end of the kernel,
and `initialize_paging` puts what it has not handed out on the free list.
-/

namespace FosV2

open IntrusiveList

/-- The alignment asked for plays no part: every block starts on a page. -/
def bootAllocateSpace (endOfKernel : Word) (σ : State) (size _align : Word) : Word × State :=
  let ptrFreeMem := if σ.ptrFreeMem = 0 then endOfKernel else σ.ptrFreeMem
  let ptrAllocatedMem := roundUp ptrFreeMem pageSize
  (ptrAllocatedMem, { σ with ptrFreeMem := ptrAllocatedMem + size })

/-- `for (i = lo; i < hi; i++)` -/
def countUp (lo hi : Nat) (body : State → Nat → State) (σ : State) : State :=
  (List.range' lo (hi - lo)).foldl body σ

def markInUse (σ : State) (i : Nat) : State :=
  σ.setReferences i 1

def markFree (σ : State) (i : Nat) : State :=
  let σ := σ.setReferences i 0
  { σ with freeFrameList := σ.freeFrameList.insertHead i }

def initializePaging (σ : State) : Except Stop State := do
  let σ := { σ with freeFrameList := σ.freeFrameList.init }
  let σ := σ.setReferences 0 1
  let rangeEnd := roundUp physIoMem pageSize
  let σ := countUp 1 (rangeEnd / pageSize).toNat markFree σ
  let σ := countUp (physIoMem / pageSize).toNat (physExtendedMem / pageSize).toNat markInUse σ
  let physical ← kPhysicalAddress σ.ptrFreeMem
  let rangeEnd := roundUp physical pageSize
  let σ := countUp (physExtendedMem / pageSize).toNat (rangeEnd / pageSize).toNat markInUse σ
  return countUp (rangeEnd / pageSize).toNat σ.numberOfFrames markFree σ

def allocateFrames : Nat → State → Except Stop (List (Option Nat) × State)
  | 0, σ => .ok ([], σ)
  | calls + 1, σ => do
      let (frame, σ) ← allocateFrame σ
      let (frames, σ) ← allocateFrames calls σ
      return (frame :: frames, σ)

theorem roundUp_toNat (a : Word) :
    (roundUp a pageSize).toNat = (a.toNat + 4095) / 4096 * 4096 % 4294967296 := by
  have bound := a.isLt
  have size : pageSize.toNat = 4096 := by decide
  have one : (1 : Word).toNat = 1 := by decide
  have raised : (a + pageSize - 1).toNat = (a.toNat + 4095) % 4294967296 := by
    bv_omega
  have offset : ((a + pageSize - 1) % pageSize).toNat = (a.toNat + 4095) % 4096 := by
    rw [BitVec.toNat_umod, raised, size]
    omega
  rw [roundUp, roundDown, BitVec.toNat_sub, offset, raised]
  omega

theorem roundUp_of_aligned {a : Word} (aligned : a.toNat % 4096 = 0) : roundUp a pageSize = a := by
  have wide := a.isLt
  apply BitVec.eq_of_toNat_eq
  rw [roundUp_toNat]
  omega

def firstFreeFrame (σ : State) : Nat :=
  (roundUp (σ.ptrFreeMem - kernelBase) pageSize / pageSize).toNat

def freeAfterBoot (first numberOfFrames : Nat) : List Nat :=
  (List.range' first (numberOfFrames - first)).reverse ++ (List.range' 1 159).reverse

theorem mem_freeAfterBoot {first numberOfFrames frame : Nat} :
    frame ∈ freeAfterBoot first numberOfFrames ↔
      (1 ≤ frame ∧ frame < 160) ∨ (first ≤ frame ∧ frame < numberOfFrames) := by
  simp only [freeAfterBoot, List.mem_append, List.mem_reverse, List.mem_range'_1]
  omega

theorem freeAfterBoot_succ {first last : Nat} (some : first ≤ last) :
    freeAfterBoot first (last + 1) = last :: freeAfterBoot first last := by
  have length : last + 1 - first = last - first + 1 := by omega
  have end_eq : first + 1 * (last - first) = last := by omega
  rw [freeAfterBoot, length, List.range'_concat, end_eq, List.reverse_append]
  rfl

/-! The loops over the frames. -/

structure SameMachine (σ σ' : State) : Prop where
  numberOfFrames : σ'.numberOfFrames = σ.numberOfFrames
  memory : σ'.memory = σ.memory
  ptrFreeMem : σ'.ptrFreeMem = σ.ptrFreeMem
  tlb : σ'.tlb = σ.tlb

theorem SameMachine.trans {σ σ' σ'' : State} (first : SameMachine σ σ')
    (second : SameMachine σ' σ'') : SameMachine σ σ'' where
  numberOfFrames := second.numberOfFrames.trans first.numberOfFrames
  memory := second.memory.trans first.memory
  ptrFreeMem := second.ptrFreeMem.trans first.ptrFreeMem
  tlb := second.tlb.trans first.tlb

theorem countUp_sameMachine {body : State → Nat → State}
    (kept : ∀ σ i, SameMachine σ (body σ i)) (lo hi : Nat) (σ : State) :
    SameMachine σ (countUp lo hi body σ) := by
  unfold countUp
  induction List.range' lo (hi - lo) generalizing σ with
  | nil => exact ⟨rfl, rfl, rfl, rfl⟩
  | cons i rest ih => exact (kept σ i).trans (ih (body σ i))

theorem freeFrameList_countUp_markInUse (lo hi : Nat) (σ : State) :
    (countUp lo hi markInUse σ).freeFrameList = σ.freeFrameList := by
  unfold countUp
  induction List.range' lo (hi - lo) generalizing σ with
  | nil => rfl
  | cons i rest ih =>
      rw [List.foldl_cons, ih]
      rfl

theorem references_countUp {body : State → Nat → State} {count : BitVec 16}
    (sets : ∀ σ i, (body σ i).references = Function.update σ.references i count)
    (lo hi : Nat) (σ : State) (frame : Nat) :
    (countUp lo hi body σ).references frame =
      if lo ≤ frame ∧ frame < hi then count else σ.references frame := by
  unfold countUp
  generalize turns : hi - lo = n
  induction n generalizing lo σ with
  | zero =>
      rw [if_neg (by omega)]
      rfl
  | succ n ih =>
      rw [List.range'_succ, List.foldl_cons, ih (lo + 1) (body σ lo) (by omega), sets]
      by_cases here : frame = lo
      · subst here
        rw [Function.update_self, if_neg (by omega), if_pos (by omega)]
      · rw [Function.update_of_ne here]
        by_cases later : lo + 1 ≤ frame ∧ frame < hi
        · rw [if_pos later, if_pos (by omega)]
        · rw [if_neg later, if_neg (by omega)]

theorem wellLinked_countUp_markFree {σ : State} {members : List Nat} {lo hi : Nat}
    (linked : σ.freeFrameList.WellLinked members)
    (fresh : ∀ i, lo ≤ i → i < hi → i ∉ members) :
    (countUp lo hi markFree σ).freeFrameList.WellLinked
      ((List.range' lo (hi - lo)).reverse ++ members) := by
  unfold countUp
  generalize turns : hi - lo = n
  induction n generalizing lo σ members with
  | zero => exact linked
  | succ n ih =>
      have inserted : (markFree σ lo).freeFrameList.WellLinked (lo :: members) :=
        linked.insertHead (fresh lo (by omega) (by omega))
      rw [List.range'_succ, List.foldl_cons, List.reverse_cons, List.append_assoc]
      apply ih inserted
      · intro i lower upper member
        rcases List.mem_cons.mp member with same | member
        · omega
        · exact fresh i (by omega) upper member
      · omega

structure PagingInitialized (σ σ' : State) : Prop where
  linked : σ'.freeFrameList.WellLinked (freeAfterBoot (firstFreeFrame σ) σ.numberOfFrames)
  free : ∀ frame ∈ freeAfterBoot (firstFreeFrame σ) σ.numberOfFrames, σ'.references frame = 0
  inUse : ∀ frame < σ.numberOfFrames,
    frame ∉ freeAfterBoot (firstFreeFrame σ) σ.numberOfFrames → σ'.references frame = 1
  machine : SameMachine σ σ'

theorem kPhysicalAddress_of_le {kva : Word} (kernel : kernelBase ≤ kva) :
    kPhysicalAddress kva = .ok (kva - kernelBase) := by
  have notBelow : ¬kva < kernelBase := BitVec.not_lt.mpr kernel
  rw [kPhysicalAddress, if_neg notBelow]

def partitionFrames (first numberOfFrames : Nat) (σ : State) : State :=
  let σ := State.setReferences { σ with freeFrameList := σ.freeFrameList.init } 0 1
  let σ := countUp 1 160 markFree σ
  let σ := countUp 160 256 markInUse σ
  let σ := countUp 256 first markInUse σ
  countUp first numberOfFrames markFree σ

theorem partitionFrames_sameMachine (first numberOfFrames : Nat) (σ : State) :
    SameMachine σ (partitionFrames first numberOfFrames σ) := by
  have free : ∀ σ i, SameMachine σ (markFree σ i) := fun _ _ => ⟨rfl, rfl, rfl, rfl⟩
  have inUse : ∀ σ i, SameMachine σ (markInUse σ i) := fun _ _ => ⟨rfl, rfl, rfl, rfl⟩
  have start : SameMachine σ
      (State.setReferences { σ with freeFrameList := σ.freeFrameList.init } 0 1) :=
    ⟨rfl, rfl, rfl, rfl⟩
  have base := start.trans (countUp_sameMachine free 1 160 _)
  have hole := base.trans (countUp_sameMachine inUse 160 256 _)
  have kernelPart := hole.trans (countUp_sameMachine inUse 256 first _)
  exact kernelPart.trans (countUp_sameMachine free first numberOfFrames _)

theorem partitionFrames_wellLinked {first : Nat} (low : 256 ≤ first) (numberOfFrames : Nat)
    (σ : State) : (partitionFrames first numberOfFrames σ).freeFrameList.WellLinked
      (freeAfterBoot first numberOfFrames) := by
  have start := LinkedList.init_wellLinked σ.freeFrameList
  have base : (countUp 1 160 markFree (State.setReferences
      { σ with freeFrameList := σ.freeFrameList.init } 0 1)).freeFrameList.WellLinked
        ((List.range' 1 (160 - 1)).reverse ++ []) :=
    wellLinked_countUp_markFree start (by simp)
  rw [List.append_nil] at base
  apply wellLinked_countUp_markFree
  · rw [freeFrameList_countUp_markInUse, freeFrameList_countUp_markInUse]
    exact base
  · intro i lower _ member
    simp only [List.mem_reverse, List.mem_range'_1] at member
    omega

theorem partitionFrames_references {first numberOfFrames : Nat} (low : 256 ≤ first)
    (σ : State) {frame : Nat} (bound : frame < numberOfFrames) :
    (partitionFrames first numberOfFrames σ).references frame =
      if (1 ≤ frame ∧ frame < 160) ∨ (first ≤ frame ∧ frame < numberOfFrames) then 0 else 1 := by
  have inUse : ∀ σ i, (markInUse σ i).references = Function.update σ.references i 1 :=
    fun _ _ => rfl
  have free : ∀ σ i, (markFree σ i).references = Function.update σ.references i 0 :=
    fun _ _ => rfl
  have start : (State.setReferences { σ with freeFrameList := σ.freeFrameList.init } 0 1).references
      frame = if frame = 0 then 1 else σ.references frame := by
    simp [State.setReferences, Function.update_apply]
  simp only [partitionFrames, references_countUp free, references_countUp inUse, start]
  split_ifs <;> first | rfl | omega

theorem initializePaging_eq {σ : State} (kernel : kernelBase ≤ σ.ptrFreeMem) :
    initializePaging σ = .ok (partitionFrames (firstFreeFrame σ) σ.numberOfFrames σ) := by
  have baseEnd : (roundUp physIoMem pageSize / pageSize).toNat = 160 := by decide
  have holeStart : (physIoMem / pageSize).toNat = 160 := by decide
  have holeEnd : (physExtendedMem / pageSize).toNat = 256 := by decide
  have free : ∀ σ i, SameMachine σ (markFree σ i) := fun _ _ => ⟨rfl, rfl, rfl, rfl⟩
  have inUse : ∀ σ i, SameMachine σ (markInUse σ i) := fun _ _ => ⟨rfl, rfl, rfl, rfl⟩
  have base := countUp_sameMachine free 1 160
    (State.setReferences { σ with freeFrameList := σ.freeFrameList.init } 0 1)
  have hole := base.trans (countUp_sameMachine inUse 160 256 _)
  have kernelPart := hole.trans (countUp_sameMachine inUse 256 (firstFreeFrame σ) _)
  simp only [initializePaging, baseEnd, holeStart, holeEnd, hole.ptrFreeMem]
  change (kPhysicalAddress σ.ptrFreeMem >>= _) = _
  rw [kPhysicalAddress_of_le kernel, ok_bind]
  change Except.ok (countUp (firstFreeFrame σ) (countUp 256 (firstFreeFrame σ) markInUse
    _).numberOfFrames markFree _) = _
  rw [kernelPart.numberOfFrames]
  rfl

theorem initializePaging_spec {σ : State} (kernel : kernelBase ≤ σ.ptrFreeMem)
    (low : 256 ≤ firstFreeFrame σ) (high : firstFreeFrame σ ≤ σ.numberOfFrames) :
    ∃ σ', initializePaging σ = .ok σ' ∧ PagingInitialized σ σ' := by
  refine ⟨_, initializePaging_eq kernel, ?_⟩
  constructor
  · exact partitionFrames_wellLinked low _ σ
  · intro frame member
    rw [mem_freeAfterBoot] at member
    rw [partitionFrames_references low σ (by omega), if_pos member]
  · intro frame bound outside
    rw [partitionFrames_references low σ bound, if_neg]
    rwa [mem_freeAfterBoot] at outside
  · exact partitionFrames_sameMachine _ _ σ

theorem kernelBase_le_of_initializePaging {σ σ' : State} (left : initializePaging σ = .ok σ') :
    kernelBase ≤ σ.ptrFreeMem := by
  have free : ∀ σ i, SameMachine σ (markFree σ i) := fun _ _ => ⟨rfl, rfl, rfl, rfl⟩
  have inUse : ∀ σ i, SameMachine σ (markInUse σ i) := fun _ _ => ⟨rfl, rfl, rfl, rfl⟩
  by_contra below
  have panics : kPhysicalAddress σ.ptrFreeMem = .error (.kPhysicalAddress σ.ptrFreeMem) :=
    if_pos (BitVec.not_le.mp below)
  simp only [initializePaging, (countUp_sameMachine inUse _ _ _).ptrFreeMem,
    (countUp_sameMachine free _ _ _).ptrFreeMem] at left
  change (kPhysicalAddress σ.ptrFreeMem >>= _) = _ at left
  rw [panics, error_bind] at left
  exact absurd left (by simp)

def heldSinceBoot (first numberOfFrames frame : Nat) : Nat :=
  if frame ∈ freeAfterBoot first numberOfFrames then 0 else 1

structure LeftByInitializePaging (pgdir first : Nat) (σ : State) : Prop where
  left : ∃ before, firstFreeFrame before = first ∧ initializePaging before = .ok σ
  frames : σ.numberOfFrames ≤ 65536
  low : 256 ≤ first
  high : first ≤ σ.numberOfFrames
  directory : pgdir < σ.numberOfFrames
  directoryInUse : pgdir ∉ freeAfterBoot first σ.numberOfFrames
  userHalf : ∀ i < userEntries, σ.memory pgdir i = 0

theorem namings_of_empty {σ : State} {pgdir : Nat}
    (empty : ∀ i < userEntries, σ.memory pgdir i = 0) (frame : Nat) :
    namings σ pgdir frame = 0 := by
  have directory : directoryNamings σ pgdir frame = 0 := by
    rw [directoryNamings, Occurrences.occurrences_eq_zero_iff]
    intro i member
    rw [pageTable, empty i (Finset.mem_range.mp member), entryTarget_zero]
    simp
  have table : tableNamings σ pgdir frame = 0 := by
    rw [tableNamings, Occurrences.occurrences_eq_zero_iff]
    intro slot member
    have inside := Finset.mem_range.mp (Finset.mem_product.mp member).1
    rw [pageTarget, pageEntry_of_no_table (empty slot.1 inside), entryTarget_zero]
    simp
  rw [namings, directory, table]

theorem LeftByInitializePaging.wellFormed {pgdir first : Nat} {σ : State}
    (boot : LeftByInitializePaging pgdir first σ) :
    WellFormed pgdir (heldSinceBoot first σ.numberOfFrames)
      (freeAfterBoot first σ.numberOfFrames) σ := by
  obtain ⟨before, start, left⟩ := boot.left
  have kernel := kernelBase_le_of_initializePaging left
  have sameFrames : before.numberOfFrames = σ.numberOfFrames := by
    rw [initializePaging_eq kernel] at left
    rw [← Except.ok.inj left, (partitionFrames_sameMachine _ _ _).numberOfFrames]
  have high := boot.high
  obtain ⟨σ', left', initialized⟩ := initializePaging_spec kernel
    (by rw [start]; exact boot.low) (by rw [start, sameFrames]; exact high)
  rw [left] at left'
  rw [← Except.ok.inj left'] at initialized
  have linked := initialized.linked
  have free := initialized.free
  have inUse := initialized.inUse
  rw [start, sameFrames] at linked free inUse
  constructor
  · exact boot.frames
  · exact linked
  · intro frame member
    rw [mem_freeAfterBoot] at member
    have low := boot.low
    omega
  · exact free
  · intro frame bound
    rw [namings_of_empty boot.userHalf, heldSinceBoot]
    by_cases member : frame ∈ freeAfterBoot first σ.numberOfFrames
    · rw [free frame member, if_pos member]
      rfl
    · rw [inUse frame bound member, if_neg member]
      rfl
  · exact boot.directory
  · rw [heldSinceBoot, if_neg boot.directoryInUse]
    exact Nat.one_pos
  · intro i inside nonzero
    exact absurd (boot.userHalf i inside) nonzero
  · intro i i' table inside _ named
    rw [pageTable, boot.userHalf i inside, entryTarget_zero] at named
    exact absurd named (by simp)
  · intro i inside j _ nonzero
    exact absurd (pageEntry_of_no_table (boot.userHalf i inside) j) nonzero

/-! A machine of 300 frames that boot has left with 257 frames in use, for examples. -/

def smallMachine : State where
  numberOfFrames := 300
  memory _ _ := 0
  references _ := 0
  freeFrameList := ⟨none, fun _ => ⟨none, none⟩⟩
  ptrFreeMem := 0xF0101000
  tlb := []

theorem firstFreeFrame_smallMachine : firstFreeFrame smallMachine = 257 := by decide

def smallMachineBooted : State := partitionFrames 257 300 smallMachine

theorem smallMachineBooted_frames : smallMachineBooted.numberOfFrames = 300 :=
  (partitionFrames_sameMachine 257 300 smallMachine).numberOfFrames

theorem smallMachineBooted_left : LeftByInitializePaging 256 257 smallMachineBooted := by
  have frames := smallMachineBooted_frames
  refine ⟨⟨smallMachine, firstFreeFrame_smallMachine, ?_⟩, ?_, ?_, ?_, ?_, ?_, ?_⟩
  · rw [initializePaging_eq (by decide), firstFreeFrame_smallMachine]
    rfl
  · omega
  · omega
  · omega
  · omega
  · rw [mem_freeAfterBoot, frames]
    omega
  · intro i _
    change (partitionFrames 257 300 smallMachine).memory 256 i = 0
    rw [(partitionFrames_sameMachine 257 300 smallMachine).memory]
    rfl

theorem smallMachineBooted_wellFormed :
    WellFormed 256 (heldSinceBoot 257 300) (freeAfterBoot 257 300) smallMachineBooted := by
  have wf := smallMachineBooted_left.wellFormed
  rwa [smallMachineBooted_frames] at wf

/-- Frame 299 is the first one on the free list. -/
theorem smallMachineBooted_first :
    WellFormed 256 (heldSinceBoot 257 300) (299 :: freeAfterBoot 257 299) smallMachineBooted := by
  have wf := smallMachineBooted_wellFormed
  rwa [freeAfterBoot_succ (by omega)] at wf

end FosV2
