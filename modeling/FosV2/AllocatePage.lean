import FosV2.FrameAccounting

/-!
`sys_allocate_page` of `kern/syscall.c`: it takes a frame, then checks its arguments, then
maps the frame. What a failing call leaves behind, and what a successful one guarantees.
-/

namespace FosV2

open IntrusiveList TwoLevelTable

def sysAllocatePage (σ : State) (envPgdir : Nat) (va perm : Word) :
    Except Stop (Word × State) := do
  let (frame, σ) ← allocateFrame σ
  match frame with
  | none => return (eNoMem, σ)
  | some frame =>
      if va ≥ userTop ∨ va % pageSize ≠ 0 then return (eInval, σ)
      else if perm &&& (~~~permAvailable &&& ~~~permWriteable) ≠ permUser then return (eInval, σ)
      else
        let page ← kVirtualAddress σ (toPhysicalAddress frame)
        let σ := σ.clearFrame page
        let (r, σ) ← mapFrame σ envPgdir (some frame) va perm
        if r = eNoMem then return (r, decrementReferences σ frame)
        else return (0, σ)

structure ValidRequest (va perm : Word) : Prop where
  below : va < userTop
  aligned : va % pageSize = 0
  permissions : perm &&& (~~~permAvailable &&& ~~~permWriteable) = permUser

theorem ValidRequest.small {va perm : Word} (valid : ValidRequest va perm) :
    perm.toNat < 4096 := by
  have high := congrArg (fun bits : Word => bits >>> 12) valid.permissions
  have mask : (~~~permAvailable &&& ~~~permWriteable) >>> 12 = BitVec.ofNat 32 (2 ^ 20 - 1) := by
    decide
  have user : permUser >>> 12 = 0 := by decide
  simp only [BitVec.ushiftRight_and_distrib, mask, user] at high
  have field := AlignedWord.toNat_field perm 12 20 (by omega)
  rw [high] at field
  have bound := perm.isLt
  have zero : (0 : Word).toNat = 0 := rfl
  omega

section Memory

variable {pgdir : Nat} {held : Nat → Nat} {free : List Nat} {σ : State} {frame : Nat}

theorem clearFrame_self (σ : State) (frame j : Nat) : (σ.clearFrame frame).memory frame j = 0 :=
  congrFun (Function.update_self frame _ σ.memory) j

theorem clearFrame_other (σ : State) {frame other : Nat} (different : other ≠ frame) :
    (σ.clearFrame frame).memory other = σ.memory other :=
  Function.update_of_ne different _ σ.memory

theorem pageTable_clearFrame (different : frame ≠ pgdir) (i : Nat) :
    pageTable (σ.clearFrame frame) pgdir i = pageTable σ pgdir i := by
  rw [pageTable, clearFrame_other σ different.symm, pageTable]

theorem pageEntry_clearFrame (different : frame ≠ pgdir) {i : Nat}
    (notTable : pageTable σ pgdir i ≠ some frame) (j : Nat) :
    pageEntry (σ.clearFrame frame) pgdir i j = pageEntry σ pgdir i j := by
  apply lookup_congr (pageTable_clearFrame different i)
  intro table named
  have other : table ≠ frame := fun same => notTable (same ▸ named)
  rw [clearFrame_other σ other]

theorem WellFormed.clearFrame (wf : WellFormed pgdir held free σ) (different : frame ≠ pgdir)
    (notTable : ∀ i < userEntries, pageTable σ pgdir i ≠ some frame) :
    WellFormed pgdir held free (σ.clearFrame frame) := by
  have entries {i : Nat} (inside : i < userEntries) (j : Nat) :=
    pageEntry_clearFrame different (notTable i inside) j
  have directory := clearFrame_other σ different.symm
  constructor
  · exact wf.frameBound
  · exact wf.linked
  · exact wf.freeBound
  · exact wf.freeUnreferenced
  · intro other bound
    rw [namings_congr (fun i _ => pageTable_clearFrame different i)
      (fun i inside j _ => entries inside j)]
    exact wf.counted other bound
  · exact wf.directoryBound
  · exact wf.directoryHeld
  · rw [directory]
    exact wf.tables
  · rw [funext (pageTable_clearFrame different)]
    exact wf.distinct
  · intro i inside j below
    rw [entries inside]
    exact wf.pages i inside j below

end Memory

section Cases

variable {pgdir : Nat} {held : Nat → Nat} {free : List Nat} {σ : State} {va perm : Word}

theorem sysAllocatePage_empty (wf : WellFormed pgdir held [] σ) :
    sysAllocatePage σ pgdir va perm = .ok (eNoMem, σ) := by
  simp only [sysAllocatePage, allocateFrame_empty wf, ok_bind]
  rfl

theorem sysAllocatePage_cons {frame : Nat} {rest : List Nat}
    (wf : WellFormed pgdir held (frame :: rest) σ) (va perm : Word) :
    ∃ list, WellFormed pgdir held rest { σ with freeFrameList := list } ∧
      Detached rest { σ with freeFrameList := list } frame ∧
      ((¬ValidRequest va perm ∧
          sysAllocatePage σ pgdir va perm = .ok (eInval, { σ with freeFrameList := list })) ∨
        (ValidRequest va perm ∧ σ.memory pgdir (pdx va) = 0 ∧ rest = [] ∧
          sysAllocatePage σ pgdir va perm = .ok (eNoMem, decrementReferences
            (State.clearFrame { σ with freeFrameList := list } frame) frame)) ∨
        (ValidRequest va perm ∧ ∃ σ' free' table,
          SlotReady pgdir held va frame rest free'
            (State.clearFrame { σ with freeFrameList := list } frame) σ' table ∧
          sysAllocatePage σ pgdir va perm = .ok (0, writeMapping σ' frame table va perm))) := by
  obtain ⟨list, allocated, taken, detached⟩ := allocateFrame_cons wf
  refine ⟨list, taken, detached, ?_⟩
  by_cases address : va ≥ userTop ∨ va % pageSize ≠ 0
  · refine Or.inl ⟨?_, ?_⟩
    · intro valid
      rcases address with above | unaligned
      · exact BitVec.not_le.mpr valid.below above
      · exact unaligned valid.aligned
    · simp only [sysAllocatePage, allocated, ok_bind, address, if_true]
      rfl
  by_cases permissions : perm &&& (~~~permAvailable &&& ~~~permWriteable) ≠ permUser
  · refine Or.inl ⟨fun valid => permissions valid.permissions, ?_⟩
    simp only [sysAllocatePage, allocated, ok_bind, address, permissions, if_true, if_false,
      ne_eq, not_false_eq_true]
    rfl
  have valid : ValidRequest va perm := by
    rw [not_or, ge_iff_le, BitVec.not_le, not_not] at address
    exact ⟨address.1, address.2, not_not.mp permissions⟩
  refine Or.inr ?_
  have inside := pdx_lt_userEntries valid.below
  have different := (detached.unnamed taken).2.2
  have cleared := taken.clearFrame different (fun i inside => detached.not_table taken inside)
  have limit := wf.frameBound
  have bound := wf.freeBound frame (by simp)
  have fits : frame < 1048576 := by omega
  have pointer : kVirtualAddress { σ with freeFrameList := list } (toPhysicalAddress frame) =
      .ok frame := by
    rw [kVirtualAddress_of_lt] <;> rw [ppn_toPhysicalAddress fits]
    exact bound
  rcases mapFrame_cases cleared inside bound perm with
    ⟨absent, empty, result⟩ | ⟨maps, _⟩ | ⟨σ', free', table, ready, result⟩
  · refine Or.inl ⟨valid, ?_, empty, ?_⟩
    · rw [← absent, clearFrame_other _ different.symm]
    · simp only [sysAllocatePage, allocated, ok_bind, address, permissions, if_false, pointer,
        result, if_true]
      rfl
  · rw [pageEntry_clearFrame different (detached.not_table taken inside)] at maps
    have named := namings_pos_of_page inside (ptx_lt va) maps
    have unnamed := (detached.unnamed taken).1
    omega
  · refine Or.inr ⟨valid, σ', free', table, ready, ?_⟩
    have succeeded : ¬(0 : Word) = eNoMem := by decide
    simp only [sysAllocatePage, allocated, ok_bind, address, permissions, if_false, pointer,
      result, succeeded]
    rfl

end Cases

/-! What a failing call leaves behind. -/

structure Unaltered (pgdir : Nat) (σ σ' : State) : Prop where
  freeFrames : ∀ frame,
    σ'.freeFrameList.Reaches .head frame ↔ σ.freeFrameList.Reaches .head frame
  references : ∀ frame < σ.numberOfFrames, σ'.references frame = σ.references frame
  directory : σ'.memory pgdir = σ.memory pgdir
  tables : ∀ i < npdEntries, ∀ table, pageTable σ pgdir i = some table →
    σ'.memory table = σ.memory table

def FailureUnaltered (σ : State) (pgdir : Nat) (va perm : Word) : Prop :=
  ∀ result σ', sysAllocatePage σ pgdir va perm = .ok (result, σ') → result ≠ 0 →
    Unaltered pgdir σ σ'

section Failure

variable {pgdir : Nat} {held : Nat → Nat} {free : List Nat} {σ : State} {va perm : Word}

/-- A rejected request costs the frame that was taken before the checks. -/
theorem altered_of_invalid {frame : Nat} {rest : List Nat}
    (wf : WellFormed pgdir held (frame :: rest) σ) (invalid : ¬ValidRequest va perm) :
    ¬FailureUnaltered σ pgdir va perm := by
  intro unaltered
  obtain ⟨list, taken, detached, cases⟩ := sysAllocatePage_cons wf va perm
  rcases cases with ⟨_, result⟩ | ⟨valid, _⟩ | ⟨valid, _⟩
  · have failed : eInval ≠ 0 := by decide
    have same := (unaltered _ _ result failed).freeFrames frame
    rw [taken.linked.reaches_iff, wf.linked.reaches_iff] at same
    exact detached.offList (same.mpr (by simp))
  · exact invalid valid
  · exact invalid valid

/-- Without a frame for the page table, the frame taken for the page loses a reference it
never had. -/
theorem altered_of_exhausted {frame : Nat} (wf : WellFormed pgdir held [frame] σ)
    (valid : ValidRequest va perm) (absent : σ.memory pgdir (pdx va) = 0) :
    ¬FailureUnaltered σ pgdir va perm := by
  intro unaltered
  obtain ⟨list, taken, detached, cases⟩ := sysAllocatePage_cons wf va perm
  have bound := wf.freeBound frame (by simp)
  have unreferenced := wf.freeUnreferenced frame (by simp)
  rcases cases with ⟨invalid, _⟩ | ⟨_, _, _, result⟩ | ⟨_, σ', free', table, ready, _⟩
  · exact invalid valid
  · have failed : eNoMem ≠ 0 := by decide
    have same := (unaltered _ _ result failed).references frame bound
    rw [decrementReferences_eq] at same
    change Function.update σ.references frame (σ.references frame - 1) frame = _ at same
    rw [Function.update_self, unreferenced] at same
    exact absurd same (by decide)
  · rcases ready.tableOrigin with member | named
    · simp at member
    · have inside := pdx_lt_userEntries valid.below
      have different := (detached.unnamed taken).2.2
      rw [pageTable_clearFrame different] at named
      exact absurd absent (entryTarget_eq_some_iff.mp named).1

/-- When a failing call changes nothing, exactly. -/
theorem failureUnaltered_iff (wf : WellFormed pgdir held free σ) :
    FailureUnaltered σ pgdir va perm ↔
      free = [] ∨ (ValidRequest va perm ∧ (σ.memory pgdir (pdx va) ≠ 0 ∨ 2 ≤ free.length)) := by
  cases free with
  | nil =>
      constructor
      · exact fun _ => Or.inl rfl
      · intro _ result σ' returned _
        rw [sysAllocatePage_empty wf] at returned
        cases returned
        exact ⟨fun _ => Iff.rfl, fun _ _ => rfl, rfl, fun _ _ _ _ => rfl⟩
  | cons frame rest =>
      constructor
      · intro unaltered
        by_cases valid : ValidRequest va perm
        · refine Or.inr ⟨valid, ?_⟩
          by_contra short
          rw [not_or, not_not, not_le] at short
          have last : rest = [] := List.length_eq_zero_iff.mp (by
            have := short.2
            simp only [List.length_cons] at this
            omega)
          subst last
          exact altered_of_exhausted wf valid short.1 unaltered
        · exact absurd unaltered (altered_of_invalid wf valid)
      · rintro (empty | ⟨valid, room⟩)
        · exact absurd empty (by simp)
        intro result σ' returned failed
        obtain ⟨list, taken, detached, cases⟩ := sysAllocatePage_cons wf va perm
        rcases cases with ⟨invalid, _⟩ | ⟨_, absent, last, _⟩ | ⟨_, after, free', table, _, success⟩
        · exact absurd valid invalid
        · rcases room with present | two
          · exact absurd absent present
          · simp [last] at two
        · rw [success] at returned
          cases returned
          exact absurd rfl failed

end Failure

theorem failureUnaltered_smallMachine :
    FailureUnaltered smallMachineBooted 256 0x1000 permUser := by
  have wf := smallMachineBooted_wellFormed
  refine (failureUnaltered_iff wf).mpr (Or.inr ⟨⟨by decide, by decide, by decide⟩, Or.inr ?_⟩)
  simp [freeAfterBoot]

/-- A request for the first address above the user's half takes a frame and keeps it. -/
theorem not_failureUnaltered_userTop :
    (∃ held free, WellFormed 256 held free smallMachineBooted) ∧
      ¬FailureUnaltered smallMachineBooted 256 userTop permUser := by
  have wf := smallMachineBooted_first
  refine ⟨⟨_, _, wf⟩, ?_⟩
  apply altered_of_invalid wf
  intro valid
  exact absurd valid.below (by decide)

end FosV2
