import FosV2.AllocatePageCommand
import FosV2.CachedMap

/-!
The translations that the processor has cached, against the page tables. It may cache any
translation that the current directory gives, at any time; `unmap_frame` drops the one it
takes away, and `map_frame` goes through `unmap_frame` where it replaces one.
-/

namespace FosV2

open CachedMap IntrusiveList Runs TwoLevelTable

def pageSource (σ : State) (pgdir page : Nat) : Option Nat :=
  entryTarget (pageEntry σ pgdir (page / nptEntries) (page % nptEntries))

def BelowUserTop (page : Nat) : Prop := page < userEntries * nptEntries

def TlbCoherent (σ : State) (pgdir : Nat) : Prop :=
  Coherent BelowUserTop σ.tlb (pageSource σ pgdir)

/-- The processor walks the tables for `va` and keeps the result. -/
def cacheTranslation (σ : State) (pgdir : Nat) (va : Word) : State :=
  { σ with tlb := (ppn va, entryFrame (entryAt σ pgdir va)) :: σ.tlb }

inductive TlbEvent where
  | fill (va : Word)
  | call (operation : FrameOperation)

/-- The callers keep their promises: pages lie below `USER_TOP`, a frame that is mapped is not
free, and one that is freed has no references. -/
def CallKept (σ : State) : FrameOperation → Prop
  | .allocateFrame => True
  | .freeFrame frame => frame < σ.numberOfFrames ∧ ¬σ.freeFrameList.Reaches .head frame ∧
      σ.references frame = 0
  | .mapFrame frame va perm => va < userTop ∧ perm.toNat < 4096 ∧ frame < σ.numberOfFrames ∧
      ¬σ.freeFrameList.Reaches .head frame
  | .unmapFrame va => va < userTop

def CountInReach (pgdir : Nat) (σ : State) : FrameOperation → Prop
  | .mapFrame frame va _ =>
      (σ.references frame).toNat < 65535 ∨ pageSource σ pgdir (ppn va) = some frame
  | _ => True

def TlbStep (pgdir : Nat) (σ : State) : TlbEvent → State → Prop
  | .fill va, σ' => Mapped σ pgdir va ∧ σ' = cacheTranslation σ pgdir va
  | .call operation, σ' => CallKept σ operation ∧ CountInReach pgdir σ operation ∧
      operation.perform pgdir σ = .ok σ'

/-! Pages by their number and by their two indices. -/

theorem pageSource_ppn (σ : State) (pgdir : Nat) (va : Word) :
    pageSource σ pgdir (ppn va) = entryTarget (pageEntry σ pgdir (pdx va) (ptx va)) := by
  rw [pageSource, ppn_div, ppn_mod]

theorem belowUserTop_ppn {va : Word} (below : va < userTop) : BelowUserTop (ppn va) := by
  have inside := pdx_lt_userEntries below
  have slot := ptx_lt va
  have split := ppn_eq_pdx_ptx va
  unfold BelowUserTop
  rw [userEntries_eq, nptEntries_eq] at *
  omega

theorem inside_of_belowUserTop {page : Nat} (below : BelowUserTop page) :
    page / nptEntries < userEntries := by
  unfold BelowUserTop at below
  rw [userEntries_eq, nptEntries_eq] at *
  omega

theorem slot_of_other_page {va : Word} {page : Nat} (other : page ≠ ppn va) :
    ¬(page / nptEntries = pdx va ∧ page % nptEntries = ptx va) := by
  have split := ppn_eq_pdx_ptx va
  rw [nptEntries_eq] at *
  omega

section Steps

variable {pgdir : Nat} {held : Nat → Nat} {free free' : List Nat} {σ σ' : State} {va perm : Word}

theorem TlbCoherent.congr (coherent : TlbCoherent σ pgdir) (memory : σ'.memory = σ.memory)
    (tlb : σ'.tlb = σ.tlb) : TlbCoherent σ' pgdir := by
  have tables : pageTable σ' pgdir = pageTable σ pgdir := by
    funext i
    rw [pageTable, memory, pageTable]
  have source : pageSource σ' pgdir = pageSource σ pgdir := by
    funext page
    simp only [pageSource, pageEntry, tables, memory]
  rw [TlbCoherent, tlb, source]
  exact coherent

structure Refreshed (pgdir : Nat) (va : Word) (σ σ' : State) : Prop where
  otherPages : ∀ i < userEntries, ∀ j, ¬(i = pdx va ∧ j = ptx va) →
    pageEntry σ' pgdir i j = pageEntry σ pgdir i j
  fewer : ∀ pair ∈ σ'.tlb, pair ∈ σ.tlb
  handled : pageEntry σ' pgdir (pdx va) (ptx va) = pageEntry σ pgdir (pdx va) (ptx va) ∨
    pageEntry σ pgdir (pdx va) (ptx va) = 0 ∨ ∀ pair ∈ σ'.tlb, pair.1 ≠ ppn va

theorem Refreshed.rfl : Refreshed pgdir va σ σ :=
  ⟨fun _ _ _ _ => Eq.refl _, fun _ cached => cached, Or.inl (Eq.refl _)⟩

theorem Refreshed.coherent (refreshed : Refreshed pgdir va σ σ') (coherent : TlbCoherent σ pgdir) :
    TlbCoherent σ' pgdir := by
  refine Coherent.change coherent (ppn va) refreshed.fewer ?_ ?_
  · intro page below other
    rw [pageSource, pageSource, refreshed.otherPages _ (inside_of_belowUserTop below) _
      (slot_of_other_page other)]
  · rw [pageSource_ppn, pageSource_ppn]
    rcases refreshed.handled with same | vacant | dropped
    · exact Or.inl (congrArg entryTarget same)
    · rw [vacant]
      exact Or.inr (Or.inl entryTarget_zero)
    · exact Or.inr (Or.inr dropped)

theorem tlb_dropMapping (σ : State) (pgdir table frame : Nat) (va : Word) :
    (dropMapping σ pgdir table frame va).tlb = σ.tlb.filter fun cached => cached.1 ≠ ppn va := by
  rw [dropMapping_eq]

theorem refreshed_dropMapping (wf : WellFormed pgdir held free σ) (inside : pdx va < userEntries)
    {table : Nat} (named : pageTable σ pgdir (pdx va) = some table) (frame : Nat) :
    Refreshed pgdir va σ (dropMapping σ pgdir table frame va) := by
  have written := memory_dropMapping σ pgdir table frame va
  constructor
  · intro i inside' j elsewhere
    rw [pageEntry_of_page_write wf inside named written inside', if_neg elsewhere]
  · intro pair cached
    rw [tlb_dropMapping] at cached
    exact (List.mem_filter.mp cached).1
  · refine Or.inr (Or.inr fun pair cached => ?_)
    rw [tlb_dropMapping] at cached
    exact of_decide_eq_true (List.mem_filter.mp cached).2

/-- A mapping is written into a slot from which nothing is cached. -/
theorem Refreshed.writeMapping {σ₁ : State} {table frame : Nat}
    (refreshed : Refreshed pgdir va σ σ₁) (wf : WellFormed pgdir held free σ₁)
    (inside : pdx va < userEntries) (named : pageTable σ₁ pgdir (pdx va) = some table)
    (handled : pageEntry σ pgdir (pdx va) (ptx va) = 0 ∨ ∀ pair ∈ σ₁.tlb, pair.1 ≠ ppn va) :
    Refreshed pgdir va σ (writeMapping σ₁ frame table va perm) where
  otherPages i inside' j elsewhere := by
    rw [pageEntry_of_page_write wf inside named (memory_writeMapping σ₁ frame table va perm)
      inside', if_neg elsewhere, refreshed.otherPages i inside' j elsewhere]
  fewer := refreshed.fewer
  handled := Or.inr handled

theorem TableReady.refreshed {table : Nat} (ready : TableReady pgdir held va free free' σ σ' table)
    (inside : pdx va < userEntries) : Refreshed pgdir va σ σ' where
  otherPages i inside' j _ := ready.samePages i inside' j
  fewer pair cached := by
    rcases ready.origin with ⟨same, _⟩ | ⟨_, _, list, made⟩
    · rwa [same] at cached
    · rwa [made] at cached
  handled := Or.inl (ready.samePages _ inside _)

theorem mapFrame_refreshed (wf : WellFormed pgdir held free σ) (inside : pdx va < userEntries)
    {frame : Nat} (bound : frame < σ.numberOfFrames) (perm : Word) :
    ∃ r σ', mapFrame σ pgdir (some frame) va perm = .ok (r, σ') ∧ Refreshed pgdir va σ σ' := by
  cases maps : entryTarget (pageEntry σ pgdir (pdx va) (ptx va)) with
  | none =>
      have vacant := entryTarget_eq_none_iff.mp maps
      rcases getPageTable_create wf inside with
        ⟨absent, empty, _⟩ | ⟨σ₁, free', table, result, ready⟩
      · subst empty
        exact ⟨_, σ, mapFrame_exhausted wf inside absent _ perm, Refreshed.rfl⟩
      · refine ⟨_, _, mapFrame_vacant inside result ready vacant frame perm, ?_⟩
        exact (ready.refreshed inside).writeMapping ready.wf inside ready.named (Or.inl vacant)
  | some other =>
      by_cases same : other = frame
      · subst same
        exact ⟨_, σ, mapFrame_same wf inside maps perm, Refreshed.rfl⟩
      · obtain ⟨table, named, _⟩ := table_of_page maps
        have ready := slotReady_dropMapping wf inside named maps same
        refine ⟨_, _, mapFrame_replace wf inside named maps same bound perm, ?_⟩
        refine (refreshed_dropMapping wf inside named other).writeMapping ready.wf inside
          ready.named (Or.inr ?_)
        intro pair cached
        rw [tlb_dropMapping] at cached
        exact of_decide_eq_true (List.mem_filter.mp cached).2

theorem unmapFrame_refreshed (wf : WellFormed pgdir held free σ) (inside : pdx va < userEntries) :
    ∃ σ', unmapFrame σ pgdir va = .ok σ' ∧ Refreshed pgdir va σ σ' := by
  cases maps : entryTarget (pageEntry σ pgdir (pdx va) (ptx va)) with
  | none =>
      exact ⟨σ, unmapFrame_unmapped wf inside (entryTarget_eq_none_iff.mp maps), Refreshed.rfl⟩
  | some frame =>
      obtain ⟨table, named, _⟩ := table_of_page maps
      exact ⟨_, unmapFrame_mapped wf inside named maps, refreshed_dropMapping wf inside named frame⟩

end Steps

/-! One step, then all of them. -/

structure TlbInvariant (pgdir : Nat) (held : Nat → Nat) (σ : State) : Prop where
  wf : ∃ free, WellFormed pgdir held free σ
  coherent : TlbCoherent σ pgdir

section Runs

variable {pgdir : Nat} {held : Nat → Nat} {σ σ' : State}

theorem TlbInvariant.fill (invariant : TlbInvariant pgdir held σ) {va : Word}
    (mapped : Mapped σ pgdir va) : TlbInvariant pgdir held (cacheTranslation σ pgdir va) := by
  obtain ⟨⟨free, wf⟩, coherent⟩ := invariant
  refine ⟨⟨free, wf.frameBound, wf.linked, wf.freeBound, wf.freeUnreferenced, wf.counted,
    wf.directoryBound, wf.directoryHeld, wf.tables, wf.distinct, wf.pages⟩, ?_⟩
  refine Coherent.fill coherent fun below => ?_
  have inside := inside_of_belowUserTop below
  rw [pageSource_ppn]
  have named : pageTable σ pgdir (pdx va) = some (entryFrame (σ.memory pgdir (pdx va))) :=
    entryTarget_of_ne (ne_zero_of_present mapped.table)
  refine entryTarget_of_ne ?_
  rw [pageEntry_of_table named]
  exact ne_zero_of_present mapped.page

theorem TlbInvariant.call (invariant : TlbInvariant pgdir held σ) {operation : FrameOperation}
    (kept : CallKept σ operation) (inReach : CountInReach pgdir σ operation)
    (performed : operation.perform pgdir σ = .ok σ') : TlbInvariant pgdir held σ' := by
  obtain ⟨⟨free, wf⟩, coherent⟩ := invariant
  cases operation with
  | allocateFrame =>
      cases free with
      | nil =>
          simp only [FrameOperation.perform, allocateFrame_empty wf, ok_bind] at performed
          cases performed
          exact ⟨⟨[], wf⟩, coherent⟩
      | cons frame rest =>
          obtain ⟨list, allocated, taken, _⟩ := allocateFrame_cons wf
          simp only [FrameOperation.perform, allocated, ok_bind] at performed
          cases performed
          exact ⟨⟨rest, taken⟩, coherent.congr rfl rfl⟩
  | freeFrame frame =>
      obtain ⟨bound, offList, unreferenced⟩ := kept
      rw [wf.linked.reaches_iff] at offList
      cases performed
      exact ⟨⟨_, wf.freeFrame ⟨bound, offList, unreferenced⟩⟩, coherent.congr rfl rfl⟩
  | mapFrame frame va perm =>
      obtain ⟨below, small, bound, offList⟩ := kept
      rw [wf.linked.reaches_iff] at offList
      have inside := pdx_lt_userEntries below
      obtain ⟨r, after, result, refreshed⟩ := mapFrame_refreshed wf inside bound perm
      simp only [FrameOperation.perform, result, ok_bind] at performed
      cases performed
      refine ⟨?_, refreshed.coherent coherent⟩
      rcases inReach with few | maps
      · obtain ⟨_, _, result', _, preserved⟩ := mapFrame_accounted wf inside small bound offList
        rw [result] at result'
        cases result'
        exact preserved (Or.inl few)
      · rw [pageSource_ppn] at maps
        rw [mapFrame_same wf inside maps] at result
        cases result
        exact ⟨free, wf⟩
  | unmapFrame va =>
      have inside := pdx_lt_userEntries kept
      obtain ⟨after, result, refreshed⟩ := unmapFrame_refreshed wf inside
      obtain ⟨_, free', result', wf', _⟩ := unmapFrame_accounted wf inside
      rw [result] at result'
      cases result'
      simp only [FrameOperation.perform, result] at performed
      cases performed
      exact ⟨⟨free', wf'⟩, refreshed.coherent coherent⟩

theorem TlbInvariant.step (invariant : TlbInvariant pgdir held σ) {event : TlbEvent}
    (step : TlbStep pgdir σ event σ') : TlbInvariant pgdir held σ' := by
  cases event with
  | fill va =>
      obtain ⟨mapped, rfl⟩ := step
      exact invariant.fill mapped
  | call operation =>
      obtain ⟨kept, inReach, performed⟩ := step
      exact invariant.call kept inReach performed

end Runs

/-- Whatever is cached for a page below `USER_TOP` is what its entry maps it to, and no free
frame is among it. -/
theorem tlb_coherent {pgdir : Nat} {held : Nat → Nat} {free : List Nat} {start σ : State}
    (wf : WellFormed pgdir held free start) (coherent : TlbCoherent start pgdir)
    (reached : Reachable (TlbStep pgdir) start σ) :
    ∀ va < userTop, ∀ frame, (ppn va, frame) ∈ σ.tlb →
      Mapped σ pgdir va ∧ entryFrame (entryAt σ pgdir va) = frame ∧
        ¬σ.freeFrameList.Reaches .head frame := by
  have start : TlbInvariant pgdir held start := ⟨⟨free, wf⟩, coherent⟩
  obtain ⟨⟨free', wf'⟩, coherent'⟩ := reached.preserves
    (fun _ _ _ invariant step => TlbInvariant.step invariant step) start
  intro va below frame cached
  have inside := pdx_lt_userEntries below
  have target := coherent' (ppn va) frame (belowUserTop_ppn below) cached
  rw [pageSource_ppn] at target
  obtain ⟨nonzero, named⟩ := entryTarget_eq_some_iff.mp target
  refine ⟨(wf'.mapped_iff inside).mpr nonzero, named, ?_⟩
  rw [wf'.linked.reaches_iff]
  exact (wf'.page_facts inside (ptx_lt va) target).2.2.2

/-- The frame that the first page gets is cached, after the calls that map it. -/
theorem tlb_coherent_smallMachine :
    ∃ σ, Reachable (TlbStep 256) smallMachineBooted σ ∧ (ppn 0x1000, 299) ∈ σ.tlb ∧
      Mapped σ 256 0x1000 ∧ entryFrame (entryAt σ 256 0x1000) = 299 ∧
        ¬σ.freeFrameList.Reaches .head 299 := by
  have user : (0x1000 : Word) < userTop := by decide
  have inside := pdx_lt_userEntries user
  have booted := smallMachineBooted_wellFormed
  have wf := booted
  rw [freeAfterBoot_succ (by omega)] at wf
  obtain ⟨list, allocated, taken, detached⟩ := allocateFrame_cons wf
  have allocates : TlbStep 256 smallMachineBooted (.call .allocateFrame)
      { smallMachineBooted with freeFrameList := list } := by
    refine ⟨trivial, trivial, ?_⟩
    simp only [FrameOperation.perform, allocated, ok_bind]
    rfl
  rcases mapFrame_cases taken inside detached.bound (permUser ||| permWriteable) with
    ⟨_, empty, _⟩ | ⟨maps, _⟩ | ⟨σ₁, free', table, ready, result⟩
  · simp [freeAfterBoot] at empty
  · have unnamed := (detached.unnamed taken).1
    have named := namings_pos_of_page inside (ptx_lt _) maps
    omega
  have mapped := mapsFresh_of_ready wf inside detached ready
  generalize writeMapping σ₁ 299 table 0x1000 (permUser ||| permWriteable) = σ₂ at mapped result
  have frame : entryFrame (entryAt σ₂ 256 0x1000) = 299 := by
    rw [mapped.entry]
    exact entryFrame_constructEntry (by omega) (by decide)
  have maps : TlbStep 256 { smallMachineBooted with freeFrameList := list }
      (.call (.mapFrame 299 0x1000 (permUser ||| permWriteable))) σ₂ := by
    refine ⟨⟨user, by decide, detached.bound, ?_⟩, Or.inl ?_, ?_⟩
    · rw [taken.linked.reaches_iff]
      exact detached.offList
    · rw [detached.unreferenced]
      decide
    · simp only [FrameOperation.perform, result, ok_bind]
      rfl
  have caches : TlbStep 256 σ₂ (.fill 0x1000) (cacheTranslation σ₂ 256 0x1000) :=
    ⟨mapped.mapped, rfl⟩
  have reached : Reachable (TlbStep 256) smallMachineBooted (cacheTranslation σ₂ 256 0x1000) :=
    ⟨_, .cons allocates (.cons maps (.cons caches (.nil _)))⟩
  have cached : (ppn 0x1000, 299) ∈ (cacheTranslation σ₂ 256 0x1000).tlb := by
    rw [← frame]
    exact List.mem_cons_self
  have start : TlbCoherent smallMachineBooted 256 := by
    have flushed : smallMachineBooted.tlb = [] :=
      (partitionFrames_sameMachine 257 300 smallMachine).tlb
    rw [TlbCoherent, flushed]
    exact Coherent.empty _ _
  exact ⟨_, reached, cached, tlb_coherent booted start reached _ user _ cached⟩

/-! Above `KERNEL_BASE` the kernel maps all frames, also the free ones. -/

def kernelWindowMachine : State :=
  { smallMachine with
    memory := fun frame j =>
      if frame = 256 ∧ j = pdx kernelBase then bootTableEntry 255
      else if frame = 255 then
        constructEntry (toPhysicalAddress j) (permWriteable ||| permPresent)
      else 0 }

def kernelWindowBooted : State := partitionFrames 257 300 kernelWindowMachine

theorem kernelWindowBooted_left : LeftByInitializePaging 256 257 kernelWindowBooted := by
  have same := partitionFrames_sameMachine 257 300 kernelWindowMachine
  have frames : kernelWindowBooted.numberOfFrames = 300 := same.numberOfFrames
  have first : firstFreeFrame kernelWindowMachine = 257 := firstFreeFrame_smallMachine
  refine ⟨⟨kernelWindowMachine, first, ?_⟩, ?_, ?_, ?_, ?_, ?_, ?_⟩
  · rw [initializePaging_eq (by decide), first]
    rfl
  · omega
  · omega
  · omega
  · omega
  · rw [mem_freeAfterBoot, frames]
    omega
  · intro i inside
    have window : pdx kernelBase = 960 := by decide
    rw [userEntries_eq] at inside
    change (partitionFrames 257 300 kernelWindowMachine).memory 256 i = 0
    rw [same.memory]
    exact (if_neg (by omega)).trans (if_neg (by omega))

/-- The processor may cache where the kernel reaches frame 1, which is free. -/
theorem not_tlb_clear_kernelWindow :
    WellFormed 256 (heldSinceBoot 257 300) (freeAfterBoot 257 300) kernelWindowBooted ∧
      TlbCoherent kernelWindowBooted 256 ∧
      ∃ σ, Reachable (TlbStep 256) kernelWindowBooted σ ∧
        ∃ page frame, (page, frame) ∈ σ.tlb ∧ σ.freeFrameList.Reaches .head frame := by
  have same := partitionFrames_sameMachine 257 300 kernelWindowMachine
  have frames : kernelWindowBooted.numberOfFrames = 300 := same.numberOfFrames
  have flushed : kernelWindowBooted.tlb = [] := same.tlb
  have memory : kernelWindowBooted.memory = kernelWindowMachine.memory := same.memory
  have wf := kernelWindowBooted_left.wellFormed
  rw [frames] at wf
  have window : pdx (kernelBase + pageSize) = pdx kernelBase := by decide
  have slot : ptx (kernelBase + pageSize) = 1 := by decide
  have directory : kernelWindowBooted.memory 256 (pdx (kernelBase + pageSize)) =
      bootTableEntry 255 := by
    rw [window, memory]
    simp only [kernelWindowMachine, and_self, if_true]
  have target : entryFrame (bootTableEntry 255) = 255 :=
    entryFrame_bootTableEntry (by omega)
  have page : kernelWindowBooted.memory 255 (ptx (kernelBase + pageSize)) =
      constructEntry (toPhysicalAddress 1) (permWriteable ||| permPresent) := by
    rw [slot, memory]
    simp [kernelWindowMachine]
  have mapped : Mapped kernelWindowBooted 256 (kernelBase + pageSize) := by
    constructor
    · rw [directory]
      exact present_bootTableEntry 255
    · rw [directory, target, page]
      exact present_constructEntry _ _
  have entry : entryAt kernelWindowBooted 256 (kernelBase + pageSize) =
      constructEntry (toPhysicalAddress 1) (permWriteable ||| permPresent) := by
    rw [← page]
    refine pageEntry_of_table ?_ _
    rw [pageTable, directory, ← target]
    exact entryTarget_of_ne (bootTableEntry_ne_zero 255)
  have caches : TlbStep 256 kernelWindowBooted (.fill (kernelBase + pageSize))
      (cacheTranslation kernelWindowBooted 256 (kernelBase + pageSize)) := ⟨mapped, rfl⟩
  refine ⟨wf, ?_, _, ⟨_, .cons caches (.nil _)⟩, ppn (kernelBase + pageSize), 1, ?_, ?_⟩
  · rw [TlbCoherent, flushed]
    exact Coherent.empty _ _
  · rw [cacheTranslation, entry, entryFrame_constructEntry (by omega) (by decide)]
    exact List.mem_cons_self
  · change kernelWindowBooted.freeFrameList.Reaches .head 1
    rw [wf.linked.reaches_iff, mem_freeAfterBoot]
    omega

end FosV2
