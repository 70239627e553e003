import FosV2.AllocatePage

/-!
What user programs rely on: along every run of `sys_allocate_page` and `unmap_frame` on one
directory, a page that is handed out is zeroed, is mapped nowhere else, and none of the
writes on the way lands in another page.
-/

namespace FosV2

open IntrusiveList TwoLevelTable Runs

inductive PageCall where
  | allocatePage (va perm : Word)
  | unmapFrame (va : Word)
  deriving DecidableEq, Repr

def PageStep (pgdir : Nat) (σ : State) : PageCall → State → Prop
  | .allocatePage va perm, σ' => ∃ result, sysAllocatePage σ pgdir va perm = .ok (result, σ')
  | .unmapFrame va, σ' => va < userTop ∧ unmapFrame σ pgdir va = .ok σ'

structure Exclusive (pgdir : Nat) (held : Nat → Nat) (σ : State) : Prop where
  once : ∀ frame, namings σ pgdir frame ≤ 1
  unheld : ∀ frame, 0 < namings σ pgdir frame → held frame = 0

def Isolated (pgdir : Nat) (σ : State) : Prop :=
  ∃ held free, WellFormed pgdir held free σ ∧ Exclusive pgdir held σ

theorem Isolated.ofBoot {pgdir first : Nat} {σ : State}
    (boot : LeftByInitializePaging pgdir first σ) : Isolated pgdir σ := by
  refine ⟨_, _, boot.wellFormed, ?_, ?_⟩
  · intro frame
    rw [namings_of_empty boot.userHalf]
    exact Nat.zero_le 1
  · intro frame named
    rw [namings_of_empty boot.userHalf] at named
    exact absurd named (Nat.lt_irrefl 0)

section Steps

variable {pgdir : Nat} {held : Nat → Nat} {free : List Nat} {σ : State} {va perm : Word}

theorem namings_clearFrame {frame : Nat} (wf : WellFormed pgdir held free σ)
    (detached : Detached free σ frame) (other : Nat) :
    namings (σ.clearFrame frame) pgdir other = namings σ pgdir other := by
  have different := (detached.unnamed wf).2.2
  apply namings_congr
  · exact fun i _ => pageTable_clearFrame different i
  · exact fun i inside j _ => pageEntry_clearFrame different (detached.not_table wf inside) j

theorem Exclusive.mono {σ' : State} (exclusive : Exclusive pgdir held σ)
    (fewer : ∀ frame, namings σ' pgdir frame ≤ namings σ pgdir frame) :
    Exclusive pgdir held σ' := by
  constructor
  · exact fun frame => (fewer frame).trans (exclusive.once frame)
  · exact fun frame named => exclusive.unheld frame (named.trans_le (fewer frame))

theorem Exclusive.slotReady {frame table : Nat} {free' : List Nat} {σ' : State}
    (wf : WellFormed pgdir held free σ) (exclusive : Exclusive pgdir held σ)
    (ready : SlotReady pgdir held va frame free free' σ σ' table) :
    Exclusive pgdir held σ' := by
  constructor
  · intro other
    have more := ready.namings other
    by_cases member : other ∈ free
    · have unnamed := (wf.free_unnamed member).1
      rw [if_pos member] at more
      omega
    · rw [if_neg member] at more
      exact more.trans (exclusive.once other)
  · intro other named
    have more := ready.namings other
    by_cases member : other ∈ free
    · exact (wf.free_unnamed member).2
    · rw [if_neg member] at more
      exact exclusive.unheld other (by omega)

theorem Exclusive.writeMapping {frame table : Nat} (wf : WellFormed pgdir held free σ)
    (exclusive : Exclusive pgdir held σ) (detached : Detached free σ frame)
    (inside : pdx va < userEntries) (named : pageTable σ pgdir (pdx va) = some table)
    (vacant : pageEntry σ pgdir (pdx va) (ptx va) = 0) (small : perm.toNat < 4096) :
    Exclusive pgdir held (writeMapping σ frame table va perm) := by
  have limit := wf.frameBound
  have bound := detached.bound
  have fits : frame < 1048576 := by omega
  have unnamed := detached.unnamed wf
  have moved (other : Nat) := namings_of_page_write wf inside (ptx_lt va) named
    (memory_writeMapping σ frame table va perm) other
  simp only [vacant, entryTarget_zero, entryTarget_constructEntry fits small, reduceCtorEq,
    if_false, Option.some.injEq] at moved
  constructor
  · intro other
    have count := moved other
    have before := exclusive.once other
    by_cases same : frame = other
    · subst same
      rw [if_pos rfl] at count
      omega
    · rw [if_neg same] at count
      omega
  · intro other positive
    have count := moved other
    by_cases same : frame = other
    · exact same ▸ unnamed.2.1
    · rw [if_neg same] at count
      exact exclusive.unheld other (by omega)

theorem SlotReady.detached {frame table : Nat} {free' : List Nat} {σ' : State}
    (ready : SlotReady pgdir held va frame free free' σ σ' table)
    (detached : Detached free σ frame) : Detached free' σ' frame where
  bound := by
    rw [ready.sameFrames]
    exact detached.bound
  offList := ready.offList detached.offList
  unreferenced := by
    rw [ready.references detached.offList]
    exact detached.unreferenced

theorem Detached.clearFrame {frame : Nat} (detached : Detached free σ frame) :
    Detached free (σ.clearFrame frame) frame :=
  ⟨detached.bound, detached.offList, detached.unreferenced⟩

theorem WellFormed.writeDetached {frame table : Nat} (wf : WellFormed pgdir held free σ)
    (detached : Detached free σ frame) (inside : pdx va < userEntries)
    (named : pageTable σ pgdir (pdx va) = some table)
    (vacant : pageEntry σ pgdir (pdx va) (ptx va) = 0) (small : perm.toNat < 4096) :
    WellFormed pgdir held free (FosV2.writeMapping σ frame table va perm) := by
  have room : (σ.references frame).toNat < 65535 := by
    rw [detached.unreferenced]
    decide
  exact wf.writeMapping inside named vacant detached.bound detached.offList small room

/-- A frame that loses a reference it does not have is lost, but nothing else is. -/
theorem isolated_decrementReferences {frame : Nat} (wf : WellFormed pgdir held free σ)
    (exclusive : Exclusive pgdir held σ) (detached : Detached free σ frame) :
    Isolated pgdir (decrementReferences σ frame) := by
  have unnamed := detached.unnamed wf
  have counter : σ.references frame - 1 = 65535 := by
    rw [detached.unreferenced]
    rfl
  have list : decrementReferences σ frame = σ.setReferences frame 65535 := by
    rw [decrementReferences_eq, counter, detached.unreferenced, if_neg (by decide)]
    rfl
  rw [list]
  refine ⟨Function.update held frame 65535, free, ?_, ?_, ?_⟩
  · constructor
    · exact wf.frameBound
    · exact wf.linked
    · exact wf.freeBound
    · intro other member
      have different : other ≠ frame := fun same => detached.offList (same ▸ member)
      exact (Function.update_of_ne different _ _).trans (wf.freeUnreferenced other member)
    · intro other bound
      have counted := wf.counted other bound
      change (Function.update σ.references frame 65535 other).toNat = namings σ pgdir other + _
      by_cases same : other = frame
      · subst same
        rw [Function.update_self, Function.update_self, unnamed.1]
        rfl
      · rw [Function.update_of_ne same, Function.update_of_ne same, counted]
    · exact wf.directoryBound
    · rw [Function.update_of_ne unnamed.2.2.symm]
      exact wf.directoryHeld
    · exact wf.tables
    · exact wf.distinct
    · exact wf.pages
  · exact exclusive.once
  · intro other named
    have different : other ≠ frame := by
      rintro rfl
      change 0 < namings σ pgdir other at named
      omega
    rw [Function.update_of_ne different]
    exact exclusive.unheld other named

theorem Isolated.success {frame table : Nat} {free' : List Nat} {σ' : State}
    (wf : WellFormed pgdir held free σ) (exclusive : Exclusive pgdir held σ)
    (detached : Detached free σ frame) (valid : ValidRequest va perm)
    (ready : SlotReady pgdir held va frame free free' σ σ' table) :
    Isolated pgdir (writeMapping σ' frame table va perm) := by
  have inside := pdx_lt_userEntries valid.below
  have detached' := ready.detached detached
  have exclusive' := Exclusive.slotReady wf exclusive ready
  refine ⟨held, free', ?_, ?_⟩
  · exact ready.wf.writeDetached detached' inside ready.named ready.vacant valid.small
  · exact Exclusive.writeMapping ready.wf exclusive' detached' inside ready.named ready.vacant
      valid.small

theorem Isolated.step {σ' : State} {call : PageCall} (isolated : Isolated pgdir σ)
    (step : PageStep pgdir σ call σ') : Isolated pgdir σ' := by
  obtain ⟨held, free, wf, exclusive⟩ := isolated
  cases call with
  | unmapFrame va =>
      obtain ⟨below, unmapped⟩ := step
      have inside := pdx_lt_userEntries below
      cases maps : entryTarget (pageEntry σ pgdir (pdx va) (ptx va)) with
      | none =>
          rw [unmapFrame_unmapped wf inside (entryTarget_eq_none_iff.mp maps)] at unmapped
          cases unmapped
          exact ⟨held, free, wf, exclusive⟩
      | some frame =>
          obtain ⟨table, named, _⟩ := table_of_page maps
          rw [unmapFrame_mapped wf inside named maps] at unmapped
          cases unmapped
          refine ⟨held, _, wf.dropMapping inside named maps, exclusive.mono fun other => ?_⟩
          have moved := namings_of_page_write wf inside (ptx_lt va) named
            (memory_dropMapping σ pgdir table frame va) other
          simp only [entryTarget_zero, reduceCtorEq, if_false] at moved
          omega
  | allocatePage va perm =>
      obtain ⟨result, returned⟩ := step
      cases free with
      | nil =>
          rw [sysAllocatePage_empty wf] at returned
          cases returned
          exact ⟨held, [], wf, exclusive⟩
      | cons frame rest =>
          obtain ⟨list, taken, detached, cases⟩ := sysAllocatePage_cons wf va perm
          have different := (detached.unnamed taken).2.2
          have cleared := taken.clearFrame different fun i inside => detached.not_table taken inside
          have clearedExclusive : Exclusive pgdir held
              (State.clearFrame { σ with freeFrameList := list } frame) := by
            apply exclusive.mono
            intro other
            rw [namings_clearFrame taken detached]
            exact Nat.le_refl _
          rcases cases with ⟨_, failed⟩ | ⟨_, _, _, failed⟩ | ⟨valid, after, _, table, ready, success⟩
          · rw [failed] at returned
            cases returned
            exact ⟨held, rest, taken, exclusive.once, exclusive.unheld⟩
          · rw [failed] at returned
            cases returned
            exact isolated_decrementReferences cleared clearedExclusive detached.clearFrame
          · rw [success] at returned
            cases returned
            exact Isolated.success cleared clearedExclusive detached.clearFrame valid ready

end Steps

structure PageAllocated (pgdir : Nat) (va perm : Word) (σ σ' : State) : Prop where
  aligned : va % pageSize = 0
  below : va < userTop
  page : ∃ frame, σ.freeFrameList.Reaches .head frame ∧
    pageEntry σ' pgdir (pdx va) (ptx va) =
      constructEntry (toPhysicalAddress frame) (perm ||| permPresent) ∧
    σ'.references frame = 1 ∧ ∀ j < nptEntries, σ'.memory frame j = 0
  replaced : ∀ frame, entryTarget (pageEntry σ pgdir (pdx va) (ptx va)) = some frame →
    σ'.freeFrameList.Reaches .head frame
  otherPages : ∀ i < userEntries, ∀ j < nptEntries, ¬(i = pdx va ∧ j = ptx va) →
    pageEntry σ' pgdir i j = pageEntry σ pgdir i j
  otherBytes : ∀ i < userEntries, ∀ j < nptEntries, ¬(i = pdx va ∧ j = ptx va) →
    ∀ frame, entryTarget (pageEntry σ pgdir i j) = some frame → σ'.memory frame = σ.memory frame
  exclusive : ∀ i < userEntries, ∀ j < nptEntries, ∀ i' < userEntries, ∀ j' < nptEntries,
    ∀ frame, entryTarget (pageEntry σ' pgdir i j) = some frame →
      entryTarget (pageEntry σ' pgdir i' j') = some frame → i = i' ∧ j = j'

section Guarantee

variable {pgdir : Nat} {held : Nat → Nat} {free : List Nat} {σ : State} {va perm : Word}

theorem Exclusive.table_ne_page (exclusive : Exclusive pgdir held σ) {i i' j table frame : Nat}
    (inside : i < userEntries) (named : pageTable σ pgdir i = some table)
    (inside' : i' < userEntries) (below : j < nptEntries)
    (maps : entryTarget (pageEntry σ pgdir i' j) = some frame) : table ≠ frame := by
  rintro rfl
  have single := exclusive.once table
  have directory : 0 < directoryNamings σ pgdir table :=
    Occurrences.occurrences_pos (Finset.mem_range.mpr inside) named
  have member : (i', j) ∈ Finset.range userEntries ×ˢ Finset.range nptEntries :=
    Finset.mem_product.mpr ⟨Finset.mem_range.mpr inside', Finset.mem_range.mpr below⟩
  have page : 0 < tableNamings σ pgdir table := Occurrences.occurrences_pos member maps
  rw [namings] at single
  omega

theorem Exclusive.page_unique (exclusive : Exclusive pgdir held σ) {i j i' j' frame : Nat}
    (inside : i < userEntries) (below : j < nptEntries) (inside' : i' < userEntries)
    (below' : j' < nptEntries) (maps : entryTarget (pageEntry σ pgdir i j) = some frame)
    (maps' : entryTarget (pageEntry σ pgdir i' j') = some frame) : i = i' ∧ j = j' := by
  have single : tableNamings σ pgdir frame ≤ 1 := by
    have all := exclusive.once frame
    rw [namings] at all
    omega
  have member (slot : Nat × Nat) (first : slot.1 < userEntries) (second : slot.2 < nptEntries) :
      slot ∈ Finset.range userEntries ×ˢ Finset.range nptEntries :=
    Finset.mem_product.mpr ⟨Finset.mem_range.mpr first, Finset.mem_range.mpr second⟩
  have same : (i, j) = (i', j') := Occurrences.eq_of_occurrences_le_one single
    (member (i, j) inside below) (member (i', j') inside' below') maps maps'
  exact ⟨congrArg Prod.fst same, congrArg Prod.snd same⟩

theorem Exclusive.references_of_page (exclusive : Exclusive pgdir held σ)
    (wf : WellFormed pgdir held free σ) {i j frame : Nat} (inside : i < userEntries)
    (below : j < nptEntries) (maps : entryTarget (pageEntry σ pgdir i j) = some frame) :
    σ.references frame = 1 := by
  have positive := namings_pos_of_page inside below maps
  have counted := wf.counted frame (wf.page_facts inside below maps).2.2.1
  rw [exclusive.unheld frame positive] at counted
  have single := exclusive.once frame
  have one : (σ.references frame).toNat = 1 := by omega
  exact BitVec.eq_of_toNat_eq one

theorem pageAllocated_of_success {frame table : Nat} {free' : List Nat} {after : State}
    {list : LinkedList Nat} (wf : WellFormed pgdir held (frame :: free) σ)
    (exclusive : Exclusive pgdir held σ)
    (taken : WellFormed pgdir held free { σ with freeFrameList := list })
    (detached : Detached free { σ with freeFrameList := list } frame)
    (valid : ValidRequest va perm)
    (ready : SlotReady pgdir held va frame free free'
      (State.clearFrame { σ with freeFrameList := list } frame) after table) :
    PageAllocated pgdir va perm σ (writeMapping after frame table va perm) := by
  have inside := pdx_lt_userEntries valid.below
  have different := (detached.unnamed taken).2.2
  have notTable : ∀ i < userEntries, pageTable σ pgdir i ≠ some frame :=
    fun i inside => detached.not_table taken inside
  have tables : ∀ i, pageTable (State.clearFrame { σ with freeFrameList := list } frame) pgdir i =
      pageTable σ pgdir i := pageTable_clearFrame different
  have cleared {i : Nat} (inside : i < userEntries) (j : Nat) :
      pageEntry (State.clearFrame { σ with freeFrameList := list } frame) pgdir i j =
        pageEntry σ pgdir i j := pageEntry_clearFrame different (notTable i inside) j
  have entries {i : Nat} (inside' : i < userEntries) (j : Nat) :=
    pageEntry_of_page_write ready.wf inside ready.named
      (memory_writeMapping after frame table va perm) inside' j
  have frameNotTable : frame ≠ table := by
    rintro rfl
    rcases ready.tableOrigin with member | named
    · exact detached.offList member
    · exact notTable _ inside (tables _ ▸ named)
  have isolated := Isolated.success (taken.clearFrame different notTable)
    (Exclusive.mono exclusive fun other => by
      rw [namings_clearFrame taken detached]
      exact Nat.le_refl _) detached.clearFrame valid ready
  constructor
  · exact valid.aligned
  · exact valid.below
  · refine ⟨frame, ?_, ?_, ?_, ?_⟩
    · rw [wf.linked.reaches_iff]
      exact List.mem_cons_self
    · rw [entries inside, if_pos ⟨rfl, rfl⟩]
    · rw [references_writeMapping, Function.update_self, ready.references detached.offList]
      change σ.references frame + 1 = 1
      rw [wf.freeUnreferenced frame List.mem_cons_self]
      rfl
    · intro j _
      rw [memory_writeMapping, write_other frameNotTable, ready.memory frame different frameNotTable]
      exact clearFrame_self _ frame j
  · intro replaced maps
    have single := exclusive.references_of_page wf inside (ptx_lt va) maps
    rw [← cleared inside] at maps
    rw [freeFrameList_writeMapping, ready.wf.linked.reaches_iff]
    exact ready.released replaced maps single
  · intro i inside' j _ elsewhere
    rw [entries inside', if_neg elsewhere, ready.otherPages i inside' j elsewhere, cleared inside']
  · intro i inside' j below _ other maps
    have onPage := wf.page_facts inside' below maps
    have positive := namings_pos_of_page inside' below maps
    have notDirectory : other ≠ pgdir := by
      rintro rfl
      have unheld := exclusive.unheld other positive
      have holds := wf.directoryHeld
      omega
    have notFrame : other ≠ frame := fun same => onPage.2.2.2 (by simp [same])
    have otherNotTable : other ≠ table := by
      rcases ready.tableOrigin with member | named
      · exact fun same => onPage.2.2.2 (by simp [same, member])
      · rw [tables] at named
        exact (exclusive.table_ne_page inside named inside' below maps).symm
    rw [memory_writeMapping, write_other otherNotTable, ready.memory other notDirectory otherNotTable,
      clearFrame_other _ notFrame]
  · intro i inside' j below i' inside'' j' below' other maps maps'
    obtain ⟨_, _, _, exclusive'⟩ := isolated
    exact exclusive'.page_unique inside' below inside'' below' maps maps'

end Guarantee

/-- Every page handed out in a run after boot is zeroed and isolated. -/
theorem allocatePage_isolates {pgdir first : Nat} {start σ σ' : State} {va perm : Word}
    (boot : LeftByInitializePaging pgdir first start)
    (reachable : Reachable (PageStep pgdir) start σ)
    (success : sysAllocatePage σ pgdir va perm = .ok (0, σ')) :
    PageAllocated pgdir va perm σ σ' := by
  have preserved : ∀ state call next, Isolated pgdir state → PageStep pgdir state call next →
      Isolated pgdir next := fun _ _ _ isolated step => isolated.step step
  obtain ⟨held, free, wf, exclusive⟩ := reachable.preserves preserved (Isolated.ofBoot boot)
  cases free with
  | nil =>
      rw [sysAllocatePage_empty wf] at success
      exact absurd (Prod.mk.inj (Except.ok.inj success)).1 (by decide)
  | cons frame rest =>
      obtain ⟨list, taken, detached, cases⟩ := sysAllocatePage_cons wf va perm
      rcases cases with ⟨_, failed⟩ | ⟨_, _, _, failed⟩ | ⟨valid, after, _, table, ready, result⟩
      · rw [failed] at success
        exact absurd (Prod.mk.inj (Except.ok.inj success)).1 (by decide)
      · rw [failed] at success
        exact absurd (Prod.mk.inj (Except.ok.inj success)).1 (by decide)
      · rw [result] at success
        cases success
        exact pageAllocated_of_success wf exclusive taken detached valid ready

theorem allocatePage_isolates_smallMachine :
    ∃ σ, sysAllocatePage smallMachineBooted 256 0x1000 permUser = .ok (0, σ) ∧
      PageAllocated 256 0x1000 permUser smallMachineBooted σ := by
  have boot := smallMachineBooted_left
  have wf := smallMachineBooted_first
  obtain ⟨list, _, _, cases⟩ := sysAllocatePage_cons wf 0x1000 permUser
  rcases cases with ⟨invalid, _⟩ | ⟨_, _, empty, _⟩ | ⟨_, _, _, _, _, success⟩
  · exact absurd ⟨by decide, by decide, by decide⟩ invalid
  · exact absurd empty (List.cons_ne_nil _ _)
  · exact ⟨_, success, allocatePage_isolates boot ⟨[], Run.nil _⟩ success⟩

end FosV2
