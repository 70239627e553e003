import FosV2.BootPermissions
import FosV2.KernelBoot
import FosV2.PageIsolation
import FosV2.TlbCoherence

/-!
What a user program can do to the kernel's memory. It stores wherever the page tables, or a
translation that the processor has remembered, let it, and asks for pages in between; the
frames that are in use since boot and the kernel half of the directory stay as they are.
-/

namespace FosV2

open CachedMap IntrusiveList Runs TwoLevelTable

def UserWriteable (entry : Word) : Prop :=
  present entry ∧ entry &&& permUser = permUser ∧ entry &&& permWriteable = permWriteable

instance (entry : Word) : Decidable (UserWriteable entry) :=
  inferInstanceAs (Decidable (_ ∧ _ ∧ _))

def WriteGranted (σ : State) (pgdir : Nat) (va : Word) : Prop :=
  UserWriteable (σ.memory pgdir (pdx va)) ∧
    UserWriteable (σ.memory (entryFrame (σ.memory pgdir (pdx va))) (ptx va))

instance (σ : State) (pgdir : Nat) (va : Word) : Decidable (WriteGranted σ pgdir va) :=
  inferInstanceAs (Decidable (_ ∧ _))

def walkedFrame (σ : State) (pgdir : Nat) (va : Word) : Nat :=
  entryFrame (σ.memory (entryFrame (σ.memory pgdir (pdx va))) (ptx va))

/-- `granted`: the translations that have been remembered with the right to write -/
structure UserMachine where
  state : State
  granted : List (Nat × Nat)

def StoreReaches (pgdir : Nat) (m : UserMachine) (va : Word) (frame : Nat) : Prop :=
  (WriteGranted m.state pgdir va ∧ walkedFrame m.state pgdir va = frame) ∨
    ((ppn va, frame) ∈ m.state.tlb ∧ (ppn va, frame) ∈ m.granted)

inductive UserEvent where
  | call (call : PageCall)
  | remember (va : Word)
  | store (va value : Word)

inductive UserStep (pgdir : Nat) : UserMachine → UserEvent → UserMachine → Prop
  | call {m : UserMachine} {call : PageCall} {σ' : State} : PageStep pgdir m.state call σ' →
      UserStep pgdir m (.call call) { m with state := σ' }
  | remember {m : UserMachine} {va : Word} : Mapped m.state pgdir va →
      UserStep pgdir m (.remember va)
        { state := cacheTranslation m.state pgdir va
          granted := if WriteGranted m.state pgdir va
            then (ppn va, walkedFrame m.state pgdir va) :: m.granted else m.granted }
  | store {m : UserMachine} {va value : Word} {frame : Nat} : StoreReaches pgdir m va frame →
      UserStep pgdir m (.store va value)
        { m with state := m.state.setWord frame (va.toNat % 4096 / 4) value }

/-! Writes outside the directory and its page tables -/

section Retain

variable {pgdir : Nat} {held : Nat → Nat} {free : List Nat} {σ : State}
  {memory' : Nat → Nat → Word}

structure TablesKept (pgdir : Nat) (σ : State) (memory' : Nat → Nat → Word) : Prop where
  directory : memory' pgdir = σ.memory pgdir
  tables : ∀ i < userEntries, ∀ table, pageTable σ pgdir i = some table →
    memory' table = σ.memory table

theorem TablesKept.pageTable (kept : TablesKept pgdir σ memory') (i : Nat) :
    FosV2.pageTable { σ with memory := memory' } pgdir i = FosV2.pageTable σ pgdir i := by
  change entryTarget (memory' pgdir i) = _
  rw [kept.directory]
  rfl

theorem TablesKept.pageEntry (kept : TablesKept pgdir σ memory') {i : Nat}
    (inside : i < userEntries) (j : Nat) :
    FosV2.pageEntry { σ with memory := memory' } pgdir i j = FosV2.pageEntry σ pgdir i j := by
  apply lookup_congr (kept.pageTable i)
  intro table named
  exact congrFun (kept.tables i inside table named) j

theorem TablesKept.namings (kept : TablesKept pgdir σ memory') (frame : Nat) :
    FosV2.namings { σ with memory := memory' } pgdir frame = FosV2.namings σ pgdir frame :=
  namings_congr (fun i _ => kept.pageTable i) (fun _ inside j _ => kept.pageEntry inside j) frame

theorem TablesKept.wellFormed (kept : TablesKept pgdir σ memory')
    (wf : WellFormed pgdir held free σ) :
    WellFormed pgdir held free { σ with memory := memory' } := by
  constructor
  · exact wf.frameBound
  · exact wf.linked
  · exact wf.freeBound
  · exact wf.freeUnreferenced
  · intro frame bound
    rw [kept.namings]
    exact wf.counted frame bound
  · exact wf.directoryBound
  · exact wf.directoryHeld
  · simp only [kept.directory]
    exact wf.tables
  · rw [funext kept.pageTable]
    exact wf.distinct
  · intro i inside j below
    rw [kept.pageEntry inside]
    exact wf.pages i inside j below

theorem TablesKept.exclusive (kept : TablesKept pgdir σ memory')
    (exclusive : Exclusive pgdir held σ) :
    Exclusive pgdir held { σ with memory := memory' } :=
  exclusive.mono fun frame => Nat.le_of_eq (kept.namings frame)

theorem TablesKept.coherent (kept : TablesKept pgdir σ memory') (coherent : TlbCoherent σ pgdir) :
    TlbCoherent { σ with memory := memory' } pgdir := by
  intro page frame below cached
  rw [pageSource, kept.pageEntry (inside_of_belowUserTop below)]
  exact coherent page frame below cached

theorem WellFormed.setTlb (wf : WellFormed pgdir held free σ) (tlb : List (Nat × Nat)) :
    WellFormed pgdir held free { σ with tlb := tlb } :=
  ⟨wf.frameBound, wf.linked, wf.freeBound, wf.freeUnreferenced, wf.counted, wf.directoryBound,
    wf.directoryHeld, wf.tables, wf.distinct, wf.pages⟩

end Retain

/-! One call -/

section Calls

variable {pgdir : Nat} {inUse : Nat → Prop} {held : Nat → Nat} {free : List Nat} {σ σ' : State}
  {va perm : Word}

structure Holding (pgdir : Nat) (inUse : Nat → Prop) (held : Nat → Nat) (free : List Nat)
    (σ : State) : Prop where
  wf : WellFormed pgdir held free σ
  exclusive : Exclusive pgdir held σ
  inUse : ∀ frame, inUse frame → frame < σ.numberOfFrames ∧ 0 < held frame
  coherent : TlbCoherent σ pgdir

structure Served (pgdir : Nat) (inUse : Nat → Prop) (σ σ' : State) : Prop where
  holding : ∃ held free, Holding pgdir inUse held free σ'
  frames : ∀ frame, inUse frame → frame ≠ pgdir → σ'.memory frame = σ.memory frame
  directory : ∀ i, userEntries ≤ i → σ'.memory pgdir i = σ.memory pgdir i

theorem Holding.not_inUse_of_free (holding : Holding pgdir inUse held free σ) {frame : Nat}
    (member : frame ∈ free) : ¬inUse frame := by
  intro used
  have unheld := (holding.wf.free_unnamed member).2
  have positive := (holding.inUse frame used).2
  omega

theorem Holding.not_inUse_of_named (holding : Holding pgdir inUse held free σ) {frame : Nat}
    (named : 0 < namings σ pgdir frame) : ¬inUse frame := by
  intro used
  have unheld := holding.exclusive.unheld frame named
  have positive := (holding.inUse frame used).2
  omega

theorem Holding.unmap (holding : Holding pgdir inUse held free σ) (below : va < userTop)
    (unmapped : unmapFrame σ pgdir va = .ok σ') : Served pgdir inUse σ σ' := by
  have wf := holding.wf
  have inside := pdx_lt_userEntries below
  obtain ⟨after, result, refreshed⟩ := unmapFrame_refreshed wf inside
  rw [unmapped] at result
  cases result
  have coherent := refreshed.coherent holding.coherent
  cases maps : entryTarget (pageEntry σ pgdir (pdx va) (ptx va)) with
  | none =>
      rw [unmapFrame_unmapped wf inside (entryTarget_eq_none_iff.mp maps)] at unmapped
      cases unmapped
      exact ⟨⟨held, free, holding⟩, fun _ _ _ => rfl, fun _ _ => rfl⟩
  | some frame =>
      obtain ⟨table, named, _⟩ := table_of_page maps
      rw [unmapFrame_mapped wf inside named maps] at unmapped
      cases unmapped
      have tableUnused := holding.not_inUse_of_named (namings_pos_of_table inside named)
      have notDirectory : table ≠ pgdir := (wf.table_facts inside named).2.2.2.1
      have fewer : Exclusive pgdir held (dropMapping σ pgdir table frame va) := by
        apply holding.exclusive.mono
        intro other
        have moved := namings_of_page_write wf inside (ptx_lt va) named
          (memory_dropMapping σ pgdir table frame va) other
        simp only [entryTarget_zero, reduceCtorEq, if_false] at moved
        omega
      have stillInUse : ∀ other, inUse other →
          other < (dropMapping σ pgdir table frame va).numberOfFrames ∧ 0 < held other := by
        rw [numberOfFrames_dropMapping]
        exact holding.inUse
      refine ⟨⟨held, _, wf.dropMapping inside named maps, fewer, stillInUse, coherent⟩, ?_, ?_⟩
      · intro other used _
        have different : other ≠ table := fun same => tableUnused (same ▸ used)
        rw [memory_dropMapping, write_other different]
      · intro i _
        rw [memory_dropMapping, write_other notDirectory.symm]

theorem tablesKept_clearFrame {frame : Nat} (wf : WellFormed pgdir held free σ)
    (detached : Detached free σ frame) :
    TablesKept pgdir σ (σ.clearFrame frame).memory := by
  have different := (detached.unnamed wf).2.2
  constructor
  · exact clearFrame_other σ different.symm
  · intro i inside table named
    have other : table ≠ frame := fun same => detached.not_table wf inside (same ▸ named)
    exact clearFrame_other σ other

theorem sysAllocatePage_coherent {frame : Nat} {rest : List Nat} {r : Word}
    (wf : WellFormed pgdir held (frame :: rest) σ) (coherent : TlbCoherent σ pgdir)
    (returned : sysAllocatePage σ pgdir va perm = .ok (r, σ')) : TlbCoherent σ' pgdir := by
  obtain ⟨list, allocated, taken, detached⟩ := allocateFrame_cons wf
  have before : TlbCoherent { σ with freeFrameList := list } pgdir := coherent.congr rfl rfl
  simp only [sysAllocatePage, allocated, ok_bind] at returned
  by_cases address : va ≥ userTop ∨ va % pageSize ≠ 0
  · rw [if_pos address] at returned
    cases returned
    exact before
  rw [if_neg address] at returned
  by_cases permissions : perm &&& (~~~permAvailable &&& ~~~permWriteable) ≠ permUser
  · rw [if_pos permissions] at returned
    cases returned
    exact before
  rw [if_neg permissions] at returned
  have limit := wf.frameBound
  have bound := wf.freeBound frame List.mem_cons_self
  have pointer : kVirtualAddress { σ with freeFrameList := list } (toPhysicalAddress frame) =
      .ok frame := by
    rw [kVirtualAddress_of_lt] <;> rw [ppn_toPhysicalAddress (by omega)]
    exact bound
  have below : va < userTop := BitVec.not_le.mp (not_or.mp address).1
  have kept := tablesKept_clearFrame taken detached
  have cleared : WellFormed pgdir held rest
      (State.clearFrame { σ with freeFrameList := list } frame) := kept.wellFormed taken
  have coherent' : TlbCoherent (State.clearFrame { σ with freeFrameList := list } frame) pgdir :=
    kept.coherent before
  obtain ⟨r', after, result, refreshed⟩ :=
    mapFrame_refreshed cleared (pdx_lt_userEntries below) bound perm
  simp only [pointer, ok_bind, result] at returned
  have mapped := refreshed.coherent coherent'
  by_cases failed : r' = eNoMem
  · rw [if_pos failed] at returned
    cases returned
    rw [decrementReferences_eq]
    exact mapped.congr rfl rfl
  · rw [if_neg failed] at returned
    cases returned
    exact mapped

/-- A frame that is lost, with its counter below zero, is none of those in use since boot. -/
theorem Holding.lose {frame : Nat} (holding : Holding pgdir inUse held free σ)
    (detached : Detached free σ frame) (unused : ¬inUse frame) :
    ∃ held' free', Holding pgdir inUse held' free' (decrementReferences σ frame) := by
  obtain ⟨held', free', wf', exclusive'⟩ :=
    isolated_decrementReferences holding.wf holding.exclusive detached
  refine ⟨held', free', wf', exclusive', ?_, ?_⟩
  · intro other used
    obtain ⟨bound, positive⟩ := holding.inUse other used
    have sameFrames : (decrementReferences σ frame).numberOfFrames = σ.numberOfFrames := by
      rw [decrementReferences_eq]
    have sameNamings : namings (decrementReferences σ frame) pgdir other = namings σ pgdir other := by
      rw [decrementReferences_eq]
      rfl
    have references : (decrementReferences σ frame).references other = σ.references other := by
      have different : other ≠ frame := fun same => unused (same ▸ used)
      rw [decrementReferences_eq]
      exact Function.update_of_ne different _ _
    have before := holding.wf.counted other bound
    have after := wf'.counted other (sameFrames ▸ bound)
    rw [sameNamings, references] at after
    exact ⟨sameFrames ▸ bound, by omega⟩
  · rw [decrementReferences_eq]
    exact holding.coherent.congr rfl rfl

theorem Holding.clear {frame : Nat} (holding : Holding pgdir inUse held free σ)
    (detached : Detached free σ frame) :
    Holding pgdir inUse held free (σ.clearFrame frame) := by
  have kept := tablesKept_clearFrame holding.wf detached
  exact ⟨kept.wellFormed holding.wf, kept.exclusive holding.exclusive, holding.inUse,
    kept.coherent holding.coherent⟩

theorem Holding.allocate {r : Word} (holding : Holding pgdir inUse held free σ)
    (returned : sysAllocatePage σ pgdir va perm = .ok (r, σ')) : Served pgdir inUse σ σ' := by
  have wf := holding.wf
  cases free with
  | nil =>
      rw [sysAllocatePage_empty wf] at returned
      cases returned
      exact ⟨⟨held, [], holding⟩, fun _ _ _ => rfl, fun _ _ => rfl⟩
  | cons frame rest =>
      have coherent := sysAllocatePage_coherent wf holding.coherent returned
      have unused := holding.not_inUse_of_free (List.mem_cons_self : frame ∈ frame :: rest)
      obtain ⟨list, taken, detached, cases⟩ := sysAllocatePage_cons wf va perm
      have without : Holding pgdir inUse held rest { σ with freeFrameList := list } :=
        ⟨taken, ⟨holding.exclusive.once, holding.exclusive.unheld⟩, holding.inUse,
          holding.coherent.congr rfl rfl⟩
      have cleared := without.clear detached
      have different := (detached.unnamed taken).2.2
      have others : ∀ other, inUse other →
          (State.clearFrame { σ with freeFrameList := list } frame).memory other =
            σ.memory other := by
        intro other used
        have apart : other ≠ frame := fun same => unused (same ▸ used)
        exact clearFrame_other _ apart
      have directory : (State.clearFrame { σ with freeFrameList := list } frame).memory pgdir =
          σ.memory pgdir := clearFrame_other _ different.symm
      rcases cases with ⟨_, failed⟩ | ⟨_, _, _, failed⟩ | ⟨valid, after, free', table, ready, success⟩
      · rw [failed] at returned
        cases returned
        exact ⟨⟨held, rest, without⟩, fun _ _ _ => rfl, fun _ _ => rfl⟩
      · rw [failed] at returned
        cases returned
        refine ⟨cleared.lose detached.clearFrame unused, ?_, ?_⟩
        · intro other used _
          rw [decrementReferences_eq]
          exact others other used
        · intro i _
          rw [decrementReferences_eq]
          exact congrFun directory i
      · rw [success] at returned
        cases returned
        have inside := pdx_lt_userEntries valid.below
        have exclusive := Exclusive.slotReady cleared.wf cleared.exclusive ready
        have detached' := ready.detached detached.clearFrame
        have tableUnused : ¬inUse table := by
          rcases ready.tableOrigin with member | named
          · exact without.not_inUse_of_free member
          · exact cleared.not_inUse_of_named (namings_pos_of_table inside named)
        have notDirectory := (ready.wf.table_facts inside ready.named).2.2.2.1
        refine ⟨⟨held, free', ?_, ?_, ?_, coherent⟩, ?_, ?_⟩
        · exact ready.wf.writeDetached detached' inside ready.named ready.vacant valid.small
        · exact Exclusive.writeMapping ready.wf exclusive detached' inside ready.named ready.vacant
            valid.small
        · intro other used
          obtain ⟨bound, positive⟩ := holding.inUse other used
          refine ⟨?_, positive⟩
          rw [numberOfFrames_writeMapping, ready.sameFrames]
          exact bound
        · intro other used apart
          have notTable : other ≠ table := fun same => tableUnused (same ▸ used)
          rw [memory_writeMapping, write_other notTable, ready.memory other apart notTable]
          exact others other used
        · intro i above
          have elsewhere : i ≠ pdx va := by omega
          rw [memory_writeMapping, write_other notDirectory.symm, ready.directory i elsewhere]
          exact congrFun directory i

end Calls

/-! A run -/

section Machine

variable {pgdir : Nat} {inUse : Nat → Prop} {start : State} {m m' : UserMachine} {va : Word}
  {frame : Nat}

def KernelHalfClosed (pgdir : Nat) (inUse : Nat → Prop) (σ : State) : Prop :=
  ∀ i, userEntries ≤ i → i < npdEntries → ¬UserWriteable (σ.memory pgdir i) ∨
    ∃ table, entryFrame (σ.memory pgdir i) = table ∧ inUse table ∧ table ≠ pgdir ∧
      ∀ j < nptEntries, ¬UserWriteable (σ.memory table j)

structure KernelKept (pgdir : Nat) (inUse : Nat → Prop) (start : State) (m : UserMachine) :
    Prop where
  holding : ∃ held free, Holding pgdir inUse held free m.state
  granted : ∀ pair ∈ m.granted, BelowUserTop pair.1
  frames : ∀ frame, inUse frame → frame ≠ pgdir → m.state.memory frame = start.memory frame
  directory : ∀ i, userEntries ≤ i → m.state.memory pgdir i = start.memory pgdir i

theorem KernelKept.below_of_writeGranted (kept : KernelKept pgdir inUse start m)
    (closed : KernelHalfClosed pgdir inUse start) (granted : WriteGranted m.state pgdir va) :
    pdx va < userEntries := by
  by_contra above
  rw [not_lt] at above
  obtain ⟨table, page⟩ := granted
  rw [kept.directory _ above] at table page
  rcases closed (pdx va) above (pdx_lt va) with forbidden | ⟨_, rfl, used, apart, forbidden⟩
  · exact forbidden table
  · rw [kept.frames _ used apart] at page
    exact forbidden (ptx va) (ptx_lt va) page

theorem belowUserTop_of_inside (inside : pdx va < userEntries) : BelowUserTop (ppn va) := by
  have slot := ptx_lt va
  have split := ppn_eq_pdx_ptx va
  unfold BelowUserTop
  rw [userEntries_eq, nptEntries_eq] at *
  omega

theorem WriteGranted.pageSource (granted : WriteGranted m.state pgdir va) :
    pageSource m.state pgdir (ppn va) = some (walkedFrame m.state pgdir va) := by
  have named : pageTable m.state pgdir (pdx va) =
      some (entryFrame (m.state.memory pgdir (pdx va))) :=
    entryTarget_of_ne (ne_zero_of_present granted.1.1)
  rw [pageSource_ppn, pageEntry_of_table named]
  exact entryTarget_of_ne (ne_zero_of_present granted.2.1)

/-- A store goes to a page below `USER_TOP`, and to the frame that is mapped there. -/
theorem KernelKept.reaches (kept : KernelKept pgdir inUse start m)
    (closed : KernelHalfClosed pgdir inUse start) (reaches : StoreReaches pgdir m va frame) :
    BelowUserTop (ppn va) ∧ pageSource m.state pgdir (ppn va) = some frame := by
  rcases reaches with ⟨granted, rfl⟩ | ⟨cached, granted⟩
  · exact ⟨belowUserTop_of_inside (kept.below_of_writeGranted closed granted), granted.pageSource⟩
  · obtain ⟨_, _, holding⟩ := kept.holding
    have below := kept.granted _ granted
    exact ⟨below, holding.coherent _ _ below cached⟩

theorem Holding.of_page {held : Nat → Nat} {free : List Nat} {σ : State} {page : Nat}
    (holding : Holding pgdir inUse held free σ) (below : BelowUserTop page)
    (maps : pageSource σ pgdir page = some frame) :
    ¬inUse frame ∧ frame ≠ pgdir ∧ ∀ i < userEntries, pageTable σ pgdir i ≠ some frame := by
  have inside := inside_of_belowUserTop below
  have slot : page % nptEntries < nptEntries := Nat.mod_lt _ (by rw [nptEntries_eq]; omega)
  have named := namings_pos_of_page inside slot maps
  refine ⟨holding.not_inUse_of_named named, ?_, ?_⟩
  · rintro rfl
    have unheld := holding.exclusive.unheld frame named
    have isHeld := holding.wf.directoryHeld
    omega
  · intro i inside' isTable
    exact holding.exclusive.table_ne_page inside' isTable inside slot maps rfl

theorem KernelKept.store (kept : KernelKept pgdir inUse start m)
    (closed : KernelHalfClosed pgdir inUse start) (reaches : StoreReaches pgdir m va frame)
    (index : Nat) (value : Word) :
    KernelKept pgdir inUse start { m with state := m.state.setWord frame index value } := by
  obtain ⟨below, maps⟩ := kept.reaches closed reaches
  obtain ⟨held, free, holding⟩ := kept.holding
  obtain ⟨unused, apart, notTable⟩ := holding.of_page below maps
  have elsewhere : ∀ other, other ≠ frame →
      (m.state.setWord frame index value).memory other = m.state.memory other :=
    fun other different => write_other different ..
  have tables : TablesKept pgdir m.state (m.state.setWord frame index value).memory := by
    refine ⟨elsewhere pgdir apart.symm, fun i inside table named => elsewhere table ?_⟩
    rintro rfl
    exact notTable i inside named
  refine ⟨⟨held, free, tables.wellFormed holding.wf, tables.exclusive holding.exclusive,
    holding.inUse, tables.coherent holding.coherent⟩, kept.granted, ?_, ?_⟩
  · intro other used different
    have notFrame : other ≠ frame := fun same => unused (same ▸ used)
    exact (elsewhere other notFrame).trans (kept.frames other used different)
  · intro i above
    exact (congrFun (elsewhere pgdir apart.symm) i).trans (kept.directory i above)

theorem KernelKept.remember (kept : KernelKept pgdir inUse start m)
    (closed : KernelHalfClosed pgdir inUse start) (mapped : Mapped m.state pgdir va) :
    KernelKept pgdir inUse start
      { state := cacheTranslation m.state pgdir va
        granted := if WriteGranted m.state pgdir va
          then (ppn va, walkedFrame m.state pgdir va) :: m.granted else m.granted } := by
  obtain ⟨held, free, holding⟩ := kept.holding
  have invariant : TlbInvariant pgdir held m.state := ⟨⟨free, holding.wf⟩, holding.coherent⟩
  obtain ⟨_, coherent⟩ := invariant.fill mapped
  refine ⟨⟨held, free, holding.wf.setTlb _, ⟨holding.exclusive.once, holding.exclusive.unheld⟩,
    holding.inUse, coherent⟩, ?_, kept.frames, kept.directory⟩
  by_cases granted : WriteGranted m.state pgdir va
  · simp only [granted, if_true]
    intro pair member
    rcases List.mem_cons.mp member with rfl | old
    · exact belowUserTop_of_inside (kept.below_of_writeGranted closed granted)
    · exact kept.granted pair old
  · simp only [granted, if_false]
    exact kept.granted

theorem KernelKept.step (kept : KernelKept pgdir inUse start m)
    (closed : KernelHalfClosed pgdir inUse start) {event : UserEvent}
    (step : UserStep pgdir m event m') : KernelKept pgdir inUse start m' := by
  cases step with
  | @call call σ' stepped =>
      obtain ⟨held, free, holding⟩ := kept.holding
      have served : Served pgdir inUse m.state σ' := by
        cases call with
        | allocatePage va perm =>
            obtain ⟨r, returned⟩ := stepped
            exact holding.allocate returned
        | unmapFrame va => exact holding.unmap stepped.1 stepped.2
      refine ⟨served.holding, kept.granted, ?_, ?_⟩
      · intro frame used apart
        exact (served.frames frame used apart).trans (kept.frames frame used apart)
      · intro i above
        exact (served.directory i above).trans (kept.directory i above)
  | remember mapped => exact kept.remember closed mapped
  | store reaches => exact kept.store closed reaches _ _

end Machine

/-! What boot leaves of the kernel half -/

theorem userWriteable_iff (entry : Word) :
    UserWriteable entry ↔ permissionOf entry = ⟨true, true, true⟩ := by
  simp only [UserWriteable, present, permissionOf, hasBits, Permission.mk.injEq, decide_eq_true_iff]
  exact and_congr_right fun _ => And.comm

theorem not_userWriteable_constructEntry {frame : Nat} {perm : Word} (fits : frame < 1048576)
    (closed : permissionOf perm ≠ ⟨true, true, true⟩) :
    ¬UserWriteable (constructEntry (toPhysicalAddress frame) perm) := by
  have aligned : (toPhysicalAddress frame).toNat % 4096 = 0 := by
    rw [toPhysicalAddress_toNat fits]
    omega
  rw [userWriteable_iff, permissionOf_constructEntry aligned]
  exact closed

theorem not_userWriteable_bootTableEntry {table : Nat} (fits : table < 1048576) :
    ¬UserWriteable (bootTableEntry table) :=
  not_userWriteable_constructEntry fits (by decide)

section Space

variable {image : BootImage} {σ₀ σ σ' σ'' : State} (space : KernelSpace image σ₀ σ)
  (limit : σ₀.numberOfFrames ≤ 16639)
include space limit

/-- `initialize_paging` and `page_check` write to no frame that is in use. -/
theorem KernelSpace.retained (paging : initializePaging σ = .ok σ')
    (checked : pageCheck σ' image.directory = .ok σ'') :
    σ''.numberOfFrames = σ₀.numberOfFrames ∧
      FosV2.firstFreeFrame σ'' = image.firstFree σ₀.numberOfFrames ∧
        ∀ frame, 256 ≤ frame → frame < image.firstFree σ₀.numberOfFrames →
          σ''.memory frame = σ.memory frame := by
  have bounds := image.directory_bounds
  have enough := space.enough
  have sameFrames := space.sameFrames
  have place : image.firstFree σ₀.numberOfFrames =
    image.directory + 93 + framesInfoPages σ₀.numberOfFrames := rfl
  obtain ⟨inKernel, first⟩ := space.firstFreeFrame limit
  obtain ⟨after, result, initialized⟩ :=
    initializePaging_spec inKernel (by omega) (by omega : FosV2.firstFreeFrame σ ≤ σ.numberOfFrames)
  rw [paging] at result
  cases result
  obtain ⟨frames, memory, pointer, _⟩ := initialized.machine
  have left : LeftByInitializePaging image.directory (FosV2.firstFreeFrame σ) σ' := by
    refine ⟨⟨σ, rfl, paging⟩, by omega, by omega, by omega, by omega, ?_, ?_⟩
    · rw [mem_freeAfterBoot]
      omega
    · rw [memory, userEntries_eq]
      exact space.user
  obtain ⟨pp0, pp1, pp2, rest, list⟩ :=
    freeAfterBoot_three (FosV2.firstFreeFrame σ) σ'.numberOfFrames
  have wf := left.wellFormed
  rw [list] at wf
  have inside : 1 < userEntries := by
    rw [userEntries_eq]
    omega
  obtain ⟨last, result, checkLeft⟩ :=
    pageCheck_returns wf (left.userHalf 0 (by omega)) (left.userHalf 1 inside)
  rw [checked] at result
  cases result
  have sameFirst : FosV2.firstFreeFrame σ'' = FosV2.firstFreeFrame σ := by
    simp only [FosV2.firstFreeFrame, checkLeft.pointer, pointer]
  refine ⟨checkLeft.sameFrames.trans (frames.trans sameFrames), sameFirst.trans first, ?_⟩
  intro frame above below
  rw [checkLeft.memory frame, memory]
  have outside : frame ∉ freeAfterBoot (FosV2.firstFreeFrame σ) σ'.numberOfFrames := by
    rw [mem_freeAfterBoot]
    omega
  rw [list] at outside
  simp only [List.mem_cons, not_or] at outside ⊢
  exact ⟨outside.2.2.1, outside.2.1, outside.1, outside.2.2.2⟩

/-- The window of `envs` is open to the user, so its table has to be closed. -/
theorem KernelSpace.closed (clear : ∀ j < nptEntries, 25 ≤ j →
      ¬UserWriteable (σ₀.memory (image.envsTable σ₀.numberOfFrames) j)) {i : Nat}
    (window : KernelWindow i) : ¬UserWriteable (σ.memory image.directory i) ∨
      ∃ table, entryFrame (σ.memory image.directory i) = table ∧ image.directory < table ∧
        table < image.firstFree σ₀.numberOfFrames ∧
          ∀ j < nptEntries, ¬UserWriteable (σ.memory table j) := by
  have bounds := image.directory_bounds
  have few := framesInfoPages_le limit
  obtain ⟨stackTable, kernelTables, framesInfo, framesTable, envsTable, firstFree⟩ :=
    image.layout σ₀.numberOfFrames
  have envs : image.envs σ₀.numberOfFrames =
    image.directory + 67 + framesInfoPages σ₀.numberOfFrames := rfl
  rcases kernelWindow_iff.mp window with rfl | rfl | rfl | ⟨low, high⟩
  · refine Or.inr ⟨image.envsTable σ₀.numberOfFrames, ?_, ?_, ?_, ?_⟩
    · rw [space.envsWindow, entryFrame_or (by omega)]
    · omega
    · omega
    · intro j slot
      have inside : j < 1024 := nptEntries_eq ▸ slot
      rw [space.envs j inside]
      split_ifs with mapped
      · have aligned : (image.envsRange σ₀.numberOfFrames).physicalAddress.toNat % 4096 = 0 := by
          change (toPhysicalAddress (image.envs σ₀.numberOfFrames)).toNat % 4096 = 0
          rw [toPhysicalAddress_toNat (by omega)]
          omega
        rw [userWriteable_iff, permissionOf_entry aligned, image.envsRange_perm]
        decide
      · exact clear j slot (by omega)
  · rw [space.framesWindow]
    exact Or.inl (not_userWriteable_bootTableEntry (by omega))
  · rw [space.stackWindow]
    exact Or.inl (not_userWriteable_bootTableEntry (by omega))
  · obtain ⟨table, _, above, entry, _⟩ := space.kernelWindow i low high
    rw [entry]
    exact Or.inl (not_userWriteable_bootTableEntry (by omega))

end Space

section Boot

variable {image : BootImage} {baseReading extendedReading : BitVec 16} {machine : State}
  {vm : KernelVM}

/-- From `initialize_kernel_VM` on, the frames in use keep what they hold. -/
theorem fosInitialize_retained
    (booted : fosInitialize image baseReading extendedReading machine = .ok vm) :
    ∃ σ, KernelSpace image (detectedMachine baseReading extendedReading machine) σ ∧
      vm.state.numberOfFrames =
        (detectedMachine baseReading extendedReading machine).numberOfFrames ∧
      firstFreeFrame vm.state = image.firstFree vm.state.numberOfFrames ∧
      ∀ frame, 256 ≤ frame → frame < firstFreeFrame vm.state →
        vm.state.memory frame = σ.memory frame := by
  have limit : (detectedMachine baseReading extendedReading machine).numberOfFrames ≤ 16639 :=
    numberOfFrames_detectMemory baseReading extendedReading
  rw [fosInitialize_eq] at booted
  rcases initializeKernelVM_cases image rfl limit with
    ⟨mapped, returned, pgdir, space⟩ | ⟨⟨stop, failed⟩, _⟩
  · obtain ⟨σ, σ', paging, checked, _⟩ := space.atPrompt pgdir limit
    simp only [returned, ok_bind, paging, checked] at booted
    cases booted
    rw [pgdir] at checked
    obtain ⟨sameFrames, first, retained⟩ := space.retained limit paging checked
    refine ⟨mapped.state, space, sameFrames, ?_, ?_⟩
    · exact first.trans (congrArg image.firstFree sameFrames).symm
    · intro frame above below
      exact retained frame above (first ▸ below)
  · rw [failed, error_bind] at booted
    cases booted

theorem fosInitialize_closed
    (booted : fosInitialize image baseReading extendedReading machine = .ok vm)
    (clear : ∀ j < nptEntries, 25 ≤ j →
      ¬UserWriteable (machine.memory (image.envsTable vm.state.numberOfFrames) j)) {i : Nat}
    (window : KernelWindow i) : ¬UserWriteable (vm.state.memory image.directory i) ∨
      ∃ table, entryFrame (vm.state.memory image.directory i) = table ∧ table ≠ image.directory ∧
        ReservedAtBoot vm.state table ∧ ∀ j < nptEntries, ¬UserWriteable (vm.state.memory table j) := by
  have bounds := image.directory_bounds
  have limit : (detectedMachine baseReading extendedReading machine).numberOfFrames ≤ 16639 :=
    numberOfFrames_detectMemory baseReading extendedReading
  have atPrompt := fosInitialize_atPrompt booted
  obtain ⟨σ, space, sameFrames, first, retained⟩ := fosInitialize_retained booted
  have place : image.firstFree vm.state.numberOfFrames =
    image.directory + 93 + framesInfoPages vm.state.numberOfFrames := rfl
  rw [sameFrames] at clear
  rw [retained image.directory bounds.1 (by omega)]
  rcases space.closed limit clear window with forbidden | ⟨table, named, above, below, forbidden⟩
  · exact Or.inl forbidden
  · rw [← sameFrames, ← first] at below
    refine Or.inr ⟨table, named, by omega, ?_, ?_⟩
    · rw [reservedAtBoot_iff atPrompt.low]
      omega
    · rw [retained table (by omega) below]
      exact forbidden

/-- The directory is the kernel's own, or lies in a frame allocated since and has the kernel half
copied, with the windows that `complete_environment_initialization` sets. -/
structure SharesKernelHalf (vm : KernelVM) (pgdir : Nat) (σ : State) : Prop where
  own : pgdir = vm.ptrPageDirectory ∨ ¬ReservedAtBoot vm.state pgdir
  copied : ∀ i, KernelWindow i → σ.memory pgdir i = vm.state.memory vm.ptrPageDirectory i
  tables : ∀ i, KernelWindow i → ∀ table, pageTable vm.state vm.ptrPageDirectory i = some table →
    σ.memory table = vm.state.memory table
  vpt : σ.memory pgdir (pdx vpt) =
    constructEntry (toPhysicalAddress pgdir) (permPresent ||| permWriteable)
  uvpt : σ.memory pgdir (pdx uvpt) =
    constructEntry (toPhysicalAddress pgdir) (permPresent ||| permUser)

theorem SharesKernelHalf.closed {pgdir : Nat} {σ : State}
    (booted : fosInitialize image baseReading extendedReading machine = .ok vm)
    (clear : ∀ j < nptEntries, 25 ≤ j →
      ¬UserWriteable (machine.memory (image.envsTable vm.state.numberOfFrames) j))
    (shares : SharesKernelHalf vm pgdir σ) (fits : pgdir < 1048576) :
    KernelHalfClosed pgdir (ReservedAtBoot vm.state) σ := by
  have atPrompt := fosInitialize_atPrompt booted
  intro i above below
  by_cases listing : ListingWindow i
  · left
    rcases listing with rfl | rfl
    · rw [shares.uvpt]
      exact not_userWriteable_constructEntry fits (by decide)
    · rw [shares.vpt]
      exact not_userWriteable_constructEntry fits (by decide)
  · have window : KernelWindow i := ⟨above, below, listing⟩
    rw [shares.copied i window, atPrompt.directory]
    rcases fosInitialize_closed booted clear window with
      forbidden | ⟨table, named, apart, reserved, forbidden⟩
    · exact Or.inl forbidden
    · have isTable := (atPrompt.kernelHalf.window i window)
      obtain ⟨table', named', _⟩ := isTable
      obtain ⟨_, same⟩ := entryTarget_eq_some_iff.mp named'
      have tables := shares.tables i window table'
      rw [atPrompt.directory] at tables
      obtain rfl : table' = table := same.symm.trans named
      refine Or.inr ⟨table', named, reserved, ?_, ?_⟩
      · rcases shares.own with rfl | allocated
        · rw [atPrompt.directory]
          exact apart
        · rintro rfl
          exact allocated reserved
      · intro j inside
        rw [tables named']
        exact forbidden j inside

/-- `lcr3` empties the TLB before the program runs. -/
theorem AtPrompt.holding (atPrompt : AtPrompt image vm) : ∃ free,
    Holding image.directory (ReservedAtBoot vm.state)
      (heldSinceBoot (firstFreeFrame vm.state) vm.state.numberOfFrames) free
      { vm.state with tlb := [] } := by
  obtain ⟨free, wf⟩ := atPrompt.wf
  have low := atPrompt.low
  have high := atPrompt.high
  have unnamed : ∀ frame, namings vm.state image.directory frame = 0 :=
    namings_of_empty atPrompt.user
  refine ⟨free, wf.setTlb [], ⟨?_, ?_⟩, ?_, ?_⟩
  · intro frame
    exact (unnamed frame).trans_le (Nat.zero_le 1)
  · intro frame named
    exact absurd (unnamed frame) (Nat.pos_iff_ne_zero.mp named)
  · intro frame reserved
    rw [reservedAtBoot_iff low] at reserved
    refine ⟨?_, ?_⟩
    · change frame < vm.state.numberOfFrames
      omega
    · rw [heldSinceBoot, if_neg]
      · exact Nat.one_pos
      · rw [mem_freeAfterBoot]
        omega
  · intro page frame _ cached
    exact absurd cached (List.not_mem_nil)

theorem sharesKernelHalf_of_booted
    (booted : fosInitialize image baseReading extendedReading machine = .ok vm) :
    SharesKernelHalf vm image.directory { vm.state with tlb := [] } := by
  have bounds := image.directory_bounds
  have atPrompt := fosInitialize_atPrompt booted
  obtain ⟨σ, space, _, first, retained⟩ := fosInitialize_retained booted
  have place : image.firstFree vm.state.numberOfFrames =
    image.directory + 93 + framesInfoPages vm.state.numberOfFrames := rfl
  have directory := retained image.directory bounds.1 (by omega)
  refine ⟨Or.inl atPrompt.directory.symm, ?_, fun _ _ _ _ => rfl, ?_, ?_⟩
  · intro i _
    rw [atPrompt.directory]
  · change vm.state.memory image.directory (pdx vpt) = _
    rw [directory]
    exact space.vptWindow
  · have window : pdx uvpt = 957 := by decide
    change vm.state.memory image.directory (pdx uvpt) = _
    rw [directory, window, space.uvptWindow, constructEntry, BitVec.or_assoc, BitVec.or_comm permUser]

/-- Whatever a user program does, it writes to none of the frames that are in use since boot, to
no directory and no page table: it has no way to give itself rights. The slots of the table of
`envs` that boot does not fill must not grant any. -/
theorem user_keepsKernel {pgdir : Nat} {held : Nat → Nat} {free : List Nat} {start : State}
    {m : UserMachine} {events : List UserEvent}
    (booted : fosInitialize image baseReading extendedReading machine = .ok vm)
    (clear : ∀ j < nptEntries, 25 ≤ j →
      ¬UserWriteable (machine.memory (image.envsTable vm.state.numberOfFrames) j))
    (holding : Holding pgdir (ReservedAtBoot vm.state) held free start)
    (shares : SharesKernelHalf vm pgdir start)
    (run : Run (UserStep pgdir) ⟨start, []⟩ events m) :
    (∀ frame, ReservedAtBoot vm.state frame → frame ≠ pgdir →
        m.state.memory frame = start.memory frame) ∧
      (∀ i, userEntries ≤ i → m.state.memory pgdir i = start.memory pgdir i) ∧
        ∀ va frame, StoreReaches pgdir m va frame → va < userTop ∧ ¬ReservedAtBoot vm.state frame ∧
          frame ≠ pgdir ∧ ∀ i < userEntries, pageTable m.state pgdir i ≠ some frame := by
  have directoryBound := holding.wf.directoryBound
  have frameBound := holding.wf.frameBound
  have closed := shares.closed booted clear (by omega)
  have initial : KernelKept pgdir (ReservedAtBoot vm.state) start ⟨start, []⟩ :=
    ⟨⟨held, free, holding⟩, fun _ member => absurd member (List.not_mem_nil),
      fun _ _ _ => rfl, fun _ _ => rfl⟩
  have kept := run.preserves (fun _ _ _ kept step => KernelKept.step kept closed step) initial
  refine ⟨kept.frames, kept.directory, ?_⟩
  intro va frame reaches
  obtain ⟨below, maps⟩ := kept.reaches closed reaches
  obtain ⟨_, _, holding'⟩ := kept.holding
  refine ⟨?_, holding'.of_page below maps⟩
  have inside := inside_of_belowUserTop below
  rw [ppn_div, userEntries_eq, pdx_eq] at inside
  have top : userTop.toNat = 4005560320 := by decide
  rw [BitVec.lt_def, top]
  omega

end Boot

/-- A page is allocated on the kernel's own directory, right after boot. -/
theorem user_keepsKernel_fourMegabytes : ∃ vm m,
    fosInitialize exampleImage 640 3072 (fourMegabytes 0) = .ok vm ∧
      Run (UserStep exampleImage.directory) ⟨{ vm.state with tlb := [] }, []⟩
        [.call (.allocatePage 0 (permUser ||| permWriteable))] m ∧
      ∀ frame, ReservedAtBoot vm.state frame → frame ≠ exampleImage.directory →
        m.state.memory frame = vm.state.memory frame := by
  obtain ⟨vm, booted⟩ := fosInitialize_returns exampleImage 640 3072 (fourMegabytes 0) (by decide)
  obtain ⟨free, holding⟩ := (fosInitialize_atPrompt booted).holding
  have shares := sharesKernelHalf_of_booted booted
  have returns : ∃ r σ', sysAllocatePage { vm.state with tlb := [] } exampleImage.directory 0
      (permUser ||| permWriteable) = .ok (r, σ') := by
    cases free with
    | nil => exact ⟨_, _, sysAllocatePage_empty holding.wf⟩
    | cons frame rest =>
        obtain ⟨list, _, _, ⟨_, failed⟩ | ⟨_, _, _, failed⟩ | ⟨_, _, _, _, _, success⟩⟩ :=
          sysAllocatePage_cons holding.wf 0 (permUser ||| permWriteable)
        · exact ⟨_, _, failed⟩
        · exact ⟨_, _, failed⟩
        · exact ⟨_, _, success⟩
  obtain ⟨r, σ', returned⟩ := returns
  have run : Run (UserStep exampleImage.directory) ⟨{ vm.state with tlb := [] }, []⟩
      [.call (.allocatePage 0 (permUser ||| permWriteable))] ⟨σ', []⟩ :=
    .cons (.call ⟨r, returned⟩) (.nil _)
  have clear : ∀ j < nptEntries, 25 ≤ j → ¬UserWriteable
      ((fourMegabytes 0).memory (exampleImage.envsTable vm.state.numberOfFrames) j) :=
    fun _ _ _ granted => not_present_zero granted.1
  exact ⟨vm, _, booted, run, (user_keepsKernel booted clear holding shares run).1⟩

end FosV2
