import FosV2.MemoryManagerInvariant

/-!
The writes the memory manager makes to a directory and its tables, each with what it does
to the entries, to the counts and to well-formedness. A frame is `Detached` between the
moment it leaves the free list and the moment an entry names it.
-/

namespace FosV2

open IntrusiveList Occurrences TwoLevelTable

structure Detached (free : List Nat) (σ : State) (frame : Nat) : Prop where
  bound : frame < σ.numberOfFrames
  offList : frame ∉ free
  unreferenced : σ.references frame = 0

def installTable (σ : State) (pgdir i table : Nat) : State :=
  ((σ.clearFrame table).setReferences table 1).setWord pgdir i
    (constructEntry (toPhysicalAddress table) (permPresent ||| permUser ||| permWriteable))

def dropMapping (σ : State) (pgdir table frame : Nat) (va : Word) : State :=
  tlbInvalidate ((decrementReferences σ frame).setWord table (ptx va) 0) pgdir va

theorem tablePermissions_eq :
    permPresent ||| permUser ||| permWriteable = 6 ||| permPresent := by decide

theorem namings_redirect_page {σ σ' : State} {pgdir i j : Nat} (inside : i < userEntries)
    (below : j < nptEntries)
    (sameTables : ∀ i < userEntries, pageTable σ' pgdir i = pageTable σ pgdir i)
    (samePages : ∀ i' < userEntries, ∀ j' < nptEntries, ¬(i' = i ∧ j' = j) →
      pageEntry σ' pgdir i' j' = pageEntry σ pgdir i' j') (frame : Nat) :
    namings σ' pgdir frame +
        (if entryTarget (pageEntry σ pgdir i j) = some frame then 1 else 0) =
      namings σ pgdir frame +
        (if entryTarget (pageEntry σ' pgdir i j) = some frame then 1 else 0) := by
  have directory : directoryNamings σ' pgdir frame = directoryNamings σ pgdir frame :=
    occurrences_congr (fun i member => sameTables i (Finset.mem_range.mp member)) frame
  have member : (i, j) ∈ Finset.range userEntries ×ˢ Finset.range nptEntries :=
    Finset.mem_product.mpr ⟨Finset.mem_range.mpr inside, Finset.mem_range.mpr below⟩
  have table : tableNamings σ' pgdir frame +
        (if entryTarget (pageEntry σ pgdir i j) = some frame then 1 else 0) =
      tableNamings σ pgdir frame +
        (if entryTarget (pageEntry σ' pgdir i j) = some frame then 1 else 0) := by
    refine occurrences_redirect (pageTarget σ pgdir) (pageTarget σ' pgdir) member
      (fun other belongs different => ?_) frame
    have bounds := Finset.mem_product.mp belongs
    rw [pageTarget, pageTarget, samePages other.1 (Finset.mem_range.mp bounds.1) other.2
      (Finset.mem_range.mp bounds.2)]
    rintro ⟨first, second⟩
    exact different (Prod.ext first second)
  simp only [namings, directory]
  omega

theorem namings_redirect_table {σ σ' : State} {pgdir i : Nat} (inside : i < userEntries)
    (sameTables : ∀ i' < userEntries, i' ≠ i → pageTable σ' pgdir i' = pageTable σ pgdir i')
    (samePages : ∀ i' < userEntries, ∀ j < nptEntries,
      pageEntry σ' pgdir i' j = pageEntry σ pgdir i' j) (frame : Nat) :
    namings σ' pgdir frame + (if pageTable σ pgdir i = some frame then 1 else 0) =
      namings σ pgdir frame + (if pageTable σ' pgdir i = some frame then 1 else 0) := by
  have table : tableNamings σ' pgdir frame = tableNamings σ pgdir frame := by
    refine occurrences_congr (fun slot member => ?_) frame
    have bounds := Finset.mem_product.mp member
    rw [pageTarget, pageTarget, samePages slot.1 (Finset.mem_range.mp bounds.1) slot.2
      (Finset.mem_range.mp bounds.2)]
  have directory : directoryNamings σ' pgdir frame +
        (if pageTable σ pgdir i = some frame then 1 else 0) =
      directoryNamings σ pgdir frame + (if pageTable σ' pgdir i = some frame then 1 else 0) := by
    refine occurrences_redirect (pageTable σ pgdir) (pageTable σ' pgdir)
      (Finset.mem_range.mpr inside) (fun other belongs different => ?_) frame
    exact sameTables other (Finset.mem_range.mp belongs) different
  simp only [namings, table]
  omega

/-! A word written into a page table. -/

section PageWrite

variable {pgdir : Nat} {held : Nat → Nat} {free : List Nat} {σ σ' : State} {i j table : Nat}
  {value : Word}

theorem pageTable_of_page_write (wf : WellFormed pgdir held free σ) (inside : i < userEntries)
    (named : pageTable σ pgdir i = some table)
    (written : σ'.memory = TwoLevelTable.write σ.memory table j value) (i' : Nat) :
    pageTable σ' pgdir i' = pageTable σ pgdir i' := by
  have different := (wf.table_facts inside named).2.2.2.1
  unfold pageTable
  rw [written, write_other different.symm]

theorem directory_of_page_write (wf : WellFormed pgdir held free σ) (inside : i < userEntries)
    (named : pageTable σ pgdir i = some table)
    (written : σ'.memory = TwoLevelTable.write σ.memory table j value) :
    σ'.memory pgdir = σ.memory pgdir := by
  have different := (wf.table_facts inside named).2.2.2.1
  rw [written, write_other different.symm]

theorem pageEntry_of_page_write (wf : WellFormed pgdir held free σ) (inside : i < userEntries)
    (named : pageTable σ pgdir i = some table)
    (written : σ'.memory = TwoLevelTable.write σ.memory table j value)
    {i' : Nat} (inside' : i' < userEntries) (j' : Nat) :
    pageEntry σ' pgdir i' j' =
      if i' = i ∧ j' = j then value else pageEntry σ pgdir i' j' := by
  have same : pageTable σ' pgdir = pageTable σ pgdir :=
    funext (pageTable_of_page_write wf inside named written)
  unfold pageEntry
  rw [same, written]
  exact lookup_write wf.distinct inside inside' named _ _ _ _ _

theorem namings_of_page_write (wf : WellFormed pgdir held free σ) (inside : i < userEntries)
    (below : j < nptEntries) (named : pageTable σ pgdir i = some table)
    (written : σ'.memory = TwoLevelTable.write σ.memory table j value) (frame : Nat) :
    namings σ' pgdir frame +
        (if entryTarget (pageEntry σ pgdir i j) = some frame then 1 else 0) =
      namings σ pgdir frame + (if entryTarget value = some frame then 1 else 0) := by
  have entries {i'} (inside' : i' < userEntries) :=
    pageEntry_of_page_write wf inside named written inside'
  have redirect : namings σ' pgdir frame +
        (if entryTarget (pageEntry σ pgdir i j) = some frame then 1 else 0) =
      namings σ pgdir frame +
        (if entryTarget (pageEntry σ' pgdir i j) = some frame then 1 else 0) := by
    apply namings_redirect_page inside below
    · exact fun i' _ => pageTable_of_page_write wf inside named written i'
    · intro i' inside' j' _ different
      rw [entries inside', if_neg different]
  have here : pageEntry σ' pgdir i j = value := by rw [entries inside, if_pos (by simp)]
  rw [here] at redirect
  exact redirect

/-- Well-formedness after one entry of a page table is rewritten and the list and the
counters are adjusted: the counters have to follow the change of the namings. -/
theorem WellFormed.page_write (wf : WellFormed pgdir held free σ) (inside : i < userEntries)
    (below : j < nptEntries) (named : pageTable σ pgdir i = some table)
    (written : σ'.memory = TwoLevelTable.write σ.memory table j value)
    (sameFrames : σ'.numberOfFrames = σ.numberOfFrames)
    (legal : value ≠ 0 → present value ∧ entryFrame value < σ.numberOfFrames)
    (counted : ∀ frame < σ.numberOfFrames,
      (σ'.references frame).toNat +
          (if entryTarget (pageEntry σ pgdir i j) = some frame then 1 else 0) =
        (σ.references frame).toNat + (if entryTarget value = some frame then 1 else 0))
    {free' : List Nat} (linked : σ'.freeFrameList.WellLinked free')
    (freeOk : ∀ frame ∈ free', frame < σ.numberOfFrames ∧ σ'.references frame = 0) :
    WellFormed pgdir held free' σ' := by
  have sameTables := pageTable_of_page_write wf inside named written
  have entries {i'} (inside' : i' < userEntries) :=
    pageEntry_of_page_write wf inside named written inside'
  have directory := directory_of_page_write wf inside named written
  constructor
  · rw [sameFrames]
    exact wf.frameBound
  · exact linked
  · intro frame member
    rw [sameFrames]
    exact (freeOk frame member).1
  · exact fun frame member => (freeOk frame member).2
  · intro frame bound
    rw [sameFrames] at bound
    have redirect := namings_of_page_write wf inside below named written frame
    have before := wf.counted frame bound
    have change := counted frame bound
    omega
  · rw [sameFrames]
    exact wf.directoryBound
  · exact wf.directoryHeld
  · rw [directory, sameFrames]
    exact wf.tables
  · rw [funext sameTables]
    exact wf.distinct
  · intro i' inside' j' below'
    rw [entries inside', sameFrames]
    split
    · exact legal
    · exact wf.pages i' inside' j' below'

end PageWrite

variable {pgdir : Nat} {held : Nat → Nat} {free : List Nat} {σ : State}

/-! Frames leave the free list and return to it. -/

theorem WellFormed.relist (wf : WellFormed pgdir held free σ) {list : LinkedList Nat}
    {free' : List Nat} (linked : list.WellLinked free')
    (freeOk : ∀ frame ∈ free', frame < σ.numberOfFrames ∧ σ.references frame = 0) :
    WellFormed pgdir held free' { σ with freeFrameList := list } where
  frameBound := wf.frameBound
  linked := linked
  freeBound frame member := (freeOk frame member).1
  freeUnreferenced frame member := (freeOk frame member).2
  counted := wf.counted
  directoryBound := wf.directoryBound
  directoryHeld := wf.directoryHeld
  tables := wf.tables
  distinct := wf.distinct
  pages := wf.pages

theorem WellFormed.freeFrame (wf : WellFormed pgdir held free σ) {frame : Nat}
    (detached : Detached free σ frame) :
    WellFormed pgdir held (frame :: free) (freeFrame σ frame) := by
  apply wf.relist (wf.linked.insertHead detached.offList)
  intro other member
  rcases List.mem_cons.mp member with rfl | member
  · exact ⟨detached.bound, detached.unreferenced⟩
  · exact ⟨wf.freeBound other member, wf.freeUnreferenced other member⟩

theorem allocateFrame_nil (linked : σ.freeFrameList.WellLinked []) :
    allocateFrame σ = .ok (none, σ) := by
  have none : σ.freeFrameList.lhFirst = none := linked.lhFirst_eq
  rw [allocateFrame, none]

theorem allocateFrame_first {frame : Nat} {rest : List Nat}
    (linked : σ.freeFrameList.WellLinked (frame :: rest)) :
    ∃ list : LinkedList Nat, list.WellLinked rest ∧ allocateFrame σ = .ok (some frame,
      { σ with freeFrameList := list, references := Function.update σ.references frame 0 }) := by
  have first : σ.freeFrameList.lhFirst = some frame := linked.lhFirst_eq
  have unique := (List.nodup_cons.mp linked.nodup).1
  obtain ⟨removed, removedEq, removedLinked⟩ := linked.removeFirst
  refine ⟨removed.setEntry frame ⟨none, none⟩, removedLinked.setEntry unique _, ?_⟩
  simp only [allocateFrame, first, removedEq, initializeFrameInfo, State.setReferences]

theorem allocateFrame_empty (wf : WellFormed pgdir held [] σ) :
    allocateFrame σ = .ok (none, σ) :=
  allocateFrame_nil wf.linked

/-- A successful allocation changes nothing but the list: the frame it hands out was
unreferenced already. -/
theorem allocateFrame_cons {frame : Nat} {rest : List Nat}
    (wf : WellFormed pgdir held (frame :: rest) σ) :
    ∃ list : LinkedList Nat,
      allocateFrame σ = .ok (some frame, { σ with freeFrameList := list }) ∧
        WellFormed pgdir held rest { σ with freeFrameList := list } ∧
        Detached rest { σ with freeFrameList := list } frame := by
  have unreferenced := wf.freeUnreferenced frame (by simp)
  have unique := (List.nodup_cons.mp wf.linked.nodup).1
  have same : Function.update σ.references frame 0 = σ.references := by
    rw [← unreferenced, Function.update_eq_self]
  obtain ⟨list, linked, allocated⟩ := allocateFrame_first wf.linked
  rw [same] at allocated
  refine ⟨list, allocated, ?_, ?_⟩
  · apply wf.relist linked
    intro other member
    exact ⟨wf.freeBound other (by simp [member]), wf.freeUnreferenced other (by simp [member])⟩
  · exact ⟨wf.freeBound frame (by simp), unique, unreferenced⟩

theorem Detached.unnamed {frame : Nat} (detached : Detached free σ frame)
    (wf : WellFormed pgdir held free σ) :
    namings σ pgdir frame = 0 ∧ held frame = 0 ∧ frame ≠ pgdir := by
  have counted := wf.counted frame detached.bound
  rw [detached.unreferenced] at counted
  have zero : (0 : BitVec 16).toNat = 0 := rfl
  have held0 : held frame = 0 := by omega
  refine ⟨by omega, held0, ?_⟩
  rintro rfl
  have := wf.directoryHeld
  omega

theorem Detached.not_table {frame i : Nat} (detached : Detached free σ frame)
    (wf : WellFormed pgdir held free σ) (inside : i < userEntries) :
    pageTable σ pgdir i ≠ some frame := by
  intro named
  have := (detached.unnamed wf).1
  have := namings_pos_of_table inside named
  omega

/-! A new page table. -/

section InstallTable

variable {i table : Nat}

theorem memory_installTable (frame j : Nat) :
    (installTable σ pgdir i table).memory frame j =
      if frame = pgdir ∧ j = i then
        constructEntry (toPhysicalAddress table) (6 ||| permPresent)
      else if frame = table then 0 else σ.memory frame j := by
  simp only [installTable, State.setWord, State.clearFrame, State.setReferences, write_apply,
    tablePermissions_eq]
  split
  · rfl
  · by_cases same : frame = table <;> simp [same]

theorem pageTable_installTable (different : table ≠ pgdir) (fits : table < 1048576) :
    pageTable (installTable σ pgdir i table) pgdir =
      Function.update (pageTable σ pgdir) i (some table) := by
  funext i'
  unfold pageTable
  rw [memory_installTable]
  by_cases same : i' = i
  · rw [same, if_pos ⟨rfl, rfl⟩, Function.update_self, entryTarget_constructEntry fits (by decide)]
  · rw [if_neg fun both => same both.2, if_neg different.symm, Function.update_of_ne same]

theorem pageEntry_installTable (wf : WellFormed pgdir held free σ)
    (detached : Detached free σ table) (absent : σ.memory pgdir i = 0) {i' : Nat}
    (inside' : i' < userEntries) (j : Nat) :
    pageEntry (installTable σ pgdir i table) pgdir i' j = pageEntry σ pgdir i' j := by
  have different := (detached.unnamed wf).2.2
  have fits := wf.frameBound
  have bound := detached.bound
  have noTable : pageTable σ pgdir i = none := entryTarget_eq_none_iff.mpr absent
  have install := lookup_install noTable (fun i' => detached.not_table wf) inside' σ.memory 0 j
  rw [← pageTable_installTable different (by omega)] at install
  refine Eq.trans (lookup_congr rfl fun other named => ?_) install
  -- The directory is not one of its tables, so its new entry is invisible here.
  have notDirectory : other ≠ pgdir := by
    rw [pageTable_installTable different (by omega)] at named
    by_cases same : i' = i
    · rw [same, Function.update_self] at named
      exact fun equal => different (Option.some.inj named ▸ equal)
    · rw [Function.update_of_ne same] at named
      exact (wf.table_facts inside' named).2.2.2.1
  rw [memory_installTable, if_neg fun both => notDirectory both.1]
  by_cases same : other = table <;> simp [same]

theorem WellFormed.installTable (wf : WellFormed pgdir held free σ) (inside : i < userEntries)
    (detached : Detached free σ table) (absent : σ.memory pgdir i = 0) :
    WellFormed pgdir held free (installTable σ pgdir i table) := by
  obtain ⟨unnamed, unheld, different⟩ := detached.unnamed wf
  have bound := detached.bound
  have fits := wf.frameBound
  have fits' : table < 1048576 := by omega
  have tables : pageTable (FosV2.installTable σ pgdir i table) pgdir =
      Function.update (pageTable σ pgdir) i (some table) := pageTable_installTable different fits'
  have entries {i' : Nat} (inside' : i' < userEntries) (j : Nat) :=
    pageEntry_installTable wf detached absent inside' j
  have references : (FosV2.installTable σ pgdir i table).references =
      Function.update σ.references table 1 := rfl
  constructor
  · exact wf.frameBound
  · exact wf.linked
  · exact wf.freeBound
  · intro frame member
    have other : frame ≠ table := fun same => detached.offList (same ▸ member)
    rw [references, Function.update_of_ne other]
    exact wf.freeUnreferenced frame member
  · intro frame frameBound
    have redirect : namings (FosV2.installTable σ pgdir i table) pgdir frame +
          (if pageTable σ pgdir i = some frame then 1 else 0) =
        namings σ pgdir frame + (if pageTable (FosV2.installTable σ pgdir i table) pgdir i =
          some frame then 1 else 0) := by
      apply namings_redirect_table inside
      · intro i' _ other
        rw [tables, Function.update_of_ne other]
      · exact fun i' inside' j _ => entries inside' j
    have noTable : pageTable σ pgdir i = none := entryTarget_eq_none_iff.mpr absent
    rw [tables, Function.update_self, noTable] at redirect
    have before := wf.counted frame frameBound
    by_cases same : frame = table
    · subst same
      rw [references, Function.update_self]
      have one : (1 : BitVec 16).toNat = 1 := rfl
      simp only [reduceCtorEq, if_false, if_true] at redirect
      omega
    · rw [references, Function.update_of_ne same]
      rw [if_neg (by simp), if_neg (by simpa using Ne.symm same)] at redirect
      omega
  · exact wf.directoryBound
  · exact wf.directoryHeld
  · intro i' inside' nonzero
    rw [memory_installTable] at nonzero ⊢
    by_cases same : i' = i
    · rw [if_pos ⟨rfl, same⟩, entryFrame_constructEntry (by omega) (by decide)]
      exact ⟨present_constructEntry _ _, bound, different⟩
    · rw [if_neg fun both => same both.2, if_neg different.symm] at nonzero ⊢
      exact wf.tables i' inside' nonzero
  · rw [tables]
    exact wf.distinct.install i fun i' inside' => detached.not_table wf inside'
  · intro i' inside' j below
    rw [entries inside']
    exact wf.pages i' inside' j below

end InstallTable

end FosV2
