import FosV2.MemoryManagerSteps

/-!
What each operation of the memory manager does to a well-formed state: one lemma for each
way it can go, in terms of the writes of `MemoryManagerSteps`.
-/

namespace FosV2

open IntrusiveList Occurrences TwoLevelTable

theorem kVirtualAddress_of_lt {σ : State} {pa : Word} (bound : ppn pa < σ.numberOfFrames) :
    kVirtualAddress σ pa = .ok (ppn pa) := if_neg (by omega)

theorem toFrameInfo_of_lt {σ : State} {pa : Word} (bound : ppn pa < σ.numberOfFrames) :
    toFrameInfo σ pa = .ok (ppn pa) := if_neg (by omega)

variable {pgdir : Nat} {held : Nat → Nat} {free : List Nat} {σ : State} {va : Word}

theorem WellFormed.kVirtualAddress_entry (wf : WellFormed pgdir held free σ)
    (inside : pdx va < userEntries) :
    kVirtualAddress σ (extractAddress (σ.memory pgdir (pdx va))) =
      .ok (entryFrame (σ.memory pgdir (pdx va))) := by
  apply kVirtualAddress_of_lt
  change entryFrame (σ.memory pgdir (pdx va)) < σ.numberOfFrames
  by_cases zero : σ.memory pgdir (pdx va) = 0
  · have := wf.directoryBound
    rw [zero, entryFrame_zero]
    omega
  · exact (wf.tables _ inside zero).2.1

/-! `get_page_table` -/

theorem getPageTable_of_entry {table : Nat} (named : pageTable σ pgdir (pdx va) = some table)
    (bound : table < σ.numberOfFrames) (create : Bool) :
    getPageTable σ pgdir va create = .ok (0, some table, σ) := by
  obtain ⟨nonzero, frame⟩ := entryTarget_eq_some_iff.mp named
  have pointer : kVirtualAddress σ (extractAddress (σ.memory pgdir (pdx va))) = .ok table := by
    subst frame
    exact kVirtualAddress_of_lt bound
  simp only [getPageTable, pointer, ok_bind, nonzero, if_false]
  rfl

theorem getPageTable_existing (wf : WellFormed pgdir held free σ) (inside : pdx va < userEntries)
    {table : Nat} (named : pageTable σ pgdir (pdx va) = some table) (create : Bool) :
    getPageTable σ pgdir va create = .ok (0, some table, σ) :=
  getPageTable_of_entry named (wf.table_facts inside named).2.2.1 create

theorem getPageTable_absent (wf : WellFormed pgdir held free σ) (inside : pdx va < userEntries)
    (absent : σ.memory pgdir (pdx va) = 0) :
    getPageTable σ pgdir va false = .ok (0, none, σ) := by
  have pointer := wf.kVirtualAddress_entry inside
  rw [absent] at pointer
  simp only [getPageTable, absent, pointer, ok_bind, if_true]
  rfl

theorem getPageTable_exhausted (wf : WellFormed pgdir held [] σ) (inside : pdx va < userEntries)
    (absent : σ.memory pgdir (pdx va) = 0) :
    getPageTable σ pgdir va true = .ok (eNoMem, none, σ) := by
  have pointer := wf.kVirtualAddress_entry inside
  rw [absent] at pointer
  simp only [getPageTable, absent, pointer, ok_bind, if_true, allocateFrame_empty wf]
  rfl

structure TableReady (pgdir : Nat) (held : Nat → Nat) (va : Word) (free free' : List Nat)
    (σ σ' : State) (table : Nat) : Prop where
  wf : WellFormed pgdir held free' σ'
  named : pageTable σ' pgdir (pdx va) = some table
  samePages : ∀ i < userEntries, ∀ j, pageEntry σ' pgdir i j = pageEntry σ pgdir i j
  origin : (σ' = σ ∧ free' = free) ∨
    (σ.memory pgdir (pdx va) = 0 ∧ free = table :: free' ∧ ∃ list,
      σ' = installTable { σ with freeFrameList := list } pgdir (pdx va) table)

theorem getPageTable_installs {table : Nat} {list : LinkedList Nat}
    (wf : WellFormed pgdir held free σ) (inside : pdx va < userEntries)
    (absent : σ.memory pgdir (pdx va) = 0) (bound : table < σ.numberOfFrames)
    (allocated : allocateFrame σ = .ok (some table, { σ with freeFrameList := list })) :
    getPageTable σ pgdir va true =
      .ok (0, some table, installTable { σ with freeFrameList := list } pgdir (pdx va) table) := by
  have fits := wf.frameBound
  have old := wf.kVirtualAddress_entry inside
  rw [absent] at old
  have pointer : kVirtualAddress { σ with freeFrameList := list } (toPhysicalAddress table) =
      .ok table := by
    rw [kVirtualAddress_of_lt] <;> rw [ppn_toPhysicalAddress (by omega)]
    exact bound
  simp only [getPageTable, absent, old, ok_bind, if_true, allocated, pointer]
  rfl

theorem getPageTable_created {table : Nat} {rest : List Nat}
    (wf : WellFormed pgdir held (table :: rest) σ) (inside : pdx va < userEntries)
    (absent : σ.memory pgdir (pdx va) = 0) :
    ∃ σ', getPageTable σ pgdir va true = .ok (0, some table, σ') ∧
      TableReady pgdir held va (table :: rest) rest σ σ' table := by
  obtain ⟨list, allocated, wfTaken, detached⟩ := allocateFrame_cons wf
  have fits := wf.frameBound
  have bound := wf.freeBound table (by simp)
  refine ⟨installTable { σ with freeFrameList := list } pgdir (pdx va) table,
    getPageTable_installs wf inside absent bound allocated, ?_⟩
  refine ⟨wfTaken.installTable inside detached absent, ?_, ?_, Or.inr ⟨absent, rfl, list, rfl⟩⟩
  · rw [pageTable_installTable (detached.unnamed wfTaken).2.2 (by omega), Function.update_self]
  · exact fun i inside' j => pageEntry_installTable wfTaken detached absent inside' j

/-- With `create` there is a page table afterwards, unless the directory has none and no
frame is free. -/
theorem getPageTable_create (wf : WellFormed pgdir held free σ) (inside : pdx va < userEntries) :
    (σ.memory pgdir (pdx va) = 0 ∧ free = [] ∧
      getPageTable σ pgdir va true = .ok (eNoMem, none, σ)) ∨
    (∃ σ' free' table, getPageTable σ pgdir va true = .ok (0, some table, σ') ∧
      TableReady pgdir held va free free' σ σ' table) := by
  by_cases absent : σ.memory pgdir (pdx va) = 0
  · cases free with
    | nil => exact Or.inl ⟨absent, rfl, getPageTable_exhausted wf inside absent⟩
    | cons table rest =>
        obtain ⟨σ', result, ready⟩ := getPageTable_created wf inside absent
        exact Or.inr ⟨σ', rest, table, result, ready⟩
  · have named : pageTable σ pgdir (pdx va) = some (entryFrame (σ.memory pgdir (pdx va))) :=
      entryTarget_of_ne absent
    refine Or.inr ⟨σ, free, _, getPageTable_existing wf inside named true, ?_⟩
    exact ⟨wf, named, fun _ _ _ => rfl, Or.inl ⟨rfl, rfl⟩⟩

theorem TableReady.subset {free' : List Nat} {σ' : State} {table : Nat}
    (ready : TableReady pgdir held va free free' σ σ' table) : free' ⊆ free := by
  rcases ready.origin with ⟨_, same⟩ | ⟨_, taken, _⟩
  · rw [same]
    exact List.Subset.refl _
  · rw [taken]
    exact List.subset_cons_self _ _

theorem TableReady.sameFrames {free' : List Nat} {σ' : State} {table : Nat}
    (ready : TableReady pgdir held va free free' σ σ' table) :
    σ'.numberOfFrames = σ.numberOfFrames := by
  rcases ready.origin with ⟨same, _⟩ | ⟨_, _, list, made⟩
  · rw [same]
  · rw [made]
    rfl

theorem TableReady.references_of_offList {free' : List Nat} {σ' : State} {table frame : Nat}
    (ready : TableReady pgdir held va free free' σ σ' table) (offList : frame ∉ free) :
    σ'.references frame = σ.references frame := by
  rcases ready.origin with ⟨same, _⟩ | ⟨_, taken, list, made⟩
  · rw [same]
  · have other : frame ≠ table := fun same => offList (by simp [taken, same])
    rw [made]
    exact Function.update_of_ne other _ _

/-! `unmap_frame` -/

theorem decrementReferences_eq (σ : State) (frame : Nat) :
    decrementReferences σ frame =
      { σ with
        references := Function.update σ.references frame (σ.references frame - 1)
        freeFrameList := if σ.references frame = 1 then σ.freeFrameList.insertHead frame
          else σ.freeFrameList } := by
  have last : σ.references frame - 1 = 0 ↔ σ.references frame = 1 := by
    constructor <;> intro eq <;> bv_omega
  by_cases single : σ.references frame = 1
  · simp only [decrementReferences, single, if_true]
    rfl
  · simp only [decrementReferences, mt last.mp single, single, if_false]
    rfl

theorem dropMapping_eq (σ : State) (pgdir table frame : Nat) (va : Word) :
    dropMapping σ pgdir table frame va =
      { σ with
        memory := TwoLevelTable.write σ.memory table (ptx va) 0
        references := Function.update σ.references frame (σ.references frame - 1)
        freeFrameList := if σ.references frame = 1 then σ.freeFrameList.insertHead frame
          else σ.freeFrameList
        tlb := σ.tlb.filter fun cached => cached.1 ≠ ppn va } := by
  rw [dropMapping, decrementReferences_eq]
  rfl

section DropMapping

variable (σ : State) (pgdir table frame : Nat) (va : Word)

@[simp] theorem memory_dropMapping : (dropMapping σ pgdir table frame va).memory =
    TwoLevelTable.write σ.memory table (ptx va) 0 := by
  rw [dropMapping_eq]

@[simp] theorem numberOfFrames_dropMapping :
    (dropMapping σ pgdir table frame va).numberOfFrames = σ.numberOfFrames := by
  rw [dropMapping_eq]

@[simp] theorem references_dropMapping : (dropMapping σ pgdir table frame va).references =
    Function.update σ.references frame (σ.references frame - 1) := by
  rw [dropMapping_eq]

@[simp] theorem freeFrameList_dropMapping : (dropMapping σ pgdir table frame va).freeFrameList =
    if σ.references frame = 1 then σ.freeFrameList.insertHead frame else σ.freeFrameList := by
  rw [dropMapping_eq]

end DropMapping

def releaseTo (free : List Nat) (σ : State) (frame : Nat) : List Nat :=
  if σ.references frame = 1 then frame :: free else free

theorem WellFormed.released (wf : WellFormed pgdir held free σ) {frame : Nat}
    (bound : frame < σ.numberOfFrames) (offList : frame ∉ free) :
    (if σ.references frame = 1 then σ.freeFrameList.insertHead frame
      else σ.freeFrameList).WellLinked (releaseTo free σ frame) ∧
    ∀ other ∈ releaseTo free σ frame, other < σ.numberOfFrames ∧
      Function.update σ.references frame (σ.references frame - 1) other = 0 := by
  unfold releaseTo
  by_cases single : σ.references frame = 1
  · rw [if_pos single, if_pos single]
    refine ⟨wf.linked.insertHead offList, ?_⟩
    intro other member
    by_cases same : other = frame
    · rw [same, Function.update_self, single]
      exact ⟨bound, rfl⟩
    · have member' := (List.mem_cons.mp member).resolve_left same
      rw [Function.update_of_ne same]
      exact ⟨wf.freeBound other member', wf.freeUnreferenced other member'⟩
  · rw [if_neg single, if_neg single]
    refine ⟨wf.linked, ?_⟩
    intro other member
    have different : other ≠ frame := fun same => offList (same ▸ member)
    rw [Function.update_of_ne different]
    exact ⟨wf.freeBound other member, wf.freeUnreferenced other member⟩

theorem references_dropMapping_moved {table frame : Nat}
    (positive : 0 < (σ.references frame).toNat) (other : Nat) :
    ((dropMapping σ pgdir table frame va).references other).toNat +
        (if some frame = some other then 1 else 0) =
      (σ.references other).toNat + (if (none : Option Nat) = some other then 1 else 0) := by
  rw [references_dropMapping]
  by_cases same : other = frame
  · subst same
    rw [Function.update_self, if_pos rfl, if_neg (by simp)]
    bv_omega
  · rw [Function.update_of_ne same, if_neg (by simpa using Ne.symm same), if_neg (by simp)]

theorem WellFormed.dropMapping (wf : WellFormed pgdir held free σ) (inside : pdx va < userEntries)
    {table frame : Nat} (named : pageTable σ pgdir (pdx va) = some table)
    (maps : entryTarget (pageEntry σ pgdir (pdx va) (ptx va)) = some frame) :
    WellFormed pgdir held (releaseTo free σ frame) (dropMapping σ pgdir table frame va) := by
  have below := ptx_lt va
  obtain ⟨_, _, bound, offList⟩ := wf.page_facts inside below maps
  have positive : 0 < (σ.references frame).toNat := by
    have counted := wf.counted frame bound
    have := namings_pos_of_page inside below maps
    omega
  obtain ⟨linked, freeOk⟩ := wf.released bound offList
  refine wf.page_write inside below named (memory_dropMapping σ pgdir table frame va)
    (numberOfFrames_dropMapping σ pgdir table frame va) (fun nonzero => absurd rfl nonzero) ?_ ?_ ?_
  · intro other _
    rw [maps, entryTarget_zero]
    exact references_dropMapping_moved positive other
  · rw [freeFrameList_dropMapping]
    exact linked
  · rw [references_dropMapping]
    exact freeOk

theorem unmapFrame_of_zero {table : Nat} (named : pageTable σ pgdir (pdx va) = some table)
    (bound : table < σ.numberOfFrames) (vacant : σ.memory table (ptx va) = 0) :
    unmapFrame σ pgdir va = .ok σ := by
  simp only [unmapFrame, getFrameInfo, getPageTable_of_entry named bound, ok_bind, vacant, ne_eq,
    not_true_eq_false, if_false]
  rfl

theorem unmapFrame_of_entry {table frame : Nat} (named : pageTable σ pgdir (pdx va) = some table)
    (bound : table < σ.numberOfFrames) (maps : entryTarget (σ.memory table (ptx va)) = some frame)
    (frameBound : frame < σ.numberOfFrames) :
    unmapFrame σ pgdir va = .ok (dropMapping σ pgdir table frame va) := by
  obtain ⟨nonzero, eq⟩ := entryTarget_eq_some_iff.mp maps
  have found : toFrameInfo σ (extractAddress (σ.memory table (ptx va))) = .ok frame := by
    subst eq
    exact toFrameInfo_of_lt frameBound
  simp only [unmapFrame, getFrameInfo, getPageTable_of_entry named bound, ok_bind, nonzero, ne_eq,
    not_false_eq_true, if_true, found]
  rfl

theorem unmapFrame_unmapped (wf : WellFormed pgdir held free σ) (inside : pdx va < userEntries)
    (vacant : pageEntry σ pgdir (pdx va) (ptx va) = 0) :
    unmapFrame σ pgdir va = .ok σ := by
  cases named : pageTable σ pgdir (pdx va) with
  | none =>
      have absent := entryTarget_eq_none_iff.mp named
      simp only [unmapFrame, getFrameInfo, getPageTable_absent wf inside absent, ok_bind]
      rfl
  | some table =>
      rw [pageEntry_of_table named] at vacant
      exact unmapFrame_of_zero named (wf.table_facts inside named).2.2.1 vacant

theorem unmapFrame_mapped (wf : WellFormed pgdir held free σ) (inside : pdx va < userEntries)
    {table frame : Nat} (named : pageTable σ pgdir (pdx va) = some table)
    (maps : entryTarget (pageEntry σ pgdir (pdx va) (ptx va)) = some frame) :
    unmapFrame σ pgdir va = .ok (dropMapping σ pgdir table frame va) := by
  obtain ⟨_, _, bound, _⟩ := wf.page_facts inside (ptx_lt va) maps
  rw [pageEntry_of_table named] at maps
  exact unmapFrame_of_entry named (wf.table_facts inside named).2.2.1 maps bound

/-! `map_frame` -/

section WriteMapping

variable (σ : State) (frame table : Nat) (va perm : Word)

@[simp] theorem memory_writeMapping : (writeMapping σ frame table va perm).memory =
    TwoLevelTable.write σ.memory table (ptx va)
      (constructEntry (toPhysicalAddress frame) (perm ||| permPresent)) := rfl

@[simp] theorem numberOfFrames_writeMapping :
    (writeMapping σ frame table va perm).numberOfFrames = σ.numberOfFrames := rfl

@[simp] theorem references_writeMapping : (writeMapping σ frame table va perm).references =
    Function.update σ.references frame (σ.references frame + 1) := rfl

@[simp] theorem freeFrameList_writeMapping :
    (writeMapping σ frame table va perm).freeFrameList = σ.freeFrameList := rfl

end WriteMapping

theorem WellFormed.writeMapping (wf : WellFormed pgdir held free σ)
    (inside : pdx va < userEntries) {table frame : Nat} {perm : Word}
    (named : pageTable σ pgdir (pdx va) = some table)
    (vacant : pageEntry σ pgdir (pdx va) (ptx va) = 0) (bound : frame < σ.numberOfFrames)
    (offList : frame ∉ free) (small : perm.toNat < 4096)
    (room : (σ.references frame).toNat < 65535) :
    WellFormed pgdir held free (writeMapping σ frame table va perm) := by
  have fits := wf.frameBound
  have incremented : (σ.references frame + 1).toNat = (σ.references frame).toNat + 1 := by
    bv_omega
  have frameFits : frame < 1048576 := by omega
  have target := entryTarget_constructEntry frameFits small
  refine wf.page_write inside (ptx_lt va) named (memory_writeMapping σ frame table va perm)
    (numberOfFrames_writeMapping σ frame table va perm) ?_ ?_ wf.linked ?_
  · intro _
    rw [entryFrame_constructEntry (by omega) (or_present_toNat_lt small)]
    exact ⟨present_constructEntry _ _, bound⟩
  · intro other _
    rw [vacant, entryTarget_zero, target, references_writeMapping]
    by_cases same : other = frame
    · subst same
      rw [Function.update_self, incremented]
      simp
    · rw [Function.update_of_ne same]
      simp [Ne.symm same]
  · intro other member
    have different : other ≠ frame := fun same => offList (same ▸ member)
    refine ⟨wf.freeBound other member, ?_⟩
    exact (Function.update_of_ne different _ _).trans (wf.freeUnreferenced other member)

theorem namings_writeMapping (wf : WellFormed pgdir held free σ) (inside : pdx va < userEntries)
    {table frame : Nat} {perm : Word} (named : pageTable σ pgdir (pdx va) = some table)
    (vacant : pageEntry σ pgdir (pdx va) (ptx va) = 0) (bound : frame < σ.numberOfFrames)
    (small : perm.toNat < 4096) :
    namings (writeMapping σ frame table va perm) pgdir frame = namings σ pgdir frame + 1 := by
  have limit := wf.frameBound
  have fits : frame < 1048576 := by omega
  have moved := namings_of_page_write wf inside (ptx_lt va) named
    (memory_writeMapping σ frame table va perm) frame
  rw [vacant, entryTarget_zero, entryTarget_constructEntry fits small] at moved
  simpa using moved

theorem mapFrame_exhausted (wf : WellFormed pgdir held [] σ) (inside : pdx va < userEntries)
    (absent : σ.memory pgdir (pdx va) = 0) (frame : Option Nat) (perm : Word) :
    mapFrame σ pgdir frame va perm = .ok (eNoMem, σ) := by
  have failed : ¬eNoMem = 0 := by decide
  simp only [mapFrame, getPageTable_exhausted wf inside absent, ok_bind, failed, if_false]
  rfl

theorem mapFrame_same (wf : WellFormed pgdir held free σ) (inside : pdx va < userEntries)
    {frame : Nat} (maps : entryTarget (pageEntry σ pgdir (pdx va) (ptx va)) = some frame)
    (perm : Word) : mapFrame σ pgdir (some frame) va perm = .ok (0, σ) := by
  obtain ⟨isPresent, address, _⟩ := wf.page_facts inside (ptx_lt va) maps
  obtain ⟨table, named, entry⟩ := table_of_page maps
  rw [entry] at isPresent address
  simp only [mapFrame, getPageTable_existing wf inside named, ok_bind, if_true, isPresent, address]
  rfl

theorem mapFrame_absent {table : Nat} (named : pageTable σ pgdir (pdx va) = some table)
    (bound : table < σ.numberOfFrames) (absent : ¬present (σ.memory table (ptx va)))
    (frame : Nat) (perm : Word) :
    mapFrame σ pgdir (some frame) va perm = .ok (0, writeMapping σ frame table va perm) := by
  simp only [mapFrame, getPageTable_of_entry named bound, ok_bind, if_true, absent, if_false]
  rfl

theorem mapFrame_vacant (inside : pdx va < userEntries)
    {free' : List Nat} {σ' : State} {table : Nat}
    (result : getPageTable σ pgdir va true = .ok (0, some table, σ'))
    (ready : TableReady pgdir held va free free' σ σ' table)
    (vacant : pageEntry σ pgdir (pdx va) (ptx va) = 0) (frame : Nat) (perm : Word) :
    mapFrame σ pgdir (some frame) va perm = .ok (0, writeMapping σ' frame table va perm) := by
  rw [← ready.samePages _ inside, pageEntry_of_table ready.named] at vacant
  simp only [mapFrame, result, ok_bind, if_true, vacant, not_present_zero, if_false]
  rfl

theorem mapFrame_over {table frame other : Nat} (named : pageTable σ pgdir (pdx va) = some table)
    (bound : table < σ.numberOfFrames) (isPresent : present (σ.memory table (ptx va)))
    (maps : entryFrame (σ.memory table (ptx va)) = other) (otherBound : other < σ.numberOfFrames)
    (different : other ≠ frame) (fits : frame < 1048576) (perm : Word) :
    mapFrame σ pgdir (some frame) va perm =
      .ok (0, writeMapping (dropMapping σ pgdir table other va) frame table va perm) := by
  have moved : ¬extractAddress (σ.memory table (ptx va)) = toPhysicalAddress frame := by
    rw [extractAddress_eq_iff fits, maps]
    exact different
  have target : entryTarget (σ.memory table (ptx va)) = some other :=
    entryTarget_eq_some_iff.mpr ⟨ne_zero_of_present isPresent, maps⟩
  simp only [mapFrame, getPageTable_of_entry named bound, ok_bind, if_true, isPresent, moved,
    if_false, unmapFrame_of_entry named bound target otherBound]
  rfl

theorem mapFrame_replace (wf : WellFormed pgdir held free σ) (inside : pdx va < userEntries)
    {table frame other : Nat} (named : pageTable σ pgdir (pdx va) = some table)
    (maps : entryTarget (pageEntry σ pgdir (pdx va) (ptx va)) = some other)
    (different : other ≠ frame) (bound : frame < σ.numberOfFrames) (perm : Word) :
    mapFrame σ pgdir (some frame) va perm =
      .ok (0, writeMapping (dropMapping σ pgdir table other va) frame table va perm) := by
  have fits := wf.frameBound
  obtain ⟨isPresent, _, otherBound, _⟩ := wf.page_facts inside (ptx_lt va) maps
  obtain ⟨_, eq⟩ := entryTarget_eq_some_iff.mp maps
  rw [pageEntry_of_table named] at isPresent eq
  exact mapFrame_over named (wf.table_facts inside named).2.2.1 isPresent eq otherBound different
    (by omega) perm

structure SlotReady (pgdir : Nat) (held : Nat → Nat) (va : Word) (frame : Nat)
    (free free' : List Nat) (σ σ' : State) (table : Nat) : Prop where
  wf : WellFormed pgdir held free' σ'
  named : pageTable σ' pgdir (pdx va) = some table
  vacant : pageEntry σ' pgdir (pdx va) (ptx va) = 0
  sameFrames : σ'.numberOfFrames = σ.numberOfFrames
  otherPages : ∀ i < userEntries, ∀ j, ¬(i = pdx va ∧ j = ptx va) →
    pageEntry σ' pgdir i j = pageEntry σ pgdir i j
  offList : frame ∉ free → frame ∉ free'
  references : frame ∉ free → σ'.references frame = σ.references frame
  otherReferences : ∀ other ∉ free,
    entryTarget (pageEntry σ pgdir (pdx va) (ptx va)) ≠ some other →
      σ'.references other = σ.references other
  directory : ∀ i, i ≠ pdx va → σ'.memory pgdir i = σ.memory pgdir i
  tableOrigin : table ∈ free ∨ pageTable σ pgdir (pdx va) = some table
  memory : ∀ other, other ≠ pgdir → other ≠ table → σ'.memory other = σ.memory other
  namings : ∀ other, namings σ' pgdir other ≤
    namings σ pgdir other + if other ∈ free then 1 else 0
  released : ∀ other, entryTarget (pageEntry σ pgdir (pdx va) (ptx va)) = some other →
    σ.references other = 1 → other ∈ free'

theorem TableReady.directory {free' : List Nat} {σ' : State} {table i : Nat}
    (ready : TableReady pgdir held va free free' σ σ' table) (inside : pdx va < userEntries)
    (elsewhere : i ≠ pdx va) : σ'.memory pgdir i = σ.memory pgdir i := by
  rcases ready.origin with ⟨same, _⟩ | ⟨_, _, list, made⟩
  · rw [same]
  · have different : pgdir ≠ table := (ready.wf.table_facts inside ready.named).2.2.2.1.symm
    rw [made, memory_installTable, if_neg fun both => elsewhere both.2, if_neg different]

theorem TableReady.namings {free' : List Nat} {σ' : State} {table : Nat}
    (ready : TableReady pgdir held va free free' σ σ' table) (inside : pdx va < userEntries)
    (other : Nat) : namings σ' pgdir other ≤
      namings σ pgdir other + if other ∈ free then 1 else 0 := by
  rcases ready.origin with ⟨same, _⟩ | ⟨absent, taken, list, made⟩
  · rw [same]
    exact Nat.le_add_right _ _
  · have sameTables : ∀ i < userEntries, i ≠ pdx va →
        pageTable σ' pgdir i = pageTable σ pgdir i := by
      intro i _ different
      rw [pageTable, ready.directory inside different, pageTable]
    have redirect := namings_redirect_table inside sameTables
      (fun i inside' j _ => ready.samePages i inside' j) other
    have noTable : pageTable σ pgdir (pdx va) = none := entryTarget_eq_none_iff.mpr absent
    rw [ready.named, noTable] at redirect
    simp only [reduceCtorEq, if_false, Option.some.injEq] at redirect
    by_cases here : table = other
    · rw [if_pos here] at redirect
      rw [if_pos (by simp [taken, here])]
      omega
    · rw [if_neg here] at redirect
      omega

theorem TableReady.slotReady {free' : List Nat} {σ' : State} {table : Nat}
    (ready : TableReady pgdir held va free free' σ σ' table) (inside : pdx va < userEntries)
    (vacant : pageEntry σ pgdir (pdx va) (ptx va) = 0) (frame : Nat) :
    SlotReady pgdir held va frame free free' σ σ' table where
  wf := ready.wf
  named := ready.named
  vacant := by rw [ready.samePages _ inside, vacant]
  sameFrames := ready.sameFrames
  otherPages i inside' j _ := ready.samePages i inside' j
  offList outside member := outside (ready.subset member)
  references := ready.references_of_offList
  otherReferences other outside _ := ready.references_of_offList outside
  directory i elsewhere := ready.directory inside elsewhere
  tableOrigin := by
    rcases ready.origin with ⟨same, _⟩ | ⟨_, taken, _⟩
    · exact Or.inr (same ▸ ready.named)
    · exact Or.inl (by simp [taken])
  memory other notDirectory notTable := by
    rcases ready.origin with ⟨same, _⟩ | ⟨_, _, list, made⟩
    · rw [same]
    · funext j
      rw [made, memory_installTable, if_neg fun both => notDirectory both.1, if_neg notTable]
  namings := ready.namings inside
  released other maps := by
    rw [vacant, entryTarget_zero] at maps
    exact absurd maps (by simp)

theorem slotReady_dropMapping (wf : WellFormed pgdir held free σ) (inside : pdx va < userEntries)
    {table frame other : Nat} (named : pageTable σ pgdir (pdx va) = some table)
    (maps : entryTarget (pageEntry σ pgdir (pdx va) (ptx va)) = some other)
    (different : other ≠ frame) :
    SlotReady pgdir held va frame free (releaseTo free σ other) σ
      (dropMapping σ pgdir table other va) table := by
  have written := memory_dropMapping σ pgdir table other va
  constructor
  · exact wf.dropMapping inside named maps
  · rw [pageTable_of_page_write wf inside named written]
    exact named
  · rw [pageEntry_of_page_write wf inside named written inside, if_pos ⟨rfl, rfl⟩]
  · exact numberOfFrames_dropMapping σ pgdir table other va
  · intro i inside' j elsewhere
    rw [pageEntry_of_page_write wf inside named written inside', if_neg elsewhere]
  · intro outside
    unfold releaseTo
    split
    · simpa [Ne.symm different] using outside
    · exact outside
  · intro _
    rw [references_dropMapping, Function.update_of_ne different.symm]
  · intro frame' _ notMapped
    rw [references_dropMapping, Function.update_of_ne]
    rintro rfl
    exact notMapped maps
  · intro i _
    rw [directory_of_page_write wf inside named written]
  · exact Or.inr named
  · intro frame' _ notTable
    rw [written, write_other notTable]
  · intro frame'
    have moved := namings_of_page_write wf inside (ptx_lt va) named written frame'
    simp only [entryTarget_zero, reduceCtorEq, if_false] at moved
    omega
  · intro frame' maps' single
    rw [maps] at maps'
    cases maps'
    rw [releaseTo, if_pos single]
    exact List.mem_cons_self

theorem SlotReady.mapped {frame table : Nat} {free' : List Nat} {σ' : State}
    (ready : SlotReady pgdir held va frame free free' σ σ' table) (inside : pdx va < userEntries)
    (perm : Word) : Mapped (writeMapping σ' frame table va perm) pgdir va := by
  have facts := ready.wf.table_facts inside ready.named
  have written := memory_writeMapping σ' frame table va perm
  have directory : (writeMapping σ' frame table va perm).memory pgdir = σ'.memory pgdir := by
    rw [written, write_other facts.2.2.2.1.symm]
  constructor
  · rw [directory]
    exact facts.1
  · rw [directory, (entryTarget_eq_some_iff.mp ready.named).2, written, write_same]
    exact present_constructEntry _ perm

theorem mapFrame_cases (wf : WellFormed pgdir held free σ) (inside : pdx va < userEntries)
    {frame : Nat} (bound : frame < σ.numberOfFrames) (perm : Word) :
    (σ.memory pgdir (pdx va) = 0 ∧ free = [] ∧
      mapFrame σ pgdir (some frame) va perm = .ok (eNoMem, σ)) ∨
    (entryTarget (pageEntry σ pgdir (pdx va) (ptx va)) = some frame ∧
      mapFrame σ pgdir (some frame) va perm = .ok (0, σ)) ∨
    (∃ σ' free' table, SlotReady pgdir held va frame free free' σ σ' table ∧
      mapFrame σ pgdir (some frame) va perm = .ok (0, writeMapping σ' frame table va perm)) := by
  cases maps : entryTarget (pageEntry σ pgdir (pdx va) (ptx va)) with
  | none =>
      have vacant := entryTarget_eq_none_iff.mp maps
      rcases getPageTable_create wf inside with
        ⟨absent, empty, _⟩ | ⟨σ', free', table, result, ready⟩
      · subst empty
        exact Or.inl ⟨absent, rfl, mapFrame_exhausted wf inside absent _ perm⟩
      · refine Or.inr (Or.inr ⟨σ', free', table, ready.slotReady inside vacant frame, ?_⟩)
        exact mapFrame_vacant inside result ready vacant frame perm
  | some other =>
      by_cases same : other = frame
      · subst same
        exact Or.inr (Or.inl ⟨rfl, mapFrame_same wf inside maps perm⟩)
      · obtain ⟨table, named, _⟩ := table_of_page maps
        refine Or.inr (Or.inr ⟨_, _, table, slotReady_dropMapping wf inside named maps same, ?_⟩)
        exact mapFrame_replace wf inside named maps same bound perm

end FosV2
