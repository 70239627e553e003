import FosV2.MemoryManagerCore
import FosV2.Occurrences

/-!
What a page directory maps, and when the memory manager's data agree with it. The user half
of a directory is read as a two-level table; the entries that name a frame are counted.
-/

namespace FosV2

open IntrusiveList Occurrences TwoLevelTable

def entryTarget (entry : Word) : Option Nat :=
  if entry = 0 then none else some (entryFrame entry)

def pageTable (σ : State) (pgdir i : Nat) : Option Nat :=
  entryTarget (σ.memory pgdir i)

def pageEntry (σ : State) (pgdir i j : Nat) : Word :=
  lookup (pageTable σ pgdir) σ.memory 0 i j

structure Mapped (σ : State) (pgdir : Nat) (va : Word) : Prop where
  table : present (σ.memory pgdir (pdx va))
  page : present (σ.memory (entryFrame (σ.memory pgdir (pdx va))) (ptx va))

def directoryNamings (σ : State) (pgdir frame : Nat) : Nat :=
  occurrences (Finset.range userEntries) (pageTable σ pgdir) frame

def pageTarget (σ : State) (pgdir : Nat) (slot : Nat × Nat) : Option Nat :=
  entryTarget (pageEntry σ pgdir slot.1 slot.2)

def tableNamings (σ : State) (pgdir frame : Nat) : Nat :=
  occurrences (Finset.range userEntries ×ˢ Finset.range nptEntries) (pageTarget σ pgdir) frame

def namings (σ : State) (pgdir frame : Nat) : Nat :=
  directoryNamings σ pgdir frame + tableNamings σ pgdir frame

/-- `held frame` counts the references that are not entries of this directory's user half:
one for a frame in use since boot, the entries of other directories, the directory itself. -/
structure WellFormed (pgdir : Nat) (held : Nat → Nat) (free : List Nat) (σ : State) : Prop where
  -- `K_VIRTUAL_ADDRESS` reaches no more frames from `KERNEL_BASE` to the end of the address space.
  frameBound : σ.numberOfFrames ≤ 65536
  linked : σ.freeFrameList.WellLinked free
  freeBound : ∀ frame ∈ free, frame < σ.numberOfFrames
  freeUnreferenced : ∀ frame ∈ free, σ.references frame = 0
  counted : ∀ frame < σ.numberOfFrames,
    (σ.references frame).toNat = namings σ pgdir frame + held frame
  directoryBound : pgdir < σ.numberOfFrames
  directoryHeld : 0 < held pgdir
  tables : ∀ i < userEntries, σ.memory pgdir i ≠ 0 →
    present (σ.memory pgdir i) ∧ entryFrame (σ.memory pgdir i) < σ.numberOfFrames ∧
      entryFrame (σ.memory pgdir i) ≠ pgdir
  distinct : Distinct (· < userEntries) (pageTable σ pgdir)
  pages : ∀ i < userEntries, ∀ j < nptEntries, pageEntry σ pgdir i j ≠ 0 →
    present (pageEntry σ pgdir i j) ∧ entryFrame (pageEntry σ pgdir i j) < σ.numberOfFrames

@[simp] theorem entryTarget_zero : entryTarget 0 = none := rfl

theorem entryTarget_of_ne {entry : Word} (nonzero : entry ≠ 0) :
    entryTarget entry = some (entryFrame entry) := if_neg nonzero

theorem entryTarget_eq_some_iff {entry : Word} {frame : Nat} :
    entryTarget entry = some frame ↔ entry ≠ 0 ∧ entryFrame entry = frame := by
  unfold entryTarget
  split <;> simp_all

theorem entryTarget_eq_none_iff {entry : Word} : entryTarget entry = none ↔ entry = 0 := by
  unfold entryTarget
  split <;> simp_all

theorem entryTarget_constructEntry {frame : Nat} {perm : Word} (fits : frame < 1048576)
    (small : perm.toNat < 4096) :
    entryTarget (constructEntry (toPhysicalAddress frame) (perm ||| permPresent)) = some frame := by
  rw [entryTarget_of_ne (ne_zero_of_present (present_constructEntry _ _)),
    entryFrame_constructEntry fits (or_present_toNat_lt small)]

theorem pageEntry_of_table {σ : State} {pgdir i table : Nat}
    (named : pageTable σ pgdir i = some table) (j : Nat) :
    pageEntry σ pgdir i j = σ.memory table j :=
  lookup_some named _ _ _

theorem pageEntry_of_no_table {σ : State} {pgdir i : Nat}
    (absent : σ.memory pgdir i = 0) (j : Nat) : pageEntry σ pgdir i j = 0 :=
  lookup_none (entryTarget_eq_none_iff.mpr absent) _ _ _

theorem table_of_page {σ : State} {pgdir i j frame : Nat}
    (maps : entryTarget (pageEntry σ pgdir i j) = some frame) :
    ∃ table, pageTable σ pgdir i = some table ∧ pageEntry σ pgdir i j = σ.memory table j := by
  cases named : pageTable σ pgdir i with
  | none =>
      rw [pageEntry_of_no_table (entryTarget_eq_none_iff.mp named), entryTarget_zero] at maps
      exact absurd maps (by simp)
  | some table => exact ⟨table, rfl, pageEntry_of_table named j⟩

theorem namings_congr {σ σ' : State} {pgdir : Nat}
    (sameTables : ∀ i < userEntries, pageTable σ' pgdir i = pageTable σ pgdir i)
    (samePages : ∀ i < userEntries, ∀ j < nptEntries,
      pageEntry σ' pgdir i j = pageEntry σ pgdir i j) (frame : Nat) :
    namings σ' pgdir frame = namings σ pgdir frame := by
  have directory : directoryNamings σ' pgdir frame = directoryNamings σ pgdir frame :=
    occurrences_congr (fun i member => sameTables i (Finset.mem_range.mp member)) frame
  have table : tableNamings σ' pgdir frame = tableNamings σ pgdir frame := by
    refine occurrences_congr (fun slot member => ?_) frame
    have bounds := Finset.mem_product.mp member
    rw [pageTarget, pageTarget, samePages slot.1 (Finset.mem_range.mp bounds.1) slot.2
      (Finset.mem_range.mp bounds.2)]
  rw [namings, directory, table, namings]

theorem namings_pos_of_table {σ : State} {pgdir i frame : Nat} (inside : i < userEntries)
    (named : pageTable σ pgdir i = some frame) : 0 < namings σ pgdir frame :=
  Nat.add_pos_left (occurrences_pos (Finset.mem_range.mpr inside) named) _

theorem namings_pos_of_page {σ : State} {pgdir i j frame : Nat} (inside : i < userEntries)
    (below : j < nptEntries) (named : entryTarget (pageEntry σ pgdir i j) = some frame) :
    0 < namings σ pgdir frame := by
  have member : (i, j) ∈ Finset.range userEntries ×ˢ Finset.range nptEntries :=
    Finset.mem_product.mpr ⟨Finset.mem_range.mpr inside, Finset.mem_range.mpr below⟩
  have positive : 0 < tableNamings σ pgdir frame := occurrences_pos member named
  exact Nat.add_pos_right _ positive

namespace WellFormed

variable {pgdir : Nat} {held : Nat → Nat} {free : List Nat} {σ : State}

theorem free_unnamed (wf : WellFormed pgdir held free σ) {frame : Nat} (onList : frame ∈ free) :
    namings σ pgdir frame = 0 ∧ held frame = 0 := by
  have counted := wf.counted frame (wf.freeBound frame onList)
  rw [wf.freeUnreferenced frame onList] at counted
  have zero : (0 : BitVec 16).toNat = 0 := rfl
  omega

theorem not_free_of_named (wf : WellFormed pgdir held free σ) {frame : Nat}
    (named : 0 < namings σ pgdir frame) : frame ∉ free := by
  intro onList
  have := (wf.free_unnamed onList).1
  omega

theorem directory_not_free (wf : WellFormed pgdir held free σ) : pgdir ∉ free := by
  intro onList
  have unheld := (wf.free_unnamed onList).2
  have := wf.directoryHeld
  omega

theorem table_facts (wf : WellFormed pgdir held free σ) {i table : Nat} (inside : i < userEntries)
    (named : pageTable σ pgdir i = some table) :
    present (σ.memory pgdir i) ∧ extractAddress (σ.memory pgdir i) = toPhysicalAddress table ∧
      table < σ.numberOfFrames ∧ table ≠ pgdir ∧ table ∉ free := by
  obtain ⟨nonzero, frame⟩ := entryTarget_eq_some_iff.mp named
  obtain ⟨isPresent, bound, different⟩ := wf.tables i inside nonzero
  have fits := wf.frameBound
  refine ⟨isPresent, ?_, by omega, by omega, ?_⟩
  · rw [extractAddress_eq_iff (by omega)]
    exact frame
  · exact wf.not_free_of_named (namings_pos_of_table inside named)

theorem page_facts (wf : WellFormed pgdir held free σ) {i j frame : Nat} (inside : i < userEntries)
    (below : j < nptEntries) (named : entryTarget (pageEntry σ pgdir i j) = some frame) :
    present (pageEntry σ pgdir i j) ∧
      extractAddress (pageEntry σ pgdir i j) = toPhysicalAddress frame ∧
      frame < σ.numberOfFrames ∧ frame ∉ free := by
  obtain ⟨nonzero, eq⟩ := entryTarget_eq_some_iff.mp named
  obtain ⟨isPresent, bound⟩ := wf.pages i inside j below nonzero
  have fits := wf.frameBound
  refine ⟨isPresent, ?_, by omega, ?_⟩
  · rw [extractAddress_eq_iff (by omega)]
    exact eq
  · exact wf.not_free_of_named (namings_pos_of_page inside below named)

end WellFormed

end FosV2
