import FosV2.KernelBoot
import FosV2.Runs
import FosV2.StringLibrary

/-!
The commands `ap` and `fp` of `kern/command_prompt.c`, which map and unmap single pages of
the kernel's own directory at an address that is typed in. The address is any word: nothing
keeps the commands out of the kernel half, whose entries boot has written without counting.
-/

namespace FosV2

open IntrusiveList Occurrences TwoLevelTable

def commandAp (σ : State) (pgdir : Nat) (argument : List Byte) : Except Stop State := do
  let va := (strtol argument 16).1
  let (frame, σ) ← allocateFrame σ
  let (_, σ) ← mapFrame σ pgdir frame va (permUser ||| permWriteable)
  return σ

def commandFp (σ : State) (pgdir : Nat) (argument : List Byte) : Except Stop State :=
  unmapFrame σ pgdir (strtol argument 16).1

inductive PromptCommand where
  | ap (argument : List Byte)
  | fp (argument : List Byte)

def PromptCommand.run (pgdir : Nat) : PromptCommand → State → Except Stop State
  | ap argument, σ => commandAp σ pgdir argument
  | fp argument, σ => commandFp σ pgdir argument

def entryAt (σ : State) (pgdir : Nat) (va : Word) : Word := pageEntry σ pgdir (pdx va) (ptx va)

/-! What the commands are to preserve. -/

structure FramesSafe (vm : KernelVM) (σ : State) : Prop where
  reserved : ∀ frame, ReservedAtBoot vm.state frame → ¬σ.freeFrameList.Reaches .head frame
  mapped : ∀ va, va < userTop → Mapped σ vm.ptrPageDirectory va →
    ¬σ.freeFrameList.Reaches .head (entryFrame (entryAt σ vm.ptrPageDirectory va))

def PromptSafe (vm : KernelVM) : Prop :=
  ∀ σ, Runs.Reachable (fun σ command σ' => PromptCommand.run vm.ptrPageDirectory command σ = .ok σ')
      vm.state σ →
    FramesSafe vm σ ∧ ∀ command, PromptCommand.run vm.ptrPageDirectory command σ ≠ .error .toFrameInfo

/-- The command keeps its hands off the entries that boot has left in the kernel half, `ap`
also off the directory itself; and `ap` does not go on without a frame. -/
def PromptCommand.Spares (vm : KernelVM) (σ : State) : PromptCommand → Prop
  | fp argument =>
      let va := (strtol argument 16).1
      ¬(entryAt σ vm.ptrPageDirectory va ≠ 0 ∧
        entryAt σ vm.ptrPageDirectory va = entryAt vm.state vm.ptrPageDirectory va)
  | ap argument =>
      let va := (strtol argument 16).1
      ¬ListingWindow (pdx va) ∧
      ¬(present (entryAt σ vm.ptrPageDirectory va) ∧
        entryAt σ vm.ptrPageDirectory va = entryAt vm.state vm.ptrPageDirectory va) ∧
      (σ.freeFrameList.lhFirst ≠ none ∨ σ.memory vm.ptrPageDirectory (pdx va) = 0)

/-! The mappings made from the prompt in the kernel half are counted like those of users. -/

instance : DecidablePred ListingWindow := fun i =>
  inferInstanceAs (Decidable (i = pdx uvpt ∨ i = pdx vpt))

instance : DecidablePred KernelWindow := fun i =>
  inferInstanceAs (Decidable (userEntries ≤ i ∧ i < npdEntries ∧ ¬ListingWindow i))

@[irreducible] def windowSlots : Finset (Nat × Nat) :=
  (Finset.range npdEntries).filter KernelWindow ×ˢ Finset.range nptEntries

def lentTarget (pgdir : Nat) (start σ : State) (slot : Nat × Nat) : Option Nat :=
  if pageEntry σ pgdir slot.1 slot.2 = pageEntry start pgdir slot.1 slot.2 then none
  else pageTarget σ pgdir slot

def lendings (pgdir : Nat) (start σ : State) (frame : Nat) : Nat :=
  occurrences windowSlots (lentTarget pgdir start σ) frame

structure Spared (pgdir first : Nat) (start : State) (held : Nat → Nat) (free : List Nat)
    (σ : State) : Prop where
  wf : WellFormed pgdir held free σ
  sameFrames : σ.numberOfFrames = start.numberOfFrames
  kernelHalf : ∀ i, userEntries ≤ i → i < npdEntries → σ.memory pgdir i = start.memory pgdir i
  inUse : ∀ frame < σ.numberOfFrames, heldSinceBoot first σ.numberOfFrames frame = 1 →
    σ.references frame = 1
  heldEnough : ∀ frame < σ.numberOfFrames,
    heldSinceBoot first σ.numberOfFrames frame + lendings pgdir start σ frame ≤ held frame
  entries : ∀ i, KernelWindow i → ∀ j < nptEntries,
    pageEntry σ pgdir i j = pageEntry start pgdir i j ∨ pageEntry σ pgdir i j = 0 ∨
      (present (pageEntry σ pgdir i j) ∧ entryFrame (pageEntry σ pgdir i j) < σ.numberOfFrames)

theorem mem_windowSlots {i j : Nat} : (i, j) ∈ windowSlots ↔ KernelWindow i ∧ j < nptEntries := by
  unfold windowSlots
  simp only [Finset.mem_product, Finset.mem_filter, Finset.mem_range]
  constructor
  · intro member
    exact ⟨member.1.2, member.2⟩
  · intro both
    have inside : i < npdEntries := both.1.2.1
    exact ⟨⟨inside, both.1⟩, both.2⟩

theorem lendings_pos {pgdir frame i j : Nat} {start σ : State} (window : KernelWindow i)
    (below : j < nptEntries) (lent : lentTarget pgdir start σ (i, j) = some frame) :
    0 < lendings pgdir start σ frame := by
  rw [lendings]
  exact occurrences_pos (mem_windowSlots.mpr ⟨window, below⟩) lent

/-- The counters stay right when what they count beyond the namings is taken from them. -/
theorem WellFormed.recounted {pgdir : Nat} {held claimed : Nat → Nat} {free free' : List Nat}
    {σ σ' : State} (wf : WellFormed pgdir held free σ)
    (sameFrames : σ'.numberOfFrames = σ.numberOfFrames)
    (linked : σ'.freeFrameList.WellLinked free')
    (freeOk : ∀ frame ∈ free', frame < σ.numberOfFrames ∧ σ'.references frame = 0)
    (enough : ∀ frame < σ.numberOfFrames,
      namings σ' pgdir frame + claimed frame ≤ (σ'.references frame).toNat)
    (directoryHeld : 0 < claimed pgdir)
    (tables : ∀ i < userEntries, σ'.memory pgdir i ≠ 0 →
      present (σ'.memory pgdir i) ∧ entryFrame (σ'.memory pgdir i) < σ.numberOfFrames ∧
        entryFrame (σ'.memory pgdir i) ≠ pgdir)
    (distinct : Distinct (· < userEntries) (pageTable σ' pgdir))
    (pages : ∀ i < userEntries, ∀ j < nptEntries, pageEntry σ' pgdir i j ≠ 0 →
      present (pageEntry σ' pgdir i j) ∧ entryFrame (pageEntry σ' pgdir i j) < σ.numberOfFrames) :
    WellFormed pgdir (fun frame => (σ'.references frame).toNat - namings σ' pgdir frame) free'
      σ' := by
  rw [← sameFrames] at freeOk enough tables pages
  constructor
  · exact sameFrames ▸ wf.frameBound
  · exact linked
  · exact fun frame member => (freeOk frame member).1
  · exact fun frame member => (freeOk frame member).2
  · intro frame frameBound
    have := enough frame frameBound
    omega
  · exact sameFrames ▸ wf.directoryBound
  · have := enough pgdir (sameFrames ▸ wf.directoryBound)
    omega
  · exact tables
  · exact distinct
  · exact pages

namespace Spared

variable {pgdir first : Nat} {start σ σ' : State} {held : Nat → Nat} {free free' : List Nat}

theorem unlent (spared : Spared pgdir first start held free σ) {frame : Nat}
    (bound : frame < σ.numberOfFrames) (inUse : heldSinceBoot first σ.numberOfFrames frame = 1) :
    namings σ pgdir frame = 0 ∧ lendings pgdir start σ frame = 0 ∧ frame ∉ free := by
  have counted := spared.wf.counted frame bound
  have enough := spared.heldEnough frame bound
  have one : (1 : BitVec 16).toNat = 1 := rfl
  rw [spared.inUse frame bound inUse] at counted
  refine ⟨by omega, by omega, ?_⟩
  intro onList
  have unheld := (spared.wf.free_unnamed onList).2
  omega

theorem window_table (spared : Spared pgdir first start held free σ)
    (half : KernelHalf pgdir first start) (high : first ≤ start.numberOfFrames) {i : Nat}
    (window : KernelWindow i) : ∃ table, pageTable σ pgdir i = some table ∧
      pageTable start pgdir i = some table ∧ table ≠ pgdir ∧ table < σ.numberOfFrames ∧
        heldSinceBoot first σ.numberOfFrames table = 1 := by
  obtain ⟨table, named, low, below, different⟩ := half.window i window
  refine ⟨table, ?_, named, different, ?_, ?_⟩
  · rw [pageTable, spared.kernelHalf i window.1 window.2.1]
    exact named
  · rw [spared.sameFrames]
    omega
  · rw [heldSinceBoot, if_neg]
    rw [mem_freeAfterBoot]
    omega

theorem outside (spared : Spared pgdir first start held free σ)
    (half : KernelHalf pgdir first start) (high : first ≤ start.numberOfFrames)
    {held' : Nat → Nat} (more : ∀ frame < σ.numberOfFrames, held frame ≤ held' frame)
    (wf : WellFormed pgdir held' free' σ') (sameFrames : σ'.numberOfFrames = σ.numberOfFrames)
    (directory : ∀ i, userEntries ≤ i → i < npdEntries → σ'.memory pgdir i = σ.memory pgdir i)
    (memory : ∀ frame < σ.numberOfFrames, heldSinceBoot first σ.numberOfFrames frame = 1 →
      frame ≠ pgdir → σ'.memory frame = σ.memory frame)
    (references : ∀ frame < σ.numberOfFrames, heldSinceBoot first σ.numberOfFrames frame = 1 →
      σ'.references frame = σ.references frame) :
    Spared pgdir first start held' free' σ' := by
  have entries : ∀ i, KernelWindow i → ∀ j, pageEntry σ' pgdir i j = pageEntry σ pgdir i j := by
    intro i window j
    obtain ⟨table, named, _, different, bound, inUse⟩ := spared.window_table half high window
    have named' : pageTable σ' pgdir i = some table := by
      rw [pageTable, directory i window.1 window.2.1]
      exact named
    rw [pageEntry_of_table named', pageEntry_of_table named, memory table bound inUse different]
  have sameLendings (frame : Nat) :
      lendings pgdir start σ' frame = lendings pgdir start σ frame := by
    refine occurrences_congr (fun slot member => ?_) frame
    obtain ⟨window, _⟩ := mem_windowSlots.mp member
    rw [lentTarget, lentTarget, pageTarget, pageTarget, entries slot.1 window]
  constructor
  · exact wf
  · exact sameFrames.trans spared.sameFrames
  · intro i above below
    rw [directory i above below, spared.kernelHalf i above below]
  · intro frame bound inUse
    rw [sameFrames] at bound inUse
    rw [references frame bound inUse, spared.inUse frame bound inUse]
  · intro frame bound
    rw [sameFrames] at bound ⊢
    rw [sameLendings]
    exact (spared.heldEnough frame bound).trans (more frame bound)
  · intro i window j below
    rw [entries i window, sameFrames]
    exact spared.entries i window j below

structure WindowWritten (pgdir i j : Nat) (value : Word) (σ σ' : State) : Prop where
  directory : σ'.memory pgdir = σ.memory pgdir
  user : ∀ i' < userEntries, ∀ j', pageEntry σ' pgdir i' j' = pageEntry σ pgdir i' j'
  kernel : ∀ i', KernelWindow i' → ∀ j', pageEntry σ' pgdir i' j' =
    if i' = i ∧ j' = j then value else pageEntry σ pgdir i' j'

theorem windows_distinct (spared : Spared pgdir first start held free σ)
    (half : KernelHalf pgdir first start) : Distinct KernelWindow (pageTable σ pgdir) := by
  intro a b shared windowA windowB namedA namedB
  rw [pageTable, spared.kernelHalf a windowA.1 windowA.2.1] at namedA
  rw [pageTable, spared.kernelHalf b windowB.1 windowB.2.1] at namedB
  exact half.distinct a b shared windowA windowB namedA namedB

theorem windowWritten (spared : Spared pgdir first start held free σ)
    (half : KernelHalf pgdir first start) (high : first ≤ start.numberOfFrames)
    {i j table : Nat} {value : Word} (window : KernelWindow i)
    (named : pageTable σ pgdir i = some table)
    (written : σ'.memory = TwoLevelTable.write σ.memory table j value) :
    WindowWritten pgdir i j value σ σ' := by
  obtain ⟨table', named', _, different, bound, inUse⟩ := spared.window_table half high window
  have same := Option.some.inj (named'.symm.trans named)
  subst same
  have unlent := spared.unlent bound inUse
  have directory : σ'.memory pgdir = σ.memory pgdir := by
    rw [written, write_other different.symm]
  have sameTables (i' : Nat) : pageTable σ' pgdir i' = pageTable σ pgdir i' := by
    rw [pageTable, directory, pageTable]
  constructor
  · exact directory
  · intro i' inside j'
    refine lookup_congr (sameTables i') fun other names => ?_
    have notTable : other ≠ table' := by
      rintro rfl
      have := namings_pos_of_table inside names
      omega
    rw [written, write_other notTable]
  · intro i' window' j'
    unfold pageEntry
    rw [funext sameTables, written]
    exact lookup_write (spared.windows_distinct half) window window' named _ _ _ _ _

namespace WindowWritten

variable {i j : Nat} {value : Word}

theorem tables (wrote : WindowWritten pgdir i j value σ σ') :
    pageTable σ' pgdir = pageTable σ pgdir := by
  funext i'
  rw [pageTable, wrote.directory, pageTable]

theorem namings (wrote : WindowWritten pgdir i j value σ σ') (frame : Nat) :
    FosV2.namings σ' pgdir frame = FosV2.namings σ pgdir frame :=
  namings_congr (fun i' _ => congrFun wrote.tables i')
    (fun i' inside j' _ => wrote.user i' inside j') frame

/-- What the entry lent before is given back, and at most its new target is lent. -/
theorem lendings_le (wrote : WindowWritten pgdir i j value σ σ') (start : State)
    (window : KernelWindow i) (below : j < nptEntries) (frame : Nat) : lendings pgdir start σ' frame +
        (if lentTarget pgdir start σ (i, j) = some frame then 1 else 0) ≤
      lendings pgdir start σ frame + (if entryTarget value = some frame then 1 else 0) := by
  have others : ∀ slot ∈ windowSlots, slot ≠ (i, j) →
      lentTarget pgdir start σ' slot = lentTarget pgdir start σ slot := by
    intro slot member other
    obtain ⟨window', _⟩ := mem_windowSlots.mp member
    have elsewhere : ¬(slot.1 = i ∧ slot.2 = j) := fun both => other (Prod.ext both.1 both.2)
    rw [lentTarget, lentTarget, pageTarget, pageTarget, wrote.kernel slot.1 window',
      if_neg elsewhere]
  have moved := occurrences_redirect (lentTarget pgdir start σ) (lentTarget pgdir start σ')
    (mem_windowSlots.mpr ⟨window, below⟩) others frame
  have target : lentTarget pgdir start σ' (i, j) = none ∨
      lentTarget pgdir start σ' (i, j) = entryTarget value := by
    have here : pageEntry σ' pgdir i j = value := by rw [wrote.kernel i window, if_pos ⟨rfl, rfl⟩]
    rw [lentTarget, pageTarget, here]
    split
    · exact Or.inl rfl
    · exact Or.inr rfl
  change lendings pgdir start σ' frame + _ = lendings pgdir start σ frame + _ at moved
  rcases target with none | names
  · rw [none] at moved
    simp only [reduceCtorEq, if_false] at moved
    omega
  · rw [names] at moved
    omega

end WindowWritten

/-- A word written into the table of a kernel window: what the entry named before and what it
names from now on are counted, the mappings of boot are not. -/
theorem windowWrite (spared : Spared pgdir first start held free σ)
    (half : KernelHalf pgdir first start) (high : first ≤ start.numberOfFrames)
    {i j table : Nat} {value : Word} (window : KernelWindow i) (below : j < nptEntries)
    (named : pageTable σ pgdir i = some table)
    (written : σ'.memory = TwoLevelTable.write σ.memory table j value)
    (sameFrames : σ'.numberOfFrames = σ.numberOfFrames)
    (legal : value = 0 ∨ (present value ∧ entryFrame value < σ.numberOfFrames))
    (unused : ∀ frame, entryTarget value = some frame →
      heldSinceBoot first σ.numberOfFrames frame = 0)
    (counted : ∀ frame < σ.numberOfFrames,
      (σ'.references frame).toNat +
          (if lentTarget pgdir start σ (i, j) = some frame then 1 else 0) =
        (σ.references frame).toNat + (if entryTarget value = some frame then 1 else 0))
    (linked : σ'.freeFrameList.WellLinked free')
    (freeOk : ∀ frame ∈ free', frame < σ.numberOfFrames ∧ σ'.references frame = 0) :
    ∃ held', Spared pgdir first start held' free' σ' := by
  have wrote := spared.windowWritten half high window named written
  have wf := spared.wf
  have enough (frame : Nat) (frameBound : frame < σ.numberOfFrames) :
      namings σ' pgdir frame + (heldSinceBoot first σ.numberOfFrames frame +
        lendings pgdir start σ' frame) ≤ (σ'.references frame).toNat := by
    have before := wf.counted frame frameBound
    have held := spared.heldEnough frame frameBound
    have change := counted frame frameBound
    have moved := wrote.lendings_le start window below frame
    rw [wrote.namings]
    omega
  have directoryHeld : 0 < heldSinceBoot first σ.numberOfFrames pgdir +
      lendings pgdir start σ' pgdir := by
    have heldOnce : heldSinceBoot first σ.numberOfFrames pgdir = 1 := half.heldDirectory
    omega
  refine ⟨fun frame => (σ'.references frame).toNat - namings σ' pgdir frame, ?_⟩
  constructor
  · apply wf.recounted sameFrames linked freeOk enough directoryHeld
    · rw [wrote.directory]
      exact wf.tables
    · rw [wrote.tables]
      exact wf.distinct
    · intro i' inside j' below'
      rw [wrote.user i' inside]
      exact wf.pages i' inside j' below'
  · exact sameFrames.trans spared.sameFrames
  · rw [wrote.directory]
    exact spared.kernelHalf
  · intro frame frameBound inUse'
    rw [sameFrames] at frameBound inUse'
    have unlent' := spared.unlent frameBound inUse'
    have change := counted frame frameBound
    have notLent : lentTarget pgdir start σ (i, j) ≠ some frame := by
      intro names
      have := lendings_pos window below names
      omega
    have notNamed : entryTarget value ≠ some frame := by
      intro names
      have := unused frame names
      omega
    rw [if_neg notLent, if_neg notNamed] at change
    rw [← spared.inUse frame frameBound inUse']
    exact BitVec.eq_of_toNat_eq change
  · intro frame frameBound
    have := enough frame (sameFrames ▸ frameBound)
    rw [sameFrames]
    omega
  · intro i' window' j' below'
    rw [wrote.kernel i' window', sameFrames]
    split
    · exact legal.elim (fun zero => Or.inr (Or.inl zero)) (fun ok => Or.inr (Or.inr ok))
    · exact spared.entries i' window' j' below'

structure TableDropped (pgdir i : Nat) (σ σ' : State) : Prop where
  directory : ∀ i', σ'.memory pgdir i' = if i' = i then 0 else σ.memory pgdir i'
  elsewhere : ∀ frame, frame ≠ pgdir → σ'.memory frame = σ.memory frame

namespace TableDropped

variable {i : Nat}

theorem tables (dropped : TableDropped pgdir i σ σ') (i' : Nat) :
    pageTable σ' pgdir i' = if i' = i then none else pageTable σ pgdir i' := by
  rw [pageTable, dropped.directory]
  split
  · rfl
  · rfl

theorem pages (dropped : TableDropped pgdir i σ σ') (wf : WellFormed pgdir held free σ) {i' : Nat}
    (inside : i' < userEntries) (j : Nat) :
    pageEntry σ' pgdir i' j = if i' = i then 0 else pageEntry σ pgdir i' j := by
  by_cases here : i' = i
  · rw [if_pos here, pageEntry_of_no_table]
    rw [dropped.directory, if_pos here]
  · rw [if_neg here]
    refine lookup_congr (by rw [dropped.tables, if_neg here]) fun other names => ?_
    rw [dropped.elsewhere other (wf.table_facts inside names).2.2.2.1]

theorem namings_le (dropped : TableDropped pgdir i σ σ') (wf : WellFormed pgdir held free σ)
    (inside : i < userEntries) {table : Nat} (named : pageTable σ pgdir i = some table)
    (frame : Nat) : namings σ' pgdir frame + (if table = frame then 1 else 0) ≤
      namings σ pgdir frame := by
  have moved := occurrences_redirect (pageTable σ pgdir) (pageTable σ' pgdir)
    (Finset.mem_range.mpr inside) (fun i' _ other => by rw [dropped.tables, if_neg other]) frame
  rw [named, dropped.tables, if_pos rfl] at moved
  simp only [Option.some.injEq, reduceCtorEq, if_false] at moved
  have kept : tableNamings σ' pgdir frame ≤ tableNamings σ pgdir frame := by
    refine occurrences_mono fun slot member names => ?_
    have inside' := Finset.mem_range.mp (Finset.mem_product.mp member).1
    rw [pageTarget, dropped.pages wf inside'] at names
    split at names
    · rw [entryTarget_zero] at names
      cases names
    · exact names
  change directoryNamings σ' pgdir frame + tableNamings σ' pgdir frame + _ ≤
    directoryNamings σ pgdir frame + tableNamings σ pgdir frame
  change directoryNamings σ' pgdir frame + _ = directoryNamings σ pgdir frame + 0 at moved
  omega

end TableDropped

/-- Through a listing window the commands reach the directory: there a page table is dropped
with everything it maps, and its pages stay counted. -/
theorem dropTable (spared : Spared pgdir first start held free σ)
    (half : KernelHalf pgdir first start) (high : first ≤ start.numberOfFrames)
    {table : Nat} {va : Word} (inside : ptx va < userEntries)
    (named : pageTable σ pgdir (ptx va) = some table) :
    ∃ held', Spared pgdir first start held' (releaseTo free σ table)
      (dropMapping σ pgdir pgdir table va) := by
  have wf := spared.wf
  obtain ⟨_, _, bound, different, offList⟩ := wf.table_facts inside named
  have memory := memory_dropMapping σ pgdir pgdir table va
  have frames := numberOfFrames_dropMapping σ pgdir pgdir table va
  have references := references_dropMapping σ pgdir pgdir table va
  have list := freeFrameList_dropMapping σ pgdir pgdir table va
  generalize FosV2.dropMapping σ pgdir pgdir table va = σ' at memory frames references list ⊢
  have dropped : TableDropped pgdir (ptx va) σ σ' := by
    constructor
    · intro i
      rw [memory, write_apply]
      simp only [true_and]
    · intro frame other
      rw [memory, write_other other]
  have positive := namings_pos_of_table inside named
  have countedTable := wf.counted table bound
  have decremented : (σ.references table - 1).toNat + 1 = (σ.references table).toNat := by
    bv_omega
  obtain ⟨linked, freeOk⟩ := wf.released bound offList
  rw [← list] at linked
  rw [← references] at freeOk
  have enough (frame : Nat) (frameBound : frame < σ.numberOfFrames) :
      namings σ' pgdir frame + held frame ≤ (σ'.references frame).toNat := by
    have before := wf.counted frame frameBound
    have less := dropped.namings_le wf inside named frame
    rw [references]
    by_cases same : frame = table
    · subst same
      rw [Function.update_self]
      rw [if_pos rfl] at less
      omega
    · rw [Function.update_of_ne same]
      omega
  refine ⟨fun frame => (σ'.references frame).toNat - namings σ' pgdir frame,
    spared.outside half high ?_ ?_ frames ?_ ?_ ?_⟩
  · intro frame frameBound
    have := enough frame frameBound
    omega
  · apply wf.recounted frames linked freeOk enough wf.directoryHeld
    · intro i inside' nonzero
      rw [dropped.directory] at nonzero ⊢
      split at nonzero
      · exact absurd rfl nonzero
      · rename_i other
        rw [if_neg other]
        exact wf.tables i inside' nonzero
    · intro i i' shared inside₁ inside₂ names names'
      rw [dropped.tables] at names names'
      split at names
      · cases names
      split at names'
      · cases names'
      exact wf.distinct i i' shared inside₁ inside₂ names names'
    · intro i inside' j below nonzero
      rw [dropped.pages wf inside'] at nonzero ⊢
      split at nonzero
      · exact absurd rfl nonzero
      · rename_i other
        rw [if_neg other]
        exact wf.pages i inside' j below nonzero
  · intro i above _
    rw [dropped.directory, if_neg (by omega)]
  · exact fun frame _ _ other => dropped.elsewhere frame other
  · intro frame frameBound inUse
    have unlent := spared.unlent frameBound inUse
    rw [references, Function.update_of_ne]
    rintro rfl
    omega

end Spared

end FosV2
