import FosV2.CommandPrompt

/-!
Runs of the commands `ap` and `fp`. Below `USER_TOP` they keep the frames of the kernel out
of the free list, and above it as well as long as no entry of boot is unmapped; `fp f0000000`
unmaps the first page of physical memory and hands frame 0 out.
-/

namespace FosV2

open IntrusiveList TwoLevelTable

namespace Spared

variable {pgdir first : Nat} {start σ : State} {held : Nat → Nat} {free : List Nat} {va : Word}
theorem lent_of_entry (spared : Spared pgdir first start held free σ)
    (window : KernelWindow (pdx va)) (changed : entryAt σ pgdir va ≠ entryAt start pgdir va)
    (nonzero : entryAt σ pgdir va ≠ 0) :
    present (entryAt σ pgdir va) ∧ ∃ frame < σ.numberOfFrames,
      entryTarget (entryAt σ pgdir va) = some frame ∧
      lentTarget pgdir start σ (pdx va, ptx va) = some frame := by
  rcases spared.entries _ window _ (ptx_lt va) with same | zero | ⟨isPresent, bound⟩
  · exact absurd same changed
  · exact absurd zero nonzero
  · have target := entryTarget_of_ne nonzero
    refine ⟨isPresent, _, bound, target, ?_⟩
    rw [lentTarget]
    exact (if_neg changed).trans target

theorem window_of_outside (outside : ¬pdx va < userEntries) (notListing : ¬ListingWindow (pdx va)) :
    KernelWindow (pdx va) := by
  have last : npdEntries = 1024 := rfl
  have wide := va.isLt
  refine ⟨Nat.not_lt.mp outside, ?_, notListing⟩
  rw [pdx_eq]
  omega

theorem vacant_of_not_present (spared : Spared pgdir first start held free σ)
    (window : KernelWindow (pdx va)) (absent : ¬present (entryAt σ pgdir va)) :
    lentTarget pgdir start σ (pdx va, ptx va) = none := by
  rw [lentTarget]
  rcases spared.entries _ window _ (ptx_lt va) with same | zero | ⟨isPresent, _⟩
  · exact if_pos same
  · have target : pageTarget σ pgdir (pdx va, ptx va) = none := entryTarget_eq_none_iff.mpr zero
    split
    · rfl
    · exact target
  · exact absurd isPresent absent

variable (half : KernelHalf pgdir first start) (high : first ≤ start.numberOfFrames)
include half high

theorem allocate {frame : Nat} {rest : List Nat}
    (spared : Spared pgdir first start held (frame :: rest) σ) :
    ∃ list, allocateFrame σ = .ok (some frame, { σ with freeFrameList := list }) ∧
      Spared pgdir first start held rest { σ with freeFrameList := list } ∧
      Detached rest { σ with freeFrameList := list } frame := by
  obtain ⟨list, allocated, wf, detached⟩ := allocateFrame_cons spared.wf
  refine ⟨list, allocated, ?_, detached⟩
  exact spared.outside half high (fun _ _ => Nat.le_refl _) wf rfl (fun _ _ _ => rfl)
    (fun _ _ _ _ => rfl) (fun _ _ _ => rfl)

/-! Below `USER_TOP`. -/

theorem unmapUser (spared : Spared pgdir first start held free σ) (inside : pdx va < userEntries) :
    ∃ σ' free', unmapFrame σ pgdir va = .ok σ' ∧ Spared pgdir first start held free' σ' := by
  have wf := spared.wf
  cases maps : entryTarget (pageEntry σ pgdir (pdx va) (ptx va)) with
  | none =>
      have vacant := entryTarget_eq_none_iff.mp maps
      exact ⟨σ, free, unmapFrame_unmapped wf inside vacant, spared⟩
  | some frame =>
      obtain ⟨table, named, _⟩ := table_of_page maps
      refine ⟨_, releaseTo free σ frame, unmapFrame_mapped wf inside named maps, ?_⟩
      refine spared.outside half high (fun _ _ => Nat.le_refl _) (wf.dropMapping inside named maps)
        (numberOfFrames_dropMapping σ pgdir table frame va) ?_ ?_ ?_
      · intro i _ _
        rw [directory_of_page_write wf inside named (memory_dropMapping σ pgdir table frame va)]
      · intro other bound inUse _
        have notTable : other ≠ table := by
          rintro rfl
          have := namings_pos_of_table inside named
          have := spared.unlent bound inUse
          omega
        rw [memory_dropMapping, write_other notTable]
      · intro other bound inUse
        rw [references_dropMapping, Function.update_of_ne]
        rintro rfl
        have := namings_pos_of_page inside (ptx_lt va) maps
        have := spared.unlent bound inUse
        omega

theorem mapUser (spared : Spared pgdir first start held free σ) (inside : pdx va < userEntries)
    {frame : Nat} (detached : Detached free σ frame) {perm : Word} (small : perm.toNat < 4096) :
    ∃ err σ' free', mapFrame σ pgdir (some frame) va perm = .ok (err, σ') ∧
      Spared pgdir first start held free' σ' := by
  have bound := detached.bound
  rcases mapFrame_cases spared.wf inside bound perm with
    ⟨_, _, failed⟩ | ⟨_, same⟩ | ⟨σ', free', table, ready, mapped⟩
  · exact ⟨_, _, free, failed, spared⟩
  · exact ⟨_, _, free, same, spared⟩
  · have unreferenced : σ'.references frame = 0 := by
      rw [ready.references detached.offList, detached.unreferenced]
    have different : table ≠ pgdir := (ready.wf.table_facts inside ready.named).2.2.2.1
    refine ⟨_, _, free', mapped, ?_⟩
    refine spared.outside half high (fun _ _ => Nat.le_refl _) ?_ ready.sameFrames ?_ ?_ ?_
    · exact ready.wf.writeMapping inside ready.named ready.vacant (ready.sameFrames ▸ bound)
        (ready.offList detached.offList) small (by rw [unreferenced]; decide)
    · intro i above _
      rw [memory_writeMapping, write_other different.symm]
      exact ready.directory i (by omega)
    · intro other otherBound inUse notDirectory
      obtain ⟨unnamed, _, offList⟩ := spared.unlent otherBound inUse
      have notTable : other ≠ table := by
        rintro rfl
        rcases ready.tableOrigin with member | named
        · exact offList member
        · have := namings_pos_of_table inside named
          omega
      rw [memory_writeMapping, write_other notTable, ready.memory other notDirectory notTable]
    · intro other otherBound inUse
      obtain ⟨unnamed, _, offList⟩ := spared.unlent otherBound inUse
      have notFrame : other ≠ frame := by
        rintro rfl
        have used := spared.inUse other otherBound inUse
        rw [detached.unreferenced] at used
        exact absurd used (by decide)
      rw [references_writeMapping, Function.update_of_ne notFrame]
      apply ready.otherReferences other offList
      intro maps
      have := namings_pos_of_page inside (ptx_lt va) maps
      omega

/-! In the windows of the kernel. -/

theorem dropWindow (spared : Spared pgdir first start held free σ)
    (window : KernelWindow (pdx va)) {table frame : Nat}
    (named : pageTable σ pgdir (pdx va) = some table) (bound : frame < σ.numberOfFrames)
    (lent : lentTarget pgdir start σ (pdx va, ptx va) = some frame) :
    frame ∉ free ∧ ∃ held', Spared pgdir first start held' (releaseTo free σ frame)
      (dropMapping σ pgdir table frame va) := by
  have wf := spared.wf
  have below := ptx_lt va
  have enough := spared.heldEnough frame bound
  have counted := wf.counted frame bound
  have positive := lendings_pos window below lent
  have offList : frame ∉ free := by
    intro member
    have := (wf.free_unnamed member).2
    omega
  have counter : 0 < (σ.references frame).toNat := by omega
  obtain ⟨linked, freeOk⟩ := wf.released bound offList
  refine ⟨offList, spared.windowWrite half high window below named
    (memory_dropMapping σ pgdir table frame va) (numberOfFrames_dropMapping σ pgdir table frame va)
    (Or.inl rfl) ?_ ?_ ?_ ?_⟩
  · intro other names
    rw [entryTarget_zero] at names
    cases names
  · intro other _
    rw [lent, entryTarget_zero]
    exact references_dropMapping_moved counter other
  · rw [freeFrameList_dropMapping]
    exact linked
  · rw [references_dropMapping]
    exact freeOk

theorem unmapWindow (spared : Spared pgdir first start held free σ)
    (window : KernelWindow (pdx va))
    (spares : ¬(entryAt σ pgdir va ≠ 0 ∧ entryAt σ pgdir va = entryAt start pgdir va)) :
    ∃ σ' held' free', unmapFrame σ pgdir va = .ok σ' ∧ Spared pgdir first start held' free' σ' := by
  obtain ⟨table, named, _, _, bound, _⟩ := spared.window_table half high window
  have entry : entryAt σ pgdir va = σ.memory table (ptx va) := pageEntry_of_table named _
  by_cases zero : entryAt σ pgdir va = 0
  · exact ⟨σ, held, free, unmapFrame_of_zero named bound (entry ▸ zero), spared⟩
  · have changed : entryAt σ pgdir va ≠ entryAt start pgdir va := fun same => spares ⟨zero, same⟩
    obtain ⟨_, frame, frameBound, target, lent⟩ := spared.lent_of_entry window changed zero
    rw [entry] at target
    obtain ⟨_, held', dropped⟩ := spared.dropWindow half high window named frameBound lent
    exact ⟨_, held', _, unmapFrame_of_entry named bound target frameBound, dropped⟩

theorem writeWindow (spared : Spared pgdir first start held free σ)
    (window : KernelWindow (pdx va)) {table frame : Nat} {perm : Word}
    (named : pageTable σ pgdir (pdx va) = some table)
    (vacant : lentTarget pgdir start σ (pdx va, ptx va) = none)
    (detached : Detached free σ frame) (small : perm.toNat < 4096) :
    ∃ held', Spared pgdir first start held' free (writeMapping σ frame table va perm) := by
  have wf := spared.wf
  have bound := detached.bound
  have limit := wf.frameBound
  have unheld := (detached.unnamed wf).2.1
  have enough := spared.heldEnough frame bound
  have target := entryTarget_constructEntry (by omega : frame < 1048576) small
  have isFrame := (entryTarget_eq_some_iff.mp target).2
  have unreferenced := detached.unreferenced
  refine spared.windowWrite half high window (ptx_lt va) named
    (memory_writeMapping σ frame table va perm) (numberOfFrames_writeMapping σ frame table va perm)
    (Or.inr ⟨present_constructEntry _ _, by rw [isFrame]; exact bound⟩) ?_ ?_ wf.linked ?_
  · intro other names
    rw [target] at names
    cases names
    omega
  · intro other _
    rw [vacant, target, references_writeMapping]
    by_cases same : other = frame
    · subst same
      rw [Function.update_self, unreferenced]
      simp
    · rw [Function.update_of_ne same]
      simp [Ne.symm same]
  · intro other member
    have different : other ≠ frame := fun same => detached.offList (same ▸ member)
    refine ⟨wf.freeBound other member, ?_⟩
    exact (Function.update_of_ne different _ _).trans (wf.freeUnreferenced other member)

theorem mapWindow (spared : Spared pgdir first start held free σ)
    (window : KernelWindow (pdx va)) {frame : Nat} (detached : Detached free σ frame)
    (spares : ¬(present (entryAt σ pgdir va) ∧ entryAt σ pgdir va = entryAt start pgdir va))
    {perm : Word} (small : perm.toNat < 4096) :
    ∃ err σ' held' free', mapFrame σ pgdir (some frame) va perm = .ok (err, σ') ∧
      Spared pgdir first start held' free' σ' := by
  obtain ⟨table, named, _, different, bound, _⟩ := spared.window_table half high window
  have entry : entryAt σ pgdir va = σ.memory table (ptx va) := pageEntry_of_table named _
  have limit := spared.wf.frameBound
  have frameBound := detached.bound
  by_cases isPresent : present (entryAt σ pgdir va)
  · -- The frame of an earlier command is replaced.
    have changed : entryAt σ pgdir va ≠ entryAt start pgdir va :=
      fun same => spares ⟨isPresent, same⟩
    obtain ⟨_, other, otherBound, target, lent⟩ :=
      spared.lent_of_entry window changed (ne_zero_of_present isPresent)
    have apart : other ≠ frame := by
      rintro rfl
      have := (detached.unnamed spared.wf).2.1
      have := spared.heldEnough other otherBound
      have := lendings_pos window (ptx_lt va) lent
      omega
    obtain ⟨_, held₁, dropped⟩ := spared.dropWindow half high window named otherBound lent
    have named₁ : pageTable (dropMapping σ pgdir table other va) pgdir (pdx va) = some table := by
      rw [pageTable, memory_dropMapping, write_other different.symm]
      exact named
    have absent : ¬present (entryAt (dropMapping σ pgdir table other va) pgdir va) := by
      rw [entryAt, pageEntry_of_table named₁, memory_dropMapping, write_same]
      exact not_present_zero
    have detached₁ : Detached (releaseTo free σ other) (dropMapping σ pgdir table other va) frame := by
      refine ⟨?_, ?_, ?_⟩
      · rw [numberOfFrames_dropMapping]
        exact frameBound
      · unfold releaseTo
        split
        · simpa [apart.symm] using detached.offList
        · exact detached.offList
      · rw [references_dropMapping, Function.update_of_ne apart.symm, detached.unreferenced]
    obtain ⟨held', mapped⟩ := dropped.writeWindow half high window named₁
      (dropped.vacant_of_not_present window absent) detached₁ small
    obtain ⟨_, isOther⟩ := entryTarget_eq_some_iff.mp target
    rw [entry] at isPresent isOther
    exact ⟨_, _, held', _, mapFrame_over named bound isPresent isOther otherBound apart
      (by omega) perm, mapped⟩
  · obtain ⟨held', mapped⟩ := spared.writeWindow half high window named
      (spared.vacant_of_not_present window isPresent) detached small
    rw [entry] at isPresent
    exact ⟨_, _, held', free, mapFrame_absent named bound isPresent frame perm, mapped⟩

/-- Through a listing window `fp` finds the page tables that commands have made. -/
theorem unmapListing (spared : Spared pgdir first start held free σ)
    (listing : ListingWindow (pdx va))
    (spares : ¬(entryAt σ pgdir va ≠ 0 ∧ entryAt σ pgdir va = entryAt start pgdir va)) :
    ∃ σ' held' free', unmapFrame σ pgdir va = .ok σ' ∧ Spared pgdir first start held' free' σ' := by
  have wf := spared.wf
  have directory := half.listing _ listing
  have named : pageTable σ pgdir (pdx va) = some pgdir := by
    have place := listingWindow_iff.mp listing
    have last : npdEntries = 1024 := rfl
    rw [pageTable, spared.kernelHalf _ (by rw [userEntries_eq]; omega) (by omega)]
    exact directory
  have entry : entryAt σ pgdir va = σ.memory pgdir (ptx va) := pageEntry_of_table named _
  have entry₀ : entryAt start pgdir va = start.memory pgdir (ptx va) :=
    pageEntry_of_table directory _
  by_cases zero : entryAt σ pgdir va = 0
  · exact ⟨σ, held, free, unmapFrame_of_zero named wf.directoryBound (entry ▸ zero), spared⟩
  · have inside : ptx va < userEntries := by
      by_contra above
      have below := ptx_lt va
      have last : npdEntries = 1024 := rfl
      rw [nptEntries_eq] at below
      apply spares
      refine ⟨zero, ?_⟩
      rw [entry, entry₀, spared.kernelHalf _ (Nat.not_lt.mp above) (by omega)]
    have target := entryTarget_of_ne (entry ▸ zero)
    obtain ⟨held', dropped⟩ := spared.dropTable half high inside target
    have bound := (wf.table_facts inside target).2.2.1
    exact ⟨_, held', _, unmapFrame_of_entry named wf.directoryBound target bound, dropped⟩

theorem commandFp (spared : Spared pgdir first start held free σ) (argument : List Byte)
    (spares : ¬(entryAt σ pgdir (strtol argument 16).1 ≠ 0 ∧
      entryAt σ pgdir (strtol argument 16).1 = entryAt start pgdir (strtol argument 16).1)) :
    ∃ σ' held' free', commandFp σ pgdir argument = .ok σ' ∧
      Spared pgdir first start held' free' σ' := by
  rw [FosV2.commandFp]
  generalize (strtol argument 16).1 = va at spares ⊢
  by_cases inside : pdx va < userEntries
  · obtain ⟨σ', free', result, spared'⟩ := spared.unmapUser half high inside
    exact ⟨σ', held, free', result, spared'⟩
  by_cases listing : ListingWindow (pdx va)
  · exact spared.unmapListing half high listing spares
  · exact spared.unmapWindow half high (window_of_outside inside listing) spares

theorem commandAp (spared : Spared pgdir first start held free σ) (argument : List Byte)
    (notListing : ¬ListingWindow (pdx (strtol argument 16).1))
    (spares : ¬(present (entryAt σ pgdir (strtol argument 16).1) ∧
      entryAt σ pgdir (strtol argument 16).1 = entryAt start pgdir (strtol argument 16).1))
    (room : σ.freeFrameList.lhFirst ≠ none ∨ σ.memory pgdir (pdx (strtol argument 16).1) = 0) :
    ∃ σ' held' free', commandAp σ pgdir argument = .ok σ' ∧
      Spared pgdir first start held' free' σ' := by
  rw [FosV2.commandAp]
  generalize (strtol argument 16).1 = va at notListing spares room ⊢
  have small : (permUser ||| permWriteable).toNat < 4096 := by decide
  cases free with
  | nil =>
      have nothing : σ.freeFrameList.lhFirst = none := spared.wf.linked.lhFirst_eq
      have noTable := room.resolve_left (not_not.mpr nothing)
      have inside : pdx va < userEntries := by
        by_contra outside
        obtain ⟨table, named, _⟩ :=
          spared.window_table half high (window_of_outside outside notListing)
        rw [pageTable, noTable, entryTarget_zero] at named
        cases named
      refine ⟨σ, held, [], ?_, spared⟩
      simp only [allocateFrame_empty spared.wf, ok_bind,
        mapFrame_exhausted spared.wf inside noTable]
      rfl
  | cons frame rest =>
      obtain ⟨list, allocated, taken, detached⟩ := spared.allocate half high
      by_cases inside : pdx va < userEntries
      · obtain ⟨err, σ', free', mapped, spared'⟩ := taken.mapUser half high inside detached small
        refine ⟨σ', held, free', ?_, spared'⟩
        simp only [allocated, ok_bind, mapped]
        rfl
      · obtain ⟨err, σ', held', free', mapped, spared'⟩ := taken.mapWindow half high
          (window_of_outside inside notListing) detached spares small
        refine ⟨σ', held', free', ?_, spared'⟩
        simp only [allocated, ok_bind, mapped]
        rfl

end Spared

/-! Runs. -/

section Runs

variable {image : BootImage} {vm : KernelVM}

theorem AtPrompt.spared (atPrompt : AtPrompt image vm) :
    ∃ free, Spared image.directory (firstFreeFrame vm.state) vm.state
      (heldSinceBoot (firstFreeFrame vm.state) vm.state.numberOfFrames) free vm.state := by
  obtain ⟨free, wf⟩ := atPrompt.wf
  have nothing (frame : Nat) : lendings image.directory vm.state vm.state frame = 0 := by
    rw [lendings, Occurrences.occurrences_eq_zero_iff]
    intro slot _
    rw [lentTarget, if_pos rfl]
    simp
  refine ⟨free, wf, rfl, fun _ _ _ => rfl, ?_, ?_, fun _ _ _ _ => Or.inl rfl⟩
  · intro frame bound inUse
    have counted := wf.counted frame bound
    rw [namings_of_empty atPrompt.user, inUse] at counted
    exact BitVec.eq_of_toNat_eq counted
  · intro frame _
    rw [nothing]
    exact Nat.le_refl _

theorem Spared.run (atPrompt : AtPrompt image vm) {σ : State} {held : Nat → Nat} {free : List Nat}
    (spared : Spared image.directory (firstFreeFrame vm.state) vm.state held free σ)
    {command : PromptCommand} (spares : command.Spares vm σ) :
    ∃ σ' held' free', command.run vm.ptrPageDirectory σ = .ok σ' ∧
      Spared image.directory (firstFreeFrame vm.state) vm.state held' free' σ' := by
  rw [atPrompt.directory]
  cases command with
  | ap argument =>
      rw [PromptCommand.Spares, atPrompt.directory] at spares
      obtain ⟨notListing, unchanged, room⟩ := spares
      exact spared.commandAp atPrompt.kernelHalf atPrompt.high argument notListing unchanged room
  | fp argument =>
      rw [PromptCommand.Spares, atPrompt.directory] at spares
      exact spared.commandFp atPrompt.kernelHalf atPrompt.high argument spares

theorem Spared.framesSafe (atPrompt : AtPrompt image vm) {σ : State} {held : Nat → Nat}
    {free : List Nat}
    (spared : Spared image.directory (firstFreeFrame vm.state) vm.state held free σ) :
    FramesSafe vm σ := by
  have wf := spared.wf
  have low := atPrompt.low
  have high := atPrompt.high
  constructor
  · intro frame reserved onList
    rw [reservedAtBoot_iff low] at reserved
    have inUse : heldSinceBoot (firstFreeFrame vm.state) σ.numberOfFrames frame = 1 := by
      rw [heldSinceBoot, if_neg]
      rw [mem_freeAfterBoot]
      omega
    have bound : frame < σ.numberOfFrames := by
      rw [spared.sameFrames]
      omega
    exact (spared.unlent bound inUse).2.2 ((wf.linked.reaches_iff frame).mp onList)
  · intro va below mapped onList
    rw [atPrompt.directory] at mapped onList
    have inside := pdx_lt_userEntries below
    have named := entryTarget_of_ne (ne_zero_of_present mapped.table)
    have page : entryAt σ image.directory va =
        σ.memory (entryFrame (σ.memory image.directory (pdx va))) (ptx va) :=
      pageEntry_of_table named _
    have target := entryTarget_of_ne (page ▸ ne_zero_of_present mapped.page)
    have member := (wf.linked.reaches_iff _).mp onList
    exact (wf.page_facts inside (ptx_lt va) target).2.2.2 member

/-- In every run from boot of commands that spare what boot has left, the frames are safe in
every state, and no such command stops. -/
theorem promptSafe_of_spares {baseReading extendedReading : BitVec 16} {machine σ : State}
    (booted : fosInitialize image baseReading extendedReading machine = .ok vm)
    (reached : Runs.Reachable (fun σ command σ' => PromptCommand.Spares vm σ command ∧
      command.run vm.ptrPageDirectory σ = .ok σ') vm.state σ) :
    FramesSafe vm σ ∧ ∀ command : PromptCommand, command.Spares vm σ →
      ∃ σ', command.run vm.ptrPageDirectory σ = .ok σ' := by
  have atPrompt := fosInitialize_atPrompt booted
  have preserved : ∀ state command next,
      (∃ held free, Spared image.directory (firstFreeFrame vm.state) vm.state held free state) →
      PromptCommand.Spares vm state command ∧ command.run vm.ptrPageDirectory state = .ok next →
      ∃ held free, Spared image.directory (firstFreeFrame vm.state) vm.state held free next := by
    rintro state command next ⟨held, free, spared⟩ ⟨spares, result⟩
    obtain ⟨next', held', free', result', spared'⟩ := spared.run atPrompt spares
    rw [result] at result'
    cases result'
    exact ⟨held', free', spared'⟩
  obtain ⟨held, free, spared⟩ :=
    Runs.Reachable.preserves preserved reached ⟨_, atPrompt.spared⟩
  refine ⟨spared.framesSafe atPrompt, ?_⟩
  intro command spares
  obtain ⟨σ', _, _, result, _⟩ := spared.run atPrompt spares
  exact ⟨σ', result⟩

/-- `fp f0000000` after any boot: the one reference of frame 0 is given up for a mapping that
was never counted. -/
theorem AtPrompt.not_promptSafe (atPrompt : AtPrompt image vm) : ¬PromptSafe vm := by
  intro safe
  obtain ⟨free, spared⟩ := atPrompt.spared
  obtain ⟨table, named, target⟩ := atPrompt.frameZero
  have low := atPrompt.low
  have high := atPrompt.high
  have window : pdx kernelBase = 960 := by decide
  have slot : ptx kernelBase = 0 := by decide
  have bound : 0 < vm.state.numberOfFrames := by omega
  have inUse : heldSinceBoot (firstFreeFrame vm.state) vm.state.numberOfFrames 0 = 1 := by
    rw [heldSinceBoot, if_neg]
    rw [mem_freeAfterBoot]
    omega
  have single : vm.state.references 0 = 1 := spared.inUse 0 bound inUse
  have kernelWindow : KernelWindow 960 := kernelWindow_iff.mpr (by omega)
  obtain ⟨table', named', _, _, tableBound, _⟩ :=
    spared.window_table atPrompt.kernelHalf high kernelWindow
  rw [named] at named'
  cases named'
  have typed : (strtol ("f0000000".toList.map char) 16).1 = kernelBase := by decide
  have result : commandFp vm.state vm.ptrPageDirectory ("f0000000".toList.map char) =
      .ok (dropMapping vm.state image.directory table 0 kernelBase) := by
    rw [commandFp, typed, atPrompt.directory]
    refine unmapFrame_of_entry ?_ tableBound ?_ bound
    · rw [window]
      exact named
    · rw [slot]
      exact target
  have reached : Runs.Reachable (fun σ command σ' =>
      PromptCommand.run vm.ptrPageDirectory command σ = .ok σ') vm.state
      (dropMapping vm.state image.directory table 0 kernelBase) :=
    ⟨[.fp ("f0000000".toList.map char)], .cons result (.nil _)⟩
  refine ((safe _ reached).1.reserved 0 (Or.inl rfl)) (LinkedList.Reaches.here ?_)
  rw [freeFrameList_dropMapping, if_pos single]
  simp [LinkedList.load_insertHead]

end Runs

theorem fourMegabytes_atPrompt : ∃ vm,
    fosInitialize exampleImage 640 3072 (fourMegabytes 0) = .ok vm ∧ AtPrompt exampleImage vm := by
  obtain ⟨vm, booted⟩ := fosInitialize_returns exampleImage 640 3072 (fourMegabytes 0) (by decide)
  exact ⟨vm, booted, fosInitialize_atPrompt booted⟩

/-- A page is mapped at address 0. -/
theorem promptSafe_of_spares_apZero : ∃ vm σ,
    fosInitialize exampleImage 640 3072 (fourMegabytes 0) = .ok vm ∧
      commandAp vm.state vm.ptrPageDirectory [char '0'] = .ok σ ∧ FramesSafe vm σ := by
  obtain ⟨vm, booted, atPrompt⟩ := fourMegabytes_atPrompt
  have typed : (strtol [char '0'] 16).1 = 0 := by decide
  have empty : vm.state.memory exampleImage.directory 0 = 0 :=
    atPrompt.user 0 (by rw [userEntries_eq]; omega)
  have spares : PromptCommand.Spares vm vm.state (.ap [char '0']) := by
    rw [PromptCommand.Spares, typed, atPrompt.directory]
    refine ⟨?_, ?_, Or.inr empty⟩
    · rw [listingWindow_iff]
      decide
    · rw [entryAt, pdx_zero, pageEntry_of_no_table empty]
      exact fun both => not_present_zero both.1
  obtain ⟨free, spared⟩ := atPrompt.spared
  obtain ⟨σ, _, _, result, _⟩ := spared.run atPrompt spares
  exact ⟨vm, σ, booted, result,
    (promptSafe_of_spares booted ⟨[.ap [char '0']], .cons ⟨spares, result⟩ (.nil σ)⟩).1⟩

theorem not_promptSafe_fourMegabytes : ∃ vm,
    fosInitialize exampleImage 640 3072 (fourMegabytes 0) = .ok vm ∧ ¬PromptSafe vm := by
  obtain ⟨vm, booted, atPrompt⟩ := fourMegabytes_atPrompt
  exact ⟨vm, booted, atPrompt.not_promptSafe⟩

end FosV2
