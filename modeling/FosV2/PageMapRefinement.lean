import FosV2.InitializePaging

/-!
The purpose of `map_frame` and `unmap_frame`: a map from the pages below `USER_TOP` to
frames, seen through `check_va2pa`. The two-level tables, the allocation of a table on the
way and the release of a replaced frame do not show in it.
-/

namespace FosV2

open IntrusiveList TwoLevelTable

abbrev UserPage := Fin (userEntries * nptEntries)

def pageOf (va : Word) (below : va < userTop) : UserPage :=
  ⟨ppn va, by
    have inside := pdx_lt_userEntries below
    have slot := ptx_lt va
    have split := ppn_eq_pdx_ptx va
    rw [userEntries_eq, nptEntries_eq] at *
    omega⟩

abbrev PageMap := UserPage → Option Nat

namespace PageMap

def map (pages : PageMap) (page : UserPage) (frame : Nat) : PageMap :=
  Function.update pages page (some frame)

def unmap (pages : PageMap) (page : UserPage) : PageMap :=
  Function.update pages page none

end PageMap

def translation : Option Nat → Word
  | none => ~~~0
  | some frame => toPhysicalAddress frame

structure Observes (σ : State) (pgdir : Nat) (pages : PageMap) : Prop where
  frames : ∀ page frame, pages page = some frame → frame < 1048576
  translations : ∀ va below, checkVa2pa σ pgdir va = .ok (translation (pages (pageOf va below)))

def pageMap (σ : State) (pgdir : Nat) : PageMap :=
  fun page => entryTarget (pageEntry σ pgdir (page / nptEntries) (page % nptEntries))

theorem pageMap_pageOf (σ : State) (pgdir : Nat) {va : Word} (below : va < userTop) :
    pageMap σ pgdir (pageOf va below) = entryTarget (pageEntry σ pgdir (pdx va) (ptx va)) := by
  simp only [pageMap, pageOf, ppn_div, ppn_mod]

theorem translation_injective {first second : Option Nat}
    (firstFits : ∀ frame, first = some frame → frame < 1048576)
    (secondFits : ∀ frame, second = some frame → frame < 1048576)
    (same : translation first = translation second) : first = second := by
  have aligned {frame : Nat} (fits : frame < 1048576) : toPhysicalAddress frame ≠ ~~~0 := by
    intro equal
    have number := congrArg BitVec.toNat equal
    rw [toPhysicalAddress_toNat fits] at number
    have ones : (~~~(0 : Word)).toNat = 4294967295 := by decide
    omega
  cases first with
  | none =>
      cases second with
      | none => rfl
      | some frame => exact absurd same.symm (aligned (secondFits frame rfl))
  | some frame =>
      cases second with
      | none => exact absurd same (aligned (firstFits frame rfl))
      | some other =>
          have equal : toPhysicalAddress frame = toPhysicalAddress other := same
          rw [← ppn_toPhysicalAddress (firstFits frame rfl), equal,
            ppn_toPhysicalAddress (secondFits other rfl)]

theorem page_fits (page : UserPage) : page.val < 977920 := by
  have total : userEntries * nptEntries = 977920 := by rw [userEntries_eq, nptEntries_eq]
  exact lt_of_lt_of_eq page.isLt total

theorem page_directory_lt (page : UserPage) : page.val / nptEntries < userEntries := by
  apply Nat.div_lt_of_lt_mul
  exact lt_of_lt_of_eq page.isLt (Nat.mul_comm _ _)

def pageAddress (page : UserPage) : Word := toPhysicalAddress page.val

theorem pageAddress_below (page : UserPage) : pageAddress page < userTop := by
  have bound := page_fits page
  have fits : page.val < 1048576 := by omega
  have number : (pageAddress page).toNat = page.val * 4096 := toPhysicalAddress_toNat fits
  have top : userTop.toNat = 4005560320 := by decide
  rw [BitVec.lt_def, number, top]
  omega

theorem pageOf_pageAddress (page : UserPage) :
    pageOf (pageAddress page) (pageAddress_below page) = page := by
  have bound := page_fits page
  have fits : page.val < 1048576 := by omega
  exact Fin.ext (ppn_toPhysicalAddress fits)

theorem Observes.unique {σ : State} {pgdir : Nat} {first second : PageMap}
    (firstSeen : Observes σ pgdir first) (secondSeen : Observes σ pgdir second) :
    first = second := by
  funext page
  have one := firstSeen.translations (pageAddress page) (pageAddress_below page)
  have two := secondSeen.translations (pageAddress page) (pageAddress_below page)
  rw [pageOf_pageAddress] at one two
  apply translation_injective (firstSeen.frames page) (secondSeen.frames page)
  exact Except.ok.inj (one.symm.trans two)

/-! What `check_va2pa` answers. -/

theorem checkVa2pa_eq {σ : State} {pgdir : Nat} {va : Word}
    (fits : σ.numberOfFrames ≤ 65536)
    (table : σ.memory pgdir (pdx va) ≠ 0 → present (σ.memory pgdir (pdx va)) ∧
      entryFrame (σ.memory pgdir (pdx va)) < σ.numberOfFrames)
    (page : pageEntry σ pgdir (pdx va) (ptx va) ≠ 0 →
      present (pageEntry σ pgdir (pdx va) (ptx va)) ∧
        entryFrame (pageEntry σ pgdir (pdx va) (ptx va)) < σ.numberOfFrames) :
    checkVa2pa σ pgdir va =
      .ok (translation (entryTarget (pageEntry σ pgdir (pdx va) (ptx va)))) := by
  by_cases absent : σ.memory pgdir (pdx va) = 0
  · rw [pageEntry_of_no_table absent]
    simp only [checkVa2pa, absent, not_present_zero, not_false_eq_true, if_true]
    rfl
  · obtain ⟨isPresent, bound⟩ := table absent
    have named : pageTable σ pgdir (pdx va) = some (entryFrame (σ.memory pgdir (pdx va))) :=
      entryTarget_of_ne absent
    have pointer : kVirtualAddress σ (extractAddress (σ.memory pgdir (pdx va))) =
        .ok (entryFrame (σ.memory pgdir (pdx va))) := kVirtualAddress_of_lt bound
    rw [pageEntry_of_table named] at page ⊢
    simp only [checkVa2pa, isPresent, not_true_eq_false, if_false, pointer, ok_bind]
    by_cases vacant : σ.memory (entryFrame (σ.memory pgdir (pdx va))) (ptx va) = 0
    · simp only [vacant, not_present_zero, not_false_eq_true, if_true]
      rfl
    · obtain ⟨mapped, frameBound⟩ := page vacant
      have address := (extractAddress_eq_iff (by omega)).mpr
        (rfl : entryFrame (σ.memory (entryFrame (σ.memory pgdir (pdx va))) (ptx va)) = _)
      simp only [mapped, not_true_eq_false, if_false, entryTarget_of_ne vacant, translation]
      rw [← address]
      rfl

section Refinement

variable {pgdir : Nat} {held : Nat → Nat} {free : List Nat} {σ σ' : State} {va : Word}

theorem WellFormed.checkVa2pa_eq (wf : WellFormed pgdir held free σ)
    (inside : pdx va < userEntries) : checkVa2pa σ pgdir va =
      .ok (translation (entryTarget (pageEntry σ pgdir (pdx va) (ptx va)))) := by
  apply FosV2.checkVa2pa_eq wf.frameBound
  · intro nonzero
    have facts := wf.tables _ inside nonzero
    exact ⟨facts.1, facts.2.1⟩
  · exact wf.pages _ inside _ (ptx_lt va)

theorem WellFormed.observes (wf : WellFormed pgdir held free σ) :
    Observes σ pgdir (pageMap σ pgdir) := by
  constructor
  · intro page frame maps
    have inside := page_directory_lt page
    have below : page % nptEntries < nptEntries := Nat.mod_lt _ (by rw [nptEntries_eq]; omega)
    have facts := wf.page_facts inside below maps
    have fits := wf.frameBound
    omega
  · intro va below
    rw [pageMap_pageOf]
    exact wf.checkVa2pa_eq (pdx_lt_userEntries below)

theorem Observes.page_write (wf : WellFormed pgdir held free σ) {pages : PageMap}
    (observes : Observes σ pgdir pages) (below : va < userTop) {table : Nat} {value : Word}
    (named : pageTable σ pgdir (pdx va) = some table)
    (written : σ'.memory = TwoLevelTable.write σ.memory table (ptx va) value)
    (sameFrames : σ'.numberOfFrames = σ.numberOfFrames)
    (legal : value ≠ 0 → present value ∧ entryFrame value < σ.numberOfFrames) :
    Observes σ' pgdir (Function.update pages (pageOf va below) (entryTarget value)) := by
  have inside := pdx_lt_userEntries below
  have fits := wf.frameBound
  have directory := directory_of_page_write wf inside named written
  constructor
  · intro page frame maps
    by_cases same : page = pageOf va below
    · rw [same, Function.update_self] at maps
      obtain ⟨nonzero, eq⟩ := entryTarget_eq_some_iff.mp maps
      have := (legal nonzero).2
      omega
    · rw [Function.update_of_ne same] at maps
      exact observes.frames page frame maps
  · intro va' below'
    have inside' := pdx_lt_userEntries below'
    have entry := pageEntry_of_page_write wf inside named written inside' (ptx va')
    have answer : checkVa2pa σ' pgdir va' =
        .ok (translation (entryTarget (pageEntry σ' pgdir (pdx va') (ptx va')))) := by
      apply FosV2.checkVa2pa_eq
      · rw [sameFrames]
        exact fits
      · rw [directory, sameFrames]
        intro nonzero
        have facts := wf.tables _ inside' nonzero
        exact ⟨facts.1, facts.2.1⟩
      · rw [entry, sameFrames]
        split
        · exact legal
        · exact wf.pages _ inside' _ (ptx_lt va')
    rw [answer, entry]
    by_cases same : pdx va' = pdx va ∧ ptx va' = ptx va
    · have samePage : pageOf va' below' = pageOf va below := by
        apply Fin.ext
        change ppn va' = ppn va
        rw [ppn_eq_pdx_ptx, ppn_eq_pdx_ptx, same.1, same.2]
      rw [if_pos same, samePage, Function.update_self]
    · have otherPage : pageOf va' below' ≠ pageOf va below := by
        intro equal
        have numbers : ppn va' = ppn va := Fin.mk.inj equal
        rw [ppn_eq, ppn_eq] at numbers
        apply same
        rw [pdx_eq, pdx_eq, ptx_eq, ptx_eq]
        omega
      rw [if_neg same, Function.update_of_ne otherPage, ← wf.checkVa2pa_eq inside']
      exact observes.translations va' below'

theorem writeMapping_observes (wf : WellFormed pgdir held free σ) {pages : PageMap}
    (observes : Observes σ pgdir pages) (below : va < userTop) {table frame : Nat}
    (named : pageTable σ pgdir (pdx va) = some table) (bound : frame < σ.numberOfFrames)
    {perm : Word} (small : perm.toNat < 4096) :
    Observes (writeMapping σ frame table va perm) pgdir (pages.map (pageOf va below) frame) := by
  have limit := wf.frameBound
  have fits : frame < 1048576 := by omega
  have written := observes.page_write wf below named
    (memory_writeMapping σ frame table va perm) (numberOfFrames_writeMapping σ frame table va perm)
    (fun _ => ⟨present_constructEntry _ _, by
      rw [entryFrame_constructEntry fits (or_present_toNat_lt small)]
      exact bound⟩)
  rw [entryTarget_constructEntry fits small] at written
  exact written

theorem dropMapping_observes (wf : WellFormed pgdir held free σ) {pages : PageMap}
    (observes : Observes σ pgdir pages) (below : va < userTop) {table frame : Nat}
    (named : pageTable σ pgdir (pdx va) = some table) :
    Observes (dropMapping σ pgdir table frame va) pgdir (pages.unmap (pageOf va below)) := by
  have written := observes.page_write wf below named
    (memory_dropMapping σ pgdir table frame va) (numberOfFrames_dropMapping σ pgdir table frame va)
    (fun nonzero => absurd rfl nonzero)
  rw [entryTarget_zero] at written
  exact written

theorem pageMap_unmap (below : va < userTop)
    (vacant : pageEntry σ' pgdir (pdx va) (ptx va) = 0)
    (otherPages : ∀ i < userEntries, ∀ j, ¬(i = pdx va ∧ j = ptx va) →
      pageEntry σ' pgdir i j = pageEntry σ pgdir i j) :
    pageMap σ' pgdir = (pageMap σ pgdir).unmap (pageOf va below) := by
  funext page
  by_cases same : page = pageOf va below
  · rw [same, pageMap_pageOf, vacant, PageMap.unmap, Function.update_self, entryTarget_zero]
  · rw [PageMap.unmap, Function.update_of_ne same, pageMap, pageMap,
      otherPages _ (page_directory_lt page)]
    rintro ⟨directory, slot⟩
    apply same
    apply Fin.ext
    change page.val = ppn va
    rw [ppn_eq_pdx_ptx, ← directory, ← slot]
    exact (Nat.div_add_mod' page.val nptEntries).symm

theorem mapFrame_refines (wf : WellFormed pgdir held free σ) {pages : PageMap}
    (observes : Observes σ pgdir pages) (below : va < userTop) {frame : Nat}
    (bound : frame < σ.numberOfFrames) {perm : Word} (small : perm.toNat < 4096) :
    ∃ result σ', mapFrame σ pgdir (some frame) va perm = .ok (result, σ') ∧
      ((result = 0 ∧ Observes σ' pgdir (pages.map (pageOf va below) frame)) ∨
        (result = eNoMem ∧ σ' = σ)) := by
  have inside := pdx_lt_userEntries below
  have seen : pages = pageMap σ pgdir := observes.unique wf.observes
  rcases mapFrame_cases wf inside bound perm with
    ⟨_, _, result⟩ | ⟨maps, result⟩ | ⟨σ', free', table, ready, result⟩
  · exact ⟨_, _, result, Or.inr ⟨rfl, rfl⟩⟩
  · refine ⟨_, _, result, Or.inl ⟨rfl, ?_⟩⟩
    have same : pages.map (pageOf va below) frame = pages := by
      rw [PageMap.map, ← maps, ← pageMap_pageOf σ pgdir below, ← seen, Function.update_eq_self]
    rw [same]
    exact observes
  · refine ⟨_, _, result, Or.inl ⟨rfl, ?_⟩⟩
    have bound' : frame < σ'.numberOfFrames := by rw [ready.sameFrames]; exact bound
    have mapped := writeMapping_observes ready.wf ready.wf.observes below ready.named bound' small
    rw [pageMap_unmap below ready.vacant ready.otherPages, ← seen] at mapped
    have twice : (pages.unmap (pageOf va below)).map (pageOf va below) frame =
        pages.map (pageOf va below) frame := Function.update_idem _ _ _
    rw [twice] at mapped
    exact mapped

theorem unmapFrame_refines (wf : WellFormed pgdir held free σ) {pages : PageMap}
    (observes : Observes σ pgdir pages) (below : va < userTop) :
    ∃ σ', unmapFrame σ pgdir va = .ok σ' ∧ Observes σ' pgdir (pages.unmap (pageOf va below)) ∧
      (pages (pageOf va below) = none → σ' = σ) := by
  have inside := pdx_lt_userEntries below
  have seen : pages (pageOf va below) = entryTarget (pageEntry σ pgdir (pdx va) (ptx va)) := by
    rw [observes.unique wf.observes, pageMap_pageOf]
  cases maps : entryTarget (pageEntry σ pgdir (pdx va) (ptx va)) with
  | none =>
      have unmapped : pages.unmap (pageOf va below) = pages := by
        rw [PageMap.unmap, ← maps, ← seen, Function.update_eq_self]
      refine ⟨σ, unmapFrame_unmapped wf inside (entryTarget_eq_none_iff.mp maps), ?_, fun _ => rfl⟩
      rw [unmapped]
      exact observes
  | some frame =>
      obtain ⟨table, named, _⟩ := table_of_page maps
      refine ⟨_, unmapFrame_mapped wf inside named maps, ?_, ?_⟩
      · exact dropMapping_observes wf observes below named
      · intro unmapped
        rw [seen, maps] at unmapped
        exact absurd unmapped (by simp)

/-- One call is one operation on the map that `check_va2pa` shows. -/
theorem pageMap_refinement (wf : WellFormed pgdir held free σ) (below : va < userTop) :
    ∃ pages, Observes σ pgdir pages ∧ (∀ other, Observes σ pgdir other → other = pages) ∧
      (∀ frame < σ.numberOfFrames, frame ∉ free → ∀ perm : Word, perm.toNat < 4096 →
        ∃ result σ', mapFrame σ pgdir (some frame) va perm = .ok (result, σ') ∧
          ((result = 0 ∧ Observes σ' pgdir (pages.map (pageOf va below) frame)) ∨
            (result = eNoMem ∧ Observes σ' pgdir pages ∧ σ'.references = σ.references ∧
              σ'.freeFrameList = σ.freeFrameList))) ∧
      ∃ σ', unmapFrame σ pgdir va = .ok σ' ∧
        Observes σ' pgdir (pages.unmap (pageOf va below)) ∧
        (pages (pageOf va below) = none → σ' = σ) := by
  refine ⟨pageMap σ pgdir, wf.observes, fun other seen => seen.unique wf.observes, ?_, ?_⟩
  · intro frame bound _ perm small
    obtain ⟨result, σ', returned, outcome⟩ := mapFrame_refines wf wf.observes below bound small
    refine ⟨result, σ', returned, ?_⟩
    rcases outcome with success | ⟨failed, unchanged⟩
    · exact Or.inl success
    · subst unchanged
      exact Or.inr ⟨failed, wf.observes, rfl, rfl⟩
  · exact unmapFrame_refines wf wf.observes below

end Refinement

/-- Frame 200 lies in the I/O hole, so it is off the list from the start. -/
theorem pageMap_refinement_smallMachine :
    ∃ pages, Observes smallMachineBooted 256 pages ∧
      ∃ result σ, mapFrame smallMachineBooted 256 (some 200) 0x1000 6 = .ok (result, σ) ∧
        ((result = 0 ∧ Observes σ 256 (pages.map (pageOf 0x1000 (by decide)) 200)) ∨
          (result = eNoMem ∧ Observes σ 256 pages)) := by
  have frames := smallMachineBooted_frames
  have offList : 200 ∉ freeAfterBoot 257 smallMachineBooted.numberOfFrames := by
    rw [mem_freeAfterBoot]
    omega
  obtain ⟨pages, observes, _, maps, _⟩ := pageMap_refinement smallMachineBooted_left.wellFormed
    (by decide : (0x1000 : Word) < userTop)
  obtain ⟨result, σ, returned, outcome⟩ := maps 200 (by omega) offList 6 (by decide)
  refine ⟨pages, observes, result, σ, returned, ?_⟩
  rcases outcome with success | ⟨failed, unchanged, _⟩
  · exact Or.inl success
  · exact Or.inr ⟨failed, unchanged⟩

end FosV2
