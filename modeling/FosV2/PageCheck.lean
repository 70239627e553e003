import FosV2.KernelVM

/-!
`page_check` of `kern/helpers.c`: the boot-time test of the frame allocator and of the
mapping functions, on the directory of the kernel. It takes three frames, hides the rest of
the free list, and gives everything back when its assertions have held.
-/

namespace FosV2

open IntrusiveList LinkedList TwoLevelTable

/-! The forms its assertions take. -/

/-- `assert(allocate_frame(&pp) == 0)` -/
def assertAllocates (σ : State) : Except Stop (Nat × State) := do
  let (frame, σ) ← allocateFrame σ
  match frame with
  | some frame => return (frame, σ)
  | none => throw .assertionFailed

/-- `assert(allocate_frame(&pp) == E_NO_MEM)` -/
def assertExhausted (σ : State) : Except Stop State := do
  let (frame, σ) ← allocateFrame σ
  assertThat (frame = none)
  return σ

/-- `assert(map_frame(pgdir, frame, va, 0) == 0)` -/
def assertMaps (σ : State) (pgdir frame : Nat) (va : Word) : Except Stop State := do
  let (err, σ) ← mapFrame σ pgdir (some frame) va 0
  assertThat (err = 0)
  return σ

/-- `assert(map_frame(pgdir, frame, va, 0) < 0)` -/
def assertMapFails (σ : State) (pgdir frame : Nat) (va : Word) : Except Stop State := do
  let (err, σ) ← mapFrame σ pgdir (some frame) va 0
  assertThat (err.slt 0)
  return σ

/-- `assert(check_va2pa(pgdir, va) == pa)` -/
def assertTranslates (σ : State) (pgdir : Nat) (va pa : Word) : Except Stop Unit := do
  let found ← checkVa2pa σ pgdir va
  assertThat (found = pa)

def checkMapping (σ : State) (pgdir pp0 pp1 pp2 : Nat) : Except Stop State := do
  let σ ← assertExhausted σ
  let σ ← assertMapFails σ pgdir pp1 0
  let σ := freeFrame σ pp0
  let σ ← assertMaps σ pgdir pp1 0
  assertThat (extractAddress (σ.memory pgdir 0) = toPhysicalAddress pp0)
  assertTranslates σ pgdir 0 (toPhysicalAddress pp1)
  assertThat (σ.references pp1 = 1)
  assertThat (σ.references pp0 = 1)
  let σ ← assertMaps σ pgdir pp2 pageSize
  assertTranslates σ pgdir pageSize (toPhysicalAddress pp2)
  assertThat (σ.references pp2 = 1)
  let σ ← assertExhausted σ
  let σ ← assertMaps σ pgdir pp2 pageSize
  assertTranslates σ pgdir pageSize (toPhysicalAddress pp2)
  assertThat (σ.references pp2 = 1)
  let σ ← assertExhausted σ
  assertMapFails σ pgdir pp0 ptSize

def checkReplacing (σ : State) (pgdir pp1 pp2 : Nat) : Except Stop State := do
  let σ ← assertMaps σ pgdir pp1 pageSize
  assertTranslates σ pgdir 0 (toPhysicalAddress pp1)
  assertTranslates σ pgdir pageSize (toPhysicalAddress pp1)
  assertThat (σ.references pp1 = 2)
  assertThat (σ.references pp2 = 0)
  let (pp, σ) ← assertAllocates σ
  assertThat (pp = pp2)
  return σ

def checkUnmapping (σ : State) (pgdir pp1 pp2 : Nat) : Except Stop State := do
  let σ ← unmapFrame σ pgdir 0
  assertTranslates σ pgdir 0 (~~~0)
  assertTranslates σ pgdir pageSize (toPhysicalAddress pp1)
  assertThat (σ.references pp1 = 1)
  assertThat (σ.references pp2 = 0)
  let σ ← unmapFrame σ pgdir pageSize
  assertTranslates σ pgdir 0 (~~~0)
  assertTranslates σ pgdir pageSize (~~~0)
  assertThat (σ.references pp1 = 0)
  assertThat (σ.references pp2 = 0)
  let (pp, σ) ← assertAllocates σ
  assertThat (pp = pp1)
  assertExhausted σ

def pageCheck (σ : State) (pgdir : Nat) : Except Stop State := do
  let (pp0, σ) ← assertAllocates σ
  let (pp1, σ) ← assertAllocates σ
  let (pp2, σ) ← assertAllocates σ
  assertThat (pp1 ≠ pp0)
  assertThat (pp2 ≠ pp1 ∧ pp2 ≠ pp0)
  let fl := σ.freeFrameList.lhFirst
  let σ := { σ with freeFrameList := σ.freeFrameList.init }
  let σ ← checkMapping σ pgdir pp0 pp1 pp2
  let σ ← checkReplacing σ pgdir pp1 pp2
  let σ ← checkUnmapping σ pgdir pp1 pp2
  assertThat (extractAddress (σ.memory pgdir 0) = toPhysicalAddress pp0)
  let σ := σ.setWord pgdir 0 0
  assertThat (σ.references pp0 = 1)
  let σ := σ.setReferences pp0 0
  let σ := { σ with freeFrameList := { σ.freeFrameList with lhFirst := fl } }
  let σ := freeFrame σ pp0
  let σ := freeFrame σ pp1
  return freeFrame σ pp2

@[simp] theorem assertThat_true : assertThat true = .ok () := rfl

/-! What the calls leave alone: everything but the taken frames and directory entry 0. -/

structure Confined (pgdir : Nat) (taken : List Nat) (σ σ' : State) : Prop where
  sameFrames : σ'.numberOfFrames = σ.numberOfFrames
  pointer : σ'.ptrFreeMem = σ.ptrFreeMem
  entries : ∀ other ∉ taken, σ'.freeFrameList.entry other = σ.freeFrameList.entry other
  references : ∀ other ∉ taken, σ'.references other = σ.references other
  memory : ∀ other ∉ taken, other ≠ pgdir → σ'.memory other = σ.memory other
  directory : ∀ i, i ≠ 0 → σ'.memory pgdir i = σ.memory pgdir i

namespace Confined

variable {pgdir frame table : Nat} {taken free : List Nat} {σ σ' σ'' : State} {va : Word}

theorem trans (first : Confined pgdir taken σ σ') (second : Confined pgdir taken σ' σ'') :
    Confined pgdir taken σ σ'' where
  sameFrames := second.sameFrames.trans first.sameFrames
  pointer := second.pointer.trans first.pointer
  entries other outside := (second.entries other outside).trans (first.entries other outside)
  references other outside :=
    (second.references other outside).trans (first.references other outside)
  memory other outside different :=
    (second.memory other outside different).trans (first.memory other outside different)
  directory i later := (second.directory i later).trans (first.directory i later)

theorem allocated {rest : List Nat} (linked : σ.freeFrameList.WellLinked (frame :: rest))
    (inside : frame :: rest ⊆ taken) (result : allocateFrame σ = .ok (some frame, σ')) :
    Confined pgdir taken σ σ' := by
  have member : frame ∈ taken := inside (by simp)
  obtain ⟨removed, removedEq, _⟩ := linked.removeFirst
  have first : σ.freeFrameList.lhFirst = some frame := linked.lhFirst_eq
  simp only [allocateFrame, first, removedEq] at result
  have initialized := (Prod.mk.inj (Except.ok.inj result)).2
  subst initialized
  have place : σ.freeFrameList.WellLinked ([] ++ frame :: rest) := linked
  refine ⟨rfl, rfl, ?_, ?_, fun _ _ _ => rfl, fun _ _ => rfl⟩
  · intro other outside
    have different : other ≠ frame := fun same => outside (same ▸ member)
    exact (entry_setEntry_of_ne _ _ different).trans
      (place.entry_remove removedEq fun belongs => outside (inside belongs))
  · intro other outside
    exact Function.update_of_ne (fun same : other = frame => outside (same ▸ member)) _ _

theorem freed (linked : σ.freeFrameList.WellLinked free) (inside : free ⊆ taken)
    (member : frame ∈ taken) : Confined pgdir taken σ (freeFrame σ frame) := by
  refine ⟨rfl, rfl, ?_, fun _ _ => rfl, fun _ _ _ => rfl, fun _ _ => rfl⟩
  intro other outside
  apply linked.entry_insertHead
  intro belongs
  rcases List.mem_cons.mp belongs with rfl | belongs
  · exact outside member
  · exact outside (inside belongs)

theorem install (member : table ∈ taken) (apart : pgdir ∉ taken) :
    Confined pgdir taken σ (installTable σ pgdir 0 table) := by
  have different : pgdir ≠ table := fun same => apart (same ▸ member)
  refine ⟨rfl, rfl, fun _ _ => rfl, ?_, ?_, ?_⟩
  · intro other outside
    exact Function.update_of_ne (fun same : other = table => outside (same ▸ member)) _ _
  · intro other outside notDirectory
    have notTable : other ≠ table := fun same => outside (same ▸ member)
    funext j
    simp [memory_installTable, notDirectory, notTable]
  · intro i later
    simp [memory_installTable, later, different]

theorem writeMapping (perm : Word) (frameTaken : frame ∈ taken) (tableTaken : table ∈ taken)
    (apart : pgdir ∉ taken) :
    Confined pgdir taken σ (writeMapping σ frame table va perm) := by
  have different : pgdir ≠ table := fun same => apart (same ▸ tableTaken)
  refine ⟨rfl, rfl, fun _ _ => rfl, ?_, ?_, ?_⟩
  · intro other outside
    exact Function.update_of_ne (fun same : other = frame => outside (same ▸ frameTaken)) _ _
  · intro other outside _
    have notTable : other ≠ table := fun same => outside (same ▸ tableTaken)
    rw [memory_writeMapping, write_other notTable]
  · intro i _
    rw [memory_writeMapping, write_other different]

theorem dropMapping (linked : σ.freeFrameList.WellLinked free) (inside : free ⊆ taken)
    (frameTaken : frame ∈ taken) (tableTaken : table ∈ taken) (apart : pgdir ∉ taken) :
    Confined pgdir taken σ (dropMapping σ pgdir table frame va) := by
  have different : pgdir ≠ table := fun same => apart (same ▸ tableTaken)
  have freed : Confined pgdir taken σ (freeFrame σ frame) := .freed linked inside frameTaken
  have inserted := freed.entries
  refine ⟨numberOfFrames_dropMapping σ pgdir table frame va, ?_, ?_, ?_, ?_, ?_⟩
  · rw [dropMapping_eq]
  · intro other outside
    rw [freeFrameList_dropMapping]
    split
    · exact inserted other outside
    · rfl
  · intro other outside
    rw [references_dropMapping]
    exact Function.update_of_ne (fun same : other = frame => outside (same ▸ frameTaken)) _ _
  · intro other outside _
    have notTable : other ≠ table := fun same => outside (same ▸ tableTaken)
    rw [memory_dropMapping, write_other notTable]
  · intro i _
    rw [memory_dropMapping, write_other different]

end Confined

/-! The check between its first mapping and the end: `pp0` is the page table behind entry 0,
`pages` what its entries name, `counts` the reference counters. -/

structure Checking (σ₀ : State) (pgdir : Nat) (held : Nat → Nat) (pp0 : Nat) (taken free : List Nat)
    (pages : Nat → Option Nat) (counts : Nat → BitVec 16) (σ : State) : Prop where
  wf : WellFormed pgdir held free σ
  confined : Confined pgdir taken σ₀ σ
  named : pageTable σ pgdir 0 = some pp0
  target : ∀ j, entryTarget (pageEntry σ pgdir 0 j) = pages j
  references : σ.references = counts

namespace Checking

variable {σ₀ σ : State} {pgdir pp0 frame other : Nat} {held : Nat → Nat} {taken free : List Nat}
  {pages : Nat → Option Nat} {counts : Nat → BitVec 16} {va : Word}

theorem inside_zero (first : pdx va = 0) : pdx va < userEntries := by
  rw [first, userEntries_eq]
  omega

theorem allocate {rest : List Nat}
    (checking : Checking σ₀ pgdir held pp0 taken (frame :: rest) pages counts σ)
    (inside : frame :: rest ⊆ taken) :
    ∃ σ', assertAllocates σ = .ok (frame, σ') ∧
      Checking σ₀ pgdir held pp0 taken rest pages counts σ' := by
  obtain ⟨list, allocated, wf, _⟩ := allocateFrame_cons checking.wf
  refine ⟨_, ?_, wf, ?_, checking.named, checking.target, checking.references⟩
  · rw [assertAllocates, allocated]
    rfl
  · exact checking.confined.trans (Confined.allocated checking.wf.linked inside allocated)

theorem exhausted (checking : Checking σ₀ pgdir held pp0 taken [] pages counts σ) :
    assertExhausted σ = .ok σ := by
  rw [assertExhausted, allocateFrame_empty checking.wf]
  rfl

theorem tableAddress (checking : Checking σ₀ pgdir held pp0 taken free pages counts σ) :
    extractAddress (σ.memory pgdir 0) = toPhysicalAddress pp0 :=
  (checking.wf.table_facts (by rw [userEntries_eq]; omega) checking.named).2.1

theorem checkVa2pa_eq (checking : Checking σ₀ pgdir held pp0 taken free pages counts σ)
    (first : pdx va = 0) : checkVa2pa σ pgdir va =
      if present (σ.memory pp0 (ptx va)) then .ok (extractAddress (σ.memory pp0 (ptx va)))
      else .ok (~~~0) := by
  have named : pageTable σ pgdir (pdx va) = some pp0 := first ▸ checking.named
  obtain ⟨_, table⟩ := entryTarget_eq_some_iff.mp named
  have isPresent : ¬¬present (σ.memory pgdir (pdx va)) :=
    not_not.mpr (checking.wf.table_facts (inside_zero first) named).1
  simp only [checkVa2pa, isPresent, if_false, ok_bind,
    checking.wf.kVirtualAddress_entry (inside_zero first), table]
  by_cases mapped : present (σ.memory pp0 (ptx va))
  · simp only [mapped, not_true_eq_false, if_false, if_true]
    rfl
  · simp only [mapped, not_false_eq_true, if_false, if_true]
    rfl

theorem entry (checking : Checking σ₀ pgdir held pp0 taken free pages counts σ) (j : Nat) :
    entryTarget (σ.memory pp0 j) = pages j := by
  rw [← pageEntry_of_table checking.named, checking.target]

theorem translates (checking : Checking σ₀ pgdir held pp0 taken free pages counts σ)
    (first : pdx va = 0) (maps : pages (ptx va) = some frame) :
    assertTranslates σ pgdir va (toPhysicalAddress frame) = .ok () := by
  have target : entryTarget (pageEntry σ pgdir (pdx va) (ptx va)) = some frame := by
    rw [first, checking.target, maps]
  obtain ⟨mapped, address, _⟩ :=
    checking.wf.page_facts (inside_zero first) (ptx_lt va) target
  rw [first, pageEntry_of_table checking.named] at mapped address
  simp only [assertTranslates, checking.checkVa2pa_eq first, mapped, if_true, ok_bind, address,
    decide_true, assertThat_true]

theorem doesNotTranslate (checking : Checking σ₀ pgdir held pp0 taken free pages counts σ)
    (first : pdx va = 0) (vacant : pages (ptx va) = none) :
    assertTranslates σ pgdir va (~~~0) = .ok () := by
  have empty : σ.memory pp0 (ptx va) = 0 := by
    rw [← entryTarget_eq_none_iff, checking.entry, vacant]
  simp only [assertTranslates, checking.checkVa2pa_eq first, empty, not_present_zero, if_false,
    ok_bind, decide_true, assertThat_true]

theorem write (checking : Checking σ₀ pgdir held pp0 taken free pages counts σ)
    (apart : pgdir ∉ taken) (tableTaken : pp0 ∈ taken) (first : pdx va = 0)
    (vacant : pages (ptx va) = none) (member : frame ∈ taken) (bound : frame < σ.numberOfFrames)
    (offList : frame ∉ free) (room : (counts frame).toNat < 65535) :
    Checking σ₀ pgdir held pp0 taken free (Function.update pages (ptx va) (some frame))
      (Function.update counts frame (counts frame + 1)) (writeMapping σ frame pp0 va 0) := by
  have wf := checking.wf
  have limit := wf.frameBound
  have inside := inside_zero first
  have named : pageTable σ pgdir (pdx va) = some pp0 := first ▸ checking.named
  have empty : pageEntry σ pgdir (pdx va) (ptx va) = 0 := by
    rw [first, ← entryTarget_eq_none_iff, checking.target, vacant]
  have written := memory_writeMapping σ frame pp0 va 0
  have countRoom : (σ.references frame).toNat < 65535 := checking.references ▸ room
  constructor
  · exact wf.writeMapping inside named empty bound offList (by decide) countRoom
  · exact checking.confined.trans (Confined.writeMapping 0 member tableTaken apart)
  · rw [pageTable_of_page_write wf inside named written]
    exact checking.named
  · intro j
    rw [pageEntry_of_page_write wf inside named written (first ▸ inside), first]
    by_cases here : j = ptx va
    · rw [if_pos ⟨rfl, here⟩, entryTarget_constructEntry (by omega) (by decide), here,
        Function.update_self]
    · rw [if_neg fun both => here both.2, Function.update_of_ne here]
      exact checking.target j
  · rw [references_writeMapping, checking.references]

theorem drop (checking : Checking σ₀ pgdir held pp0 taken free pages counts σ)
    (apart : pgdir ∉ taken) (tableTaken : pp0 ∈ taken) (first : pdx va = 0)
    (maps : pages (ptx va) = some frame) (member : frame ∈ taken) (allTaken : free ⊆ taken) :
    Checking σ₀ pgdir held pp0 taken (if counts frame = 1 then frame :: free else free)
      (Function.update pages (ptx va) none) (Function.update counts frame (counts frame - 1))
      (dropMapping σ pgdir pp0 frame va) := by
  have wf := checking.wf
  have inside := inside_zero first
  have named : pageTable σ pgdir (pdx va) = some pp0 := first ▸ checking.named
  have target : entryTarget (pageEntry σ pgdir (pdx va) (ptx va)) = some frame := by
    rw [first, checking.target, maps]
  have written := memory_dropMapping σ pgdir pp0 frame va
  constructor
  · have dropped := wf.dropMapping inside named target
    rwa [releaseTo, checking.references] at dropped
  · exact checking.confined.trans (Confined.dropMapping wf.linked allTaken member tableTaken apart)
  · rw [pageTable_of_page_write wf inside named written]
    exact checking.named
  · intro j
    rw [pageEntry_of_page_write wf inside named written (first ▸ inside), first]
    by_cases here : j = ptx va
    · rw [if_pos ⟨rfl, here⟩, here, Function.update_self, entryTarget_zero]
    · rw [if_neg fun both => here both.2, Function.update_of_ne here]
      exact checking.target j
  · rw [references_dropMapping, checking.references]

theorem unmaps (checking : Checking σ₀ pgdir held pp0 taken free pages counts σ)
    (first : pdx va = 0) (maps : pages (ptx va) = some frame) :
    unmapFrame σ pgdir va = .ok (dropMapping σ pgdir pp0 frame va) := by
  have target : entryTarget (pageEntry σ pgdir (pdx va) (ptx va)) = some frame := by
    rw [first, checking.target, maps]
  exact unmapFrame_mapped checking.wf (inside_zero first) (first ▸ checking.named) target

theorem mapsVacant (checking : Checking σ₀ pgdir held pp0 taken free pages counts σ)
    (first : pdx va = 0) (vacant : pages (ptx va) = none) (frame : Nat) :
    assertMaps σ pgdir frame va = .ok (writeMapping σ frame pp0 va 0) := by
  have wf := checking.wf
  have inside := inside_zero first
  have named : pageTable σ pgdir (pdx va) = some pp0 := first ▸ checking.named
  have empty : pageEntry σ pgdir (pdx va) (ptx va) = 0 := by
    rw [first, ← entryTarget_eq_none_iff, checking.target, vacant]
  have ready : TableReady pgdir held va free free σ σ pp0 :=
    ⟨wf, named, fun _ _ _ => rfl, Or.inl ⟨rfl, rfl⟩⟩
  rw [assertMaps, mapFrame_vacant inside (getPageTable_existing wf inside named true) ready empty]
  rfl

theorem mapsAgain (checking : Checking σ₀ pgdir held pp0 taken free pages counts σ)
    (first : pdx va = 0) (maps : pages (ptx va) = some frame) :
    assertMaps σ pgdir frame va = .ok σ := by
  have target : entryTarget (pageEntry σ pgdir (pdx va) (ptx va)) = some frame := by
    rw [first, checking.target, maps]
  rw [assertMaps, mapFrame_same checking.wf (inside_zero first) target]
  rfl

theorem mapsInstead (checking : Checking σ₀ pgdir held pp0 taken free pages counts σ)
    (first : pdx va = 0) (maps : pages (ptx va) = some other) (different : other ≠ frame)
    (bound : frame < σ.numberOfFrames) : assertMaps σ pgdir frame va =
      .ok (writeMapping (dropMapping σ pgdir pp0 other va) frame pp0 va 0) := by
  have target : entryTarget (pageEntry σ pgdir (pdx va) (ptx va)) = some other := by
    rw [first, checking.target, maps]
  rw [assertMaps, mapFrame_replace checking.wf (inside_zero first) (first ▸ checking.named) target
    different bound]
  rfl

/-- The first mapping makes `pp0`, the only free frame, the page table behind entry 0. -/
theorem start (wf : WellFormed pgdir held [pp0] σ) (confined : Confined pgdir taken σ₀ σ)
    (apart : pgdir ∉ taken) (member : pp0 ∈ taken) (first : pdx va = 0)
    (absent : σ.memory pgdir 0 = 0) (frame : Nat) :
    ∃ σ', assertMaps σ pgdir frame va = .ok (writeMapping σ' frame pp0 va 0) ∧
      Checking σ₀ pgdir held pp0 taken [] (fun _ => none)
        (Function.update σ.references pp0 1) σ' := by
  have inside := inside_zero first
  have noTable : σ.memory pgdir (pdx va) = 0 := first ▸ absent
  have vacant (j : Nat) : pageEntry σ pgdir (pdx va) j = 0 := pageEntry_of_no_table noTable j
  obtain ⟨list, allocated, wfTaken, detached⟩ := allocateFrame_cons wf
  have limit := wf.frameBound
  have bound := wf.freeBound pp0 (by simp)
  have installs := getPageTable_installs wf inside noTable bound allocated
  obtain ⟨σ', created, ready⟩ := getPageTable_created wf inside noTable
  have same := (Prod.mk.inj (Prod.mk.inj (Except.ok.inj (created.symm.trans installs))).2).2
  subst same
  refine ⟨_, ?_, ready.wf, ?_, first ▸ ready.named, ?_, rfl⟩
  · rw [assertMaps, mapFrame_vacant inside created ready (vacant _)]
    rfl
  · have taking : Confined pgdir taken σ { σ with freeFrameList := list } :=
      Confined.allocated wf.linked (by simpa using member) allocated
    rw [first]
    exact confined.trans (taking.trans (Confined.install member apart))
  · intro j
    rw [← first, ready.samePages _ inside, vacant, entryTarget_zero]

end Checking

/-! The three frames of the check, and the states it goes through with them. -/

def slots (first second : Option Nat) (j : Nat) : Option Nat :=
  if j = 0 then first else if j = 1 then second else none

structure ThreeFrames (pgdir : Nat) where
  pp0 : Nat
  pp1 : Nat
  pp2 : Nat
  oneApart : pp1 ≠ pp0
  twoApart : pp2 ≠ pp1 ∧ pp2 ≠ pp0
  notDirectory : pgdir ∉ [pp0, pp1, pp2]

def ThreeFrames.all {pgdir : Nat} (three : ThreeFrames pgdir) : List Nat :=
  [three.pp0, three.pp1, three.pp2]

def ThreeFrames.counters {pgdir : Nat} (three : ThreeFrames pgdir) (others : Nat → BitVec 16)
    (count0 count1 count2 : BitVec 16) (frame : Nat) : BitVec 16 :=
  if frame = three.pp0 then count0 else if frame = three.pp1 then count1
  else if frame = three.pp2 then count2 else others frame

@[simp] theorem pdx_zero : pdx 0 = 0 := by decide

@[simp] theorem ptx_zero : ptx 0 = 0 := by decide

@[simp] theorem pdx_pageSize : pdx pageSize = 0 := by decide

@[simp] theorem ptx_pageSize : ptx pageSize = 1 := by decide

@[simp] theorem pdx_ptSize : pdx ptSize = 1 := by decide

theorem slots_empty : slots none none = fun _ => none := by
  funext j
  simp [slots]

@[simp] theorem slots_zero (first second : Option Nat) : slots first second 0 = first := rfl

@[simp] theorem slots_one (first second : Option Nat) : slots first second 1 = second := rfl

theorem update_slots_zero (first second value : Option Nat) :
    Function.update (slots first second) 0 value = slots value second := by
  funext j
  by_cases here : j = 0 <;> simp [slots, here]

theorem update_slots_one (first second value : Option Nat) :
    Function.update (slots first second) 1 value = slots first value := by
  funext j
  by_cases here : j = 1 <;> simp [slots, here]

namespace ThreeFrames

variable {pgdir : Nat} (three : ThreeFrames pgdir) (others : Nat → BitVec 16)
  (count0 count1 count2 count : BitVec 16)

@[simp] theorem counters_pp0 : three.counters others count0 count1 count2 three.pp0 = count0 := by
  simp [counters]

@[simp] theorem counters_pp1 : three.counters others count0 count1 count2 three.pp1 = count1 := by
  simp [counters, three.oneApart]

@[simp] theorem counters_pp2 : three.counters others count0 count1 count2 three.pp2 = count2 := by
  simp [counters, three.twoApart]

theorem update_counters_pp0 :
    Function.update (three.counters others count0 count1 count2) three.pp0 count =
      three.counters others count count1 count2 := by
  funext frame
  by_cases here : frame = three.pp0 <;> simp [counters, here]

theorem update_counters_pp1 :
    Function.update (three.counters others count0 count1 count2) three.pp1 count =
      three.counters others count0 count count2 := by
  funext frame
  by_cases here : frame = three.pp1 <;> simp [counters, here, three.oneApart]

theorem update_counters_pp2 :
    Function.update (three.counters others count0 count1 count2) three.pp2 count =
      three.counters others count0 count1 count := by
  funext frame
  by_cases here : frame = three.pp2 <;> simp [counters, here, three.twoApart]

theorem counters_self {references : Nat → BitVec 16} (zero : ∀ frame ∈ three.all, references frame = 0) :
    three.counters references 0 0 0 = references := by
  funext frame
  simp only [counters]
  split
  · simp_all [all]
  split
  · simp_all [all]
  split
  · simp_all [all]
  · rfl

end ThreeFrames

section Phases

variable {σ₀ σ : State} {pgdir : Nat} {held : Nat → Nat} {three : ThreeFrames pgdir}

/-- The state between two assertions: the pages at 0 and `PAGE_SIZE`, the counters of `pp1`
and `pp2`; `pp0` is a page table. -/
def Phase (σ₀ : State) (held : Nat → Nat) (three : ThreeFrames pgdir) (free : List Nat)
    (first second : Option Nat) (count1 count2 : BitVec 16) (σ : State) : Prop :=
  Checking σ₀ pgdir held three.pp0 three.all free (slots first second)
    (three.counters σ₀.references 1 count1 count2) σ

namespace Phase

variable {free : List Nat} {first second : Option Nat} {count1 count2 : BitVec 16}

theorem bound (phase : Phase σ₀ held three free first second count1 count2 σ)
    (bounds : ∀ frame ∈ three.all, frame < σ₀.numberOfFrames) {frame : Nat}
    (member : frame ∈ three.all) : frame < σ.numberOfFrames := by
  rw [phase.confined.sameFrames]
  exact bounds frame member

end Phase

structure ReadyToCheck (held : Nat → Nat) (three : ThreeFrames pgdir) (σ : State) : Prop where
  wf : WellFormed pgdir held [] σ
  bounds : ∀ frame ∈ three.all, frame < σ.numberOfFrames
  unreferenced : ∀ frame ∈ three.all, σ.references frame = 0
  noTable : σ.memory pgdir 0 = 0
  noSecondTable : σ.memory pgdir 1 = 0

theorem checkMapping_returns (ready : ReadyToCheck held three σ) :
    ∃ σ', checkMapping σ pgdir three.pp0 three.pp1 three.pp2 = .ok σ' ∧
      Phase σ held three [] (some three.pp1) (some three.pp2) 1 1 σ' := by
  have wf := ready.wf
  have apart := three.notDirectory
  have oneMore : (0 : BitVec 16) + 1 = 1 := rfl
  have member0 : three.pp0 ∈ three.all := by simp [ThreeFrames.all]
  have member1 : three.pp1 ∈ three.all := by simp [ThreeFrames.all]
  have member2 : three.pp2 ∈ three.all := by simp [ThreeFrames.all]
  have insideZero : pdx 0 < userEntries := Checking.inside_zero pdx_zero
  have insideOne : pdx ptSize < userEntries := by
    rw [pdx_ptSize, userEntries_eq]
    omega
  have exhausted : assertExhausted σ = .ok σ := by
    rw [assertExhausted, allocateFrame_empty wf]
    rfl
  have failsAtZero : assertMapFails σ pgdir three.pp1 0 = .ok σ := by
    rw [assertMapFails, mapFrame_exhausted wf insideZero (by rw [pdx_zero, ready.noTable])]
    rfl
  -- `pp0` is the only free frame when the first mapping needs a page table.
  have detached : Detached [] σ three.pp0 :=
    ⟨ready.bounds _ member0, by simp, ready.unreferenced _ member0⟩
  have freed : Confined pgdir three.all σ (freeFrame σ three.pp0) :=
    Confined.freed wf.linked (by simp) member0
  obtain ⟨σ₁, maps1, started⟩ := Checking.start (wf.freeFrame detached) freed apart member0
    pdx_zero ready.noTable three.pp1
  have counts : Function.update (freeFrame σ three.pp0).references three.pp0 1 =
      three.counters σ.references 1 0 0 := by
    rw [← three.update_counters_pp0 σ.references 0 0 0 1, three.counters_self ready.unreferenced]
    rfl
  rw [counts, ← slots_empty] at started
  have bound1 : three.pp1 < σ₁.numberOfFrames := Phase.bound started ready.bounds member1
  have phase1 := started.write apart member0 pdx_zero rfl member1 bound1 (by simp) (by simp)
  rw [ptx_zero, update_slots_zero, three.counters_pp1, three.update_counters_pp1,
    oneMore] at phase1
  generalize writeMapping σ₁ three.pp1 three.pp0 0 0 = σ₂ at maps1 phase1
  have bound2 : three.pp2 < σ₂.numberOfFrames := Phase.bound phase1 ready.bounds member2
  have maps2 := phase1.mapsVacant pdx_pageSize (by simp) three.pp2
  have phase2 := phase1.write apart member0 pdx_pageSize (by simp) member2 bound2 (by simp) (by simp)
  rw [ptx_pageSize, update_slots_one, three.counters_pp2, three.update_counters_pp2,
    oneMore] at phase2
  generalize writeMapping σ₂ three.pp2 three.pp0 pageSize 0 = σ₃ at maps2 phase2
  have failsAtTable : assertMapFails σ₃ pgdir three.pp0 ptSize = .ok σ₃ := by
    have absent : σ₃.memory pgdir (pdx ptSize) = 0 := by
      rw [pdx_ptSize, phase2.confined.directory 1 (by omega), ready.noSecondTable]
    rw [assertMapFails, mapFrame_exhausted phase2.wf insideOne absent]
    rfl
  refine ⟨σ₃, ?_, phase2⟩
  simp only [checkMapping, exhausted, ok_bind, failsAtZero, maps1, phase1.tableAddress,
    phase1.translates pdx_zero rfl, phase1.references, three.counters_pp1, three.counters_pp0,
    maps2, phase2.translates pdx_pageSize rfl, phase2.references, three.counters_pp2,
    phase2.exhausted, phase2.mapsAgain pdx_pageSize rfl, failsAtTable, decide_true,
    assertThat_true]

theorem checkReplacing_returns {σ₀ : State}
    (phase : Phase σ₀ held three [] (some three.pp1) (some three.pp2) 1 1 σ)
    (bounds : ∀ frame ∈ three.all, frame < σ₀.numberOfFrames) :
    ∃ σ', checkReplacing σ pgdir three.pp1 three.pp2 = .ok σ' ∧
      Phase σ₀ held three [] (some three.pp1) (some three.pp1) 2 0 σ' := by
  have apart := three.notDirectory
  have member0 : three.pp0 ∈ three.all := by simp [ThreeFrames.all]
  have member1 : three.pp1 ∈ three.all := by simp [ThreeFrames.all]
  have member2 : three.pp2 ∈ three.all := by simp [ThreeFrames.all]
  have noMore : (1 : BitVec 16) - 1 = 0 := rfl
  have bound1 := Phase.bound phase bounds member1
  have maps := phase.mapsInstead pdx_pageSize rfl three.twoApart.1 bound1
  have dropped := phase.drop apart member0 pdx_pageSize rfl member2 (by simp)
  rw [ptx_pageSize, update_slots_one, three.counters_pp2, three.update_counters_pp2, if_pos rfl,
    noMore] at dropped
  generalize dropMapping σ pgdir three.pp0 three.pp2 pageSize = σ₁ at maps dropped
  have bound1' : three.pp1 < σ₁.numberOfFrames := Phase.bound dropped bounds member1
  have offList : three.pp1 ∉ [three.pp2] := by simpa using three.twoApart.1.symm
  have replaced := dropped.write apart member0 pdx_pageSize rfl member1 bound1' offList (by simp)
  rw [ptx_pageSize, update_slots_one, three.counters_pp1, three.update_counters_pp1] at replaced
  generalize writeMapping σ₁ three.pp1 three.pp0 pageSize 0 = σ₂ at maps replaced
  obtain ⟨σ₃, allocates, again⟩ := replaced.allocate (by simpa using member2)
  refine ⟨σ₃, ?_, again⟩
  simp only [checkReplacing, maps, ok_bind, replaced.translates pdx_zero rfl,
    replaced.translates pdx_pageSize rfl, replaced.references, three.counters_pp1,
    three.counters_pp2, allocates, decide_true, assertThat_true]
  rfl

theorem checkUnmapping_returns {σ₀ : State}
    (phase : Phase σ₀ held three [] (some three.pp1) (some three.pp1) 2 0 σ) :
    ∃ σ', checkUnmapping σ pgdir three.pp1 three.pp2 = .ok σ' ∧
      Phase σ₀ held three [] none none 0 0 σ' := by
  have apart := three.notDirectory
  have member0 : three.pp0 ∈ three.all := by simp [ThreeFrames.all]
  have member1 : three.pp1 ∈ three.all := by simp [ThreeFrames.all]
  have unmaps1 := phase.unmaps pdx_zero rfl
  have once := phase.drop apart member0 pdx_zero rfl member1 (by simp)
  rw [ptx_zero, update_slots_zero, three.counters_pp1, three.update_counters_pp1,
    if_neg (by decide)] at once
  generalize dropMapping σ pgdir three.pp0 three.pp1 0 = σ₁ at unmaps1 once
  have unmaps2 := once.unmaps pdx_pageSize rfl
  have twice := once.drop apart member0 pdx_pageSize rfl member1 (by simp)
  rw [ptx_pageSize, update_slots_one, three.counters_pp1, three.update_counters_pp1,
    if_pos (by decide)] at twice
  generalize dropMapping σ₁ pgdir three.pp0 three.pp1 pageSize = σ₂ at unmaps2 twice
  obtain ⟨σ₃, allocates, again⟩ := twice.allocate (by simpa using member1)
  refine ⟨σ₃, ?_, again⟩
  simp only [checkUnmapping, unmaps1, ok_bind, once.doesNotTranslate pdx_zero rfl,
    once.translates pdx_pageSize rfl, once.references, three.counters_pp1, three.counters_pp2,
    unmaps2, twice.doesNotTranslate pdx_zero rfl, twice.doesNotTranslate pdx_pageSize rfl,
    twice.references, allocates, again.exhausted, decide_true, assertThat_true]
  rfl

end Phases

/-! The whole check. -/

theorem WellFormed.agree {σ σ' : State} {pgdir : Nat} {held : Nat → Nat} {free : List Nat}
    (wf : WellFormed pgdir held free σ) (sameFrames : σ'.numberOfFrames = σ.numberOfFrames)
    (references : σ'.references = σ.references) (directory : σ'.memory pgdir = σ.memory pgdir)
    (tables : ∀ i < userEntries, ∀ table, pageTable σ pgdir i = some table →
      σ'.memory table = σ.memory table)
    (linked : σ'.freeFrameList.WellLinked free) : WellFormed pgdir held free σ' := by
  have sameTables (i : Nat) : pageTable σ' pgdir i = pageTable σ pgdir i := by
    rw [pageTable, directory, pageTable]
  have samePages : ∀ i < userEntries, ∀ j, pageEntry σ' pgdir i j = pageEntry σ pgdir i j := by
    intro i inside j
    refine lookup_congr (sameTables i) fun table named => ?_
    rw [tables i inside table named]
  constructor
  · exact sameFrames ▸ wf.frameBound
  · exact linked
  · exact sameFrames ▸ wf.freeBound
  · exact references ▸ wf.freeUnreferenced
  · intro frame bound
    rw [references, namings_congr (fun i _ => sameTables i) (fun i inside j _ => samePages i inside j)]
    exact wf.counted frame (sameFrames ▸ bound)
  · exact sameFrames ▸ wf.directoryBound
  · exact wf.directoryHeld
  · rw [directory, sameFrames]
    exact wf.tables
  · rw [funext sameTables]
    exact wf.distinct
  · intro i inside j below
    rw [samePages i inside, sameFrames]
    exact wf.pages i inside j below

section Whole

variable {σ : State} {pgdir pp0 pp1 pp2 : Nat} {held : Nat → Nat} {rest : List Nat}

theorem assertAllocates_first {frame : Nat} (wf : WellFormed pgdir held (frame :: rest) σ) :
    ∃ list, assertAllocates σ = .ok (frame, { σ with freeFrameList := list }) ∧
      WellFormed pgdir held rest { σ with freeFrameList := list } := by
  obtain ⟨list, allocated, taken, _⟩ := allocateFrame_cons wf
  refine ⟨list, ?_, taken⟩
  rw [assertAllocates, allocated]
  rfl

theorem threeFrames_exist (wf : WellFormed pgdir held (pp0 :: pp1 :: pp2 :: rest) σ) :
    ∃ three : ThreeFrames pgdir, three.pp0 = pp0 ∧ three.pp1 = pp1 ∧ three.pp2 = pp2 := by
  have nodup := wf.linked.nodup
  have directory := wf.directory_not_free
  simp only [List.nodup_cons, List.mem_cons, not_or] at nodup directory
  obtain ⟨⟨one, two, _⟩, ⟨between, _⟩, _⟩ := nodup
  obtain ⟨first, second, third, _⟩ := directory
  refine ⟨⟨pp0, pp1, pp2, Ne.symm one, ⟨Ne.symm between, Ne.symm two⟩, ?_⟩, rfl, rfl, rfl⟩
  simp [first, second, third]

structure LeftByPageCheck (pgdir : Nat) (held : Nat → Nat) (free : List Nat) (σ σ' : State) :
    Prop where
  wf : WellFormed pgdir held free σ'
  sameFrames : σ'.numberOfFrames = σ.numberOfFrames
  pointer : σ'.ptrFreeMem = σ.ptrFreeMem
  references : σ'.references = σ.references
  directory : σ'.memory pgdir = σ.memory pgdir
  memory : ∀ frame ∉ free, σ'.memory frame = σ.memory frame

theorem givenBack (three : ThreeFrames pgdir) (wf : WellFormed pgdir held rest σ)
    (detached : ∀ frame ∈ three.all, Detached rest σ frame) :
    WellFormed pgdir held (three.pp2 :: three.pp1 :: three.pp0 :: rest)
      (freeFrame (freeFrame (freeFrame σ three.pp0) three.pp1) three.pp2) := by
  have free0 := detached three.pp0 (by simp [ThreeFrames.all])
  have free1 := detached three.pp1 (by simp [ThreeFrames.all])
  have free2 := detached three.pp2 (by simp [ThreeFrames.all])
  have off1 : three.pp1 ∉ three.pp0 :: rest := by
    simp [three.oneApart, free1.offList]
  have off2 : three.pp2 ∉ three.pp1 :: three.pp0 :: rest := by
    simp [three.twoApart, free2.offList]
  have first := wf.freeFrame free0
  have second := first.freeFrame ⟨free1.bound, off1, free1.unreferenced⟩
  exact second.freeFrame ⟨free2.bound, off2, free2.unreferenced⟩

/-- With three free frames and without tables behind entries 0 and 1, no assertion of
`page_check` fails. -/
theorem pageCheck_returns (wf : WellFormed pgdir held (pp0 :: pp1 :: pp2 :: rest) σ)
    (noTable : σ.memory pgdir 0 = 0) (noSecondTable : σ.memory pgdir 1 = 0) :
    ∃ σ', pageCheck σ pgdir = .ok σ' ∧
      LeftByPageCheck pgdir held (pp2 :: pp1 :: pp0 :: rest) σ σ' := by
  obtain ⟨three, rfl, rfl, rfl⟩ := threeFrames_exist wf
  obtain ⟨list1, takes0, wf1⟩ := assertAllocates_first wf
  obtain ⟨list2, takes1, wf2⟩ := assertAllocates_first wf1
  obtain ⟨list3, takes2, wf3⟩ := assertAllocates_first wf2
  have onList : ∀ frame ∈ three.all, frame ∈ three.pp0 :: three.pp1 :: three.pp2 :: rest := by
    intro frame member
    simp only [ThreeFrames.all, List.mem_cons, List.not_mem_nil, or_false] at member
    rcases member with rfl | rfl | rfl <;> simp
  have outsideRest : ∀ frame ∈ rest, frame ∉ three.all := by
    intro frame member taken
    have nodup := wf.linked.nodup
    simp only [ThreeFrames.all, List.mem_cons, List.not_mem_nil, or_false] at taken
    simp only [List.nodup_cons, List.mem_cons, not_or] at nodup
    rcases taken with rfl | rfl | rfl
    · exact nodup.1.2.2 member
    · exact nodup.2.1.2 member
    · exact nodup.2.2.1 member
  generalize hidden : { σ with freeFrameList := list3.init } = σ₄
  have ready : ReadyToCheck held three σ₄ := by
    subst hidden
    refine ⟨wf3.relist (init_wellLinked list3) (by simp), ?_, ?_, noTable, noSecondTable⟩
    · exact fun frame member => wf.freeBound frame (onList frame member)
    · exact fun frame member => wf.freeUnreferenced frame (onList frame member)
  obtain ⟨σ₅, mapping, phase5⟩ := checkMapping_returns ready
  obtain ⟨σ₆, replacing, phase6⟩ := checkReplacing_returns phase5 ready.bounds
  obtain ⟨σ₇, unmapping, phase7⟩ := checkUnmapping_returns phase6
  have confined := phase7.confined
  generalize given : { (σ₇.setWord pgdir 0 0).setReferences three.pp0 0 with
    freeFrameList := { σ₇.freeFrameList with lhFirst := list3.lhFirst } } = σ₈
  have sameFrames : σ₈.numberOfFrames = σ.numberOfFrames := by
    subst given hidden
    exact confined.sameFrames
  have pointer : σ₈.ptrFreeMem = σ.ptrFreeMem := by
    subst given hidden
    exact confined.pointer
  have references : σ₈.references = σ.references := by
    have unreferenced := ready.unreferenced
    subst given hidden
    change Function.update σ₇.references three.pp0 0 = _
    rw [phase7.references, three.update_counters_pp0, three.counters_self unreferenced]
  have directory : σ₈.memory pgdir = σ.memory pgdir := by
    subst given hidden
    funext i
    change TwoLevelTable.write σ₇.memory pgdir 0 0 pgdir i = _
    by_cases first : i = 0
    · rw [first, write_same, noTable]
    · rw [write_apply, if_neg fun both => first both.2, confined.directory i first]
  have memory : ∀ frame ∉ three.all, σ₈.memory frame = σ.memory frame := by
    intro frame outside
    by_cases isDirectory : frame = pgdir
    · rw [isDirectory, directory]
    · subst given hidden
      change TwoLevelTable.write σ₇.memory pgdir 0 0 frame = _
      rw [write_other isDirectory, confined.memory frame outside isDirectory]
  have linked : σ₈.freeFrameList.WellLinked rest := by
    subst given hidden
    refine ⟨wf3.linked.chain.congr rfl ?_ ?_, wf3.linked.nodup⟩
    · intro element member
      exact congrArg ListEntry.leNext (confined.entries element (outsideRest element member))
    · intro element member
      exact congrArg ListEntry.lePrev (confined.entries element (outsideRest element member))
  have wf8 : WellFormed pgdir held rest σ₈ := by
    refine wf3.agree sameFrames references directory ?_ linked
    intro i inside table named
    apply memory table
    intro member
    exact (wf.table_facts inside named).2.2.2.2 (onList table member)
  have detached : ∀ frame ∈ three.all, Detached rest σ₈ frame := by
    intro frame member
    refine ⟨?_, fun belongs => outsideRest frame belongs member, ?_⟩
    · exact sameFrames ▸ wf.freeBound frame (onList frame member)
    · exact references ▸ wf.freeUnreferenced frame (onList frame member)
  refine ⟨_, ?_, givenBack three wf8 detached, sameFrames, pointer, references, directory, ?_⟩
  · have apart : three.pp2 ≠ three.pp1 ∧ three.pp2 ≠ three.pp0 := three.twoApart
    have single : (σ₇.setWord pgdir 0 0).references three.pp0 = 1 := by
      change σ₇.references three.pp0 = 1
      rw [phase7.references, three.counters_pp0]
    simp only [pageCheck, takes0, takes1, takes2, ok_bind, ne_eq, three.oneApart,
      not_false_eq_true, apart, and_self, decide_true, assertThat_true, hidden, mapping,
      replacing, unmapping, phase7.tableAddress, single]
    rw [← given]
    rfl
  · intro frame outside
    apply memory frame
    intro member
    exact outside (by simp_all [ThreeFrames.all])

end Whole

/-- The check runs through and leaves the allocator and the directory as it found them; only
the order of the list is another one. -/
theorem pageCheck_restores {pgdir : Nat} {held : Nat → Nat} {free : List Nat} {σ : State}
    (wf : WellFormed pgdir held free σ) (three : 3 ≤ free.length)
    (noTable : σ.memory pgdir 0 = 0) (noSecondTable : σ.memory pgdir 1 = 0) :
    ∃ σ' free', pageCheck σ pgdir = .ok σ' ∧ σ'.freeFrameList.WellLinked free' ∧
      (∀ frame, frame ∈ free' ↔ frame ∈ free) ∧ σ'.references = σ.references ∧
      σ'.memory pgdir = σ.memory pgdir := by
  obtain ⟨pp0, pp1, pp2, rest, rfl⟩ : ∃ pp0 pp1 pp2 rest, free = pp0 :: pp1 :: pp2 :: rest := by
    rcases free with _ | ⟨pp0, _ | ⟨pp1, _ | ⟨pp2, rest⟩⟩⟩
    · simp at three
    · simp at three
    · simp at three
    · exact ⟨pp0, pp1, pp2, rest, rfl⟩
  obtain ⟨σ', returned, left⟩ := pageCheck_returns wf noTable noSecondTable
  refine ⟨σ', _, returned, left.wf.linked, ?_, left.references, left.directory⟩
  intro frame
  simp only [List.mem_cons]
  constructor
  · rintro (rfl | rfl | rfl | member) <;> simp_all
  · rintro (rfl | rfl | rfl | member) <;> simp_all

theorem pageCheck_restores_smallMachine :
    ∃ σ free, pageCheck smallMachineBooted 256 = .ok σ ∧ σ.freeFrameList.WellLinked free ∧
      σ.references = smallMachineBooted.references := by
  have boot := smallMachineBooted_left
  have wf := smallMachineBooted_wellFormed
  have three : 3 ≤ (freeAfterBoot 257 300).length := by simp [freeAfterBoot]
  obtain ⟨σ, free, returned, linked, _, references, _⟩ := pageCheck_restores wf three
    (boot.userHalf 0 (by rw [userEntries_eq]; omega))
    (boot.userHalf 1 (by rw [userEntries_eq]; omega))
  exact ⟨σ, free, returned, linked, references⟩

end FosV2
