import FosV2.AllocatePage
import FosV2.CommandPrompt

/-!
What the header of `ap` in `kern/command_prompt.c` promises: a page that is mapped stays as it
is, any other gets a frame of its own, and a command that finds too little memory changes
nothing. The command looks neither at the page nor at what its two calls return.
-/

namespace FosV2

open IntrusiveList TwoLevelTable

def framesNeeded (σ : State) (pgdir : Nat) (va : Word) : Nat :=
  if σ.memory pgdir (pdx va) = 0 then 2 else 1

def EnoughFrames (σ : State) (pgdir : Nat) (va : Word) (free : List Nat) : Prop :=
  framesNeeded σ pgdir va ≤ free.length

def PassesNull (σ : State) : Prop := ∃ σ', allocateFrame σ = .ok (none, σ')

structure MapsFresh (pgdir : Nat) (va : Word) (frame : Nat) (σ σ' : State) : Prop where
  fresh : σ.freeFrameList.Reaches .head frame
  taken : ¬σ'.freeFrameList.Reaches .head frame
  mapped : Mapped σ' pgdir va
  entry : entryAt σ' pgdir va =
    constructEntry (toPhysicalAddress frame) (permUser ||| permWriteable ||| permPresent)
  references : σ'.references frame = 1
  otherPages : ∀ i < userEntries, ∀ j < nptEntries, ¬(i = pdx va ∧ j = ptx va) →
    pageEntry σ' pgdir i j = pageEntry σ pgdir i j

structure ApKeepsPromise (σ : State) (pgdir : Nat) (argument : List Byte) (free : List Nat) :
    Prop where
  alreadyMapped : Mapped σ pgdir (strtol argument 16).1 →
    ∃ σ', commandAp σ pgdir argument = .ok σ' ∧ Unaltered pgdir σ σ'
  maps : ¬Mapped σ pgdir (strtol argument 16).1 →
    EnoughFrames σ pgdir (strtol argument 16).1 free →
      ∃ frame σ', commandAp σ pgdir argument = .ok σ' ∧
        MapsFresh pgdir (strtol argument 16).1 frame σ σ'
  exhausted : ¬Mapped σ pgdir (strtol argument 16).1 →
    ¬EnoughFrames σ pgdir (strtol argument 16).1 free →
      (∃ σ', commandAp σ pgdir argument = .ok σ' ∧ Unaltered pgdir σ σ') ∧ ¬PassesNull σ

section Cases

variable {pgdir : Nat} {held : Nat → Nat} {free : List Nat} {σ : State} {va : Word}
  {argument : List Byte}

theorem WellFormed.mapped_iff (wf : WellFormed pgdir held free σ) (inside : pdx va < userEntries) :
    Mapped σ pgdir va ↔ entryAt σ pgdir va ≠ 0 := by
  constructor
  · rintro ⟨table, page⟩ zero
    have named : pageTable σ pgdir (pdx va) = some (entryFrame (σ.memory pgdir (pdx va))) :=
      entryTarget_of_ne (ne_zero_of_present table)
    rw [entryAt, pageEntry_of_table named] at zero
    rw [zero] at page
    exact not_present_zero page
  · intro nonzero
    obtain ⟨table, named, entry⟩ := table_of_page (entryTarget_of_ne nonzero)
    have facts := wf.table_facts inside named
    have isPresent := (wf.pages _ inside _ (ptx_lt va) nonzero).1
    refine ⟨facts.1, ?_⟩
    rw [(entryTarget_eq_some_iff.mp named).2, ← entry]
    exact isPresent

theorem commandAp_cons {frame : Nat} {rest : List Nat} (wf : WellFormed pgdir held (frame :: rest) σ)
    (inside : pdx (strtol argument 16).1 < userEntries) :
    ∃ list, WellFormed pgdir held rest { σ with freeFrameList := list } ∧
      Detached rest { σ with freeFrameList := list } frame ∧
      ((σ.memory pgdir (pdx (strtol argument 16).1) = 0 ∧ rest = [] ∧
          commandAp σ pgdir argument = .ok { σ with freeFrameList := list }) ∨
        ∃ σ' free' table,
          SlotReady pgdir held (strtol argument 16).1 frame rest free'
            { σ with freeFrameList := list } σ' table ∧
          commandAp σ pgdir argument = .ok (writeMapping σ' frame table (strtol argument 16).1
            (permUser ||| permWriteable))) := by
  obtain ⟨list, allocated, taken, detached⟩ := allocateFrame_cons wf
  refine ⟨list, taken, detached, ?_⟩
  rw [commandAp]
  generalize (strtol argument 16).1 = va at inside ⊢
  rcases mapFrame_cases taken inside detached.bound (permUser ||| permWriteable) with
    ⟨absent, empty, result⟩ | ⟨maps, _⟩ | ⟨σ', free', table, ready, result⟩
  · refine Or.inl ⟨absent, empty, ?_⟩
    simp only [allocated, ok_bind, result]
    rfl
  · have named := namings_pos_of_page inside (ptx_lt va) maps
    have unnamed := (detached.unnamed taken).1
    omega
  · refine Or.inr ⟨σ', free', table, ready, ?_⟩
    simp only [allocated, ok_bind, result]
    rfl

theorem mapsFresh_of_ready {frame table : Nat} {rest free' : List Nat} {list : LinkedList Nat}
    {σ' : State} (wf : WellFormed pgdir held (frame :: rest) σ)
    (inside : pdx va < userEntries) (detached : Detached rest { σ with freeFrameList := list } frame)
    (ready : SlotReady pgdir held va frame rest free' { σ with freeFrameList := list } σ' table) :
    MapsFresh pgdir va frame σ (writeMapping σ' frame table va (permUser ||| permWriteable)) := by
  have written := memory_writeMapping σ' frame table va (permUser ||| permWriteable)
  have entries {i : Nat} (inside' : i < userEntries) (j : Nat) :=
    pageEntry_of_page_write ready.wf inside ready.named written inside' j
  constructor
  · rw [wf.linked.reaches_iff]
    exact List.mem_cons_self
  · rw [freeFrameList_writeMapping, ready.wf.linked.reaches_iff]
    exact ready.offList detached.offList
  · exact ready.mapped inside _
  · rw [entryAt, entries inside, if_pos ⟨rfl, rfl⟩]
  · have unreferenced : σ'.references frame = 0 :=
      (ready.references detached.offList).trans detached.unreferenced
    rw [references_writeMapping, Function.update_self, unreferenced]
    rfl
  · intro i inside' j _ elsewhere
    rw [entries inside', if_neg elsewhere]
    exact ready.otherPages i inside' j elsewhere

theorem commandAp_maps (wf : WellFormed pgdir held free σ)
    (inside : pdx (strtol argument 16).1 < userEntries)
    (enough : EnoughFrames σ pgdir (strtol argument 16).1 free) :
    ∃ frame σ' free', commandAp σ pgdir argument = .ok σ' ∧
      MapsFresh pgdir (strtol argument 16).1 frame σ σ' ∧ WellFormed pgdir held free' σ' := by
  cases free with
  | nil =>
      unfold EnoughFrames framesNeeded at enough
      split at enough <;> simp at enough
  | cons frame rest =>
      obtain ⟨list, taken, detached, cases⟩ := commandAp_cons wf inside
      rcases cases with ⟨absent, last, _⟩ | ⟨σ', free', table, ready, result⟩
      · rw [EnoughFrames, framesNeeded, if_pos absent, last] at enough
        simp at enough
      · refine ⟨frame, _, free', result, mapsFresh_of_ready wf inside detached ready, ?_⟩
        have bound : frame < σ'.numberOfFrames := ready.sameFrames ▸ detached.bound
        refine ready.wf.writeMapping inside ready.named ready.vacant bound
          (ready.offList detached.offList) (by decide) ?_
        rw [ready.references detached.offList, detached.unreferenced]
        decide

end Cases

/-! Where the promise is broken. -/

section Broken

variable {pgdir : Nat} {held : Nat → Nat} {free : List Nat} {σ : State} {argument : List Byte}

/-- Without a free frame the command goes on with the null pointer. -/
theorem passesNull_of_empty (wf : WellFormed pgdir held [] σ) : PassesNull σ :=
  ⟨σ, allocateFrame_empty wf⟩

theorem not_apKeepsPromise_of_mapped (wf : WellFormed pgdir held free σ)
    (inside : pdx (strtol argument 16).1 < userEntries)
    (mapped : Mapped σ pgdir (strtol argument 16).1) : ¬ApKeepsPromise σ pgdir argument free := by
  intro keeps
  obtain ⟨σ', returned, unaltered⟩ := keeps.alreadyMapped mapped
  cases free with
  | nil =>
      have nonzero := (wf.mapped_iff inside).mp mapped
      obtain ⟨table, named, _⟩ := table_of_page (entryTarget_of_ne nonzero)
      simp only [commandAp, allocateFrame_empty wf, ok_bind, mapFrame,
        getPageTable_existing wf inside named] at returned
      cases returned
  | cons frame rest =>
      obtain ⟨list, _, detached, cases⟩ := commandAp_cons wf inside
      rcases cases with ⟨absent, _⟩ | ⟨σ'', _, table, ready, result⟩
      · exact ne_zero_of_present mapped.table absent
      · rw [result] at returned
        cases returned
        have maps := mapsFresh_of_ready wf inside detached ready
        exact maps.taken ((unaltered.freeFrames frame).mpr maps.fresh)

theorem not_apKeepsPromise_of_exhausted (wf : WellFormed pgdir held free σ)
    (inside : pdx (strtol argument 16).1 < userEntries)
    (unmapped : ¬Mapped σ pgdir (strtol argument 16).1)
    (short : ¬EnoughFrames σ pgdir (strtol argument 16).1 free) :
    ¬ApKeepsPromise σ pgdir argument free := by
  intro keeps
  obtain ⟨⟨σ', returned, unaltered⟩, neverNull⟩ := keeps.exhausted unmapped short
  cases free with
  | nil => exact neverNull (passesNull_of_empty wf)
  | cons frame rest =>
      obtain ⟨list, taken, detached, cases⟩ := commandAp_cons wf inside
      rcases cases with ⟨_, _, result⟩ | ⟨_, _, table, ready, _⟩
      · rw [result] at returned
        cases returned
        have same := unaltered.freeFrames frame
        rw [taken.linked.reaches_iff, wf.linked.reaches_iff] at same
        exact detached.offList (same.mpr List.mem_cons_self)
      · unfold EnoughFrames framesNeeded at short
        rcases ready.tableOrigin with member | named
        · have two := List.length_pos_of_mem member
          rw [List.length_cons] at short
          split at short <;> omega
        · rw [if_neg (entryTarget_eq_some_iff.mp named).1, List.length_cons] at short
          omega

end Broken

/-- When `ap` does what its header says, exactly. -/
theorem apKeepsPromise_iff {pgdir : Nat} {held : Nat → Nat} {free : List Nat} {σ : State}
    {argument : List Byte} (wf : WellFormed pgdir held free σ)
    (user : (strtol argument 16).1 < userTop) :
    ApKeepsPromise σ pgdir argument free ↔
      ¬Mapped σ pgdir (strtol argument 16).1 ∧
        EnoughFrames σ pgdir (strtol argument 16).1 free := by
  have inside := pdx_lt_userEntries user
  constructor
  · intro keeps
    have unmapped : ¬Mapped σ pgdir (strtol argument 16).1 :=
      fun mapped => not_apKeepsPromise_of_mapped wf inside mapped keeps
    refine ⟨unmapped, ?_⟩
    by_contra short
    exact not_apKeepsPromise_of_exhausted wf inside unmapped short keeps
  · rintro ⟨unmapped, enough⟩
    refine ⟨fun mapped => absurd mapped unmapped, fun _ _ => ?_, fun _ short => absurd enough short⟩
    obtain ⟨frame, σ', _, result, maps, _⟩ := commandAp_maps wf inside enough
    exact ⟨frame, σ', result, maps⟩

/-! The machine of 300 frames with an empty user half. -/

section Example

variable {va : Word}

theorem smallMachineBooted_unmapped (inside : pdx va < userEntries) :
    ¬Mapped smallMachineBooted 256 va := by
  rw [smallMachineBooted_wellFormed.mapped_iff inside, entryAt,
    pageEntry_of_no_table (smallMachineBooted_left.userHalf _ inside)]
  simp

theorem smallMachineBooted_enough (inside : pdx va < userEntries) :
    EnoughFrames smallMachineBooted 256 va (freeAfterBoot 257 300) := by
  rw [EnoughFrames, framesNeeded, if_pos (smallMachineBooted_left.userHalf _ inside)]
  simp [freeAfterBoot]

end Example

def typed1000 : List Byte := "1000".toList.map char

theorem typed1000_below : (strtol typed1000 16).1 < userTop := by decide

theorem apKeepsPromise_afterBoot :
    ApKeepsPromise smallMachineBooted 256 typed1000 (freeAfterBoot 257 300) := by
  have inside := pdx_lt_userEntries typed1000_below
  rw [apKeepsPromise_iff smallMachineBooted_wellFormed typed1000_below]
  exact ⟨smallMachineBooted_unmapped inside, smallMachineBooted_enough inside⟩

/-- `ap 1000` typed a second time replaces the frame that the first one has mapped. -/
theorem not_apKeepsPromise_again :
    ∃ σ, commandAp smallMachineBooted 256 typed1000 = .ok σ ∧
      ∃ free, WellFormed 256 (heldSinceBoot 257 300) free σ ∧
        ¬ApKeepsPromise σ 256 typed1000 free := by
  have inside := pdx_lt_userEntries typed1000_below
  obtain ⟨frame, σ, free', result, maps, wf'⟩ := commandAp_maps smallMachineBooted_wellFormed inside
    (smallMachineBooted_enough inside)
  exact ⟨σ, result, free', wf', not_apKeepsPromise_of_mapped wf' inside maps.mapped⟩

end FosV2
