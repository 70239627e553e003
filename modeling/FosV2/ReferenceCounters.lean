import FosV2.PagePermissions

/-!
`Frame_Info.references` is 16 bits wide and incremented without a check. Along runs of
`allocate_frame`, `map_frame` and `unmap_frame` it counts the mappings of a frame up to
65535 of them; one more and it starts again at 0.
-/

namespace FosV2

open IntrusiveList Runs TwoLevelTable

structure CountsTruly (pgdir first : Nat) (σ : State) : Prop where
  counted : ∀ frame, Taken first σ frame → (σ.references frame).toNat = namings σ pgdir frame
  unfreed : ∀ frame, 0 < namings σ pgdir frame → ¬σ.freeFrameList.Reaches .head frame

def CallAllowed (pgdir first : Nat) (σ : State) : FrameOperation → Prop
  | .freeFrame _ => False
  | operation => operation.Allowed pgdir first σ

/-- A call of `map_frame` adds no mapping to a frame that has 65535 of them: the frame has
fewer, or the page is mapped to it already, or there is no memory for the page table. -/
def CounterRoom (pgdir : Nat) (σ : State) : FrameOperation → Prop
  | .mapFrame frame va _ =>
      namings σ pgdir frame < 65535 ∨
      entryTarget (pageEntry σ pgdir (pdx va) (ptx va)) = some frame ∨
      (σ.memory pgdir (pdx va) = 0 ∧ σ.freeFrameList.lhFirst = none)
  | _ => True

def CallStep (pgdir first : Nat) (σ : State) (operation : FrameOperation) (σ' : State) : Prop :=
  CallAllowed pgdir first σ operation ∧ operation.perform pgdir σ = .ok σ'

section Counters

variable {pgdir first numberOfFrames : Nat} {σ σ' : State} {operation : FrameOperation}

theorem CallAllowed.allowed (call : CallAllowed pgdir first σ operation) :
    operation.Allowed pgdir first σ := by
  cases operation with
  | freeFrame frame => exact absurd call id
  | allocateFrame => exact call
  | mapFrame frame va perm => exact call
  | unmapFrame va => exact call

theorem Accounted.countsTruly (accounted : Accounted pgdir first numberOfFrames σ)
    (low : 256 ≤ first) (high : first ≤ numberOfFrames) : CountsTruly pgdir first σ := by
  obtain ⟨frames, free, wf⟩ := accounted
  constructor
  · intro frame taken
    have counted := wf.counted frame (taken.bound low (by omega))
    have unheld := taken.unheld
    rw [frames] at unheld
    omega
  · intro frame named onList
    exact wf.not_free_of_named named ((wf.linked.reaches_iff frame).mp onList)

theorem Accounted.callStep (accounted : Accounted pgdir first numberOfFrames σ)
    (low : 256 ≤ first) (high : first ≤ numberOfFrames) (room : CounterRoom pgdir σ operation)
    (step : CallStep pgdir first σ operation σ') : Accounted pgdir first numberOfFrames σ' := by
  obtain ⟨call, performed⟩ := step
  cases operation with
  | freeFrame frame => exact absurd call id
  | allocateFrame =>
      obtain ⟨frames, free, wf⟩ := accounted
      obtain ⟨frame, after, free', result, wf', same⟩ := allocateFrame_accounted wf
      simp only [FrameOperation.perform, result, ok_bind] at performed
      cases performed
      exact ⟨same.trans frames, free', wf'⟩
  | unmapFrame va =>
      obtain ⟨frames, free, wf⟩ := accounted
      obtain ⟨after, free', result, wf', same⟩ :=
        unmapFrame_accounted wf (pdx_lt_userEntries call)
      simp only [FrameOperation.perform, result] at performed
      cases performed
      exact ⟨same.trans frames, free', wf'⟩
  | mapFrame frame va perm =>
      obtain ⟨frames, free, wf⟩ := accounted
      obtain ⟨below, small, taken⟩ := call
      have inside := pdx_lt_userEntries below
      have bound := taken.bound low (by omega)
      have unheld := taken.unheld
      rw [frames] at unheld
      rcases room with few | maps | ⟨absent, none⟩
      · obtain ⟨result, after, returned, same, preserved⟩ := mapFrame_accounted wf
          inside small bound (taken.not_mem wf)
        have counted := wf.counted frame bound
        simp only [FrameOperation.perform, returned, ok_bind] at performed
        cases performed
        exact ⟨same.trans frames, preserved (Or.inl (by omega))⟩
      · simp only [FrameOperation.perform, mapFrame_same wf inside maps, ok_bind] at performed
        cases performed
        exact ⟨frames, free, wf⟩
      · have empty : free = [] := by
          rw [wf.linked.lhFirst_eq] at none
          exact List.head?_eq_none_iff.mp none
        subst empty
        simp only [FrameOperation.perform, mapFrame_exhausted wf inside absent, ok_bind]
          at performed
        cases performed
        exact ⟨frames, [], wf⟩

theorem Accounted.overflow (accounted : Accounted pgdir first numberOfFrames σ)
    (low : 256 ≤ first) (high : first ≤ numberOfFrames) (noRoom : ¬CounterRoom pgdir σ operation)
    (step : CallStep pgdir first σ operation σ') : ¬CountsTruly pgdir first σ' := by
  obtain ⟨call, performed⟩ := step
  obtain ⟨frames, free, wf⟩ := accounted
  cases operation with
  | freeFrame frame => exact absurd call id
  | allocateFrame => exact absurd trivial noRoom
  | unmapFrame va => exact absurd trivial noRoom
  | mapFrame frame va perm =>
      obtain ⟨below, small, taken⟩ := call
      simp only [CounterRoom, not_or, Nat.not_lt] at noRoom
      obtain ⟨many, notMapped, memory⟩ := noRoom
      have inside := pdx_lt_userEntries below
      have bound := taken.bound low (by omega)
      have offList := taken.not_mem wf
      have unheld := taken.unheld
      have counted := wf.counted frame bound
      have width := (σ.references frame).isLt
      rw [frames] at unheld
      rcases mapFrame_cases wf inside bound perm with
        ⟨absent, empty, _⟩ | ⟨maps, _⟩ | ⟨σ₁, free₁, table, ready, result⟩
      · subst empty
        exact absurd ⟨absent, wf.linked.lhFirst_eq⟩ memory
      · exact absurd maps notMapped
      · simp only [FrameOperation.perform, result, ok_bind] at performed
        cases performed
        intro truly
        have bound₁ : frame < σ₁.numberOfFrames := ready.sameFrames ▸ bound
        have counted₁ := ready.wf.counted frame bound₁
        have sameCount := ready.references offList
        rw [sameCount] at counted₁
        have taken₁ : Taken first (writeMapping σ₁ frame table va perm) frame := by
          refine ⟨?_, ?_⟩
          · rw [numberOfFrames_writeMapping, ready.sameFrames]
            exact taken.nonBoot
          · rw [freeFrameList_writeMapping, ready.wf.linked.reaches_iff]
            exact ready.offList offList
        have wrapped := truly.counted frame taken₁
        rw [namings_writeMapping ready.wf inside ready.named ready.vacant bound₁ small,
          references_writeMapping, Function.update_self, sameCount] at wrapped
        have narrow := (σ.references frame + 1).isLt
        omega

theorem CallAllowed.performs (accounted : Accounted pgdir first numberOfFrames σ)
    (low : 256 ≤ first) (high : first ≤ numberOfFrames)
    (call : CallAllowed pgdir first σ operation) : ∃ σ', CallStep pgdir first σ operation σ' := by
  obtain ⟨σ', performed⟩ := accounted.performs low high call.allowed
  exact ⟨σ', call, performed⟩

end Counters

/-- In every run of calls that find room for the counter, the counters are right in every
state; and from there the next call keeps them right exactly if it finds room as well. -/
theorem countsTruly_iff_room {pgdir first : Nat} {start σ : State}
    (boot : LeftByInitializePaging pgdir first start)
    (reached : Reachable (fun σ operation σ' => CounterRoom pgdir σ operation ∧
      CallStep pgdir first σ operation σ') start σ) :
    CountsTruly pgdir first σ ∧ ∀ operation σ', CallStep pgdir first σ operation σ' →
      (CountsTruly pgdir first σ' ↔ CounterRoom pgdir σ operation) := by
  have low := boot.low
  have high := boot.high
  have preserved : ∀ state operation next, Accounted pgdir first start.numberOfFrames state →
      CounterRoom pgdir state operation ∧ CallStep pgdir first state operation next →
      Accounted pgdir first start.numberOfFrames next :=
    fun _ _ _ accounted step => accounted.callStep low high step.1 step.2
  have accounted := reached.preserves preserved (Accounted.ofBoot boot)
  refine ⟨accounted.countsTruly low high, ?_⟩
  intro operation σ' step
  constructor
  · intro truly
    by_contra noRoom
    exact accounted.overflow low high noRoom step truly
  · intro room
    exact (accounted.callStep low high room step).countsTruly low high

/-! The small machine maps its frame 299 at one page after the other. -/

structure MappedInARow (count : Nat) (free : List Nat) (σ : State) : Prop where
  wf : WellFormed 256 (heldSinceBoot 257 300) free σ
  frames : σ.numberOfFrames = 300
  offList : 299 ∉ free
  references : (σ.references 299).toNat = count
  vacant : ∀ page, count ≤ page → page / 1024 < userEntries →
    pageEntry σ 256 (page / 1024) (page % 1024) = 0
  tables : ∀ i < userEntries, σ.memory 256 i = 0 ↔ (count + 1023) / 1024 ≤ i
  enough : 201 ≤ free.length + (count + 1023) / 1024

theorem MappedInARow.callAllowed {count : Nat} {free : List Nat} {σ : State}
    (row : MappedInARow count free σ) {va : Word} (below : va < userTop) :
    CallAllowed 256 257 σ (.mapFrame 299 va 6) := by
  refine ⟨below, by decide, ?_, ?_⟩
  · rw [row.frames]
    exact mem_freeAfterBoot.mpr (by omega)
  · rw [row.wf.linked.reaches_iff]
    exact row.offList

theorem MappedInARow.begin : ∃ σ, CallStep 256 257 smallMachineBooted .allocateFrame σ ∧
    MappedInARow 0 (freeAfterBoot 257 299) σ := by
  obtain ⟨list, allocated, wf, detached⟩ := smallMachine_allocates
  have empty := smallMachineBooted_left.userHalf
  have frames : smallMachineBooted.numberOfFrames = 300 :=
    (partitionFrames_sameMachine 257 300 smallMachine).numberOfFrames
  generalize taken : ({ smallMachineBooted with freeFrameList := list } : State) = σ
    at allocated wf detached
  have sameMemory : σ.memory = smallMachineBooted.memory := by rw [← taken]
  have sameFrames : σ.numberOfFrames = smallMachineBooted.numberOfFrames := by rw [← taken]
  refine ⟨σ, ⟨trivial, ?_⟩, wf, sameFrames.trans frames, detached.offList, ?_, ?_, ?_, ?_⟩
  · simp only [FrameOperation.perform, allocated, ok_bind]
    rfl
  · rw [detached.unreferenced]
    rfl
  · intro page _ inside
    apply pageEntry_of_no_table
    rw [sameMemory]
    exact empty _ inside
  · intro i inside
    simp only [Nat.zero_add, Nat.reduceDiv, Nat.zero_le, iff_true]
    rw [sameMemory]
    exact empty i inside
  · simp only [freeAfterBoot, List.length_append, List.length_reverse, List.length_range']
    omega

theorem MappedInARow.next {count : Nat} {free : List Nat} {σ : State}
    (row : MappedInARow count free σ) (more : count < 65535) :
    ∃ σ' free', CallStep 256 257 σ (.mapFrame 299 (toPhysicalAddress count) 6) σ' ∧
      MappedInARow (count + 1) free' σ' := by
  have wf := row.wf
  have place : pdx (toPhysicalAddress count) = count / 1024 := by
    rw [pdx_eq, toPhysicalAddress_toNat (by omega)]
    omega
  have slot : ptx (toPhysicalAddress count) = count % 1024 := by
    rw [ptx_eq, toPhysicalAddress_toNat (by omega)]
    omega
  have inside : pdx (toPhysicalAddress count) < userEntries := by
    rw [place, userEntries_eq]
    omega
  have below : toPhysicalAddress count < userTop := by
    have top : userTop.toNat = 4005560320 := by decide
    rw [BitVec.lt_def, toPhysicalAddress_toNat (by omega), top]
    omega
  have frames := row.frames
  have bound : 299 < σ.numberOfFrames := by omega
  have vacant : pageEntry σ 256 (pdx (toPhysicalAddress count)) (ptx (toPhysicalAddress count)) = 0 := by
    rw [place, slot]
    exact row.vacant count (Nat.le_refl _) (place ▸ inside)
  have tables := row.tables _ inside
  have enough := row.enough
  rw [place] at tables
  rcases getPageTable_create wf inside with
    ⟨absent, empty, _⟩ | ⟨σ₁, free₁, table, result, ready⟩
  · subst empty
    rw [List.length_nil] at enough
    omega
  · have slotReady := ready.slotReady inside vacant 299
    have mapped := mapFrame_vacant inside result ready vacant 299 6
    have small : (6 : Word).toNat < 4096 := by decide
    have references := row.references
    have sameCount := slotReady.references row.offList
    have written := memory_writeMapping σ₁ 299 table (toPhysicalAddress count) 6
    have bound₁ : 299 < σ₁.numberOfFrames := ready.sameFrames ▸ bound
    have wf' := ready.wf.writeMapping inside ready.named slotReady.vacant bound₁
      (slotReady.offList row.offList) small (by rw [sameCount]; omega)
    refine ⟨_, free₁, ⟨row.callAllowed below, ?_⟩, wf', ?_, slotReady.offList row.offList, ?_, ?_,
      ?_, ?_⟩
    · simp only [FrameOperation.perform, mapped, ok_bind]
      rfl
    · exact ready.sameFrames.trans frames
    · rw [references_writeMapping, Function.update_self, sameCount]
      bv_omega
    · intro page later inside'
      rw [pageEntry_of_page_write ready.wf inside ready.named written inside', place, slot, if_neg,
        ready.samePages _ inside']
      · exact row.vacant page (by omega) inside'
      · omega
    · intro i inside'
      rw [directory_of_page_write ready.wf inside ready.named written]
      by_cases here : i = pdx (toPhysicalAddress count)
      · have named := (entryTarget_eq_some_iff.mp ready.named).1
        rw [here, place]
        rw [place] at named
        exact ⟨fun zero => absurd zero named, fun above => by omega⟩
      · rw [ready.directory inside here, row.tables i inside']
        rw [place] at here
        omega
    · rcases ready.origin with ⟨_, same⟩ | ⟨absent, taken, _⟩
      · rw [same]
        omega
      · rw [place, tables] at absent
        rw [taken, List.length_cons] at enough
        omega

/-- 65536 mappings of one frame, and its counter is 0. -/
theorem not_countsTruly_smallMachine : ∃ operations σ,
    Run (CallStep 256 257) smallMachineBooted operations σ ∧ ¬CountsTruly 256 257 σ := by
  have rows : ∀ count ≤ 65535, ∃ operations free σ,
      Run (CallStep 256 257) smallMachineBooted operations σ ∧ MappedInARow count free σ := by
    intro count
    induction count with
    | zero =>
        intro _
        obtain ⟨σ, step, row⟩ := MappedInARow.begin
        exact ⟨_, _, σ, .cons step (.nil σ), row⟩
    | succ count ih =>
        intro more
        obtain ⟨operations, free, σ, run, row⟩ := ih (by omega)
        obtain ⟨σ', free', step, row'⟩ := row.next (by omega)
        exact ⟨_, free', σ', run.append (.cons step (.nil σ')), row'⟩
  obtain ⟨operations, free, σ, run, row⟩ := rows 65535 (Nat.le_refl _)
  have accounted : Accounted 256 257 300 σ := ⟨row.frames, free, row.wf⟩
  have place : pdx (toPhysicalAddress 65535) = 63 := by decide
  have slot : ptx (toPhysicalAddress 65535) = 1023 := by decide
  have inside : 63 < userEntries := by
    rw [userEntries_eq]
    omega
  have call : CallAllowed 256 257 σ (.mapFrame 299 (toPhysicalAddress 65535) 6) :=
    row.callAllowed (by decide)
  have noRoom : ¬CounterRoom 256 σ (.mapFrame 299 (toPhysicalAddress 65535) 6) := by
    have counted := row.wf.counted 299 (by rw [row.frames]; omega)
    have unheld : heldSinceBoot 257 300 299 = 0 := if_pos (mem_freeAfterBoot.mpr (by omega))
    have references := row.references
    rintro (few | maps | ⟨absent, _⟩)
    · omega
    · rw [place, slot, row.vacant 65535 (Nat.le_refl _) inside, entryTarget_zero] at maps
      cases maps
    · rw [place, row.tables 63 inside] at absent
      omega
  obtain ⟨σ', step⟩ := call.performs accounted (by omega) (by omega)
  exact ⟨_, σ', run.append (.cons step (.nil σ')),
    accounted.overflow (by omega) (by omega) noRoom step⟩

theorem countsTruly_iff_room_smallMachine : ∃ σ σ',
    CallStep 256 257 smallMachineBooted .allocateFrame σ ∧
      CallStep 256 257 σ (.mapFrame 299 0x1000 6) σ' ∧ CountsTruly 256 257 σ' := by
  obtain ⟨σ, allocated, row⟩ := MappedInARow.begin
  have accounted : Accounted 256 257 300 σ := ⟨row.frames, _, row.wf⟩
  have call : CallAllowed 256 257 σ (.mapFrame 299 0x1000 6) := row.callAllowed (by decide)
  obtain ⟨σ', step⟩ := call.performs accounted (by omega) (by omega)
  have counted := row.wf.counted 299 (by rw [row.frames]; omega)
  have references := row.references
  have room : CounterRoom 256 σ (.mapFrame 299 0x1000 6) := Or.inl (by omega)
  have reached : Reachable (fun σ operation σ' => CounterRoom 256 σ operation ∧
      CallStep 256 257 σ operation σ') smallMachineBooted σ :=
    ⟨[.allocateFrame], .cons ⟨trivial, allocated⟩ (.nil σ)⟩
  exact ⟨σ, σ', allocated, step,
    ((countsTruly_iff_room smallMachineBooted_left reached).2 _ _ step).mpr room⟩

end FosV2
