import FosV2.InitializePaging
import FosV2.Runs

/-!
Frames are accounted for along every run of the memory manager after boot: the free list,
the reference counters and the entries of one directory agree in every state reached.
-/

namespace FosV2

open IntrusiveList Runs

structure Taken (first : Nat) (σ : State) (frame : Nat) : Prop where
  nonBoot : frame ∈ freeAfterBoot first σ.numberOfFrames
  offList : ¬σ.freeFrameList.Reaches .head frame

def Unnamed (σ : State) (pgdir frame : Nat) : Prop :=
  ∀ i < userEntries, pageTable σ pgdir i ≠ some frame ∧
    ∀ j < nptEntries, entryTarget (pageEntry σ pgdir i j) ≠ some frame

inductive FrameOperation where
  | allocateFrame
  | freeFrame (frame : Nat)
  | mapFrame (frame : Nat) (va perm : Word)
  | unmapFrame (va : Word)
  deriving DecidableEq, Repr

namespace FrameOperation

def perform (pgdir : Nat) : FrameOperation → State → Except Stop State
  | .allocateFrame, σ => do
      let (_, σ) ← FosV2.allocateFrame σ
      return σ
  | .freeFrame frame, σ => .ok (FosV2.freeFrame σ frame)
  | .mapFrame frame va perm, σ => do
      let (_, σ) ← FosV2.mapFrame σ pgdir (some frame) va perm
      return σ
  | .unmapFrame va, σ => FosV2.unmapFrame σ pgdir va

def Allowed (pgdir first : Nat) (σ : State) : FrameOperation → Prop
  | .allocateFrame => True
  | .freeFrame frame => Taken first σ frame ∧ Unnamed σ pgdir frame
  | .mapFrame frame va perm => va < userTop ∧ perm.toNat < 4096 ∧ Taken first σ frame
  | .unmapFrame va => va < userTop

end FrameOperation

open FrameOperation

def FrameStep (pgdir first : Nat) (σ : State) (operation : FrameOperation) (σ' : State) : Prop :=
  operation.Allowed pgdir first σ ∧ operation.perform pgdir σ = .ok σ' ∧
    ∀ frame, namings σ' pgdir frame ≤ 65535

structure Accounted (pgdir first numberOfFrames : Nat) (σ : State) : Prop where
  frames : σ.numberOfFrames = numberOfFrames
  wellFormed : ∃ free, WellFormed pgdir (heldSinceBoot first numberOfFrames) free σ

theorem namings_eq_zero_iff {σ : State} {pgdir frame : Nat} :
    namings σ pgdir frame = 0 ↔ Unnamed σ pgdir frame := by
  constructor
  · intro zero i inside
    refine ⟨fun named => ?_, fun j below named => ?_⟩
    · have := namings_pos_of_table inside named
      omega
    · have := namings_pos_of_page inside below named
      omega
  · intro unnamed
    have directory : directoryNamings σ pgdir frame = 0 := by
      rw [directoryNamings, Occurrences.occurrences_eq_zero_iff]
      exact fun i member => (unnamed i (Finset.mem_range.mp member)).1
    have table : tableNamings σ pgdir frame = 0 := by
      rw [tableNamings, Occurrences.occurrences_eq_zero_iff]
      intro slot member
      have bounds := Finset.mem_product.mp member
      exact (unnamed slot.1 (Finset.mem_range.mp bounds.1)).2 slot.2 (Finset.mem_range.mp bounds.2)
    rw [namings, directory, table]

section Steps

variable {pgdir first : Nat} {free : List Nat} {σ : State} {frame : Nat}

theorem Taken.not_mem {held : Nat → Nat} (taken : Taken first σ frame)
    (wf : WellFormed pgdir held free σ) : frame ∉ free := by
  rw [← wf.linked.reaches_iff]
  exact taken.offList

theorem Taken.unheld (taken : Taken first σ frame) :
    heldSinceBoot first σ.numberOfFrames frame = 0 :=
  if_pos taken.nonBoot

theorem Taken.bound (taken : Taken first σ frame) (low : 256 ≤ first)
    (high : first ≤ σ.numberOfFrames) : frame < σ.numberOfFrames := by
  have member := mem_freeAfterBoot.mp taken.nonBoot
  omega

theorem allocateFrame_accounted {held : Nat → Nat} (wf : WellFormed pgdir held free σ) :
    ∃ frame σ' free', allocateFrame σ = .ok (frame, σ') ∧ WellFormed pgdir held free' σ' ∧
      σ'.numberOfFrames = σ.numberOfFrames := by
  cases free with
  | nil => exact ⟨none, σ, [], allocateFrame_empty wf, wf, rfl⟩
  | cons frame rest =>
      obtain ⟨list, allocated, taken, _⟩ := allocateFrame_cons wf
      exact ⟨some frame, _, rest, allocated, taken, rfl⟩

theorem unmapFrame_accounted {held : Nat → Nat} (wf : WellFormed pgdir held free σ) {va : Word}
    (inside : pdx va < userEntries) :
    ∃ σ' free', unmapFrame σ pgdir va = .ok σ' ∧ WellFormed pgdir held free' σ' ∧
      σ'.numberOfFrames = σ.numberOfFrames := by
  cases maps : entryTarget (pageEntry σ pgdir (pdx va) (ptx va)) with
  | none =>
      have vacant := entryTarget_eq_none_iff.mp maps
      exact ⟨σ, free, unmapFrame_unmapped wf inside vacant, wf, rfl⟩
  | some frame =>
      obtain ⟨table, named, _⟩ := table_of_page maps
      exact ⟨_, _, unmapFrame_mapped wf inside named maps, wf.dropMapping inside named maps,
        numberOfFrames_dropMapping σ pgdir table frame va⟩

theorem mapFrame_accounted {held : Nat → Nat} (wf : WellFormed pgdir held free σ) {va perm : Word}
    (inside : pdx va < userEntries) (small : perm.toNat < 4096)
    (bound : frame < σ.numberOfFrames) (offList : frame ∉ free) :
    ∃ result σ', mapFrame σ pgdir (some frame) va perm = .ok (result, σ') ∧
      σ'.numberOfFrames = σ.numberOfFrames ∧
      ((σ.references frame).toNat < 65535 ∨ namings σ' pgdir frame + held frame ≤ 65535 →
        ∃ free', WellFormed pgdir held free' σ') := by
  rcases mapFrame_cases wf inside bound perm with
    ⟨_, _, result⟩ | ⟨_, result⟩ | ⟨σ', free', table, ready, result⟩
  · exact ⟨_, _, result, rfl, fun _ => ⟨free, wf⟩⟩
  · exact ⟨_, _, result, rfl, fun _ => ⟨free, wf⟩⟩
  · refine ⟨_, _, result, ready.sameFrames, fun room => ⟨free', ?_⟩⟩
    have bound' : frame < σ'.numberOfFrames := by rw [ready.sameFrames]; exact bound
    rw [namings_writeMapping ready.wf inside ready.named ready.vacant bound' small,
      ← ready.references offList] at room
    have counted := ready.wf.counted frame bound'
    exact ready.wf.writeMapping inside ready.named ready.vacant bound' (ready.offList offList) small
      (by omega)

end Steps

theorem Accounted.step {pgdir first numberOfFrames : Nat} {σ σ' : State}
    {operation : FrameOperation} (low : 256 ≤ first) (high : first ≤ numberOfFrames)
    (accounted : Accounted pgdir first numberOfFrames σ)
    (step : FrameStep pgdir first σ operation σ') :
    Accounted pgdir first numberOfFrames σ' := by
  obtain ⟨frames, free, wf⟩ := accounted
  obtain ⟨allowed, performed, room⟩ := step
  cases operation with
  | allocateFrame =>
      obtain ⟨frame, after, free', result, wf', same⟩ := allocateFrame_accounted wf
      simp only [perform, result, ok_bind] at performed
      cases performed
      exact ⟨same.trans frames, free', wf'⟩
  | freeFrame frame =>
      obtain ⟨taken, unnamed⟩ := allowed
      cases performed
      have bound := taken.bound low (by omega)
      have counted := wf.counted frame bound
      have unheld := taken.unheld
      rw [frames] at unheld
      rw [namings_eq_zero_iff.mpr unnamed, unheld] at counted
      have unreferenced : σ.references frame = 0 := BitVec.eq_of_toNat_eq counted
      exact ⟨frames, _, wf.freeFrame ⟨bound, taken.not_mem wf, unreferenced⟩⟩
  | mapFrame frame va perm =>
      obtain ⟨below, small, taken⟩ := allowed
      obtain ⟨result, after, returned, same, preserved⟩ := mapFrame_accounted wf
        (pdx_lt_userEntries below) small (taken.bound low (by omega)) (taken.not_mem wf)
      simp only [perform, returned, ok_bind] at performed
      cases performed
      have unheld := taken.unheld
      rw [frames] at unheld
      exact ⟨same.trans frames, preserved (Or.inr (by rw [unheld]; exact room frame))⟩
  | unmapFrame va =>
      obtain ⟨after, free', result, wf', same⟩ :=
        unmapFrame_accounted wf (pdx_lt_userEntries allowed)
      simp only [perform, result] at performed
      cases performed
      exact ⟨same.trans frames, free', wf'⟩

theorem Accounted.ofBoot {pgdir first : Nat} {σ : State}
    (boot : LeftByInitializePaging pgdir first σ) :
    Accounted pgdir first σ.numberOfFrames σ :=
  ⟨rfl, _, boot.wellFormed⟩

theorem Accounted.performs {pgdir first numberOfFrames : Nat} {σ : State}
    {operation : FrameOperation} (low : 256 ≤ first) (high : first ≤ numberOfFrames)
    (accounted : Accounted pgdir first numberOfFrames σ)
    (allowed : operation.Allowed pgdir first σ) : ∃ σ', operation.perform pgdir σ = .ok σ' := by
  obtain ⟨frames, free, wf⟩ := accounted
  cases operation with
  | allocateFrame =>
      obtain ⟨frame, after, _, result, _⟩ := allocateFrame_accounted wf
      refine ⟨after, ?_⟩
      simp only [perform, result, ok_bind]
      rfl
  | freeFrame frame => exact ⟨_, rfl⟩
  | mapFrame frame va perm =>
      obtain ⟨below, small, taken⟩ := allowed
      obtain ⟨result, after, returned, _⟩ := mapFrame_accounted wf
        (pdx_lt_userEntries below) small (taken.bound low (by omega)) (taken.not_mem wf)
      refine ⟨after, ?_⟩
      simp only [perform, returned, ok_bind]
      rfl
  | unmapFrame va =>
      obtain ⟨after, _, result, _⟩ := unmapFrame_accounted wf (pdx_lt_userEntries allowed)
      exact ⟨after, result⟩

theorem calculateFreeFrames_eq {σ : State} {free : List Nat}
    (linked : σ.freeFrameList.WellLinked free) (few : free.length < 4294967296) {fuel : Nat}
    (enough : free.length ≤ fuel) :
    ∃ count, calculateFreeFrames fuel σ = some count ∧ count.toNat = free.length := by
  refine ⟨_, linked.forEach (fun cnt _ => cnt + 1) 0 enough, ?_⟩
  have counts : ∀ (members : List Nat) (start : Word),
      members.foldl (fun cnt _ => cnt + 1) start = start + BitVec.ofNat 32 members.length := by
    intro members
    induction members with
    | nil => intro start; simp
    | cons member rest ih =>
        intro start
        rw [List.foldl_cons, ih, List.length_cons]
        bv_omega
  rw [counts]
  bv_omega

theorem WellFormed.free_length {pgdir : Nat} {held : Nat → Nat} {free : List Nat} {σ : State}
    (wf : WellFormed pgdir held free σ) : free.length ≤ σ.numberOfFrames := by
  have inside : free.toFinset ⊆ Finset.range σ.numberOfFrames := by
    intro frame member
    exact Finset.mem_range.mpr (wf.freeBound frame (List.mem_toFinset.mp member))
  have count := Finset.card_le_card inside
  rwa [List.toFinset_card_of_nodup wf.linked.nodup, Finset.card_range] at count

theorem WellFormed.namings_le {pgdir : Nat} {held : Nat → Nat} {free : List Nat} {σ : State}
    (wf : WellFormed pgdir held free σ) (frame : Nat) : namings σ pgdir frame ≤ 65535 := by
  by_cases bound : frame < σ.numberOfFrames
  · have counted := wf.counted frame bound
    have width := (σ.references frame).isLt
    omega
  · have unnamed : Unnamed σ pgdir frame := by
      intro i inside
      refine ⟨fun named => ?_, fun j below named => ?_⟩
      · exact bound (wf.table_facts inside named).2.2.1
      · exact bound (wf.page_facts inside below named).2.2.1
    rw [namings_eq_zero_iff.mpr unnamed]
    exact Nat.zero_le _

theorem frames_accounted {pgdir first : Nat} {start σ : State} {operations : List FrameOperation}
    (boot : LeftByInitializePaging pgdir first start)
    (run : Run (FrameStep pgdir first) start operations σ) :
    (∃ free, σ.freeFrameList.WellLinked free ∧
      (∀ fuel ≥ free.length, ∃ count, calculateFreeFrames fuel σ = some count ∧
        count.toNat = free.length) ∧
      (∀ frame ∈ free, σ.references frame = 0 ∧ Unnamed σ pgdir frame) ∧
      (∀ frame ∈ freeAfterBoot first σ.numberOfFrames, frame ∉ free →
        (σ.references frame).toNat = directoryNamings σ pgdir frame + tableNamings σ pgdir frame)) ∧
    ∀ i < userEntries, ∀ i' < userEntries, ∀ table, pageTable σ pgdir i = some table →
      pageTable σ pgdir i' = some table → i = i' := by
  have preserved : ∀ state operation next, Accounted pgdir first start.numberOfFrames state →
      FrameStep pgdir first state operation next →
      Accounted pgdir first start.numberOfFrames next :=
    fun _ _ _ accounted step => accounted.step boot.low boot.high step
  obtain ⟨frames, free, wf⟩ := run.preserves preserved (Accounted.ofBoot boot)
  refine ⟨⟨free, wf.linked, ?_, ?_, ?_⟩, ?_⟩
  · intro fuel enough
    have length := wf.free_length
    have limit := wf.frameBound
    exact calculateFreeFrames_eq wf.linked (by omega) enough
  · intro frame member
    exact ⟨wf.freeUnreferenced frame member, namings_eq_zero_iff.mp (wf.free_unnamed member).1⟩
  · intro frame nonBoot _
    have low := boot.low
    have high := boot.high
    have place := mem_freeAfterBoot.mp nonBoot
    have unheld : heldSinceBoot first start.numberOfFrames frame = 0 := by
      rw [← frames]
      exact if_pos nonBoot
    have counted := wf.counted frame (by omega)
    rw [unheld] at counted
    exact counted
  · intro i inside i' inside' table named named'
    exact wf.distinct i i' table inside inside' named named'

theorem frames_accounted_smallMachine :
    ∃ σ, Run (FrameStep 256 257) smallMachineBooted [.allocateFrame, .mapFrame 299 0x1000 6] σ ∧
      ∃ free, σ.freeFrameList.WellLinked free ∧
        ∀ frame ∈ free, σ.references frame = 0 ∧ Unnamed σ 256 frame := by
  have boot := smallMachineBooted_left
  have wf := smallMachineBooted_first
  obtain ⟨taken, allocated, wf', detached⟩ := allocateFrame_cons wf
  -- The first call hands out frame 299, which the second one maps.
  have first : FrameStep 256 257 smallMachineBooted .allocateFrame
      { smallMachineBooted with freeFrameList := taken } := by
    refine ⟨trivial, ?_, wf'.namings_le⟩
    simp only [perform, allocated, ok_bind]
    rfl
  obtain ⟨result, σ, mapped, _, preserved⟩ := mapFrame_accounted wf'
    (pdx_lt_userEntries (by decide : (0x1000 : Word) < userTop))
    (by decide : (6 : Word).toNat < 4096) detached.bound detached.offList
  obtain ⟨free, wf''⟩ := preserved (Or.inl (by rw [detached.unreferenced]; decide))
  have second : FrameStep 256 257 { smallMachineBooted with freeFrameList := taken }
      (.mapFrame 299 0x1000 6) σ := by
    refine ⟨⟨by decide, by decide, ?_, ?_⟩, ?_, wf''.namings_le⟩
    · exact mem_freeAfterBoot.mpr (Or.inr ⟨by decide, detached.bound⟩)
    · rw [wf'.linked.reaches_iff]
      exact detached.offList
    · simp only [perform, mapped, ok_bind]
      rfl
  have run := Run.cons first (Run.cons second (Run.nil σ))
  obtain ⟨⟨free', linked, _, unreferenced, _⟩, _⟩ := frames_accounted boot run
  exact ⟨σ, run, free', linked, unreferenced⟩

end FosV2
