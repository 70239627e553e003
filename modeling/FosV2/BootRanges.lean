import FosV2.BootMapping
import Mathlib.Data.List.Pairwise
import Mathlib.Order.Interval.Finset.Nat

/-!
`boot_map_range`, call after call: what the walk through the directory finds at the pages of a
range that has been mapped, what a call leaves of the pages outside its range, and so what a
sequence of calls on disjoint ranges has mapped in the end.
-/

namespace FosV2

open TwoLevelTable

def walk (σ : State) (pgdir : Nat) (va : Word) : Option Word :=
  (pageTable σ pgdir (pdx va)).map fun table => σ.memory table (ptx va)

structure BootMapCall where
  virtualAddress : Word
  size : Word
  physicalAddress : Word
  perm : Word

namespace BootMapCall

def perform (endOfKernel : Word) (pgdir : Nat) (σ : State) (call : BootMapCall) :
    Except Stop State :=
  bootMapRange endOfKernel σ pgdir call.virtualAddress call.size call.physicalAddress call.perm

structure Valid (call : BootMapCall) : Prop where
  virtualAligned : call.virtualAddress.toNat % 4096 = 0
  physicalAligned : call.physicalAddress.toNat % 4096 = 0
  perm : call.perm.toNat < 4096
  inSpace : call.virtualAddress.toNat + call.size.toNat ≤ 4294967296
  size : call.size.toNat ≤ 0xFFFFF000

def Contains (call : BootMapCall) (va : Word) : Prop :=
  ∃ k, 4096 * k < call.size.toNat ∧ ppn va = ppn call.virtualAddress + k

def pages (call : BootMapCall) : Nat := (call.size.toNat + 4095) / 4096

def range (call : BootMapCall) (pgdir : Nat) : BootRange :=
  ⟨pgdir, ppn call.virtualAddress, call.physicalAddress, call.perm⟩

def MappedBy (call : BootMapCall) (pgdir : Nat) (σ : State) : Prop :=
  ∀ k, 4096 * k < call.size.toNat →
    walk σ pgdir (call.virtualAddress + BitVec.ofNat 32 (4096 * k)) =
      some (call.physicalAddress + BitVec.ofNat 32 (4096 * k) ||| call.perm ||| permPresent)

end BootMapCall

def newTables (σ : State) (pgdir : Nat) (calls : List BootMapCall) : Finset Nat :=
  (Finset.range npdEntries).filter fun w =>
    ∃ call ∈ calls, w ∈ (call.range pgdir).newWindows σ call.pages

def EnoughMemory (σ : State) (pgdir start : Nat) (calls : List BootMapCall) : Prop :=
  start + (newTables σ pgdir calls).card ≤ σ.numberOfFrames

structure BootDirectory (kernel : KernelImage) (pgdir start : Nat) (σ : State) : Prop where
  next : NextFrame kernel σ start
  own : OwnTables (· < npdEntries) pgdir start σ
  low : pgdir < start
  -- `detect_memory` finds 16639 frames at most.
  reach : σ.numberOfFrames < 65536

section OneCall

variable {kernel : KernelImage} {pgdir start : Nat} {σ σ' : State} {call : BootMapCall}

theorem BootMapCall.Valid.fits (valid : call.Valid) :
    ppn call.virtualAddress + call.pages ≤ 1048576 ∧ call.pages < 1048576 := by
  have inSpace := valid.inSpace
  have aligned := valid.virtualAligned
  have size := valid.size
  rw [BootMapCall.pages, ppn_eq]
  omega

theorem BootMapCall.Valid.window_lt (valid : call.Valid) (pgdir : Nat) {k : Nat}
    (inside : k < call.pages) : (call.range pgdir).window k < npdEntries := by
  have fits := valid.fits.1
  change (ppn call.virtualAddress + k) / 1024 < 1024
  omega

theorem newWindows_subset (valid : call.Valid) {calls : List BootMapCall} (member : call ∈ calls) :
    (call.range pgdir).newWindows σ call.pages ⊆ newTables σ pgdir calls := by
  intro w fresh
  obtain ⟨⟨k, inside, rfl⟩, _⟩ := BootRange.mem_newWindows.mp fresh
  rw [newTables, Finset.mem_filter, Finset.mem_range]
  exact ⟨valid.window_lt pgdir inside, call, member, fresh⟩

theorem BootDirectory.mapsFrom (directory : BootDirectory kernel pgdir start σ) (valid : call.Valid)
    (enough : (call.range pgdir).nextAfter σ start call.pages ≤ σ.numberOfFrames) :
    MapsFrom kernel (· < npdEntries) (call.range pgdir) start call.pages σ where
  covers _ inside := valid.window_lt pgdir inside
  fits := valid.fits.1
  own := directory.own
  low := directory.low
  next := directory.next
  room := lt_of_le_of_lt enough directory.reach

theorem toPhysicalAddress_ppn {va : Word} (aligned : va.toNat % 4096 = 0) :
    toPhysicalAddress (ppn va) = va := by
  have bound := va.isLt
  apply BitVec.eq_of_toNat_eq
  rw [toPhysicalAddress_toNat] <;> rw [ppn_eq] <;> omega

theorem BootDirectory.perform (directory : BootDirectory kernel pgdir start σ) (valid : call.Valid)
    (enough : (call.range pgdir).nextAfter σ start call.pages ≤ σ.numberOfFrames) :
    ∃ σ', call.perform kernel.endOfKernel pgdir σ = .ok σ' ∧
      RangeMapped kernel (· < npdEntries) (call.range pgdir) start σ call.pages σ' := by
  have maps := directory.mapsFrom valid enough
  have returns := bootMapRange_returns maps rfl valid.fits.2
    (roundUp_of_aligned valid.physicalAligned) enough
  change ∃ σ', bootMapRange kernel.endOfKernel σ pgdir (toPhysicalAddress (ppn call.virtualAddress))
    call.size call.physicalAddress call.perm = .ok σ' ∧ _ at returns
  rwa [toPhysicalAddress_ppn valid.virtualAligned] at returns

theorem BootDirectory.after (directory : BootDirectory kernel pgdir start σ)
    (mapped : RangeMapped kernel (· < npdEntries) (call.range pgdir) start σ call.pages σ') :
    BootDirectory kernel pgdir ((call.range pgdir).nextAfter σ start call.pages) σ' where
  next := mapped.next
  own := mapped.own
  low := Nat.lt_add_right _ directory.low
  reach := mapped.sameFrames ▸ directory.reach

/-! What the walk finds. -/

theorem page_of_address (va : Word) : 1024 * pdx va + ptx va = ppn va := by
  have split := ppn_eq_pdx_ptx va
  rw [nptEntries_eq] at split
  omega

theorem BootMapCall.contains_iff {va : Word} :
    call.Contains va ↔ (call.range pgdir).Contains call.pages (ppn va) := by
  change (∃ k, 4096 * k < call.size.toNat ∧ ppn va = ppn call.virtualAddress + k) ↔
    ppn call.virtualAddress ≤ ppn va ∧
      ppn va < ppn call.virtualAddress + (call.size.toNat + 4095) / 4096
  constructor
  · rintro ⟨k, inside, page⟩
    omega
  · rintro ⟨low, high⟩
    exact ⟨ppn va - ppn call.virtualAddress, by omega, by omega⟩

theorem ppn_add_page (valid : call.Valid) {k : Nat} (inside : 4096 * k < call.size.toNat) :
    ppn (call.virtualAddress + BitVec.ofNat 32 (4096 * k)) = ppn call.virtualAddress + k := by
  have inSpace := valid.inSpace
  rw [ppn_eq, ppn_eq, BitVec.toNat_add, BitVec.toNat_ofNat]
  omega

theorem walk_mapped (valid : call.Valid)
    (mapped : RangeMapped kernel (· < npdEntries) (call.range pgdir) start σ call.pages σ') :
    call.MappedBy pgdir σ' := by
  intro k inside
  have page := ppn_add_page valid inside
  generalize call.virtualAddress + BitVec.ofNat 32 (4096 * k) = va at page ⊢
  have earlier : k < call.pages := by
    unfold BootMapCall.pages
    omega
  have window : (call.range pgdir).window k = pdx va := by
    change (ppn call.virtualAddress + k) / 1024 = _
    rw [← page, ppn_eq, pdx_eq]
    omega
  have named : pageTable σ' pgdir (pdx va) = some (entryFrame (σ'.memory pgdir (pdx va))) :=
    entryTarget_of_ne (window ▸ mapped.window_mapped earlier)
  have slot := ptx_lt va
  rw [nptEntries_eq] at slot
  have contained : (call.range pgdir).Contains call.pages (ppn va) :=
    BootMapCall.contains_iff.mp ⟨k, inside, page⟩
  rw [walk, named, Option.map_some, mapped.pages _ (pdx_lt va) _ named _ slot, page_of_address,
    if_pos contained, BootRange.entry]
  change some (call.physicalAddress + toPhysicalAddress (ppn va - ppn call.virtualAddress) |||
    (call.perm ||| permPresent)) = _
  rw [page, Nat.add_sub_cancel_left, toPhysicalAddress_eq, BitVec.or_assoc]

theorem walk_unchanged {va entry : Word}
    (mapped : RangeMapped kernel (· < npdEntries) (call.range pgdir) start σ call.pages σ')
    (outside : ¬call.Contains va) (found : walk σ pgdir va = some entry) :
    walk σ' pgdir va = some entry := by
  obtain ⟨table, named, content⟩ := Option.map_eq_some_iff.mp found
  have old : σ'.memory pgdir (pdx va) = σ.memory pgdir (pdx va) := by
    apply mapped.old
    intro fresh
    exact (entryTarget_eq_some_iff.mp named).1 (BootRange.mem_newWindows.mp fresh).2
  have named' : pageTable σ' pgdir (pdx va) = some table := by
    rw [pageTable, old]
    exact named
  have slot := ptx_lt va
  rw [nptEntries_eq] at slot
  rw [walk, named', Option.map_some, mapped.pages _ (pdx_lt va) table named' _ slot,
    page_of_address, if_neg (mt BootMapCall.contains_iff.mpr outside), content]

end OneCall

/-! A sequence of calls. -/

section Calls

variable {kernel : KernelImage} {pgdir start : Nat} {σ σ' : State} {call : BootMapCall}
  {calls : List BootMapCall}

def performAll (endOfKernel : Word) (pgdir : Nat) (calls : List BootMapCall) (σ : State) :
    Except Stop State :=
  calls.foldlM (BootMapCall.perform endOfKernel pgdir) σ

def DisjointRanges (calls : List BootMapCall) : Prop :=
  calls.Pairwise fun first second => ∀ va, first.Contains va → ¬second.Contains va

theorem EnoughMemory.first (enough : EnoughMemory σ pgdir start (call :: calls))
    (valid : call.Valid) : (call.range pgdir).nextAfter σ start call.pages ≤ σ.numberOfFrames := by
  have fewer : ((call.range pgdir).newWindows σ call.pages).card ≤
      (newTables σ pgdir (call :: calls)).card :=
    Finset.card_le_card (newWindows_subset valid List.mem_cons_self)
  unfold EnoughMemory at enough
  unfold BootRange.nextAfter
  omega

theorem mem_newTables {w : Nat} : w ∈ newTables σ pgdir calls ↔ w < npdEntries ∧
    ∃ call ∈ calls, (∃ k < call.pages, (call.range pgdir).window k = w) ∧
      σ.memory pgdir w = 0 := by
  simp only [newTables, Finset.mem_filter, Finset.mem_range, BootRange.mem_newWindows]
  rfl

theorem newTables_apart
    (mapped : RangeMapped kernel (· < npdEntries) (call.range pgdir) start σ call.pages σ') :
    Disjoint ((call.range pgdir).newWindows σ call.pages) (newTables σ' pgdir calls) := by
  rw [Finset.disjoint_left]
  intro w filled again
  obtain ⟨table, _, _, entry⟩ := mapped.made w filled
  obtain ⟨_, _, _, _, absent⟩ := mem_newTables.mp again
  exact bootTableEntry_ne_zero table (entry.symm.trans absent)

theorem newTables_inside (valid : call.Valid)
    (mapped : RangeMapped kernel (· < npdEntries) (call.range pgdir) start σ call.pages σ') :
    (call.range pgdir).newWindows σ call.pages ∪ newTables σ' pgdir calls ⊆
      newTables σ pgdir (call :: calls) := by
  apply Finset.union_subset (newWindows_subset valid List.mem_cons_self)
  intro w later
  obtain ⟨bound, other, member, touches, absent⟩ := mem_newTables.mp later
  have unfilled : w ∉ (call.range pgdir).newWindows σ call.pages := by
    intro filled
    exact Finset.disjoint_left.mp (newTables_apart mapped) filled later
  refine mem_newTables.mpr ⟨bound, other, List.mem_cons_of_mem _ member, touches, ?_⟩
  rw [← absent]
  exact (mapped.old w unfilled).symm

/-- The windows that the first call has filled are not filled again. -/
theorem EnoughMemory.rest (enough : EnoughMemory σ pgdir start (call :: calls))
    (valid : call.Valid)
    (mapped : RangeMapped kernel (· < npdEntries) (call.range pgdir) start σ call.pages σ') :
    EnoughMemory σ' pgdir ((call.range pgdir).nextAfter σ start call.pages) calls := by
  have fewer : ((call.range pgdir).newWindows σ call.pages ∪ newTables σ' pgdir calls).card ≤
      (newTables σ pgdir (call :: calls)).card :=
    Finset.card_le_card (newTables_inside valid mapped)
  rw [Finset.card_union_of_disjoint (newTables_apart mapped)] at fewer
  unfold EnoughMemory BootRange.nextAfter at *
  rw [mapped.sameFrames]
  omega

theorem performAll_returns (directory : BootDirectory kernel pgdir start σ)
    (valid : ∀ call ∈ calls, call.Valid) (disjoint : DisjointRanges calls)
    (enough : EnoughMemory σ pgdir start calls) :
    ∃ σ', performAll kernel.endOfKernel pgdir calls σ = .ok σ' ∧
      (∀ call ∈ calls, call.MappedBy pgdir σ') ∧
      ∀ va entry, (∀ call ∈ calls, ¬call.Contains va) → walk σ pgdir va = some entry →
        walk σ' pgdir va = some entry := by
  induction calls generalizing σ start with
  | nil => exact ⟨σ, rfl, by simp, fun _ _ _ found => found⟩
  | cons call rest ih =>
      have validFirst := valid call List.mem_cons_self
      obtain ⟨apart, disjointRest⟩ := List.pairwise_cons.mp disjoint
      obtain ⟨σ₁, first, mapped⟩ := directory.perform validFirst (enough.first validFirst)
      obtain ⟨σ', others, mappedRest, kept⟩ := ih (directory.after mapped)
        (fun other member => valid other (List.mem_cons_of_mem _ member)) disjointRest
        (enough.rest validFirst mapped)
      refine ⟨σ', ?_, ?_, ?_⟩
      · rw [performAll, List.foldlM_cons, first, ok_bind]
        exact others
      · intro other member
        rcases List.mem_cons.mp member with rfl | later
        · intro k inside
          apply kept
          · intro second belongs
            exact apart second belongs _ ⟨k, inside, ppn_add_page validFirst inside⟩
          · exact walk_mapped validFirst mapped k inside
        · exact mappedRest other later
      · intro va entry outside found
        apply kept va entry fun other member => outside other (List.mem_cons_of_mem _ member)
        exact walk_unchanged mapped (outside call List.mem_cons_self) found

end Calls

theorem bootMapRange_asAsked {kernel : KernelImage} {pgdir start : Nat} {σ : State}
    (directory : BootDirectory kernel pgdir start σ) :
    (∀ call : BootMapCall, call.Valid → EnoughMemory σ pgdir start [call] →
      ∃ σ', call.perform kernel.endOfKernel pgdir σ = .ok σ' ∧ call.MappedBy pgdir σ' ∧
        ∀ va entry, ¬call.Contains va → walk σ pgdir va = some entry →
          walk σ' pgdir va = some entry) ∧
    ∀ calls : List BootMapCall, (∀ call ∈ calls, call.Valid) → DisjointRanges calls →
      EnoughMemory σ pgdir start calls →
        ∃ σ', performAll kernel.endOfKernel pgdir calls σ = .ok σ' ∧
          ∀ call ∈ calls, call.MappedBy pgdir σ' := by
  constructor
  · intro call valid enough
    obtain ⟨σ', returned, mapped⟩ := directory.perform valid (enough.first valid)
    exact ⟨σ', returned, walk_mapped valid mapped, fun _ _ => walk_unchanged mapped⟩
  · intro calls valid disjoint enough
    obtain ⟨σ', returned, mapped, _⟩ := performAll_returns directory valid disjoint enough
    exact ⟨σ', returned, mapped⟩

/-! The kernel stack and the window above `KERNEL_BASE`, from a directory that is empty. -/

theorem machineAtBoot_directory : BootDirectory kernelOfTwoMegabytes 256 512 machineAtBoot where
  next := by
    unfold NextFrame
    decide
  own := by
    have empty : ∀ w, pageTable machineAtBoot 256 w = none := fun _ => rfl
    constructor
    · intro w _ table named
      cases (empty w).symm.trans named
    · intro w _ table _ _ named
      cases (empty w).symm.trans named
  low := by decide
  reach := by decide

def stackAndKernel : List BootMapCall :=
  [⟨0xEFBF8000, 0x8000, 0x110000, permWriteable⟩, ⟨0xF0000000, 0x0FFFFFFF, 0, permWriteable⟩]

theorem bootMapRange_asAsked_stackAndKernel :
    ∃ σ, performAll kernelOfTwoMegabytes.endOfKernel 256 stackAndKernel machineAtBoot = .ok σ ∧
      ∀ call ∈ stackAndKernel, call.MappedBy 256 σ := by
  apply (bootMapRange_asAsked machineAtBoot_directory).2
  · intro call member
    simp only [stackAndKernel, List.mem_cons, List.not_mem_nil, or_false] at member
    rcases member with rfl | rfl <;> constructor <;> decide
  · have stack : ppn 0xEFBF8000 = 982008 := by decide
    have kernel : ppn 0xF0000000 = 983040 := by decide
    have size : (0x8000 : Word).toNat = 32768 := by decide
    simp only [DisjointRanges, stackAndKernel, List.pairwise_cons, List.mem_singleton,
      forall_eq, List.not_mem_nil, false_implies, implies_true, List.Pairwise.nil, and_true]
    rintro va ⟨k, inside, page⟩ ⟨k', _, page'⟩
    dsimp only at inside page page'
    omega
  · have windows : newTables machineAtBoot 256 stackAndKernel ⊆ Finset.Icc 958 1023 := by
      intro w member
      obtain ⟨bound, call, belongs, ⟨k, _, rfl⟩, _⟩ := mem_newTables.mp member
      have last : npdEntries = 1024 := rfl
      rw [Finset.mem_Icc]
      refine ⟨?_, by omega⟩
      simp only [stackAndKernel, List.mem_cons, List.not_mem_nil, or_false] at belongs
      have stack : ppn 0xEFBF8000 = 982008 := by decide
      have kernel : ppn 0xF0000000 = 983040 := by decide
      rcases belongs with rfl | rfl
      · change 958 ≤ (ppn 0xEFBF8000 + k) / 1024
        omega
      · change 958 ≤ (ppn 0xF0000000 + k) / 1024
        omega
    have few := Finset.card_le_card windows
    have frames : machineAtBoot.numberOfFrames = 600 := rfl
    rw [Nat.card_Icc] at few
    unfold EnoughMemory
    omega

end FosV2
