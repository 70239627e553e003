import FosV2.FrameAccounting

/-!
The permissions of a page after `map_frame`. Its documentation says that the low 12 bits of
the entry are set to `perm|PERM_PRESENT`; a page that is mapped to the frame already keeps
the permissions it has.
-/

namespace FosV2

open IntrusiveList TwoLevelTable

def PermissionsSet (σ : State) (pgdir frame : Nat) (va perm : Word) : Prop :=
  ∀ σ', mapFrame σ pgdir (some frame) va perm = .ok (0, σ') →
    lowBits (pageEntry σ' pgdir (pdx va) (ptx va)) = perm ||| permPresent

structure MappedOtherwise (σ : State) (pgdir frame : Nat) (va perm : Word) : Prop where
  maps : entryTarget (pageEntry σ pgdir (pdx va) (ptx va)) = some frame
  other : lowBits (pageEntry σ pgdir (pdx va) (ptx va)) ≠ perm ||| permPresent

section Permissions

variable {pgdir frame : Nat} {held : Nat → Nat} {free : List Nat} {σ : State} {va perm : Word}

theorem SlotReady.lowBits_written {free' : List Nat} {σ' : State} {table : Nat}
    (ready : SlotReady pgdir held va frame free free' σ σ' table) (inside : pdx va < userEntries)
    (fits : frame < 1048576) (small : perm.toNat < 4096) :
    lowBits (pageEntry (writeMapping σ' frame table va perm) pgdir (pdx va) (ptx va)) =
      perm ||| permPresent := by
  have written := memory_writeMapping σ' frame table va perm
  rw [pageEntry_of_page_write ready.wf inside ready.named written inside, if_pos ⟨rfl, rfl⟩]
  exact lowBits_constructEntry fits (or_present_toNat_lt small)

theorem permissionsSet_iff (wf : WellFormed pgdir held free σ) (bound : frame < σ.numberOfFrames)
    (below : va < userTop) (small : perm.toNat < 4096) :
    PermissionsSet σ pgdir frame va perm ↔ ¬MappedOtherwise σ pgdir frame va perm := by
  have inside := pdx_lt_userEntries below
  have limit := wf.frameBound
  constructor
  · rintro set ⟨maps, other⟩
    exact other (set σ (mapFrame_same wf inside maps perm))
  · intro notOtherwise σ' mapped
    rcases mapFrame_cases wf inside bound perm with
      ⟨_, _, failed⟩ | ⟨maps, same⟩ | ⟨σ₁, _, table, ready, result⟩
    · rw [failed] at mapped
      cases mapped
    · rw [same] at mapped
      cases mapped
      by_contra other
      exact notOtherwise ⟨maps, other⟩
    · rw [result] at mapped
      cases mapped
      exact ready.lowBits_written inside (by omega) small

end Permissions

theorem smallMachine_allocates : ∃ list,
    allocateFrame smallMachineBooted =
        .ok (some 299, { smallMachineBooted with freeFrameList := list }) ∧
      WellFormed 256 (heldSinceBoot 257 300) (freeAfterBoot 257 299)
        { smallMachineBooted with freeFrameList := list } ∧
      Detached (freeAfterBoot 257 299) { smallMachineBooted with freeFrameList := list } 299 := by
  exact allocateFrame_cons smallMachineBooted_first

theorem permissionsSet_iff_smallMachine : ∃ σ free,
    WellFormed 256 (heldSinceBoot 257 300) free σ ∧ PermissionsSet σ 256 299 0x1000 6 := by
  obtain ⟨list, _, wf, detached⟩ := smallMachine_allocates
  have below : (0x1000 : Word) < userTop := by decide
  refine ⟨_, _, wf, (permissionsSet_iff wf detached.bound below (by decide)).mpr ?_⟩
  rintro ⟨maps, _⟩
  have named := namings_pos_of_page (pdx_lt_userEntries below) (ptx_lt _) maps
  rw [(detached.unnamed wf).1] at named
  exact absurd named (Nat.lt_irrefl 0)

/-- A page that is mapped writeable stays so when it is mapped again without that permission. -/
theorem not_permissionsSet_smallMachine : ∃ σ free,
    WellFormed 256 (heldSinceBoot 257 300) free σ ∧ 299 < σ.numberOfFrames ∧
      ¬σ.freeFrameList.Reaches .head 299 ∧ ¬PermissionsSet σ 256 299 0x1000 permUser := by
  obtain ⟨list, _, wf, detached⟩ := smallMachine_allocates
  generalize ({ smallMachineBooted with freeFrameList := list } : State) = σ at wf detached
  have inside : pdx 0x1000 < userEntries := pdx_lt_userEntries (by decide)
  have limit := wf.frameBound
  have bound := detached.bound
  have writeable : (6 : Word).toNat < 4096 := by decide
  rcases mapFrame_cases wf inside bound 6 with
    ⟨absent, empty, _⟩ | ⟨maps, _⟩ | ⟨σ₁, free₁, table, ready, _⟩
  · exact absurd empty (by decide)
  · have named := namings_pos_of_page inside (ptx_lt _) maps
    have := (detached.unnamed wf).1
    omega
  · have unreferenced : σ₁.references 299 = 0 := by
      rw [ready.references detached.offList, detached.unreferenced]
    have bound₁ : 299 < σ₁.numberOfFrames := ready.sameFrames ▸ bound
    have offList₁ := ready.offList detached.offList
    have wf₁ := ready.wf.writeMapping inside ready.named ready.vacant bound₁ offList₁ writeable
      (by rw [unreferenced]; decide)
    have kept := ready.lowBits_written inside (by omega) writeable
    have written := memory_writeMapping σ₁ 299 table 0x1000 6
    have maps : entryTarget (pageEntry (writeMapping σ₁ 299 table 0x1000 6) 256
        (pdx 0x1000) (ptx 0x1000)) = some 299 := by
      rw [pageEntry_of_page_write ready.wf inside ready.named written inside, if_pos ⟨rfl, rfl⟩]
      exact entryTarget_constructEntry (by omega) writeable
    refine ⟨_, free₁, wf₁, bound₁, ?_, ?_⟩
    · rw [wf₁.linked.reaches_iff]
      exact offList₁
    · intro set
      have asked := set _ (mapFrame_same wf₁ inside maps permUser)
      rw [kept] at asked
      exact absurd asked (by decide)

end FosV2
