import FosV2.KernelSpace

/-!
The directory as a page table of itself: at `vpt` the processor finds the page tables, one
behind the other, and at `vpd` the directory. `kern/entry.S` and `lib/entry.S` define the two
symbols for the windows of the kernel and of the user.
-/

namespace FosV2

def pgoff (la : Word) : Word := la &&& 0xFFF

def hardwareWalk (memory : Nat → Nat → Word) (pgdir : Nat) (la : Word) : Option Word :=
  let directoryEntry := memory pgdir (pdx la)
  if ¬present directoryEntry then none
  else
    let entry := memory (entryFrame directoryEntry) (ptx la)
    if ¬present entry then none else some (extractAddress entry ||| pgoff la)

/-- `VPN(la)`, the index into `vpt` -/
def vpn (la : Word) : Word := la >>> 12

/-- `SRL` of `kern/entry.S`: what an arithmetic shift brings in is masked out. -/
def srl (val : Word) (shamt : Nat) : Word := val.sshiftRight shamt &&& ~~~((-1 : Word) <<< (32 - shamt))

/-- `vpd` of `kern/entry.S` -/
def kernelVpd : Word := vpt + srl vpt 10

/-- `vpd` of `lib/entry.S` -/
def userVpd : Word := uvpt + (uvpt >>> 12) * 4

structure ListsItself (memory : Nat → Nat → Word) (pgdir : Nat) (window : Word) : Prop where
  installed : present (memory pgdir (pdx window))
  itself : entryFrame (memory pgdir (pdx window)) = pgdir

theorem pgoff_toNat (la : Word) : (pgoff la).toNat = la.toNat % 4096 := lowBits_toNat la

theorem physicalAddress_toNat (entry la : Word) :
    (extractAddress entry ||| pgoff la).toNat = entry.toNat / 4096 * 4096 + la.toNat % 4096 := by
  have aligned : 2 ^ 12 ∣ (extractAddress entry).toNat := by
    rw [extractAddress_toNat]
    exact Nat.dvd_mul_left _ _
  have small : (pgoff la).toNat < 2 ^ 12 := by
    rw [pgoff_toNat]
    exact Nat.mod_lt _ (by decide)
  rw [AlignedWord.toNat_or_of_aligned _ _ aligned small, extractAddress_toNat, pgoff_toNat]

theorem wordOffset_toNat {j : Nat} (small : j < 1024) : (4 * BitVec.ofNat 32 j : Word).toNat = 4 * j := by
  have value : (4 : Word).toNat = 4 := rfl
  rw [BitVec.toNat_mul, BitVec.toNat_ofNat, value]
  omega

theorem physicalAddress_of_index (entry : Word) {la : Word} {j : Nat}
    (offset : la.toNat % 4096 = 4 * j) :
    extractAddress entry ||| pgoff la = extractAddress entry + 4 * BitVec.ofNat 32 j := by
  have bits := entry.isLt
  have index := wordOffset_toNat (show j < 1024 by omega)
  apply BitVec.eq_of_toNat_eq
  rw [physicalAddress_toNat, BitVec.toNat_add, extractAddress_toNat, index]
  omega

/-- `check_va2pa` gives the page of the walk, where the kernel can reach the page table. -/
theorem checkVa2pa_of_hardwareWalk {σ : State} {pgdir : Nat} {va pa : Word}
    (walk : hardwareWalk σ.memory pgdir va = some pa)
    (reached : entryFrame (σ.memory pgdir (pdx va)) < σ.numberOfFrames) :
    checkVa2pa σ pgdir va = .ok (extractAddress pa) := by
  rw [hardwareWalk] at walk
  split at walk
  · cases walk
  rename_i directory
  dsimp only at walk
  split at walk
  · cases walk
  rename_i table
  have page : extractAddress (σ.memory (entryFrame (σ.memory pgdir (pdx va))) (ptx va)) =
      extractAddress pa := by
    cases walk
    apply BitVec.eq_of_toNat_eq
    rw [extractAddress_toNat, extractAddress_toNat, physicalAddress_toNat]
    omega
  rw [checkVa2pa]
  simp only [directory, if_false, kVirtualAddress_of_lt reached, ok_bind]
  change (if ¬present (σ.memory (entryFrame (σ.memory pgdir (pdx va))) (ptx va)) then _ else _) = _
  rw [if_neg table]
  exact congrArg Except.ok page

section Window

variable {memory : Nat → Nat → Word} {pgdir : Nat} {window va : Word}

theorem listsItself_setupListing {σ : State} (fits : pgdir < 1048576) :
    ListsItself (setupListing σ pgdir).memory pgdir vpt ∧
      ListsItself (setupListing σ pgdir).memory pgdir uvpt := by
  have first : pdx vpt = 959 := by decide
  have second : pdx uvpt = 957 := by decide
  have kernel : (setupListing σ pgdir).memory pgdir (pdx vpt) =
      constructEntry (toPhysicalAddress pgdir) (permWriteable ||| permPresent) := by
    rw [memory_setupListing, first, if_neg (by decide), if_pos rfl]
    rfl
  have user : (setupListing σ pgdir).memory pgdir (pdx uvpt) =
      constructEntry (toPhysicalAddress pgdir) (permUser ||| permPresent) := by
    rw [memory_setupListing, second, if_pos rfl, BitVec.or_assoc]
    rfl
  constructor
  · constructor
    · rw [kernel]
      exact present_constructEntry _ _
    · rw [kernel]
      exact entryFrame_constructEntry fits (by decide)
  · constructor
    · rw [user]
      exact present_constructEntry _ _
    · rw [user]
      exact entryFrame_constructEntry fits (by decide)

/-- Through the window, the directory itself is the page table. -/
theorem ListsItself.walk (self : ListsItself memory pgdir window) {la : Word}
    (inside : pdx la = pdx window) (mapped : present (memory pgdir (ptx la))) :
    hardwareWalk memory pgdir la = some (extractAddress (memory pgdir (ptx la)) ||| pgoff la) := by
  have directory : present (memory pgdir (pdx la)) := inside ▸ self.installed
  have table : entryFrame (memory pgdir (pdx la)) = pgdir := inside ▸ self.itself
  rw [hardwareWalk, if_neg (not_not.mpr directory), table]
  exact if_neg (not_not.mpr mapped)

theorem vpt_toNat (aligned : window.toNat % 4194304 = 0) (va : Word) :
    (window + 4 * vpn va).toNat = window.toNat + 4 * (va.toNat / 4096) := by
  have bits := window.isLt
  have bits' := va.isLt
  have number : (vpn va).toNat = va.toNat / 4096 := by
    rw [← ppn_eq]
    rfl
  have four : (4 * vpn va).toNat = 4 * (va.toNat / 4096) := by
    have value : (4 : Word).toNat = 4 := rfl
    rw [BitVec.toNat_mul, number, value]
    omega
  rw [BitVec.toNat_add, four]
  omega

theorem vpt_fields (aligned : window.toNat % 4194304 = 0) (va : Word) :
    pdx (window + 4 * vpn va) = pdx window ∧ ptx (window + 4 * vpn va) = pdx va ∧
      (window + 4 * vpn va).toNat % 4096 = 4 * ptx va := by
  have bits := window.isLt
  have bits' := va.isLt
  rw [pdx_eq, pdx_eq, ptx_eq, pdx_eq, ptx_eq, vpt_toNat aligned]
  omega

theorem ListsItself.vpt_walk (self : ListsItself memory pgdir window)
    (aligned : window.toNat % 4194304 = 0) (mapped : present (memory pgdir (pdx va))) :
    hardwareWalk memory pgdir (window + 4 * vpn va) =
      some (extractAddress (memory pgdir (pdx va)) + 4 * BitVec.ofNat 32 (ptx va)) := by
  obtain ⟨directory, table, offset⟩ := vpt_fields aligned va
  rw [self.walk directory (by rw [table]; exact mapped), table, physicalAddress_of_index _ offset]

structure ListsPageTables (memory : Nat → Nat → Word) (pgdir : Nat) (window directory : Word) :
    Prop where
  entries : ∀ va, present (memory pgdir (pdx va)) →
    hardwareWalk memory pgdir (window + 4 * vpn va) =
      some (extractAddress (memory pgdir (pdx va)) + 4 * BitVec.ofNat 32 (ptx va))
  inside : ∀ va, window ≤ va → va.toNat < window.toNat + ptSize.toNat →
    hardwareWalk memory pgdir (window + 4 * vpn va) =
      some (toPhysicalAddress pgdir + 4 * BitVec.ofNat 32 (ptx va))
  directory : ∀ i < npdEntries, hardwareWalk memory pgdir (directory + 4 * BitVec.ofNat 32 i) =
    some (toPhysicalAddress pgdir + 4 * BitVec.ofNat 32 i)

theorem ListsItself.listsPageTables (self : ListsItself memory pgdir window) {vpd : Word}
    (aligned : window.toNat % 4194304 = 0) (start : vpd = window + 4 * vpn window) :
    ListsPageTables memory pgdir window vpd := by
  have bits := window.isLt
  have fits : pgdir < 1048576 := by
    have bits' := (memory pgdir (pdx window)).isLt
    rw [← self.itself, entryFrame_eq]
    omega
  have itself : extractAddress (memory pgdir (pdx window)) = toPhysicalAddress pgdir :=
    (extractAddress_eq_iff fits).mpr self.itself
  have inside : ∀ va, window ≤ va → va.toNat < window.toNat + ptSize.toNat →
      hardwareWalk memory pgdir (window + 4 * vpn va) =
        some (toPhysicalAddress pgdir + 4 * BitVec.ofNat 32 (ptx va)) := by
    intro va above below
    have size : ptSize.toNat = 4194304 := rfl
    have above' : window.toNat ≤ va.toNat := above
    have same : pdx va = pdx window := by
      rw [pdx_eq, pdx_eq]
      omega
    rw [self.vpt_walk aligned (same ▸ self.installed), same, itself]
  refine ⟨fun va mapped => self.vpt_walk aligned mapped, inside, fun i below => ?_⟩
  have count : npdEntries = 1024 := rfl
  have page : (BitVec.ofNat 32 (4096 * i)).toNat = 4096 * i := by
    rw [BitVec.toNat_ofNat]
    omega
  have va : (window + BitVec.ofNat 32 (4096 * i)).toNat = window.toNat + 4096 * i := by
    rw [BitVec.toNat_add, page]
    omega
  have index : ptx (window + BitVec.ofNat 32 (4096 * i)) = i := by
    rw [ptx_eq, va]
    omega
  have size : ptSize.toNat = 4194304 := rfl
  have found := inside (window + BitVec.ofNat 32 (4096 * i)) (by rw [BitVec.le_def]; omega)
    (by omega)
  have address : window + 4 * vpn (window + BitVec.ofNat 32 (4096 * i)) =
      vpd + 4 * BitVec.ofNat 32 i := by
    apply BitVec.eq_of_toNat_eq
    rw [start, vpt_toNat aligned, va, BitVec.toNat_add, vpt_toNat aligned, wordOffset_toNat below]
    omega
  rw [address, index] at found
  exact found

/-- In both windows, `vpt` lists the page tables and `vpd` the directory. -/
theorem pageTablesListed (memory : Nat → Nat → Word) (pgdir : Nat) :
    (ListsItself memory pgdir vpt → ListsPageTables memory pgdir vpt kernelVpd) ∧
      (ListsItself memory pgdir uvpt → ListsPageTables memory pgdir uvpt userVpd) :=
  ⟨fun self => self.listsPageTables (by decide) (by decide),
    fun self => self.listsPageTables (by decide) (by decide)⟩

end Window

/-- What `setup_listing_to_all_page_tables_entries` writes is enough. -/
theorem pageTablesListed_setupListing :
    ListsPageTables (setupListing smallMachine 256).memory 256 vpt kernelVpd ∧
      ListsPageTables (setupListing smallMachine 256).memory 256 uvpt userVpd :=
  ⟨(pageTablesListed _ _).1 (listsItself_setupListing (by decide)).1,
    (pageTablesListed _ _).2 (listsItself_setupListing (by decide)).2⟩

end FosV2
