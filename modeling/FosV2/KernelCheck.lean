import FosV2.KernelSpace

/-!
`check_boot_pgdir` on the finished directory: it passes, so `initialize_kernel_VM` returns
whenever the physical memory holds its structures, and leaves kernel space as it was mapped.
-/

namespace FosV2

open TwoLevelTable

theorem present_or {entry other : Word} (isPresent : present entry) : present (entry ||| other) := by
  unfold present at isPresent ⊢
  apply BitVec.eq_of_getLsbD_eq
  intro i below
  have bit := congrArg (fun word : Word => word.getLsbD i) isPresent
  simp only [BitVec.getLsbD_and, BitVec.getLsbD_or] at bit ⊢
  revert bit
  cases entry.getLsbD i <;> cases permPresent.getLsbD i <;> simp

theorem present_bootTableEntry (table : Nat) : present (bootTableEntry table) := by
  have bits : permPresent ||| permWriteable = permWriteable ||| permPresent := by decide
  rw [bootTableEntry, bits]
  exact present_constructEntry _ _

theorem extractAddress_of_aligned {pa perm : Word} (aligned : pa.toNat % 4096 = 0)
    (small : perm.toNat < 4096) : extractAddress (constructEntry pa perm) = pa := by
  have divides : 2 ^ 12 ∣ pa.toNat := Nat.dvd_of_mod_eq_zero aligned
  apply BitVec.eq_of_toNat_eq
  rw [extractAddress_toNat, constructEntry, AlignedWord.toNat_or_of_aligned pa perm divides small]
  omega

theorem BootRange.extractAddress_entry {range : BootRange} {page : Nat}
    (aligned : range.physicalAddress.toNat % 4096 = 0) (small : range.perm.toNat < 4096) :
    extractAddress (range.entry page) =
      range.physicalAddress + toPhysicalAddress (page - range.firstPage) := by
  apply extractAddress_of_aligned
  · rw [BitVec.toNat_add, toPhysicalAddress_eq, BitVec.toNat_ofNat]
    omega
  · exact or_present_toNat_lt small

section Check

variable {image : BootImage} {σ₀ σ : State} {pgdir : Nat}

theorem checkVa2pa_of_entries {page table : Nat} {pa : Word} (fits : page < 1048576)
    (isPresent : present (σ.memory pgdir (page / 1024)))
    (named : entryFrame (σ.memory pgdir (page / 1024)) = table) (bound : table < σ.numberOfFrames)
    (maps : present (σ.memory table (page % 1024)))
    (address : extractAddress (σ.memory table (page % 1024)) = pa) :
    checkVa2pa σ pgdir (toPhysicalAddress page) = .ok pa := by
  have found : kVirtualAddress σ (extractAddress (σ.memory pgdir (page / 1024))) = .ok table := by
    rw [← named] at bound ⊢
    exact kVirtualAddress_of_lt bound
  have noFault : ¬¬present (σ.memory pgdir (page / 1024)) := not_not.mpr isPresent
  have noFault' : ¬¬present (σ.memory table (page % 1024)) := not_not.mpr maps
  simp only [checkVa2pa, pdx_toPhysicalAddress fits, ptx_toPhysicalAddress fits, noFault, if_false,
    found, ok_bind, noFault', address]
  rfl

theorem checkRange_returns {test : Word → Bool} {first : Nat} {pa : Word} (pages : Nat)
    (continues : ∀ k < pages, test (toPhysicalAddress k) = true)
    (stops : test (toPhysicalAddress pages) = false) (few : pages ≤ 1048576)
    (found : ∀ k < pages, checkVa2pa σ pgdir (toPhysicalAddress (first + k)) =
      .ok (pa + toPhysicalAddress k)) :
    ∃ i, checkRange σ pgdir test (toPhysicalAddress first) pa = .ok i := by
  have turns : ∀ turn < pages, ∀ i, i = toPhysicalAddress turn → test i = true ∧ ∃ next,
      (do
        let found ← checkVa2pa σ pgdir (toPhysicalAddress first + i)
        assertThat (found = pa + i)
        return i + pageSize) = Except.ok next ∧ next = toPhysicalAddress (turn + 1) := by
    rintro turn more i rfl
    refine ⟨continues turn more, toPhysicalAddress turn + pageSize, ?_, ?_⟩
    · rw [← toPhysicalAddress_add, found turn more, ok_bind, assertThat, if_pos (by simp), ok_bind]
      rfl
    · rw [toPhysicalAddress_add, toPhysicalAddress_one]
  have fuel : pages < 0 + pageLoopFuel := by
    unfold pageLoopFuel
    omega
  obtain ⟨i, result, _⟩ := WhileLoop.run_of_invariant turns (fun i last => last ▸ stops)
    (Nat.zero_le pages) toPhysicalAddress_zero.symm fuel
  exact ⟨i, result⟩

theorem checkVa2pa_of_range (range : BootRange) {page table : Nat} (fits : page < 1048576)
    (named : σ.memory pgdir (page / 1024) = bootTableEntry table) (bound : table < σ.numberOfFrames)
    (small : table < 1048576) (maps : σ.memory table (page % 1024) = range.entry page)
    (aligned : range.physicalAddress.toNat % 4096 = 0) (perm : range.perm.toNat < 4096) :
    checkVa2pa σ pgdir (toPhysicalAddress page) =
      .ok (range.physicalAddress + toPhysicalAddress (page - range.firstPage)) := by
  have target : entryFrame (σ.memory pgdir (page / 1024)) = table := by
    rw [named, bootTableEntry, entryFrame_constructEntry small (by decide)]
  apply checkVa2pa_of_entries fits ?_ target bound
  · rw [maps]
    exact present_constructEntry _ _
  · rw [maps, BootRange.extractAddress_entry aligned perm]
  · rw [named]
    exact present_bootTableEntry table

section Space

variable (space : KernelSpace image σ₀ σ)
include space

theorem KernelSpace.checkKernel {k : Nat} (below : k < 65536) :
    checkVa2pa σ image.directory (toPhysicalAddress (983040 + k)) =
      .ok (0 + toPhysicalAddress k) := by
  have enough := space.enough
  obtain ⟨_, _, framesInfo, _, _, firstFree⟩ := image.layout σ₀.numberOfFrames
  have bounds := image.directory_bounds
  have frames := space.sameFrames
  obtain ⟨table, low, high, entry, content⟩ :=
    space.kernelWindow ((983040 + k) / 1024) (by omega) (by omega)
  have page := content ((983040 + k) % 1024) (by omega)
  rw [Nat.div_add_mod] at page
  have found := checkVa2pa_of_range image.kernelRange (by omega) entry (by omega) (by omega) page
    (by decide : (0 : Word).toNat % 4096 = 0) (by decide : permWriteable.toNat < 4096)
  rw [found]
  change Except.ok (0 + toPhysicalAddress (983040 + k - 983040)) = _
  rw [Nat.add_sub_cancel_left]

theorem KernelSpace.checkFramesInfo (limit : σ₀.numberOfFrames ≤ 16639) {k : Nat}
    (below : k < framesInfoPages σ₀.numberOfFrames) :
    checkVa2pa σ image.directory (toPhysicalAddress (978944 + k)) =
      .ok (toPhysicalAddress image.framesInfo + toPhysicalAddress k) := by
  have few := framesInfoPages_le limit
  have enough := space.enough
  obtain ⟨_, _, framesInfo, framesTable, _, firstFree⟩ := image.layout σ₀.numberOfFrames
  have bounds := image.directory_bounds
  have frames := space.sameFrames
  have window : (978944 + k) / 1024 = 956 := by omega
  have maps : σ.memory (image.framesTable σ₀.numberOfFrames) ((978944 + k) % 1024) =
      image.framesRange.entry (978944 + k) := by
    have slot : (978944 + k) % 1024 = k := by omega
    rw [slot, space.framesInfo k (by omega), if_pos below]
  have aligned : image.framesRange.physicalAddress.toNat % 4096 = 0 := by
    change (toPhysicalAddress image.framesInfo).toNat % 4096 = 0
    rw [toPhysicalAddress_toNat (by omega)]
    omega
  have found := checkVa2pa_of_range image.framesRange (by omega) (window ▸ space.framesWindow)
    (by omega) (by omega) maps aligned (by decide : permUser.toNat < 4096)
  rw [found]
  change Except.ok (toPhysicalAddress image.framesInfo + toPhysicalAddress (978944 + k - 978944)) = _
  rw [Nat.add_sub_cancel_left]

theorem KernelSpace.checkStack {k : Nat} (below : k < 8) :
    checkVa2pa σ image.directory (toPhysicalAddress (982008 + k)) =
      .ok (image.ptrStackBottom - kernelBase + toPhysicalAddress k) := by
  have enough := space.enough
  obtain ⟨stackTable, _, _, _, _, firstFree⟩ := image.layout σ₀.numberOfFrames
  have bounds := image.directory_bounds
  have frames := space.sameFrames
  have window : (982008 + k) / 1024 = 958 := by omega
  have maps : σ.memory image.stackTable ((982008 + k) % 1024) =
      image.stackRange.entry (982008 + k) := by
    have slot : (982008 + k) % 1024 = 1016 + k := by omega
    rw [slot, space.stack (1016 + k) (by omega), if_pos (by omega)]
    congr 1
    omega
  have found := checkVa2pa_of_range image.stackRange (by omega) (window ▸ space.stackWindow)
    (by omega) (by omega) maps (stackBottom_aligned image) (by decide : permWriteable.toNat < 4096)
  rw [found]
  change Except.ok (_ + toPhysicalAddress (982008 + k - 982008)) = _
  rw [Nat.add_sub_cancel_left]
  rfl

theorem KernelSpace.directory_ne_zero_iff {i : Nat} (inside : i < 1024) :
    σ.memory image.directory i ≠ 0 ↔ 955 ≤ i := by
  constructor
  · intro mapped
    by_contra below
    exact mapped (space.user i (by omega))
  · intro above
    apply ne_zero_of_present
    by_cases kernel : 960 ≤ i
    · obtain ⟨table, _, _, entry, _⟩ := space.kernelWindow i kernel inside
      rw [entry]
      exact present_bootTableEntry table
    · have window : i = 955 ∨ i = 956 ∨ i = 957 ∨ i = 958 ∨ i = 959 := by omega
      rcases window with rfl | rfl | rfl | rfl | rfl
      · rw [space.envsWindow]
        exact present_or (present_bootTableEntry _)
      · rw [space.framesWindow]
        exact present_bootTableEntry _
      · rw [space.uvptWindow, BitVec.or_assoc]
        exact present_constructEntry _ permUser
      · rw [space.stackWindow]
        exact present_bootTableEntry _
      · rw [space.vptWindow]
        exact present_bootTableEntry _

end Space

theorem mustBeMapped_iff (i : Nat) : mustBeMapped i = true ↔ 955 ≤ i := by
  have first : pdx vpt = 959 := by decide
  have second : pdx uvpt = 957 := by decide
  have third : pdx (kernelStackTop - 1) = 958 := by decide
  have fourth : pdx uenvs = 955 := by decide
  have fifth : pdx readOnlyFramesInfo = 956 := by decide
  have sixth : pdx kernelBase = 960 := by decide
  rw [mustBeMapped, decide_eq_true_iff, first, second, third, fourth, fifth, sixth]
  omega

theorem forM_ok {ε α : Type} {body : α → Except ε Unit} {items : List α}
    (each : ∀ item ∈ items, body item = .ok ()) : items.forM body = .ok () := by
  induction items with
  | nil => rfl
  | cons item rest ih =>
      change (body item >>= fun _ => rest.forM body) = .ok ()
      rw [each item List.mem_cons_self]
      exact ih fun other member => each other (List.mem_cons_of_mem item member)

theorem KernelSpace.checkBootPgdir (space : KernelSpace image σ₀ σ) (some : 0 < σ₀.numberOfFrames)
    (limit : σ₀.numberOfFrames ≤ 16639) {framesInfo : Word}
    (pointer : framesInfo.toNat = 4026531840 + 4096 * image.framesInfo) :
    checkBootPgdir image σ image.directory framesInfo = .ok () := by
  have few := framesInfoPages_le limit
  have bounds := image.directory_bounds
  have place : image.framesInfo = image.directory + 66 := rfl
  have base : kernelBase.toNat = 4026531840 := by decide
  have physical : kPhysicalAddress framesInfo = .ok (toPhysicalAddress image.framesInfo) := by
    rw [kPhysicalAddress_of_le (by rw [BitVec.le_def, pointer, base]; omega)]
    refine congrArg Except.ok (BitVec.eq_of_toNat_eq ?_)
    rw [BitVec.toNat_sub, pointer, base, toPhysicalAddress_toNat (by omega)]
    omega
  have arrayEnd : (roundUp (BitVec.ofNat 32 σ.numberOfFrames * sizeofFrameInfo) pageSize).toNat =
      4096 * framesInfoPages σ₀.numberOfFrames := by
    rw [space.sameFrames, roundUp_toNat, arraySize_toNat limit]
    unfold framesInfoPages
    omega
  obtain ⟨_, first⟩ : ∃ i, checkRange σ image.directory
      (fun i => i < roundUp (BitVec.ofNat 32 σ.numberOfFrames * sizeofFrameInfo) pageSize)
      readOnlyFramesInfo (toPhysicalAddress image.framesInfo) = .ok i := by
    have address : readOnlyFramesInfo = toPhysicalAddress 978944 := by decide
    rw [address]
    apply checkRange_returns (framesInfoPages σ₀.numberOfFrames)
    · intro k below
      rw [decide_eq_true_iff, BitVec.lt_def, arrayEnd, toPhysicalAddress_toNat (by omega)]
      omega
    · rw [decide_eq_false_iff_not, BitVec.lt_def, arrayEnd, toPhysicalAddress_toNat (by omega)]
      omega
    · omega
    · exact fun k below => space.checkFramesInfo limit below
  obtain ⟨_, second⟩ : ∃ i, checkRange σ image.directory (fun i => kernelBase + i ≠ 0) kernelBase 0 =
      .ok i := by
    have address : kernelBase = toPhysicalAddress 983040 := by decide
    rw [address]
    apply checkRange_returns 65536
    · intro k below
      rw [decide_eq_true_iff, ← toPhysicalAddress_add]
      intro zero
      have fits : 983040 + k < 1048576 := by omega
      have number := toPhysicalAddress_toNat fits
      rw [zero] at number
      have none : (0 : Word).toNat = 0 := rfl
      omega
    · decide
    · omega
    · exact fun k below => space.checkKernel below
  obtain ⟨_, third⟩ : ∃ i, checkRange σ image.directory (fun i => i < kernelStackSize)
      (kernelStackTop - kernelStackSize) (image.ptrStackBottom - kernelBase) = .ok i := by
    have address : kernelStackTop - kernelStackSize = toPhysicalAddress 982008 := by decide
    rw [address]
    apply checkRange_returns 8
    · decide
    · decide
    · omega
    · exact fun k below => space.checkStack below
  have entries : (List.range npdEntries).forM (fun i => assertThat
      (if mustBeMapped i then σ.memory image.directory i ≠ 0
        else σ.memory image.directory i = 0)) = .ok () := by
    apply forM_ok
    intro i member
    have inside : i < 1024 := List.mem_range.mp member
    have mapped := space.directory_ne_zero_iff inside
    rw [assertThat, if_pos]
    by_cases must : mustBeMapped i = true
    · rw [if_pos must, decide_eq_true_iff]
      exact mapped.mpr ((mustBeMapped_iff i).mp must)
    · rw [if_neg must, decide_eq_true_iff]
      by_contra nonzero
      exact must ((mustBeMapped_iff i).mpr (mapped.mp nonzero))
  simp only [FosV2.checkBootPgdir, physical, ok_bind, first, second,
    kPhysicalAddress_stackBottom image, third]
  exact entries

end Check

/-- Entry 0 is borrowed while paging is switched on, and given back. -/
theorem turnOnPaging_eq {σ : State} {pgdir : Nat} (empty : σ.memory pgdir 0 = 0) :
    turnOnPaging σ pgdir = σ := by
  have restored : write (write σ.memory pgdir 0 (σ.memory pgdir (pdx kernelBase))) pgdir 0 0 =
      σ.memory := by
    funext frame j
    rw [write_apply, write_apply]
    by_cases here : frame = pgdir ∧ j = 0
    · rw [if_pos here, here.1, here.2, empty]
    · rw [if_neg here, if_neg here]
  change ({ σ with memory := write (write σ.memory pgdir 0 _) pgdir 0 0 } : State) = σ
  rw [restored]

theorem initializeKernelVM_cases (image : BootImage) {σ₀ : State} (unused : σ₀.ptrFreeMem = 0)
    (limit : σ₀.numberOfFrames ≤ 16639) :
    (∃ vm, initializeKernelVM image σ₀ = .ok vm ∧ vm.ptrPageDirectory = image.directory ∧
        KernelSpace image σ₀ vm.state) ∨
      (∃ stop, initializeKernelVM image σ₀ = .error stop) ∧
        σ₀.numberOfFrames < image.firstFree σ₀.numberOfFrames := by
  rcases mapKernelSpace_cases image unused limit with
    ⟨vm, returned, pgdir, pointer, space⟩ | ⟨⟨stop, failed⟩, short⟩
  · refine Or.inl ⟨{ vm with state := turnOnPaging vm.state vm.ptrPageDirectory }, ?_, pgdir, ?_⟩
    · have some : 0 < σ₀.numberOfFrames := by
        have enough := space.enough
        have place : image.firstFree σ₀.numberOfFrames =
          image.directory + 93 + framesInfoPages σ₀.numberOfFrames := rfl
        omega
      have checked := space.checkBootPgdir some limit pointer
      rw [← pgdir] at checked
      simp only [initializeKernelVM, returned, ok_bind, checked]
      rfl
    · change KernelSpace image σ₀ (turnOnPaging vm.state vm.ptrPageDirectory)
      rw [pgdir, turnOnPaging_eq (space.user 0 (by omega))]
      exact space
  · refine Or.inr ⟨⟨stop, ?_⟩, short⟩
    rw [initializeKernelVM, failed, error_bind]

end FosV2
