import FosV2.BootHandover
import FosV2.KernelVM
import Mathlib.Algebra.BigOperators.Group.List.Basic

/-!
What the header of `boot_allocate_space` promises for a sequence of requests: blocks that are
aligned as asked, above the kernel, apart from each other and in physical memory, or a panic.
The function rounds to pages whatever the alignment is, and it does not look for the end of
the memory.
-/

namespace FosV2

open BumpAllocator

def InBlock (block : Word × Word) (byte : Nat) : Prop :=
  block.1.toNat ≤ byte ∧ byte < block.1.toNat + block.2.toNat

def Apart (first second : Word × Word) : Prop :=
  ∀ byte, InBlock first byte → ¬InBlock second byte

structure Grants (endOfKernel maxpa : Word) (request block : Word × Word) : Prop where
  aligned : request.2.toNat ∣ block.1.toNat
  aboveKernel : endOfKernel ≤ block.1
  inMemory : block.1.toNat + block.2.toNat ≤ kernelBase.toNat + maxpa.toNat

structure AllGranted (endOfKernel maxpa : Word) (requests : List (Word × Word)) (σ : State) :
    Prop where
  grants : List.Forall₂ (Grants endOfKernel maxpa) requests
    (bootAllocations endOfKernel requests σ).1
  apart : (bootAllocations endOfKernel requests σ).1.Pairwise Apart

def pageBytes (requests : List (Word × Word)) : Nat :=
  (requests.map fun request => alignUp 4096 request.1.toNat).sum

def FitFrom (start top : Nat) (requests : List (Word × Word)) : Prop :=
  ∀ earlier request later, requests = earlier ++ request :: later →
    request.2.toNat ∣ start + pageBytes earlier ∧
      start + pageBytes earlier + request.1.toNat ≤ top

def RequestsFit (endOfKernel maxpa : Word) (requests : List (Word × Word)) : Prop :=
  FitFrom (alignUp 4096 endOfKernel.toNat) (kernelBase.toNat + maxpa.toNat) requests

theorem fitFrom_cons {start top : Nat} {size align : Word} {requests : List (Word × Word)} :
    FitFrom start top ((size, align) :: requests) ↔
      (align.toNat ∣ start ∧ start + size.toNat ≤ top) ∧
        FitFrom (start + alignUp 4096 size.toNat) top requests := by
  constructor
  · intro fit
    refine ⟨fit [] _ requests rfl, ?_⟩
    intro earlier request later split
    have here := fit ((size, align) :: earlier) request later (by rw [split, List.cons_append])
    rw [pageBytes, List.map_cons, List.sum_cons, ← Nat.add_assoc] at here
    exact here
  · rintro ⟨first, rest⟩ earlier request later split
    cases earlier with
    | nil =>
        cases split
        exact first
    | cons head earlier =>
        cases split
        rw [pageBytes, List.map_cons, List.sum_cons, ← Nat.add_assoc]
        exact rest earlier request later rfl

section Requests

variable (kernel : KernelImage) {maxpa : Word} {requests : List (Word × Word)} {σ : State}
  {start : Nat}

structure NextBlock (maxpa : Word) (start : Nat) (σ : State) : Prop where
  start_eq : kernel.arena.start σ.ptrFreeMem.toNat = start
  aligned : 4096 ∣ start
  above : kernel.endOfKernel.toNat ≤ start
  below : start ≤ kernelBase.toNat + maxpa.toNat
  memory : 4096 ∣ kernelBase.toNat + maxpa.toNat
  inSpace : kernelBase.toNat + maxpa.toNat < 4294967296

variable {kernel}

theorem NextBlock.ptr (next : NextBlock kernel maxpa start σ) (size align : Word) :
    (bootAllocateSpace kernel.endOfKernel σ size align).1.toNat = start := by
  have below := next.below
  have inSpace := next.inSpace
  rw [bootAllocateSpace_ptr, next.start_eq, BitVec.toNat_ofNat]
  omega

theorem NextBlock.grants_iff (next : NextBlock kernel maxpa start σ) {size align : Word} :
    Grants kernel.endOfKernel maxpa (size, align)
        ((bootAllocateSpace kernel.endOfKernel σ size align).1, size) ↔
      align.toNat ∣ start ∧ start + size.toNat ≤ kernelBase.toNat + maxpa.toNat := by
  have ptr := next.ptr size align
  constructor
  · rintro ⟨aligned, _, inMemory⟩
    dsimp only at aligned inMemory
    rw [ptr] at aligned inMemory
    exact ⟨aligned, inMemory⟩
  · rintro ⟨aligned, inMemory⟩
    refine ⟨?_, ?_, ?_⟩
    · rwa [ptr]
    · rw [BitVec.le_def, ptr]
      exact next.above
    · rwa [ptr]

theorem NextBlock.allocate (next : NextBlock kernel maxpa start σ) {size : Word} (align : Word)
    (inMemory : start + size.toNat ≤ kernelBase.toNat + maxpa.toNat) :
    NextBlock kernel maxpa (start + alignUp 4096 size.toNat)
      (bootAllocateSpace kernel.endOfKernel σ size align).2 := by
  obtain ⟨pages, rfl⟩ := next.aligned
  have above := next.above
  have inSpace := next.inSpace
  have low := kernel.low
  have pages_eq : alignUp 4096 (4096 * pages + size.toNat) =
      4096 * pages + alignUp 4096 size.toNat := by
    unfold alignUp
    omega
  have pointer : (4096 * pages + size.toNat) % 4294967296 = 4096 * pages + size.toNat :=
    Nat.mod_eq_of_lt (by omega)
  have reached := alignUp_le (by omega) next.memory inMemory
  rw [pages_eq] at reached
  constructor
  · rw [bootAllocateSpace_next, next.start_eq, pointer, Arena.start, if_neg (by omega)]
    exact pages_eq
  · exact Nat.dvd_add ⟨pages, rfl⟩ ⟨_, Nat.mul_comm _ _⟩
  · omega
  · exact reached
  · exact next.memory
  · exact inSpace

theorem NextBlock.grants_all_iff (next : NextBlock kernel maxpa start σ) :
    List.Forall₂ (Grants kernel.endOfKernel maxpa) requests
        (bootAllocations kernel.endOfKernel requests σ).1 ↔
      FitFrom start (kernelBase.toNat + maxpa.toNat) requests := by
  induction requests generalizing σ start with
  | nil =>
      constructor
      · intro _ earlier request later split
        cases earlier <;> cases split
      · exact fun _ => List.Forall₂.nil
  | cons request requests ih =>
      obtain ⟨size, align⟩ := request
      rw [bootAllocations, fitFrom_cons]
      dsimp only
      rw [List.forall₂_cons, next.grants_iff]
      constructor
      · rintro ⟨first, rest⟩
        exact ⟨first, (ih (next.allocate align first.2)).mp rest⟩
      · rintro ⟨first, rest⟩
        exact ⟨first, (ih (next.allocate align first.2)).mpr rest⟩

/-- Blocks that end in memory come one after the other. -/
theorem NextBlock.apart (next : NextBlock kernel maxpa start σ)
    (fit : FitFrom start (kernelBase.toNat + maxpa.toNat) requests) :
    (∀ block ∈ (bootAllocations kernel.endOfKernel requests σ).1, start ≤ block.1.toNat) ∧
      (bootAllocations kernel.endOfKernel requests σ).1.Pairwise Apart := by
  induction requests generalizing σ start with
  | nil => exact ⟨by simp [bootAllocations], List.Pairwise.nil⟩
  | cons request requests ih =>
      obtain ⟨size, align⟩ := request
      obtain ⟨first, rest⟩ := fitFrom_cons.mp fit
      obtain ⟨later, apart⟩ := ih (next.allocate align first.2) rest
      have ptr := next.ptr size align
      have size_le := le_alignUp (by omega : 0 < 4096) size.toNat
      rw [bootAllocations]
      dsimp only
      constructor
      · intro block member
        rcases List.mem_cons.mp member with rfl | belongs
        · exact ptr.ge
        · have := later block belongs
          omega
      · refine List.pairwise_cons.mpr ⟨?_, apart⟩
        rintro block belongs byte ⟨_, inside⟩ ⟨outside, _⟩
        have := later block belongs
        dsimp only at inside
        omega

end Requests

theorem memory_detectMemory (baseReading extendedReading : BitVec 16) :
    4096 ∣ kernelBase.toNat + (detectMemory baseReading extendedReading).maxpa.toNat ∧
      kernelBase.toNat + (detectMemory baseReading extendedReading).maxpa.toNat < 4294967296 := by
  have bound := extendedReading.isLt
  have base : kernelBase.toNat = 4026531840 := by decide
  rw [maxpa_detectMemory, base]
  split <;> omega

/-- When a sequence of requests is granted as the header says, exactly. -/
theorem allGranted_iff (kernel : KernelImage) (baseReading extendedReading : BitVec 16)
    (requests : List (Word × Word)) {σ : State} (fresh : σ.ptrFreeMem = 0) :
    AllGranted kernel.endOfKernel (detectMemory baseReading extendedReading).maxpa requests σ ↔
      RequestsFit kernel.endOfKernel (detectMemory baseReading extendedReading).maxpa requests := by
  obtain ⟨memory, inSpace⟩ := memory_detectMemory baseReading extendedReading
  generalize (detectMemory baseReading extendedReading).maxpa = maxpa at memory inSpace ⊢
  have origin : kernel.arena.start σ.ptrFreeMem.toNat = alignUp 4096 kernel.endOfKernel.toNat := by
    have zero : (0 : Word).toNat = 0 := rfl
    rw [fresh, zero, Arena.start, if_pos rfl]
    rfl
  have above : kernel.endOfKernel.toNat ≤ alignUp 4096 kernel.endOfKernel.toNat :=
    le_alignUp (by omega) _
  by_cases below : alignUp 4096 kernel.endOfKernel.toNat ≤ kernelBase.toNat + maxpa.toNat
  · have next : NextBlock kernel maxpa (alignUp 4096 kernel.endOfKernel.toNat) σ :=
      ⟨origin, ⟨_, Nat.mul_comm _ _⟩, above, below, memory, inSpace⟩
    constructor
    · intro granted
      exact next.grants_all_iff.mp granted.grants
    · intro fit
      exact ⟨next.grants_all_iff.mpr fit, (next.apart fit).2⟩
  · -- The kernel itself ends above physical memory: only the empty sequence is granted.
    cases requests with
    | nil =>
        constructor
        · intro _ earlier request later split
          cases earlier <;> cases split
        · exact fun _ => ⟨List.Forall₂.nil, List.Pairwise.nil⟩
    | cons request requests =>
        obtain ⟨size, align⟩ := request
        constructor
        · intro granted
          have grants := granted.grants
          rw [bootAllocations] at grants
          obtain ⟨_, aboveKernel, inMemory⟩ := (List.forall₂_cons.mp grants).1
          dsimp only at aboveKernel inMemory
          rw [BitVec.le_def, bootAllocateSpace_ptr, origin, BitVec.toNat_ofNat] at aboveKernel
          rw [bootAllocateSpace_ptr, origin, BitVec.toNat_ofNat] at inMemory
          have low := kernel.low
          have wide := kernel.endOfKernel.isLt
          unfold alignUp at *
          omega
        · intro fit
          have first := (fit [] _ requests rfl).2
          rw [pageBytes, List.map_nil, List.sum_nil] at first
          omega

theorem allGranted_directoryAndEnvs :
    AllGranted 0xF0200000 (detectMemory 640 3072).maxpa [(0x1000, 0x1000), (102400, 0x1000)]
      machineAtBoot := by
  refine (allGranted_iff kernelOfTwoMegabytes 640 3072 _ rfl).mpr ?_
  rw [RequestsFit, fitFrom_cons, fitFrom_cons, maxpa_detectMemory]
  refine ⟨by decide, by decide, ?_⟩
  intro earlier request later split
  cases earlier <;> cases split

/-- Two pages are asked for, the second one at a multiple of two pages. -/
theorem not_allGranted_twoPages :
    ¬AllGranted 0xF0200000 (detectMemory 640 3072).maxpa [(0x1000, 0x1000), (0x1000, 0x2000)]
      machineAtBoot := by
  intro granted
  have blocks : (bootAllocations 0xF0200000 [(0x1000, 0x1000), (0x1000, 0x2000)] machineAtBoot).1 =
      [(0xF0200000, 0x1000), (0xF0201000, 0x1000)] := by decide
  have grants := granted.grants
  rw [blocks, List.forall₂_cons, List.forall₂_cons] at grants
  exact absurd grants.2.1.aligned (by decide)

end FosV2
