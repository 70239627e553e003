import FosV2.BootMapping
import FosV2.Environments

/-!
`initialize_kernel_VM` of `kern/memory_manager.c` with what it calls in `kern/helpers.c`:
the kernel half of the address space, written range by range, checked, and switched on.
The sizes of `struct Frame_Info` and `struct Env` are those of the 32-bit target.
-/

namespace FosV2

open TwoLevelTable

def sizeofFrameInfo : Word := 12
def sizeofEnv : Word := 100

/-- The kernel as it is loaded: `ptr_stack_bottom` is a page-aligned symbol of its data
segment, and `turn_on_paging` "limits our kernel to <4MB". -/
structure BootImage extends KernelImage where
  ptrStackBottom : Word
  stackAligned : ptrStackBottom % pageSize = 0
  stackAbove : kernelBase + physExtendedMem ≤ ptrStackBottom
  stackBelow : ptrStackBottom < endOfKernel
  small : endOfKernel ≤ kernelBase + ptSize

structure DetectedMemory where
  sizeOfBaseMem : Word
  sizeOfExtendedMem : Word
  maxpa : Word
  numberOfFrames : Word

/-- The two readings of the NVRAM are in kilobytes. -/
def detectMemory (baseReading extendedReading : BitVec 16) : DetectedMemory :=
  let sizeOfBaseMem := roundDown (baseReading.setWidth 32 * 1024) pageSize
  let sizeOfExtendedMem := roundDown (extendedReading.setWidth 32 * 1024) pageSize
  let maxpa := if sizeOfExtendedMem ≠ 0 then physExtendedMem + sizeOfExtendedMem
    else sizeOfExtendedMem
  ⟨sizeOfBaseMem, sizeOfExtendedMem, maxpa, maxpa / pageSize⟩

def setupListing (σ : State) (pgdir : Nat) : State :=
  let physFrameAddress := toPhysicalAddress pgdir
  let σ := σ.setWord pgdir (pdx vpt)
    (constructEntry physFrameAddress (permPresent ||| permWriteable))
  σ.setWord pgdir (pdx uvpt) (physFrameAddress ||| permUser ||| permPresent)

/-- The two writes to entry 0; the processor's registers are not part of the state. -/
def turnOnPaging (σ : State) (pgdir : Nat) : State :=
  let σ := σ.setWord pgdir 0 (σ.memory pgdir (pdx kernelBase))
  σ.setWord pgdir 0 0

def assertThat (condition : Bool) : Except Stop Unit :=
  if condition then .ok () else .error .assertionFailed

/-- `for (i = 0; test(i); i += PAGE_SIZE) assert(check_va2pa(pgdir, va + i) == pa + i);` -/
def checkRange (σ : State) (pgdir : Nat) (test : Word → Bool) (va pa : Word) :
    Except Stop Word :=
  WhileLoop.run test (fun i => do
    let found ← checkVa2pa σ pgdir (va + i)
    assertThat (found = pa + i)
    return i + pageSize) .endlessLoop pageLoopFuel 0

def mustBeMapped (i : Nat) : Bool :=
  i = pdx vpt ∨ i = pdx uvpt ∨ i = pdx (kernelStackTop - 1) ∨ i = pdx uenvs ∨
    i = pdx readOnlyFramesInfo ∨ pdx kernelBase ≤ i

def checkBootPgdir (image : BootImage) (σ : State) (pgdir : Nat) (framesInfo : Word) :
    Except Stop Unit := do
  let n := roundUp (BitVec.ofNat 32 σ.numberOfFrames * sizeofFrameInfo) pageSize
  let physFramesInfo ← kPhysicalAddress framesInfo
  let _ ← checkRange σ pgdir (fun i => i < n) readOnlyFramesInfo physFramesInfo
  let _ ← checkRange σ pgdir (fun i => kernelBase + i ≠ 0) kernelBase 0
  let physStackBottom ← kPhysicalAddress image.ptrStackBottom
  let _ ← checkRange σ pgdir (fun i => i < kernelStackSize) (kernelStackTop - kernelStackSize)
    physStackBottom
  (List.range npdEntries).forM fun i =>
    assertThat (if mustBeMapped i then σ.memory pgdir i ≠ 0 else σ.memory pgdir i = 0)

structure KernelVM where
  ptrPageDirectory : Nat
  framesInfo : Word
  envs : Word
  state : State

def mapKernelSpace (image : BootImage) (σ : State) : Except Stop KernelVM := do
  let (ptrPageDirectory, σ) := bootAllocateSpace image.endOfKernel σ pageSize pageSize
  let physPageDirectory ← kPhysicalAddress ptrPageDirectory
  let pgdir := ppn physPageDirectory
  let σ := σ.clearFrame pgdir
  let physStackBottom ← kPhysicalAddress image.ptrStackBottom
  let σ ← bootMapRange image.endOfKernel σ pgdir (kernelStackTop - kernelStackSize)
    kernelStackSize physStackBottom permWriteable
  let σ ← bootMapRange image.endOfKernel σ pgdir kernelBase (0xFFFFFFFF - kernelBase) 0
    permWriteable
  let arraySize := BitVec.ofNat 32 σ.numberOfFrames * sizeofFrameInfo
  let (framesInfo, σ) := bootAllocateSpace image.endOfKernel σ arraySize pageSize
  let physFramesInfo ← kPhysicalAddress framesInfo
  let σ ← bootMapRange image.endOfKernel σ pgdir readOnlyFramesInfo arraySize physFramesInfo
    permUser
  let σ := setupListing σ pgdir
  let envsSize := BitVec.ofNat 32 nenv * sizeofEnv
  let (envs, σ) := bootAllocateSpace image.endOfKernel σ envsSize pageSize
  let physEnvs ← kPhysicalAddress envs
  let σ ← bootMapRange image.endOfKernel σ pgdir uenvs envsSize physEnvs permUser
  let σ := σ.setWord pgdir (pdx uenvs)
    (σ.memory pgdir (pdx uenvs) ||| (permUser ||| (permPresent &&& ~~~permWriteable)))
  return ⟨pgdir, framesInfo, envs, σ⟩

def initializeKernelVM (image : BootImage) (σ : State) : Except Stop KernelVM := do
  let vm ← mapKernelSpace image σ
  checkBootPgdir image vm.state vm.ptrPageDirectory vm.framesInfo
  return { vm with state := turnOnPaging vm.state vm.ptrPageDirectory }

section DetectMemory

variable (baseReading extendedReading : BitVec 16)

theorem roundDown_reading (reading : BitVec 16) :
    (roundDown (reading.setWidth 32 * 1024) pageSize).toNat = reading.toNat / 4 * 4096 := by
  have bound := reading.isLt
  have wide : (reading.setWidth 32).toNat = reading.toNat := by
    rw [BitVec.toNat_setWidth]
    omega
  have bytes : (reading.setWidth 32 * 1024).toNat = reading.toNat * 1024 := by
    rw [BitVec.toNat_mul, wide]
    change reading.toNat * 1024 % 4294967296 = _
    omega
  have page : pageSize.toNat = 4096 := by decide
  rw [roundDown, BitVec.toNat_sub, BitVec.toNat_umod, bytes, page]
  omega

theorem sizeOfBaseMem_detectMemory :
    (detectMemory baseReading extendedReading).sizeOfBaseMem.toNat =
      baseReading.toNat / 4 * 4096 :=
  roundDown_reading baseReading

theorem sizeOfExtendedMem_detectMemory :
    (detectMemory baseReading extendedReading).sizeOfExtendedMem.toNat =
      extendedReading.toNat / 4 * 4096 :=
  roundDown_reading extendedReading

theorem maxpa_detectMemory : (detectMemory baseReading extendedReading).maxpa.toNat =
    if extendedReading.toNat < 4 then 0 else 1048576 + extendedReading.toNat / 4 * 4096 := by
  have bound := extendedReading.isLt
  have size := roundDown_reading extendedReading
  have low : physExtendedMem.toNat = 1048576 := by decide
  have zero : (0 : Word).toNat = 0 := rfl
  simp only [detectMemory]
  split
  · rename_i some
    rw [if_neg, BitVec.toNat_add, size, low]
    · omega
    · intro few
      exact some (BitVec.eq_of_toNat_eq (by omega))
  · rename_i none
    rw [not_not] at none
    rw [none] at size ⊢
    rw [if_pos (by omega)]
    rfl

theorem numberOfFrames_eq : (detectMemory baseReading extendedReading).numberOfFrames.toNat =
    if extendedReading.toNat < 4 then 0 else 256 + extendedReading.toNat / 4 := by
  have page : pageSize.toNat = 4096 := by decide
  change ((detectMemory baseReading extendedReading).maxpa / pageSize).toNat = _
  rw [BitVec.toNat_udiv, maxpa_detectMemory, page]
  split <;> omega

theorem numberOfFrames_detectMemory :
    (detectMemory baseReading extendedReading).numberOfFrames.toNat ≤ 16639 := by
  have bound := extendedReading.isLt
  rw [numberOfFrames_eq]
  split <;> omega

end DetectMemory

end FosV2
