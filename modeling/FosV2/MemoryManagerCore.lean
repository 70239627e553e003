import FosV2.IntrusiveList
import FosV2.MemoryLayout
import FosV2.TwoLevelTable

/-!
The physical memory manager: `kern/memory_manager.c` below "MAPPING USER SPACE", with the
helpers `check_va2pa` and `tlb_invalidate` of `kern/helpers.c`. A `struct Frame_Info *` is
the frame's index, null is `none`, and a pointer to a page directory or a page table is the
frame it lies in. The links of all `Frame_Info`s are kept together with the list head.
-/

namespace FosV2

open IntrusiveList

inductive Stop where
  | kPhysicalAddress (kva : Word)
  | kVirtualAddress (pa : Word)
  | toFrameInfo
  | assertionFailed
  | notCompleted
  | nullPointer
  | pageFault (va : Word)
  | commandPrompt
  | envDestroy (environment : Option Nat)
  | unhandledTrap
  | endlessLoop
  | outsideString
  deriving DecidableEq, Repr

@[simp] theorem ok_bind {ε α β : Type} (value : α) (next : α → Except ε β) :
    (Except.ok value >>= next) = next value := rfl

@[simp] theorem error_bind {ε α β : Type} (error : ε) (next : α → Except ε β) :
    ((Except.error error : Except ε α) >>= next) = .error error := rfl

@[simp] theorem map_ok {ε α β : Type} (value : α) (f : α → β) :
    f <$> (Except.ok value : Except ε α) = .ok (f value) := rfl

@[simp] theorem map_error {ε α β : Type} (error : ε) (f : α → β) :
    f <$> (Except.error error : Except ε α) = .error error := rfl

theorem bind_eq_ok {ε α β : Type} {x : Except ε α} {next : α → Except ε β} {result : β}
    (returned : x >>= next = .ok result) : ∃ value, x = .ok value ∧ next value = .ok result := by
  cases x with
  | error stop => exact nomatch returned
  | ok value => exact ⟨value, rfl, returned⟩

structure State where
  numberOfFrames : Nat
  memory : Nat → Nat → Word
  references : Nat → BitVec 16
  freeFrameList : LinkedList Nat
  ptrFreeMem : Word
  -- The (page, frame) pairs the processor may have cached.
  tlb : List (Nat × Nat)

namespace State

def setReferences (σ : State) (frame : Nat) (count : BitVec 16) : State :=
  { σ with references := Function.update σ.references frame count }

def setWord (σ : State) (frame index : Nat) (value : Word) : State :=
  { σ with memory := TwoLevelTable.write σ.memory frame index value }

/-- `memset(frame, 0, PAGE_SIZE)` -/
def clearFrame (σ : State) (frame : Nat) : State :=
  { σ with memory := Function.update σ.memory frame fun _ => 0 }

end State

/-- The frame that the kernel pointer `K_VIRTUAL_ADDRESS(pa)` leads to. -/
def kVirtualAddress (σ : State) (pa : Word) : Except Stop Nat :=
  if ppn pa ≥ σ.numberOfFrames then .error (.kVirtualAddress pa) else .ok (ppn pa)

def kPhysicalAddress (kva : Word) : Except Stop Word :=
  if kva < kernelBase then .error (.kPhysicalAddress kva) else .ok (kva - kernelBase)

def toFrameInfo (σ : State) (physicalAddress : Word) : Except Stop Nat :=
  if ppn physicalAddress ≥ σ.numberOfFrames then .error .toFrameInfo
  else .ok (ppn physicalAddress)

def initializeFrameInfo (σ : State) (frame : Nat) : State :=
  { σ.setReferences frame 0 with freeFrameList := σ.freeFrameList.setEntry frame ⟨none, none⟩ }

/-- `none` is the null frame together with `E_NO_MEM`, `some` a frame together with `0`. -/
def allocateFrame (σ : State) : Except Stop (Option Nat × State) :=
  match σ.freeFrameList.lhFirst with
  | none => .ok (none, σ)
  | some frame =>
      match σ.freeFrameList.remove frame with
      | none => .error .nullPointer
      | some list => .ok (some frame, initializeFrameInfo { σ with freeFrameList := list } frame)

def freeFrame (σ : State) (frame : Nat) : State :=
  { σ with freeFrameList := σ.freeFrameList.insertHead frame }

def decrementReferences (σ : State) (frame : Nat) : State :=
  let count := σ.references frame - 1
  let σ := σ.setReferences frame count
  if count = 0 then freeFrame σ frame else σ

def invlpg (σ : State) (va : Word) : State :=
  { σ with tlb := σ.tlb.filter fun cached => cached.1 ≠ ppn va }

def tlbInvalidate (σ : State) (_pgdir : Nat) (va : Word) : State :=
  invlpg σ va

def getPageTable (σ : State) (pgdir : Nat) (va : Word) (create : Bool) :
    Except Stop (Word × Option Nat × State) := do
  let entry := σ.memory pgdir (pdx va)
  let table ← kVirtualAddress σ (extractAddress entry)
  if entry = 0 then
    if create then
      let (frame, σ) ← allocateFrame σ
      match frame with
      | none => return (eNoMem, none, σ)
      | some frame =>
          let physPageTable := toPhysicalAddress frame
          let table ← kVirtualAddress σ physPageTable
          let σ := σ.clearFrame table
          let σ := σ.setReferences frame 1
          let σ := σ.setWord pgdir (pdx va)
            (constructEntry physPageTable (permPresent ||| permUser ||| permWriteable))
          return (0, some table, σ)
    else return (0, none, σ)
  else return (0, some table, σ)

def getFrameInfo (σ : State) (pgdir : Nat) (va : Word) :
    Except Stop (Option Nat × Option Nat × State) := do
  let (_, table, σ) ← getPageTable σ pgdir va false
  match table with
  | none => return (none, none, σ)
  | some table =>
      let entry := σ.memory table (ptx va)
      if entry ≠ 0 then
        let frame ← toFrameInfo σ (extractAddress entry)
        return (some frame, some table, σ)
      else return (none, some table, σ)

def unmapFrame (σ : State) (pgdir : Nat) (va : Word) : Except Stop State := do
  let (frame, table, σ) ← getFrameInfo σ pgdir va
  match frame, table with
  | some frame, some table =>
      let σ := decrementReferences σ frame
      let σ := σ.setWord table (ptx va) 0
      return tlbInvalidate σ pgdir va
  | _, _ => return σ

def writeMapping (σ : State) (frame table : Nat) (va perm : Word) : State :=
  let σ := σ.setReferences frame (σ.references frame + 1)
  σ.setWord table (ptx va) (constructEntry (toPhysicalAddress frame) (perm ||| permPresent))

/-- A null frame gets as far as the page table; what follows goes through the null pointer. -/
def mapFrame (σ : State) (pgdir : Nat) (frame : Option Nat) (va perm : Word) :
    Except Stop (Word × State) := do
  let (err, table, σ) ← getPageTable σ pgdir va true
  if err = 0 then
    match frame, table with
    | some frame, some table =>
        let entry := σ.memory table (ptx va)
        if present entry then
          if extractAddress entry = toPhysicalAddress frame then return (0, σ)
          else
            let σ ← unmapFrame σ pgdir va
            return (0, writeMapping σ frame table va perm)
        else return (0, writeMapping σ frame table va perm)
    | _, _ => throw .nullPointer
  else return (eNoMem, σ)

/-- `none` when the loop over the list does not end within the fuel. -/
def calculateFreeFrames (fuel : Nat) (σ : State) : Option Word :=
  σ.freeFrameList.forEach (fun cnt _ => cnt + 1) fuel σ.freeFrameList.lhFirst 0

def checkVa2pa (σ : State) (pgdir : Nat) (va : Word) : Except Stop Word := do
  let directoryEntry := σ.memory pgdir (pdx va)
  if ¬present directoryEntry then return ~~~0
  let table ← kVirtualAddress σ (extractAddress directoryEntry)
  if ¬present (σ.memory table (ptx va)) then return ~~~0
  return extractAddress (σ.memory table (ptx va))

end FosV2
