import FosV2.AllocatePage
import FosV2.ConsolePrinting
import FosV2.Environments

/-!
From the trap frame to the handlers and back: `trap_dispatch` of `kern/trap.c` and `syscall`
with the handlers of `kern/syscall.c`. How an error gets back to the caller's `reg_eax`,
and where it is lost.
-/

namespace FosV2

inductive SystemCall where
  | cputs | cgetc | getenvid | envDestroy | envSleep | allocatePage | getPage | mapFrame
  | unmapFrame | calcReqFrames | calcFreeFrames | freeMem
  deriving DecidableEq, Repr

def systemCalls : List SystemCall :=
  [.cputs, .cgetc, .getenvid, .envDestroy, .envSleep, .allocatePage, .getPage, .mapFrame,
    .unmapFrame, .calcReqFrames, .calcFreeFrames, .freeMem]

def systemCallOf (syscallno : Word) : Option SystemCall := systemCalls[syscallno.toNat]?

namespace Kernel

def loadByte (κ : Kernel) (va : Word) : Except Stop (BitVec 8) := do
  let word ← κ.load va
  return (word >>> (8 * (va.toNat % 4))).setWidth 8

def putch (κ : Kernel) (ch : Word) : Kernel :=
  { κ with output := κ.output ++ [ch.setWidth 8] }

def directory (κ : Kernel) : Nat := (κ.envs κ.curenv).envPgdir

def withMemory (κ : Kernel) (memory : State) : Kernel := { κ with memory := memory }

end Kernel

/-- `cprintf("%.*s", len, s)` -/
def sysCputs (κ : Kernel) (s len : Word) : Except Stop Kernel := do
  let (_, κ) ← kernelVcprintf Kernel.putch κ.loadByte ("%.*s".toList.map char)
    (fun i => if i = 0 then len else s) κ
  return κ

def sysCgetc (κ : Kernel) : Except Stop (Word × Kernel) :=
  match κ.inputs.dropWhile (· = 0) with
  | [] => .error .endlessLoop
  | c :: rest => .ok (c.setWidth 32, { κ with inputs := rest })

def sysGetenvid (κ : Kernel) : Word := (κ.envs κ.curenv).envId

/-- `env_run_cmd_prmpt` does not return: it ends in the prompt or, for an environment without an
entry point, in a fault. Runs of the machine tell the two apart. -/
def sysEnvSleep (_ : Kernel) : Except Stop Kernel := .error .commandPrompt

def sysGetPage (_ : Kernel) (_va _perm : Word) : Except Stop (Word × Kernel) :=
  .error .notCompleted

def sysMapFrame (_ : Kernel) (_srcenvid _srcva _dstenvid _dstva _perm : Word) :
    Except Stop (Word × Kernel) := .error .notCompleted

def sysUnmapFrame (_ : Kernel) (_envid _va : Word) : Except Stop (Word × Kernel) :=
  .error .notCompleted

def sysCalculateRequiredFrames (_ : Kernel) (_startVirtualAddress _size : Word) :
    Except Stop (Word × Kernel) := .error .notCompleted

def sysCalculateFreeFrames (κ : Kernel) : Except Stop (Word × Kernel) :=
  match calculateFreeFrames (2 ^ 32) κ.memory with
  | none => .error .endlessLoop
  | some cnt => .ok (cnt, κ)

def sysFreeMem (_ : Kernel) (_startVirtualAddress _size : Word) : Except Stop Kernel :=
  .error .notCompleted

def Kernel.allocatePage (κ : Kernel) (va perm : Word) : Except Stop (Word × Kernel) := do
  let (r, memory) ← sysAllocatePage κ.memory κ.directory va perm
  return (r, κ.withMemory memory)

/-- `NSYSCALLS` has an arm of its own, which returns what the end of the function does. -/
def syscall (κ : Kernel) (syscallno a1 a2 a3 a4 a5 : Word) : Except Stop (Word × Kernel) :=
  match systemCallOf syscallno with
  | some .cputs => do
      let κ ← sysCputs κ a1 a2
      return (0, κ)
  | some .cgetc => sysCgetc κ
  | some .getenvid => .ok (sysGetenvid κ, κ)
  | some .envDestroy => sysEnvDestroy κ a1
  | some .envSleep => do
      let κ ← sysEnvSleep κ
      return (0, κ)
  | some .calcReqFrames => sysCalculateRequiredFrames κ a1 a2
  | some .calcFreeFrames => sysCalculateFreeFrames κ
  | some .freeMem => do
      let κ ← sysFreeMem κ a1 a2
      return (0, κ)
  | some .allocatePage => do
      let (_, κ) ← κ.allocatePage a1 a2
      return (0, κ)
  | some .getPage => do
      let (_, κ) ← sysGetPage κ a1 a2
      return (0, κ)
  | some .mapFrame => do
      let (_, κ) ← sysMapFrame κ a1 a2 a3 a4 a5
      return (0, κ)
  | some .unmapFrame => do
      let (_, κ) ← sysUnmapFrame κ a1 a2
      return (0, κ)
  | none => .ok (-eInval, κ)

structure PushRegs where
  regEdi : Word
  regEsi : Word
  regEbp : Word
  regOesp : Word
  regEbx : Word
  regEdx : Word
  regEcx : Word
  regEax : Word

structure Trapframe where
  tfRegs : PushRegs
  tfTrapno : Word
  tfCs : BitVec 16

def tPgflt : Word := 14
def tSyscall : Word := 48
def gdKt : BitVec 16 := 0x08

def pageFaultHandler (κ : Kernel) (_ : Trapframe) : Except Stop Kernel :=
  envDestroy κ (some κ.curenv)

def trapDispatch (κ : Kernel) (tf : Trapframe) : Except Stop (Trapframe × Kernel) := do
  if tf.tfTrapno = tPgflt then
    let κ ← pageFaultHandler κ tf
    return (tf, κ)
  else if tf.tfTrapno = tSyscall then
    let (ret, κ) ← syscall κ tf.tfRegs.regEax tf.tfRegs.regEdx tf.tfRegs.regEcx
      tf.tfRegs.regEbx tf.tfRegs.regEdi tf.tfRegs.regEsi
    return ({ tf with tfRegs := { tf.tfRegs with regEax := ret } }, κ)
  else if tf.tfCs = gdKt then .error .unhandledTrap
  else
    let κ ← envDestroy κ (some κ.curenv)
    return (tf, κ)

/-! What the caller may read off `reg_eax`. -/

/-- The code that the function behind a system call comes back with, `none` where the
function has no result. -/
def handled (κ : Kernel) (regs : PushRegs) : SystemCall → Except Stop (Option Word × Kernel)
  | .cputs => (none, ·) <$> sysCputs κ regs.regEdx regs.regEcx
  | .cgetc => Prod.map some id <$> sysCgetc κ
  | .getenvid => .ok (some (sysGetenvid κ), κ)
  | .envDestroy => Prod.map some id <$> sysEnvDestroy κ regs.regEdx
  | .envSleep => (none, ·) <$> sysEnvSleep κ
  | .allocatePage => Prod.map some id <$> κ.allocatePage regs.regEdx regs.regEcx
  | .getPage => Prod.map some id <$> sysGetPage κ regs.regEdx regs.regEcx
  | .mapFrame => Prod.map some id <$>
      sysMapFrame κ regs.regEdx regs.regEcx regs.regEbx regs.regEdi regs.regEsi
  | .unmapFrame => Prod.map some id <$> sysUnmapFrame κ regs.regEdx regs.regEcx
  | .calcReqFrames => Prod.map some id <$>
      sysCalculateRequiredFrames κ regs.regEdx regs.regEcx
  | .calcFreeFrames => Prod.map some id <$> sysCalculateFreeFrames κ
  | .freeMem => (none, ·) <$> sysFreeMem κ regs.regEdx regs.regEcx

def Fails (κ : Kernel) (regs : PushRegs) : Prop :=
  match systemCallOf regs.regEax with
  | none => True
  | some call => ∃ r κ', handled κ regs call = .ok (some r, κ') ∧ r.toInt < 0

structure ErrorsReported (κ : Kernel) (tf : Trapframe) : Prop where
  negative : Fails κ tf.tfRegs → ∃ tf' κ', trapDispatch κ tf = .ok (tf', κ') ∧
    tf'.tfRegs.regEax.toInt < 0
  mapped : systemCallOf tf.tfRegs.regEax = some .allocatePage → ∀ tf' κ',
    trapDispatch κ tf = .ok (tf', κ') → tf'.tfRegs.regEax = 0 →
      Mapped κ'.memory κ.directory tf.tfRegs.regEdx

structure Grantable (free : List Nat) (σ : State) (pgdir : Nat) (va perm : Word) : Prop where
  frame : free ≠ []
  valid : ValidRequest va perm
  table : σ.memory pgdir (pdx va) ≠ 0 ∨ 2 ≤ free.length

section Allocation

variable {pgdir : Nat} {held : Nat → Nat} {free : List Nat} {σ : State} {va perm : Word}

theorem sysAllocatePage_granted (wf : WellFormed pgdir held free σ)
    (grantable : Grantable free σ pgdir va perm) :
    ∃ σ', sysAllocatePage σ pgdir va perm = .ok (0, σ') ∧ Mapped σ' pgdir va := by
  cases free with
  | nil => exact absurd rfl grantable.frame
  | cons frame rest =>
      obtain ⟨list, taken, detached, cases⟩ := sysAllocatePage_cons wf va perm
      rcases cases with ⟨invalid, _⟩ | ⟨_, absent, last, _⟩ | ⟨valid, after, _, table, ready, result⟩
      · exact absurd grantable.valid invalid
      · rcases grantable.table with existing | two
        · exact absurd absent existing
        · simp [last] at two
      · exact ⟨_, result, ready.mapped (pdx_lt_userEntries valid.below) perm⟩

theorem sysAllocatePage_refused (wf : WellFormed pgdir held free σ)
    (refused : ¬Grantable free σ pgdir va perm) :
    ∃ r σ', sysAllocatePage σ pgdir va perm = .ok (r, σ') ∧ r.toInt < 0 := by
  have noMemory : eNoMem.toInt < 0 := by decide
  have invalidCode : eInval.toInt < 0 := by decide
  cases free with
  | nil => exact ⟨_, _, sysAllocatePage_empty wf, noMemory⟩
  | cons frame rest =>
      obtain ⟨list, taken, detached, cases⟩ := sysAllocatePage_cons wf va perm
      rcases cases with ⟨_, result⟩ | ⟨_, _, _, result⟩ | ⟨valid, after, _, table, ready, _⟩
      · exact ⟨_, _, result, invalidCode⟩
      · exact ⟨_, _, result, noMemory⟩
      · refine absurd ⟨by simp, valid, ?_⟩ refused
        rcases ready.tableOrigin with member | named
        · cases rest with
          | nil => simp at member
          | cons _ _ => exact Or.inr (by simp)
        · have different := (detached.unnamed taken).2.2
          rw [pageTable_clearFrame different] at named
          exact Or.inl (entryTarget_eq_some_iff.mp named).1

end Allocation

section Dispatch

variable {κ κ' : Kernel} {regs : PushRegs} {tf : Trapframe} {r : Word}

theorem code_of_handled {result : Except Stop (Word × Kernel)}
    (returned : Prod.map some id <$> result = .ok (some r, κ')) : result = .ok (r, κ') := by
  cases result with
  | error stop => cases returned
  | ok value =>
      cases returned
      rfl

theorem no_code_of_void {result : Except Stop Kernel} :
    ((none : Option Word), ·) <$> result ≠ .ok (some r, κ') := by
  intro returned
  cases result with
  | error stop => cases returned
  | ok value => cases returned

/-- Every arm but that of `SYS_allocate_page` passes a code on. -/
theorem syscall_of_handled {call : SystemCall} (names : systemCallOf regs.regEax = some call)
    (other : call ≠ .allocatePage) (returned : handled κ regs call = .ok (some r, κ')) :
    syscall κ regs.regEax regs.regEdx regs.regEcx regs.regEbx regs.regEdi regs.regEsi =
      .ok (r, κ') := by
  unfold syscall
  rw [names]
  cases call with
  | cputs => exact absurd returned no_code_of_void
  | envSleep => exact absurd returned no_code_of_void
  | freeMem => exact absurd returned no_code_of_void
  | allocatePage => exact absurd rfl other
  | getenvid =>
      cases returned
      rfl
  | cgetc => exact code_of_handled returned
  | envDestroy => exact code_of_handled returned
  | calcReqFrames => exact code_of_handled returned
  | calcFreeFrames => exact code_of_handled returned
  | getPage => exact absurd (code_of_handled returned) (by simp [sysGetPage])
  | mapFrame => exact absurd (code_of_handled returned) (by simp [sysMapFrame])
  | unmapFrame => exact absurd (code_of_handled returned) (by simp [sysUnmapFrame])

theorem trapDispatch_syscall (system : tf.tfTrapno = tSyscall)
    (served : syscall κ tf.tfRegs.regEax tf.tfRegs.regEdx tf.tfRegs.regEcx tf.tfRegs.regEbx
      tf.tfRegs.regEdi tf.tfRegs.regEsi = .ok (r, κ')) :
    trapDispatch κ tf = .ok ({ tf with tfRegs := { tf.tfRegs with regEax := r } }, κ') := by
  have notFault : ¬tSyscall = tPgflt := by decide
  simp only [trapDispatch, system, notFault, if_false, if_true, served, ok_bind]
  rfl

theorem syscall_unnamed (unnamed : systemCallOf regs.regEax = none) :
    syscall κ regs.regEax regs.regEdx regs.regEcx regs.regEbx regs.regEdi regs.regEsi =
      .ok (-eInval, κ) := by
  simp only [syscall, unnamed]

/-- The arm of `SYS_allocate_page` drops the code. -/
theorem syscall_allocatePage (names : systemCallOf regs.regEax = some .allocatePage) {σ' : State}
    (result : sysAllocatePage κ.memory κ.directory regs.regEdx regs.regEcx = .ok (r, σ')) :
    syscall κ regs.regEax regs.regEdx regs.regEcx regs.regEbx regs.regEdi regs.regEsi =
      .ok (0, κ.withMemory σ') := by
  simp only [syscall, names, Kernel.allocatePage, result, ok_bind]
  rfl

theorem handled_allocatePage {σ' : State}
    (result : sysAllocatePage κ.memory κ.directory regs.regEdx regs.regEcx = .ok (r, σ')) :
    handled κ regs .allocatePage = .ok (some r, κ.withMemory σ') := by
  simp only [handled, Kernel.allocatePage, result, ok_bind]
  rfl

theorem named_of_errorsReported (system : tf.tfTrapno = tSyscall) (reported : ErrorsReported κ tf) :
    ∃ call, systemCallOf tf.tfRegs.regEax = some call := by
  cases names : systemCallOf tf.tfRegs.regEax with
  | some call => exact ⟨call, rfl⟩
  | none =>
      have fails : Fails κ tf.tfRegs := by
        simp only [Fails, names]
      obtain ⟨tf', κ', returned, negative⟩ := reported.negative fails
      rw [trapDispatch_syscall system (syscall_unnamed names)] at returned
      cases returned
      exact absurd negative (by decide : ¬(-eInval).toInt < 0)

theorem errorsReported_of_other (system : tf.tfTrapno = tSyscall) {call : SystemCall}
    (names : systemCallOf tf.tfRegs.regEax = some call) (other : call ≠ .allocatePage) :
    ErrorsReported κ tf := by
  constructor
  · intro fails
    simp only [Fails, names] at fails
    obtain ⟨r, κ', returned, negative⟩ := fails
    exact ⟨_, _, trapDispatch_syscall system (syscall_of_handled names other returned), negative⟩
  · intro same
    rw [names] at same
    exact absurd (Option.some.inj same) other

variable {held : Nat → Nat} {free : List Nat}

theorem not_errorsReported_of_refused (system : tf.tfTrapno = tSyscall)
    (wf : WellFormed κ.directory held free κ.memory)
    (names : systemCallOf tf.tfRegs.regEax = some .allocatePage)
    (refused : ¬Grantable free κ.memory κ.directory tf.tfRegs.regEdx tf.tfRegs.regEcx) :
    ¬ErrorsReported κ tf := by
  intro reported
  obtain ⟨r, σ', result, code⟩ := sysAllocatePage_refused wf refused
  have fails : Fails κ tf.tfRegs := by
    simp only [Fails, names]
    exact ⟨r, _, handled_allocatePage result, code⟩
  obtain ⟨tf', κ', returned, negative⟩ := reported.negative fails
  rw [trapDispatch_syscall system (syscall_allocatePage names result)] at returned
  cases returned
  exact absurd negative (by decide : ¬(0 : Word).toInt < 0)

theorem errorsReported_of_granted (system : tf.tfTrapno = tSyscall)
    (wf : WellFormed κ.directory held free κ.memory)
    (names : systemCallOf tf.tfRegs.regEax = some .allocatePage)
    (grantable : Grantable free κ.memory κ.directory tf.tfRegs.regEdx tf.tfRegs.regEcx) :
    ErrorsReported κ tf := by
  obtain ⟨σ', result, mapped⟩ := sysAllocatePage_granted wf grantable
  constructor
  · intro fails
    simp only [Fails, names] at fails
    obtain ⟨r, κ', returned, negative⟩ := fails
    rw [handled_allocatePage result] at returned
    cases returned
    exact absurd negative (by decide : ¬(0 : Word).toInt < 0)
  · intro _ tf' κ' returned _
    rw [trapDispatch_syscall system (syscall_allocatePage names result)] at returned
    cases returned
    exact mapped

/-- Errors reach the caller exactly when the number names a call, and an allocation is one
that can be granted. -/
theorem errorsReported_iff (system : tf.tfTrapno = tSyscall)
    (wf : systemCallOf tf.tfRegs.regEax = some .allocatePage →
      WellFormed κ.directory held free κ.memory) :
    ErrorsReported κ tf ↔ tf.tfRegs.regEax.toNat < systemCalls.length ∧
      (systemCallOf tf.tfRegs.regEax = some .allocatePage →
        Grantable free κ.memory κ.directory tf.tfRegs.regEdx tf.tfRegs.regEcx) := by
  constructor
  · intro reported
    obtain ⟨call, names⟩ := named_of_errorsReported system reported
    refine ⟨(List.getElem?_eq_some_iff.mp names).1, fun allocates => ?_⟩
    by_contra refused
    exact not_errorsReported_of_refused system (wf allocates) allocates refused reported
  · rintro ⟨inside, granted⟩
    have names : systemCallOf tf.tfRegs.regEax = some systemCalls[tf.tfRegs.regEax.toNat] :=
      List.getElem?_eq_getElem inside
    by_cases allocates : systemCallOf tf.tfRegs.regEax = some .allocatePage
    · exact errorsReported_of_granted system (wf allocates) allocates (granted allocates)
    · refine errorsReported_of_other system names fun same => allocates ?_
      rw [names, same]

end Dispatch

def systemCallFrame (syscallno a1 a2 : Word) : Trapframe where
  tfRegs := ⟨0, 0, 0, 0, 0, a1, a2, syscallno⟩
  tfTrapno := tSyscall
  tfCs := 0x1B

theorem loneEnvironment_wellFormed :
    WellFormed loneEnvironment.directory (heldSinceBoot 257 300) (freeAfterBoot 257 300)
      loneEnvironment.memory := smallMachineBooted_wellFormed

theorem errorsReported_loneEnvironment :
    ErrorsReported loneEnvironment (systemCallFrame 5 0x1000 permUser) := by
  refine (errorsReported_iff rfl fun _ => loneEnvironment_wellFormed).mpr ⟨by decide, fun _ => ?_⟩
  rw [freeAfterBoot_succ (by omega), freeAfterBoot_succ (by omega)]
  exact ⟨by simp, ⟨by decide, by decide, by decide⟩, Or.inr (by simp)⟩

/-- An allocation at the first address above the user's half, and a number that names no
call. -/
theorem not_errorsReported_loneEnvironment :
    ¬ErrorsReported loneEnvironment (systemCallFrame 5 userTop permUser) ∧
      ¬ErrorsReported loneEnvironment (systemCallFrame 12 0 0) := by
  constructor
  · refine not_errorsReported_of_refused rfl loneEnvironment_wellFormed rfl ?_
    intro grantable
    exact absurd grantable.valid.below (by decide)
  · intro reported
    obtain ⟨call, names⟩ := named_of_errorsReported rfl reported
    cases names

end FosV2
