import FosV2.UserExecution

/-!
The stubs of `lib/syscall.c`: what a program calls, the registers it enters the kernel with,
and what it gets back.
-/

namespace FosV2

inductive LibCall where
  | sysCputs (s len : Word)
  | sysCgetc
  | sysEnvDestroy (envid : Word)
  | sysGetenvid
  | sysEnvSleep
  | sysAllocatePage (va perm : Word)
  | sysGetPage (va perm : Word)
  | sysMapFrame (srcenv srcva dstenv dstva perm : Word)
  | sysUnmapFrame (envid va : Word)
  | sysCalculateRequiredFrames (startVirtualAddress size : Word)
  | sysCalculateFreeFrames
  | sysFreeMem (startVirtualAddress size : Word)

/-- `SYS_cputs` and so on; the enumeration has the order of the list. -/
def sysNumber (call : SystemCall) : Word := BitVec.ofNat 32 (systemCalls.idxOf call)

/-- What `int %1` finds in the registers: the number in `eax`, the arguments in `edx`, `ecx`,
`ebx`, `edi` and `esi`. -/
def syscallRegisters (p : Processor) (num a1 a2 a3 a4 a5 : Word) : Processor :=
  { p with eax := num, edx := a1, ecx := a2, ebx := a3, edi := a4, esi := a5 }

def LibCall.registers (p : Processor) : LibCall → Processor
  | .sysCputs s len => syscallRegisters p (sysNumber .cputs) s len 0 0 0
  | .sysCgetc => syscallRegisters p (sysNumber .cgetc) 0 0 0 0 0
  | .sysEnvDestroy envid => syscallRegisters p (sysNumber .envDestroy) envid 0 0 0 0
  | .sysGetenvid => syscallRegisters p (sysNumber .getenvid) 0 0 0 0 0
  | .sysEnvSleep => syscallRegisters p (sysNumber .envSleep) 0 0 0 0 0
  | .sysAllocatePage va perm => syscallRegisters p (sysNumber .allocatePage) va perm 0 0 0
  | .sysGetPage va perm => syscallRegisters p (sysNumber .getPage) va perm 0 0 0
  | .sysMapFrame srcenv srcva dstenv dstva perm =>
      syscallRegisters p (sysNumber .mapFrame) srcenv srcva dstenv dstva perm
  | .sysUnmapFrame envid va => syscallRegisters p (sysNumber .unmapFrame) envid va 0 0 0
  | .sysCalculateRequiredFrames startVirtualAddress size =>
      syscallRegisters p (sysNumber .calcReqFrames) startVirtualAddress size 0 0 0
  | .sysCalculateFreeFrames => syscallRegisters p (sysNumber .calcFreeFrames) 0 0 0 0 0
  | .sysFreeMem startVirtualAddress size =>
      syscallRegisters p (sysNumber .freeMem) startVirtualAddress size 0 0 0

/-- The handler a stub is for. A page is allocated with the code of `sys_allocate_page` lost. -/
def LibCall.served (κ : Kernel) : LibCall → Except Stop (Word × Kernel)
  | .sysCputs s len => (0, ·) <$> FosV2.sysCputs κ s len
  | .sysCgetc => FosV2.sysCgetc κ
  | .sysEnvDestroy envid => FosV2.sysEnvDestroy κ envid
  | .sysGetenvid => .ok (FosV2.sysGetenvid κ, κ)
  | .sysEnvSleep => (0, ·) <$> FosV2.sysEnvSleep κ
  | .sysAllocatePage va perm => Prod.map (fun _ => 0) id <$> κ.allocatePage va perm
  | .sysGetPage va perm => Prod.map (fun _ => 0) id <$> FosV2.sysGetPage κ va perm
  | .sysMapFrame srcenv srcva dstenv dstva perm =>
      Prod.map (fun _ => 0) id <$> FosV2.sysMapFrame κ srcenv srcva dstenv dstva perm
  | .sysUnmapFrame envid va => Prod.map (fun _ => 0) id <$> FosV2.sysUnmapFrame κ envid va
  | .sysCalculateRequiredFrames startVirtualAddress size =>
      FosV2.sysCalculateRequiredFrames κ startVirtualAddress size
  | .sysCalculateFreeFrames => FosV2.sysCalculateFreeFrames κ
  | .sysFreeMem startVirtualAddress size =>
      (0, ·) <$> FosV2.sysFreeMem κ startVirtualAddress size

section Stubs

variable {κ : Kernel} {p : Processor}

/-- Every argument arrives where the handler takes it from. -/
theorem callOf_registers (call : LibCall) : callOf (call.registers p) κ = call.served κ := by
  cases call with
  | sysCputs s len =>
      have names : systemCallOf (sysNumber .cputs) = some .cputs := rfl
      simp only [callOf, LibCall.registers, syscallRegisters, syscall, names, LibCall.served]
      cases sysCputs κ s len <;> rfl
  | sysAllocatePage va perm =>
      have names : systemCallOf (sysNumber .allocatePage) = some .allocatePage := rfl
      simp only [callOf, LibCall.registers, syscallRegisters, syscall, names, LibCall.served]
      cases κ.allocatePage va perm <;> rfl
  | _ => rfl

variable {symbols : TrapSymbols} {tables : Tables} {programs : UserPrograms symbols}
  {pgdir : Nat} {α : Contexts} {mem : Word → BitVec 8}

/-- A stub is a function call: it returns when the handler does, with the handler's result in
`eax`, every other register as before the trap and the kernel as the handler has left it. -/
theorem stub_returns (call : LibCall)
    (represents : Represents symbols tables programs ⟨mem, κ, .user (call.registers p)⟩ α)
    (runnable : (κ.envs κ.curenv).envStatus = envRunnable) :
    (∀ σ', Step symbols tables programs pgdir ⟨mem, κ, .user (call.registers p)⟩ .systemCall σ' →
      ∃ r, call.served κ = .ok (r, σ'.kernel) ∧ σ'.mode = .user ((call.registers p).withEax r)) ∧
    (∀ r κ', call.served κ = .ok (r, κ') →
      ∃ σ', Step symbols tables programs pgdir ⟨mem, κ, .user (call.registers p)⟩ .systemCall σ') := by
  obtain ⟨current, inside, same, level⟩ := represents.userCurrent
  constructor
  · intro σ' taken
    cases taken with
    | @systemCall _ mem' _ _ tf resumed arrived returned =>
        obtain ⟨memory, top⟩ := @arrived_eq symbols tables mem mem' (call.registers p) tf 0 48 true
          represents.ready level (by omega) arrived
        subst memory top
        obtain ⟨r, κ', called, result⟩ := trap_returned level returned
        subst result
        refine ⟨r, ?_, ?_⟩
        · rw [← callOf_registers call]
          exact called
        · exact congrArg Mode.user (envPopTf_withEax level r)
  · intro r κ' served
    rw [← callOf_registers call, same] at served
    have answered : callOf (α.registers κ.curenv) α.kernel = .ok (r, κ') := by
      rw [represents.kernel]
      exact served
    refine represents.progress (ContextStep.systemCall current answered) fun e found => ?_
    have here : κ.curenv = e := Option.some.inj (current.symm.trans found)
    rw [← here, represents.kernel]
    exact runnable

end Stubs

/-- The first program asks for its id. -/
theorem stub_returns_awake : ∃ σ', Step smallSymbols
    (idtInit smallSymbols (loadedMemory smallSymbols)).2 smallPrograms 256
    ⟨awake.mem, awake.kernel, .user (LibCall.sysGetenvid.registers awake.cpu)⟩ .systemCall σ' ∧
      σ'.mode = .user ((LibCall.sysGetenvid.registers awake.cpu).withEax 1024) := by
  have level : (LibCall.sysGetenvid.registers awake.cpu).cpl = 3 :=
    awake_represents.userCurrent.2.2.2
  have represents := awake_represents.compute level
  obtain ⟨returned, returns⟩ := @stub_returns _ _ _ _ _ 256 _ _ .sysGetenvid represents rfl
  obtain ⟨σ', taken⟩ := returns 1024 awake.kernel rfl
  obtain ⟨r, served, mode⟩ := returned σ' taken
  have value : sysGetenvid awake.kernel = r := (Prod.mk.inj (Except.ok.inj served)).1
  have id : sysGetenvid awake.kernel = 1024 := rfl
  rw [← value, id] at mode
  exact ⟨σ', taken, mode⟩

end FosV2
