import FosV2.BootLoader
import FosV2.CputsDisclosure
import FosV2.Runs
import FosV2.TrapEntry

/-!
Running programs: `trap` of `kern/trap.c` with `env_run`, `env_pop_tf` and
`env_run_cmd_prmpt` of `kern/user_environment.c`, and the stubs of `lib/syscall.c`. Between a
trap and the return from it the registers of an environment are bytes in `envs`. Runs of this
machine are compared with runs in which every environment simply has its registers.
-/

namespace FosV2

open Runs
open WordStack

def envTf (symbols : TrapSymbols) (e : Nat) : Word := symbols.envs + BitVec.ofNat 32 (100 * e)

/-- `curenv->env_tf = *tf`, when the trap comes from user mode; also the frame in use from then
on. -/
def saveFrame (symbols : TrapSymbols) (mem : Word → BitVec 8) (curenv : Nat) (tf : Word) :
    (Word → BitVec 8) × Word :=
  if half mem (tf + 52) &&& 3 = 3 then
    (copy mem (envTf symbols curenv) tf sizeofTrapframe, envTf symbols curenv)
  else (mem, tf)

/-- Off the stack that starts at the frame: `popal`, `popl %es`, `popl %ds`, two words
skipped, and `iret`. -/
def envPopTf (mem : Word → BitVec 8) (tf : Word) : Processor :=
  let s : Stack 32 := ⟨mem, tf⟩
  let (edi, s) := s.pop
  let (esi, s) := s.pop
  let (ebp, s) := s.pop
  let (_, s) := s.pop
  let (ebx, s) := s.pop
  let (edx, s) := s.pop
  let (ecx, s) := s.pop
  let (eax, s) := s.pop
  let (es, s) := s.pop
  let (ds, s) := s.pop
  let s : Stack 32 := ⟨s.mem, s.sp + 8⟩
  let (eip, s) := s.pop
  let (cs, s) := s.pop
  let (eflags, s) := s.pop
  -- Only on the way to an outer level is there a stack to return to.
  let (esp, outer) := s.pop
  let (ss, _) := outer.pop
  let outwards : Bool := cs.setWidth 2 ≠ (0 : BitVec 2)
  { edi, esi, ebp, ebx, edx, ecx, eax, eip, eflags
    esp := if outwards then esp else s.sp
    cs := cs.setWidth 16
    ds := ds.setWidth 16
    es := es.setWidth 16
    ss := if outwards then ss.setWidth 16 else gdKd }

structure Resumed where
  mem : Word → BitVec 8
  kernel : Kernel
  cpu : Processor

/-- `env_run(e)`; at the prompt there may be no current environment. -/
def Resumed.envRun (symbols : TrapSymbols) (mem : Word → BitVec 8) (κ : Kernel) (curenv : Option Nat)
    (e : Nat) : Resumed :=
  if curenv ≠ some e then
    let runs := envTf symbols e + 88
    let mem := setWord mem runs (word mem runs + 1)
    ⟨mem, { κ with curenv := e, cr3 := (κ.envs e).envPgdir }, envPopTf mem (envTf symbols e)⟩
  else ⟨mem, κ, envPopTf mem (envTf symbols e)⟩

def trap (symbols : TrapSymbols) (mem : Word → BitVec 8) (κ : Kernel) (tf : Word) :
    Except Stop Resumed := do
  let (mem, tf) := saveFrame symbols mem κ.curenv tf
  let (frame, κ) ← trapDispatch κ (loadTrapframe mem tf).toTrapframe
  let mem := setWord mem (tf + 28) frame.tfRegs.regEax
  if (κ.envs κ.curenv).envStatus ≠ envRunnable then throw .assertionFailed
  return Resumed.envRun symbols mem κ (some κ.curenv) κ.curenv

structure UserProgram where
  ptrStart : Word
  environment : Option Nat

/-- The images are part of the kernel, behind which the environments are allocated. -/
structure UserPrograms (symbols : TrapSymbols) where
  programs : List UserProgram
  high : ∀ u ∈ programs, kernelBase.toNat ≤ u.ptrStart.toNat
  below : ∀ u ∈ programs, u.ptrStart.toNat + 28 ≤ symbols.envs.toNat

def programEntry {symbols : TrapSymbols} (programs : UserPrograms symbols) (mem : Word → BitVec 8)
    (e : Nat) : Option Word :=
  match programs.programs.find? fun u => u.environment = some e with
  | none => none
  | some u => if word mem u.ptrStart = elfMagic then some (word mem (u.ptrStart + 24)) else none

/-- `memset` and the registers that do not depend on the program. -/
def resetFrame (mem : Word → BitVec 8) (tf : Word) : Word → BitVec 8 :=
  let mem := fill mem tf sizeofTrapframe 0
  let mem := setHalf mem (tf + 36) (gdUd ||| 3)
  let mem := setHalf mem (tf + 32) (gdUd ||| 3)
  let mem := setHalf mem (tf + 64) (gdUd ||| 3)
  let mem := setWord mem (tf + 60) ustackTop
  setHalf mem (tf + 52) (gdUt ||| 3)

/-- `env_run_cmd_prmpt` up to its loop; `pgdir` is the frame of `ptr_page_directory`. Without an
entry point it gets to a null pointer or a panic. -/
def envRunCmdPrmpt {symbols : TrapSymbols} (programs : UserPrograms symbols) (pgdir : Nat)
    (mem : Word → BitVec 8) (κ : Kernel) : Option ((Word → BitVec 8) × Kernel) :=
  let tf := envTf symbols κ.curenv
  let mem := resetFrame mem tf
  match programEntry programs mem κ.curenv with
  | none => none
  | some entry => some (setWord mem (tf + 48) entry, { κ with cr3 := pgdir })

/-! ## Runs -/

inductive Happening where
  | compute (cpu : Processor)
  | systemCall
  | sleep
  | stop
  | run (e : Nat)

inductive Mode where
  | user (cpu : Processor)
  | prompt (curenv : Option Nat)

structure System where
  mem : Word → BitVec 8
  kernel : Kernel
  mode : Mode

/-- Steps of the machine. A trap that does not come back leaves the prompt in charge; how far
the kernel has got in memory by then is left open. -/
inductive Step (symbols : TrapSymbols) (tables : Tables) (programs : UserPrograms symbols)
    (pgdir : Nat) : System → Happening → System → Prop
  | compute {mem : Word → BitVec 8} {κ : Kernel} {cpu cpu' : Processor} : cpu'.cpl = 3 →
      Step symbols tables programs pgdir ⟨mem, κ, .user cpu⟩ (.compute cpu') ⟨mem, κ, .user cpu'⟩
  | systemCall {mem mem' : Word → BitVec 8} {κ : Kernel} {cpu : Processor} {tf : Word}
      {resumed : Resumed} : interrupt symbols tables mem cpu 48 true none = .trap mem' tf →
      trap symbols mem' κ tf = .ok resumed →
      Step symbols tables programs pgdir ⟨mem, κ, .user cpu⟩ .systemCall
        ⟨resumed.mem, resumed.kernel, .user resumed.cpu⟩
  | sleep {mem mem' mem'' : Word → BitVec 8} {κ κ' : Kernel} {cpu : Processor} {tf : Word} :
      interrupt symbols tables mem cpu 48 true none = .trap mem' tf →
      trap symbols mem' κ tf = .error .commandPrompt →
      envRunCmdPrmpt programs pgdir (saveFrame symbols mem' κ.curenv tf).1 κ = some (mem'', κ') →
      Step symbols tables programs pgdir ⟨mem, κ, .user cpu⟩ .sleep ⟨mem'', κ', .prompt none⟩
  | stop {mem mem' : Word → BitVec 8} {κ κ' : Kernel} {cpu : Processor} {tf err : Word}
      {vector : Nat} {software : Bool} {stop : Stop} : vector < 256 →
      interrupt symbols tables mem cpu vector software (hardwareError vector err) = .trap mem' tf →
      trap symbols mem' κ tf = .error stop → stop ≠ .commandPrompt → stop ≠ .endlessLoop →
      κ'.envs = κ.envs → κ'.curenv = κ.curenv →
      Step symbols tables programs pgdir ⟨mem, κ, .user cpu⟩ .stop
        ⟨(saveFrame symbols mem' κ.curenv tf).1, κ', .prompt (some κ.curenv)⟩
  | run {mem : Word → BitVec 8} {κ : Kernel} {curenv : Option Nat} {e : Nat} : e < nenv →
      (κ.envs e).envStatus = envRunnable →
      Step symbols tables programs pgdir ⟨mem, κ, .prompt curenv⟩ (.run e)
        ⟨(Resumed.envRun symbols mem κ curenv e).mem,
          (Resumed.envRun symbols mem κ curenv e).kernel,
          .user (Resumed.envRun symbols mem κ curenv e).cpu⟩

structure Contexts where
  kernel : Kernel
  current : Option Nat
  registers : Nat → Processor
  entry : Nat → Option Word

def initialRegisters (entry : Word) : Processor where
  edi := 0
  esi := 0
  ebp := 0
  ebx := 0
  edx := 0
  ecx := 0
  eax := 0
  esp := ustackTop
  eip := entry
  eflags := 0
  cs := gdUt ||| 3
  ds := gdUd ||| 3
  es := gdUd ||| 3
  ss := gdUd ||| 3

def callOf (p : Processor) (κ : Kernel) : Except Stop (Word × Kernel) :=
  syscall κ p.eax p.edx p.ecx p.ebx p.edi p.esi

def Processor.withEax (p : Processor) (r : Word) : Processor := { p with eax := r }

/-- A system call is a call of `syscall` that changes `eax`, and nothing but its own step
changes the registers of an environment. -/
inductive ContextStep : Contexts → Happening → Contexts → Prop
  | compute {α : Contexts} {e : Nat} {cpu : Processor} : α.current = some e → cpu.cpl = 3 →
      ContextStep α (.compute cpu) { α with registers := Function.update α.registers e cpu }
  | systemCall {α : Contexts} {e : Nat} {r : Word} {κ : Kernel} : α.current = some e →
      callOf (α.registers e) α.kernel = .ok (r, κ) →
      ContextStep α .systemCall { α with
        kernel := κ
        registers := Function.update α.registers e ((α.registers e).withEax r) }
  | sleep {α : Contexts} {e : Nat} {entry : Word} {κ : Kernel} : α.current = some e →
      callOf (α.registers e) α.kernel = .error .commandPrompt → α.entry e = some entry →
      κ.envs = α.kernel.envs → κ.memory = α.kernel.memory →
      ContextStep α .sleep { α with
        kernel := κ
        current := none
        registers := Function.update α.registers e (initialRegisters entry) }
  | stop {α : Contexts} {e : Nat} {κ : Kernel} : α.current = some e → κ.envs = α.kernel.envs →
      ContextStep α .stop { α with kernel := κ, current := none }
  | run {α : Contexts} {e : Nat} {κ : Kernel} : α.current = none → e < nenv →
      (α.kernel.envs e).envStatus = envRunnable → κ.envs = α.kernel.envs →
      κ.memory = α.kernel.memory → κ.curenv = e →
      ContextStep α (.run e) { α with kernel := κ, current := some e }

def System.running (σ : System) : Option Nat :=
  match σ.mode with
  | .user _ => some σ.kernel.curenv
  | .prompt _ => none

structure Represents (symbols : TrapSymbols) (tables : Tables) (programs : UserPrograms symbols)
    (σ : System) (α : Contexts) : Prop where
  ready : TrapsReady symbols tables σ.mem
  kernel : α.kernel = σ.kernel
  current : α.current = σ.running
  inside : ∀ e, σ.running = some e → e < nenv
  -- The one that was current when the kernel stopped.
  left : ∀ e, σ.mode = .prompt (some e) → σ.kernel.curenv = e
  user : ∀ cpu, σ.mode = .user cpu → cpu = α.registers σ.kernel.curenv
  saved : ∀ e < nenv, σ.running ≠ some e → envPopTf σ.mem (envTf symbols e) = α.registers e
  level : ∀ e < nenv, (α.kernel.envs e).envStatus = envRunnable ∨ α.current = some e →
    (α.registers e).cpl = 3
  entry : ∀ e < nenv, α.entry e = programEntry programs σ.mem e

section Return

variable {mem : Word → BitVec 8} {p : Processor} {tf vector err oesp : Word}

theorem ring_three (user : p.cpl = 3) : p.cs &&& 3 = 3 := by
  have split : p.cs &&& 3 = (p.cs.setWidth 2).setWidth 16 := by
    apply BitVec.eq_of_toNat_eq
    have mask : (3 : BitVec 16).toNat = 2 ^ 2 - 1 := rfl
    rw [BitVec.toNat_and, mask, Nat.and_two_pow_sub_one_eq_mod, BitVec.toNat_setWidth,
      BitVec.toNat_setWidth]
    omega
  have level : p.cs.setWidth 2 = 3 := user
  rw [split, level]
  rfl

theorem envPopTf_of_holds (holds : Holds mem tf (trapWords p vector err oesp)) (user : p.cpl = 3) :
    envPopTf mem tf = p := by
  have skip : ∀ a : Word, a + 8 = a + 4 + 4 := by
    intro a
    rw [BitVec.add_assoc]
    rfl
  have edi := holds.head
  have esi := holds.tail.head
  have ebp := holds.tail.tail.head
  have behind := holds.tail.tail.tail.tail
  have ebx := behind.head
  have edx := behind.tail.head
  have ecx := behind.tail.tail.head
  have eax := behind.tail.tail.tail.head
  have selectors := behind.tail.tail.tail.tail
  have es := selectors.head
  have ds := selectors.tail.head
  have hardware := selectors.tail.tail.tail.tail
  have eip := hardware.head
  have cs := hardware.tail.head
  have eflags := hardware.tail.tail.head
  have esp := hardware.tail.tail.tail.head
  have ss := hardware.tail.tail.tail.tail.head
  have level : p.cs.setWidth 2 = 3 := user
  have outwards : (p.cs.setWidth 32).setWidth 2 ≠ (0 : BitVec 2) := by
    rw [BitVec.setWidth_setWidth_of_le _ (by omega), level]
    decide
  simp only [envPopTf, Stack.pop, skip, edi, esi, ebp, ebx, edx, ecx, eax, es, ds, eip, cs, eflags,
    esp, ss, narrow_wide, outwards, decide_true, if_true, ne_eq, not_false_eq_true]

end Return

section Saved

variable {symbols : TrapSymbols} {tables : Tables} {mem mem' : Word → BitVec 8} {p : Processor}
  {e : Nat} {b : Word} {n : Nat}

def savedMemory (symbols : TrapSymbols) (mem : Word → BitVec 8) (p : Processor) (e : Nat)
    (vector err : Word) : Word → BitVec 8 :=
  copy (trapMemory mem p vector err) (envTf symbols e) trapTop sizeofTrapframe

theorem saveFrame_trapMemory (user : p.cpl = 3) (vector err : Word) :
    saveFrame symbols (trapMemory mem p vector err) e trapTop =
      (savedMemory symbols mem p e vector err, envTf symbols e) := by
  have holds := holds_trapMemory mem p vector err
  have cs : half (trapMemory mem p vector err) (trapTop + 52) = p.cs := by
    have found : half (trapMemory mem p vector err) (trapTop + 52) =
        (p.cs.setWidth 32).setWidth 16 := holds.half (i := 13) rfl
    rw [found, narrow_wide]
  rw [saveFrame, cs, if_pos (ring_three user)]
  rfl

theorem holds_savedMemory (vector err : Word) :
    Holds (savedMemory symbols mem p e vector err) (envTf symbols e)
      (trapWords p vector err (kernelStackTop - 36)) :=
  (holds_trapMemory mem p vector err).copy (by simp [trapWords, sizeofTrapframe])
    (by simp [sizeofTrapframe])

theorem agreeOn_savedMemory (stack : RangesApart trapTop 68 b n)
    (frame : RangesApart (envTf symbols e) 68 b n) (vector err : Word) :
    AgreeOn mem (savedMemory symbols mem p e vector err) b n :=
  (agreeOn_trapMemory stack vector err).trans (agreeOn_copy frame)

theorem envTf_toNat (inside : e < nenv) :
    (envTf symbols e).toNat = symbols.envs.toNat + 100 * e := by
  have fits := symbols.envsFit
  have size : nenv = 1024 := rfl
  exact toNat_add_ofNat symbols.envs (by omega)

/-- The part of `envs` that belongs to an environment is above everything a trap reads. -/
theorem envTf_apart (inside : e < nenv) {k l : Nat} (part : k + l ≤ 100) (some : 0 < l)
    (below : b.toNat + n ≤ symbols.envs.toNat) :
    RangesApart (envTf symbols e + BitVec.ofNat 32 k) l b n := by
  have fits := symbols.envsFit
  have size : nenv = 1024 := rfl
  have start := @envTf_toNat symbols e inside
  have address := toNat_add_ofNat (envTf symbols e) (o := k) (by omega)
  exact ⟨by omega, by omega, Or.inr (by omega)⟩

theorem envTf_apart_other {d : Nat} (inside : e < nenv) (bound : d < nenv) (other : d ≠ e)
    {k l i j : Nat} (part : k + l ≤ 100) (some : 0 < l) (part' : i + j ≤ 100) (some' : 0 < j) :
    RangesApart (envTf symbols e + BitVec.ofNat 32 k) l (envTf symbols d + BitVec.ofNat 32 i) j := by
  have fits := symbols.envsFit
  have size : nenv = 1024 := rfl
  have start := @envTf_toNat symbols e inside
  have start' := @envTf_toNat symbols d bound
  have address := toNat_add_ofNat (envTf symbols e) (o := k) (by omega)
  have address' := toNat_add_ofNat (envTf symbols d) (o := i) (by omega)
  exact ⟨by omega, by omega, by omega⟩

theorem envTf_apart_stack (inside : e < nenv) : RangesApart trapTop 68 (envTf symbols e) 100 := by
  have fits := symbols.envsFit
  have size : nenv = 1024 := rfl
  have start := @envTf_toNat symbols e inside
  have high := symbols.idtHigh
  have below := symbols.idtBelow
  exact apart_trapTop (by omega) (by omega)

structure TouchesOnly (symbols : TrapSymbols) (e : Nat) (mem mem' : Word → BitVec 8) : Prop where
  others : ∀ d < nenv, d ≠ e → AgreeOn mem mem' (envTf symbols d) 100
  image : ∀ (b : Word) (n : Nat), kernelBase.toNat ≤ b.toNat →
    b.toNat + n ≤ symbols.envs.toNat → AgreeOn mem mem' b n

theorem TouchesOnly.trans {mem'' : Word → BitVec 8} (first : TouchesOnly symbols e mem mem')
    (second : TouchesOnly symbols e mem' mem'') : TouchesOnly symbols e mem mem'' :=
  ⟨fun d inside other => (first.others d inside other).trans (second.others d inside other),
    fun b n high below => (first.image b n high below).trans (second.image b n high below)⟩

theorem TouchesOnly.ready (touches : TouchesOnly symbols e mem mem')
    (ready : TrapsReady symbols tables mem) : TrapsReady symbols tables mem' :=
  ready.congr (touches.image _ _ symbols.idtHigh symbols.idtBelow)
    (touches.image _ _ symbols.gdtHigh symbols.gdtBelow)
    (touches.image _ _ symbols.tsHigh symbols.tsBelow)

theorem touchesOnly_savedMemory (inside : e < nenv) (vector err : Word) :
    TouchesOnly symbols e mem (savedMemory symbols mem p e vector err) := by
  constructor
  · intro d bound other
    have frame : RangesApart (envTf symbols e) 68 (envTf symbols d) 100 := by
      simpa using @envTf_apart_other symbols e d inside bound other 0 68 0 100 (by omega) (by omega)
        (by omega) (by omega)
    exact agreeOn_savedMemory (envTf_apart_stack bound) frame vector err
  · intro b n high below
    have frame : RangesApart (envTf symbols e) 68 b n := by
      simpa using @envTf_apart symbols e b n inside 0 68 (by omega) (by omega) below
    have fits := symbols.envsFit
    exact agreeOn_savedMemory (apart_trapTop high (by omega)) frame vector err

theorem touchesOnly_part (inside : e < nenv) {k m : Nat} (part : k + m ≤ 100) (some_ : 0 < m)
    (outside : ∀ (b : Word) (n : Nat),
      RangesApart (envTf symbols e + BitVec.ofNat 32 k) m b n → AgreeOn mem mem' b n) :
    TouchesOnly symbols e mem mem' := by
  constructor
  · intro d bound other
    have apart := @envTf_apart_other symbols e d inside bound other k m 0 100 (by omega) (by omega)
      (by omega) (by omega)
    simp only [BitVec.add_zero] at apart
    exact outside _ _ apart
  · intro b n high below
    exact outside b n (envTf_apart inside part some_ below)

theorem touchesOnly_setWord (inside : e < nenv) {k : Nat} (part : k + 4 ≤ 100) (v : Word) :
    TouchesOnly symbols e mem (setWord mem (envTf symbols e + BitVec.ofNat 32 k) v) :=
  touchesOnly_part inside part (by omega) fun _ _ apart => agreeOn_setWord apart v

theorem touchesOnly_setHalf (inside : e < nenv) {k : Nat} (part : k + 2 ≤ 100) (v : BitVec 16) :
    TouchesOnly symbols e mem (setHalf mem (envTf symbols e + BitVec.ofNat 32 k) v) :=
  touchesOnly_part inside part (by omega) fun _ _ apart => agreeOn_setHalf apart v

theorem envPopTf_congr {tf : Word} (agree : AgreeOn mem mem' tf 68) :
    envPopTf mem' tf = envPopTf mem tf := by
  have words : ∀ k, k + 4 ≤ 68 → word mem' (tf + BitVec.ofNat 32 k) =
      word mem (tf + BitVec.ofNat 32 k) := fun k inside => (agree.part inside).word
  have pops : ∀ k, tf + BitVec.ofNat 32 k + 4 = tf + BitVec.ofNat 32 (k + 4) :=
    fun k => add_ofNat tf k 4
  have skip : ∀ k, tf + BitVec.ofNat 32 k + 8 = tf + BitVec.ofNat 32 (k + 8) :=
    fun k => add_ofNat tf k 8
  have start : tf = tf + BitVec.ofNat 32 0 := by simp
  rw [start]
  simp only [envPopTf, Stack.pop, pops, skip]
  simp only [words 0, words 4, words 8, words 16, words 20, words 24, words 28, words 32,
    words 36, words 48, words 52, words 56, words 60, words 64, Nat.reduceAdd, Nat.reduceLeDiff]

end Saved

section Call

variable {symbols : TrapSymbols} {mem : Word → BitVec 8} {κ κ' : Kernel} {p : Processor}
  {r : Word}

theorem foldl_putch_frame (chars : List Word) (κ : Kernel) :
    (chars.foldl Kernel.putch κ).envs = κ.envs ∧ (chars.foldl Kernel.putch κ).curenv = κ.curenv := by
  induction chars generalizing κ with
  | nil => exact ⟨rfl, rfl⟩
  | cons ch chars ih => exact ih (κ.putch ch)

theorem state_sysEnvDestroy {envid : Word} (called : sysEnvDestroy κ envid = .ok (r, κ')) :
    κ' = κ := by
  rcases lookup : envid2env κ envid true with ⟨code, e⟩
  by_cases negative : code.toInt < 0
  · simp only [sysEnvDestroy, lookup, negative, if_true] at called
    cases called
    rfl
  · rcases sysEnvDestroy_of_lookup lookup negative with stop | stop
    · rw [stop] at called
      cases called
    · rw [stop] at called
      cases called

/-- No handler that returns touches the environments. -/
theorem callOf_frame (called : callOf p κ = .ok (r, κ')) :
    κ'.envs = κ.envs ∧ κ'.curenv = κ.curenv := by
  rw [callOf, syscall] at called
  cases names : systemCallOf p.eax with
  | none =>
      rw [names] at called
      cases called
      exact ⟨rfl, rfl⟩
  | some call =>
      rw [names] at called
      cases call with
      | cputs =>
          simp only [sysCputs_eq] at called
          cases text : cputsText κ.loadByte p.edx p.ecx with
          | error stop =>
              rw [text] at called
              cases called
          | ok chars =>
              rw [text] at called
              cases called
              exact foldl_putch_frame chars κ
      | cgetc =>
          simp only [sysCgetc] at called
          split at called
          · cases called
          · cases called
            exact ⟨rfl, rfl⟩
      | getenvid =>
          cases called
          exact ⟨rfl, rfl⟩
      | envDestroy =>
          rw [state_sysEnvDestroy called]
          exact ⟨rfl, rfl⟩
      | envSleep => cases called
      | allocatePage =>
          simp only [Kernel.allocatePage] at called
          cases result : sysAllocatePage κ.memory κ.directory p.edx p.ecx with
          | error stop =>
              rw [result] at called
              cases called
          | ok value =>
              rw [result] at called
              cases called
              exact ⟨rfl, rfl⟩
      | getPage => cases called
      | mapFrame => cases called
      | unmapFrame => cases called
      | calcReqFrames => cases called
      | calcFreeFrames =>
          simp only [sysCalculateFreeFrames] at called
          split at called
          · cases called
          · cases called
            exact ⟨rfl, rfl⟩
      | freeMem => cases called

theorem trapDispatch_call {tf : Trapframe} (system : tf.tfTrapno = tSyscall) :
    trapDispatch κ tf = (do
      let (ret, κ) ← syscall κ tf.tfRegs.regEax tf.tfRegs.regEdx tf.tfRegs.regEcx
        tf.tfRegs.regEbx tf.tfRegs.regEdi tf.tfRegs.regEsi
      return ({ tf with tfRegs := { tf.tfRegs with regEax := ret } }, κ)) := by
  have notFault : ¬tSyscall = tPgflt := by decide
  simp only [trapDispatch, system, notFault, if_false, if_true]

theorem trap_systemCall (user : p.cpl = 3) :
    trap symbols (trapMemory mem p 48 0) κ trapTop = (do
      let (r, κ') ← callOf p κ
      if (κ'.envs κ'.curenv).envStatus ≠ envRunnable then throw .assertionFailed
      return Resumed.envRun symbols
        (setWord (savedMemory symbols mem p κ.curenv 48 0) (envTf symbols κ.curenv + 28) r)
        κ' (some κ'.curenv) κ'.curenv) := by
  have frame := loadTrapframe_of_holds (@holds_savedMemory symbols mem p κ.curenv 48 0)
  have dispatch : trapDispatch κ (frameOf p 48 0 (kernelStackTop - 36)).toTrapframe = (do
      let (ret, κ) ← callOf p κ
      return ({ (frameOf p 48 0 (kernelStackTop - 36)).toTrapframe with
        tfRegs := { (frameOf p 48 0 (kernelStackTop - 36)).tfRegs with regEax := ret } }, κ)) :=
    trapDispatch_call rfl
  rw [trap]
  simp only [saveFrame_trapMemory user, frame, dispatch]
  cases callOf p κ with
  | error stop => rfl
  | ok value => rfl

/-- The result in the frame is the result in the register. -/
theorem envPopTf_withEax {e : Nat} (user : p.cpl = 3) (r : Word) :
    envPopTf (setWord (savedMemory symbols mem p e 48 0) (envTf symbols e + 28) r)
      (envTf symbols e) = p.withEax r := by
  have holds := (@holds_savedMemory symbols mem p e 48 0).set (by simp [trapWords]) (i := 7)
    (by simp [trapWords]) r
  exact envPopTf_of_holds (p := p.withEax r) holds user

theorem envRun_same {mem : Word → BitVec 8} {κ : Kernel} :
    Resumed.envRun symbols mem κ (some κ.curenv) κ.curenv =
      ⟨mem, κ, envPopTf mem (envTf symbols κ.curenv)⟩ := by
  simp [Resumed.envRun]

theorem trap_returned {resumed : Resumed} (user : p.cpl = 3)
    (returned : trap symbols (trapMemory mem p 48 0) κ trapTop = .ok resumed) :
    ∃ r κ', callOf p κ = .ok (r, κ') ∧ resumed =
      let mem' := setWord (savedMemory symbols mem p κ.curenv 48 0) (envTf symbols κ.curenv + 28) r
      ⟨mem', κ', envPopTf mem' (envTf symbols κ.curenv)⟩ := by
  rw [trap_systemCall user] at returned
  cases called : callOf p κ with
  | error stop =>
      rw [called] at returned
      cases returned
  | ok value =>
      obtain ⟨r, κ'⟩ := value
      rw [called] at returned
      obtain ⟨_, curenv⟩ := callOf_frame called
      refine ⟨r, κ', rfl, ?_⟩
      by_cases runnable : (κ'.envs κ'.curenv).envStatus ≠ envRunnable
      · simp only [ok_bind, runnable, if_true, ne_eq, not_false_eq_true] at returned
        cases returned
      · simp only [ok_bind, runnable, if_false] at returned
        cases returned
        rw [envRun_same, curenv]

theorem trap_pageFault {err : Word} (user : p.cpl = 3) :
    trap symbols (trapMemory mem p 14 err) κ trapTop = .error (.envDestroy (some κ.curenv)) := by
  have frame := loadTrapframe_of_holds (@holds_savedMemory symbols mem p κ.curenv 14 err)
  have dispatch : trapDispatch κ (frameOf p 14 err (kernelStackTop - 36)).toTrapframe =
      .error (.envDestroy (some κ.curenv)) := rfl
  rw [trap]
  simp only [saveFrame_trapMemory user, frame, dispatch]
  rfl

theorem trap_commandPrompt (user : p.cpl = 3)
    (returned : trap symbols (trapMemory mem p 48 0) κ trapTop = .error .commandPrompt) :
    callOf p κ = .error .commandPrompt := by
  rw [trap_systemCall user] at returned
  cases called : callOf p κ with
  | error stop =>
      rw [called] at returned
      cases returned
      rfl
  | ok value =>
      obtain ⟨r, κ'⟩ := value
      rw [called] at returned
      by_cases runnable : (κ'.envs κ'.curenv).envStatus ≠ envRunnable
      · simp only [ok_bind, runnable, if_true, ne_eq, not_false_eq_true] at returned
        cases returned
      · simp only [ok_bind, runnable, if_false] at returned
        cases returned

end Call

section Simulation

variable {symbols : TrapSymbols} {tables : Tables} {programs : UserPrograms symbols} {pgdir : Nat}
  {σ σ' : System} {α : Contexts}

theorem programEntry_congr {mem mem' : Word → BitVec 8}
    (image : ∀ (b : Word) (n : Nat), kernelBase.toNat ≤ b.toNat →
      b.toNat + n ≤ symbols.envs.toNat → AgreeOn mem mem' b n) (e : Nat) :
    programEntry programs mem' e = programEntry programs mem e := by
  rw [programEntry, programEntry]
  cases found : programs.programs.find? fun u => u.environment = some e with
  | none => rfl
  | some u =>
      have member : u ∈ programs.programs := List.mem_of_find?_eq_some found
      have whole := image u.ptrStart 28 (programs.high u member) (programs.below u member)
      have magic : word mem' u.ptrStart = word mem u.ptrStart := (whole.first (by omega)).word
      have entry : word mem' (u.ptrStart + 24) = word mem (u.ptrStart + 24) :=
        (whole.part (o := 24) (by omega)).word
      simp only [magic, entry]

theorem opens_of_trap {mem mem' : Word → BitVec 8} {cpu : Processor} {tf : Word} {vector : Nat}
    {software : Bool} {error : Option Word} (ready : TrapsReady symbols tables mem)
    (user : cpu.cpl = 3) (inside : vector < 256)
    (arrived : interrupt symbols tables mem cpu vector software error = .trap mem' tf) :
    Opens vector software := by
  by_contra closed
  rw [interrupt_closed ready user inside closed] at arrived
  cases arrived

theorem arrived_eq {mem mem' : Word → BitVec 8} {cpu : Processor} {tf err : Word} {vector : Nat}
    {software : Bool} (ready : TrapsReady symbols tables mem) (user : cpu.cpl = 3)
    (inside : vector < 256) (arrived : interrupt symbols tables mem cpu vector software
      (hardwareError vector err) = .trap mem' tf) :
    mem' = trapMemory mem cpu (BitVec.ofNat 32 vector) (frameError vector err) ∧ tf = trapTop := by
  have opens := opens_of_trap ready user inside arrived
  rw [interrupt_opens ready user opens] at arrived
  cases arrived
  exact ⟨rfl, rfl⟩

section Step

variable {mem : Word → BitVec 8} {κ : Kernel} {cpu : Processor}

theorem Represents.userCurrent (represents : Represents symbols tables programs ⟨mem, κ, .user cpu⟩ α) :
    α.current = some κ.curenv ∧ κ.curenv < nenv ∧ cpu = α.registers κ.curenv ∧ cpu.cpl = 3 := by
  have current : α.current = some κ.curenv := represents.current
  have inside : κ.curenv < nenv := represents.inside κ.curenv rfl
  have same : cpu = α.registers κ.curenv := represents.user cpu rfl
  refine ⟨current, inside, same, ?_⟩
  rw [same]
  exact represents.level κ.curenv inside (Or.inr current)

theorem Represents.compute {cpu' : Processor}
    (represents : Represents symbols tables programs ⟨mem, κ, .user cpu⟩ α) (level : cpu'.cpl = 3) :
    Represents symbols tables programs ⟨mem, κ, .user cpu'⟩
      { α with registers := Function.update α.registers κ.curenv cpu' } := by
  refine ⟨represents.ready, represents.kernel, represents.current, represents.inside, ?_, ?_, ?_, ?_,
    represents.entry⟩
  · intro e prompt
    cases prompt
  · intro shown same
    cases same
    simp
  · intro e inside other
    have different : e ≠ κ.curenv := fun same => other (by rw [same]; rfl)
    dsimp only
    rw [Function.update_of_ne different]
    exact represents.saved e inside other
  · intro e inside runs
    by_cases same : e = κ.curenv
    · subst same
      simpa using level
    · dsimp only
      rw [Function.update_of_ne same]
      exact represents.level e inside runs

/-- The other environments, after memory has changed in one environment only. -/
theorem Represents.savedOthers {mem' : Word → BitVec 8} {mode : Mode}
    (represents : Represents symbols tables programs ⟨mem, κ, mode⟩ α) {d : Nat}
    (running : ∀ e, e ≠ d → (System.running ⟨mem, κ, mode⟩) ≠ some e)
    (touches : TouchesOnly symbols d mem mem') {e : Nat} (inside : e < nenv) (other : e ≠ d) :
    envPopTf mem' (envTf symbols e) = α.registers e := by
  have frame := (touches.others e inside other).first (by omega : 68 ≤ 100)
  rw [envPopTf_congr frame]
  exact represents.saved e inside (running e other)

theorem running_user {e : Nat} (other : e ≠ κ.curenv) :
    System.running ⟨mem, κ, .user cpu⟩ ≠ some e := fun same => other (Option.some.inj same).symm

theorem Represents.systemCall {r : Word} {κ' : Kernel}
    (represents : Represents symbols tables programs ⟨mem, κ, .user cpu⟩ α)
    (called : callOf cpu κ = .ok (r, κ')) :
    let mem' := setWord (savedMemory symbols mem cpu κ.curenv 48 0) (envTf symbols κ.curenv + 28) r
    Represents symbols tables programs
      ⟨mem', κ', .user (envPopTf mem' (envTf symbols κ.curenv))⟩
      { α with
        kernel := κ'
        registers := Function.update α.registers κ.curenv
          ((α.registers κ.curenv).withEax r) } := by
  intro mem'
  obtain ⟨current, inside, same, level⟩ := represents.userCurrent
  obtain ⟨envs, curenv⟩ := callOf_frame called
  have touches : TouchesOnly symbols κ.curenv mem mem' :=
    (touchesOnly_savedMemory inside 48 0).trans (touchesOnly_setWord (k := 28) inside (by omega) r)
  have level' : (cpu.withEax r).cpl = 3 := level
  have popped : envPopTf mem' (envTf symbols κ.curenv) = cpu.withEax r := envPopTf_withEax level r
  have running : ∀ mode, System.running ⟨mem', κ', .user mode⟩ = some κ.curenv := by
    intro mode
    exact congrArg some curenv
  refine ⟨touches.ready represents.ready, rfl, ?_, ?_, ?_, ?_, ?_, ?_, ?_⟩
  · rw [running]
    exact current
  · intro e found
    rw [running] at found
    rw [← Option.some.inj found]
    exact inside
  · intro e prompt
    cases prompt
  · intro shown found
    cases found
    dsimp only
    rw [popped, curenv, Function.update_self, ← same]
  · intro e bound other
    rw [running] at other
    have different : e ≠ κ.curenv := fun same => other (by rw [same])
    dsimp only
    rw [Function.update_of_ne different]
    exact represents.savedOthers (fun e => running_user) touches bound different
  · intro e bound runs
    by_cases here : e = κ.curenv
    · subst here
      dsimp only
      rw [Function.update_self, ← same]
      exact level'
    · dsimp only
      rw [Function.update_of_ne here]
      refine represents.level e bound ?_
      rw [represents.kernel, ← envs]
      exact runs
  · intro e bound
    rw [represents.entry e bound]
    exact (programEntry_congr touches.image e).symm

theorem touchesOnly_fill {e : Nat} (inside : e < nenv) :
    TouchesOnly symbols e mem (fill mem (envTf symbols e) sizeofTrapframe 0) := by
  constructor
  · intro d bound other
    have apart := @envTf_apart_other symbols e d inside bound other 0 68 0 100 (by omega) (by omega)
      (by omega) (by omega)
    simp only [BitVec.add_zero] at apart
    exact agreeOn_fill apart 0
  · intro b n high below
    have apart := @envTf_apart symbols e b n inside 0 68 (by omega) (by omega) below
    simp only [BitVec.add_zero] at apart
    exact agreeOn_fill apart 0

theorem upper_zero (h : BitVec 16) : (0 : Word).extractLsb' 16 16 ++ h = h.setWidth 32 := by
  have bound := h.isLt
  have zero : ((0 : Word).extractLsb' 16 16).toNat = 0 := rfl
  apply BitVec.eq_of_toNat_eq
  rw [BitVec.toNat_append, zero, Nat.zero_shiftLeft, Nat.zero_or, BitVec.toNat_setWidth]
  omega

theorem level_initialRegisters (entry : Word) : (initialRegisters entry).cpl = 3 := by
  change (gdUt ||| 3).setWidth 2 = (3 : BitVec 2)
  decide

theorem touchesOnly_resetFrame {e : Nat} (inside : e < nenv) :
    TouchesOnly symbols e mem (resetFrame mem (envTf symbols e)) :=
  (((((touchesOnly_fill inside).trans (touchesOnly_setHalf (k := 36) inside (by omega) _)).trans
    (touchesOnly_setHalf (k := 32) inside (by omega) _)).trans
    (touchesOnly_setHalf (k := 64) inside (by omega) _)).trans
    (touchesOnly_setWord (k := 60) inside (by omega) _)).trans
    (touchesOnly_setHalf (k := 52) inside (by omega) _)

theorem holds_resetFrame (mem : Word → BitVec 8) (tf entry : Word) :
    Holds (setWord (resetFrame mem tf) (tf + 48) entry) tf
      (trapWords (initialRegisters entry) 0 0 0) := by
  let cleared := fill mem tf sizeofTrapframe 0
  let first := setHalf cleared (tf + 36) (gdUd ||| 3)
  let second := setHalf first (tf + 32) (gdUd ||| 3)
  let third := setHalf second (tf + 64) (gdUd ||| 3)
  let fourth := setWord third (tf + 60) ustackTop
  have holds : Holds cleared tf (List.replicate 17 0) := holds_fill mem tf (by omega)
  have holds : Holds first tf _ := holds.setHalf (by simp) (i := 9) rfl (gdUd ||| 3)
  have holds : Holds second tf _ := holds.setHalf (by simp) (i := 8) rfl (gdUd ||| 3)
  have holds : Holds third tf _ := holds.setHalf (by simp) (i := 16) rfl (gdUd ||| 3)
  have holds : Holds fourth tf _ := holds.set (by simp) (i := 15) (by simp) ustackTop
  have holds : Holds (resetFrame mem tf) tf _ :=
    holds.setHalf (by simp) (i := 13) rfl (gdUt ||| 3)
  have holds : Holds (setWord (resetFrame mem tf) (tf + 48) entry) tf _ :=
    holds.set (by simp) (i := 12) (by simp) entry
  simp only [upper_zero] at holds
  exact holds

/-- Whatever the program has left behind, it starts again like the first time. -/
theorem envRunCmdPrmpt_eq (inside : κ.curenv < nenv) :
    envRunCmdPrmpt programs pgdir mem κ = (programEntry programs mem κ.curenv).map fun entry =>
      (setWord (resetFrame mem (envTf symbols κ.curenv)) (envTf symbols κ.curenv + 48) entry,
        { κ with cr3 := pgdir }) := by
  have same : programEntry programs (resetFrame mem (envTf symbols κ.curenv)) κ.curenv =
      programEntry programs mem κ.curenv :=
    programEntry_congr (touchesOnly_resetFrame inside).image κ.curenv
  simp only [envRunCmdPrmpt, same]
  cases programEntry programs mem κ.curenv <;> rfl

theorem envRunCmdPrmpt_cases {mem' : Word → BitVec 8} {κ' : Kernel} (inside : κ.curenv < nenv)
    (prompted : envRunCmdPrmpt programs pgdir mem κ = some (mem', κ')) :
    ∃ entry, programEntry programs mem κ.curenv = some entry ∧
      envPopTf mem' (envTf symbols κ.curenv) = initialRegisters entry ∧
      κ' = { κ with cr3 := pgdir } ∧ TouchesOnly symbols κ.curenv mem mem' := by
  rw [envRunCmdPrmpt_eq inside] at prompted
  obtain ⟨entry, found, result⟩ := Option.map_eq_some_iff.mp prompted
  cases result
  exact ⟨entry, found,
    envPopTf_of_holds (holds_resetFrame mem _ entry) (level_initialRegisters entry), rfl,
    (touchesOnly_resetFrame inside).trans (touchesOnly_setWord (k := 48) inside (by omega) entry)⟩

theorem Represents.sleep {mem' : Word → BitVec 8} {κ' : Kernel}
    (represents : Represents symbols tables programs ⟨mem, κ, .user cpu⟩ α)
    (prompted : envRunCmdPrmpt programs pgdir (savedMemory symbols mem cpu κ.curenv 48 0) κ =
      some (mem', κ')) :
    ∃ entry, α.entry κ.curenv = some entry ∧ κ'.envs = κ.envs ∧ κ'.memory = κ.memory ∧
      Represents symbols tables programs ⟨mem', κ', .prompt none⟩
        { α with
          kernel := κ'
          current := none
          registers := Function.update α.registers κ.curenv (initialRegisters entry) } := by
  obtain ⟨current, inside, same, level⟩ := represents.userCurrent
  obtain ⟨entry, found, popped, state, touched⟩ := envRunCmdPrmpt_cases inside prompted
  have copied : TouchesOnly symbols κ.curenv mem (savedMemory symbols mem cpu κ.curenv 48 0) :=
    touchesOnly_savedMemory inside 48 0
  have touches := copied.trans touched
  subst state
  refine ⟨entry, ?_, rfl, rfl, touches.ready represents.ready, rfl, rfl, ?_, ?_, ?_, ?_, ?_, ?_⟩
  · rw [represents.entry κ.curenv inside, ← found]
    exact (programEntry_congr copied.image κ.curenv).symm
  · intro e found
    cases found
  · intro e prompt
    cases prompt
  · intro shown found
    cases found
  · intro e bound _
    dsimp only
    by_cases here : e = κ.curenv
    · subst here
      rw [popped, Function.update_self]
    · rw [Function.update_of_ne here]
      exact represents.savedOthers (fun e => running_user) touches bound here
  · intro e bound runs
    dsimp only
    by_cases here : e = κ.curenv
    · subst here
      rw [Function.update_self]
      exact level_initialRegisters entry
    · rw [Function.update_of_ne here]
      refine represents.level e bound (Or.inl ?_)
      rw [represents.kernel]
      exact runs.elim id fun absent => by cases absent
  · intro e bound
    rw [represents.entry e bound]
    exact (programEntry_congr touches.image e).symm

theorem Represents.stop {κ' : Kernel} {vector err : Word}
    (represents : Represents symbols tables programs ⟨mem, κ, .user cpu⟩ α)
    (envs : κ'.envs = κ.envs) (curenv : κ'.curenv = κ.curenv) :
    Represents symbols tables programs
      ⟨savedMemory symbols mem cpu κ.curenv vector err, κ', .prompt (some κ.curenv)⟩
      { α with kernel := κ', current := none } := by
  obtain ⟨current, inside, same, level⟩ := represents.userCurrent
  have touches : TouchesOnly symbols κ.curenv mem (savedMemory symbols mem cpu κ.curenv vector err) :=
    touchesOnly_savedMemory inside vector err
  refine ⟨touches.ready represents.ready, rfl, rfl, ?_, ?_, ?_, ?_, ?_, ?_⟩
  · intro e found
    cases found
  · intro e prompt
    cases prompt
    exact curenv
  · intro shown found
    cases found
  · intro e bound _
    by_cases here : e = κ.curenv
    · subst here
      rw [envPopTf_of_holds (holds_savedMemory vector err) level, same]
    · exact represents.savedOthers (fun e => running_user) touches bound here
  · intro e bound runs
    refine represents.level e bound (Or.inl ?_)
    rw [represents.kernel, ← envs]
    exact runs.elim id fun absent => by cases absent
  · intro e bound
    rw [represents.entry e bound]
    exact (programEntry_congr touches.image e).symm

theorem Represents.run {curenv : Option Nat} {e : Nat}
    (represents : Represents symbols tables programs ⟨mem, κ, .prompt curenv⟩ α) (inside : e < nenv)
    (runnable : (κ.envs e).envStatus = envRunnable) :
    let resumed := Resumed.envRun symbols mem κ curenv e
    resumed.kernel.envs = κ.envs ∧ resumed.kernel.memory = κ.memory ∧ resumed.kernel.curenv = e ∧
      Represents symbols tables programs ⟨resumed.mem, resumed.kernel, .user resumed.cpu⟩
        { α with kernel := resumed.kernel, current := some e } := by
  intro resumed
  have before : envPopTf mem (envTf symbols e) = α.registers e :=
    represents.saved e inside fun absent => by cases absent
  have facts : resumed.kernel.envs = κ.envs ∧ resumed.kernel.memory = κ.memory ∧
      resumed.kernel.curenv = e ∧ resumed.cpu = α.registers e ∧
      TouchesOnly symbols e mem resumed.mem := by
    by_cases switched : curenv ≠ some e
    · have counted := @touchesOnly_setWord symbols mem e inside 88 (by omega)
        (word mem (envTf symbols e + 88) + 1)
      have fits := symbols.envsFit
      have size : nenv = 1024 := rfl
      have start := @envTf_toNat symbols e inside
      have own : RangesApart (envTf symbols e + 88) 4 (envTf symbols e) 68 := by
        simpa using @rangesApart_within 32 (envTf symbols e) 88 4 0 68 (by omega) (by omega)
          (by omega) (by omega) (by omega)
      have kept : AgreeOn mem (setWord mem (envTf symbols e + 88)
          (word mem (envTf symbols e + 88) + 1)) (envTf symbols e) 68 := agreeOn_setWord own _
      have popped := envPopTf_congr kept
      simp only [resumed, Resumed.envRun, switched, if_true, ne_eq, not_false_eq_true]
      exact ⟨trivial, trivial, trivial, popped.trans before, counted⟩
    · rw [not_not] at switched
      have current : κ.curenv = e := represents.left e (by rw [switched])
      subst switched
      have unchanged : TouchesOnly symbols e mem mem :=
        ⟨fun d _ _ => AgreeOn.refl mem _ _, fun b n _ _ => AgreeOn.refl mem b n⟩
      simp only [resumed, Resumed.envRun, ne_eq, not_true_eq_false, if_false]
      exact ⟨trivial, trivial, current, before, unchanged⟩
  obtain ⟨envs, memory, curenv', cpu', touches⟩ := facts
  have running : System.running ⟨resumed.mem, resumed.kernel, .user resumed.cpu⟩ = some e :=
    congrArg some curenv'
  refine ⟨envs, memory, curenv', touches.ready represents.ready, rfl, running.symm, ?_, ?_, ?_, ?_,
    ?_, ?_⟩
  · intro d found
    rw [running] at found
    rw [← Option.some.inj found]
    exact inside
  · intro d prompt
    cases prompt
  · intro shown found
    cases found
    dsimp only
    rw [cpu', curenv']
  · intro d bound other
    rw [running] at other
    have different : d ≠ e := fun same => other (by rw [same])
    exact represents.savedOthers (fun d _ absent => by cases absent) touches bound different
  · intro d bound runs
    refine represents.level d bound (Or.inl ?_)
    rw [represents.kernel]
    rcases runs with runs | current
    · rw [← envs]
      exact runs
    · rw [← Option.some.inj current]
      exact runnable
  · intro d bound
    rw [represents.entry d bound]
    exact (programEntry_congr touches.image d).symm

end Step

/-- One step of the machine is one step of environments that keep their registers. -/
theorem Represents.step {happening : Happening}
    (represents : Represents symbols tables programs σ α)
    (taken : Step symbols tables programs pgdir σ happening σ') :
    ∃ α', ContextStep α happening α' ∧ Represents symbols tables programs σ' α' := by
  cases taken with
  | compute level =>
      obtain ⟨current, _, _, _⟩ := represents.userCurrent
      exact ⟨_, ContextStep.compute current level, represents.compute level⟩
  | @systemCall mem mem' κ cpu tf resumed arrived returned =>
      obtain ⟨current, inside, same, level⟩ := represents.userCurrent
      obtain ⟨memory, top⟩ := @arrived_eq symbols tables mem mem' cpu tf 0 48 true
        represents.ready level (by omega) arrived
      subst memory top
      obtain ⟨r, κ', called, result⟩ := trap_returned level returned
      subst result
      obtain ⟨envs, curenv⟩ := callOf_frame called
      refine ⟨_, ContextStep.systemCall current ?_, represents.systemCall called⟩
      rw [represents.kernel, ← same]
      exact called
  | @sleep mem mem' mem'' κ κ' cpu tf arrived returned prompted =>
      obtain ⟨current, inside, same, level⟩ := represents.userCurrent
      obtain ⟨memory, top⟩ := @arrived_eq symbols tables mem mem' cpu tf 0 48 true
        represents.ready level (by omega) arrived
      subst memory top
      have called := trap_commandPrompt level returned
      have saved : (saveFrame symbols (trapMemory mem cpu 48 0) κ.curenv trapTop).1 =
          savedMemory symbols mem cpu κ.curenv 48 0 := by
        rw [saveFrame_trapMemory level]
      have prompted : envRunCmdPrmpt programs pgdir (savedMemory symbols mem cpu κ.curenv 48 0) κ =
          some (mem'', κ') := by
        rw [← saved]
        exact prompted
      obtain ⟨entry, found, envs, memory, represented⟩ := represents.sleep prompted
      refine ⟨_, ContextStep.sleep current ?_ found ?_ ?_, represented⟩
      · rw [represents.kernel, ← same]
        exact called
      · rw [represents.kernel]
        exact envs
      · rw [represents.kernel]
        exact memory
  | @stop mem mem' κ κ' cpu tf err vector software stop bound arrived returned _ _ envs curenv =>
      obtain ⟨current, inside, same, level⟩ := represents.userCurrent
      obtain ⟨memory, top⟩ := arrived_eq represents.ready level bound arrived
      subst memory top
      rw [saveFrame_trapMemory level]
      refine ⟨_, ContextStep.stop current ?_, represents.stop envs curenv⟩
      rw [represents.kernel]
      exact envs
  | @run mem κ curenv e inside runnable =>
      obtain ⟨envs, memory, curenv', represented⟩ := represents.run inside runnable
      refine ⟨_, ContextStep.run represents.current inside ?_ ?_ ?_ curenv', represented⟩
      · rw [represents.kernel]
        exact runnable
      · rw [represents.kernel]
        exact envs
      · rw [represents.kernel]
        exact memory

/-- Runs of the machine are runs of environments that keep their registers. -/
theorem execution_refines {happenings : List Happening}
    (represents : Represents symbols tables programs σ α)
    (run : Run (Step symbols tables programs pgdir) σ happenings σ') :
    ∃ α', Run ContextStep α happenings α' ∧ Represents symbols tables programs σ' α' :=
  run.simulated (fun _ _ _ _ represents taken => represents.step taken) represents

theorem Represents.progress {happening : Happening} {β : Contexts}
    (represents : Represents symbols tables programs σ α) (step : ContextStep α happening β)
    (alive : ∀ e, α.current = some e → (α.kernel.envs e).envStatus = envRunnable) :
    ∃ σ', Step symbols tables programs pgdir σ happening σ' := by
  obtain ⟨mem, κ, mode⟩ := σ
  have kernel : α.kernel = κ := represents.kernel
  cases mode with
  | prompt curenv =>
      have none : α.current = none := represents.current
      cases step with
      | compute current _ => rw [none] at current; cases current
      | systemCall current _ => rw [none] at current; cases current
      | sleep current => rw [none] at current; cases current
      | stop current _ => rw [none] at current; cases current
      | run _ inside runnable =>
          rw [kernel] at runnable
          exact ⟨_, Step.run inside runnable⟩
  | user cpu =>
      obtain ⟨current, inside, same, level⟩ := represents.userCurrent
      have called : callOf cpu κ = callOf (α.registers κ.curenv) α.kernel := by
        rw [kernel, ← same]
      have arrived := @interrupt_opens symbols tables mem cpu 48 true represents.ready level
        (Or.inl rfl) 0
      cases step with
      | compute _ level => exact ⟨_, Step.compute level⟩
      | @systemCall e r κ' current' found =>
          have here : κ.curenv = e := Option.some.inj (current.symm.trans current')
          subst here
          rw [← called] at found
          obtain ⟨envs, curenv⟩ := callOf_frame found
          have runnable : ¬(κ'.envs κ'.curenv).envStatus ≠ envRunnable := by
            have live := alive κ.curenv current
            rw [kernel] at live
            rw [not_not, envs, curenv]
            exact live
          have returned := @trap_systemCall symbols mem κ cpu level
          simp only [found, ok_bind, runnable, if_false] at returned
          exact ⟨_, Step.systemCall arrived returned⟩
      | @sleep e entry κ' current' found entered envs memory =>
          have here : κ.curenv = e := Option.some.inj (current.symm.trans current')
          subst here
          rw [← called] at found
          have returned : trap symbols (trapMemory mem cpu 48 0) κ trapTop =
              .error .commandPrompt := by
            rw [trap_systemCall level, found]
            rfl
          have image := (@touchesOnly_savedMemory symbols mem cpu κ.curenv inside 48 0).image
          have start : programEntry programs (savedMemory symbols mem cpu κ.curenv 48 0) κ.curenv =
              some entry := by
            rw [programEntry_congr image, ← entered]
            exact (represents.entry κ.curenv inside).symm
          have prompted := @envRunCmdPrmpt_eq symbols programs pgdir
            (savedMemory symbols mem cpu κ.curenv 48 0) κ inside
          have frame : (saveFrame symbols (trapMemory mem cpu 48 0) κ.curenv trapTop).1 =
              savedMemory symbols mem cpu κ.curenv 48 0 := by
            rw [saveFrame_trapMemory level]
          rw [start, Option.map_some, ← frame] at prompted
          exact ⟨_, Step.sleep arrived returned prompted⟩
      | @stop e κ' current' envs =>
          have fault := @interrupt_opens symbols tables mem cpu 14 false represents.ready level
            (Or.inr ⟨rfl, rfl⟩) 0
          have destroyed := @trap_pageFault symbols mem κ cpu 0 level
          exact ⟨_, Step.stop (by omega) fault destroyed (by simp) (by simp) rfl rfl⟩
      | run none => rw [current] at none; cases none

/-! What follows for one environment. -/

theorem ContextStep.registers_other {β : Contexts} {happening : Happening} {e : Nat}
    (step : ContextStep α happening β) (other : α.current ≠ some e) :
    β.registers e = α.registers e := by
  have different : ∀ d, α.current = some d → e ≠ d := fun d current same => other (by rw [current, same])
  cases step with
  | compute current => exact Function.update_of_ne (different _ current) _ _
  | systemCall current => exact Function.update_of_ne (different _ current) _ _
  | sleep current => exact Function.update_of_ne (different _ current) _ _
  | stop => rfl
  | run => rfl

theorem ContextStep.current_other {β : Contexts} {happening : Happening} {e : Nat}
    (step : ContextStep α happening β) (other : α.current ≠ some e) (waits : happening ≠ .run e) :
    β.current ≠ some e := by
  cases step with
  | compute _ _ => exact other
  | systemCall _ _ => exact other
  | sleep => exact fun absent => by cases absent
  | stop => exact fun absent => by cases absent
  | run =>
      intro same
      cases same
      exact waits rfl

theorem ContextStep.asleep {β : Contexts} {e : Nat} (step : ContextStep α .sleep β)
    (current : α.current = some e) : ∃ entry, α.entry e = some entry ∧
      β.registers e = initialRegisters entry ∧ β.current = none := by
  cases step with
  | @sleep d entry κ current' called found envs memory =>
      have same : d = e := Option.some.inj (current'.symm.trans current)
      subst same
      exact ⟨entry, found, Function.update_self _ _ _, rfl⟩

theorem registers_of_waiting {β : Contexts} {happenings : List Happening} {e : Nat}
    (run : Run ContextStep α happenings β) (other : α.current ≠ some e)
    (waits : Happening.run e ∉ happenings) : β.registers e = α.registers e ∧ β.current ≠ some e := by
  induction run with
  | nil α => exact ⟨rfl, other⟩
  | @cons α γ β happening happenings taken _ ih =>
      rw [List.mem_cons, not_or] at waits
      obtain ⟨registers, last⟩ := ih (taken.current_other other fun same => waits.1 same.symm) waits.2
      exact ⟨registers.trans (taken.registers_other other), last⟩

/-- A program that waits is run with the registers of its environment. -/
theorem Represents.resumed {happenings : List Happening} {e : Nat}
    (represents : Represents symbols tables programs σ α)
    (run : Run (Step symbols tables programs pgdir) σ (happenings ++ [.run e]) σ')
    (waiting : α.current ≠ some e) (waits : Happening.run e ∉ happenings) :
    e < nenv ∧ σ'.mode = .user (α.registers e) := by
  obtain ⟨middle, before, last⟩ := run.split
  obtain ⟨β, run', represents'⟩ :=
    before.simulated (fun _ _ _ _ represents taken => represents.step taken) represents
  obtain ⟨kept, absent⟩ := registers_of_waiting run' waiting waits
  cases last with
  | cons taken rest =>
      cases rest with
      | nil =>
          cases taken with
          | @run mem κ curenv e inside runnable =>
              obtain ⟨_, _, curenv', represented⟩ := represents'.run inside runnable
              have cpu := represented.user _ rfl
              refine ⟨inside, ?_⟩
              dsimp only at cpu ⊢
              rw [cpu, curenv', ← kept]

/-- Whatever else happens, a program goes on with the registers it was left with. -/
theorem run_resumes {happenings : List Happening} {e : Nat}
    (represents : Represents symbols tables programs σ α)
    (run : Run (Step symbols tables programs pgdir) σ (happenings ++ [.run e]) σ')
    (other : σ.running ≠ some e) (waits : Happening.run e ∉ happenings) :
    σ'.mode = .user (envPopTf σ.mem (envTf symbols e)) := by
  have waiting : α.current ≠ some e := by
    rw [represents.current]
    exact other
  obtain ⟨inside, mode⟩ := represents.resumed run waiting waits
  rw [mode, represents.saved e inside other]

/-- A program that sleeps begins again. -/
theorem sleep_restarts {happenings : List Happening} {e : Nat}
    (represents : Represents symbols tables programs σ α)
    (run : Run (Step symbols tables programs pgdir) σ (.sleep :: (happenings ++ [.run e])) σ')
    (asleep : σ.running = some e) (waits : Happening.run e ∉ happenings) :
    ∃ entry, programEntry programs σ.mem e = some entry ∧
      σ'.mode = .user (initialRegisters entry) := by
  cases run with
  | @cons _ middle _ _ _ taken rest =>
      have inside := represents.inside e asleep
      have current : α.current = some e := by
        rw [represents.current]
        exact asleep
      obtain ⟨β, step, represents'⟩ := represents.step taken
      obtain ⟨entry, found, registers, absent⟩ := step.asleep current
      have left : β.current ≠ some e := by
        rw [absent]
        exact fun none => by cases none
      obtain ⟨_, mode⟩ := represents'.resumed rest left waits
      refine ⟨entry, (represents.entry e inside).symm.trans found, ?_⟩
      rw [mode, registers]

end Simulation

/-! ## A machine with one program -/

def waitingRegisters : Processor := (initialRegisters 0x800020).withEax 4

def smallPrograms : UserPrograms smallSymbols where
  programs := [⟨0xF0120000, some 0⟩]
  high := by simp [kernelBase]
  below := by simp [smallSymbols]

def smallImageMemory : Word → BitVec 8 :=
  setWord (setWord (idtInit smallSymbols (loadedMemory smallSymbols)).1 0xF0120018 0x800020)
    0xF0120000 elfMagic

def waitingMemory : Word → BitVec 8 :=
  ((Stack.mk smallImageMemory 0xF0200044).pushAll (trapWords waitingRegisters 0 0 0).reverse).mem

def waitingSystem : System := ⟨waitingMemory, loneEnvironment, .prompt none⟩

def waitingContexts : Contexts where
  kernel := loneEnvironment
  current := none
  registers e := envPopTf waitingMemory (envTf smallSymbols e)
  entry := programEntry smallPrograms waitingMemory

theorem waiting_tables : TrapsReady smallSymbols (idtInit smallSymbols (loadedMemory smallSymbols)).2
    waitingMemory := by
  have ready := idtInit_ready (tablesLoaded_loadedMemory smallSymbols)
  have kept : ∀ b n, RangesApart 0xF0120018 4 b n → RangesApart 0xF0120000 4 b n →
      RangesApart 0xF0200000 68 b n →
      AgreeOn (idtInit smallSymbols (loadedMemory smallSymbols)).1 waitingMemory b n := by
    intro b n entry magic frame
    have image : AgreeOn (idtInit smallSymbols (loadedMemory smallSymbols)).1 smallImageMemory b n :=
      (agreeOn_setWord entry 0x800020).trans (agreeOn_setWord magic elfMagic)
    exact image.trans (@agreeOn_pushAll 32 b n (Stack.mk smallImageMemory 0xF0200044)
      (trapWords waitingRegisters 0 0 0).reverse frame)
  exact ready.congr
    (kept _ _ ⟨by decide, by decide, by decide⟩ ⟨by decide, by decide, by decide⟩
      ⟨by decide, by decide, by decide⟩)
    (kept _ _ ⟨by decide, by decide, by decide⟩ ⟨by decide, by decide, by decide⟩
      ⟨by decide, by decide, by decide⟩)
    (kept _ _ ⟨by decide, by decide, by decide⟩ ⟨by decide, by decide, by decide⟩
      ⟨by decide, by decide, by decide⟩)

theorem waiting_frame : envPopTf waitingMemory (envTf smallSymbols 0) = waitingRegisters := by
  have pushed := @Holds.pushAll 32 [] (Stack.mk smallImageMemory 0xF0200044)
    (trapWords waitingRegisters 0 0 0).reverse (by simp [trapWords]) (holds_nil _ _)
  rw [List.reverse_reverse, List.append_nil, sp_pushAll] at pushed
  exact envPopTf_of_holds pushed (level_initialRegisters 0x800020)

theorem waiting_represents : Represents smallSymbols
    (idtInit smallSymbols (loadedMemory smallSymbols)).2 smallPrograms waitingSystem
    waitingContexts := by
  refine ⟨waiting_tables, rfl, rfl, ?_, ?_, ?_, fun e _ _ => rfl, ?_, fun e _ => rfl⟩
  · intro e running
    cases running
  · intro e prompt
    cases prompt
  · intro cpu user
    cases user
  · intro e _ runs
    rcases runs with runnable | current
    · have first : e = 0 := by
        by_contra other
        have free : (loneEnvironment.envs e).envStatus = envFree := by
          simp [loneEnvironment, other]
        have status : (loneEnvironment.envs e).envStatus = envRunnable := runnable
        rw [free] at status
        exact absurd status (by decide)
      subst first
      have registers : waitingContexts.registers 0 = waitingRegisters := waiting_frame
      rw [registers]
      exact level_initialRegisters 0x800020
    · cases current

theorem waiting_entry : programEntry smallPrograms waitingMemory 0 = some 0x800020 := by
  have frame : ∀ b n, RangesApart 0xF0200000 68 b n → AgreeOn smallImageMemory waitingMemory b n :=
    fun b n apart => @agreeOn_pushAll 32 b n (Stack.mk smallImageMemory 0xF0200044)
      (trapWords waitingRegisters 0 0 0).reverse apart
  have magicKept : AgreeOn smallImageMemory waitingMemory 0xF0120000 4 :=
    frame _ _ ⟨by decide, by decide, by decide⟩
  have entryKept : AgreeOn smallImageMemory waitingMemory 0xF0120018 4 :=
    frame _ _ ⟨by decide, by decide, by decide⟩
  have behind : AgreeOn (setWord (idtInit smallSymbols (loadedMemory smallSymbols)).1 0xF0120018
      0x800020) smallImageMemory 0xF0120018 4 :=
    agreeOn_setWord ⟨by decide, by decide, by decide⟩ elfMagic
  have magic : word waitingMemory 0xF0120000 = elfMagic := by
    rw [magicKept.word]
    exact word_setWord (by omega) _ _ _
  have entry : word waitingMemory 0xF0120018 = 0x800020 := by
    rw [entryKept.word, behind.word]
    exact word_setWord (by omega) _ _ _
  have program : smallPrograms.programs.find? (fun u => u.environment = some 0) =
      some ⟨0xF0120000, some 0⟩ := rfl
  have address : (0xF0120000 + 24 : Word) = 0xF0120018 := rfl
  simp only [programEntry, program, magic, address, entry, if_true]

theorem waiting_runnable : (loneEnvironment.envs 0).envStatus = envRunnable := rfl

def awake : Resumed := Resumed.envRun smallSymbols waitingMemory loneEnvironment none 0

def awakeSystem : System := ⟨awake.mem, awake.kernel, .user awake.cpu⟩

def awakeContexts : Contexts := { waitingContexts with kernel := awake.kernel, current := some 0 }

theorem awake_represents : Represents smallSymbols
    (idtInit smallSymbols (loadedMemory smallSymbols)).2 smallPrograms awakeSystem awakeContexts :=
  (waiting_represents.run (by decide) waiting_runnable).2.2.2

theorem awake_run : ∃ σ', Run (Step smallSymbols
    (idtInit smallSymbols (loadedMemory smallSymbols)).2 smallPrograms 256) awakeSystem
    [.sleep, .run 0] σ' := by
  have registers : awakeContexts.registers 0 = waitingRegisters := waiting_frame
  have called : callOf (awakeContexts.registers 0) awakeContexts.kernel = .error .commandPrompt := by
    rw [registers]
    rfl
  have asleep : ContextStep awakeContexts .sleep { awakeContexts with
      kernel := awakeContexts.kernel
      current := none
      registers := Function.update awakeContexts.registers 0 (initialRegisters 0x800020) } :=
    ContextStep.sleep rfl called waiting_entry rfl rfl
  have alive : ∀ e, awakeContexts.current = some e →
      (awakeContexts.kernel.envs e).envStatus = envRunnable := by
    intro e current
    cases current
    rfl
  obtain ⟨middle, taken⟩ := @Represents.progress smallSymbols _ smallPrograms 256 awakeSystem
    awakeContexts _ _ awake_represents asleep alive
  obtain ⟨β, step, represents⟩ := awake_represents.step taken
  have envs : β.kernel.envs = awakeContexts.kernel.envs := by
    cases step
    assumption
  have prompt : ∃ mem κ, middle = ⟨mem, κ, .prompt none⟩ := by
    cases taken
    exact ⟨_, _, rfl⟩
  obtain ⟨mem, κ, same⟩ := prompt
  subst same
  have runnable : (κ.envs 0).envStatus = envRunnable := by
    have kernel : β.kernel = κ := represents.kernel
    rw [← kernel, envs]
    rfl
  exact ⟨_, Run.cons taken (Run.cons (Step.run (by decide) runnable) (Run.nil _))⟩

theorem waiting_run : ∃ σ', Run (Step smallSymbols
    (idtInit smallSymbols (loadedMemory smallSymbols)).2 smallPrograms 256) waitingSystem
    [.run 0, .sleep, .run 0] σ' := by
  obtain ⟨σ', run⟩ := awake_run
  exact ⟨σ', Run.cons (Step.run (by decide) waiting_runnable) run⟩

theorem execution_refines_waiting : ∃ α', Run ContextStep waitingContexts
    [.run 0, .sleep, .run 0] α' := by
  obtain ⟨σ', run⟩ := waiting_run
  obtain ⟨α', run', _⟩ := execution_refines waiting_represents run
  exact ⟨α', run'⟩

theorem run_resumes_waiting : ∃ σ', Run (Step smallSymbols
    (idtInit smallSymbols (loadedMemory smallSymbols)).2 smallPrograms 256) waitingSystem
    [.run 0] σ' ∧ σ'.mode = .user (envPopTf waitingMemory (envTf smallSymbols 0)) := by
  have taken : Step smallSymbols (idtInit smallSymbols (loadedMemory smallSymbols)).2
      smallPrograms 256 waitingSystem (.run 0) awakeSystem :=
    Step.run (by decide) waiting_runnable
  have other : waitingSystem.running ≠ some 0 := by
    intro running
    cases running
  have waits : Happening.run 0 ∉ ([] : List Happening) := List.not_mem_nil
  have run : Run (Step smallSymbols (idtInit smallSymbols (loadedMemory smallSymbols)).2
      smallPrograms 256) waitingSystem ([] ++ [.run 0]) awakeSystem := Run.cons taken (Run.nil _)
  have mode := run_resumes waiting_represents run other waits
  exact ⟨awakeSystem, run, mode⟩

theorem sleep_restarts_awake : ∃ σ', Run (Step smallSymbols
    (idtInit smallSymbols (loadedMemory smallSymbols)).2 smallPrograms 256) awakeSystem
    [.sleep, .run 0] σ' ∧ ∃ entry, σ'.mode = .user (initialRegisters entry) := by
  obtain ⟨σ', run⟩ := awake_run
  have running : awakeSystem.running = some 0 := awake_represents.current.symm
  have waits : Happening.run 0 ∉ ([] : List Happening) := List.not_mem_nil
  have split : Run (Step smallSymbols (idtInit smallSymbols (loadedMemory smallSymbols)).2
      smallPrograms 256) awakeSystem (.sleep :: ([] ++ [.run 0])) σ' := run
  obtain ⟨entry, _, mode⟩ := sleep_restarts awake_represents split running waits
  exact ⟨σ', run, entry, mode⟩

end FosV2
