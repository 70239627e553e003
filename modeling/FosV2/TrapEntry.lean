import FosV2.Descriptors

/-!
How a trap gets from user mode into `trap`: `idt_init` of `kern/trap.c`, what the processor
does with the tables it has set up, and the entry points of `kern/trapentry.S`. The frame is
a struct of C to the one side and a sequence of pushes to the other.
-/

namespace FosV2

open BitFields
open WordStack

structure Processor where
  edi : Word
  esi : Word
  ebp : Word
  ebx : Word
  edx : Word
  ecx : Word
  eax : Word
  esp : Word
  eip : Word
  eflags : Word
  cs : BitVec 16
  ds : BitVec 16
  es : BitVec 16
  ss : BitVec 16

def Processor.cpl (p : Processor) : BitVec 2 := p.cs.setWidth 2

structure Pseudodesc where
  pdLim : BitVec 16
  pdBase : Word

/-- What `lgdt`, `lidt` and `ltr` have loaded; of the task register the base of its segment. -/
structure Tables where
  gdt : Pseudodesc
  idt : Pseudodesc
  taskBase : Word

def gdKd : BitVec 16 := 0x10
def gdTss : BitVec 16 := 0x28
def sizeofTaskstate : Word := 104
def sizeofTrapframe : Nat := 0x44

/-- Where the linker and `boot_allocate_space` have put what a trap touches. The tables are in
the image of the kernel, which ends below `envs`. -/
structure TrapSymbols where
  idt : Word
  gdt : Word
  ts : Word
  envs : Word
  pageFault : Word
  syscallHandler : Word
  distinct : pageFault ≠ syscallHandler
  idtHigh : kernelBase.toNat ≤ idt.toNat
  gdtHigh : kernelBase.toNat ≤ gdt.toNat
  tsHigh : kernelBase.toNat ≤ ts.toNat
  idtBelow : idt.toNat + 2048 ≤ envs.toNat
  gdtBelow : gdt.toNat + 48 ≤ envs.toNat
  tsBelow : ts.toNat + 104 ≤ envs.toNat
  envsFit : envs.toNat + 102400 ≤ 2 ^ 32
  idtGdt : RangesApart idt 2048 gdt 48
  idtTs : RangesApart idt 2048 ts 104
  gdtTs : RangesApart gdt 48 ts 104

def descriptor (mem : Word → BitVec 8) (a : Word) : Nat :=
  (word mem a).toNat + 2 ^ 32 * (word mem (a + 4)).toNat

def setDescriptor (mem : Word → BitVec 8) (a : Word) (n : Nat) : Word → BitVec 8 :=
  setWord (setWord mem (a + 4) (BitVec.ofNat 32 (n / 2 ^ 32))) a (BitVec.ofNat 32 n)

def gateAddress (table : Word) (vector : Nat) : Word := table + BitVec.ofNat 32 (8 * vector)

/-- `gdt` as it is initialized in `kern/helpers.c`. -/
def gdtEntries : List Segdesc :=
  [segNull, seg (staX ||| staR) 0 0xFFFFFFFF 0, seg staW 0 0xFFFFFFFF 0,
    seg (staX ||| staR) 0 0xFFFFFFFF 3, seg staW 0 0xFFFFFFFF 3, segNull]

/-- `gdt_pd` is loaded by `turn_on_paging`; `ltr` reads the segment that was just written. -/
def idtInit (symbols : TrapSymbols) (mem : Word → BitVec 8) : (Word → BitVec 8) × Tables :=
  let mem := setDescriptor mem (gateAddress symbols.idt 14)
    (pack (setGate false gdKt symbols.pageFault 0).fields)
  let mem := setDescriptor mem (gateAddress symbols.idt 48)
    (pack (setGate false gdKt symbols.syscallHandler 3).fields)
  let mem := setWord mem (symbols.ts + 4) kernelStackTop
  let mem := setHalf mem (symbols.ts + 8) gdKd
  let task := { seg16 stsT32a symbols.ts sizeofTaskstate 0 with sdS := 0 }
  let mem := setDescriptor mem (symbols.gdt + gdTss.setWidth 32) (pack task.fields)
  (mem, {
    gdt := ⟨47, symbols.gdt⟩
    idt := ⟨2047, symbols.idt⟩
    taskBase := (segmentOf (descriptor mem (symbols.gdt + gdTss.setWidth 32))).base })

/-! ## The processor -/

def flTf : Word := 0x100
def flIf : Word := 0x200
def flNt : Word := 0x4000
def flRf : Word := 0x10000
def flVm : Word := 0x20000

/-- An interrupt gate disables interrupts, a trap gate leaves them as they are. -/
def flagsInside (type : BitVec 4) (eflags : Word) : Word :=
  let eflags := eflags &&& ~~~(flTf ||| flNt ||| flRf ||| flVm)
  if type = stsIg32 then eflags &&& ~~~flIf else eflags

/-- One attempt to go through a gate, or the vector of the fault that it ends with. -/
def deliver (tables : Tables) (mem : Word → BitVec 8) (p : Processor) (vector : Nat)
    (software : Bool) (error : Option Word) : Except Nat ((Word → BitVec 8) × Processor) :=
  let gate := gateOf (descriptor mem (gateAddress tables.idt.pdBase vector))
  if tables.idt.pdLim.toNat < 8 * vector + 7 then .error 13
  else if gate.application ≠ 0 ∨ gate.type ≠ stsIg32 ∧ gate.type ≠ stsTg32 then .error 13
  else if software ∧ gate.dpl < p.cpl then .error 13
  else if gate.present = 0 then .error 11
  else
    let code := segmentOf
      (descriptor mem (tables.gdt.pdBase + (gate.selector &&& 0xFFF8).setWidth 32))
    if tables.gdt.pdLim.toNat < (gate.selector &&& 0xFFF8).toNat + 7 then .error 13
    else if code.application = 0 ∨ code.type &&& staX = 0 then .error 13
    else if code.present = 0 then .error 11
    else
      let inside := { p with
        cs := (gate.selector &&& 0xFFFC) ||| code.dpl.setWidth 16
        eip := gate.offset
        eflags := flagsInside gate.type p.eflags }
      if code.dpl < p.cpl then
        let s := (Stack.mk mem (word mem (tables.taskBase + 4))).pushAll
          ([p.ss.setWidth 32, p.esp, p.eflags, p.cs.setWidth 32, p.eip] ++ error.toList)
        .ok (s.mem, { inside with ss := half mem (tables.taskBase + 8), esp := s.sp })
      else
        let s := (Stack.mk mem p.esp).pushAll
          ([p.eflags, p.cs.setWidth 32, p.eip] ++ error.toList)
        .ok (s.mem, { inside with esp := s.sp })

/-- A fault on the way is delivered next; after one of the contributory vectors or a page
fault it is the double fault, and after that one the processor shuts down. -/
def afterRefusal (vector fault : Nat) : Option Nat :=
  if vector = 8 then none
  else if vector ∈ [0, 10, 11, 12, 13, 14] then some 8
  else some fault

inductive Arrival where
  | trap (mem : Word → BitVec 8) (tf : Word)
  | elsewhere (eip : Word)
  | shutdown

/-- What the entry points push before they jump to `_alltraps`. -/
def entryPushes (symbols : TrapSymbols) (eip : Word) : Option (List Word) :=
  if eip = symbols.pageFault then some [tPgflt]
  else if eip = symbols.syscallHandler then some [0, tSyscall]
  else none

/-- Up to `push %esp`, which is the argument of `trap`. -/
def allTraps (mem : Word → BitVec 8) (p : Processor) (entry : List Word) : Stack 32 :=
  let s := (Stack.mk mem p.esp).pushAll (entry ++ [p.ds.setWidth 32, p.es.setWidth 32])
  -- `pushal`, with the stack pointer before it
  s.pushAll [p.eax, p.ecx, p.edx, p.ebx, s.sp, p.ebp, p.esi, p.edi]

def arrive (symbols : TrapSymbols) (tables : Tables) (mem : Word → BitVec 8) (p : Processor) :
    Nat → Nat → Bool → Option Word → Arrival
  | 0, _, _, _ => .shutdown
  | attempts + 1, vector, software, error =>
      match deliver tables mem p vector software error with
      | .ok (mem, p) =>
          match entryPushes symbols p.eip with
          | some entry =>
              let s := allTraps mem p entry
              .trap s.mem s.sp
          | none => .elsewhere p.eip
      | .error fault =>
          match afterRefusal vector fault with
          | some next => arrive symbols tables mem p attempts next false
              (some (BitVec.ofNat 32 (8 * vector + 2)))
          | none => .shutdown

/-- Three attempts: the vector, the fault, and the double fault. -/
def interrupt (symbols : TrapSymbols) (tables : Tables) (mem : Word → BitVec 8) (p : Processor)
    (vector : Nat) (software : Bool) (error : Option Word) : Arrival :=
  arrive symbols tables mem p 3 vector software error

/-- `struct Trapframe` at its offsets. -/
def loadTrapframe (mem : Word → BitVec 8) (tf : Word) : EnvTrapframe where
  tfRegs := ⟨word mem tf, word mem (tf + 4), word mem (tf + 8), word mem (tf + 12),
    word mem (tf + 16), word mem (tf + 20), word mem (tf + 24), word mem (tf + 28)⟩
  tfEs := half mem (tf + 32)
  tfDs := half mem (tf + 36)
  tfTrapno := word mem (tf + 40)
  tfErr := word mem (tf + 44)
  tfEip := word mem (tf + 48)
  tfCs := half mem (tf + 52)
  tfEflags := word mem (tf + 56)
  tfEsp := word mem (tf + 60)
  tfSs := half mem (tf + 64)

/-! ## Traps from user mode -/

def gateWord (symbols : TrapSymbols) (vector : Nat) : Nat :=
  if vector = 14 then pack (setGate false gdKt symbols.pageFault 0).fields
  else if vector = 48 then pack (setGate false gdKt symbols.syscallHandler 3).fields
  else 0

/-- Of the segment of the kernel's code only what a gate asks for, since the processor marks
segments that are used. -/
structure TrapsReady (symbols : TrapSymbols) (tables : Tables) (mem : Word → BitVec 8) : Prop where
  idt : tables.idt = ⟨2047, symbols.idt⟩
  gdt : tables.gdt = ⟨47, symbols.gdt⟩
  taskBase : tables.taskBase = symbols.ts
  gates : ∀ vector < 256,
    descriptor mem (gateAddress symbols.idt vector) = gateWord symbols vector
  application : (segmentOf (descriptor mem (symbols.gdt + 8))).application = 1
  executable : (segmentOf (descriptor mem (symbols.gdt + 8))).type &&& staX ≠ 0
  dpl : (segmentOf (descriptor mem (symbols.gdt + 8))).dpl = 0
  present : (segmentOf (descriptor mem (symbols.gdt + 8))).present = 1
  stack : word mem (symbols.ts + 4) = kernelStackTop
  stackSegment : half mem (symbols.ts + 8) = gdKd

def Opens (vector : Nat) (software : Bool) : Prop := vector = 48 ∨ vector = 14 ∧ software = false

def trapWords (p : Processor) (vector err oesp : Word) : List Word :=
  [p.edi, p.esi, p.ebp, oesp, p.ebx, p.edx, p.ecx, p.eax, p.es.setWidth 32, p.ds.setWidth 32,
    vector, err, p.eip, p.cs.setWidth 32, p.eflags, p.esp, p.ss.setWidth 32]

def trapTop : Word := kernelStackTop - 68

def trapMemory (mem : Word → BitVec 8) (p : Processor) (vector err : Word) : Word → BitVec 8 :=
  ((Stack.mk mem kernelStackTop).pushAll (trapWords p vector err (kernelStackTop - 36)).reverse).mem

section Delivery

variable {symbols : TrapSymbols} {tables : Tables} {mem : Word → BitVec 8} {p : Processor}
  {vector : Nat} {software : Bool}

theorem deliver_refused (ready : TrapsReady symbols tables mem) (user : p.cpl = 3)
    (inside : vector < 256) (closed : ¬Opens vector software) (error : Option Word) :
    deliver tables mem p vector software error = .error 13 := by
  have limit : ¬tables.idt.pdLim.toNat < 8 * vector + 7 := by
    rw [ready.idt]
    change ¬2047 < 8 * vector + 7
    omega
  have read : descriptor mem (gateAddress tables.idt.pdBase vector) = gateWord symbols vector := by
    rw [ready.idt]
    exact ready.gates vector inside
  by_cases fault : vector = 14
  · subst fault
    have called : software = true := by
      by_contra hardware
      exact closed (Or.inr ⟨rfl, by simpa using hardware⟩)
    have gate : gateOf (gateWord symbols 14) = ⟨symbols.pageFault, gdKt, stsIg32, 0, 0, 1⟩ :=
      gateOf_setGate 0 false gdKt symbols.pageFault
    have type : ¬((0 : BitVec 1) ≠ 0 ∨ stsIg32 ≠ stsIg32 ∧ stsIg32 ≠ stsTg32) := by decide
    have kernelOnly : (0 : BitVec 2) < 3 := by decide
    simp only [deliver, limit, read, gate, type, user, called, kernelOnly, if_false, if_true,
      and_self]
  · have other : vector ≠ 48 := fun same => closed (Or.inl same)
    have gate : gateOf (gateWord symbols vector) = ⟨0, 0, 0, 0, 0, 0⟩ := by
      simp only [gateWord, fault, other, if_false]
      rfl
    have empty : (0 : BitVec 1) ≠ 0 ∨ (0 : BitVec 4) ≠ stsIg32 ∧ (0 : BitVec 4) ≠ stsTg32 := by
      decide
    simp only [deliver, limit, read, gate, empty, if_false, if_true]

def handlerOf (symbols : TrapSymbols) (vector : Nat) : Word :=
  if vector = 14 then symbols.pageFault else symbols.syscallHandler

theorem deliver_opens (ready : TrapsReady symbols tables mem) (user : p.cpl = 3)
    (opens : Opens vector software) (error : Option Word) :
    deliver tables mem p vector software error =
      .ok (((Stack.mk mem kernelStackTop).pushAll
          ([p.ss.setWidth 32, p.esp, p.eflags, p.cs.setWidth 32, p.eip] ++ error.toList)).mem,
        { p with
          cs := gdKt
          eip := handlerOf symbols vector
          eflags := flagsInside stsIg32 p.eflags
          ss := gdKd
          esp := ((Stack.mk mem kernelStackTop).pushAll
            ([p.ss.setWidth 32, p.esp, p.eflags, p.cs.setWidth 32, p.eip] ++ error.toList)).sp }) := by
  have inside : vector < 256 := by
    rcases opens with same | ⟨same, _⟩ <;> omega
  have limit : ¬tables.idt.pdLim.toNat < 8 * vector + 7 := by
    rw [ready.idt]
    change ¬2047 < 8 * vector + 7
    omega
  have read : descriptor mem (gateAddress tables.idt.pdBase vector) = gateWord symbols vector := by
    rw [ready.idt]
    exact ready.gates vector inside
  have gate : ∃ dpl, gateOf (gateWord symbols vector) =
      ⟨handlerOf symbols vector, gdKt, stsIg32, 0, dpl, 1⟩ ∧ ¬(software = true ∧ dpl < p.cpl) := by
    rcases opens with same | ⟨same, hardware⟩
    · subst same
      refine ⟨3, gateOf_setGate 3 false gdKt symbols.syscallHandler, ?_⟩
      rw [user]
      exact fun denied => absurd denied.2 (by decide)
    · subst same
      refine ⟨0, gateOf_setGate 0 false gdKt symbols.pageFault, ?_⟩
      rw [hardware]
      exact fun denied => absurd denied.1 (by decide)
  obtain ⟨dpl, gate, permitted⟩ := gate
  have type : ¬((0 : BitVec 1) ≠ 0 ∨ stsIg32 ≠ stsIg32 ∧ stsIg32 ≠ stsTg32) := by decide
  have present : ¬(1 : BitVec 1) = 0 := by decide
  have selector : (gdKt &&& 0xFFF8).setWidth 32 = (8 : Word) := rfl
  have tableLimit : ¬tables.gdt.pdLim.toNat < (gdKt &&& 0xFFF8).toNat + 7 := by
    rw [ready.gdt]
    change ¬(47 : BitVec 16).toNat < (gdKt &&& 0xFFF8).toNat + 7
    decide
  have table : tables.gdt.pdBase = symbols.gdt := by
    rw [ready.gdt]
  have code : ¬((segmentOf (descriptor mem (symbols.gdt + 8))).application = 0 ∨
      (segmentOf (descriptor mem (symbols.gdt + 8))).type &&& staX = 0) := by
    rw [ready.application]
    exact fun wrong => wrong.elim (by decide) ready.executable
  have inner : (0 : BitVec 2) < p.cpl := by
    rw [user]
    decide
  have newCs : gdKt &&& 0xFFFC ||| (0 : BitVec 2).setWidth 16 = gdKt := rfl
  simp only [deliver, limit, read, gate, type, permitted, present, tableLimit, table, selector, code,
    ready.present, ready.dpl, inner, newCs, ready.taskBase, ready.stack, ready.stackSegment,
    if_false, if_true]

/-- The error code that the processor pushes, for a page fault only. -/
def hardwareError (vector : Nat) (err : Word) : Option Word := if vector = 14 then some err else none

/-- The error code in the frame: `TRAPHANDLER_NOEC` pushes zero. -/
def frameError (vector : Nat) (err : Word) : Word := if vector = 14 then err else 0

theorem allTraps_eq (pushed : Stack 32) (entered : Processor) (entry : List Word)
    (top : entered.esp = pushed.sp) :
    allTraps pushed.mem entered entry = pushed.pushAll (entry ++ [entered.ds.setWidth 32,
      entered.es.setWidth 32, entered.eax, entered.ecx, entered.edx, entered.ebx,
      pushed.sp - BitVec.ofNat 32 (4 * (entry.length + 2)), entered.ebp, entered.esi,
      entered.edi]) := by
  have lower : (pushed.pushAll (entry ++ [entered.ds.setWidth 32, entered.es.setWidth 32])).sp =
      pushed.sp - BitVec.ofNat 32 (4 * (entry.length + 2)) := by
    rw [sp_pushAll]
    simp
  have whole : Stack.mk pushed.mem entered.esp = pushed := by
    rw [top]
  simp only [allTraps, whole, lower]
  rw [← pushAll_append]
  simp

theorem entryPushes_handlerOf (opens : Opens vector software) (err : Word) :
    ∃ entry, entryPushes symbols (handlerOf symbols vector) = some entry ∧
      (hardwareError vector err).toList ++ entry =
        [frameError vector err, BitVec.ofNat 32 vector] := by
  rcases opens with same | ⟨same, _⟩
  · subst same
    have other : ¬symbols.syscallHandler = symbols.pageFault :=
      fun same => symbols.distinct same.symm
    refine ⟨[0, tSyscall], ?_, rfl⟩
    simp [entryPushes, handlerOf, other]
  · subst same
    refine ⟨[tPgflt], ?_, rfl⟩
    simp [entryPushes, handlerOf]

/-- A vector that is open reaches `trap` with the whole frame below the top of the kernel
stack. -/
theorem interrupt_opens (ready : TrapsReady symbols tables mem) (user : p.cpl = 3)
    (opens : Opens vector software) (err : Word) :
    interrupt symbols tables mem p vector software (hardwareError vector err) =
      .trap (trapMemory mem p (BitVec.ofNat 32 vector) (frameError vector err)) trapTop := by
  obtain ⟨entry, found, words⟩ := @entryPushes_handlerOf symbols vector software opens err
  have length : (hardwareError vector err).toList.length + entry.length = 2 := by
    rw [← List.length_append, words]
    rfl
  let hardware := [p.ss.setWidth 32, p.esp, p.eflags, p.cs.setWidth 32, p.eip] ++
    (hardwareError vector err).toList
  let pushed := (Stack.mk mem kernelStackTop).pushAll hardware
  have lower : pushed.sp - BitVec.ofNat 32 (4 * (entry.length + 2)) = kernelStackTop - 36 := by
    have sum : 4 * hardware.length + 4 * (entry.length + 2) = 36 := by
      simp only [hardware, List.length_append, List.length_cons, List.length_nil]
      omega
    have sp : pushed.sp = kernelStackTop - BitVec.ofNat 32 (4 * hardware.length) := sp_pushAll _ _
    rw [sp, BitVec.sub_sub, ← BitVec.ofNat_add, sum]
    rfl
  let entered : Processor := { p with
    cs := gdKt
    eip := handlerOf symbols vector
    eflags := flagsInside stsIg32 p.eflags
    ss := gdKd
    esp := pushed.sp }
  have delivered : deliver tables mem p vector software (hardwareError vector err) =
      .ok (pushed.mem, entered) := deliver_opens ready user opens _
  have frame : allTraps pushed.mem entered entry = (Stack.mk mem kernelStackTop).pushAll
      (trapWords p (BitVec.ofNat 32 vector) (frameError vector err)
        (kernelStackTop - 36)).reverse := by
    rw [allTraps_eq pushed entered entry rfl, lower, ← pushAll_append]
    have joined : hardware ++ (entry ++ [entered.ds.setWidth 32, entered.es.setWidth 32,
        entered.eax, entered.ecx, entered.edx, entered.ebx, kernelStackTop - 36, entered.ebp,
        entered.esi, entered.edi]) = [p.ss.setWidth 32, p.esp, p.eflags, p.cs.setWidth 32, p.eip] ++
          (((hardwareError vector err).toList ++ entry) ++ [p.ds.setWidth 32, p.es.setWidth 32,
            p.eax, p.ecx, p.edx, p.ebx, kernelStackTop - 36, p.ebp, p.esi, p.edi]) := by
      simp only [hardware, entered, List.append_assoc]
    rw [joined, words]
    rfl
  have base : (allTraps pushed.mem entered entry).sp = trapTop := by
    rw [frame]
    exact sp_pushAll _ _
  have memory : (allTraps pushed.mem entered entry).mem =
      trapMemory mem p (BitVec.ofNat 32 vector) (frameError vector err) := by
    rw [frame]
    rfl
  have goesTo : entryPushes symbols entered.eip = some entry := found
  simp only [interrupt, arrive, delivered, goesTo, base, memory]

/-- Every other vector ends in a shutdown: the fault it raises has no gate, and neither has
the double fault. -/
theorem interrupt_closed (ready : TrapsReady symbols tables mem) (user : p.cpl = 3)
    (inside : vector < 256) (closed : ¬Opens vector software) (error : Option Word) :
    interrupt symbols tables mem p vector software error = .shutdown := by
  have refused : ∀ (vector : Nat) (software : Bool) (error : Option Word), vector < 256 →
      ¬Opens vector software → deliver tables mem p vector software error = .error 13 :=
    fun _ _ error inside closed => deliver_refused ready user inside closed error
  have protection : ¬Opens 13 false := by simp [Opens]
  have double : ¬Opens 8 false := by simp [Opens]
  have first := refused vector software error inside closed
  have second : ∀ error, deliver tables mem p 13 false error = .error 13 :=
    fun error => refused 13 false error (by omega) protection
  have third : ∀ error, deliver tables mem p 8 false error = .error 13 :=
    fun error => refused 8 false error (by omega) double
  have last : afterRefusal 8 13 = none := rfl
  have afterProtection : afterRefusal 13 13 = some 8 := rfl
  rcases next : afterRefusal vector 13 with _ | v
  · simp only [interrupt, arrive, first, next]
  · have cases : v = 8 ∨ v = 13 := by
      simp only [afterRefusal] at next
      split at next
      · cases next
      · split at next <;> cases next <;> simp
    rcases cases with same | same
    · subst same
      simp only [interrupt, arrive, first, next, third, last]
    · subst same
      simp only [interrupt, arrive, first, next, second, third, afterProtection, last]

end Delivery

section Frame

variable {mem : Word → BitVec 8} {p : Processor}

def frameOf (p : Processor) (vector err oesp : Word) : EnvTrapframe where
  tfRegs := ⟨p.edi, p.esi, p.ebp, oesp, p.ebx, p.edx, p.ecx, p.eax⟩
  tfEs := p.es
  tfDs := p.ds
  tfTrapno := vector
  tfErr := err
  tfEip := p.eip
  tfCs := p.cs
  tfEflags := p.eflags
  tfEsp := p.esp
  tfSs := p.ss

theorem narrow_wide (v : BitVec 16) : (v.setWidth 32).setWidth 16 = v := by simp

theorem loadTrapframe_of_holds {tf vector err oesp : Word}
    (holds : Holds mem tf (trapWords p vector err oesp)) :
    loadTrapframe mem tf = frameOf p vector err oesp := by
  have field : ∀ (i : Nat) (v : Word), (trapWords p vector err oesp)[i]? = some v →
      word mem (tf + BitVec.ofNat 32 (4 * i)) = v := fun _ _ found => holds.word found
  have selector : ∀ (i : Nat) (v : BitVec 16),
      (trapWords p vector err oesp)[i]? = some (v.setWidth 32) →
        half mem (tf + BitVec.ofNat 32 (4 * i)) = v := by
    intro i v found
    rw [holds.half found, narrow_wide]
  have edi : word mem tf = p.edi := holds.head
  have esi : word mem (tf + 4) = p.esi := field 1 _ rfl
  have ebp : word mem (tf + 8) = p.ebp := field 2 _ rfl
  have old : word mem (tf + 12) = oesp := field 3 _ rfl
  have ebx : word mem (tf + 16) = p.ebx := field 4 _ rfl
  have edx : word mem (tf + 20) = p.edx := field 5 _ rfl
  have ecx : word mem (tf + 24) = p.ecx := field 6 _ rfl
  have eax : word mem (tf + 28) = p.eax := field 7 _ rfl
  have es : half mem (tf + 32) = p.es := selector 8 _ rfl
  have ds : half mem (tf + 36) = p.ds := selector 9 _ rfl
  have trapno : word mem (tf + 40) = vector := field 10 _ rfl
  have error : word mem (tf + 44) = err := field 11 _ rfl
  have eip : word mem (tf + 48) = p.eip := field 12 _ rfl
  have cs : half mem (tf + 52) = p.cs := selector 13 _ rfl
  have eflags : word mem (tf + 56) = p.eflags := field 14 _ rfl
  have esp : word mem (tf + 60) = p.esp := field 15 _ rfl
  have ss : half mem (tf + 64) = p.ss := selector 16 _ rfl
  simp only [loadTrapframe, frameOf, edi, esi, ebp, old, ebx, edx, ecx, eax, es, ds, trapno, error,
    eip, cs, eflags, esp, ss]

theorem holds_trapMemory (mem : Word → BitVec 8) (p : Processor) (vector err : Word) :
    Holds (trapMemory mem p vector err) trapTop (trapWords p vector err (kernelStackTop - 36)) := by
  have pushed := @Holds.pushAll 32 [] (Stack.mk mem kernelStackTop)
    (trapWords p vector err (kernelStackTop - 36)).reverse (by simp [trapWords]) (holds_nil _ _)
  rw [List.reverse_reverse, List.append_nil, sp_pushAll] at pushed
  exact pushed

theorem agreeOn_trapMemory {b : Word} {n : Nat} (apart : RangesApart trapTop 68 b n)
    (vector err : Word) : AgreeOn mem (trapMemory mem p vector err) b n :=
  @agreeOn_pushAll 32 b n (Stack.mk mem kernelStackTop)
    (trapWords p vector err (kernelStackTop - 36)).reverse apart

/-- Whatever lies in the upper part of the address space is not part of the stack. -/
theorem apart_trapTop {b : Word} {n : Nat} (high : kernelBase.toNat ≤ b.toNat)
    (fits : b.toNat + n ≤ 2 ^ 32) : RangesApart trapTop 68 b n where
  first := by decide
  second := fits
  disjoint := by
    have stack : trapTop.toNat + 68 ≤ kernelBase.toNat := by decide
    exact Or.inl (stack.trans high)

end Frame

section Tables

variable {symbols : TrapSymbols} {tables : Tables} {mem mem' : Word → BitVec 8}

theorem descriptor_congr {a : Word} (agree : AgreeOn mem mem' a 8) :
    descriptor mem' a = descriptor mem a := by
  have low : AgreeOn mem mem' a 4 := agree.first (by omega)
  have high : AgreeOn mem mem' (a + 4) 4 := agree.part (o := 4) (by omega)
  rw [descriptor, descriptor, low.word, high.word]

theorem gate_part (agree : AgreeOn mem mem' symbols.idt 2048) {vector : Nat}
    (inside : vector < 256) : AgreeOn mem mem' (gateAddress symbols.idt vector) 8 :=
  agree.part (by omega)

/-- The tables are ready as long as nothing writes to them. -/
theorem TrapsReady.congr (ready : TrapsReady symbols tables mem)
    (idt : AgreeOn mem mem' symbols.idt 2048) (gdt : AgreeOn mem mem' symbols.gdt 48)
    (ts : AgreeOn mem mem' symbols.ts 104) : TrapsReady symbols tables mem' := by
  have code : descriptor mem' (symbols.gdt + 8) = descriptor mem (symbols.gdt + 8) :=
    descriptor_congr (gdt.part (o := 8) (by omega))
  have stack : word mem' (symbols.ts + 4) = word mem (symbols.ts + 4) :=
    (ts.part (o := 4) (by omega)).word
  have stackSegment : half mem' (symbols.ts + 8) = half mem (symbols.ts + 8) :=
    (ts.part (o := 8) (by omega)).half
  refine ⟨ready.idt, ready.gdt, ready.taskBase, fun vector inside => ?_, ?_, ?_, ?_, ?_, ?_, ?_⟩
  · rw [descriptor_congr (gate_part idt inside)]
    exact ready.gates vector inside
  · rw [code]
    exact ready.application
  · rw [code]
    exact ready.executable
  · rw [code]
    exact ready.dpl
  · rw [code]
    exact ready.present
  · rw [stack]
    exact ready.stack
  · rw [stackSegment]
    exact ready.stackSegment

structure TablesLoaded (symbols : TrapSymbols) (mem : Word → BitVec 8) : Prop where
  idt : ∀ vector < 256, descriptor mem (gateAddress symbols.idt vector) = 0
  gdt : ∀ (i : Nat) (d : Segdesc), gdtEntries[i]? = some d →
    descriptor mem (gateAddress symbols.gdt i) = pack d.fields

theorem descriptor_setDescriptor {a : Word} {n : Nat} (small : n < 2 ^ 64) :
    descriptor (setDescriptor mem a n) a = n := by
  have high : Holds (setWord mem (a + 4) (BitVec.ofNat 32 (n / 2 ^ 32))) (a + 4)
      [BitVec.ofNat 32 (n / 2 ^ 32)] := holds_cons (by simp) (holds_nil _ _)
  have both : Holds (setDescriptor mem a n) a
      [BitVec.ofNat 32 n, BitVec.ofNat 32 (n / 2 ^ 32)] := holds_cons (by simp) high
  rw [descriptor, both.head, both.tail.head, BitVec.toNat_ofNat, BitVec.toNat_ofNat]
  omega

theorem agreeOn_setDescriptor {a b : Word} {m : Nat} (apart : RangesApart a 8 b m) (n : Nat) :
    AgreeOn mem (setDescriptor mem a n) b m := by
  have first := apart.first
  have second := apart.second
  have four : (4 : Word).toNat = 4 := rfl
  have next : (a + 4).toNat = a.toNat + 4 := by
    rw [BitVec.toNat_add, four]
    omega
  have low : RangesApart a 4 b m := ⟨by omega, second, by have := apart.disjoint; omega⟩
  have high : RangesApart (a + 4) 4 b m :=
    ⟨by omega, second, by have := apart.disjoint; omega⟩
  exact (agreeOn_setWord high _).trans (agreeOn_setWord low _)

theorem setDescriptor_fields {a : Word} {fields : List Field} (size : width fields = 64) :
    descriptor (setDescriptor mem a (pack fields)) a = pack fields := by
  refine descriptor_setDescriptor ?_
  rw [← size]
  exact pack_lt fields

section IdtInit

variable (symbols : TrapSymbols) (mem : Word → BitVec 8)

/-! The writes of `idt_init`, one after the other. -/

def withFaultGate : Word → BitVec 8 :=
  setDescriptor mem (gateAddress symbols.idt 14)
    (pack (setGate false gdKt symbols.pageFault 0).fields)

def withCallGate : Word → BitVec 8 :=
  setDescriptor (withFaultGate symbols mem) (gateAddress symbols.idt 48)
    (pack (setGate false gdKt symbols.syscallHandler 3).fields)

def withStack : Word → BitVec 8 :=
  setHalf (setWord (withCallGate symbols mem) (symbols.ts + 4) kernelStackTop) (symbols.ts + 8) gdKd

def taskSegment : Segdesc := { seg16 stsT32a symbols.ts sizeofTaskstate 0 with sdS := 0 }

def withTask : Word → BitVec 8 :=
  setDescriptor (withStack symbols mem) (symbols.gdt + 40) (pack (taskSegment symbols).fields)

theorem idtInit_memory : (idtInit symbols mem).1 = withTask symbols mem := rfl

variable {symbols mem}

theorem gate_kept {vector : Nat} (inside : vector < 256) :
    AgreeOn (withCallGate symbols mem) (withTask symbols mem) (gateAddress symbols.idt vector) 8 := by
  have stack : AgreeOn (withCallGate symbols mem)
      (setWord (withCallGate symbols mem) (symbols.ts + 4) kernelStackTop)
      (gateAddress symbols.idt vector) 8 :=
    agreeOn_setWord (symbols.idtTs.symm.parts (i := 4) (by omega) (by omega) (by omega)
      (by omega)) _
  have segment : AgreeOn (setWord (withCallGate symbols mem) (symbols.ts + 4) kernelStackTop)
      (withStack symbols mem) (gateAddress symbols.idt vector) 8 :=
    agreeOn_setHalf (symbols.idtTs.symm.parts (i := 8) (by omega) (by omega) (by omega)
      (by omega)) _
  have task : AgreeOn (withStack symbols mem) (withTask symbols mem)
      (gateAddress symbols.idt vector) 8 :=
    agreeOn_setDescriptor (symbols.idtGdt.symm.parts (i := 40) (by omega) (by omega) (by omega)
      (by omega)) _
  exact (stack.trans segment).trans task

theorem otherGate_kept {written vector : Nat} (inside : vector < 256) (bound : written < 256)
    (other : vector ≠ written) (n : Nat) :
    AgreeOn mem (setDescriptor mem (gateAddress symbols.idt written) n)
      (gateAddress symbols.idt vector) 8 := by
  have fits : symbols.idt.toNat + 2048 ≤ 2 ^ 32 := symbols.idtGdt.first
  exact agreeOn_setDescriptor (rangesApart_within (by omega) (by omega) (by omega) (by omega)
    (by omega)) n

theorem gates_idtInit (empty : ∀ vector < 256, descriptor mem (gateAddress symbols.idt vector) = 0)
    {vector : Nat} (inside : vector < 256) :
    descriptor (withTask symbols mem) (gateAddress symbols.idt vector) =
      gateWord symbols vector := by
  rw [descriptor_congr (gate_kept inside)]
  by_cases call : vector = 48
  · subst call
    exact setDescriptor_fields rfl
  · have second : AgreeOn (withFaultGate symbols mem) (withCallGate symbols mem)
        (gateAddress symbols.idt vector) 8 := otherGate_kept inside (by omega) call _
    rw [descriptor_congr second]
    by_cases fault : vector = 14
    · subst fault
      exact setDescriptor_fields rfl
    · have first : AgreeOn mem (withFaultGate symbols mem) (gateAddress symbols.idt vector) 8 :=
        otherGate_kept inside (by omega) fault _
      rw [descriptor_congr first, empty vector inside, gateWord, if_neg fault, if_neg call]

theorem code_kept : AgreeOn mem (withTask symbols mem) (symbols.gdt + 8) 8 := by
  have fits : symbols.gdt.toNat + 48 ≤ 2 ^ 32 := symbols.idtGdt.second
  have first : AgreeOn mem (withFaultGate symbols mem) (symbols.gdt + 8) 8 :=
    agreeOn_setDescriptor (symbols.idtGdt.parts (i := 8 * 14) (j := 8) (by omega) (by omega)
      (by omega) (by omega)) _
  have second : AgreeOn (withFaultGate symbols mem) (withCallGate symbols mem) (symbols.gdt + 8) 8 :=
    agreeOn_setDescriptor (symbols.idtGdt.parts (i := 8 * 48) (j := 8) (by omega) (by omega)
      (by omega) (by omega)) _
  have stack : AgreeOn (withCallGate symbols mem)
      (setWord (withCallGate symbols mem) (symbols.ts + 4) kernelStackTop) (symbols.gdt + 8) 8 :=
    agreeOn_setWord (symbols.gdtTs.symm.parts (i := 4) (j := 8) (by omega) (by omega) (by omega)
      (by omega)) _
  have segment : AgreeOn (setWord (withCallGate symbols mem) (symbols.ts + 4) kernelStackTop)
      (withStack symbols mem) (symbols.gdt + 8) 8 :=
    agreeOn_setHalf (symbols.gdtTs.symm.parts (i := 8) (j := 8) (by omega) (by omega) (by omega)
      (by omega)) _
  have task : AgreeOn (withStack symbols mem) (withTask symbols mem) (symbols.gdt + 8) 8 :=
    agreeOn_setDescriptor (rangesApart_within (i := 40) (j := 8) (by omega) (by omega) (by omega)
      (by omega) (by omega)) _
  exact (((first.trans second).trans stack).trans segment).trans task

theorem stack_idtInit : word (withTask symbols mem) (symbols.ts + 4) = kernelStackTop ∧
    half (withTask symbols mem) (symbols.ts + 8) = gdKd := by
  have fits : symbols.ts.toNat + 104 ≤ 2 ^ 32 := symbols.idtTs.second
  have task : ∀ o m, o + m ≤ 104 → 0 < m →
      AgreeOn (withStack symbols mem) (withTask symbols mem) (symbols.ts + BitVec.ofNat 32 o) m :=
    fun o m inside some => agreeOn_setDescriptor (symbols.gdtTs.parts (i := 40) (by omega) inside
      (by omega) some) _
  have segment : AgreeOn (setWord (withCallGate symbols mem) (symbols.ts + 4) kernelStackTop)
      (withStack symbols mem) (symbols.ts + 4) 4 :=
    agreeOn_setHalf (rangesApart_within (i := 8) (j := 4) (by omega) (by omega) (by omega)
      (by omega) (by omega)) _
  constructor
  · have first : AgreeOn (withStack symbols mem) (withTask symbols mem) (symbols.ts + 4) 4 :=
      task 4 4 (by omega) (by omega)
    rw [first.word, segment.word]
    exact word_setWord (by omega) _ _ _
  · have second : AgreeOn (withStack symbols mem) (withTask symbols mem) (symbols.ts + 8) 2 :=
      task 8 2 (by omega) (by omega)
    rw [second.half]
    exact half_setHalf (by omega) _ _ _

/-- `idt_init` makes the tables ready, whatever else is in memory. -/
theorem idtInit_ready (loaded : TablesLoaded symbols mem) :
    TrapsReady symbols (idtInit symbols mem).2 (idtInit symbols mem).1 := by
  have code : segmentOf (descriptor (withTask symbols mem) (symbols.gdt + 8)) =
      ⟨0, 0xFFFFFFFF ||| 0xFFF, staX ||| staR, 1, 0, 1⟩ := by
    rw [descriptor_congr code_kept]
    have entry : descriptor mem (symbols.gdt + 8) = _ := loaded.gdt 1 _ rfl
    rw [entry]
    exact segmentOf_seg _ _ _ _
  have task : descriptor (withTask symbols mem) (symbols.gdt + 40) =
      pack (taskSegment symbols).fields := setDescriptor_fields rfl
  have base : (segmentOf (descriptor (withTask symbols mem) (symbols.gdt + 40))).base =
      symbols.ts := by
    rw [task, segmentOf_fields]
    exact baseParts symbols.ts
  rw [idtInit_memory]
  refine ⟨rfl, rfl, base, fun vector inside => gates_idtInit loaded.idt inside, ?_, ?_, ?_, ?_,
    stack_idtInit.1, stack_idtInit.2⟩
  · rw [code]
  · rw [code]
    change (staX ||| staR) &&& staX ≠ 0
    decide
  · rw [code]
  · rw [code]

end IdtInit

end Tables

/-- Once `idt_init` is done, a program gets into `trap` by a system call or a page fault only,
with its registers in the frame and no other byte changed; any other vector, raised or called,
shuts the processor down. So the branch of `trap_dispatch` for unexpected traps is not for
programs. -/
theorem interrupt_afterIdtInit {symbols : TrapSymbols} {mem : Word → BitVec 8}
    (loaded : TablesLoaded symbols mem) {p : Processor} (user : p.cpl = 3) {vector : Nat}
    (inside : vector < 256) (software : Bool) (err : Word) :
    let ready := idtInit symbols mem
    let arrival := interrupt symbols ready.2 ready.1 p vector software (hardwareError vector err)
    (Opens vector software → ∃ mem', arrival = .trap mem' trapTop ∧
      loadTrapframe mem' trapTop = frameOf p (BitVec.ofNat 32 vector) (frameError vector err)
        (kernelStackTop - 36) ∧
      ∀ a : Word, 68 ≤ (a - trapTop).toNat → mem' a = ready.1 a) ∧
    (¬Opens vector software → arrival = .shutdown) := by
  intro ready arrival
  have tables := idtInit_ready loaded
  constructor
  · intro opens
    refine ⟨_, interrupt_opens tables user opens err,
      loadTrapframe_of_holds (holds_trapMemory _ _ _ _), fun a outside => ?_⟩
    exact @mem_pushAll_outside 32 (Stack.mk ready.1 kernelStackTop)
      (trapWords p (BitVec.ofNat 32 vector) (frameError vector err) (kernelStackTop - 36)).reverse a
      (by simp [trapWords]) outside
  · exact fun closed => interrupt_closed tables user inside closed _

/-! ## A kernel that is loaded -/

def smallSymbols : TrapSymbols where
  idt := 0xF0110000
  gdt := 0xF0110800
  ts := 0xF0110840
  envs := 0xF0200000
  pageFault := 0xF0101000
  syscallHandler := 0xF0101010
  distinct := by decide
  idtHigh := by decide
  gdtHigh := by decide
  tsHigh := by decide
  idtBelow := by decide
  gdtBelow := by decide
  tsBelow := by decide
  envsFit := by decide
  idtGdt := ⟨by decide, by decide, by decide⟩
  idtTs := ⟨by decide, by decide, by decide⟩
  gdtTs := ⟨by decide, by decide, by decide⟩

def descriptorWords (d : Segdesc) : List Word :=
  [BitVec.ofNat 32 (pack d.fields), BitVec.ofNat 32 (pack d.fields / 2 ^ 32)]

def loadedMemory (symbols : TrapSymbols) : Word → BitVec 8 :=
  ((Stack.mk (fun _ => 0) (symbols.gdt + 48)).pushAll
    (gdtEntries.flatMap descriptorWords).reverse).mem

theorem getElem?_flatMap_pair {ds : List Segdesc} {i : Nat} {d : Segdesc} (found : ds[i]? = some d) :
    (ds.flatMap descriptorWords)[2 * i]? = some (BitVec.ofNat 32 (pack d.fields)) ∧
      (ds.flatMap descriptorWords)[2 * i + 1]? =
        some (BitVec.ofNat 32 (pack d.fields / 2 ^ 32)) := by
  induction ds generalizing i with
  | nil => simp at found
  | cons first ds ih =>
      cases i with
      | zero =>
          cases found
          exact ⟨rfl, rfl⟩
      | succ i => exact ih found

theorem descriptor_of_holds {mem : Word → BitVec 8} {table : Word} {ds : List Segdesc}
    (holds : Holds mem table (ds.flatMap descriptorWords)) {i : Nat} {d : Segdesc}
    (found : ds[i]? = some d) : descriptor mem (gateAddress table i) = pack d.fields := by
  obtain ⟨low, high⟩ := getElem?_flatMap_pair found
  have first := holds.word low
  have second := holds.word high
  have start : table + BitVec.ofNat 32 (4 * (2 * i)) = gateAddress table i := by
    rw [gateAddress, ← Nat.mul_assoc]
  have next : table + BitVec.ofNat 32 (4 * (2 * i + 1)) = gateAddress table i + 4 := by
    have sum : 4 * (2 * i + 1) = 8 * i + 4 := by omega
    rw [gateAddress, sum]
    exact (add_ofNat table (8 * i) 4).symm
  have size : pack d.fields < 2 ^ 64 := pack_lt d.fields
  rw [start] at first
  rw [next] at second
  rw [descriptor, first, second, BitVec.toNat_ofNat, BitVec.toNat_ofNat]
  omega

theorem tablesLoaded_loadedMemory (symbols : TrapSymbols) :
    TablesLoaded symbols (loadedMemory symbols) := by
  have length : (gdtEntries.flatMap descriptorWords).reverse.length = 12 := by
    simp [gdtEntries, descriptorWords]
  have base : symbols.gdt + 48 -
      BitVec.ofNat 32 (4 * (gdtEntries.flatMap descriptorWords).reverse.length) = symbols.gdt := by
    rw [length]
    exact BitVec.add_sub_cancel _ _
  have holds : Holds (loadedMemory symbols) symbols.gdt (gdtEntries.flatMap descriptorWords) := by
    have pushed := @Holds.pushAll 32 [] (Stack.mk (fun _ => 0) (symbols.gdt + 48))
      (gdtEntries.flatMap descriptorWords).reverse
      (by rw [length]; exact (by omega : 4 * (12 + 0) ≤ 2 ^ 32)) (holds_nil _ _)
    rw [List.reverse_reverse, List.append_nil, sp_pushAll, base] at pushed
    exact pushed
  constructor
  · intro vector inside
    have apart : RangesApart (symbols.gdt + 48 -
        BitVec.ofNat 32 (4 * (gdtEntries.flatMap descriptorWords).reverse.length))
        (4 * (gdtEntries.flatMap descriptorWords).reverse.length) symbols.idt 2048 := by
      rw [base, length]
      exact symbols.idtGdt.symm
    have empty : AgreeOn (fun _ => 0) (loadedMemory symbols) symbols.idt 2048 := agreeOn_pushAll apart
    rw [descriptor_congr (gate_part empty inside)]
    simp only [descriptor, word, half]
    decide
  · intro i d found
    exact descriptor_of_holds holds found

def plainUser : Processor where
  edi := 0
  esi := 0
  ebp := 0
  ebx := 0
  edx := 0
  ecx := 0
  eax := 2
  esp := ustackTop
  eip := 0x800020
  eflags := 0
  cs := gdUt ||| 3
  ds := gdUd ||| 3
  es := gdUd ||| 3
  ss := gdUd ||| 3

/-- `int $48`, and the `int3` of a debugger. -/
theorem interrupt_afterIdtInit_plainUser :
    let ready := idtInit smallSymbols (loadedMemory smallSymbols)
    (∃ mem', interrupt smallSymbols ready.2 ready.1 plainUser 48 true none = .trap mem' trapTop) ∧
      interrupt smallSymbols ready.2 ready.1 plainUser 3 true none = .shutdown := by
  have loaded := tablesLoaded_loadedMemory smallSymbols
  have user : plainUser.cpl = 3 := by decide
  obtain ⟨mem', arrived, _⟩ :=
    (interrupt_afterIdtInit loaded user (by omega : 48 < 256) true 0).1 (Or.inl rfl)
  have breakpoint :=
    (interrupt_afterIdtInit loaded user (by omega : 3 < 256) true 0).2 (by simp [Opens])
  exact ⟨⟨mem', arrived⟩, breakpoint⟩

end FosV2
