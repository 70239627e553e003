import FosV2.ArgumentVector
import FosV2.CommandPrompt
import FosV2.EnvironmentPool
import FosV2.TracedRun

/-!
`execute_command` of `kern/command_prompt.c` with the handlers of its table. A command keeps
note of the indices of `arguments` that are read, and its output is the list of its calls of
`cprintf`. The bytes that `rum` and `wum` get at are kept apart from the page tables.
-/

namespace FosV2

open TokenRuns

inductive Departure where
  | stopped (stop : Stop)
  | entersUser (e : Nat)

inductive PrintArgument where
  | text (s : List Byte)
  | word (w : Word)

structure PrintCall where
  fmt : String
  arguments : List PrintArgument

structure Prompt where
  mem : Memory
  pool : EnvPool
  environments : Nat → Option Nat
  output : List PrintCall

abbrev Command (α : Type) : Type := Traced Departure Prompt Nat α

abbrev Handler : Type := Nat → (Nat → Word) → Command Word

structure KernelSymbols where
  startOfKernel : Word
  endOfKernelCodeSection : Word
  startOfUninitializedDataSection : Word
  endOfKernel : Word
  ptrPageDirectory : Nat

/-- The bytes from `p` to the first NUL, once around the address space at most. -/
def stringFrom (mem : Memory) : Nat → Word → List Byte
  | 0, _ => []
  | count + 1, p => if mem p = 0 then [] else mem p :: stringFrom mem count (p + 1)

def stringAt (mem : Memory) (p : Word) : List Byte := stringFrom mem stringFuel p

def strcmp : List Byte → List Byte → Word
  | p :: s, q :: t => if p = q then strcmp s t else p.setWidth 32 - q.setWidth 32
  | [], q :: _ => -q.setWidth 32
  | p :: _, [] => p.setWidth 32
  | [], [] => 0

def argument (arguments : Nat → Word) (i : Nat) : Command Word := do
  Traced.note i
  return arguments i

def cprintf (fmt : String) (arguments : List PrintArgument) : Command Unit :=
  Traced.modify fun prompt => { prompt with output := prompt.output ++ [⟨fmt, arguments⟩] }

def stop {α : Type} (stop : Stop) : Command α := Traced.fail (.stopped stop)

def onFrames (call : State → Except Stop State) : Command Unit := fun prompt =>
  match call prompt.pool.memory with
  | .ok memory => ⟨.ok (), { prompt with pool := { prompt.pool with memory := memory } }, []⟩
  | .error error => ⟨.error (.stopped error), prompt, []⟩

/-! ## User programs -/

def userPrograms : List String := ["fos_helloWorld", "fos_add", "fos_alloc", "fos_input", "fos_game"]

/-- The index in `userPrograms`, or the null pointer. -/
def getUserProgramInfo (userProgramName : List Byte) : Command (Option Nat) :=
  match userPrograms.findIdx? fun name => strcmp userProgramName (name.toList.map char) = 0 with
  | some i => return some i
  | none => do
      cprintf "Unknown user program '%s'\n" [.text userProgramName]
      return none

/-- The directory is not created yet: what is behind the `panic` is left out. -/
def envCreate (userProgramName : List Byte) : Command (Option Nat) := do
  match ← getUserProgramInfo userProgramName with
  | none => return none
  | some _ =>
      let prompt ← Traced.get
      if (allocateEnvironment prompt.pool).1 = eNoFreeEnv then return none
      else stop .notCompleted

/-- `env_pop_tf` does not come back. -/
def envRun {α : Type} (e : Option Nat) : Command α :=
  match e with
  | none => stop .nullPointer
  | some e => do
      Traced.modify fun prompt =>
        if prompt.pool.curenv = some e then prompt
        else
          let slot := prompt.pool.envs e
          let pool := prompt.pool.setEnv e { slot with envRuns := slot.envRuns + 1 }
          { prompt with pool := { pool with curenv := some e } }
      Traced.fail (.entersUser e)

/-- `env_free` -/
def freeUserMemory (_ : Option Nat) : Command Unit := stop .notCompleted

/-! ## The handlers -/

inductive CommandId where
  | help | kernelInfo | wum | rum | meminfo | ikb | dkb | shr | sm | sp | sr | nr | ap | fp
  | asp | cfp | ft | run | kill

def commands : List CommandId :=
  [.help, .kernelInfo, .wum, .rum, .meminfo, .ikb, .dkb, .shr, .sm, .sp, .sr, .nr, .ap, .fp,
    .asp, .cfp, .ft, .run, .kill]

def CommandId.name : CommandId → String
  | help => "help"
  | kernelInfo => "kernel_info"
  | wum => "wum"
  | rum => "rum"
  | meminfo => "meminfo"
  | ikb => "ikb"
  | dkb => "dkb"
  | shr => "shr"
  | sm => "sm"
  | sp => "sp"
  | sr => "sr"
  | nr => "nr"
  | ap => "ap"
  | fp => "fp"
  | asp => "asp"
  | cfp => "cfp"
  | ft => "ft"
  | run => "run"
  | kill => "kill"

def CommandId.description : CommandId → String
  | help => "Display this list of commands"
  | kernelInfo => "Display information about the kernel"
  | wum => "writes one byte to specific location"
  | rum => "reads one byte from specific location"
  | meminfo => "Display number of free frames"
  | ikb => "Lab3.Example: shows mapping info of KERNEL_BASE"
  | dkb => "Lab3.Example: delete the mapping of KERNEL_BASE"
  | shr => "Lab3.Example: share one page on another"
  | sm => "Lab4.HandsOn: display the mapping info for the given virtual address"
  | sp => "Lab4.HandsOn: set the desired permission to a given virtual address page"
  | sr => "Lab4.HandsOn: shares the physical frames of the first virtual range with the 2nd virtual range"
  | nr => "Lab5.Example: show the number of references of the physical frame"
  | ap => "Lab5.Example: allocate one page [if not exists] in the user space at the given virtual address"
  | fp => "Lab5.Example: free one page in the user space at the given virtual address"
  | asp => "Lab5.HandsOn: allocate 2 shared pages with the given virtual addresses"
  | cfp => "Lab5.HandsOn: count the number of free pages in the given range"
  | ft => "Lab6.Example: Free table"
  | run => "Lab6.Example: Load and Run User Program"
  | kill => "Lab6.Example: Kill User Program"

def CommandId.nameText (c : CommandId) : List Byte := c.name.toList.map char

def commandHelp : Handler := fun _ _ => do
  Traced.modify fun prompt => { prompt with output := prompt.output ++ commands.map fun c =>
    ⟨"%s - %s\n", [.text c.nameText, .text (c.description.toList.map char)]⟩ }
  cprintf "-------------------\n" []
  return 0

def commandKernelInfo (kernel : KernelSymbols) : Handler := fun _ _ => do
  let bothAddresses (symbol : Word) : List PrintArgument :=
    [.word symbol, .word (symbol - kernelBase)]
  cprintf "Special kernel symbols:\n" []
  cprintf "  Start Address of the kernel \t\t\t%08x (virt)  %08x (phys)\n"
    (bothAddresses kernel.startOfKernel)
  cprintf "  End address of kernel code  \t\t\t%08x (virt)  %08x (phys)\n"
    (bothAddresses kernel.endOfKernelCodeSection)
  cprintf "  Start addr. of uninitialized data section \t%08x (virt)  %08x (phys)\n"
    (bothAddresses kernel.startOfUninitializedDataSection)
  cprintf "  End address of the kernel   \t\t\t%08x (virt)  %08x (phys)\n"
    (bothAddresses kernel.endOfKernel)
  cprintf "Kernel executable memory footprint: %d KB\n"
    [.word ((kernel.endOfKernel - kernel.startOfKernel + 1023).sdiv 1024)]
  return 0

def commandReadmem : Handler := fun _ arguments => do
  let p ← argument arguments 1
  let prompt ← Traced.get
  let address := (strtol (stringAt prompt.mem p) 16).1
  cprintf "value at address %x = %c\n" [.word address, .word ((prompt.mem address).setWidth 32)]
  return 0

def commandWritemem : Handler := fun _ arguments => do
  let p ← argument arguments 1
  let prompt ← Traced.get
  let address := (strtol (stringAt prompt.mem p) 16).1
  let q ← argument arguments 2
  Traced.modify fun prompt => { prompt with mem := Function.update prompt.mem address (prompt.mem q) }
  return 0

def commandMeminfo : Handler := fun _ _ => do
  let prompt ← Traced.get
  match calculateFreeFrames (2 ^ 32) prompt.pool.memory with
  | none => stop .endlessLoop
  | some cnt => do
      cprintf "Free frames = %d\n" [.word cnt]
      return 0

/-- `panic("Function is not implemented yet!")` -/
def notImplemented : Handler := fun _ _ => stop .notCompleted

def commandKernelBaseInfo : Handler := notImplemented

def commandDelKernelBase : Handler := notImplemented

def commandSharePage : Handler := notImplemented

def commandShowMapping : Handler := notImplemented

def commandSetPermission : Handler := notImplemented

def commandShareRange : Handler := notImplemented

def commandNr : Handler := notImplemented

def onPage (call : State → List Byte → Except Stop State) : Handler := fun _ arguments => do
  let p ← argument arguments 1
  let prompt ← Traced.get
  onFrames fun σ => call σ (stringAt prompt.mem p)
  return 0

def commandAsp : Handler := notImplemented

def commandCfp : Handler := notImplemented

def commandRun : Handler := fun _ arguments => do
  let p ← argument arguments 1
  let prompt ← Traced.get
  match ← envCreate (stringAt prompt.mem p) with
  | none => return 0
  | some program => do
      let prompt ← Traced.get
      envRun (prompt.environments program)

def commandKill : Handler := fun _ arguments => do
  let p ← argument arguments 1
  let prompt ← Traced.get
  match ← getUserProgramInfo (stringAt prompt.mem p) with
  | none => return 0
  | some program => do
      freeUserMemory (prompt.environments program)
      Traced.modify fun prompt =>
        { prompt with environments := Function.update prompt.environments program none }
      return 0

def commandFt : Handler := fun _ _ => return 0

def CommandId.functionToExecute (kernel : KernelSymbols) : CommandId → Handler
  | help => commandHelp
  | kernelInfo => commandKernelInfo kernel
  | wum => commandWritemem
  | rum => commandReadmem
  | meminfo => commandMeminfo
  | ikb => commandKernelBaseInfo
  | dkb => commandDelKernelBase
  | shr => commandSharePage
  | sm => commandShowMapping
  | sp => commandSetPermission
  | sr => commandShareRange
  | nr => commandNr
  | ap => onPage fun σ argument => commandAp σ kernel.ptrPageDirectory argument
  | fp => onPage fun σ argument => commandFp σ kernel.ptrPageDirectory argument
  | asp => commandAsp
  | cfp => commandCfp
  | ft => commandFt
  | run => commandRun
  | kill => commandKill

/-- "Lookup in the commands array and execute the command" -/
def lookupCommand (kernel : KernelSymbols) (name : List Byte) : Handler := fun argc argv =>
  match commands.find? fun c => strcmp name c.nameText = 0 with
  | some c => c.functionToExecute kernel argc argv
  | none => do
      cprintf "Unknown command '%s'\n" [.text name]
      return 0

/-- `arguments` is what the array on the stack happens to hold. -/
def executeCommand (kernel : KernelSymbols) (arguments : Nat → Word) (commandString : Word) :
    Command Word := do
  let prompt ← Traced.get
  match strsplit commandString whitespace arguments prompt.mem with
  | .error error => stop error
  | .ok (st, _) => do
      Traced.modify fun prompt => { prompt with mem := st.mem }
      if st.argc = 0 then return 0
      else do
        let p ← argument st.argv 0
        lookupCommand kernel (stringAt st.mem p) st.argc st.argv

/-! ## The arguments that are read -/

def CommandId.argumentsRead : CommandId → List Nat
  | wum => [1, 2]
  | rum | ap | fp | run | kill => [1]
  | _ => []

section Reads

open Traced

variable {α : Type} {arguments : Nat → Word} {i : Nat} {reads : List Nat}

theorem notes_argument {next : Word → Command α} (rest : Notes (next (arguments i)) reads) :
    Notes (argument arguments i >>= next) (i :: reads) := by
  have read : argument arguments i >>= next = Traced.note i >>= fun _ => next (arguments i) := rfl
  rw [read]
  exact .note_bind i rest

theorem notes_onFrames (call : State → Except Stop State) : Notes (onFrames call) [] := by
  intro prompt
  rw [onFrames]
  split <;> rfl

theorem notes_getUserProgramInfo (userProgramName : List Byte) :
    Notes (getUserProgramInfo userProgramName) [] := by
  rw [getUserProgramInfo]
  split
  · exact .pure _
  · exact .bind (.modify _) fun _ => .pure _

theorem notes_envCreate (userProgramName : List Byte) : Notes (envCreate userProgramName) [] := by
  refine .bind (notes_getUserProgramInfo userProgramName) fun program => ?_
  cases program with
  | none => exact .pure _
  | some i =>
      refine .get_bind fun prompt => ?_
      split
      · exact .pure _
      · exact .fail _

theorem notes_envRun (e : Option Nat) : Notes (envRun e : Command α) [] := by
  cases e with
  | none => exact .fail _
  | some e => exact .bind (.modify _) fun _ => .fail _

theorem notes_onPage (call : State → List Byte → Except Stop State) (argc : Nat) :
    Notes (onPage call argc arguments) [1] := by
  refine notes_argument (.get_bind fun prompt => ?_)
  exact .bind (notes_onFrames _) fun _ => .pure _

/-- What a handler reads does not depend on the memory, nor on how many arguments there are. -/
theorem notes_functionToExecute (kernel : KernelSymbols) (c : CommandId) (argc : Nat) :
    Notes (c.functionToExecute kernel argc arguments) c.argumentsRead := by
  have panics : Notes (notImplemented argc arguments) [] := .fail _
  cases c with
  | help => exact .bind (.modify _) fun _ => .bind (.modify _) fun _ => .pure _
  | kernelInfo =>
      refine .bind (.modify _) fun _ => .bind (.modify _) fun _ => .bind (.modify _) fun _ => ?_
      exact .bind (.modify _) fun _ => .bind (.modify _) fun _ => .bind (.modify _) fun _ => .pure _
  | wum =>
      refine notes_argument (.get_bind fun prompt => notes_argument ?_)
      exact .bind (.modify _) fun _ => .pure _
  | rum =>
      refine notes_argument (.get_bind fun prompt => ?_)
      exact .bind (.modify _) fun _ => .pure _
  | meminfo =>
      refine .get_bind fun prompt => ?_
      split
      · exact .fail _
      · exact .bind (.modify _) fun _ => .pure _
  | ap => exact notes_onPage _ argc
  | fp => exact notes_onPage _ argc
  | run =>
      refine notes_argument (.get_bind fun prompt => ?_)
      refine .bind (notes_envCreate _) fun program => ?_
      cases program with
      | none => exact .pure _
      | some i => exact .get_bind fun prompt => notes_envRun _
  | kill =>
      refine notes_argument (.get_bind fun prompt => ?_)
      refine .bind (notes_getUserProgramInfo _) fun program => ?_
      cases program with
      | none => exact .pure _
      | some i => exact .bind (.fail _) fun _ => .bind (.modify _) fun _ => .pure _
  | ft => exact .pure _
  | _ => exact panics

end Reads

theorem byte_eq_of_setWidth {p q : Byte} (same : p.setWidth 32 = q.setWidth 32) : p = q := by
  have numbers := congrArg BitVec.toNat same
  have pBound := p.isLt
  have qBound := q.isLt
  rw [BitVec.toNat_setWidth, BitVec.toNat_setWidth, Nat.mod_eq_of_lt (by omega),
    Nat.mod_eq_of_lt (by omega)] at numbers
  exact BitVec.eq_of_toNat_eq numbers

/-- Strings of which one begins with the other differ at its NUL. -/
theorem strcmp_eq_zero {s t : List Byte} (noNul : 0 ∉ s) (noNul' : 0 ∉ t)
    (equal : strcmp s t = 0) : s = t := by
  induction s generalizing t with
  | nil =>
      cases t with
      | nil => rfl
      | cons q t =>
          have nul : q = 0 := byte_eq_of_setWidth (BitVec.neg_eq_zero_iff.mp equal)
          exact absurd (nul ▸ .head t) noNul'
  | cons p s ih =>
      cases t with
      | nil =>
          have nul : p = 0 := byte_eq_of_setWidth equal
          exact absurd (nul ▸ .head s) noNul
      | cons q t =>
          have same : p = q := by
            by_contra different
            rw [strcmp, if_neg different] at equal
            have widened : p.setWidth 32 = q.setWidth 32 := by
              have shifted := congrArg (· + q.setWidth 32) equal
              rw [BitVec.sub_add_cancel] at shifted
              exact shifted.trans (BitVec.zero_add _)
            exact different (byte_eq_of_setWidth widened)
          subst same
          rw [strcmp, if_pos rfl] at equal
          rw [ih (fun member => noNul (.tail p member)) (fun member => noNul' (.tail p member)) equal]

theorem stringFrom_of_holds {mem : Memory} {count : Nat} {p : Word} {s : List Byte}
    (held : HoldsString mem p s) (enough : s.length < count) : stringFrom mem count p = s := by
  induction s generalizing count p with
  | nil =>
      obtain ⟨count, rfl⟩ := Nat.exists_eq_succ_of_ne_zero (Nat.ne_of_gt enough)
      have nul := held.nul
      rw [List.length_nil, BitVec.add_zero] at nul
      rw [stringFrom, if_pos nul]
  | cons c s ih =>
      obtain ⟨count, rfl⟩ := Nat.exists_eq_succ_of_ne_zero (Nat.ne_of_gt (Nat.zero_lt_of_lt enough))
      have next : ∀ i, p + 1 + BitVec.ofNat 32 i = p + BitVec.ofNat 32 (i + 1) := by
        intro i
        rw [BitVec.add_assoc, Nat.add_comm i, BitVec.ofNat_add]
        rfl
      obtain ⟨first, some⟩ := held.bytes 0 c rfl
      rw [BitVec.add_zero] at first
      have rest : HoldsString mem (p + 1) s := by
        constructor
        · intro i d found
          rw [next]
          exact held.bytes (i + 1) d found
        · rw [next]
          exact held.nul
      rw [stringFrom, first, if_neg some, ih rest (Nat.lt_of_succ_lt_succ enough)]

theorem stringAt_of_holds {mem : Memory} {p : Word} {s : List Byte} (held : HoldsString mem p s) :
    stringAt mem p = s :=
  stringFrom_of_holds held held.length_lt

/-! ## Lines with arguments missing -/

def words (line : List Byte) : List (Nat × List Byte) := tokens (isSplitChar whitespace) line

def ReadsGivenArguments (kernel : KernelSymbols) (arguments : Nat → Word) (commandString : Word)
    (line : List Byte) (prompt : Prompt) : Prop :=
  ∃ st code, strsplit commandString whitespace arguments prompt.mem = .ok (st, code) ∧
    ∀ i ∈ (executeCommand kernel arguments commandString prompt).trace,
      i < st.argc ∧ ∃ k t, (words line)[i]? = some (k, t) ∧ HoldsString st.mem (st.argv i) t

def CommandId.wordsNeeded : CommandId → Nat
  | wum => 3
  | rum | ap | fp | run | kill => 2
  | _ => 1

def EnoughWords (line : List Byte) : Prop :=
  ∀ c k, (words line).head? = some (k, CommandId.nameText c) →
    c.wordsNeeded ≤ (words line).length

def argumentsReadFor (line : List Byte) : List Nat :=
  match (words line).head? with
  | none => []
  | some (_, name) =>
      0 :: ((commands.find? fun c => strcmp name c.nameText = 0).map
        CommandId.argumentsRead).getD []

section Lines

variable {p : Word} {line : List Byte} {prompt : Prompt}

theorem word_noNul {k : Nat} {t : List Byte} (held : HoldsString prompt.mem p line)
    (word : (k, t) ∈ words line) : 0 ∉ t := by
  intro member
  obtain ⟨j, found⟩ := List.getElem?_of_mem member
  have inLine := ((mem_tokens_iff.mp word).elements j 0 found).1
  exact (held.bytes _ 0 inLine).2 rfl

theorem nameText_noNul (c : CommandId) : 0 ∉ c.nameText := by
  cases c <;> decide

theorem find_nameText (c : CommandId) :
    commands.find? (fun other => strcmp c.nameText other.nameText = 0) = some c := by
  cases c <;> rfl

theorem nameText_injective {c d : CommandId} (same : c.nameText = d.nameText) : c = d := by
  have found := find_nameText c
  rw [same, find_nameText d] at found
  exact (Option.some.inj found).symm

theorem argumentsRead_lt_iff (c : CommandId) {argc : Nat} (some : 0 < argc) :
    (∀ i ∈ c.argumentsRead, i < argc) ↔ c.wordsNeeded ≤ argc := by
  cases c <;> simp [CommandId.argumentsRead, CommandId.wordsNeeded] <;> omega

theorem wordsNeeded_le (c : CommandId) : c.wordsNeeded ≤ 3 := by
  cases c <;> decide

theorem enoughWords_iff {line t : List Byte} {k : Nat} (first : (words line).head? = some (k, t))
    (noNul : 0 ∉ t) : EnoughWords line ↔
      ∀ c, commands.find? (fun other => strcmp t other.nameText = 0) = some c →
        c.wordsNeeded ≤ (words line).length := by
  constructor
  · intro enough c found
    have matched := List.find?_some found
    have equal : strcmp t c.nameText = 0 := of_decide_eq_true matched
    have named : t = c.nameText := strcmp_eq_zero noNul (nameText_noNul c) equal
    exact enough c k (named ▸ first)
  · intro enough c k' named
    cases first.symm.trans named
    exact enough c (find_nameText c)

theorem notes_lookupCommand (kernel : KernelSymbols) (name : List Byte) (argc : Nat)
    (argv : Nat → Word) : Traced.Notes (lookupCommand kernel name argc argv)
      (((commands.find? fun c => strcmp name c.nameText = 0).map CommandId.argumentsRead).getD [])
      := by
  rw [lookupCommand]
  split
  · rename_i c found
    rw [found]
    exact notes_functionToExecute kernel c argc
  · rename_i unknown
    rw [unknown]
    exact .bind (.modify _) fun _ => .pure _

theorem executeCommand_of_split (kernel : KernelSymbols) (arguments : Nat → Word)
    {st : Splitting} {code : Word}
    (split : strsplit p whitespace arguments prompt.mem = .ok (st, code)) :
    executeCommand kernel arguments p prompt = (do
      Traced.modify fun prompt => { prompt with mem := st.mem }
      if st.argc = 0 then return 0
      else do
        let p ← argument st.argv 0
        lookupCommand kernel (stringAt st.mem p) st.argc st.argv : Command Word) prompt := by
  have start : executeCommand kernel arguments p prompt =
      (match strsplit p whitespace arguments prompt.mem with
      | .error error => stop error
      | .ok (st, _) => do
          Traced.modify fun prompt => { prompt with mem := st.mem }
          if st.argc = 0 then return 0
          else do
            let p ← argument st.argv 0
            lookupCommand kernel (stringAt st.mem p) st.argc st.argv : Command Word) prompt := rfl
  rw [start, split]

theorem executeCommand_trace (kernel : KernelSymbols) (arguments : Nat → Word)
    {st : Splitting} {code : Word}
    (split : strsplit p whitespace arguments prompt.mem = .ok (st, code)) :
    (executeCommand kernel arguments p prompt).trace = if st.argc = 0 then [] else
      0 :: ((commands.find? fun c => strcmp (stringAt st.mem (st.argv 0)) c.nameText = 0).map
        CommandId.argumentsRead).getD [] := by
  rw [executeCommand_of_split kernel arguments split]
  refine Traced.Notes.modify_bind ?_ prompt
  split
  · exact .pure _
  · exact notes_argument (notes_lookupCommand kernel _ _ _)

/-- What is read is settled by the line; it is there if there are words enough. -/
theorem readsGivenArguments_iff_below (kernel : KernelSymbols) (arguments : Nat → Word)
    (held : HoldsString prompt.mem p line) :
    ReadsGivenArguments kernel arguments p line prompt ↔
      ∀ i ∈ argumentsReadFor line, i < min (words line).length 15 := by
  obtain ⟨st, code, returned, split, _⟩ := strsplit_vector whitespace arguments held
  have argc : st.argc = min (words line).length 15 := split.argc
  have given : ∀ i < st.argc, ∃ k t, (words line)[i]? = some (k, t) ∧
      HoldsString st.mem (st.argv i) t := by
    intro i below
    have inside : i < (words line).length := by omega
    have found := List.getElem?_eq_getElem inside
    exact ⟨_, _, found, (split.argv i below _ _ found).2⟩
  have reads : (executeCommand kernel arguments p prompt).trace = argumentsReadFor line := by
    rw [executeCommand_trace kernel arguments returned, argumentsReadFor]
    by_cases none : st.argc = 0
    · have empty : words line = [] := List.eq_nil_of_length_eq_zero (by omega)
      rw [if_pos none, empty]
      rfl
    · obtain ⟨k, t, first, holds⟩ := given 0 (Nat.pos_of_ne_zero none)
      rw [← List.head?_eq_getElem?] at first
      rw [if_neg none, stringAt_of_holds holds, first]
  rw [← reads, ← argc]
  constructor
  · rintro ⟨st', code', returned', inside⟩
    cases returned.symm.trans returned'
    exact fun i read => (inside i read).1
  · exact fun inside => ⟨st, code, returned, fun i read => ⟨inside i read, given i (inside i read)⟩⟩

end Lines

/-- The handlers take the words of the line only, unless the line names a command and stops
short of what it needs. -/
theorem readsGivenArguments_iff (kernel : KernelSymbols) (arguments : Nat → Word)
    {prompt : Prompt} {p : Word} {line : List Byte} (held : HoldsString prompt.mem p line) :
    ReadsGivenArguments kernel arguments p line prompt ↔ EnoughWords line := by
  rw [readsGivenArguments_iff_below kernel arguments held, argumentsReadFor]
  cases first : (words line).head? with
  | none =>
      refine iff_of_true (fun i read => by cases read) fun c k named => ?_
      rw [first] at named
      cases named
  | some word =>
      obtain ⟨k, t⟩ := word
      have positive : 0 < (words line).length :=
        List.length_pos_iff.mpr fun empty => by rw [empty] at first; cases first
      have reached : 0 < min (words line).length 15 := by omega
      have noNul : 0 ∉ t := word_noNul held (List.mem_of_head? first)
      rw [enoughWords_iff first noNul]
      dsimp only
      cases found : commands.find? fun c => strcmp t c.nameText = 0 with
      | none =>
          refine iff_of_true (fun i read => ?_) (fun c named => by cases named)
          cases read with
          | head => exact reached
          | tail _ read => cases read
      | some c =>
          have most := wordsNeeded_le c
          have within : c.wordsNeeded ≤ min (words line).length 15 ↔
              c.wordsNeeded ≤ (words line).length := by omega
          simp only [Option.map_some, Option.getD_some, List.forall_mem_cons, reached, true_and,
            Option.some.injEq, forall_eq']
          exact (argumentsRead_lt_iff c reached).trans within

def noSymbols : KernelSymbols := ⟨0, 0, 0, 0, 256⟩

def typedLine (line : List Byte) : Prompt := ⟨stringMemory 0 line, zeroedPool, fun _ => none, []⟩

theorem readsGivenArguments_iff_rum : ReadsGivenArguments noSymbols (fun _ => 4096) 0
    ("rum 1000".toList.map char) (typedLine ("rum 1000".toList.map char)) := by
  have held : HoldsString (stringMemory 0 ("rum 1000".toList.map char)) 0
      ("rum 1000".toList.map char) := holdsString_stringMemory 0 (by decide) (by decide)
  refine (readsGivenArguments_iff noSymbols (fun _ => 4096) held).mpr ?_
  have first : (words ("rum 1000".toList.map char)).head? = some (0, CommandId.nameText .rum) := by
    decide
  refine (enoughWords_iff first (nameText_noNul .rum)).mpr fun c found => ?_
  cases (find_nameText .rum).symm.trans found
  decide

/-- `ap` without an address: `strtol` gets the null pointer at the end of the vector. -/
theorem not_readsGivenArguments_ap : ¬ReadsGivenArguments noSymbols (fun _ => 4096) 0
    ("ap".toList.map char) (typedLine ("ap".toList.map char)) := by
  have held : HoldsString (stringMemory 0 ("ap".toList.map char)) 0 ("ap".toList.map char) :=
    holdsString_stringMemory 0 (by decide) (by decide)
  rw [readsGivenArguments_iff_below noSymbols (fun _ => 4096) held]
  decide

end FosV2
