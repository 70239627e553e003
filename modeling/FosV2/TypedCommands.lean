import FosV2.LiteralText
import FosV2.MemoryCommands
import FosV2.Typing

/-!
From the keyboard to the store: `run_command_prompt` with `execute_command` on the lines that
`readline` has left in `command_line`.
-/

namespace FosV2

open Runs

section Machine

variable {κ : Type}

def onConsole (cputchar : κ → Word → κ) (machine : Prompt × κ) (c : Word) : Prompt × κ :=
  (machine.1, cputchar machine.2 c)

def withLine (buffer : Word) (commandLine : Nat → Byte) (prompt : Prompt) : Prompt :=
  { prompt with mem := fun a =>
      if (a - buffer).toNat < 1024 then commandLine (a - buffer).toNat else prompt.mem a }

/-- `command_line` lies at `buffer`. `arguments` is what `execute_command` finds in its vector. -/
def executeTyped (kernel : KernelSymbols) (buffer : Word) (arguments : Prompt → Nat → Word)
    (commandLine : Nat → Byte) (machine : Prompt × κ) :
    Except Stop (Word × (Nat → Byte) × Prompt × κ) :=
  let prompt := withLine buffer commandLine machine.1
  match executeCommand kernel (arguments prompt) buffer prompt with
  | ⟨.ok result, prompt, _⟩ =>
      .ok (result, fun i => prompt.mem (buffer + BitVec.ofNat 32 i), prompt, machine.2)
  | ⟨.error (.stopped stop), _, _⟩ => .error stop
  -- Not reached: `env_create` has panicked before there is anything to run.
  | ⟨.error (.entersUser _), _, _⟩ => .error .notCompleted

variable {kernel : KernelSymbols} {buffer : Word} {arguments : Prompt → Nat → Word}
  {before buf commandLine : Nat → Byte} {line : List Byte} {machine machine' : Prompt × κ}

theorem holdsString_withLine (holds : HoldsLine before buf line) (prompt : Prompt) :
    HoldsString (withLine buffer buf prompt).mem buffer line := by
  have short := holds.short
  have read : ∀ k < 1024, (withLine buffer buf prompt).mem (buffer + BitVec.ofNat 32 k) = buf k := by
    intro k below
    have offset := AlignedWord.toNat_add_ofNat_sub buffer (by omega : k < 2 ^ 32)
    change (if _ then _ else _) = _
    rw [offset, if_pos below]
  constructor
  · intro i c found
    obtain ⟨inside, -⟩ := List.getElem?_eq_some_iff.mp found
    refine ⟨(read i (by omega)).trans (holds.bytes i c found), ?_⟩
    rintro rfl
    exact absurd (holds.printable 0 (List.mem_of_getElem? found)) (by decide)
  · exact (read line.length short).trans holds.terminated

theorem executeTyped_step {result : Word} (holds : HoldsLine before buf line)
    (executed : executeTyped kernel buffer arguments buf machine =
      .ok (result, commandLine, machine')) :
    ∃ printed, LineStep kernel buffer machine.1 (line, printed) machine'.1 := by
  have appended := appends_executeCommand kernel (arguments (withLine buffer buf machine.1)) buffer
    (withLine buffer buf machine.1)
  rw [executeTyped] at executed
  split at executed
  · rename_i result' prompt trace ran
    cases executed
    rw [ran] at appended
    obtain ⟨printed, output⟩ := appended
    exact ⟨printed, holds.short, ⟨_, _, _, _, fun a outside => if_neg (Nat.not_lt.mpr outside),
      holdsString_withLine holds machine.1, ran⟩, output.symm⟩
  · cases executed
  · cases executed

variable {cputchar : κ → Word → κ} {load : Word → Except Stop Byte} {prompt : Word}

theorem readline_keepsPrompt {inputs : List Byte} {read : LineRead (Prompt × κ)}
    (ran : readline (onConsole cputchar) load prompt buf inputs machine = .ok read) :
    read.line.console.1 = machine.1 :=
  @readline_preserves (Prompt × κ) (onConsole cputchar) load (fun console => console.1 = machine.1)
    (fun _ _ same => same) prompt buf inputs machine rfl read ran

theorem runCommandPrompt_steps (n : Nat) (s : Session (Prompt × κ)) :
    ∃ labels, Run (LineStep kernel buffer) s.console.1 labels (runCommandPrompt (onConsole cputchar)
        load prompt (executeTyped kernel buffer arguments) n s).1.console.1 ∧
      labels.map Prod.fst =
        ((endedLines [] (nonzero s.inputs)).take labels.length).map editLine ∧
      ((runCommandPrompt (onConsole cputchar) load prompt (executeTyped kernel buffer arguments) n
        s).2 = some (.ok ()) → labels.length = min n (endedLines [] (nonzero s.inputs)).length) := by
  induction n generalizing s with
  | zero => exact ⟨[], .nil _, rfl, fun _ => (Nat.zero_min _).symm⟩
  | succ n ih =>
      cases prompted : putPrompt (onConsole cputchar) load prompt s.console with
      | error stop =>
          have read : readline (onConsole cputchar) load prompt s.commandLine s.inputs s.console =
              .error stop := by
            rw [readline, prompted]
            rfl
          simp only [runCommandPrompt, read]
          exact ⟨[], .nil _, rfl, fun ok => by cases ok⟩
      | ok console =>
          rcases @readline_turn _ (onConsole cputchar) load prompt s.commandLine s.inputs _ _ prompted
            with ⟨none, line, read⟩ | ⟨line, rest, first, read, holds, split⟩
          · have kept : line.console.1 = s.console.1 := readline_keepsPrompt read
            simp only [runCommandPrompt, read, none, kept]
            exact ⟨[], .nil _, rfl, fun _ => (Nat.min_zero _).symm⟩
          · have kept : line.console.1 = s.console.1 := readline_keepsPrompt read
            obtain ⟨before, holds⟩ := holds
            simp only [runCommandPrompt, read, split]
            cases called : executeTyped kernel buffer arguments line.buf line.console with
            | error stop =>
                simp only [kept]
                exact ⟨[], .nil _, rfl, fun ok => by cases ok⟩
            | ok outcome =>
                obtain ⟨result, commandLine, machine'⟩ := outcome
                obtain ⟨printed, step⟩ := executeTyped_step holds called
                rw [kept] at step
                by_cases leaves : result.toInt < 0
                · simp only [leaves, if_true]
                  exact ⟨[_], .cons step (.nil _), rfl, fun ok => by cases ok⟩
                · simp only [leaves, if_false]
                  obtain ⟨labels, run, lines, all⟩ :=
                    ih ⟨commandLine, rest, machine', s.executed ++ [line.buf]⟩
                  refine ⟨_ :: labels, .cons step run, ?_, fun ok => ?_⟩
                  · rw [List.map_cons, lines]
                    rfl
                  · rw [List.length_cons, List.length_cons, all ok, Nat.succ_min_succ]

/-! Lines of `wum` and `rum` -/

def IsByteCommand (line : List Byte) : Prop := wumWrite line ≠ none ∨ rumRead line ≠ none

theorem IsByteCommand.name (known : IsByteCommand line) : ∃ (c : CommandId) (i : Nat)
    (rest : List (Nat × List Byte)), words line = (i, c.nameText) :: rest ∧ (c = .wum ∨ c = .rum) := by
  rcases known with writes | reads
  · obtain ⟨write, taken⟩ := Option.ne_none_iff_exists'.mp writes
    obtain ⟨i, _, _, _, _, _, split, _⟩ := words_of_wumWrite taken
    exact ⟨.wum, i, _, split, Or.inl rfl⟩
  · obtain ⟨a, taken⟩ := Option.ne_none_iff_exists'.mp reads
    obtain ⟨i, _, _, _, split, _⟩ := words_of_rumRead taken
    exact ⟨.rum, i, _, split, Or.inr rfl⟩

theorem executeTyped_returns (holds : HoldsLine before buf line) (known : IsByteCommand line) :
    ∃ commandLine machine', executeTyped kernel buffer arguments buf machine =
      .ok (0, commandLine, machine') := by
  obtain ⟨c, i, rest, split, either⟩ := known.name
  have held : HoldsString (withLine buffer buf machine.1).mem buffer line :=
    holdsString_withLine holds machine.1
  have returns := executeCommand_returns kernel (arguments (withLine buffer buf machine.1)) held split
    either
  rw [executeTyped]
  split
  · rename_i result prompt trace ran
    rw [ran] at returns
    cases returns
    exact ⟨_, _, rfl⟩
  · rename_i stopped _ _ ran
    rw [ran] at returns
    cases returns
  · rename_i entered _ _ ran
    rw [ran] at returns
    cases returns

theorem putPrompt_returns {text : List Byte} (string : StringAt load prompt text)
    (machine : Prompt × κ) :
    ∃ machine', putPrompt (onConsole cputchar) load prompt machine = .ok machine' := by
  have shown := @printed_string_argument load text (fun _ => prompt) string
  rw [putPrompt, if_pos string.notNull, kernelVcprintf_printed (onConsole cputchar) shown]
  exact ⟨_, rfl⟩

theorem runCommandPrompt_returns {text : List Byte} (string : StringAt load prompt text) (n : Nat)
    (s : Session (Prompt × κ))
    (known : ∀ line ∈ endedLines [] (nonzero s.inputs), IsByteCommand (editLine line)) :
    (runCommandPrompt (onConsole cputchar) load prompt (executeTyped kernel buffer arguments) n
      s).2 = some (.ok ()) := by
  induction n generalizing s with
  | zero => rfl
  | succ n ih =>
      obtain ⟨console, prompted⟩ := @putPrompt_returns κ cputchar load prompt text string s.console
      rcases @readline_turn _ (onConsole cputchar) load prompt s.commandLine s.inputs _ _ prompted
        with ⟨none, line, read⟩ | ⟨line, rest, first, read, ⟨before, holds⟩, split⟩
      · simp only [runCommandPrompt, read]
      · rw [split] at known
        obtain ⟨commandLine, machine', called⟩ := @executeTyped_returns κ kernel buffer arguments _
          _ _ line.console holds (known first (List.mem_cons_self ..))
        simp only [runCommandPrompt, read, called]
        exact ih _ fun line member => known line (List.mem_cons_of_mem _ member)

end Machine

def typedKeys : List KeyboardEvent := [wumLine, rumLine].flatMap (typeLine false)

def promptText : List Byte := "FOS> ".toList.map char

end FosV2
