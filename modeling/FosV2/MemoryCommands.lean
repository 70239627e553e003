import FosV2.ExecuteCommand
import FosV2.Runs

/-!
`wum` and `rum` at the prompt are the writes and the reads of a store of bytes, whatever else is
typed in between. The bytes that the prompt itself works with, its line and its stack, are not
part of the store.
-/

namespace FosV2

open Runs

/-- The address and the byte that `wum` takes from the line. -/
def wumWrite (line : List Byte) : Option (Word × Byte) :=
  match (words line).map Prod.snd with
  | name :: address :: value :: _ =>
      if name = CommandId.nameText .wum then some ((strtol address 16).1, value.headD 0) else none
  | _ => none

/-- The address that `rum` takes from the line. -/
def rumRead (line : List Byte) : Option Word :=
  match (words line).map Prod.snd with
  | name :: address :: _ =>
      if name = CommandId.nameText .rum then some (strtol address 16).1 else none
  | _ => none

def storeAfter (store : Memory) (line : List Byte) : Memory :=
  match wumWrite line with
  | some (address, value) => Function.update store address value
  | none => store

def shownCall (address : Word) (value : Byte) : PrintCall :=
  ⟨"value at address %x = %c\n", [.word address, .word (value.setWidth 32)]⟩

def Outside (buffer a : Word) : Prop := 1024 ≤ (a - buffer).toNat

/-- What a line is to print when the bytes are those of `store`. -/
def Answers (buffer : Word) (store : Memory) (line : List Byte) (printed : List PrintCall) : Prop :=
  (∀ write, wumWrite line = some write → printed = []) ∧
    ∀ a, rumRead line = some a → Outside buffer a → printed = [shownCall a (store a)]

/-- `command_line` is at `buffer`. The label is the line, and what the command prints. -/
structure LineStep (kernel : KernelSymbols) (buffer : Word) (prompt : Prompt)
    (label : List Byte × List PrintCall) (prompt' : Prompt) : Prop where
  short : label.1.length < 1024
  executed : ∃ mem arguments code trace, (∀ a, Outside buffer a → mem a = prompt.mem a) ∧
    HoldsString mem buffer label.1 ∧
    executeCommand kernel arguments buffer { prompt with mem := mem } = ⟨.ok code, prompt', trace⟩
  printed : prompt'.output = prompt.output ++ label.2

/-- What every command but `wum` does: the bytes stay, and something may be printed. -/
def Prints (before after : Prompt) : Prop :=
  after.mem = before.mem ∧ before.output <+: after.output

instance : Std.Refl Prints := ⟨fun prompt => ⟨rfl, List.prefix_refl prompt.output⟩⟩

instance : IsTrans Prompt Prints :=
  ⟨fun _ _ _ first second => ⟨second.1.trans first.1, first.2.trans second.2⟩⟩

section Handlers

open Traced

variable {kernel : KernelSymbols} {argc : Nat} {argv : Nat → Word}

theorem prints_cprintf (fmt : String) (arguments : List PrintArgument) :
    Within Prints (cprintf fmt arguments) := .modify fun _ => ⟨rfl, List.prefix_append ..⟩

theorem prints_argument (i : Nat) : Within Prints (argument argv i) :=
  .bind (.note i) fun _ => .pure _

theorem prints_onFrames (call : State → Except Stop State) : Within Prints (onFrames call) := by
  intro prompt
  rw [onFrames]
  split <;> exact ⟨rfl, List.prefix_refl prompt.output⟩

theorem prints_getUserProgramInfo (userProgramName : List Byte) :
    Within Prints (getUserProgramInfo userProgramName) := by
  rw [getUserProgramInfo]
  split
  · exact .pure _
  · exact .bind (prints_cprintf _ _) fun _ => .pure _

theorem prints_envCreate (userProgramName : List Byte) :
    Within Prints (envCreate userProgramName) := by
  refine .bind (prints_getUserProgramInfo userProgramName) fun program => ?_
  cases program with
  | none => exact .pure _
  | some i =>
      refine .bind .get fun prompt => ?_
      split
      · exact .pure _
      · exact .fail _

theorem prints_envRun {α : Type} (e : Option Nat) : Within Prints (envRun e : Command α) := by
  cases e with
  | none => exact .fail _
  | some e =>
      refine .bind (.modify fun prompt => ?_) fun _ => .fail _
      split <;> exact ⟨rfl, List.prefix_refl prompt.output⟩

theorem prints_onPage (call : State → List Byte → Except Stop State) (argc : Nat) :
    Within Prints (onPage call argc argv) := by
  refine .bind (prints_argument 1) fun p => .bind .get fun prompt => ?_
  exact .bind (prints_onFrames _) fun _ => .pure _

/-- No other command writes to a byte, and none takes back what was printed. -/
theorem prints_functionToExecute {c : CommandId} (other : c ≠ .wum) :
    Within Prints (c.functionToExecute kernel argc argv) := by
  have panics : Within Prints (notImplemented argc argv) := .fail _
  cases c with
  | wum => exact absurd rfl other
  | help =>
      refine .bind (.modify fun _ => ⟨rfl, List.prefix_append ..⟩) fun _ => ?_
      exact .bind (prints_cprintf _ _) fun _ => .pure _
  | kernelInfo =>
      refine .bind (prints_cprintf _ _) fun _ => .bind (prints_cprintf _ _) fun _ => ?_
      refine .bind (prints_cprintf _ _) fun _ => .bind (prints_cprintf _ _) fun _ => ?_
      exact .bind (prints_cprintf _ _) fun _ => .bind (prints_cprintf _ _) fun _ => .pure _
  | rum =>
      refine .bind (prints_argument 1) fun p => .bind .get fun prompt => ?_
      exact .bind (prints_cprintf _ _) fun _ => .pure _
  | meminfo =>
      refine .bind .get fun prompt => ?_
      split
      · exact .fail _
      · exact .bind (prints_cprintf _ _) fun _ => .pure _
  | ap => exact prints_onPage _ argc
  | fp => exact prints_onPage _ argc
  | run =>
      refine .bind (prints_argument 1) fun p => .bind .get fun prompt => ?_
      refine .bind (prints_envCreate _) fun program => ?_
      cases program with
      | none => exact .pure _
      | some i => exact .bind .get fun prompt => prints_envRun _
  | kill =>
      refine .bind (prints_argument 1) fun p => .bind .get fun prompt => ?_
      refine .bind (prints_getUserProgramInfo _) fun program => ?_
      cases program with
      | none => exact .pure _
      | some i =>
          refine .bind (.fail _) fun _ => .bind (.modify fun prompt => ?_) fun _ => .pure _
          exact ⟨rfl, List.prefix_refl prompt.output⟩
  | ft => exact .pure _
  | _ => exact panics

end Handlers

section Step

variable {kernel : KernelSymbols} {buffer : Word} {prompt prompt' : Prompt} {line : List Byte}
  {printed : List PrintCall}

theorem outside_of_changed {mem : Memory} {st : Splitting} {code : Word} {a : Word}
    (split : IsSplit whitespace mem buffer line st code) (short : line.length < 1024)
    (outside : Outside buffer a) : st.mem a = mem a := by
  by_contra changed
  obtain ⟨i, c, inLine, -, same⟩ := split.changed a changed
  obtain ⟨inside, -⟩ := List.getElem?_eq_some_iff.mp inLine
  rw [same, Outside, AlignedWord.toNat_add_ofNat_sub buffer (by omega)] at outside
  omega

theorem head_of_holds {mem : Memory} {p : Word} {t : List Byte} (held : HoldsString mem p t) :
    mem p = t.headD 0 := by
  cases t with
  | nil =>
      have nul := held.nul
      rwa [List.length_nil, BitVec.add_zero] at nul
  | cons c t =>
      have first := (held.bytes 0 c rfl).1
      rwa [BitVec.add_zero] at first

theorem lookupCommand_nameText (kernel : KernelSymbols) (c : CommandId) (argc : Nat)
    (argv : Nat → Word) :
    lookupCommand kernel c.nameText argc argv = c.functionToExecute kernel argc argv := by
  rw [lookupCommand, find_nameText]

theorem prints_lookupCommand (kernel : KernelSymbols) {name : List Byte} (noNul : 0 ∉ name)
    (other : name ≠ CommandId.nameText .wum) (argc : Nat) (argv : Nat → Word) :
    Traced.Within Prints (lookupCommand kernel name argc argv) := by
  rw [lookupCommand]
  split
  · rename_i c found
    have matched := List.find?_some found
    have equal : strcmp name c.nameText = 0 := of_decide_eq_true matched
    have named : name = c.nameText := strcmp_eq_zero noNul (nameText_noNul c) equal
    exact prints_functionToExecute fun writes => other (named.trans (congrArg _ writes))
  · exact .bind (prints_cprintf _ _) fun _ => .pure _

theorem words_of_wumWrite {a : Word} {c : Byte} (taken : wumWrite line = some (a, c)) :
    ∃ (i j k : Nat) (address value : List Byte) (rest : List (Nat × List Byte)), words line =
      (i, CommandId.nameText .wum) :: (j, address) :: (k, value) :: rest ∧
        a = (strtol address 16).1 ∧ c = value.headD 0 := by
  rw [wumWrite] at taken
  split at taken
  · rename_i name address value rest texts
    split at taken
    · rename_i named
      obtain ⟨⟨i, _⟩, rest1, split, same, texts1⟩ := List.map_eq_cons_iff.mp texts
      obtain ⟨⟨j, _⟩, rest2, rfl, rfl, texts2⟩ := List.map_eq_cons_iff.mp texts1
      obtain ⟨⟨k, _⟩, rest3, rfl, rfl, _⟩ := List.map_eq_cons_iff.mp texts2
      cases taken
      cases same.trans named
      exact ⟨i, j, k, _, _, rest3, split, rfl, rfl⟩
    · cases taken
  · cases taken

theorem words_of_rumRead {a : Word} (taken : rumRead line = some a) :
    ∃ (i j : Nat) (address : List Byte) (rest : List (Nat × List Byte)), words line =
      (i, CommandId.nameText .rum) :: (j, address) :: rest ∧ a = (strtol address 16).1 := by
  rw [rumRead] at taken
  split at taken
  · rename_i name address rest texts
    split at taken
    · rename_i named
      obtain ⟨⟨i, _⟩, rest1, split, same, texts1⟩ := List.map_eq_cons_iff.mp texts
      obtain ⟨⟨j, _⟩, rest2, rfl, rfl, _⟩ := List.map_eq_cons_iff.mp texts1
      cases taken
      cases same.trans named
      exact ⟨i, j, _, rest2, split, rfl⟩
    · cases taken
  · cases taken

/-- A `wum` that has its words writes. -/
theorem name_ne_of_wumWrite {i : Nat} {name : List Byte} {rest : List (Nat × List Byte)}
    (enough : EnoughWords line) (split : words line = (i, name) :: rest)
    (nothing : wumWrite line = none) : name ≠ CommandId.nameText .wum := by
  rintro rfl
  have needed : 3 ≤ (words line).length := enough .wum i (by rw [split]; rfl)
  rw [split] at needed
  rw [wumWrite, split] at nothing
  match rest with
  | [] => exact absurd needed (by simp)
  | [second] => exact absurd needed (by simp)
  | (j, address) :: (k, value) :: rest =>
      rw [List.map_cons, List.map_cons, List.map_cons] at nothing
      exact absurd (nothing.symm.trans (if_pos rfl)) nofun

/-- A line with words is a call of `lookupCommand` on the words, with the rest of the memory as it
was. -/
theorem LineStep.lookup (step : LineStep kernel buffer prompt (line, printed) prompt') :
    (words line = [] ∧ ∀ a, Outside buffer a → prompt'.mem a = prompt.mem a) ∨
    ∃ (i : Nat) (name : List Byte) (rest : List (Nat × List Byte)) (mem : Memory) (argc : Nat)
      (argv : Nat → Word), words line = (i, name) :: rest ∧ 0 ∉ name ∧
      (∀ a, Outside buffer a → mem a = prompt.mem a) ∧
      (∀ j, j < 15 → ∀ k t, (words line)[j]? = some (k, t) → HoldsString mem (argv j) t) ∧
      (lookupCommand kernel name argc argv { prompt with mem := mem }).state = prompt' := by
  obtain ⟨short, ⟨mem, arguments, code, trace, same, held, executed⟩, _⟩ := step
  obtain ⟨st, code', returned, split, _⟩ := strsplit_vector whitespace arguments held
  have before : ∀ a, Outside buffer a → st.mem a = prompt.mem a := fun a outside =>
    (outside_of_changed split short outside).trans (same a outside)
  have argc : st.argc = min (words line).length 15 := split.argc
  rw [@executeCommand_of_split buffer { prompt with mem := mem } kernel arguments st code' returned]
    at executed
  have state := congrArg Outcome.state executed
  cases line_words : words line with
  | nil =>
      have noWords : st.argc = 0 := by
        rw [argc, line_words]
        rfl
      rw [if_pos noWords] at state
      have last : ({ prompt with mem := st.mem } : Prompt) = prompt' := state
      exact Or.inl ⟨rfl, fun a outside => last ▸ before a outside⟩
  | cons first rest =>
      obtain ⟨i, name⟩ := first
      have hasWords : st.argc ≠ 0 := by
        rw [argc, line_words, List.length_cons]
        omega
      have given : ∀ j, j < 15 → ∀ k t, (words line)[j]? = some (k, t) →
          HoldsString st.mem (st.argv j) t := by
        intro j below k t found
        obtain ⟨inside, -⟩ := List.getElem?_eq_some_iff.mp found
        exact (split.argv j (by omega) k t found).2
      have named : (words line)[0]? = some (i, name) := by
        rw [line_words]
        rfl
      have noNul : 0 ∉ name := by
        have held' : HoldsString ({ prompt with mem := mem } : Prompt).mem buffer line := held
        exact word_noNul held' (List.mem_of_getElem? named)
      rw [if_neg hasWords] at state
      refine Or.inr ⟨i, name, rest, st.mem, st.argc, st.argv, rfl, noNul, before,
        fun j below k t found => given j below k t (line_words ▸ found), ?_⟩
      rw [← stringAt_of_holds (given 0 (by omega) i name named)]
      exact state

theorem LineStep.memory (step : LineStep kernel buffer prompt (line, printed) prompt')
    (enough : EnoughWords line) {store : Memory}
    (agree : ∀ a, Outside buffer a → prompt.mem a = store a) :
    ∀ a, Outside buffer a → prompt'.mem a = storeAfter store line a := by
  intro a outside
  rcases step.lookup with ⟨empty, same⟩ | ⟨i, name, rest, mem, argc, argv, split, noNul, same, given,
    state⟩
  · have nothing : wumWrite line = none := by
      rw [wumWrite, empty]
      rfl
    rw [storeAfter, nothing]
    exact (same a outside).trans (agree a outside)
  have before : mem a = store a := (same a outside).trans (agree a outside)
  cases taken : wumWrite line with
  | none =>
      have other := name_ne_of_wumWrite enough split taken
      have prints := prints_lookupCommand kernel noNul other argc argv { prompt with mem := mem }
      rw [state] at prints
      rw [storeAfter, taken]
      exact (congrFun prints.1 a).trans before
  | some write =>
      obtain ⟨_, j, k, address, value, rest, split', here, written⟩ := words_of_wumWrite taken
      cases split.symm.trans split'
      have addressHeld := given 1 (by decide) j address (by rw [split]; rfl)
      have valueHeld := given 2 (by decide) k value (by rw [split]; rfl)
      rw [lookupCommand_nameText] at state
      have after : prompt'.mem = Function.update mem (strtol (stringAt mem (argv 1)) 16).1
          (mem (argv 2)) := (congrArg Prompt.mem state).symm
      rw [after, stringAt_of_holds addressHeld, head_of_holds valueHeld, ← here, ← written,
        storeAfter, taken]
      dsimp only
      by_cases hit : a = write.1
      · rw [hit, Function.update_self, Function.update_self]
      · rw [Function.update_of_ne hit, Function.update_of_ne hit, before]

theorem LineStep.silent (step : LineStep kernel buffer prompt (line, printed) prompt')
    {write : Word × Byte} (taken : wumWrite line = some write) : printed = [] := by
  obtain ⟨_, _, _, _, _, _, split, _⟩ := words_of_wumWrite taken
  rcases step.lookup with ⟨empty, _⟩ | ⟨_, _, _, mem, argc, argv, split', _, _, _, state⟩
  · rw [empty] at split
    cases split
  cases split.symm.trans split'
  rw [lookupCommand_nameText] at state
  have after : prompt'.output = prompt.output := (congrArg Prompt.output state).symm
  exact List.append_right_eq_self.mp (step.printed.symm.trans after)

theorem LineStep.shows (step : LineStep kernel buffer prompt (line, printed) prompt')
    {store : Memory} (agree : ∀ a, Outside buffer a → prompt.mem a = store a) {a : Word}
    (taken : rumRead line = some a) (outside : Outside buffer a) :
    printed = [shownCall a (store a)] := by
  obtain ⟨_, j, address, _, split, here⟩ := words_of_rumRead taken
  rcases step.lookup with ⟨empty, _⟩ | ⟨_, _, _, mem, argc, argv, split', _, same, given, state⟩
  · rw [empty] at split
    cases split
  cases split.symm.trans split'
  have held := given 1 (by decide) j address (by rw [split]; rfl)
  rw [lookupCommand_nameText] at state
  have after : prompt'.output = prompt.output ++
      [shownCall (strtol (stringAt mem (argv 1)) 16).1 (mem (strtol (stringAt mem (argv 1)) 16).1)] :=
    (congrArg Prompt.output state).symm
  rw [stringAt_of_holds held, ← here, same a outside, agree a outside, step.printed] at after
  exact List.append_cancel_left after

theorem LineStep.answers (step : LineStep kernel buffer prompt (line, printed) prompt')
    {store : Memory} (agree : ∀ a, Outside buffer a → prompt.mem a = store a) :
    Answers buffer store line printed :=
  ⟨fun _ taken => step.silent taken, fun _ taken outside => step.shows agree taken outside⟩

def Appends (before after : Prompt) : Prop := before.output <+: after.output

instance : Std.Refl Appends := ⟨fun prompt => List.prefix_refl prompt.output⟩

instance : IsTrans Prompt Appends := ⟨fun _ _ _ => List.IsPrefix.trans⟩

theorem appends_lookupCommand (kernel : KernelSymbols) (name : List Byte) (argc : Nat)
    (argv : Nat → Word) : Traced.Within Appends (lookupCommand kernel name argc argv) := by
  have weaker : ∀ before after, Prints before after → Appends before after := fun _ _ => And.right
  rw [lookupCommand]
  split
  · rename_i c _
    by_cases writes : c = .wum
    · subst writes
      exact fun prompt => List.prefix_refl prompt.output
    · exact (prints_functionToExecute writes).mono weaker
  · exact .bind ((prints_cprintf _ _).mono weaker) fun _ => .pure _

theorem appends_executeCommand (kernel : KernelSymbols) (arguments : Nat → Word) (p : Word) :
    Traced.Within Appends (executeCommand kernel arguments p) := by
  refine .bind .get fun prompt => ?_
  split
  · exact .fail _
  · refine .bind (.modify fun prompt => List.prefix_refl prompt.output) fun _ => ?_
    split
    · exact .pure _
    · exact .bind (.bind (.note _) fun _ => .pure _) fun _ =>
        appends_lookupCommand kernel _ _ _

/-- A line can be typed over whatever the buffer holds. -/
theorem exists_typed (mem : Memory) (buffer : Word) {line : List Byte}
    (short : line.length < 1024) (noNul : 0 ∉ line) :
    ∃ mem', HoldsString mem' buffer line ∧ ∀ a, Outside buffer a → mem' a = mem a := by
  have held := holdsString_stringMemory buffer noNul (by omega)
  have inside : ∀ k < 1024, (buffer + BitVec.ofNat 32 k - buffer).toNat < 1024 := by
    intro k below
    rwa [AlignedWord.toNat_add_ofNat_sub buffer (by omega)]
  refine ⟨fun a => if (a - buffer).toNat < 1024 then stringMemory buffer line a else mem a, ?_,
    fun a outside => if_neg (Nat.not_lt.mpr outside)⟩
  constructor
  · intro i c found
    obtain ⟨within, -⟩ := List.getElem?_eq_some_iff.mp found
    have typed := held.bytes i c found
    rwa [if_pos (inside i (by omega))]
  · have ended := held.nul
    rwa [if_pos (inside line.length short)]

theorem executeCommand_of_name (kernel : KernelSymbols) (arguments : Nat → Word) {p : Word}
    {c : CommandId} {i : Nat} {rest : List (Nat × List Byte)} (held : HoldsString prompt.mem p line)
    (split : words line = (i, c.nameText) :: rest) :
    ∃ mem argc argv, executeCommand kernel arguments p prompt = (do
      Traced.note 0
      c.functionToExecute kernel argc argv : Command Word) { prompt with mem := mem } := by
  obtain ⟨st, code, returned, isSplit, _⟩ := strsplit_vector whitespace arguments held
  have argc : st.argc = min (words line).length 15 := isSplit.argc
  have hasWords : st.argc ≠ 0 := by
    rw [argc, split, List.length_cons]
    omega
  have named : HoldsString st.mem (st.argv 0) c.nameText :=
    (isSplit.argv 0 (Nat.pos_of_ne_zero hasWords) i c.nameText
      (congrArg (fun found => found[0]?) split)).2
  refine ⟨st.mem, st.argc, st.argv, ?_⟩
  rw [executeCommand_of_split kernel arguments returned, if_neg hasWords, ← lookupCommand_nameText,
    ← stringAt_of_holds named]
  rfl

theorem executeCommand_returns (kernel : KernelSymbols) (arguments : Nat → Word) {p : Word}
    {c : CommandId} {i : Nat} {rest : List (Nat × List Byte)} (held : HoldsString prompt.mem p line)
    (split : words line = (i, c.nameText) :: rest) (either : c = .wum ∨ c = .rum) :
    (executeCommand kernel arguments p prompt).result = .ok 0 := by
  obtain ⟨mem, argc, argv, executed⟩ := executeCommand_of_name kernel arguments held split
  rw [executed]
  rcases either with rfl | rfl
  · rfl
  · rfl

theorem exists_lineStep (kernel : KernelSymbols) (buffer : Word) (prompt : Prompt) {c : CommandId}
    {i : Nat} {rest : List (Nat × List Byte)} (short : line.length < 1024) (noNul : 0 ∉ line)
    (split : words line = (i, c.nameText) :: rest) (either : c = .wum ∨ c = .rum) :
    ∃ printed prompt', LineStep kernel buffer prompt (line, printed) prompt' := by
  obtain ⟨mem, held, same⟩ := exists_typed prompt.mem buffer short noNul
  have returns := @executeCommand_returns { prompt with mem := mem } line kernel (fun _ => 0) buffer
    c i rest held split either
  obtain ⟨printed, output⟩ := appends_executeCommand kernel (fun _ => 0) buffer
    { prompt with mem := mem }
  exact ⟨printed, _, short, ⟨mem, _, 0, _, same, held, congrArg (Outcome.mk · _ _) returns⟩,
    output.symm⟩

end Step

section Sessions

variable {kernel : KernelSymbols} {buffer : Word} {prompt prompt' : Prompt}
  {labels : List (List Byte × List PrintCall)}

def stored (store : Memory) (lines : List (List Byte)) : Memory := lines.foldl storeAfter store

theorem run_stores (run : Run (LineStep kernel buffer) prompt labels prompt')
    (enough : ∀ label ∈ labels, EnoughWords label.1) {store : Memory}
    (agree : ∀ a, Outside buffer a → prompt.mem a = store a) :
    (∀ a, Outside buffer a → prompt'.mem a = stored store (labels.map Prod.fst) a) ∧
      ∀ i line printed, labels[i]? = some (line, printed) →
        Answers buffer (stored store ((labels.take i).map Prod.fst)) line printed := by
  induction run generalizing store with
  | nil =>
      refine ⟨agree, fun i line printed found => ?_⟩
      cases found
  | @cons _ _ _ label labels step run ih =>
      have one := step.memory (enough _ (List.mem_cons_self ..)) agree
      obtain ⟨last, answered⟩ := ih (fun label member => enough label (.tail _ member)) one
      refine ⟨last, fun i line printed found => ?_⟩
      cases i with
      | zero =>
          cases found
          exact step.answers agree
      | succ i => exact answered i line printed found

theorem run_output (run : Run (LineStep kernel buffer) prompt labels prompt') :
    prompt'.output = prompt.output ++ (labels.map Prod.snd).flatten := by
  induction run with
  | nil prompt => exact (List.append_nil prompt.output).symm
  | cons step _ ih =>
      rw [ih, step.printed, List.append_assoc]
      rfl

theorem enoughWords_of_name {line : List Byte} {c : CommandId} {i : Nat}
    {rest : List (Nat × List Byte)} (split : words line = (i, c.nameText) :: rest)
    (needed : c.wordsNeeded ≤ (words line).length) : EnoughWords line := by
  intro d k named
  rw [split] at named
  cases nameText_injective (congrArg Prod.snd (Option.some.inj named))
  exact needed

def wumLine : List Byte := "wum 800000 x".toList.map char
def rumLine : List Byte := "rum 800000".toList.map char

theorem words_wumLine : words wumLine = [(0, CommandId.nameText .wum),
    (4, "800000".toList.map char), (11, "x".toList.map char)] := by decide

theorem words_rumLine : words rumLine = [(0, CommandId.nameText .rum),
    (4, "800000".toList.map char)] := by decide

theorem enoughWords_wumLine : EnoughWords wumLine := enoughWords_of_name words_wumLine (by decide)

theorem enoughWords_rumLine : EnoughWords rumLine := enoughWords_of_name words_rumLine (by decide)

theorem wumWrite_wumLine : wumWrite wumLine = some (0x800000, char 'x') := by decide

theorem storeAfter_wumLine (store : Memory) : storeAfter store wumLine 0x800000 = char 'x' := by
  rw [storeAfter, wumWrite_wumLine]
  exact Function.update_self ..

theorem outside_rumLine : Outside 0 0x800000 := by
  rw [Outside]
  decide

end Sessions

end FosV2
