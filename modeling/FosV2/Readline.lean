import FosV2.ConsoleDisplay
import FosV2.ConsolePrinting

/-!
The line editor of `lib/readline.c`, and what the kernel's console shows of the line. The
editor moves its index and the console its cursor, each on its own; the row that scrolls
away is never part of the line, which is shorter than the screen.
-/

namespace FosV2

def bufLen : Nat := 1024

/-- `-E_EOF` -/
def endOfFile : Word := 7

def iscons (_fdnum : Word) : Word := 1

structure LineEdit (σ : Type) where
  i : Nat
  buf : Nat → Byte
  console : σ

inductive LineRead (σ : Type) where
  | waiting (line : LineEdit σ)
  | returned (line : LineEdit σ) (inputs : List Byte)

section Editor

variable {σ : Type} (cputchar : σ → Word → σ) (load : Word → Except Stop Byte)

def putPrompt (prompt : Word) (console : σ) : Except Stop σ :=
  if prompt ≠ 0 then do
    let (_, console) ← kernelVcprintf cputchar load ("%s".toList.map char) (fun _ => prompt) console
    return console
  else .ok console

namespace LineEdit

def echo (line : LineEdit σ) (c : Word) : LineEdit σ :=
  if iscons 0 ≠ 0 then { line with console := cputchar line.console c } else line

def store (line : LineEdit σ) (c : Word) : LineEdit σ :=
  { line with buf := Function.update line.buf line.i (c.setWidth 8) }

end LineEdit

def readlineChar (c : Word) (line : LineEdit σ) : Except Stop (LineEdit σ × Bool) :=
  if c.toInt < 0 then
    if c ≠ endOfFile then do
      let (_, console) ← kernelVcprintf cputchar load ("read error: %e\n".toList.map char)
        (fun _ => c) line.console
      return ({ line with console := console }, true)
    else .ok (line, true)
  else if 0x20 ≤ c.toInt ∧ line.i < bufLen - 1 then
    let line := (line.echo cputchar c).store c
    .ok ({ line with i := line.i + 1 }, false)
  else if c = 0x08 ∧ 0 < line.i then
    let line := line.echo cputchar c
    .ok ({ line with i := line.i - 1 }, false)
  else if c = 0x0A ∨ c = 0x0D then .ok ((line.echo cputchar c).store 0, true)
  else .ok (line, false)

/-- `inputs` is what `cons_getc` returns: `getchar` asks again while it is 0. -/
def readlineLoop : List Byte → LineEdit σ → Except Stop (LineRead σ)
  | [], line => .ok (.waiting line)
  | c :: inputs, line =>
      if c = 0 then readlineLoop inputs line
      else do
        let (line, returns) ← readlineChar cputchar load (c.setWidth 32) line
        if returns then return .returned line inputs
        else readlineLoop inputs line

def readline (prompt : Word) (buf : Nat → Byte) (inputs : List Byte) (console : σ) :
    Except Stop (LineRead σ) := do
  let console ← putPrompt cputchar load prompt console
  readlineLoop cputchar load inputs ⟨0, buf, console⟩

end Editor

theorem putPrompt_preserves {σ : Type} {cputchar : σ → Word → σ} {inv : σ → Prop}
    (preserved : ∀ console c, inv console → inv (cputchar console c))
    {load : Word → Except Stop Byte} {prompt : Word} {console console' : σ}
    (initial : inv console) (prompted : putPrompt cputchar load prompt console = .ok console') :
    inv console' := by
  have folded : ∀ (chars : List Word) (console : σ), inv console →
      inv (chars.foldl cputchar console) := by
    intro chars
    induction chars with
    | nil => exact fun _ holds => holds
    | cons c rest ih => exact fun console holds => ih _ (preserved console c holds)
  rw [putPrompt] at prompted
  split at prompted
  · obtain ⟨⟨cnt, console⟩, put, same⟩ := bind_eq_ok prompted
    cases same
    cases result : printed load ("%s".toList.map char) (fun _ => prompt) with
    | error stop =>
        rw [kernelVcprintf, vprintfmt_eq_printed, result] at put
        cases put
    | ok chars =>
        rw [kernelVcprintf_printed cputchar result] at put
        cases put
        exact folded chars _ initial
  · cases prompted
    exact initial

theorem toInt_byte (c : Byte) : (c.setWidth 32 : Word).toInt = c.toNat := by
  have small := c.isLt
  have same : (c.setWidth 32 : Word).toNat = c.toNat := BitVec.toNat_setWidth_of_le (by omega)
  rw [BitVec.toInt_eq_toNat_of_lt (by omega), same]

def LineRead.line {σ : Type} : LineRead σ → LineEdit σ
  | waiting line => line
  | returned line _ => line

section Preserved

variable {σ : Type} {cputchar : σ → Word → σ} {load : Word → Except Stop Byte} {inv : σ → Prop}
  {line line' : LineEdit σ}

theorem LineEdit.echo_preserves (preserved : ∀ console c, inv console → inv (cputchar console c))
    (holds : inv line.console) (c : Word) : inv (line.echo cputchar c).console := by
  rw [echo]
  split
  · exact preserved _ c holds
  · exact holds

theorem readlineChar_preserves (preserved : ∀ console c, inv console → inv (cputchar console c))
    (holds : inv line.console) {c : Byte} {returns : Bool}
    (read : readlineChar cputchar load (c.setWidth 32) line = .ok (line', returns)) :
    inv line'.console := by
  have noError : ¬(c.toNat : Int) < 0 := by omega
  have echoed := LineEdit.echo_preserves preserved holds (c.setWidth 32)
  rw [readlineChar, toInt_byte, if_neg noError] at read
  split at read
  · cases read
    exact echoed
  split at read
  · cases read
    exact echoed
  split at read
  · cases read
    exact echoed
  · cases read
    exact holds

theorem readlineLoop_preserves (preserved : ∀ console c, inv console → inv (cputchar console c))
    {inputs : List Byte} (holds : inv line.console) {read : LineRead σ}
    (ran : readlineLoop cputchar load inputs line = .ok read) : inv read.line.console := by
  induction inputs generalizing line with
  | nil =>
      cases ran
      exact holds
  | cons c inputs ih =>
      rw [readlineLoop] at ran
      split at ran
      · exact ih holds ran
      obtain ⟨⟨next, returns⟩, one, rest⟩ := bind_eq_ok ran
      have kept := readlineChar_preserves preserved holds one
      cases returns with
      | true =>
          cases rest
          exact kept
      | false => exact ih kept rest

theorem readline_preserves (preserved : ∀ console c, inv console → inv (cputchar console c))
    {prompt : Word} {buf : Nat → Byte} {inputs : List Byte} {console : σ} (holds : inv console)
    {read : LineRead σ} (ran : readline cputchar load prompt buf inputs console = .ok read) :
    inv read.line.console := by
  obtain ⟨console', prompted, rest⟩ := bind_eq_ok ran
  have started : inv (⟨0, buf, console'⟩ : LineEdit σ).console :=
    putPrompt_preserves preserved holds prompted
  exact readlineLoop_preserves preserved started rest

end Preserved

/-- What holds between the characters so far and the state is kept up to the end of the line. -/
theorem readlineLoop_follows {σ : Type} {cputchar : σ → Word → σ} {load : Word → Except Stop Byte}
    {inv : List Byte → LineEdit σ → Prop} {inputs : List Byte} {line : LineEdit σ}
    (start : inv [] line) (ignored : ∀ done line, inv done line → inv (done ++ [0]) line)
    (step : ∀ done c behind line, inputs = done ++ c :: behind → c ≠ 0 → inv done line →
      ∃ line', readlineChar cputchar load (c.setWidth 32) line = .ok (line', false) ∧
        inv (done ++ [c]) line') :
    ∃ line', inv inputs line' ∧ ∀ rest, readlineLoop cputchar load (inputs ++ rest) line =
      readlineLoop cputchar load rest line' := by
  have along : ∀ behind done line, inputs = done ++ behind → inv done line →
      ∃ line', inv inputs line' ∧ ∀ rest, readlineLoop cputchar load (behind ++ rest) line =
        readlineLoop cputchar load rest line' := by
    intro behind
    induction behind with
    | nil =>
        intro done line split holds
        rw [split, List.append_nil]
        exact ⟨line, holds, fun _ => rfl⟩
    | cons c behind ih =>
        intro done line split holds
        have next : inputs = done ++ [c] ++ behind := by rw [split, List.append_cons]
        by_cases nul : c = 0
        · subst nul
          obtain ⟨line', last, reads⟩ := ih _ line next (ignored done line holds)
          refine ⟨line', last, fun rest => ?_⟩
          rw [List.cons_append, readlineLoop, if_pos rfl, reads]
        · obtain ⟨middle, read, kept⟩ := step done c behind line split nul holds
          obtain ⟨line', last, reads⟩ := ih _ middle next kept
          refine ⟨line', last, fun rest => ?_⟩
          rw [List.cons_append, readlineLoop, if_neg nul, read, ok_bind]
          exact reads rest
  exact along inputs [] line rfl start

structure Echoed (line : LineEdit Console) : Prop where
  room : line.i ≤ 1023
  onScreen : line.console.OnScreen
  behind : line.i ≤ line.console.crtPos.toNat
  shown : ∀ k < line.i,
    (line.console.cell (line.console.crtPos.toNat - line.i + k)).setWidth 8 = line.buf k

namespace Echoed

variable {line : LineEdit Console}

/-- The character stands behind the line before the screen is scrolled. -/
theorem placed (echoed : Echoed line) (c : Byte) (k : Nat) (inside : k < line.i + 1) :
    ((line.console.setCell line.console.crtPos.toNat ((0x07 : Byte) ++ c)).cell
      (line.console.crtPos.toNat - line.i + k)).setWidth 8 =
      Function.update line.buf line.i c k := by
  have behind := echoed.behind
  by_cases last : k = line.i
  · rw [last, Function.update_self, Nat.sub_add_cancel behind, Console.setCell_cell_self]
    exact BitVec.setWidth_append_eq_right
  · rw [Function.update_of_ne last, Console.setCell_cell_of_ne (by omega)]
    exact echoed.shown k (by omega)

theorem visible (echoed : Echoed line) {c : Byte} (visible : Console.Visible c)
    (short : line.i < 1023) :
    Echoed ⟨line.i + 1, Function.update line.buf line.i c,
      line.console.consPutc (c.setWidth 32)⟩ := by
  have size : crtSize = 2000 := rfl
  have columns : crtCols = 80 := rfl
  have onScreen : line.console.crtPos.toNat < crtSize := echoed.onScreen
  have behind := echoed.behind
  have next : (line.console.crtPos + 1).toNat = line.console.crtPos.toNat + 1 := by bv_omega
  rw [Console.consPutc_visible visible]
  simp only [Console.setPos_crtPos, next]
  split
  · have back : (line.console.crtPos + 1 - BitVec.ofNat 16 crtCols).toNat =
        line.console.crtPos.toNat + 1 - 80 := by
      rw [columns]
      bv_omega
    refine ⟨short, ?_, ?_, ?_⟩
    · rw [Console.OnScreen, Console.scroll_crtPos, Console.setPos_crtPos, back]
      omega
    · rw [Console.scroll_crtPos, Console.setPos_crtPos, back]
      dsimp only
      omega
    · intro k inside
      dsimp only at inside ⊢
      rw [Console.scroll_crtPos, Console.setPos_crtPos, back, Console.scroll_cell (by omega)]
      have same : line.console.crtPos.toNat + 1 - 80 - (line.i + 1) + k + crtCols =
          line.console.crtPos.toNat - line.i + k := by omega
      rw [same]
      exact echoed.placed c k inside
  · refine ⟨short, ?_, ?_, ?_⟩
    · rw [Console.OnScreen, Console.setPos_crtPos, next]
      omega
    · rw [Console.setPos_crtPos, next]
      exact Nat.succ_le_succ behind
    · intro k inside
      rw [Console.setPos_crtPos, next, Nat.add_sub_add_right]
      exact echoed.placed c k inside

theorem backspace (echoed : Echoed line) (some : 0 < line.i) :
    Echoed ⟨line.i - 1, line.buf, line.console.consPutc 0x08⟩ := by
  have room := echoed.room
  have onScreen : line.console.crtPos.toNat < crtSize := echoed.onScreen
  have behind := echoed.behind
  have positive : 0 < line.console.crtPos := by
    rw [BitVec.lt_def]
    exact Nat.lt_of_lt_of_le some behind
  have previous : (line.console.crtPos - 1).toNat = line.console.crtPos.toNat - 1 := by bv_omega
  rw [Console.consPutc_backspace positive echoed.onScreen]
  refine ⟨?_, ?_, ?_, ?_⟩
  · exact Nat.le_trans (Nat.sub_le _ _) room
  · rw [Console.OnScreen, Console.setCell_crtPos, Console.setPos_crtPos, previous]
    omega
  · rw [Console.setCell_crtPos, Console.setPos_crtPos, previous]
    exact Nat.sub_le_sub_right behind 1
  · intro k inside
    dsimp only at inside ⊢
    rw [Console.setCell_crtPos, Console.setPos_crtPos, previous,
      Console.setCell_cell_of_ne (by omega), Console.setPos_cell, Console.lptPutc_cell]
    have same : line.console.crtPos.toNat - 1 - (line.i - 1) + k =
        line.console.crtPos.toNat - line.i + k := by omega
    rw [same]
    exact echoed.shown k (by omega)

end Echoed

section Run

variable {load : Word → Except Stop Byte} {line : LineEdit Console} {c : Byte}

theorem byte_of_word (c : Byte) : (c.setWidth 32 : Word).setWidth 8 = c := by
  revert c
  decide

theorem not_lineEnd (goesOn : c ≠ char '\n' ∧ c ≠ char '\r') :
    ¬((c.setWidth 32 : Word) = 0x0A ∨ (c.setWidth 32 : Word) = 0x0D) := by
  revert c
  decide

theorem readlineChar_echoed (echoed : Echoed line) (goesOn : c ≠ char '\n' ∧ c ≠ char '\r') :
    ∃ line', readlineChar Console.consPutc load (c.setWidth 32) line = .ok (line', false) ∧
      Echoed line' := by
  have stored := byte_of_word c
  have noEnd := not_lineEnd goesOn
  have noError : ¬(c.toNat : Int) < 0 := by omega
  rw [readlineChar, toInt_byte]
  simp only [noError, noEnd, if_false]
  split
  · rename_i printable
    have visible : Console.Visible c := Console.visible_of_space_le (by omega)
    refine ⟨_, rfl, ?_⟩
    have shown := echoed.visible visible printable.2
    rw [LineEdit.store, stored]
    exact shown
  · split
    · rename_i erases
      refine ⟨_, rfl, ?_⟩
      rw [erases.1]
      exact echoed.backspace erases.2
    · exact ⟨line, rfl, echoed⟩

theorem readlineLoop_echoed (echoed : Echoed line) {inputs : List Byte}
    (goesOn : ∀ c ∈ inputs, c ≠ char '\n' ∧ c ≠ char '\r') :
    ∃ line', readlineLoop Console.consPutc load inputs line = .ok (.waiting line') ∧
      Echoed line' := by
  obtain ⟨line', echoed', reads⟩ := @readlineLoop_follows Console Console.consPutc load
    (fun _ line => Echoed line) inputs line echoed (fun _ _ echoed => echoed)
    fun done c behind line split _ echoed =>
      readlineChar_echoed echoed (goesOn c (split ▸ List.mem_append_right _ (List.mem_cons_self ..)))
  have read := reads []
  rw [List.append_nil] at read
  exact ⟨line', read, echoed'⟩

/-- Whenever `readline` asks for the next character, after any input so far. -/
theorem readline_echoed {prompt : Word} {console console' : Console}
    (onScreen : console.OnScreen)
    (prompted : putPrompt Console.consPutc load prompt console = .ok console')
    (buf : Nat → Byte) {inputs : List Byte}
    (goesOn : ∀ c ∈ inputs, c ≠ char '\n' ∧ c ≠ char '\r') :
    ∃ line, readline Console.consPutc load prompt buf inputs console = .ok (.waiting line) ∧
      Echoed line := by
  have preserved : ∀ (console : Console) (c : Word), console.OnScreen →
      (console.consPutc c).OnScreen := fun _ c stays => Console.consPutc_onScreen stays c
  have onScreen' := putPrompt_preserves preserved onScreen prompted
  have start : Echoed ⟨0, buf, console'⟩ :=
    ⟨Nat.zero_le _, onScreen', Nat.zero_le _, fun k empty => absurd empty (Nat.not_lt_zero k)⟩
  rw [readline, prompted, ok_bind]
  exact readlineLoop_echoed start goesOn

end Run

/-- The cursor starts at the bottom right, so the first character scrolls the screen. -/
theorem readline_echoed_bottomRight :
    ∃ line, readline Console.consPutc (fun _ => .ok 0) 0 (fun _ => 0)
      [char 'a', char 'b', 0x08, char 'c'] ⟨fun _ => 0, 1999, []⟩ = .ok (.waiting line) ∧
      Echoed line := by
  have onScreen : Console.OnScreen ⟨fun _ => 0, 1999, []⟩ := by
    unfold Console.OnScreen
    decide
  exact readline_echoed onScreen rfl (fun _ => 0) (by decide)

end FosV2
