import FosV2.Readline

/-!
What `readline` leaves in its buffer is the fold of the input over a line that is edited at
its end. A full line drops what is typed, an empty one ignores a backspace.
-/

namespace FosV2

def editChar (room : Nat) (text : List Byte) (c : Byte) : List Byte :=
  if 0x20 ≤ c.toNat then if text.length < room then text ++ [c] else text
  else if c = 0x08 then text.dropLast
  else text

def editLine (inputs : List Byte) : List Byte := inputs.foldl (editChar 1023) []

structure HoldsLine (buf buf' : Nat → Byte) (text : List Byte) : Prop where
  bytes : ∀ k c, text[k]? = some c → buf' k = c
  terminated : buf' text.length = 0
  short : text.length < 1024
  printable : ∀ c ∈ text, 0x20 ≤ c.toNat
  outside : ∀ k, 1024 ≤ k → buf' k = buf k

section Editing

variable {σ : Type} {cputchar : σ → Word → σ} {load : Word → Except Stop Byte}
  {buf : Nat → Byte} {line : LineEdit σ} {text : List Byte} {c : Byte}

structure Editing (buf : Nat → Byte) (line : LineEdit σ) (text : List Byte) : Prop where
  index : line.i = text.length
  room : text.length ≤ 1023
  bytes : ∀ k c, text[k]? = some c → line.buf k = c
  printable : ∀ c ∈ text, 0x20 ≤ c.toNat
  outside : ∀ k, 1024 ≤ k → line.buf k = buf k

namespace Editing

theorem start (buf : Nat → Byte) (console : σ) : Editing buf ⟨0, buf, console⟩ [] := by
  refine ⟨rfl, Nat.zero_le _, fun k c found => ?_, fun c member => ?_, fun _ _ => rfl⟩
  · cases found
  · cases member

theorem append (editing : Editing buf line text) (printable : 0x20 ≤ c.toNat)
    (short : text.length < 1023) (console : σ) :
    Editing buf ⟨line.i + 1, Function.update line.buf line.i c, console⟩ (text ++ [c]) := by
  have index := editing.index
  refine ⟨?_, ?_, fun k c' found => ?_, fun c' member => ?_, fun k beyond => ?_⟩
  · simp [index]
  · rw [List.length_append, List.length_singleton]
    exact short
  · dsimp only
    by_cases last : k = text.length
    · rw [last, List.getElem?_concat_length] at found
      rw [last, ← index, Function.update_self]
      exact Option.some.inj found
    · have inside := (List.getElem?_eq_some_iff.mp found).1
      rw [List.length_append, List.length_singleton] at inside
      rw [List.getElem?_append_left (by omega)] at found
      rw [Function.update_of_ne (by omega)]
      exact editing.bytes k c' found
  · rcases List.mem_append.mp member with earlier | last
    · exact editing.printable c' earlier
    · rwa [List.mem_singleton.mp last]
  · dsimp only
    rw [Function.update_of_ne (by omega)]
    exact editing.outside k beyond

theorem dropLast (editing : Editing buf line text) (console : σ) :
    Editing buf ⟨line.i - 1, line.buf, console⟩ text.dropLast := by
  have index := editing.index
  have room := editing.room
  refine ⟨?_, ?_, fun k c' found => ?_, fun c' member => ?_, editing.outside⟩
  · rw [List.length_dropLast, index]
  · rw [List.length_dropLast]
    omega
  · have inside := (List.getElem?_eq_some_iff.mp found).1
    rw [List.length_dropLast] at inside
    rw [List.getElem?_dropLast, if_pos inside] at found
    exact editing.bytes k c' found
  · exact editing.printable c' (List.dropLast_subset text member)

theorem holds (editing : Editing buf line text) :
    HoldsLine buf (Function.update line.buf line.i 0) text := by
  have index := editing.index
  have room := editing.room
  refine ⟨fun k c found => ?_, ?_, by omega, editing.printable, fun k beyond => ?_⟩
  · have inside := (List.getElem?_eq_some_iff.mp found).1
    rw [Function.update_of_ne (by omega)]
    exact editing.bytes k c found
  · rw [← index, Function.update_self]
  · rw [Function.update_of_ne (by omega)]
    exact editing.outside k beyond

end Editing

variable (cputchar load) in
theorem readlineChar_edits (editing : Editing buf line text)
    (goesOn : c ≠ char '\n' ∧ c ≠ char '\r') :
    ∃ line', readlineChar cputchar load (c.setWidth 32) line = .ok (line', false) ∧
      Editing buf line' (editChar 1023 text c) := by
  have stored := byte_of_word c
  have noEnd := not_lineEnd goesOn
  have erases : (c.setWidth 32 : Word) = 0x08 ↔ c = 0x08 := by
    revert c
    decide
  have noError : ¬(c.toNat : Int) < 0 := by omega
  have index := editing.index
  have room : bufLen - 1 = 1023 := rfl
  rw [readlineChar, toInt_byte]
  simp only [noError, noEnd, if_false]
  split
  · rename_i typed
    refine ⟨_, rfl, ?_⟩
    rw [editChar, if_pos (by omega), if_pos (by omega), LineEdit.store, stored]
    exact editing.append (by omega) (by omega) _
  · rename_i untyped
    split
    · rename_i some
      have backspace : c = 0x08 := erases.mp some.1
      refine ⟨_, rfl, ?_⟩
      rw [backspace, editChar, if_neg (by decide), if_pos rfl]
      exact editing.dropLast _
    · rename_i kept
      refine ⟨line, rfl, ?_⟩
      have same : editChar 1023 text c = text := by
        rw [editChar]
        split
        · exact if_neg (by omega)
        · split
          · rename_i backspace
            have empty : text = [] := by
              apply List.length_eq_zero_iff.mp
              by_contra some
              exact kept ⟨erases.mpr backspace, by omega⟩
            rw [empty]
            rfl
          · rfl
      rwa [same]

variable (cputchar load line) in
theorem readlineChar_lineEnd (ends : c = char '\n' ∨ c = char '\r') :
    readlineChar cputchar load (c.setWidth 32) line =
      .ok ((line.echo cputchar (c.setWidth 32)).store 0, true) := by
  have control : ∀ c : Byte, c = char '\n' ∨ c = char '\r' → c.toNat < 0x20 ∧
      (c.setWidth 32 : Word) ≠ 0x08 ∧
        ((c.setWidth 32 : Word) = 0x0A ∨ (c.setWidth 32 : Word) = 0x0D) := by decide
  obtain ⟨low, noBackspace, last⟩ := control c ends
  have noError : ¬(c.toNat : Int) < 0 := by omega
  have untyped : ¬(0x20 : Int) ≤ c.toNat := by omega
  rw [readlineChar, toInt_byte, if_neg noError, if_neg (fun typed => untyped typed.1),
    if_neg (fun erases => noBackspace erases.1), if_pos last]

variable (cputchar load line) in
theorem readlineLoop_lineEnd (ends : c = char '\n' ∨ c = char '\r') (rest : List Byte) :
    readlineLoop cputchar load (c :: rest) line =
      .ok (.returned ((line.echo cputchar (c.setWidth 32)).store 0) rest) := by
  have some_ : c ≠ 0 := by
    rintro rfl
    exact absurd ends (by decide)
  rw [readlineLoop, if_neg some_, readlineChar_lineEnd cputchar load line ends]
  rfl

theorem editChar_nul (room : Nat) (text : List Byte) : editChar room text 0 = text := rfl

theorem readlineLoop_editing (editing : Editing buf line text) {inputs : List Byte}
    (goesOn : ∀ c ∈ inputs, c ≠ char '\n' ∧ c ≠ char '\r') :
    ∃ line', Editing buf line' (inputs.foldl (editChar 1023) text) ∧ ∀ rest,
      readlineLoop cputchar load (inputs ++ rest) line = readlineLoop cputchar load rest line' := by
  refine @readlineLoop_follows σ cputchar load
    (fun done line => Editing buf line (done.foldl (editChar 1023) text)) inputs line editing ?_ ?_
  · intro done line editing
    rw [List.foldl_append]
    exact editing
  · intro done c behind line split _ editing
    rw [List.foldl_append]
    exact readlineChar_edits cputchar load editing
      (goesOn c (split ▸ List.mem_append_right _ (List.mem_cons_self ..)))

theorem readlineLoop_edits (editing : Editing buf line text) {inputs : List Byte}
    (goesOn : ∀ c ∈ inputs, c ≠ char '\n' ∧ c ≠ char '\r')
    (ends : c = char '\n' ∨ c = char '\r') (rest : List Byte) :
    ∃ line', readlineLoop cputchar load (inputs ++ c :: rest) line = .ok (.returned line' rest) ∧
      HoldsLine buf line'.buf (inputs.foldl (editChar 1023) text) := by
  obtain ⟨last, editing', reads⟩ := readlineLoop_editing editing goesOn
  exact ⟨_, (reads _).trans (readlineLoop_lineEnd cputchar load last ends rest), editing'.holds⟩

/-- `readline` returns at the first newline, and its buffer holds the edited line. -/
theorem readline_edits {prompt : Word} {console console' : σ}
    (prompted : putPrompt cputchar load prompt console = .ok console') (buf : Nat → Byte)
    {inputs : List Byte} (goesOn : ∀ c ∈ inputs, c ≠ char '\n' ∧ c ≠ char '\r') {c : Byte}
    (ends : c = char '\n' ∨ c = char '\r') (rest : List Byte) :
    ∃ line, readline cputchar load prompt buf (inputs ++ c :: rest) console =
        .ok (.returned line rest) ∧
      HoldsLine buf line.buf (editLine inputs) := by
  rw [readline, prompted, ok_bind]
  exact readlineLoop_edits (.start buf console') goesOn ends rest

/-- `ab`, a backspace, a tab and `c` -/
theorem readline_edits_ac :
    ∃ line, readline Console.consPutc (fun _ => .ok 0) 0 (fun _ => 0xFF)
        ([char 'a', char 'b', 0x08, 0x09, char 'c'] ++ char '\n' :: []) ⟨fun _ => 0, 0, []⟩ =
        .ok (.returned line []) ∧
      HoldsLine (fun _ => 0xFF) line.buf
        (editLine [char 'a', char 'b', 0x08, 0x09, char 'c']) :=
  readline_edits rfl (fun _ => 0xFF) (by decide) (Or.inl rfl) []

end Editing

end FosV2
