import FosV2.ReferenceLineEdit

/-!
How far `readline` writes into its buffer. It knows of 1024 bytes only; the programs that pass
fewer rely on what is typed, and a line that has been longer for a while counts as well.
-/

namespace FosV2

def longest (text : List Byte) : List Byte → Nat
  | [] => text.length
  | c :: inputs => max text.length (longest (editChar 1023 text c) inputs)

def reach (inputs : List Byte) : Nat := max (longest [] inputs) ((editLine inputs).length + 1)

example : reach ("ab".toList.map char ++ [0x08, 0x08]) = 2 := by decide

theorem length_editChar (text : List Byte) (c : Byte) :
    (editChar 1023 text c).length ≤ max text.length 1023 := by
  rw [editChar]
  split
  · split
    · simp only [List.length_append, List.length_singleton]
      omega
    · omega
  · split
    · rw [List.length_dropLast]
      omega
    · omega

theorem longest_le {text : List Byte} (short : text.length ≤ 1023) (inputs : List Byte) :
    longest text inputs ≤ 1023 := by
  induction inputs generalizing text with
  | nil => exact short
  | cons c inputs ih =>
      have next := length_editChar text c
      have later := ih (by omega : (editChar 1023 text c).length ≤ 1023)
      rw [longest]
      omega

theorem longest_concat (text done : List Byte) (c : Byte) : longest text (done ++ [c]) =
    max (longest text done) ((done ++ [c]).foldl (editChar 1023) text).length := by
  induction done generalizing text with
  | nil => rfl
  | cons first done ih =>
      rw [List.cons_append, longest, ih, longest, Nat.max_assoc]
      rfl

theorem longest_le_append (text done behind : List Byte) :
    longest text done ≤ longest text (done ++ behind) := by
  induction done generalizing text with
  | nil =>
      cases behind with
      | nil => exact Nat.le_refl _
      | cons c behind => exact Nat.le_max_left _ _
  | cons first done ih =>
      have later := ih (editChar 1023 text first)
      rw [List.cons_append, longest, longest]
      omega

theorem last_le_longest (text inputs : List Byte) :
    (inputs.foldl (editChar 1023) text).length ≤ longest text inputs := by
  induction inputs generalizing text with
  | nil => exact Nat.le_refl _
  | cons c inputs ih => exact (ih (editChar 1023 text c)).trans (Nat.le_max_right _ _)

/-- A buffer of 1024 bytes is always long enough. -/
theorem reach_le (inputs : List Byte) : reach inputs ≤ 1024 := by
  have most := @longest_le [] (Nat.zero_le _) inputs
  have last : (editLine inputs).length ≤ longest [] inputs := last_le_longest [] inputs
  rw [reach]
  omega

theorem longest_le_length (text inputs : List Byte) :
    longest text inputs ≤ text.length + inputs.length := by
  induction inputs generalizing text with
  | nil => exact Nat.le_refl _
  | cons c inputs ih =>
      have later := ih (editChar 1023 text c)
      have longer : (editChar 1023 text c).length ≤ text.length + 1 := by
        rw [editChar]
        split
        · split
          · simp
          · omega
        · split
          · rw [List.length_dropLast]
            omega
          · omega
      rw [longest, List.length_cons]
      omega

theorem reach_le_length (inputs : List Byte) : reach inputs ≤ inputs.length + 1 := by
  have most := longest_le_length [] inputs
  have last : (editLine inputs).length ≤ longest [] inputs := last_le_longest [] inputs
  rw [List.length_nil] at most
  rw [reach]
  omega

section Writes

variable {σ : Type} {cputchar : σ → Word → σ} {load : Word → Except Stop Byte}
  {buf : Nat → Byte} {line line' : LineEdit σ} {text inputs : List Byte} {c : Byte} {size m : Nat}

theorem readlineChar_buf (editing : Editing buf line text)
    (goesOn : c ≠ char '\n' ∧ c ≠ char '\r')
    (read : readlineChar cputchar load (c.setWidth 32) line = .ok (line', false)) :
    line'.buf = line.buf ∧ (editChar 1023 text c).length ≤ text.length ∨
      0x20 ≤ c.toNat ∧ line'.buf = Function.update line.buf text.length c ∧
        (editChar 1023 text c).length = text.length + 1 := by
  have stored := byte_of_word c
  have noEnd := not_lineEnd goesOn
  have noError : ¬(c.toNat : Int) < 0 := by omega
  have index := editing.index
  have room : bufLen - 1 = 1023 := rfl
  rw [readlineChar, toInt_byte] at read
  simp only [noError, noEnd, if_false] at read
  split at read
  · rename_i typed
    cases read
    refine Or.inr ⟨by omega, ?_, ?_⟩
    · simp only [LineEdit.store, stored, ← index]
      rfl
    · rw [editChar, if_pos (by omega), if_pos (by omega)]
      simp
  · rename_i untyped
    have shorter : (editChar 1023 text c).length ≤ text.length := by
      rw [editChar]
      split
      · rw [if_neg (by omega)]
      · split
        · rw [List.length_dropLast]
          omega
        · exact Nat.le_refl _
    left
    split at read
    · cases read
      exact ⟨rfl, shorter⟩
    · cases read
      exact ⟨rfl, shorter⟩

structure Writes (size m : Nat) (buf : Nat → Byte) (line : LineEdit σ) : Prop where
  outside : ∀ k, size ≤ k → line.buf k = buf k
  written : (∀ k, buf k = 1) → ∀ k < m, line.buf k ≠ 1

/-- 1 is a byte that is never stored. -/
theorem Writes.store (writes : Writes size m buf line) {i : Nat} (inside : i < size) {b : Byte}
    (other : b ≠ 1) (console : σ) (next : Nat) (new : i ≤ m) :
    Writes size (max m (i + 1)) buf ⟨next, Function.update line.buf i b, console⟩ := by
  constructor
  · intro k above
    dsimp only
    rw [Function.update_of_ne (by omega)]
    exact writes.outside k above
  · intro ones k below
    dsimp only
    by_cases here : k = i
    · rw [here, Function.update_self]
      exact other
    · rw [Function.update_of_ne here]
      exact writes.written ones k (by omega)

theorem Writes.mono (writes : Writes size m buf line) {m' : Nat} (fewer : m' ≤ m) :
    Writes size m' buf line :=
  ⟨writes.outside, fun ones k below => writes.written ones k (Nat.lt_of_lt_of_le below fewer)⟩

theorem readlineChar_writes (editing : Editing buf line text) (writes : Writes size m buf line)
    (behind : text.length ≤ m) (goesOn : c ≠ char '\n' ∧ c ≠ char '\r')
    (room : (editChar 1023 text c).length ≤ size)
    (read : readlineChar cputchar load (c.setWidth 32) line = .ok (line', false)) :
    Writes size (max m (editChar 1023 text c).length) buf line' := by
  rcases readlineChar_buf editing goesOn read with ⟨same, shorter⟩ | ⟨printable, stored, longer⟩
  · have all : Writes size m buf line' := by
      constructor
      · rw [same]
        exact writes.outside
      · rw [same]
        exact writes.written
    exact all.mono (by omega)
  · have other : c ≠ 1 := by
      rintro rfl
      exact absurd printable (by decide)
    have next := writes.store (by omega : text.length < size) other line'.console line'.i behind
    rw [longer]
    constructor
    · rw [stored]
      exact next.outside
    · rw [stored]
      exact next.written

theorem readlineLoop_writes (start : Editing buf line []) (before : Writes size 0 buf line)
    (goesOn : ∀ c ∈ inputs, c ≠ char '\n' ∧ c ≠ char '\r')
    (ends : c = char '\n' ∨ c = char '\r') (rest : List Byte) (room : reach inputs ≤ size) :
    ∃ line', readlineLoop cputchar load (inputs ++ c :: rest) line = .ok (.returned line' rest) ∧
      Writes size (reach inputs) buf line' := by
  let inv := fun (done : List Byte) (line : LineEdit σ) =>
    Editing buf line (done.foldl (editChar 1023) []) ∧ Writes size (longest [] done) buf line
  have ignored : ∀ done line, inv done line → inv (done ++ [0]) line := by
    rintro done line ⟨editing, writes⟩
    have shown := last_le_longest [] done
    have same : (done ++ [0]).foldl (editChar 1023) [] = done.foldl (editChar 1023) [] :=
      List.foldl_append
    refine ⟨same ▸ editing, writes.mono ?_⟩
    rw [longest_concat, same]
    exact Nat.max_le.mpr ⟨Nat.le_refl _, shown⟩
  have step : ∀ done c behind line, inputs = done ++ c :: behind → c ≠ 0 → inv done line →
      ∃ line', readlineChar cputchar load (c.setWidth 32) line = .ok (line', false) ∧
        inv (done ++ [c]) line' := by
    rintro done c behind line split _ ⟨editing, writes⟩
    have here := goesOn c (split ▸ List.mem_append_right _ (List.mem_cons_self ..))
    have upto : longest [] (done ++ [c]) ≤ size := by
      have grows := longest_le_append [] (done ++ [c]) behind
      rw [← List.append_cons, ← split] at grows
      exact Nat.le_trans (Nat.le_trans grows (Nat.le_max_left _ _)) room
    obtain ⟨next, read, editing'⟩ := readlineChar_edits cputchar load editing here
    rw [longest_concat, List.foldl_append] at upto
    have writes' := readlineChar_writes editing writes (last_le_longest [] done) here
      (Nat.le_trans (Nat.le_max_right _ _) upto) read
    refine ⟨next, read, ?_, ?_⟩
    · rw [List.foldl_append]
      exact editing'
    · rw [longest_concat, List.foldl_append]
      exact writes'
  obtain ⟨last, ⟨editing, writes⟩, reads⟩ := readlineLoop_follows ⟨start, before⟩ ignored step
  have index := editing.index
  have inside : last.i < size := by
    rw [reach, editLine, ← index] at room
    omega
  have stored := writes.store inside (by decide : (0 : Byte) ≠ 1)
    (last.echo cputchar (c.setWidth 32)).console last.i (index ▸ last_le_longest [] inputs)
  refine ⟨_, (reads _).trans (readlineLoop_lineEnd cputchar load last ends rest), ?_⟩
  rw [reach, editLine, ← index]
  exact stored

/-- `readline` writes to the first `reach` bytes of its buffer, and to no others. -/
theorem readline_writes {prompt : Word} {console console' : σ}
    (prompted : putPrompt cputchar load prompt console = .ok console') (buf : Nat → Byte)
    (goesOn : ∀ c ∈ inputs, c ≠ char '\n' ∧ c ≠ char '\r') (ends : c = char '\n' ∨ c = char '\r')
    (rest : List Byte) :
    ∃ line, readline cputchar load prompt buf (inputs ++ c :: rest) console =
        .ok (.returned line rest) ∧ Writes (reach inputs) (reach inputs) buf line := by
  have start : Writes (reach inputs) 0 buf ⟨0, buf, console'⟩ :=
    ⟨fun _ _ => rfl, fun _ k below => absurd below (Nat.not_lt_zero k)⟩
  obtain ⟨line, returned, writes⟩ := @readlineLoop_writes σ cputchar load buf ⟨0, buf, console'⟩
    inputs c (reach inputs) (.start buf console') start goesOn ends rest (Nat.le_refl _)
  refine ⟨line, ?_, writes⟩
  rw [readline, prompted, ok_bind]
  exact returned

/-- Whatever a buffer of `size` bytes held, and what lies behind it, `readline` stays in it exactly
if the line is never longer, not even before it is shortened again, and leaves room for its NUL. -/
theorem readline_stays_iff {prompt : Word} {console console' : σ}
    (prompted : putPrompt cputchar load prompt console = .ok console')
    (goesOn : ∀ c ∈ inputs, c ≠ char '\n' ∧ c ≠ char '\r') (ends : c = char '\n' ∨ c = char '\r')
    (rest : List Byte) (size : Nat) :
    (∀ buf, ∃ line, readline cputchar load prompt buf (inputs ++ c :: rest) console =
        .ok (.returned line rest) ∧ ∀ k, size ≤ k → line.buf k = buf k) ↔
      reach inputs ≤ size := by
  constructor
  · intro stays
    obtain ⟨line, returned, kept⟩ := stays fun _ => 1
    obtain ⟨line', returned', writes⟩ := readline_writes prompted (fun _ => 1) goesOn ends rest
    rw [returned] at returned'
    cases returned'
    by_contra short
    exact writes.written (fun _ => rfl) size (Nat.not_le.mp short) (kept size (Nat.le_refl _))
  · intro enough buf
    obtain ⟨line, returned, writes⟩ := readline_writes prompted buf goesOn ends rest
    exact ⟨line, returned, fun k above => writes.outside k (Nat.le_trans enough above)⟩

/-- Two characters and two backspaces need two bytes. -/
theorem readline_stays_iff_erased :
    (∀ buf, ∃ line, readline Console.consPutc (fun _ => .ok 0) 0 buf
        ([char 'a', char 'b', 0x08, 0x08] ++ char '\n' :: []) ⟨fun _ => 0, 0, []⟩ =
        .ok (.returned line []) ∧ ∀ k, 1 ≤ k → line.buf k = buf k) ↔
      reach [char 'a', char 'b', 0x08, 0x08] ≤ 1 :=
  readline_stays_iff rfl (by decide) (Or.inl rfl) [] 1

end Writes

end FosV2
