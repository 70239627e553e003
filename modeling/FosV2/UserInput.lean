import FosV2.ChunkedOutput
import FosV2.FormatComposition
import FosV2.LiteralText
import FosV2.NumberRoundTrip
import FosV2.NumberWidth
import FosV2.ReadlineBounds
import FosV2.Typing

/-!
The program `user/fos_input.c`, from the keyboard to the calls of `sys_cputs`: two lines are read,
and the sum of their numbers is printed. The buffers have 256 bytes, where `readline` counts on
1024.
-/

namespace FosV2

/-! The console of a user program -/

/-- `cputchar` of `lib/console.c`, a call for each character -/
def userCputchar (calls : List (List Byte)) (ch : Word) : List (List Byte) :=
  calls ++ [[ch.setWidth 8]]

section Program

variable (stack : Nat → Byte) (load : Word → Except Stop Byte)

def userCprintf (fmt : List Byte) (ap : Arguments) (calls : List (List Byte)) :
    Except Stop (List (List Byte)) := do
  let (_, more) ← userVcprintf stack load fmt ap
  return calls ++ more

/-- `readline` with the console of the user programs. A character is not negative, so that the
message for an error is not printed. -/
def userReadline (prompt : Word) (buf : Nat → Byte) (inputs : List Byte)
    (calls : List (List Byte)) : Except Stop (LineRead (List (List Byte))) := do
  let calls ←
    if prompt ≠ 0 then userCprintf stack load ("%s".toList.map char) (fun _ => prompt) calls
    else .ok calls
  readlineLoop userCputchar load inputs ⟨0, buf, calls⟩

def bufferString (buf : Nat → Byte) : List Byte := (cputsBytes buf bufLen).takeWhile (· ≠ 0)

def sumFormat : List Byte := "number 1 + number 2 = %d\n".toList.map char

structure Summed where
  buff1 : Nat → Byte
  buff2 : Nat → Byte
  calls : List (List Byte)
  inputs : List Byte

/-- `_main`, up to its return; `none` while it waits for a line. -/
def fosInput (prompt1 prompt2 : Word) (buff1 buff2 : Nat → Byte) (inputs : List Byte) :
    Except Stop (Option Summed) := do
  match ← userReadline stack load prompt1 buff1 inputs [] with
  | .waiting _ => return none
  | .returned first inputs =>
      let i1 := (strtol (bufferString first.buf) 10).1
      match ← userReadline stack load prompt2 buff2 inputs first.console with
      | .waiting _ => return none
      | .returned second inputs =>
          let i2 := (strtol (bufferString second.buf) 10).1
          let calls ← userCprintf stack load sumFormat (fun _ => i1 + i2) second.console
          return some ⟨first.buf, second.buf, calls, inputs⟩

end Program

/-! What is echoed -/

/-- A full line drops what is typed, and an empty one a backspace. -/
def echoChar (text : List Byte) (c : Byte) : List Byte :=
  if 0x20 ≤ c.toNat ∧ text.length < 1023 ∨ c = 0x08 ∧ 0 < text.length then [c] else []

def echoed (text : List Byte) : List Byte → List Byte
  | [] => []
  | c :: inputs => echoChar text c ++ echoed (editChar 1023 text c) inputs

example : echoed [] ([0x08] ++ "1a".toList.map char ++ [0x08, 0x09, 0x08, 0x08]) =
    "1a".toList.map char ++ [0x08, 0x08] := by decide

theorem echoed_concat (text done : List Byte) (c : Byte) : echoed text (done ++ [c]) =
    echoed text done ++ echoChar (done.foldl (editChar 1023) text) c := by
  induction done generalizing text with
  | nil => simp [echoed]
  | cons first done ih => simp [echoed, ih]

section Ignored

theorem echoed_nonzero (text inputs : List Byte) :
    echoed text (nonzero inputs) = echoed text inputs := by
  induction inputs generalizing text with
  | nil => rfl
  | cons c inputs ih =>
      by_cases nul : c = 0
      · rw [nul, nonzero_cons_zero, ih]
        rfl
      · rw [nonzero_cons nul, echoed, echoed, ih]

theorem longest_nonzero (text inputs : List Byte) :
    longest text (nonzero inputs) = longest text inputs := by
  induction inputs generalizing text with
  | nil => rfl
  | cons c inputs ih =>
      by_cases nul : c = 0
      · have shown := longest_le_append text [] inputs
        rw [nul, nonzero_cons_zero, ih, longest, editChar_nul]
        exact (Nat.max_eq_right shown).symm
      · rw [nonzero_cons nul, longest, longest, ih]

theorem reach_nonzero (inputs : List Byte) : reach (nonzero inputs) = reach inputs := by
  rw [reach, reach, longest_nonzero, editLine_nonzero]

theorem nonzero_split {inputs before rest : List Byte} {c : Byte}
    (split : nonzero inputs = before ++ c :: rest) : ∃ first behind, inputs = first ++ c :: behind ∧
      nonzero first = before ∧ nonzero behind = rest := by
  obtain ⟨first, others, joined, front, back⟩ := List.filter_eq_append_iff.mp split
  obtain ⟨zeros, behind, joined', none, _, last⟩ := List.filter_eq_cons_iff.mp back
  refine ⟨first ++ zeros, behind, by rw [joined, joined', List.append_assoc], ?_, last⟩
  rw [nonzero, List.filter_append, front, List.filter_eq_nil_iff.mpr none, List.append_nil]

end Ignored

section Echo

variable {load : Word → Except Stop Byte} {buf : Nat → Byte}
  {line line' : LineEdit (List (List Byte))} {text inputs : List Byte} {c : Byte}

theorem userCputchar_flatten (calls : List (List Byte)) (c : Byte) :
    (userCputchar calls (c.setWidth 32)).flatten = calls.flatten ++ [c] := by
  rw [userCputchar, List.flatten_append, List.flatten_singleton, byte_of_word]

theorem readlineChar_echoes (editing : Editing buf line text)
    (goesOn : c ≠ char '\n' ∧ c ≠ char '\r')
    (read : readlineChar userCputchar load (c.setWidth 32) line = .ok (line', false)) :
    line'.console.flatten = line.console.flatten ++ echoChar text c := by
  have noEnd := not_lineEnd goesOn
  have noError : ¬(c.toNat : Int) < 0 := by omega
  have index := editing.index
  have room : bufLen - 1 = 1023 := rfl
  have same : ∀ c : Byte, (c.setWidth 32 : Word) = 0x08 ↔ c = 0x08 := by decide
  have backspace := same c
  rw [readlineChar, toInt_byte] at read
  simp only [noError, noEnd, if_false] at read
  rw [echoChar]
  split at read
  · rename_i typed
    cases read
    rw [if_pos (Or.inl ⟨by omega, by omega⟩)]
    exact userCputchar_flatten _ _
  · rename_i untyped
    split at read
    · rename_i erases
      cases read
      rw [if_pos (Or.inr ⟨backspace.mp erases.1, by omega⟩)]
      exact userCputchar_flatten _ _
    · rename_i kept
      cases read
      rw [if_neg, List.append_nil]
      rintro (typed | erases)
      · exact untyped ⟨by omega, by omega⟩
      · exact kept ⟨backspace.mpr erases.1, by omega⟩

theorem readlineLoop_echoes (start : Editing buf line [])
    (goesOn : ∀ c ∈ inputs, c ≠ char '\n' ∧ c ≠ char '\r')
    (ends : c = char '\n' ∨ c = char '\r') (rest : List Byte) :
    ∃ line', readlineLoop userCputchar load (inputs ++ c :: rest) line =
        .ok (.returned line' rest) ∧
      line'.console.flatten = line.console.flatten ++ (echoed [] inputs ++ [c]) := by
  let inv := fun (done : List Byte) (line' : LineEdit (List (List Byte))) =>
    Editing buf line' (done.foldl (editChar 1023) []) ∧
      line'.console.flatten = line.console.flatten ++ echoed [] done
  have ignored : ∀ done line', inv done line' → inv (done ++ [0]) line' := by
    rintro done line' ⟨editing, shown⟩
    have none : echoChar (done.foldl (editChar 1023) []) 0 = [] := by simp [echoChar]
    refine ⟨?_, ?_⟩
    · rw [List.foldl_append]
      exact editing
    · rw [echoed_concat, none, List.append_nil]
      exact shown
  have step : ∀ done c behind line', inputs = done ++ c :: behind → c ≠ 0 → inv done line' →
      ∃ next, readlineChar userCputchar load (c.setWidth 32) line' = .ok (next, false) ∧
        inv (done ++ [c]) next := by
    rintro done c behind line' split _ ⟨editing, shown⟩
    have here := goesOn c (split ▸ List.mem_append_right _ (List.mem_cons_self ..))
    obtain ⟨next, read, editing'⟩ := readlineChar_edits userCputchar load editing here
    refine ⟨next, read, ?_, ?_⟩
    · rw [List.foldl_append]
      exact editing'
    · rw [readlineChar_echoes editing here read, shown, echoed_concat, List.append_assoc]
  obtain ⟨last, ⟨_, shown⟩, reads⟩ :=
    readlineLoop_follows ⟨start, (List.append_nil _).symm⟩ ignored step
  refine ⟨_, (reads _).trans (readlineLoop_lineEnd userCputchar load last ends rest), ?_⟩
  rw [← List.append_assoc, ← shown]
  exact userCputchar_flatten _ _

end Echo

/-! What is printed -/

section Printed

variable {stack : Nat → Byte} {load : Word → Except Stop Byte} {calls : List (List Byte)}

theorem userCprintf_text {fmt : List Byte} {ap : Arguments} {text : List Byte}
    (shown : printed load fmt ap = .ok (text.map (BitVec.signExtend 32))) :
    ∃ calls', userCprintf stack load fmt ap calls = .ok calls' ∧
      calls'.flatten = calls.flatten ++ text := by
  obtain ⟨more, printed, bytes⟩ := userVcprintf_printed stack shown
  refine ⟨calls ++ more, ?_, ?_⟩
  · rw [userCprintf, printed]
    rfl
  · rw [List.flatten_append, bytes]
    exact congrArg (calls.flatten ++ ·) (textOf_signExtend text)

theorem printed_plainDecimal (load : Word → Except Stop Byte) (ap : Arguments) :
    printed load ("%d".toList.map char) ap =
      .ok ((decimal (ap 0).toInt).map (BitVec.signExtend 32)) := by
  have two : 1 < (10 : BitVec 64).toNat := by decide
  have most : (10 : BitVec 64).toNat ≤ 16 := by decide
  have wide : ((ap 0).signExtend 64).toInt = (ap 0).toInt :=
    BitVec.toInt_signExtend_of_le (by omega)
  have shown : putSigned record ((ap 0).signExtend 64) .start [] =
      .ok ((decimal (ap 0).toInt).map (BitVec.signExtend 32)) := by
    rw [putSigned, decimal, ← wide]
    by_cases negative : ((ap 0).signExtend 64).toInt < 0
    · have absolute := natAbs_toInt ((ap 0).signExtend 64)
      rw [if_pos negative] at absolute
      rw [if_pos negative, if_pos negative, putNumber_start _ two most, absolute]
      rfl
    · have absolute := natAbs_toInt ((ap 0).signExtend 64)
      rw [if_neg negative] at absolute
      rw [if_neg negative, if_neg negative, putNumber_start _ two most, absolute]
      rfl
  exact (vprintfmt_escape [char 'd'] rfl convert_decimal).trans shown

def sumText (sum : Int) : List Byte :=
  "number 1 + number 2 = ".toList.map char ++ (decimal sum ++ [char '\n'])

theorem plain_outside {text : List Byte} (plain : ∀ b ∈ text, b ≠ char '%' ∧ b ≠ 0) :
    0 ∉ text ∧ inEscape false text = false ∧ argumentWords none text = 0 := by
  induction text with
  | nil => exact ⟨List.not_mem_nil, rfl, rfl⟩
  | cons b text ih =>
      obtain ⟨literal, some_⟩ := plain b (List.mem_cons_self ..)
      obtain ⟨noNul, outside, none⟩ := ih fun b member => plain b (List.mem_cons_of_mem _ member)
      refine ⟨noNul_cons some_ noNul, ?_, ?_⟩
      · simpa [inEscape, literal] using outside
      · simpa [argumentWords, literal] using none

theorem printed_decimalBetween (load : Word → Except Stop Byte) (ap : Arguments)
    {first last : List Byte} (plain : ∀ b ∈ first ++ last, b ≠ char '%' ∧ b ≠ 0)
    (small : ∀ b ∈ first ++ last, b.toNat < 0x80) :
    printed load (first ++ ("%d".toList.map char ++ last)) ap =
      .ok ((first ++ (decimal (ap 0).toInt ++ last)).map (BitVec.signExtend 32)) := by
  have bytes : ∀ text ⊆ first ++ last,
      text.map (BitVec.setWidth 32) = text.map (BitVec.signExtend 32) := fun text part =>
    List.map_congr_left fun b member => (signExtend_small (small b (part member))).symm
  have before : ∀ b ∈ first, b ≠ char '%' ∧ b ≠ 0 :=
    fun b member => plain b (List.mem_append_left _ member)
  have behind : ∀ b ∈ last, b ≠ char '%' ∧ b ≠ 0 :=
    fun b member => plain b (List.mem_append_right _ member)
  obtain ⟨noNul, outside, none⟩ := plain_outside before
  have noNul' : 0 ∉ "%d".toList.map char := by decide
  have outside' : inEscape false ("%d".toList.map char) = false := by decide
  have noLast := (plain_outside behind).1
  have rest := printed_append noNul' outside' load ap noLast
  rw [printed_plainDecimal, printed_literal load _ behind, ok_bind, ok_bind,
    bytes last (List.subset_append_right first last)] at rest
  have start : ap.drop 0 = ap := rfl
  rw [printed_append noNul outside load ap (noNul_append noNul' noLast), none, start, rest,
    printed_literal load ap before, bytes first (List.subset_append_left first last), ok_bind,
    List.map_append, List.map_append]
  rfl

theorem printed_sumFormat (load : Word → Except Stop Byte) (ap : Arguments) :
    printed load sumFormat ap = .ok ((sumText (ap 0).toInt).map (BitVec.signExtend 32)) := by
  have pieces : sumFormat = "number 1 + number 2 = ".toList.map char ++
      ("%d".toList.map char ++ [char '\n']) := by decide
  rw [pieces]
  exact printed_decimalBetween load ap (by decide) (by decide)

end Printed

/-! What the buffers hold -/

theorem takeWhile_terminated {text bytes : List Byte}
    (holds : ∀ (k : Nat) c, text[k]? = some c → bytes[k]? = some c)
    (terminated : bytes[text.length]? = some 0) (nonNull : 0 ∉ text) :
    bytes.takeWhile (· ≠ 0) = text := by
  induction text generalizing bytes with
  | nil =>
      obtain ⟨rest, rfl⟩ : ∃ rest, bytes = 0 :: rest := by
        cases bytes with
        | nil => cases terminated
        | cons b rest => exact ⟨rest, by rw [Option.some.inj terminated]⟩
      rfl
  | cons c text ih =>
      rw [List.mem_cons, not_or] at nonNull
      cases bytes with
      | nil => cases terminated
      | cons b bytes =>
          have first : b = c := Option.some.inj (holds 0 c rfl)
          have others := ih (fun k => holds (k + 1)) terminated nonNull.2
          have some_ : b ≠ 0 := fun nul => nonNull.1 (nul.symm.trans first)
          rw [List.takeWhile_cons_of_pos (by simpa using some_), others, first]

theorem bufferString_of_holds {before buf : Nat → Byte} {text : List Byte}
    (holds : HoldsLine before buf text) : bufferString buf = text := by
  have room : bufLen = 1024 := rfl
  have short := holds.short
  have cell : ∀ k < bufLen, (cputsBytes buf bufLen)[k]? = some (buf k) := by
    intro k inside
    rw [cputsBytes, List.getElem?_map, List.getElem?_range inside]
    rfl
  apply takeWhile_terminated
  · intro k c found
    have inside := (List.getElem?_eq_some_iff.mp found).1
    rw [cell k (by omega), holds.bytes k c found]
  · rw [cell _ (by omega), holds.terminated]
  · intro nul
    exact absurd (holds.printable 0 nul) (by decide)

section Reading

variable {stack : Nat → Byte} {load : Word → Except Stop Byte} {prompt : Word} {s : List Byte}
  {inputs : List Byte} {c : Byte}

theorem userReadline_reads (string : StringAt load prompt s) (short : s.length < 2 ^ 31)
    (goesOn : ∀ c ∈ inputs, c ≠ char '\n' ∧ c ≠ char '\r')
    (ends : c = char '\n' ∨ c = char '\r') (room : reach inputs ≤ 256) (rest : List Byte)
    (buf : Nat → Byte) (calls : List (List Byte)) :
    ∃ line, userReadline stack load prompt buf (inputs ++ c :: rest) calls =
        .ok (.returned line rest) ∧
      bufferString line.buf = editLine inputs ∧ (∀ k, 256 ≤ k → line.buf k = buf k) ∧
      line.console.flatten = calls.flatten ++ s ++ (echoed [] inputs ++ [c]) := by
  have shown := @printed_string_argument load s (fun _ => prompt) string
  rw [spacesBehind, if_pos short, List.replicate_zero, List.append_nil] at shown
  obtain ⟨calls', prompted, text⟩ := @userCprintf_text stack load calls _ _ _ shown
  have start : Editing buf ⟨0, buf, calls'⟩ [] := .start buf calls'
  have untouched : Writes 256 0 buf ⟨0, buf, calls'⟩ :=
    ⟨fun _ _ => rfl, fun _ k below => absurd below (Nat.not_lt_zero k)⟩
  obtain ⟨line, returned, holds⟩ := @readlineLoop_edits _ userCputchar load _ _ _ _ start _ goesOn
    ends rest
  obtain ⟨line', returned', writes⟩ := @readlineLoop_writes _ userCputchar load _ _ _ _ _ start
    untouched goesOn ends rest room
  obtain ⟨line'', returned'', echo⟩ := @readlineLoop_echoes load _ _ _ _ start goesOn ends rest
  rw [returned] at returned' returned''
  cases returned'
  cases returned''
  refine ⟨line, ?_, bufferString_of_holds holds, writes.outside, ?_⟩
  · rw [userReadline, if_pos string.notNull, prompted, ok_bind]
    exact returned
  · rw [echo, text]

variable {prompt1 prompt2 : Word} {s1 s2 line1 line2 rest : List Byte} {c1 c2 : Byte}

theorem fosInput_reads (string1 : StringAt load prompt1 s1) (short1 : s1.length < 2 ^ 31)
    (string2 : StringAt load prompt2 s2) (short2 : s2.length < 2 ^ 31)
    (typed : nonzero inputs = line1 ++ c1 :: (line2 ++ c2 :: rest))
    (goesOn1 : ∀ c ∈ line1, c ≠ char '\n' ∧ c ≠ char '\r') (ends1 : c1 = char '\n' ∨ c1 = char '\r')
    (goesOn2 : ∀ c ∈ line2, c ≠ char '\n' ∧ c ≠ char '\r') (ends2 : c2 = char '\n' ∨ c2 = char '\r')
    (room1 : reach line1 ≤ 256) (room2 : reach line2 ≤ 256) (buff1 buff2 : Nat → Byte) :
    ∃ summed, fosInput stack load prompt1 prompt2 buff1 buff2 inputs = .ok (some summed) ∧
      summed.calls.flatten = s1 ++ (echoed [] line1 ++ [c1]) ++ s2 ++ (echoed [] line2 ++ [c2]) ++
        sumText ((strtol (editLine line1) 10).1 + (strtol (editLine line2) 10).1).toInt ∧
      nonzero summed.inputs = rest ∧
      ∀ k, 256 ≤ k → summed.buff1 k = buff1 k ∧ summed.buff2 k = buff2 k := by
  obtain ⟨first, others, split1, front1, back1⟩ := nonzero_split typed
  obtain ⟨second, behind, split2, front2, back2⟩ := nonzero_split back1
  subst split1 split2 front1 front2
  have goesOn : ∀ {bytes : List Byte}, (∀ c ∈ nonzero bytes, c ≠ char '\n' ∧ c ≠ char '\r') →
      ∀ c ∈ bytes, c ≠ char '\n' ∧ c ≠ char '\r' := by
    intro bytes all c member
    by_cases nul : c = 0
    · rw [nul]
      decide
    · exact all c (List.mem_filter.mpr ⟨member, by simpa using nul⟩)
  rw [reach_nonzero] at room1 room2
  obtain ⟨line, read1, text1, kept1, shown1⟩ := @userReadline_reads stack load _ _ _ _ string1
    short1 (goesOn goesOn1) ends1 room1 (second ++ c2 :: behind) buff1 []
  obtain ⟨line', read2, text2, kept2, shown2⟩ := @userReadline_reads stack load _ _ _ _ string2
    short2 (goesOn goesOn2) ends2 room2 behind buff2 line.console
  obtain ⟨calls, printed, text⟩ := @userCprintf_text stack load line'.console _ _ _
    (printed_sumFormat load fun _ =>
      (strtol (bufferString line.buf) 10).1 + (strtol (bufferString line'.buf) 10).1)
  refine ⟨⟨line.buf, line'.buf, calls, behind⟩, ?_, ?_, back2, fun k above =>
    ⟨kept1 k above, kept2 k above⟩⟩
  · rw [fosInput, read1, ok_bind]
    dsimp only
    rw [read2, ok_bind]
    dsimp only
    rw [printed]
    rfl
  · rw [text, shown2, shown1, text1, text2, echoed_nonzero, echoed_nonzero, editLine_nonzero,
      editLine_nonzero]
    rfl

end Reading

/-! From the keyboard -/

section Typed

variable {stack : Nat → Byte} {load : Word → Except Stop Byte} {prompt1 prompt2 : Word}
  {s1 s2 : List Byte} {input : Input} {polls : List (List Byte)}

/-- Whatever is typed, with as many keys edited away as one likes: the sum of the two lines, read as
numbers, is printed, if no line outgrows its buffer on the way. -/
theorem fosInput_sums {k : KeyState} {line1 line2 rest : List Byte} {c1 c2 : Byte}
    (string1 : StringAt load prompt1 s1) (short1 : s1.length < 2 ^ 31)
    (string2 : StringAt load prompt2 s2) (short2 : s2.length < 2 ^ 31)
    (empty : input.cons.Holds consBufSize []) (shows : Shows input.shift k)
    {events : List KeyboardEvent}
    (sent : polls.flatten = events.flatMap KeyboardEvent.scanCodes)
    (roomy : Roomy 0 input.shift polls) {idle : Nat} (enough : (k.text events).length ≤ idle)
    (typed : k.text events = line1 ++ c1 :: (line2 ++ c2 :: rest))
    (goesOn1 : ∀ c ∈ line1, c ≠ char '\n' ∧ c ≠ char '\r') (ends1 : c1 = char '\n' ∨ c1 = char '\r')
    (goesOn2 : ∀ c ∈ line2, c ≠ char '\n' ∧ c ≠ char '\r') (ends2 : c2 = char '\n' ∨ c2 = char '\r')
    (room1 : reach line1 ≤ 256) (room2 : reach line2 ≤ 256) (buff1 buff2 : Nat → Byte) :
    ∃ summed, fosInput stack load prompt1 prompt2 buff1 buff2
        (getcs input (polls ++ List.replicate idle [])) = .ok (some summed) ∧
      summed.calls.flatten = s1 ++ (echoed [] line1 ++ [c1]) ++ s2 ++ (echoed [] line2 ++ [c2]) ++
        sumText ((strtol (editLine line1) 10).1 + (strtol (editLine line2) 10).1).toInt ∧
      nonzero summed.inputs = rest ∧
      ∀ k, 256 ≤ k → summed.buff1 k = buff1 k ∧ summed.buff2 k = buff2 k :=
  fosInput_reads string1 short1 string2 short2
    ((getcs_typed empty shows sent roomy enough).trans typed) goesOn1 ends1 goesOn2 ends2 room1
    room2 buff1 buff2

/-! Two numbers -/

theorem decimal_bytes (m : Int) : ∀ c ∈ decimal m, Printable c := by
  have digits : ∀ c ∈ numeral 10 m.natAbs, Printable c := by
    intro c member
    obtain ⟨dig, small, value⟩ := isNumeral_numeral (by omega) (by omega) m.natAbs c member
    have table : ∀ c : Byte, digitValue c ≠ none → Printable c := by decide
    exact table c (by rw [value]; simp)
  intro c member
  rw [decimal] at member
  split at member
  · rcases List.mem_cons.mp member with rfl | digit
    · decide
    · exact digits c digit
  · exact digits c member

theorem strtol_decimal (m : Int) : (strtol (decimal m) 10).1 = BitVec.ofInt 32 m := by
  have read := @strtol_padded 10 (char ' ') (Or.inl rfl) (Or.inl rfl) 0 m.natAbs
  rw [List.replicate_zero, List.nil_append] at read
  rw [decimal]
  split
  · rename_i negative
    have digits := @strtolDigits_numeral 10 (by omega) (by omega) m.natAbs []
    rw [List.append_nil] at digits
    rw [strtol_minus, digits]
    have value : m = -(m.natAbs : Int) := by omega
    conv_rhs => rw [value, BitVec.ofInt_neg, BitVec.ofInt_natCast]
    rfl
  · rename_i positive
    have value : m = (m.natAbs : Int) := by omega
    rw [read]
    conv_rhs => rw [value, BitVec.ofInt_natCast]

theorem echoed_printable {text line : List Byte} (short : text.length + line.length ≤ 1023)
    (printable : ∀ c ∈ line, Printable c) : echoed text line = line := by
  induction line generalizing text with
  | nil => rfl
  | cons c line ih =>
      rw [List.length_cons] at short
      have isText := (printable c (List.mem_cons_self ..)).1
      have kept : editChar 1023 text c = text ++ [c] := by
        rw [editChar, if_pos isText, if_pos (by omega)]
      have length : (text ++ [c]).length = text.length + 1 := List.length_append
      rw [echoed, kept, echoChar, if_pos (Or.inl ⟨isText, by omega⟩),
        ih (by omega) fun c member => printable c (List.mem_cons_of_mem _ member)]
      rfl

/-- Two numbers of any size that are typed come out as their sum, wrapped to an `int`. -/
theorem fosInput_adds (caps : Bool) (m n : Int) (fits1 : (decimal m).length ≤ 255)
    (fits2 : (decimal n).length ≤ 255) (string1 : StringAt load prompt1 s1)
    (short1 : s1.length < 2 ^ 31) (string2 : StringAt load prompt2 s2) (short2 : s2.length < 2 ^ 31)
    (empty : input.cons.Holds consBufSize []) (shows : Shows input.shift (atRest caps))
    (sent : polls.flatten =
      ([decimal m, decimal n].flatMap (typeLine caps)).flatMap KeyboardEvent.scanCodes)
    (roomy : Roomy 0 input.shift polls) {idle : Nat}
    (enough : (typedText [decimal m, decimal n]).length ≤ idle) (buff1 buff2 : Nat → Byte) :
    ∃ summed, fosInput stack load prompt1 prompt2 buff1 buff2
        (getcs input (polls ++ List.replicate idle [])) = .ok (some summed) ∧
      summed.calls.flatten = s1 ++ (decimal m ++ [char '\n']) ++ s2 ++ (decimal n ++ [char '\n']) ++
        sumText ((m + n).bmod (2 ^ 32)) ∧
      ∀ k, 256 ≤ k → summed.buff1 k = buff1 k ∧ summed.buff2 k = buff2 k := by
  have isText : ∀ line ∈ [decimal m, decimal n], ∀ c ∈ line, Printable c := by
    intro line member
    rcases List.mem_pair.mp member with rfl | rfl
    · exact decimal_bytes m
    · exact decimal_bytes n
  have text := @typedText_text caps [decimal m, decimal n] isText
  have typed := getcs_typed empty shows sent roomy (text ▸ enough)
  have lines : typedText [decimal m, decimal n] =
      decimal m ++ char '\n' :: (decimal n ++ char '\n' :: []) := by
    simp [typedText]
  rw [text, lines] at typed
  have goesOn (i : Int) : ∀ c ∈ decimal i, c ≠ char '\n' ∧ c ≠ char '\r' :=
    fun c member => (decimal_bytes i c member).goesOn
  obtain ⟨summed, returns, output, _, kept⟩ := @fosInput_reads stack load _ _ _ _ _ _ _ _ _ _
    string1 short1 string2 short2 typed (goesOn m) (Or.inl rfl) (goesOn n) (Or.inl rfl)
    ((reach_le_length _).trans (by omega)) ((reach_le_length _).trans (by omega)) buff1 buff2
  refine ⟨summed, returns, ?_, kept⟩
  have echo (i : Int) (fits : (decimal i).length ≤ 255) : echoed [] (decimal i) = decimal i :=
    echoed_printable (by rw [List.length_nil]; omega) (decimal_bytes i)
  have line (i : Int) (fits : (decimal i).length ≤ 255) : editLine (decimal i) = decimal i :=
    editLine_printable (by omega) (decimal_bytes i)
  have wrapped : (BitVec.ofInt 32 m + BitVec.ofInt 32 n).toInt = (m + n).bmod (2 ^ 32) := by
    rw [← BitVec.ofInt_add, BitVec.toInt_ofInt]
  rw [output, echo m fits1, echo n fits2, line m fits1, line n fits2, strtol_decimal,
    strtol_decimal, wrapped]

/-! The two prompts at the start of two pages -/

def prompt1Text : List Byte := "Please enter first number :".toList.map char

def prompt2Text : List Byte := "Please enter second number :".toList.map char

def promptMemory (a : Word) : Except Stop Byte :=
  if a.toNat < 8192 then textMemory 4096 prompt1Text a else textMemory 8192 prompt2Text a

theorem stringAt_prompt1 : StringAt promptMemory 4096 prompt1Text := by
  have alone : StringAt (textMemory 4096 prompt1Text) 4096 prompt1Text :=
    stringAt_textMemory (by decide) (by decide) (by decide)
  have length : prompt1Text.length = 27 := by decide
  have here (i : Nat) (inside : i ≤ 27) : promptMemory (4096 + BitVec.ofNat 32 i) =
      textMemory 4096 prompt1Text (4096 + BitVec.ofNat 32 i) := if_pos (by bv_omega)
  refine ⟨alone.notNull, fun i ch found => ?_, ?_⟩
  · have inside := (List.getElem?_eq_some_iff.mp found).1
    rw [here i (by omega)]
    exact alone.bytes i ch found
  · rw [here _ (by omega)]
    exact alone.nul

theorem stringAt_prompt2 : StringAt promptMemory 8192 prompt2Text := by
  have alone : StringAt (textMemory 8192 prompt2Text) 8192 prompt2Text :=
    stringAt_textMemory (by decide) (by decide) (by decide)
  have length : prompt2Text.length = 28 := by decide
  have here (i : Nat) (inside : i ≤ 28) : promptMemory (8192 + BitVec.ofNat 32 i) =
      textMemory 8192 prompt2Text (8192 + BitVec.ofNat 32 i) := if_neg (by bv_omega)
  refine ⟨alone.notNull, fun i ch found => ?_, ?_⟩
  · have inside := (List.getElem?_eq_some_iff.mp found).1
    rw [here i (by omega)]
    exact alone.bytes i ch found
  · rw [here _ (by omega)]
    exact alone.nul

def typedSum : List KeyboardEvent :=
  [⟨false, 0x02, by decide⟩, ⟨false, 0x2D, by decide⟩, ⟨false, 0x0E, by decide⟩, keyEnter,
    ⟨false, 0x03, by decide⟩, keyEnter].flatMap fun key => [.press key, .release key]

theorem fosInput_sums_edited : ∃ summed, fosInput (fun _ => 0) promptMemory 4096 8192 (fun _ => 0)
      (fun _ => 0) (getcs ⟨0, emptyCons⟩ ([typedSum.flatMap KeyboardEvent.scanCodes] ++
        List.replicate 6 [])) = .ok (some summed) ∧
    summed.calls.flatten = prompt1Text ++ ("1x".toList.map char ++ [0x08, char '\n']) ++
      prompt2Text ++ ("2".toList.map char ++ [char '\n']) ++ sumText 3 := by
  have text : (atRest false).text typedSum =
      [char '1', char 'x', 0x08] ++ char '\n' :: ([char '2'] ++ char '\n' :: []) := by decide
  obtain ⟨summed, returns, output, _⟩ := @fosInput_sums (fun _ => 0) promptMemory 4096 8192
    prompt1Text prompt2Text ⟨0, emptyCons⟩ [typedSum.flatMap KeyboardEvent.scanCodes] (atRest false)
    _ _ _ _ _ stringAt_prompt1 (by decide) stringAt_prompt2 (by decide) emptyCons_holds shows_boot
    typedSum (List.flatten_singleton ..) ⟨by decide, trivial⟩ 6 (by decide) text (by decide)
    (Or.inl rfl) (by decide) (Or.inl rfl) (by decide) (by decide) (fun _ => 0) (fun _ => 0)
  have sum : ((strtol (editLine [char '1', char 'x', 0x08]) 10).1 +
      (strtol (editLine [char '2']) 10).1).toInt = 3 := by decide
  rw [sum] at output
  exact ⟨summed, returns, output⟩

/-- The second number is negative, and `CapsLock` is on. -/
theorem fosInput_adds_negative : ∃ summed, fosInput (fun _ => 0) promptMemory 4096 8192 (fun _ => 0)
      (fun _ => 0) (getcs ⟨0x08, emptyCons⟩ ([[0x02, 0x82, 0x03, 0x83, 0x1C, 0x9C],
        [0x0C, 0x8C, 0x03, 0x83, 0x0B, 0x8B, 0x1C, 0x9C]] ++ List.replicate 7 [])) =
        .ok (some summed) ∧
    summed.calls.flatten = prompt1Text ++ ("12".toList.map char ++ [char '\n']) ++ prompt2Text ++
      ("-20".toList.map char ++ [char '\n']) ++ sumText (-8) := by
  have first : decimal 12 = "12".toList.map char := by decide
  have second : decimal (-20) = "-20".toList.map char := by decide
  have caps : Shows 0x08 (atRest true) := ⟨by decide, by decide, by decide, by decide, by decide⟩
  obtain ⟨summed, returns, output, _⟩ := @fosInput_adds (fun _ => 0) promptMemory 4096 8192
    prompt1Text prompt2Text ⟨0x08, emptyCons⟩ [[0x02, 0x82, 0x03, 0x83, 0x1C, 0x9C],
      [0x0C, 0x8C, 0x03, 0x83, 0x0B, 0x8B, 0x1C, 0x9C]] true 12 (-20) (by decide) (by decide)
    stringAt_prompt1 (by decide) stringAt_prompt2 (by decide) emptyCons_holds caps (by decide)
    ⟨by decide, by decide, trivial⟩ 7 (by decide) (fun _ => 0) (fun _ => 0)
  have sum : ((12 : Int) + -20).bmod (2 ^ 32) = -8 := by decide
  rw [first, second, sum] at output
  exact ⟨summed, returns, output⟩

end Typed

end FosV2
