import FosV2.FormatLoop

/-!
Formats one behind the other. What `vprintfmt` prints of a format does not depend on what
follows it, unless the format ends inside an escape.
-/

namespace FosV2

/-! The words that a format takes from the stack -/

def conversionWords (ch : Byte) (flags : List Byte) : Nat :=
  if ch = char 'o' ∨ ch = char '%' then 0
  else if (ch = char 'd' ∨ ch = char 'u' ∨ ch = char 'x') ∧
      2 ≤ (BitVec.ofNat 32 (flags.count (char 'l'))).toInt then 2
  else 1

def argumentWords : Option (List Byte) → List Byte → Nat
  | _, [] => 0
  | none, ch :: rest => argumentWords (if ch = char '%' then some [] else none) rest
  | some flags, ch :: rest =>
      if isFlag ch then argumentWords (some (flags ++ [ch])) rest
      else
        taken flags + (if conversions.contains ch then conversionWords ch flags else 0) +
          argumentWords none rest

def inEscape : Bool → List Byte → Bool
  | inside, [] => inside
  | inside, ch :: rest => inEscape (if inside then isFlag ch else ch = char '%') rest

example : inEscape false ("%08lld of %s".toList.map char) = false ∧
    argumentWords none ("%08lld of %s".toList.map char) = 3 := by decide

theorem argumentWords_flags {flags : List Byte} (all : ∀ b ∈ flags, isFlag b = true) {ch : Byte}
    (ends : isFlag ch = false) (before rest : List Byte) :
    argumentWords (some before) (flags ++ ch :: rest) =
      taken (before ++ flags) +
        (if conversions.contains ch then conversionWords ch (before ++ flags) else 0) +
          argumentWords none rest := by
  induction flags generalizing before with
  | nil => simp [argumentWords, ends]
  | cons first flags ih =>
      have others : ∀ b ∈ flags, isFlag b = true :=
        fun b member => all b (List.mem_cons_of_mem _ member)
      simp [argumentWords, all first (List.mem_cons_self ..), ih others]

theorem inEscape_flags {flags : List Byte} (all : ∀ b ∈ flags, isFlag b = true)
    (rest : List Byte) : inEscape true (flags ++ rest) = inEscape true rest := by
  induction flags with
  | nil => rfl
  | cons first flags ih =>
      have others : ∀ b ∈ flags, isFlag b = true :=
        fun b member => all b (List.mem_cons_of_mem _ member)
      simp [inEscape, all first (List.mem_cons_self ..), ih others]

/-! The flags, wherever they stand -/

def Escape.withFlag (escape : Escape) (ap : Arguments) (ch : Byte) : Escape :=
  if ch = char '-' then { escape with padc := char '-' }
  else if ch = char '0' then { escape with padc := char '0' }
  else if ch = char '*' then { escape with precision := ap 0 }.processPrecision
  else if ch = char '.' then
    if escape.width.toInt < 0 then { escape with width := 0 } else escape
  else if ch = char '#' then { escape with altflag := true }
  else { escape with lflag := escape.lflag + 1 }

@[simp] theorem lflag_processPrecision (escape : Escape) :
    escape.processPrecision.lflag = escape.lflag := by
  rw [Escape.processPrecision]
  split <;> rfl

theorem lflag_withFlag {ch : Byte} (flag : isFlag ch = true)
    (noNumber : isBetween (char '1') (char '9') ch = false) (escape : Escape) (ap : Arguments) :
    (escape.withFlag ap ch).lflag =
      escape.lflag + BitVec.ofNat 32 (List.count (char 'l') [ch]) := by
  rcases flag_cases flag with rfl | rfl | number | rfl | rfl | rfl | rfl
  · exact (BitVec.add_zero _).symm
  · exact (BitVec.add_zero _).symm
  · rw [number] at noNumber
    cases noNumber
  · exact (lflag_processPrecision _).trans (BitVec.add_zero _).symm
  · refine Eq.trans ?_ (BitVec.add_zero _).symm
    change (if escape.width.toInt < 0 then { escape with width := 0 } else escape).lflag = _
    split <;> rfl
  · exact (BitVec.add_zero _).symm
  · rfl

theorem reswitch_withFlag {ch : Byte} (flag : isFlag ch = true)
    (noNumber : isBetween (char '1') (char '9') ch = false) (fuel : Nat)
    (before rest : List Byte) (ap : Arguments) (escape : Escape) :
    reswitch (fuel + 1) ⟨before, ch :: rest⟩ ap escape =
      reswitch fuel ⟨ch :: before, rest⟩ (ap.drop (taken [ch])) (escape.withFlag ap ch) := by
  rcases flag_cases flag with rfl | rfl | number | rfl | rfl | rfl | rfl
  · rfl
  · rfl
  · rw [number] at noNumber
    cases noNumber
  · rfl
  · change (if escape.width.toInt < 0
      then reswitch fuel ⟨char '.' :: before, rest⟩ ap { escape with width := 0 }
      else reswitch fuel ⟨char '.' :: before, rest⟩ ap escape) =
        reswitch fuel ⟨char '.' :: before, rest⟩ (ap.drop 0)
          (if escape.width.toInt < 0 then { escape with width := 0 } else escape)
    split <;> rfl
  · rfl
  · rfl

def ReadsFlags (flags : List Byte) (ap : Arguments) (escape escape' : Escape) : Prop :=
  ∀ ch, isFlag ch = false → ∀ fuel before rest, flags.length < fuel →
    reswitch fuel ⟨before, flags ++ ch :: rest⟩ ap escape =
      .ok (ch, ⟨ch :: (flags.reverse ++ before), rest⟩, ap.drop (taken flags), escape')

theorem readNumber_digitsOnly {flags : List Byte} (all : ∀ b ∈ flags, isFlag b = true)
    (precision : Word) (ch : Byte) :
    ∃ precision' digits others, flags = digits ++ others ∧ taken digits = 0 ∧
      digits.count (char 'l') = 0 ∧ ∀ last, isFlag last = false → ∀ before rest,
        readNumber precision ch before (flags ++ last :: rest) =
          .ok (precision', ⟨digits.reverse ++ before, others ++ last :: rest⟩) := by
  induction flags generalizing precision ch with
  | nil =>
      refine ⟨precision * 10 + (ch - char '0').setWidth 32, [], [], rfl, rfl, rfl, ?_⟩
      intro last ends before rest
      have noDigit : isBetween (char '0') (char '9') last = false := by
        revert last
        decide
      simp [readNumber, noDigit]
  | cons next flags ih =>
      cases digit : isBetween (char '0') (char '9') next with
      | false =>
          refine ⟨precision * 10 + (ch - char '0').setWidth 32, [], next :: flags, rfl, rfl, rfl, ?_⟩
          intro last _ before rest
          simp [readNumber, digit]
      | true =>
          obtain ⟨precision', digits, others, same, none, noLong, read⟩ :=
            ih (fun b member => all b (List.mem_cons_of_mem _ member))
              (precision * 10 + (ch - char '0').setWidth 32) next
          have noFlag : next ≠ char '*' ∧ next ≠ char 'l' := by
            constructor
            · rintro rfl
              exact absurd digit (by decide)
            · rintro rfl
              exact absurd digit (by decide)
          refine ⟨precision', next :: digits, others, congrArg (next :: ·) same, ?_, ?_, ?_⟩
          · rw [taken, List.count_cons_of_ne noFlag.1]
            exact none
          · rw [List.count_cons_of_ne noFlag.2]
            exact noLong
          · intro last ends before rest
            rw [List.cons_append, readNumber, if_pos digit, read last ends]
            simp

theorem readsFlags (n : Nat) {flags : List Byte} (short : flags.length ≤ n)
    (all : ∀ b ∈ flags, isFlag b = true) (ap : Arguments) (escape : Escape) :
    ∃ escape', escape'.lflag = escape.lflag + BitVec.ofNat 32 (flags.count (char 'l')) ∧
      ReadsFlags flags ap escape escape' := by
  induction n generalizing flags ap escape with
  | zero =>
      obtain rfl := List.length_eq_zero_iff.mp (Nat.le_zero.mp short)
      refine ⟨escape, (BitVec.add_zero _).symm, fun ch ends fuel before rest enough => ?_⟩
      obtain ⟨less, rfl⟩ := Nat.exists_eq_succ_of_ne_zero (Nat.ne_of_gt enough)
      exact reswitch_end ends less before rest ap escape
  | succ n ih =>
      cases flags with
      | nil => exact @ih [] (Nat.zero_le n) all ap escape
      | cons first flags =>
          have others : ∀ b ∈ flags, isFlag b = true :=
            fun b member => all b (List.mem_cons_of_mem _ member)
          have flag := all first (List.mem_cons_self ..)
          have split : taken (first :: flags) = taken [first] + taken flags :=
            taken_append [first] flags
          rw [List.length_cons] at short
          cases number : isBetween (char '1') (char '9') first with
          | false =>
              obtain ⟨escape', long, reads⟩ := ih (by omega : flags.length ≤ n) others
                (ap.drop (taken [first])) (escape.withFlag ap first)
              refine ⟨escape', ?_, ?_⟩
              · have counted : (first :: flags).count (char 'l') =
                    List.count (char 'l') [first] + flags.count (char 'l') :=
                  @List.count_append _ _ (char 'l') [first] flags
                rw [long, lflag_withFlag flag number, counted, BitVec.ofNat_add, BitVec.add_assoc]
              · intro ch ends fuel before rest enough
                rw [List.length_cons] at enough
                obtain ⟨less, rfl⟩ :=
                  Nat.exists_eq_succ_of_ne_zero (Nat.ne_of_gt (Nat.zero_lt_of_lt enough))
                rw [List.cons_append, reswitch_withFlag flag number,
                  reads ch ends less _ rest (by omega), Arguments.drop_drop, split]
                simp
          | true =>
              have digits : ∀ first : Byte, isBetween (char '1') (char '9') first = true →
                  taken [first] = 0 ∧ List.count (char 'l') [first] = 0 := by decide
              have noFlag := digits first number
              obtain ⟨precision, digits, behind, rfl, none, noLong, read⟩ :=
                readNumber_digitsOnly others 0 first
              rw [List.length_append] at short
              obtain ⟨escape', long, reads⟩ := ih (by omega : behind.length ≤ n)
                (fun b member => others b (List.mem_append_right _ member)) ap
                { escape with precision := precision }.processPrecision
              refine ⟨escape', ?_, ?_⟩
              · have counted : (first :: (digits ++ behind)).count (char 'l') =
                    behind.count (char 'l') := by
                  rw [← List.singleton_append, List.count_append, List.count_append, noFlag.2, noLong,
                    Nat.zero_add, Nat.zero_add]
                rw [long, counted, lflag_processPrecision]
              · intro ch ends fuel before rest enough
                rw [List.length_cons, List.length_append] at enough
                obtain ⟨less, rfl⟩ :=
                  Nat.exists_eq_succ_of_ne_zero (Nat.ne_of_gt (Nat.zero_lt_of_lt enough))
                rw [List.cons_append, reswitch_number number less before _ ap escape
                  (read ch ends (first :: before) rest), reads ch ends less _ rest (by omega), split,
                  taken_append, none, noFlag.1]
                simp

/-! One escape, whatever has been printed before it -/

section Record

variable {load : Word → Except Stop Byte} {ch : Byte} {flags : List Byte}

theorem record_append (chars putdat : List Word) (ch : Word) :
    chars ++ record putdat ch = record (chars ++ putdat) ch :=
  (List.append_assoc ..).symm

theorem printfmt_append (load : Word → Except Stop Byte) (chars : List Word) (fmt : List Byte)
    (ap : Arguments) (putdat : List Word) :
    (chars ++ ·) <$> printfmt record load fmt ap putdat =
      printfmt record load fmt ap (chars ++ putdat) := by
  apply printFormat_map (h := (chars ++ ·))
  · exact record_append chars
  · exact fun _ _ _ => rfl

theorem getint_drop {escape : Escape}
    (lflag : escape.lflag = BitVec.ofNat 32 (flags.count (char 'l'))) (ap : Arguments) :
    (getint ap escape.lflag).2 = ap.drop (conversionWords (char 'd') flags) := by
  have other : ¬(char 'd' = char 'o' ∨ char 'd' = char '%') := by decide
  rw [lflag, getint, conversionWords, if_neg other]
  by_cases wide : 2 ≤ (BitVec.ofNat 32 (flags.count (char 'l'))).toInt
  · simp only [wide, true_or, and_true, if_true]
    rfl
  · simp only [wide, and_false, if_false]
    rfl

theorem getuint_drop {escape : Escape}
    (lflag : escape.lflag = BitVec.ofNat 32 (flags.count (char 'l')))
    (unsigned : ch = char 'u' ∨ ch = char 'x') (ap : Arguments) :
    (getuint ap escape.lflag).2 = ap.drop (conversionWords ch flags) := by
  have other : ¬(ch = char 'o' ∨ ch = char '%') := by
    rcases unsigned with rfl | rfl <;> decide
  have chosen : ch = char 'd' ∨ ch = char 'u' ∨ ch = char 'x' := Or.inr unsigned
  rw [lflag, getuint, conversionWords, if_neg other]
  by_cases wide : 2 ≤ (BitVec.ofNat 32 (flags.count (char 'l'))).toInt
  · simp only [wide, chosen, and_true, if_true]
    rfl
  · simp only [wide, and_false, if_false]
    rfl

/-- A conversion prints the same wherever it stands, and leaves the pointer where it is. -/
theorem convert_record (load : Word → Except Stop Byte) (conversion : ch ∈ conversions)
    {escape : Escape} (lflag : escape.lflag = BitVec.ofNat 32 (flags.count (char 'l')))
    (ap : Arguments) :
    ∃ result : Except Stop (List Word), ∀ fmt chars,
      convert record load (printfmt record load) ch fmt ap escape chars = (do
        let new ← result
        return (fmt, ap.drop (conversionWords ch flags), chars ++ new)) := by
  have alone : ∃ result : Except Stop (List Word), ∀ fmt,
      convert record load (printfmt record load) ch fmt ap escape [] = (do
        let new ← result
        return (fmt, ap.drop (conversionWords ch flags), new)) := by
    rcases mem_conversions.mp conversion with rfl | rfl | rfl | rfl | rfl | rfl | rfl | rfl | rfl
    · exact ⟨.ok [ap 0], fun _ => rfl⟩
    · exact ⟨putError record (printfmt record load) (ap 0) [], fun _ => rfl⟩
    · exact ⟨putString record (textAt load (ap 0)) escape [], fun _ => convert_string⟩
    · refine ⟨putSigned record (getint ap escape.lflag).1 escape [], fun _ => ?_⟩
      rw [convert_decimal, ← getint_drop lflag ap]
    · refine ⟨putNumber record (getuint ap escape.lflag).1 10 escape [], fun _ => ?_⟩
      rw [convert_unsigned, ← getuint_drop lflag (Or.inl rfl) ap]
    · exact ⟨.ok (List.replicate 3 ((char 'X').signExtend 32)), fun _ => rfl⟩
    · exact ⟨putNumber record ((ap 0).setWidth 64) 16 escape
        [(char '0').signExtend 32, (char 'x').signExtend 32], fun _ => convert_pointer⟩
    · refine ⟨putNumber record (getuint ap escape.lflag).1 16 escape [], fun _ => ?_⟩
      rw [convert_hexadecimal, ← getuint_drop lflag (Or.inr rfl) ap]
    · exact ⟨.ok [(char '%').setWidth 32], fun _ => rfl⟩
  obtain ⟨result, same⟩ := alone
  refine ⟨result, fun fmt chars => ?_⟩
  have moved := convert_map (record_append chars) (printfmt_append load chars) load ch fmt ap
    escape []
  rw [same, List.append_nil] at moved
  rw [← moved]
  cases result <;> rfl

theorem printStep_record (load : Word → Except Stop Byte)
    (all : ∀ b ∈ flags, isFlag b = true) (conversion : ch ∈ conversions) (ap : Arguments) :
    ∃ result : Except Stop (List Word), ∀ before rest chars,
      printStep record load (printfmt record load)
          ⟨⟨before, char '%' :: (flags ++ ch :: rest)⟩, ap, chars⟩ = (do
        let new ← result
        return some ⟨⟨ch :: (flags.reverse ++ char '%' :: before), rest⟩,
          ap.drop (taken flags + conversionWords ch flags), chars ++ new⟩) := by
  obtain ⟨escape, lflag, reads⟩ := readsFlags flags.length (Nat.le_refl _) all ap .start
  obtain ⟨result, converted⟩ := convert_record load conversion
    (lflag.trans (BitVec.zero_add _)) (ap.drop (taken flags))
  refine ⟨result, fun before rest chars => ?_⟩
  have enough : flags.length < (flags ++ ch :: rest).length := by simp
  rw [printStep, Cursor.next, ok_bind]
  refine (if_neg (not_not.mpr rfl)).trans ?_
  rw [reads ch (not_flag_of_conversion conversion) _ _ _ enough, ok_bind]
  dsimp only
  rw [converted, Arguments.drop_drop]
  cases result <;> rfl

end Record

/-! The loop without its fuel -/

section Loop

variable {load : Word → Except Stop Byte} {s : Printing (List Word)}

def printFrom (load : Word → Except Stop Byte) (s : Printing (List Word)) :
    Except Stop (List Word) :=
  printEscapes record load (printfmt record load) s.fmt.after.length s.fmt s.ap s.putdat

theorem printStep_shorter (inside : s.fmt.Inside) {next : Printing (List Word)}
    (step : printStep record load (printfmt record load) s = .ok (some next)) :
    next.fmt.Inside ∧ next.fmt.after.length < s.fmt.after.length := by
  obtain ⟨⟨before, after⟩, ap, chars⟩ := s
  obtain ⟨text, noNul, rfl⟩ := inside
  cases text with
  | nil => cases step
  | cons first text =>
      have noNul' : 0 ∉ text := fun member => noNul (List.mem_cons_of_mem _ member)
      have some_ : first ≠ 0 := fun nul => noNul (nul ▸ List.mem_cons_self ..)
      by_cases percent : first = char '%'
      · subst percent
        obtain ⟨flags, ch, rest, split, all, ends, more⟩ := exists_escape noNul'
        simp only [List.cons_append, split] at step ⊢
        by_cases conversion : ch ∈ conversions
        · obtain ⟨result, stepped⟩ := printStep_record load all conversion ap
          have notNul : ch ≠ 0 := by
            rintro rfl
            exact absurd conversion (by decide)
          rw [stepped] at step
          cases result with
          | error stop => cases step
          | ok new =>
              cases step
              refine ⟨more notNul, ?_⟩
              simp only [List.length_cons, List.length_append]
              omega
        · rw [printStep_unrecognised record load _ all ⟨ends, conversion⟩] at step
          cases step
          exact ⟨⟨text, noNul', split.symm⟩, Nat.lt_succ_self _⟩
      · rw [List.cons_append, printStep_literal percent some_] at step
        cases step
        exact ⟨⟨text, noNul', rfl⟩, Nat.lt_succ_self _⟩

theorem printEscapes_enough (inside : s.fmt.Inside) {fuel fuel' : Nat}
    (enough : s.fmt.after.length ≤ fuel) (enough' : s.fmt.after.length ≤ fuel') :
    printEscapes record load (printfmt record load) fuel s.fmt s.ap s.putdat =
      printEscapes record load (printfmt record load) fuel' s.fmt s.ap s.putdat := by
  induction fuel generalizing s fuel' with
  | zero =>
      obtain ⟨text, _, after⟩ := inside
      simp [after] at enough
  | succ fuel ih =>
      cases fuel' with
      | zero =>
          obtain ⟨text, _, after⟩ := inside
          simp [after] at enough'
      | succ fuel' =>
          rw [printEscapes_step, printEscapes_step]
          cases step : printStep record load (printfmt record load) s with
          | error stop => rfl
          | ok result =>
              cases result with
              | none => rfl
              | some next =>
                  obtain ⟨inside', shorter⟩ := printStep_shorter inside step
                  exact ih inside' (by omega) (by omega)

theorem printFrom_step (inside : s.fmt.Inside) : printFrom load s = (do
    let next ← printStep record load (printfmt record load) s
    next.elim (.ok s.putdat) (printFrom load)) := by
  obtain ⟨text, noNul, after⟩ := inside
  have fuel : s.fmt.after.length = text.length + 1 := by simp [after]
  rw [printFrom, fuel, printEscapes_step]
  cases step : printStep record load (printfmt record load) s with
  | error stop => rfl
  | ok result =>
      cases result with
      | none => rfl
      | some next =>
          obtain ⟨inside', shorter⟩ := printStep_shorter ⟨text, noNul, after⟩ step
          exact printEscapes_enough inside' (by omega) (Nat.le_refl _)

theorem printFrom_append (fmt : Cursor) (ap : Arguments) (chars more : List Word) :
    printFrom load ⟨fmt, ap, chars ++ more⟩ = (chars ++ ·) <$> printFrom load ⟨fmt, ap, more⟩ :=
  (printEscapes_map (record_append chars) (printfmt_append load chars) load _ fmt ap more).symm

theorem printed_eq_printFrom (fmt : List Byte) (ap : Arguments) :
    printed load fmt ap = printFrom load ⟨⟨[], fmt ++ [0]⟩, ap, []⟩ := by
  have fuel : (fmt ++ [0]).length = fmt.length + 1 := by simp
  rw [printed, vprintfmt, printFormat, Cursor.ofString, printFrom, fuel]

end Loop

/-! Pieces of a format -/

section Pieces

variable {load : Word → Except Stop Byte} {flags : List Byte} {ch : Byte}

theorem noNul_cons {text : List Byte} (some_ : ch ≠ 0) (noNul : 0 ∉ text) : 0 ∉ ch :: text :=
  List.not_mem_cons_of_ne_of_not_mem some_.symm noNul

theorem noNul_append {first second : List Byte} (noNul : 0 ∉ first) (noNul' : 0 ∉ second) :
    0 ∉ first ++ second :=
  fun member => (List.mem_append.mp member).elim noNul noNul'

theorem noNul_of_flags (all : ∀ b ∈ flags, isFlag b = true) : 0 ∉ flags :=
  fun member => (plain_of_flags all 0 member).2 rfl

def PrintsFirst (load : Word → Except Stop Byte) (piece : List Byte) (words : Nat) : Prop :=
  ∀ ap, ∃ result : Except Stop (List Word), ∀ before text chars, 0 ∉ text →
    printFrom load ⟨⟨before, piece ++ (text ++ [0])⟩, ap, chars⟩ = (do
      let new ← result
      printFrom load ⟨⟨piece.reverse ++ before, text ++ [0]⟩, ap.drop words, chars ++ new⟩)

theorem PrintsFirst.nil (load : Word → Except Stop Byte) : PrintsFirst load [] 0 := by
  intro ap
  refine ⟨.ok [], fun before text chars _ => ?_⟩
  rw [ok_bind, List.append_nil]
  rfl

theorem PrintsFirst.append {first second : List Byte} {words more : Nat}
    (printsFirst : PrintsFirst load first words) (printsSecond : PrintsFirst load second more)
    (noNul : 0 ∉ second) : PrintsFirst load (first ++ second) (words + more) := by
  intro ap
  obtain ⟨result, first_⟩ := printsFirst ap
  obtain ⟨result', second_⟩ := printsSecond (ap.drop words)
  refine ⟨do let new ← result; let new' ← result'; return new ++ new', ?_⟩
  intro before text chars noNul'
  have here := first_ before (second ++ text) chars (noNul_append noNul noNul')
  rw [List.append_assoc] at here
  rw [List.append_assoc, here]
  cases result with
  | error stop => rfl
  | ok new =>
      rw [ok_bind, second_ _ text _ noNul', Arguments.drop_drop]
      cases result' with
      | error stop => rfl
      | ok new' => simp only [ok_bind, pure_bind, List.reverse_append, List.append_assoc]

theorem printFrom_text {text : List Byte} (plain : ∀ b ∈ text, b ≠ char '%' ∧ b ≠ 0)
    (before : List Byte) {more : List Byte} (noNul : 0 ∉ more) (ap : Arguments)
    (chars : List Word) :
    printFrom load ⟨⟨before, text ++ (more ++ [0])⟩, ap, chars⟩ =
      printFrom load ⟨⟨text.reverse ++ before, more ++ [0]⟩, ap,
        chars ++ text.map (BitVec.setWidth 32)⟩ := by
  induction text generalizing before chars with
  | nil => simp
  | cons first text ih =>
      obtain ⟨literal, some_⟩ := plain first (List.mem_cons_self ..)
      have others : ∀ b ∈ text, b ≠ char '%' ∧ b ≠ 0 :=
        fun b member => plain b (List.mem_cons_of_mem _ member)
      have noNul' : 0 ∉ text := fun member => (others 0 member).2 rfl
      have inside : Cursor.Inside ⟨before, first :: (text ++ (more ++ [0]))⟩ :=
        ⟨first :: (text ++ more), noNul_cons some_ (noNul_append noNul' noNul), by simp⟩
      rw [List.cons_append, printFrom_step inside, printStep_literal literal some_, ok_bind]
      refine (ih others (first :: before) _).trans ?_
      simp [record]

theorem printsFirst_text {text : List Byte} (plain : ∀ b ∈ text, b ≠ char '%' ∧ b ≠ 0) :
    PrintsFirst load text 0 :=
  fun ap => ⟨.ok (text.map (BitVec.setWidth 32)), fun before _ chars noNul =>
    printFrom_text plain before noNul ap chars⟩

/-- Without a conversion behind it the `%` is printed, and then the flags. -/
theorem printFrom_unrecognised (all : ∀ b ∈ flags, isFlag b = true) (unknown : Unrecognised ch)
    (before : List Byte) {rest : List Byte}
    (inside : Cursor.Inside ⟨before, char '%' :: (flags ++ ch :: rest)⟩) (ap : Arguments)
    (chars : List Word) :
    printFrom load ⟨⟨before, char '%' :: (flags ++ ch :: rest)⟩, ap, chars⟩ =
      printFrom load ⟨⟨char '%' :: before, flags ++ ch :: rest⟩, ap.drop (taken flags),
        chars ++ [(char '%').signExtend 32]⟩ := by
  rw [printFrom_step inside, printStep_unrecognised record load _ all unknown]
  rfl

theorem printsFirst_escape (all : ∀ b ∈ flags, isFlag b = true) (ends : isFlag ch = false)
    (some_ : ch ≠ 0) : PrintsFirst load (char '%' :: (flags ++ [ch]))
      (taken flags + if conversions.contains ch then conversionWords ch flags else 0) := by
  intro ap
  have noFlag := noNul_of_flags all
  have inside (before text : List Byte) (noNul : 0 ∉ text) :
      Cursor.Inside ⟨before, char '%' :: (flags ++ ch :: (text ++ [0]))⟩ := by
    refine ⟨char '%' :: (flags ++ ch :: text), ?_, by simp⟩
    exact noNul_cons (by decide) (noNul_append noFlag (noNul_cons some_ noNul))
  by_cases conversion : ch ∈ conversions
  · obtain ⟨result, step⟩ := printStep_record load all conversion ap
    refine ⟨result, fun before text chars noNul => ?_⟩
    have format : char '%' :: (flags ++ [ch]) ++ (text ++ [0]) =
      char '%' :: (flags ++ ch :: (text ++ [0])) := by simp
    have behind : (char '%' :: (flags ++ [ch])).reverse ++ before =
      ch :: (flags.reverse ++ char '%' :: before) := by simp
    rw [format, behind, if_pos (List.contains_iff_mem.mpr conversion),
      printFrom_step (inside before text noNul), step]
    cases result <;> rfl
  · refine ⟨.ok ((char '%').signExtend 32 :: (flags ++ [ch]).map (BitVec.setWidth 32)), ?_⟩
    intro before text chars noNul
    have percent : ch ≠ char '%' := by
      rintro rfl
      exact conversion (by decide)
    have plain : ∀ b ∈ flags ++ [ch], b ≠ char '%' ∧ b ≠ 0 := by
      intro b member
      rcases List.mem_append.mp member with flag | last
      · exact plain_of_flags all b flag
      · rw [List.mem_singleton.mp last]
        exact ⟨percent, some_⟩
    have format : char '%' :: (flags ++ [ch]) ++ (text ++ [0]) =
      char '%' :: (flags ++ ch :: (text ++ [0])) := by simp
    have split : flags ++ ch :: (text ++ [0]) = (flags ++ [ch]) ++ (text ++ [0]) := by simp
    rw [format, if_neg (conversion ∘ List.contains_iff_mem.mp),
      printFrom_unrecognised all ⟨ends, conversion⟩ before (inside before text noNul), split,
      printFrom_text plain _ noNul, ok_bind]
    simp

theorem printFrom_end (before : List Byte) (ap : Arguments) (chars : List Word) :
    printFrom load ⟨⟨before, [0]⟩, ap, chars⟩ = .ok chars := printEscapes_nul

theorem printFrom_unfinished (all : ∀ b ∈ flags, isFlag b = true) (before : List Byte)
    (ap : Arguments) (chars : List Word) :
    printFrom load ⟨⟨before, char '%' :: flags ++ [0]⟩, ap, chars⟩ =
      .ok (chars ++ (char '%').signExtend 32 :: flags.map (BitVec.setWidth 32)) := by
  have unknown : Unrecognised 0 := by
    constructor <;> decide
  have inside : Cursor.Inside ⟨before, char '%' :: (flags ++ [0])⟩ :=
    ⟨char '%' :: flags, noNul_cons (by decide) (noNul_of_flags all), rfl⟩
  rw [List.cons_append, printFrom_unrecognised all unknown before inside]
  have text := @printFrom_text load flags (plain_of_flags all) (char '%' :: before) []
    List.not_mem_nil (ap.drop (taken flags)) (chars ++ [(char '%').signExtend 32])
  rw [List.nil_append] at text
  rw [text, printFrom_end]
  simp

end Pieces

/-! A format and what follows it -/

section Composition

variable {load : Word → Except Stop Byte}

theorem inEscape_append (inside : Bool) (first second : List Byte) :
    inEscape inside (first ++ second) = inEscape (inEscape inside first) second := by
  induction first generalizing inside with
  | nil => rfl
  | cons ch first ih => rw [List.cons_append, inEscape, inEscape, ih]

theorem flags_split (text : List Byte) : (∀ b ∈ text, isFlag b = true) ∨
    ∃ flags ch others, text = flags ++ ch :: others ∧ (∀ b ∈ flags, isFlag b = true) ∧
      isFlag ch = false := by
  induction text with
  | nil => exact Or.inl fun _ member => absurd member List.not_mem_nil
  | cons first text ih =>
      cases flag : isFlag first with
      | false =>
          have none : ∀ b ∈ [], isFlag b = true := fun _ member => absurd member List.not_mem_nil
          exact Or.inr ⟨[], first, text, rfl, none, flag⟩
      | true =>
          rcases ih with all | ⟨flags, ch, others, rfl, all, ends⟩
          · exact Or.inl (List.forall_mem_cons.mpr ⟨flag, all⟩)
          · exact Or.inr ⟨first :: flags, ch, others, rfl, List.forall_mem_cons.mpr ⟨flag, all⟩, ends⟩

/-- A format is a part that ends outside an escape, and perhaps an escape that is not finished. -/
theorem exists_ended (load : Word → Except Stop Byte) (n : Nat) {text : List Byte}
    (short : text.length ≤ n) (noNul : 0 ∉ text) :
    ∃ ended unfinished, text = ended ++ unfinished ∧ inEscape false ended = false ∧
      PrintsFirst load ended (argumentWords none ended) ∧
      (unfinished = [] ∨ ∃ flags, unfinished = char '%' :: flags ∧ ∀ b ∈ flags, isFlag b = true) := by
  induction n generalizing text with
  | zero =>
      obtain rfl := List.length_eq_zero_iff.mp (Nat.le_zero.mp short)
      exact ⟨[], [], rfl, rfl, .nil load, Or.inl rfl⟩
  | succ n ih =>
      cases text with
      | nil => exact ⟨[], [], rfl, rfl, .nil load, Or.inl rfl⟩
      | cons first text =>
          have some_ : first ≠ 0 := fun nul => noNul (nul ▸ List.mem_cons_self ..)
          have noNul' : 0 ∉ text := fun member => noNul (List.mem_cons_of_mem _ member)
          rw [List.length_cons] at short
          by_cases percent : first = char '%'
          · subst percent
            rcases flags_split text with all | ⟨flags, ch, others, rfl, all, ends⟩
            · exact ⟨[], char '%' :: text, rfl, rfl, .nil load, Or.inr ⟨text, rfl, all⟩⟩
            · rw [List.length_append, List.length_cons] at short
              have some' : ch ≠ 0 := by
                rintro rfl
                exact noNul' (by simp)
              have rest : 0 ∉ others :=
                fun member => noNul' (List.mem_append_right _ (List.mem_cons_of_mem _ member))
              obtain ⟨ended, unfinished, rfl, outside, prints, last⟩ :=
                ih (by omega : others.length ≤ n) rest
              have noNul'' : 0 ∉ ended := fun member => rest (List.mem_append_left _ member)
              have words := argumentWords_flags all ends [] ended
              have whole := (printsFirst_escape all ends some').append prints noNul''
              refine ⟨char '%' :: (flags ++ [ch]) ++ ended, unfinished, by simp, ?_, ?_, last⟩
              · have begins : inEscape false (char '%' :: (flags ++ [ch]) ++ ended) =
                    inEscape true (flags ++ ([ch] ++ ended)) := by
                  rw [List.cons_append, inEscape, List.append_assoc]
                  rfl
                rw [begins, inEscape_flags all, List.singleton_append, inEscape, ends]
                exact outside
              · have counted : argumentWords none (char '%' :: (flags ++ [ch]) ++ ended) =
                    argumentWords (some []) (flags ++ ch :: ended) := by
                  rw [List.cons_append, argumentWords, List.append_assoc]
                  rfl
                rw [counted, words, List.nil_append]
                exact whole
          · have literal : ∀ b ∈ [first], b ≠ char '%' ∧ b ≠ 0 := by
              intro b member
              rw [List.mem_singleton.mp member]
              exact ⟨percent, some_⟩
            obtain ⟨ended, unfinished, rfl, outside, prints, last⟩ :=
              ih (by omega : text.length ≤ n) noNul'
            have noNul'' : 0 ∉ ended := fun member => noNul' (List.mem_append_left _ member)
            have whole := (printsFirst_text literal).append prints noNul''
            refine ⟨first :: ended, unfinished, rfl, ?_, ?_, last⟩
            · simpa [inEscape, percent] using outside
            · rw [argumentWords, if_neg percent]
              rw [Nat.zero_add] at whole
              exact whole

theorem not_inEscape_iff {ended flags : List Byte} (outside : inEscape false ended = false)
    (all : ∀ b ∈ flags, isFlag b = true) : inEscape false (ended ++ char '%' :: flags) = true := by
  have escape : inEscape true flags = true := by
    have last := inEscape_flags all []
    rwa [List.append_nil] at last
  rw [inEscape_append, outside, inEscape]
  exact escape

theorem printsFirst_of_ended (load : Word → Except Stop Byte) {text : List Byte} (noNul : 0 ∉ text)
    (outside : inEscape false text = false) : PrintsFirst load text (argumentWords none text) := by
  obtain ⟨ended, unfinished, rfl, outside', prints, rfl | ⟨flags, rfl, all⟩⟩ :=
    exists_ended load _ (Nat.le_refl text.length) noNul
  · rw [List.append_nil]
    exact prints
  · rw [not_inEscape_iff outside' all] at outside
    cases outside

theorem printFrom_behind {text : List Byte} (noNul : 0 ∉ text) (before : List Byte)
    (ap : Arguments) (chars : List Word) :
    printFrom load ⟨⟨before, text ++ [0]⟩, ap, chars⟩ = (chars ++ ·) <$> printed load text ap := by
  have alone : printFrom load ⟨⟨before, text ++ [0]⟩, ap, []⟩ = printed load text ap := by
    rw [printed_eq_printFrom]
    obtain ⟨ended, unfinished, rfl, _, prints, last⟩ :=
      exists_ended load _ (Nat.le_refl text.length) noNul
    have noNul' : 0 ∉ unfinished := fun member => noNul (List.mem_append_right _ member)
    obtain ⟨result, printsHere⟩ := prints ap
    rw [List.append_assoc, printsHere before _ _ noNul', printsHere [] _ _ noNul']
    congr 1
    funext new
    rcases last with rfl | ⟨flags, rfl, all⟩
    · exact (printFrom_end ..).trans (printFrom_end ..).symm
    · exact (printFrom_unfinished all ..).trans (printFrom_unfinished all ..).symm
  have moved := @printFrom_append load ⟨before, text ++ [0]⟩ ap chars []
  rw [List.append_nil] at moved
  rw [moved, alone]

theorem printed_append {first : List Byte} (noNul : 0 ∉ first)
    (outside : inEscape false first = false) (load : Word → Except Stop Byte) (ap : Arguments)
    {rest : List Byte} (noNul' : 0 ∉ rest) : printed load (first ++ rest) ap = (do
      let chars ← printed load first ap
      let more ← printed load rest (ap.drop (argumentWords none first))
      return chars ++ more) := by
  obtain ⟨result, prints⟩ := printsFirst_of_ended load noNul outside ap
  have alone := prints [] [] [] List.not_mem_nil
  rw [List.nil_append, ← printed_eq_printFrom] at alone
  rw [printed_eq_printFrom, List.append_assoc, prints [] rest [] noNul', alone]
  cases result with
  | error stop => rfl
  | ok new =>
      simp only [ok_bind, List.nil_append, printFrom_end, printFrom_behind noNul']
      cases printed load rest (ap.drop (argumentWords none first)) <;> rfl

theorem printed_unfinished {flags : List Byte} (all : ∀ b ∈ flags, isFlag b = true)
    (ap : Arguments) : printed load (char '%' :: flags) ap =
      .ok ((char '%').signExtend 32 :: flags.map (BitVec.setWidth 32)) := by
  rw [printed_eq_printFrom]
  exact printFrom_unfinished all [] ap []

/-- The flags of `%%` are skipped. -/
theorem printed_percent {flags : List Byte} (all : ∀ b ∈ flags, isFlag b = true)
    (ap : Arguments) :
    printed load (char '%' :: (flags ++ [char '%'])) ap = .ok [(char '%').setWidth 32] := by
  have enough : flags.length < (flags ++ [char '%']).length + 1 := by
    rw [List.length_append]
    omega
  obtain ⟨escape, reached⟩ := reswitch_flags all (by decide : isFlag (char '%') = false) enough
    [char '%'] [0] ap .start
  have split : flags ++ char '%' :: [0] = (flags ++ [char '%']) ++ [0] := by simp
  rw [split] at reached
  exact vprintfmt_escape _ reached rfl

theorem printed_emptyStrings {text : List Byte} (noNul : 0 ∉ text) (ap : Arguments) :
    ∃ chars, printed emptyStrings text ap = .ok chars := by
  have inside : (Cursor.ofString text).Inside := ⟨text, noNul, rfl⟩
  have length : (Cursor.ofString text).after.length ≤ text.length + 1 := by
    rw [Cursor.ofString, List.length_append, List.length_singleton]
  exact @printEscapes_returns _ record emptyStrings _ ⟨.ofString text, ap, []⟩ inside
    (stringArguments_emptyStrings record _) length

theorem not_composes_of_unfinished {ended flags : List Byte} (noNul : 0 ∉ ended)
    (outside : inEscape false ended = false) (all : ∀ b ∈ flags, isFlag b = true) (words : Nat)
    (ap : Arguments) :
    printed emptyStrings (ended ++ char '%' :: flags ++ [char '%']) ap ≠ (do
      let chars ← printed emptyStrings (ended ++ char '%' :: flags) ap
      let more ← printed emptyStrings [char '%'] (ap.drop words)
      return chars ++ more) := by
  have percent : char '%' ≠ 0 := by decide
  have noFlag := noNul_of_flags all
  have one : ∀ b ∈ ([] : List Byte), isFlag b = true := fun _ member => absurd member List.not_mem_nil
  obtain ⟨chars, shown⟩ := printed_emptyStrings noNul ap
  have together := printed_append noNul outside emptyStrings ap
    (noNul_cons percent (noNul_append noFlag (noNul_cons percent List.not_mem_nil)))
  have first := printed_append noNul outside emptyStrings ap (noNul_cons percent noFlag)
  rw [printed_percent all, shown] at together
  rw [printed_unfinished all, shown] at first
  rw [List.append_assoc, List.cons_append, together, first, printed_unfinished one]
  intro same
  have lengths := congrArg List.length (Except.ok.inj same)
  simp at lengths

end Composition

/-- A format prints as if it stood alone, and what follows it likewise, exactly if it does not end
inside an escape. -/
theorem printed_append_iff {first : List Byte} (noNul : 0 ∉ first) :
    inEscape false first = false ↔
      ∀ (load : Word → Except Stop Byte) (ap : Arguments) (rest : List Byte), 0 ∉ rest →
        printed load (first ++ rest) ap = (do
          let chars ← printed load first ap
          let more ← printed load rest (ap.drop (argumentWords none first))
          return chars ++ more) := by
  constructor
  · exact fun outside load ap rest noNul' => printed_append noNul outside load ap noNul'
  · intro composes
    obtain ⟨ended, unfinished, rfl, outside, _, rfl | ⟨flags, rfl, all⟩⟩ :=
      exists_ended emptyStrings _ (Nat.le_refl first.length) noNul
    · rw [List.append_nil]
      exact outside
    · have noNul' : 0 ∉ ended := fun member => noNul (List.mem_append_left _ member)
      have percent : 0 ∉ [char '%'] := noNul_cons (by decide) List.not_mem_nil
      exact absurd (composes emptyStrings (fun _ => 0) [char '%'] percent)
        (not_composes_of_unfinished noNul' outside all _ _)

/-- The head of a panic message, with its two arguments -/
theorem printed_append_iff_panic :
    inEscape false ("kernel panic at %s:%d: ".toList.map char) = false ∧
      ∀ (load : Word → Except Stop Byte) (ap : Arguments) (rest : List Byte), 0 ∉ rest →
        printed load ("kernel panic at %s:%d: ".toList.map char ++ rest) ap = (do
          let chars ← printed load ("kernel panic at %s:%d: ".toList.map char) ap
          let more ← printed load rest (ap.drop 2)
          return chars ++ more) :=
  ⟨by decide, (printed_append_iff (by decide)).mp (by decide)⟩

end FosV2
