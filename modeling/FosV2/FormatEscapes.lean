import FosV2.PrintNumber

/-!
One escape of a format: the flags that `reswitch` goes over, and the conversion behind them, or
the way back to the `%` where there is none.
-/

namespace FosV2

def isFlag (ch : Byte) : Bool :=
  ch = char '-' ∨ isBetween (char '0') (char '9') ch ∨ ch = char '*' ∨ ch = char '.' ∨
    ch = char '#' ∨ ch = char 'l'

def conversions : List Byte :=
  [char 'c', char 'e', char 's', char 'd', char 'u', char 'o', char 'p', char 'x', char '%']

/-- No flag and no conversion. The NUL is one of these. -/
def Unrecognised (ch : Byte) : Prop := isFlag ch = false ∧ ch ∉ conversions

def Arguments.drop (ap : Arguments) (count : Nat) : Arguments := fun i => ap (i + count)

/-- `*` takes an argument, whatever becomes of the escape. -/
def taken (flags : List Byte) : Nat := flags.count (char '*')

theorem Arguments.drop_drop (ap : Arguments) (first second : Nat) :
    (ap.drop first).drop second = ap.drop (first + second) := by
  funext i
  rw [drop, drop, drop, Nat.add_assoc, Nat.add_comm second]

theorem flag_cases {ch : Byte} (flag : isFlag ch = true) :
    ch = char '-' ∨ ch = char '0' ∨ isBetween (char '1') (char '9') ch = true ∨ ch = char '*' ∨
      ch = char '.' ∨ ch = char '#' ∨ ch = char 'l' := by
  revert ch
  decide

theorem mem_conversions {ch : Byte} : ch ∈ conversions ↔
    ch = char 'c' ∨ ch = char 'e' ∨ ch = char 's' ∨ ch = char 'd' ∨ ch = char 'u' ∨
      ch = char 'o' ∨ ch = char 'p' ∨ ch = char 'x' ∨ ch = char '%' := by
  simp only [conversions, List.mem_cons, List.not_mem_nil, or_false]

theorem not_flag_of_conversion {ch : Byte} (conversion : ch ∈ conversions) :
    isFlag ch = false := by
  rcases mem_conversions.mp conversion with rfl | rfl | rfl | rfl | rfl | rfl | rfl | rfl | rfl <;>
    decide

/-! The flags of an escape -/

/-- A number takes the digits that follow, and perhaps not all of the flags. -/
theorem readNumber_flags {flags : List Byte} (all : ∀ b ∈ flags, isFlag b = true) {last : Byte}
    (ends : isFlag last = false) (rest : List Byte) (precision : Word) (ch : Byte)
    (before : List Byte) :
    ∃ precision' digits others, flags = digits ++ others ∧ taken digits = 0 ∧
      readNumber precision ch before (flags ++ last :: rest) =
        .ok (precision', ⟨digits.reverse ++ before, others ++ last :: rest⟩) := by
  induction flags generalizing precision ch before with
  | nil =>
      have noDigit : isBetween (char '0') (char '9') last = false := by
        revert last
        decide
      refine ⟨precision * 10 + (ch - char '0').setWidth 32, [], [], rfl, rfl, ?_⟩
      rw [List.nil_append, readNumber]
      simp only [noDigit, Bool.false_eq_true, if_false]
      rfl
  | cons next flags ih =>
      rw [List.cons_append, readNumber]
      cases digit : isBetween (char '0') (char '9') next with
      | false => exact ⟨_, [], next :: flags, rfl, rfl, rfl⟩
      | true =>
          obtain ⟨precision', digits, others, same, none, read⟩ :=
            ih (fun b member => all b (List.mem_cons_of_mem _ member))
              (precision * 10 + (ch - char '0').setWidth 32) next (next :: before)
          refine ⟨precision', next :: digits, others, congrArg (next :: ·) same, ?_, ?_⟩
          · have noStar : next ≠ char '*' := by
              rintro rfl
              exact absurd digit (by decide)
            rw [taken, List.count_cons_of_ne noStar]
            exact none
          · simp only [if_true, read, List.reverse_cons, List.append_assoc, List.singleton_append]

theorem reswitch_end {ch : Byte} (ends : isFlag ch = false) (fuel : Nat) (before rest : List Byte)
    (ap : Arguments) (escape : Escape) :
    reswitch (fuel + 1) ⟨before, ch :: rest⟩ ap escape =
      .ok (ch, ⟨ch :: before, rest⟩, ap, escape) := by
  have other : ch ≠ char '-' ∧ ch ≠ char '0' ∧ isBetween (char '1') (char '9') ch = false ∧
      ch ≠ char '*' ∧ ch ≠ char '.' ∧ ch ≠ char '#' ∧ ch ≠ char 'l' := by
    revert ch
    decide
  obtain ⟨dash, zero, digit, star, dot, hash, long⟩ := other
  rw [reswitch, Cursor.next, ok_bind]
  simp only [dash, zero, digit, star, dot, hash, long, Bool.false_eq_true, if_false]
  rfl

theorem reswitch_flag {ch : Byte} (flag : isFlag ch = true)
    (noNumber : isBetween (char '1') (char '9') ch = false) (fuel : Nat)
    (before rest : List Byte) (ap : Arguments) (escape : Escape) :
    ∃ escape', reswitch (fuel + 1) ⟨before, ch :: rest⟩ ap escape =
      reswitch fuel ⟨ch :: before, rest⟩ (ap.drop (taken [ch])) escape' := by
  rcases flag_cases flag with rfl | rfl | number | rfl | rfl | rfl | rfl
  · exact ⟨_, rfl⟩
  · exact ⟨_, rfl⟩
  · rw [number] at noNumber
    cases noNumber
  · exact ⟨_, rfl⟩
  · by_cases unset : escape.width.toInt < 0
    · refine ⟨{ escape with width := 0 }, ?_⟩
      rw [reswitch, Cursor.next, ok_bind]
      exact if_pos unset
    · refine ⟨escape, ?_⟩
      rw [reswitch, Cursor.next, ok_bind]
      exact if_neg unset
  · exact ⟨_, rfl⟩
  · exact ⟨_, rfl⟩

theorem reswitch_number {ch : Byte} (number : isBetween (char '1') (char '9') ch = true)
    (fuel : Nat) (before rest : List Byte) (ap : Arguments) (escape : Escape)
    {precision : Word} {fmt : Cursor}
    (read : readNumber 0 ch (ch :: before) rest = .ok (precision, fmt)) :
    reswitch (fuel + 1) ⟨before, ch :: rest⟩ ap escape =
      reswitch fuel fmt ap { escape with precision := precision }.processPrecision := by
  have other : ∀ ch : Byte, isBetween (char '1') (char '9') ch = true →
      ch ≠ char '-' ∧ ch ≠ char '0' := by decide
  obtain ⟨dash, zero⟩ := other ch number
  rw [reswitch, Cursor.next, ok_bind]
  simp only [dash, zero, number, if_false, if_true]
  rw [read, ok_bind]

theorem taken_append (flags others : List Byte) :
    taken (flags ++ others) = taken flags + taken others := List.count_append

/-- All the flags are gone over, and each `*` takes an argument. -/
theorem reswitch_flags {flags : List Byte} (all : ∀ b ∈ flags, isFlag b = true) {ch : Byte}
    (ends : isFlag ch = false) {fuel : Nat} (enough : flags.length < fuel)
    (before rest : List Byte) (ap : Arguments) (escape : Escape) :
    ∃ escape', reswitch fuel ⟨before, flags ++ ch :: rest⟩ ap escape =
      .ok (ch, ⟨ch :: (flags.reverse ++ before), rest⟩, ap.drop (taken flags), escape') := by
  induction fuel generalizing flags before ap escape with
  | zero => omega
  | succ fuel ih =>
      cases flags with
      | nil => exact ⟨escape, reswitch_end ends fuel before rest ap escape⟩
      | cons first flags =>
          have others : ∀ b ∈ flags, isFlag b = true :=
            fun b member => all b (List.mem_cons_of_mem _ member)
          rw [List.length_cons] at enough
          have split : taken (first :: flags) = taken [first] + taken flags :=
            taken_append [first] flags
          rw [List.cons_append, split]
          cases number : isBetween (char '1') (char '9') first with
          | false =>
              obtain ⟨escape', more⟩ := reswitch_flag (all first (List.mem_cons_self ..)) number
                fuel before (flags ++ ch :: rest) ap escape
              obtain ⟨last, reached⟩ :=
                ih others (by omega) (first :: before) (ap.drop (taken [first])) escape'
              refine ⟨last, ?_⟩
              rw [more, reached, Arguments.drop_drop, List.reverse_cons, List.append_assoc,
                List.singleton_append]
          | true =>
              have noStar : taken [first] = 0 := by
                refine List.count_eq_zero.mpr fun star => ?_
                rw [← List.mem_singleton.mp star] at number
                exact absurd number (by decide)
              obtain ⟨precision, digits, behind, rfl, none, read⟩ :=
                readNumber_flags others ends rest 0 first (first :: before)
              rw [List.length_append] at enough
              obtain ⟨last, reached⟩ := ih
                (fun b member => others b (List.mem_append_right _ member)) (by omega)
                (digits.reverse ++ first :: before) ap
                { escape with precision := precision }.processPrecision
              refine ⟨last, ?_⟩
              rw [reswitch_number number fuel before _ ap escape read, reached, taken_append,
                none, noStar, Nat.zero_add, Nat.zero_add, List.reverse_cons, List.reverse_append]
              simp only [List.append_assoc, List.singleton_append]

/-! The conversion of an escape -/

section Conversions

variable {σ : Type} {putch : σ → Word → σ} {load : Word → Except Stop Byte}
  {nested : List Byte → Arguments → σ → Except Stop σ} {ch : Byte} {text : Text} {n : Nat}

def Terminated (text : Text) : Prop :=
  ∃ n < 2 ^ 32, text n = .ok 0 ∧ ∀ i < n, ∃ ch, text i = .ok ch

theorem terminated_literal {s : List Byte} (short : s.length < 2 ^ 32) :
    Terminated (literal s) := by
  refine ⟨s.length, short, ?_, fun i _ => ⟨_, rfl⟩⟩
  rw [literal, List.getD_eq_default _ _ (Nat.le_refl _)]

theorem strnlen_terminated (nul : text n = .ok 0) (readable : ∀ i < n, ∃ ch, text i = .ok ch)
    (size : Nat) {i : Nat} (before : i ≤ n) : ∃ length, strnlen text size i = .ok length := by
  induction size generalizing i with
  | zero => exact ⟨i, rfl⟩
  | succ size ih =>
      rw [strnlen]
      rcases Nat.eq_or_lt_of_le before with rfl | more
      · rw [nul, ok_bind]
        exact ⟨i, rfl⟩
      · obtain ⟨ch, read⟩ := readable i more
        rw [read, ok_bind]
        by_cases ended : ch = 0
        · exact ⟨i, if_pos ended⟩
        · rw [if_neg ended]
          exact ih more

theorem putText_terminated (putch : σ → Word → σ) (nul : text n = .ok 0)
    (readable : ∀ i < n, ∃ ch, text i = .ok ch)
    (altflag : Bool) {fuel i : Nat} (before : i ≤ n) (enough : n < i + fuel)
    (precision width : Word) (putdat : σ) :
    ∃ result, putText putch text altflag fuel i precision width putdat = .ok result := by
  induction fuel generalizing i precision width putdat with
  | zero => omega
  | succ fuel ih =>
      rw [putText]
      rcases Nat.eq_or_lt_of_le before with rfl | more
      · rw [nul, ok_bind]
        exact ⟨_, if_pos rfl⟩
      · obtain ⟨ch, read⟩ := readable i more
        rw [read, ok_bind]
        by_cases ended : ch = 0
        · exact ⟨_, if_pos ended⟩
        · rw [if_neg ended]
          split
          · exact ih more (by omega) _ _ _
          · exact ⟨_, rfl⟩

theorem putString_terminated (terminated : Terminated text) (escape : Escape) (putdat : σ) :
    ∃ putdat', putString putch text escape putdat = .ok putdat' := by
  obtain ⟨n, inside, nul, readable⟩ := terminated
  have padded : ∃ result, padText putch text escape putdat = .ok result := by
    rw [padText]
    split
    · obtain ⟨length, measured⟩ :=
        strnlen_terminated nul readable escape.precision.toNat (Nat.zero_le n)
      rw [measured]
      exact ⟨_, rfl⟩
    · exact ⟨_, rfl⟩
  obtain ⟨⟨width, padding⟩, padded⟩ := padded
  obtain ⟨⟨left, shown⟩, put⟩ := putText_terminated putch nul readable escape.altflag
    (Nat.zero_le n) (show n < 0 + textFuel by rw [textFuel]; omega) escape.precision width padding
  refine ⟨putPadding putch left (char ' ') shown, ?_⟩
  rw [putString, padded, ok_bind]
  simp only [put, ok_bind]
  rfl

theorem putNumber_returns (num : BitVec 64) {base : BitVec 64} (chosen : base = 10 ∨ base = 16)
    (escape : Escape) (putdat : σ) :
    ∃ putdat', putNumber putch num base escape putdat = .ok putdat' := by
  rcases chosen with rfl | rfl
  · exact ⟨_, putNumber_eq putch (by decide) (by decide) escape putdat⟩
  · exact ⟨_, putNumber_eq putch (by decide) (by decide) escape putdat⟩

variable (putch) in
theorem putSigned_returns (num : BitVec 64) (escape : Escape) (putdat : σ) :
    ∃ putdat', putSigned putch num escape putdat = .ok putdat' := by
  rw [putSigned]
  split
  · exact putNumber_returns _ (Or.inl rfl) _ _
  · exact putNumber_returns _ (Or.inl rfl) _ _

theorem putError_returns
    (inner : ∀ ap putdat, ∃ putdat', nested ("error %d".toList.map char) ap putdat = .ok putdat')
    (err : Word) (putdat : σ) : ∃ putdat', putError putch nested err putdat = .ok putdat' := by
  have texts : ∀ i p, errorString.getD i none = some p → Terminated (literal p) := by
    have all : ∀ entry ∈ errorString, ∀ p, entry = some p → p.length < 2 ^ 32 := by
      simp [errorString]
    intro i p entry
    exact terminated_literal (all (some p) (mem_errorString entry) p rfl)
  simp only [putError]
  split
  · exact inner _ _
  next p entry =>
    by_cases beyond : maxError.toInt < (if err.toInt < 0 then -err else err).toInt
    · rw [if_pos beyond] at entry
      cases entry
    · rw [if_neg beyond] at entry
      exact putString_terminated (texts _ p entry) .start putdat

variable (putch) in
/-- A conversion leaves the pointer where it is. -/
theorem convert_returns
    (inner : ∀ ap putdat, ∃ putdat', nested ("error %d".toList.map char) ap putdat = .ok putdat')
    (conversion : ch ∈ conversions) {ap : Arguments}
    (string : ch = char 's' → Terminated (textAt load (ap 0))) (fmt : Cursor) (escape : Escape)
    (putdat : σ) :
    ∃ ap' putdat', convert putch load nested ch fmt ap escape putdat = .ok (fmt, ap', putdat') := by
  have bound {result : Except Stop σ} (returns : ∃ putdat', result = .ok putdat')
      (ap' : Arguments) : ∃ ap'' putdat'', (do
        let putdat ← result
        return (fmt, ap', putdat)) = (.ok (fmt, ap'', putdat'') : Except Stop _) := by
    obtain ⟨putdat', rfl⟩ := returns
    exact ⟨ap', putdat', rfl⟩
  rcases mem_conversions.mp conversion with rfl | rfl | rfl | rfl | rfl | rfl | rfl | rfl | rfl
  · exact ⟨_, _, rfl⟩
  · exact bound (putError_returns inner _ _) _
  · exact bound (putString_terminated (string rfl) _ _) _
  · exact bound (putSigned_returns _ _ _ _) _
  · exact bound (putNumber_returns _ (Or.inl rfl) _ _) _
  · exact ⟨_, _, rfl⟩
  · exact bound (putNumber_returns _ (Or.inr rfl) _ _) _
  · exact bound (putNumber_returns _ (Or.inr rfl) _ _) _
  · exact ⟨_, _, rfl⟩

theorem backToPercent_flags {flags : List Byte} (all : ∀ b ∈ flags, isFlag b = true)
    (before after : List Byte) :
    Cursor.backToPercent (flags ++ char '%' :: before) after =
      .ok ⟨char '%' :: before, flags.reverse ++ after⟩ := by
  induction flags generalizing after with
  | nil => exact if_pos rfl
  | cons first flags ih =>
      have noPercent : first ≠ char '%' := by
        rintro rfl
        exact absurd (all _ (List.mem_cons_self ..)) (by decide)
      rw [List.cons_append, Cursor.backToPercent, if_neg noPercent,
        ih fun b member => all b (List.mem_cons_of_mem _ member), List.reverse_cons,
        List.append_assoc, List.singleton_append]

/-- Without a conversion the pointer goes back behind the `%`. -/
theorem convert_unrecognised {flags : List Byte} (all : ∀ b ∈ flags, isFlag b = true)
    (unknown : ch ∉ conversions) (before rest : List Byte) (ap : Arguments) (escape : Escape)
    (putdat : σ) :
    convert putch load nested ch ⟨ch :: (flags.reverse ++ char '%' :: before), rest⟩ ap escape
      putdat = .ok (⟨char '%' :: before, flags ++ ch :: rest⟩, ap,
        putch putdat ((char '%').signExtend 32)) := by
  simp only [mem_conversions, not_or] at unknown
  obtain ⟨c, e, s, d, u, o, p, x, percent⟩ := unknown
  rw [convert, if_neg c, if_neg e, if_neg s, if_neg d, if_neg u, if_neg o, if_neg p, if_neg x,
    if_neg percent, Cursor.back, ok_bind,
    backToPercent_flags fun b member => all b (List.mem_reverse.mp member), List.reverse_reverse]
  rfl

end Conversions

end FosV2
