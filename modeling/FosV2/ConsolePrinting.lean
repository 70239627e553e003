import FosV2.PrintText

/-!
The two `cprintf`s on top of `vprintfmt`: the one of `kern/printf.c` puts each character on
the console, the one of `lib/printf.c` collects them in a buffer for `sys_cputs`. Each keeps
a count of its own, and the count of the kernel stays at 0.
-/

namespace FosV2

section Kernel

variable {σ : Type} (cputchar : σ → Word → σ)

/-- `*cnt++` moves the pointer on and leaves the counter as it is. -/
def kernelPutch (putdat : σ × Word) (ch : Word) : σ × Word :=
  (cputchar putdat.1 ch, putdat.2)

def kernelVcprintf (load : Word → Except Stop Byte) (fmt : List Byte) (ap : Arguments)
    (console : σ) : Except Stop (Word × σ) := do
  let (console, cnt) ← vprintfmt (kernelPutch cputchar) load fmt ap (console, 0)
  return (cnt, console)

end Kernel

structure PrintBuf where
  idx : Nat
  cnt : Word
  buf : Nat → Byte

def cputsBytes (buf : Nat → Byte) (len : Nat) : List Byte :=
  (List.range len).map buf

def userPutch (putdat : PrintBuf × List (List Byte)) (ch : Word) :
    PrintBuf × List (List Byte) :=
  let b := putdat.1
  let b := { b with buf := Function.update b.buf b.idx (ch.setWidth 8), idx := b.idx + 1 }
  let (b, calls) :=
    if b.idx = 256 - 1 then ({ b with idx := 0 }, putdat.2 ++ [cputsBytes b.buf b.idx])
    else (b, putdat.2)
  ({ b with cnt := b.cnt + 1 }, calls)

/-- The buffer lies uninitialized on the stack. -/
def userVcprintf (stack : Nat → Byte) (load : Word → Except Stop Byte) (fmt : List Byte)
    (ap : Arguments) : Except Stop (Word × List (List Byte)) := do
  let (b, calls) ← vprintfmt userPutch load fmt ap (⟨0, 0, stack⟩, [])
  return (b.cnt, calls ++ [cputsBytes b.buf b.idx])

/-! What the two callbacks make of a sequence of characters. -/

theorem foldl_kernelPutch {σ : Type} (cputchar : σ → Word → σ) (chars : List Word)
    (console : σ) (cnt : Word) :
    chars.foldl (kernelPutch cputchar) (console, cnt) = (chars.foldl cputchar console, cnt) := by
  induction chars generalizing console with
  | nil => rfl
  | cons ch rest ih => exact ih (cputchar console ch)

theorem kernelVcprintf_printed {σ : Type} (cputchar : σ → Word → σ)
    {load : Word → Except Stop Byte} {fmt : List Byte} {ap : Arguments} {chars : List Word}
    (returns : printed load fmt ap = .ok chars) (console : σ) :
    kernelVcprintf cputchar load fmt ap console = .ok (0, chars.foldl cputchar console) := by
  rw [kernelVcprintf, vprintfmt_eq_printed, returns]
  change Except.ok ((chars.foldl (kernelPutch cputchar) (console, 0)).2,
    (chars.foldl (kernelPutch cputchar) (console, 0)).1) = _
  rw [foldl_kernelPutch]

structure Buffered (putdat : PrintBuf × List (List Byte)) (chars : List Word) : Prop where
  inside : putdat.1.idx < 255
  counted : putdat.1.cnt = BitVec.ofNat 32 chars.length
  bytes : putdat.2.flatten ++ cputsBytes putdat.1.buf putdat.1.idx =
    chars.map (BitVec.setWidth 8)

theorem cputsBytes_update (buf : Nat → Byte) (idx : Nat) (ch : Byte) :
    cputsBytes (Function.update buf idx ch) (idx + 1) = cputsBytes buf idx ++ [ch] := by
  rw [cputsBytes, List.range_succ, List.map_append, List.map_singleton, Function.update_self,
    cputsBytes]
  congr 1
  apply List.map_congr_left
  intro i member
  exact Function.update_of_ne (Nat.ne_of_lt (List.mem_range.mp member)) _ _

theorem Buffered.putch {putdat : PrintBuf × List (List Byte)} {chars : List Word}
    (buffered : Buffered putdat chars) (ch : Word) :
    Buffered (userPutch putdat ch) (chars ++ [ch]) := by
  have inside := buffered.inside
  have written := cputsBytes_update putdat.1.buf putdat.1.idx (ch.setWidth 8)
  have all : putdat.2.flatten ++ cputsBytes (Function.update putdat.1.buf putdat.1.idx
      (ch.setWidth 8)) (putdat.1.idx + 1) = (chars ++ [ch]).map (BitVec.setWidth 8) := by
    rw [written, ← List.append_assoc, buffered.bytes, List.map_append, List.map_singleton]
  have counted : putdat.1.cnt + 1 = BitVec.ofNat 32 (chars ++ [ch]).length := by
    rw [buffered.counted, List.length_append, List.length_singleton, BitVec.ofNat_add]
    rfl
  by_cases full : putdat.1.idx + 1 = 256 - 1
  · simp only [userPutch, full, if_true] at all ⊢
    refine ⟨Nat.zero_lt_succ 254, counted, ?_⟩
    rw [List.flatten_append, ← all]
    simp [cputsBytes]
  · simp only [userPutch, full, if_false]
    exact ⟨by dsimp only; omega, counted, all⟩

theorem Buffered.foldl {putdat : PrintBuf × List (List Byte)} {before : List Word}
    (buffered : Buffered putdat before) (chars : List Word) :
    Buffered (chars.foldl userPutch putdat) (before ++ chars) := by
  induction chars generalizing putdat before with
  | nil => simpa using buffered
  | cons ch rest ih => simpa using ih (buffered.putch ch)

theorem userVcprintf_printed (stack : Nat → Byte) {load : Word → Except Stop Byte}
    {fmt : List Byte} {ap : Arguments} {chars : List Word}
    (returns : printed load fmt ap = .ok chars) :
    ∃ calls, userVcprintf stack load fmt ap = .ok (BitVec.ofNat 32 chars.length, calls) ∧
      calls.flatten = chars.map (BitVec.setWidth 8) := by
  have empty : Buffered (⟨0, 0, stack⟩, []) [] := ⟨Nat.zero_lt_succ 254, rfl, rfl⟩
  have buffered := empty.foldl chars
  rw [List.nil_append] at buffered
  rw [userVcprintf, vprintfmt_eq_printed, returns, ← buffered.counted]
  refine ⟨_, rfl, ?_⟩
  rw [List.flatten_append, List.flatten_singleton]
  exact buffered.bytes

/-! The formats that print nothing. -/

/-- A `%s` reads its first character before it looks at the precision. -/
def NoText (text : Text) (precision : Word) : Prop :=
  precision = 0 ∨ text 0 = .ok 0

/-- There is no literal text in the format and no conversion but `%s`, each one of an empty
string or with precision 0, and without a width. -/
inductive Silent (load : Word → Except Stop Byte) : Cursor → Arguments → Prop
  | done {fmt : Cursor} {ap : Arguments} : fmt.after.head? = some 0 → Silent load fmt ap
  | string {fmt fmt' : Cursor} {ap ap' : Arguments} {escape : Escape} {rest : List Byte} :
      fmt.after = char '%' :: rest →
      reswitch rest.length ⟨char '%' :: fmt.before, rest⟩ ap .start =
        .ok (char 's', fmt', ap', escape) →
      escape.width.toInt ≤ 0 → NoText (textAt load (ap' 0)) escape.precision →
      Silent load fmt' ap'.rest → Silent load fmt ap

section Counting

def tally (count : Nat) (_ : Word) : Nat := count + 1

variable {load : Word → Except Stop Byte} {text : Text} {escape : Escape} {n m : Nat}

theorem putPadding_tally (width : Word) (padc : Byte) (n : Nat) :
    putPadding tally width padc n = n + width.toInt.toNat := by
  rw [putPadding]
  induction width.toInt.toNat with
  | zero => rfl
  | succ count ih =>
      rw [Nat.repeat, ih, tally]
      omega

theorem printnum_tally {fuel : Nat} {num base : BitVec 64} {width : Word} {padc : Byte}
    (result : printnum tally fuel num base width padc n = .ok m) : n < m := by
  induction fuel generalizing num width m with
  | zero => cases result
  | succ fuel ih =>
      rw [printnum] at result
      split at result
      · cases before : printnum tally fuel (num / base) base (width - 1) padc n with
        | error stop =>
            rw [before] at result
            cases result
        | ok k =>
            rw [before] at result
            cases result
            exact Nat.lt_succ_of_lt (ih before)
      · rw [putPadding_tally] at result
        cases result
        simp only [tally]
        omega

theorem putText_tally {altflag : Bool} {fuel i : Nat} {precision width left : Word}
    (result : putText tally text altflag fuel i precision width n = .ok (left, m)) :
    n ≤ m ∧ (m = n ↔ precision = 0 ∨ text i = .ok 0) ∧ (m = n → left = width) := by
  induction fuel generalizing i precision width n with
  | zero => exact nomatch result
  | succ fuel ih =>
      rw [putText] at result
      obtain ⟨ch, read, rest⟩ := bind_eq_ok result
      rw [read]
      by_cases ended : ch = 0
      · rw [if_pos ended] at rest
        cases rest
        simp [ended]
      · have some : (Except.ok ch : Except Stop Byte) ≠ .ok 0 := by simpa using ended
        rw [if_neg ended] at rest
        split at rest
        · rename_i shown
          have more := (ih rest).1
          have positive : precision ≠ 0 := by
            rintro rfl
            exact absurd shown (by decide)
          simp only [tally] at more
          refine ⟨by omega, iff_of_false (by omega) (not_or.mpr ⟨positive, some⟩), by omega⟩
        · rename_i cut
          cases rest
          simp [eq_zero_of_cut cut]

theorem strnlen_noText {precision : Word} {length : Nat} (noText : NoText text precision)
    (result : strnlen text precision.toNat 0 = .ok length) : length = 0 := by
  rcases noText with zero | empty
  · subst zero
    cases result
    rfl
  · cases size : precision.toNat with
    | zero =>
        rw [size] at result
        cases result
        rfl
    | succ size' =>
        rw [size, strnlen, empty, ok_bind] at result
        cases result
        rfl

theorem padText_tally {width : Word} {k : Nat}
    (result : padText tally text escape n = .ok (width, k)) :
    n ≤ k ∧ (escape.width.toInt ≤ 0 → k = n ∧ width = escape.width) ∧
      (0 < escape.width.toInt → NoText text escape.precision → k = n → 0 < width.toInt) := by
  rw [padText] at result
  split at result
  · rename_i padded
    obtain ⟨length, measured, rest⟩ := bind_eq_ok result
    simp only [putPadding_tally] at rest
    cases rest
    refine ⟨by omega, fun narrow => by omega, fun _ noText same => ?_⟩
    have zero := strnlen_noText noText measured
    subst zero
    have whole : escape.width - BitVec.ofNat 32 0 = escape.width := BitVec.sub_zero _
    rw [whole] at same
    omega
  · cases result
    exact ⟨Nat.le_refl n, fun _ => ⟨rfl, rfl⟩, fun wide _ _ => wide⟩

theorem putString_tally (result : putString tally text escape n = .ok m) :
    n ≤ m ∧ (m = n ↔ escape.width.toInt ≤ 0 ∧ NoText text escape.precision) := by
  rw [putString] at result
  obtain ⟨⟨width, k⟩, padded, rest⟩ := bind_eq_ok result
  dsimp only at rest
  obtain ⟨⟨left, j⟩, shown, last⟩ := bind_eq_ok rest
  obtain ⟨before, narrow, wide⟩ := padText_tally padded
  obtain ⟨text', empty, unchanged⟩ := putText_tally shown
  dsimp only at last
  rw [putPadding_tally] at last
  cases last
  refine ⟨by omega, fun same => ?_, fun both => ?_⟩
  · have noText : NoText text escape.precision := empty.mp (by omega)
    refine ⟨?_, noText⟩
    by_contra positive
    have left' := unchanged (by omega)
    have remains := wide (by omega) noText (by omega)
    rw [left'] at same
    omega
  · obtain ⟨thin, noText⟩ := both
    obtain ⟨sameCount, sameWidth⟩ := narrow thin
    have noneShown := empty.mpr noText
    have left' := unchanged noneShown
    rw [left', sameWidth]
    omega

theorem putNumber_tally {num base : BitVec 64}
    (result : putNumber tally num base escape n = .ok m) : n < m :=
  printnum_tally result

theorem putSigned_tally {num : BitVec 64} (result : putSigned tally num escape n = .ok m) :
    n < m := by
  rw [putSigned] at result
  split at result
  · exact Nat.lt_of_succ_lt (putNumber_tally result)
  · exact putNumber_tally result

theorem errorString_nonempty (i : Nat) (p : List Byte)
    (entry : errorString.getD i none = some p) : p.getD 0 0 ≠ 0 := by
  have all : ∀ entry ∈ errorString, ∀ p, entry = some p → p.getD 0 0 ≠ 0 := by
    simp [errorString, char]
  exact all _ (mem_errorString entry) p rfl

variable {printfmt : List Byte → Arguments → Nat → Except Stop Nat}

theorem putError_tally
    (nested : ∀ ap n m, printfmt ("error %d".toList.map char) ap n = .ok m → n < m)
    {err : Word} (result : putError tally printfmt err n = .ok m) : n < m := by
  simp only [putError] at result
  split at result
  · exact nested _ _ _ result
  · rename_i p entry
    obtain ⟨most, exactly⟩ := putString_tally result
    have some : p.getD 0 0 ≠ 0 := by
      by_cases beyond : maxError.toInt < (if err.toInt < 0 then -err else err).toInt
      · rw [if_pos beyond] at entry
        cases entry
      · rw [if_neg beyond] at entry
        exact errorString_nonempty _ p entry
    have notNone : ¬NoText (literal p) Escape.start.precision := by
      rintro (zero | empty)
      · exact absurd zero (by decide)
      · exact some (Except.ok.inj empty)
    have different : m ≠ n := fun same => notNone (exactly.mp same).2
    omega

theorem convert_tally
    (nested : ∀ ap n m, printfmt ("error %d".toList.map char) ap n = .ok m → n < m)
    {ch : Byte} {fmt fmt' : Cursor} {ap ap' : Arguments}
    (result : convert tally load printfmt ch fmt ap escape n = .ok (fmt', ap', m)) :
    n < m ∧ ch ≠ char 's' ∨ ch = char 's' ∧ fmt' = fmt ∧ ap' = ap.rest ∧ n ≤ m ∧
      (m = n ↔ escape.width.toInt ≤ 0 ∧ NoText (textAt load (ap 0)) escape.precision) := by
  rw [convert] at result
  by_cases string : ch = char 's'
  · right
    have notC : ch ≠ char 'c' := by rw [string]; decide
    have notE : ch ≠ char 'e' := by rw [string]; decide
    rw [if_neg notC, if_neg notE, if_pos string] at result
    obtain ⟨k, shown, rest⟩ := bind_eq_ok result
    cases rest
    obtain ⟨most, exactly⟩ := putString_tally shown
    exact ⟨string, rfl, rfl, most, exactly⟩
  · refine Or.inl ⟨?_, string⟩
    rw [if_neg string] at result
    split_ifs at result
    · cases result
      exact Nat.lt_succ_self n
    · obtain ⟨k, shown, rest⟩ := bind_eq_ok result
      cases rest
      exact putError_tally nested shown
    · obtain ⟨k, shown, rest⟩ := bind_eq_ok result
      cases rest
      exact putSigned_tally shown
    · obtain ⟨k, shown, rest⟩ := bind_eq_ok result
      cases rest
      exact putNumber_tally shown
    · cases result
      simp only [tally]
      omega
    · obtain ⟨k, shown, rest⟩ := bind_eq_ok result
      cases rest
      have more := putNumber_tally shown
      simp only [tally] at more
      omega
    · obtain ⟨k, shown, rest⟩ := bind_eq_ok result
      cases rest
      exact putNumber_tally shown
    · cases result
      exact Nat.lt_succ_self n
    · obtain ⟨back, _, rest⟩ := bind_eq_ok result
      obtain ⟨start, _, last⟩ := bind_eq_ok rest
      cases last
      exact Nat.lt_succ_self n

theorem Cursor.next_eq_ok {fmt fmt' : Cursor} {ch : Byte} (read : fmt.next = .ok (ch, fmt')) :
    fmt.after = ch :: fmt'.after ∧ fmt' = ⟨ch :: fmt.before, fmt'.after⟩ := by
  rw [Cursor.next] at read
  split at read
  · cases read
  · rename_i rest eq
    cases read
    exact ⟨eq, rfl⟩

theorem printEscapes_tally
    (nested : ∀ ap n m, printfmt ("error %d".toList.map char) ap n = .ok m → n < m)
    {fuel : Nat} {fmt : Cursor} {ap : Arguments}
    (result : printEscapes tally load printfmt fuel fmt ap n = .ok m) :
    n ≤ m ∧ (m = n ↔ Silent load fmt ap) := by
  induction fuel generalizing fmt ap n with
  | zero => cases result
  | succ fuel ih =>
      rw [printEscapes] at result
      obtain ⟨⟨ch, fmt₁⟩, read, rest⟩ := bind_eq_ok result
      obtain ⟨after, moved⟩ := Cursor.next_eq_ok read
      dsimp only at rest
      split_ifs at rest with literal ended
      · cases rest
        exact ⟨Nat.le_refl _, iff_of_true rfl (.done (by simp [after, ended]))⟩
      · have more := (ih rest).1
        simp only [tally] at more
        refine ⟨by omega, iff_of_false (by omega) ?_⟩
        rintro (head | percent)
        · rw [after] at head
          exact ended (Option.some.inj head)
        · rw [after] at percent
          exact literal (List.cons.inj percent).1
      · rw [not_not] at literal
        obtain ⟨⟨c, fmt₂, ap₂, escape⟩, reached, converts⟩ := bind_eq_ok rest
        dsimp only at converts
        obtain ⟨⟨fmt₃, ap₃, k⟩, converted, continues⟩ := bind_eq_ok converts
        dsimp only at continues
        obtain ⟨later, silent⟩ := ih continues
        have same : reswitch fmt₁.after.length ⟨char '%' :: fmt.before, fmt₁.after⟩ ap .start =
            .ok (c, fmt₂, ap₂, escape) := by
          rw [← literal, ← moved]
          exact reached
        rw [literal] at after
        have string : Silent load fmt ap ↔ c = char 's' ∧ escape.width.toInt ≤ 0 ∧
            NoText (textAt load (ap₂ 0)) escape.precision ∧ Silent load fmt₂ ap₂.rest := by
          constructor
          · rintro (head | ⟨percent, reached', narrow, noText, last⟩)
            · rw [after] at head
              exact absurd (Option.some.inj head) (by decide)
            · rw [after] at percent
              cases percent
              rw [same] at reached'
              cases reached'
              exact ⟨rfl, narrow, noText, last⟩
          · rintro ⟨rfl, narrow, noText, last⟩
            exact .string after same narrow noText last
        rw [string]
        rcases convert_tally nested converted with ⟨more, other⟩ | ⟨isString, rfl, rfl, most, exactly⟩
        · exact ⟨by omega, iff_of_false (by omega) fun both => other both.1⟩
        · refine ⟨by omega, fun same => ?_, fun quiet => ?_⟩
          · have first : k = n := by omega
            obtain ⟨narrow, noText⟩ := exactly.mp first
            exact ⟨isString, narrow, noText, silent.mp (by omega)⟩
          · obtain ⟨_, narrow, noText, last⟩ := quiet
            have first := exactly.mpr ⟨narrow, noText⟩
            have second := silent.mpr last
            omega

theorem not_silent_of_literal {fmt : Cursor} {ap : Arguments} {ch : Byte} {rest : List Byte}
    (after : fmt.after = ch :: rest) (some : ch ≠ 0) (literal : ch ≠ char '%') :
    ¬Silent load fmt ap := by
  rintro (head | percent)
  · rw [after] at head
    exact some (Option.some.inj head)
  · rw [after] at percent
    exact literal (List.cons.inj percent).1

theorem errorFormat_tally {ap : Arguments} (result : printFormat tally load
    (fun _ _ _ => .error .endlessLoop) ("error %d".toList.map char) ap n = .ok m) : n < m := by
  have nothing : ∀ ap n m, (fun _ _ _ => .error .endlessLoop :
      List Byte → Arguments → Nat → Except Stop Nat) ("error %d".toList.map char) ap n = .ok m →
      n < m := fun _ _ _ impossible => nomatch impossible
  obtain ⟨most, exactly⟩ := printEscapes_tally nothing result
  have first : (Cursor.ofString ("error %d".toList.map char)).after =
      char 'e' :: ("rror %d".toList.map char ++ [0]) := rfl
  have different : m ≠ n := fun same =>
    not_silent_of_literal first (by decide) (by decide) (exactly.mp same)
  omega

theorem foldl_tally (chars : List Word) (n : Nat) : chars.foldl tally n = n + chars.length := by
  induction chars generalizing n with
  | nil => rfl
  | cons ch rest ih =>
      rw [List.foldl_cons, ih, tally, List.length_cons]
      omega

theorem printed_eq_nil_iff {fmt : List Byte} {ap : Arguments} {chars : List Word}
    (returns : printed load fmt ap = .ok chars) :
    chars = [] ↔ Silent load (.ofString fmt) ap := by
  have counted : vprintfmt tally load fmt ap 0 = .ok chars.length := by
    rw [vprintfmt_eq_printed, returns, map_ok, foldl_tally, Nat.zero_add]
  have exactly := (printEscapes_tally (fun _ _ _ => errorFormat_tally) counted).2
  rw [← exactly, List.length_eq_zero_iff]

end Counting

def CprintfAgrees (stack : Nat → Byte) (load : Word → Except Stop Byte) (fmt : List Byte)
    (ap : Arguments) (chars : List Word) : Prop :=
  ∃ kernelCount userCount calls,
    kernelVcprintf record load fmt ap [] = .ok (kernelCount, chars) ∧
    userVcprintf stack load fmt ap = .ok (userCount, calls) ∧
    calls.flatten = chars.map (BitVec.setWidth 8) ∧
    kernelCount.toInt = chars.length ∧ userCount.toInt = chars.length

/-- The two print the same, but the kernel's count is right only where nothing is printed. -/
theorem cprintfAgrees_iff_silent (stack : Nat → Byte) {load : Word → Except Stop Byte}
    {fmt : List Byte} {ap : Arguments} {chars : List Word}
    (returns : printed load fmt ap = .ok chars) :
    CprintfAgrees stack load fmt ap chars ↔ Silent load (.ofString fmt) ap := by
  have kernel := kernelVcprintf_printed record returns []
  rw [foldl_record, List.nil_append] at kernel
  obtain ⟨calls, user, bytes⟩ := userVcprintf_printed stack returns
  rw [← printed_eq_nil_iff returns]
  constructor
  · rintro ⟨kernelCount, _, _, kernel', _, _, number, _⟩
    rw [kernel] at kernel'
    cases kernel'
    have none : (0 : Int) = chars.length := number
    exact List.length_eq_zero_iff.mp (by omega)
  · rintro rfl
    exact ⟨_, _, calls, kernel, user, bytes, rfl, rfl⟩

theorem cprintfAgrees_iff_silent_emptyString :
    CprintfAgrees (fun _ => 0) (fun _ => .ok 0) ("%s".toList.map char) (fun _ => 4096) [] := by
  have returns : printed (fun _ => .ok 0) ("%s".toList.map char) (fun _ => 4096) = .ok [] := rfl
  have reached : reswitch 2 ⟨[char '%'], [char 's', 0]⟩ (fun _ => 4096) .start =
      .ok (char 's', ⟨[char 's', char '%'], [0]⟩, fun _ => 4096, .start) := rfl
  exact (cprintfAgrees_iff_silent _ returns).mpr
    (.string rfl reached (by decide) (Or.inr rfl) (.done rfl))

/-- The kernel returns 0 for the format `a`. -/
theorem not_cprintfAgrees_letter : ¬∃ chars,
    CprintfAgrees (fun _ => 0) (fun _ => .ok 0) [char 'a'] (fun _ => 0) chars := by
  rintro ⟨chars, kernelCount, _, _, kernel, _, _, number, _⟩
  have shown : kernelVcprintf record (fun _ => .ok 0) [char 'a'] (fun _ => 0) [] =
      .ok (0, [0x61]) := rfl
  rw [shown] at kernel
  cases kernel
  exact absurd number (by decide)

end FosV2
