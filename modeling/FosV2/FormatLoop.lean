import FosV2.FormatEscapes
import Mathlib.Logic.Relation

/-!
What `vprintfmt` makes of its format. Its pointer stays in the string whatever stands behind a
`%`: an escape that is not recognised, or that the string ends in, is gone over twice, once for
its flags and once as literal text, and the second time from right behind its `%` on.
-/

namespace FosV2

/-! The loop -/

structure Printing (σ : Type) where
  fmt : Cursor
  ap : Arguments
  putdat : σ

def printStep {σ : Type} (putch : σ → Word → σ) (load : Word → Except Stop Byte)
    (nested : List Byte → Arguments → σ → Except Stop σ) (s : Printing σ) :
    Except Stop (Option (Printing σ)) := do
  let (ch, fmt) ← s.fmt.next
  if ch ≠ char '%' then
    if ch = 0 then return none
    else return some ⟨fmt, s.ap, putch s.putdat (ch.setWidth 32)⟩
  else
    let (ch, fmt, ap, escape) ← reswitch fmt.after.length fmt s.ap .start
    let (fmt, ap, putdat) ← convert putch load nested ch fmt ap escape s.putdat
    return some ⟨fmt, ap, putdat⟩

section Loop

variable {σ : Type} {putch : σ → Word → σ} {load : Word → Except Stop Byte}
  {nested : List Byte → Arguments → σ → Except Stop σ} {ch : Byte} {flags : List Byte}
  {fuel : Nat}

theorem printEscapes_step (s : Printing σ) :
    printEscapes putch load nested (fuel + 1) s.fmt s.ap s.putdat =
      printStep putch load nested s >>= fun next => next.elim (.ok s.putdat) fun next =>
        printEscapes putch load nested fuel next.fmt next.ap next.putdat := by
  rw [printEscapes, printStep]
  cases s.fmt.next with
  | error stop => rfl
  | ok first =>
      simp only [ok_bind]
      by_cases literal : first.1 ≠ char '%'
      · rw [if_pos literal, if_pos literal]
        by_cases nul : first.1 = 0
        · rw [if_pos nul, if_pos nul]
          rfl
        · rw [if_neg nul, if_neg nul]
          rfl
      · rw [if_neg literal, if_neg literal, bind_assoc]
        congr 1
        funext reached
        rw [bind_assoc]
        rfl

theorem printStep_literal (literal : ch ≠ char '%') (some_ : ch ≠ 0) (before rest : List Byte)
    (ap : Arguments) (putdat : σ) :
    printStep putch load nested ⟨⟨before, ch :: rest⟩, ap, putdat⟩ =
      .ok (some ⟨⟨ch :: before, rest⟩, ap, putch putdat (ch.setWidth 32)⟩) := by
  rw [printStep, Cursor.next, ok_bind]
  exact (if_pos literal).trans (if_neg some_)

variable (putch load nested) in
theorem printStep_escape (all : ∀ b ∈ flags, isFlag b = true) (ends : isFlag ch = false)
    (before rest : List Byte) (ap : Arguments) (putdat : σ) :
    ∃ escape, printStep putch load nested
        ⟨⟨before, char '%' :: (flags ++ ch :: rest)⟩, ap, putdat⟩ = (do
      let (fmt, ap, putdat) ← convert putch load nested ch
        ⟨ch :: (flags.reverse ++ char '%' :: before), rest⟩ (ap.drop (taken flags)) escape putdat
      return some ⟨fmt, ap, putdat⟩) := by
  have enough : flags.length < (flags ++ ch :: rest).length := by simp
  obtain ⟨escape, reached⟩ :=
    reswitch_flags all ends enough (char '%' :: before) rest ap .start
  refine ⟨escape, ?_⟩
  rw [printStep, Cursor.next, ok_bind]
  refine (if_neg (not_not.mpr rfl)).trans ?_
  rw [reached, ok_bind]

theorem printStep_conversion
    (inner : ∀ ap putdat, ∃ putdat', nested ("error %d".toList.map char) ap putdat = .ok putdat')
    (all : ∀ b ∈ flags, isFlag b = true) (conversion : ch ∈ conversions)
    (before rest : List Byte) (ap : Arguments) (putdat : σ)
    (string : ch = char 's' → Terminated (textAt load (ap.drop (taken flags) 0))) :
    ∃ ap' putdat', printStep putch load nested
        ⟨⟨before, char '%' :: (flags ++ ch :: rest)⟩, ap, putdat⟩ =
      .ok (some ⟨⟨ch :: (flags.reverse ++ char '%' :: before), rest⟩, ap', putdat'⟩) := by
  have ends := not_flag_of_conversion conversion
  obtain ⟨escape, step⟩ := printStep_escape putch load nested all ends before rest ap putdat
  obtain ⟨ap', putdat', converted⟩ := convert_returns putch inner conversion string
    ⟨ch :: (flags.reverse ++ char '%' :: before), rest⟩ escape putdat
  refine ⟨ap', putdat', ?_⟩
  rw [step, converted]
  rfl

variable (putch load nested) in
theorem printStep_unrecognised (all : ∀ b ∈ flags, isFlag b = true) (unknown : Unrecognised ch)
    (before rest : List Byte) (ap : Arguments) (putdat : σ) :
    printStep putch load nested ⟨⟨before, char '%' :: (flags ++ ch :: rest)⟩, ap, putdat⟩ =
      .ok (some ⟨⟨char '%' :: before, flags ++ ch :: rest⟩, ap.drop (taken flags),
        putch putdat ((char '%').signExtend 32)⟩) := by
  obtain ⟨escape, step⟩ := printStep_escape putch load nested all unknown.1 before rest ap putdat
  rw [step, convert_unrecognised all unknown.2]
  rfl

def putLiteral (putch : σ → Word → σ) (bytes : List Byte) (putdat : σ) : σ :=
  bytes.foldl (fun putdat ch => putch putdat (ch.setWidth 32)) putdat

theorem printEscapes_text {text : List Byte} (plain : ∀ b ∈ text, b ≠ char '%' ∧ b ≠ 0)
    (before rest : List Byte) (ap : Arguments) (putdat : σ) :
    printEscapes putch load nested (text.length + fuel) ⟨before, text ++ rest⟩ ap putdat =
      printEscapes putch load nested fuel ⟨text.reverse ++ before, rest⟩ ap
        (putLiteral putch text putdat) := by
  induction text generalizing before putdat with
  | nil => rw [List.length_nil, Nat.zero_add]; rfl
  | cons ch text ih =>
      obtain ⟨literal, some_⟩ := plain ch (List.mem_cons_self ..)
      rw [List.length_cons, Nat.add_right_comm, List.cons_append,
        printEscapes_literal literal some_,
        ih fun b member => plain b (List.mem_cons_of_mem _ member), List.reverse_cons,
        List.append_assoc, List.singleton_append]
      rfl

theorem printfmt_error (ap : Arguments) (putdat : σ) :
    ∃ putdat', printfmt putch load ("error %d".toList.map char) ap putdat = .ok putdat' := by
  have text : "error %d".toList.map char ++ [0] =
      "error ".toList.map char ++ char '%' :: [char 'd', 0] := by decide
  have plain : ∀ b ∈ "error ".toList.map char, b ≠ char '%' ∧ b ≠ 0 := by decide
  have fuel : ("error %d".toList.map char).length + 1 =
      ("error ".toList.map char).length + 3 := by decide
  obtain ⟨putdat', put⟩ := putSigned_returns putch ((ap 0).signExtend 64) .start
    (putLiteral putch ("error ".toList.map char) putdat)
  refine ⟨putdat', ?_⟩
  rw [printfmt, printFormat, Cursor.ofString, text, fuel, printEscapes_text plain,
    printEscapes_escape rfl, convert_decimal]
  have short : getint ap Escape.start.lflag = ((ap 0).signExtend 64, ap.rest) := if_neg (by decide)
  simp only [short, put, ok_bind]
  rfl

/-! What the loop passes through -/

def Passes (putch : σ → Word → σ) (load : Word → Except Stop Byte) :
    Printing σ → Printing σ → Prop :=
  Relation.ReflTransGen fun s next => printStep putch load (printfmt putch load) s = .ok (some next)

def StringArguments (putch : σ → Word → σ) (load : Word → Except Stop Byte) (s : Printing σ) :
    Prop :=
  ∀ t, Passes putch load s t → ∀ flags rest, (∀ b ∈ flags, isFlag b = true) →
    t.fmt.after = char '%' :: (flags ++ char 's' :: rest) →
      Terminated (textAt load (t.ap.drop (taken flags) 0))

def Cursor.string (fmt : Cursor) : List Byte := fmt.before.reverse ++ fmt.after

def Cursor.Inside (fmt : Cursor) : Prop := ∃ text, 0 ∉ text ∧ fmt.after = text ++ [0]

theorem exists_escape {text : List Byte} (noNul : 0 ∉ text) :
    ∃ flags ch rest, text ++ [0] = flags ++ ch :: rest ∧ (∀ b ∈ flags, isFlag b = true) ∧
      isFlag ch = false ∧ (ch ≠ 0 → ∃ text', 0 ∉ text' ∧ rest = text' ++ [0]) := by
  induction text with
  | nil => exact ⟨[], 0, [], rfl, fun _ member => absurd member List.not_mem_nil, by decide,
      fun some_ => absurd rfl some_⟩
  | cons first text ih =>
      have noNul' : 0 ∉ text := fun member => noNul (List.mem_cons_of_mem _ member)
      cases flag : isFlag first with
      | false =>
          exact ⟨[], first, text ++ [0], rfl, fun _ member => absurd member List.not_mem_nil, flag,
            fun _ => ⟨text, noNul', rfl⟩⟩
      | true =>
          obtain ⟨flags, ch, rest, split, all, ends, more⟩ := ih noNul'
          refine ⟨first :: flags, ch, rest, congrArg (first :: ·) split, fun b member => ?_, ends,
            more⟩
          rcases List.mem_cons.mp member with rfl | later
          · exact flag
          · exact all b later

theorem printStep_inside {s : Printing σ} (inside : s.fmt.Inside)
    (strings : StringArguments putch load s) :
    printStep putch load (printfmt putch load) s = .ok none ∨
      ∃ next, printStep putch load (printfmt putch load) s = .ok (some next) ∧
        next.fmt.Inside ∧ next.fmt.string = s.fmt.string ∧
        next.fmt.after.length < s.fmt.after.length := by
  obtain ⟨⟨before, after⟩, ap, putdat⟩ := s
  obtain ⟨text, noNul, rfl⟩ := inside
  cases text with
  | nil => exact Or.inl rfl
  | cons first text =>
      have noNul' : 0 ∉ text := fun member => noNul (List.mem_cons_of_mem _ member)
      have some_ : first ≠ 0 := fun nul => noNul (nul ▸ List.mem_cons_self ..)
      refine Or.inr ?_
      by_cases percent : first = char '%'
      · subst percent
        obtain ⟨flags, ch, rest, split, all, ends, more⟩ := exists_escape noNul'
        simp only [List.cons_append, split]
        by_cases conversion : ch ∈ conversions
        · have string : ch = char 's' →
              Terminated (textAt load (ap.drop (taken flags) 0)) := by
            rintro rfl
            exact strings _ .refl flags rest all (congrArg (char '%' :: ·) split)
          obtain ⟨ap', putdat', step⟩ := printStep_conversion printfmt_error all conversion before
            rest ap putdat string
          have notNul : ch ≠ 0 := by
            rintro rfl
            exact absurd conversion (by decide)
          refine ⟨_, step, more notNul, ?_, ?_⟩
          · simp [Cursor.string]
          · simp only [List.length_cons, List.length_append]
            omega
        · refine ⟨_, printStep_unrecognised putch load _ all ⟨ends, conversion⟩ before rest ap
            putdat,
            ⟨text, noNul', split.symm⟩, ?_, ?_⟩
          · simp [Cursor.string]
          · exact Nat.lt_succ_self _
      · refine ⟨_, printStep_literal percent some_ before (text ++ [0]) ap putdat,
          ⟨text, noNul', rfl⟩, ?_, Nat.lt_succ_self _⟩
        simp [Cursor.string]

theorem StringArguments.step {s next : Printing σ} (strings : StringArguments putch load s)
    (step : printStep putch load (printfmt putch load) s = .ok (some next)) :
    StringArguments putch load next :=
  fun t passes => strings t (.head step passes)

theorem printEscapes_returns {s : Printing σ} (inside : s.fmt.Inside)
    (strings : StringArguments putch load s) (enough : s.fmt.after.length ≤ fuel) :
    ∃ out, printEscapes putch load (printfmt putch load) fuel s.fmt s.ap s.putdat = .ok out := by
  induction fuel generalizing s with
  | zero =>
      obtain ⟨text, _, after⟩ := inside
      rw [after, List.length_append, List.length_singleton] at enough
      omega
  | succ fuel ih =>
      rw [printEscapes_step]
      rcases printStep_inside inside strings with stops | ⟨next, step, inside', _, less⟩
      · rw [stops]
        exact ⟨s.putdat, rfl⟩
      · rw [step]
        exact ih inside' (strings.step step) (by omega)

theorem Passes.inside {s t : Printing σ} (passes : Passes putch load s t) (inside : s.fmt.Inside)
    (strings : StringArguments putch load s) :
    t.fmt.Inside ∧ t.fmt.string = s.fmt.string ∧ StringArguments putch load t := by
  induction passes with
  | refl => exact ⟨inside, rfl, strings⟩
  | tail _ step ih =>
      obtain ⟨inside', string, strings'⟩ := ih
      rcases printStep_inside inside' strings' with stops | ⟨next, step', inside'', same, _⟩
      · rw [step] at stops
        cases stops
      · rw [step] at step'
        cases step'
        exact ⟨inside'', same.trans string, strings'.step step⟩

theorem Passes.result {s t : Printing σ} (passes : Passes putch load s t)
    (stops : printStep putch load (printfmt putch load) t = .ok none) {out : σ}
    (returned : printEscapes putch load (printfmt putch load) fuel s.fmt s.ap s.putdat = .ok out) :
    out = t.putdat := by
  induction passes using Relation.ReflTransGen.head_induction_on generalizing fuel with
  | refl =>
      cases fuel with
      | zero => cases returned
      | succ fuel =>
          rw [printEscapes_step, stops] at returned
          exact (Except.ok.inj returned).symm
  | head step _ ih =>
      cases fuel with
      | zero => cases returned
      | succ fuel =>
          rw [printEscapes_step, step] at returned
          exact ih returned

variable (putch load) in
theorem Passes.text {text : List Byte} (plain : ∀ b ∈ text, b ≠ char '%' ∧ b ≠ 0)
    (before rest : List Byte) (ap : Arguments) (putdat : σ) :
    Passes putch load ⟨⟨before, text ++ rest⟩, ap, putdat⟩
      ⟨⟨text.reverse ++ before, rest⟩, ap, putLiteral putch text putdat⟩ := by
  induction text generalizing before putdat with
  | nil => exact .refl
  | cons ch text ih =>
      obtain ⟨literal, some_⟩ := plain ch (List.mem_cons_self ..)
      rw [List.reverse_cons, List.append_assoc, List.singleton_append]
      exact .head (printStep_literal literal some_ before (text ++ rest) ap putdat)
        (ih (fun b member => plain b (List.mem_cons_of_mem _ member)) (ch :: before) _)

def PrintsLiterally (putch : σ → Word → σ) (load : Word → Except Stop Byte) (fmt : List Byte)
    (ap : Arguments) (putdat : σ) (s : Printing σ) : Prop :=
  ∀ before flags ch rest, s.fmt = ⟨before, char '%' :: (flags ++ ch :: rest)⟩ →
    (∀ b ∈ flags, isFlag b = true) → Unrecognised ch →
      printStep putch load (printfmt putch load) s =
          .ok (some ⟨⟨char '%' :: before, flags ++ ch :: rest⟩, s.ap.drop (taken flags),
            putLiteral putch [char '%'] s.putdat⟩) ∧
        (ch ≠ 0 → Passes putch load s
          ⟨⟨ch :: (flags.reverse ++ char '%' :: before), rest⟩, s.ap.drop (taken flags),
            putLiteral putch (char '%' :: (flags ++ [ch])) s.putdat⟩) ∧
        (ch = 0 → vprintfmt putch load fmt ap putdat =
          .ok (putLiteral putch (char '%' :: flags) s.putdat))

theorem plain_of_flags (all : ∀ b ∈ flags, isFlag b = true) :
    ∀ b ∈ flags, b ≠ char '%' ∧ b ≠ 0 := by
  intro b member
  have flag := all b member
  constructor
  · rintro rfl
    exact absurd flag (by decide)
  · rintro rfl
    exact absurd flag (by decide)

theorem printsLiterally_of_passes {fmt : List Byte} {ap : Arguments} {putdat out : σ}
    {s : Printing σ} (passes : Passes putch load ⟨.ofString fmt, ap, putdat⟩ s)
    (returned : vprintfmt putch load fmt ap putdat = .ok out) :
    PrintsLiterally putch load fmt ap putdat s := by
  intro before flags ch rest here all unknown
  obtain ⟨_, ap', putdat'⟩ := s
  subst here
  have step := printStep_unrecognised putch load (printfmt putch load) all unknown before rest ap'
    putdat'
  refine ⟨step, fun some_ => ?_, fun nul => ?_⟩
  · have percent : ch ≠ char '%' := by
      rintro rfl
      exact unknown.2 (by decide)
    have plain : ∀ b ∈ flags ++ [ch], b ≠ char '%' ∧ b ≠ 0 := by
      intro b member
      rcases List.mem_append.mp member with flag | last
      · exact plain_of_flags all b flag
      · rw [List.mem_singleton.mp last]
        exact ⟨percent, some_⟩
    have shown := Passes.text putch load plain (char '%' :: before) rest
      (ap'.drop (taken flags)) (putLiteral putch [char '%'] putdat')
    rw [List.reverse_append, List.append_assoc] at shown
    exact .head step shown
  · subst nul
    have shown := Passes.text putch load (plain_of_flags all)
      (char '%' :: before) (0 :: rest) (ap'.drop (taken flags))
      (putLiteral putch [char '%'] putdat')
    have whole : Passes putch load ⟨.ofString fmt, ap, putdat⟩ _ :=
      passes.trans (.head step shown)
    have last := whole.result rfl returned
    rw [returned, last]
    rfl

/-- `vprintfmt` returns with its pointer never outside the string, and prints each escape that it
does not recognise as it stands. -/
theorem vprintfmt_inString (putch : σ → Word → σ) (load : Word → Except Stop Byte)
    {fmt : List Byte} (noNul : 0 ∉ fmt) (ap : Arguments) (putdat : σ)
    (strings : StringArguments putch load ⟨.ofString fmt, ap, putdat⟩) :
    (∃ out, vprintfmt putch load fmt ap putdat = .ok out) ∧
      ∀ s, Passes putch load ⟨.ofString fmt, ap, putdat⟩ s →
        s.fmt.string = fmt ++ [0] ∧ s.fmt.after ≠ [] ∧
          PrintsLiterally putch load fmt ap putdat s := by
  have inside : (Cursor.ofString fmt).Inside := ⟨fmt, noNul, rfl⟩
  have length : (Cursor.ofString fmt).after.length ≤ fmt.length + 1 := by
    rw [Cursor.ofString, List.length_append, List.length_singleton]
  obtain ⟨out, returned⟩ := printEscapes_returns (s := ⟨.ofString fmt, ap, putdat⟩) inside strings
    length
  refine ⟨⟨out, returned⟩, fun s passes => ?_⟩
  obtain ⟨⟨text, _, after⟩, string, _⟩ := passes.inside inside strings
  refine ⟨string, ?_, printsLiterally_of_passes passes returned⟩
  rw [after]
  exact List.append_ne_nil_of_right_ne_nil text (List.cons_ne_nil 0 [])

end Loop

/-! A format with a recognised, an unrecognised and an unfinished escape, for empty strings -/

def mixedFormat : List Byte := "%5s %-3y %".toList.map char

def emptyStrings : Word → Except Stop Byte := fun _ => .ok 0

theorem stringArguments_emptyStrings {σ : Type} (putch : σ → Word → σ) (s : Printing σ) :
    StringArguments putch emptyStrings s := by
  intro t _ flags rest _ _
  rw [textAt]
  split
  · exact terminated_literal (by decide)
  · exact ⟨0, by decide, rfl, fun i before => absurd before (Nat.not_lt_zero i)⟩

theorem vprintfmt_inString_mixedFormat :
    (∃ out, vprintfmt record emptyStrings mixedFormat (fun _ => 4096) [] = .ok out) ∧
      ∀ s, Passes record emptyStrings ⟨.ofString mixedFormat, fun _ => 4096, []⟩ s →
        s.fmt.string = mixedFormat ++ [0] ∧ s.fmt.after ≠ [] ∧
          PrintsLiterally record emptyStrings mixedFormat (fun _ => 4096) [] s :=
  vprintfmt_inString record emptyStrings (by decide) (fun _ => 4096) []
    (stringArguments_emptyStrings record _)

end FosV2
