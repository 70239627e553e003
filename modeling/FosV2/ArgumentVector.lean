import FosV2.StringSplit

/-!
The end of the argument vector that `strsplit` leaves. It is marked with a null pointer at the
beginning and where the string is finished, but not where there are too many arguments.
-/

namespace FosV2

open TokenRuns

def EndsInNull (string : Word) (splitChars : List Byte) (argv : Nat → Word) (mem : Memory) : Prop :=
  ∃ st code, strsplit string splitChars argv mem = .ok (st, code) ∧ st.argv st.argc = 0

section Vector

variable {splitChars : List Byte} {st st' : Splitting} {code : Word}

theorem walk_keeps {test : Splitting → Bool} {body : Splitting → Except Stop Splitting}
    (keeps : ∀ s next, body s = .ok next → next.argv = s.argv ∧ next.argc = s.argc)
    (returned : WhileLoop.run test body .endlessLoop stringFuel st = .ok st') :
    st'.argv = st.argv ∧ st'.argc = st.argc := by
  have turns := (WhileLoop.turns_of_run returned).1
  refine turns.preserves (fun s => s.argv = st.argv ∧ s.argc = st.argc) ?_ ⟨rfl, rfl⟩
  intro s next same turn
  obtain ⟨sameArgv, sameArgc⟩ := keeps s next turn.2
  exact ⟨sameArgv.trans same.1, sameArgc.trans same.2⟩

theorem trim_keeps (returned : st.trim splitChars = .ok st') :
    st'.argv = st.argv ∧ st'.argc = st.argc := by
  refine walk_keeps (fun s next turn => ?_) returned
  cases turn
  exact ⟨rfl, rfl⟩

theorem scan_keeps (returned : st.scan splitChars = .ok st') :
    st'.argv = st.argv ∧ st'.argc = st.argc := by
  refine walk_keeps (fun s next turn => ?_) returned
  cases turn
  exact ⟨rfl, rfl⟩

/-- The last place of the vector is written where the string is finished, or not at all. -/
theorem arguments_vector {fuel : Nat} (below : st.argc ≤ 15)
    (returned : st.arguments splitChars fuel = .ok (st', code)) :
    (code = 1 ∧ st'.argv st'.argc = 0) ∨
      (code = 0 ∧ st'.argc = 15 ∧ st'.argv 15 = st.argv 15) := by
  induction fuel generalizing st with
  | zero => cases returned
  | succ fuel ih =>
      rw [Splitting.arguments] at returned
      obtain ⟨behind, trims, returned⟩ := bind_eq_ok returned
      obtain ⟨sameArgv, sameArgc⟩ := trim_keeps trims
      split at returned
      · cases returned
        exact .inl ⟨rfl, Function.update_self ..⟩
      split at returned
      · rename_i full
        cases returned
        exact .inr ⟨rfl, full, congrFun sameArgv 15⟩
      · rename_i room
        obtain ⟨next, scans, returned⟩ := bind_eq_ok returned
        obtain ⟨nextArgv, nextArgc⟩ := scan_keeps scans
        have few : behind.argc < 15 := by
          have notFull : behind.argc ≠ 15 := room
          omega
        have more : next.argc ≤ 15 := nextArgc ▸ few
        have untouched : next.argv 15 = st.argv 15 := by
          rw [nextArgv, ← sameArgv]
          exact Function.update_of_ne (Nat.ne_of_gt few) ..
        rw [← untouched]
        exact ih more returned

theorem strsplit_vector (splitChars : List Byte) (argv : Nat → Word) {mem : Memory} {p : Word}
    {s : List Byte} (held : HoldsString mem p s) : ∃ st code,
      strsplit p splitChars argv mem = .ok (st, code) ∧ IsSplit splitChars mem p s st code ∧
        ((tokens (isSplitChar splitChars) s).length ≤ 15 → st.argv st.argc = 0) ∧
        (15 < (tokens (isSplitChar splitChars) s).length →
          st.argc = 15 ∧ st.argv 15 = argv 15) := by
  have last : Function.update argv 0 0 15 = argv 15 :=
    Function.update_of_ne (Nat.succ_ne_zero 14) ..
  obtain ⟨st, code, returned, split⟩ := arguments_walked held
    (.start splitChars p s (Function.update argv 0 0)) (Nat.le_refl maxArguments)
  have vector := arguments_vector (Nat.zero_le 15) returned
  refine ⟨st, code, (strsplit_walked splitChars argv mem p s).trans returned, split, ?_, ?_⟩
  · intro few
    have one : code = 1 := by rw [split.code, if_pos few]
    rcases vector with ⟨_, null⟩ | ⟨zero, _⟩
    · exact null
    · rw [zero] at one
      exact absurd one (by decide)
  · intro many
    have zero : code = 0 := by rw [split.code, if_neg (Nat.not_le.mpr many)]
    rcases vector with ⟨one, _⟩ | ⟨_, full, kept⟩
    · rw [one] at zero
      exact absurd zero (by decide)
    · exact ⟨full, kept.trans last⟩

end Vector

/-- The vector ends in a null pointer where there are at most 15 arguments, or where its last
place happened to hold one before. -/
theorem endsInNull_iff (splitChars : List Byte) (argv : Nat → Word) {mem : Memory} {p : Word}
    {s : List Byte} (held : HoldsString mem p s) : EndsInNull p splitChars argv mem ↔
      (tokens (isSplitChar splitChars) s).length ≤ 15 ∨ argv 15 = 0 := by
  obtain ⟨st, code, returned, _, few, many⟩ := strsplit_vector splitChars argv held
  have ends : EndsInNull p splitChars argv mem ↔ st.argv st.argc = 0 := by
    constructor
    · rintro ⟨st', code', returned', null⟩
      cases returned.symm.trans returned'
      exact null
    · exact fun null => ⟨st, code, returned, null⟩
  rw [ends]
  by_cases fits : (tokens (isSplitChar splitChars) s).length ≤ 15
  · exact iff_of_true (few fits) (.inl fits)
  · obtain ⟨full, kept⟩ := many (Nat.not_le.mp fits)
    rw [full, kept]
    exact (or_iff_right fits).symm

theorem endsInNull_iff_ap : EndsInNull 0 whitespace (fun _ => 4096)
    (stringMemory 0 ("ap 0x1000".toList.map char)) :=
  (endsInNull_iff whitespace (fun _ => 4096) (holdsString_stringMemory 0
    (s := "ap 0x1000".toList.map char) (by decide) (by decide))).mpr (.inl (by decide))

/-- Sixteen arguments, over a vector of pointers that are not null. -/
theorem not_endsInNull_sixteen : ¬EndsInNull 0 whitespace (fun _ => 4096)
    (stringMemory 0 ("a a a a a a a a a a a a a a a a".toList.map char)) := by
  have sixteen : (tokens (isSplitChar whitespace)
      ("a a a a a a a a a a a a a a a a".toList.map char)).length = 16 := by decide
  obtain ⟨st, code, returned, _, _, many⟩ := strsplit_vector whitespace (fun _ => 4096)
    (holdsString_stringMemory 0 (s := "a a a a a a a a a a a a a a a a".toList.map char)
      (by decide) (by decide))
  obtain ⟨full, kept⟩ := many (sixteen ▸ Nat.lt_succ_self 15)
  rintro ⟨st', code', returned', null⟩
  cases returned.symm.trans returned'
  rw [full, kept] at null
  exact absurd null (by decide)

end FosV2
