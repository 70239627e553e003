import Mathlib.Logic.Relation
import Mathlib.Order.Basic

/-!
Loops of imperative code that may stop with an error, run on fuel. An invariant that
counts the turns gives what a loop that has returned leaves, and, where every turn can be
made, that the loop does return; so does a measure that every turn takes down.
-/

namespace WhileLoop

variable {S ε : Type}

/-- `while (test(s)) body(s);` -/
def run (test : S → Bool) (body : S → Except ε S) (endless : ε) : Nat → S → Except ε S
  | 0, _ => .error endless
  | fuel + 1, s => if test s then body s >>= run test body endless fuel else .ok s

variable {test : S → Bool} {body : S → Except ε S} {endless : ε} {fuel : Nat} {s s' : S}

theorem run_stop (stops : test s = false) : run test body endless (fuel + 1) s = .ok s := by
  rw [run, stops]
  rfl

theorem run_turn (continues : test s = true) {next : S} (turn : body s = .ok next) :
    run test body endless (fuel + 1) s = run test body endless fuel next := by
  rw [run, continues, turn]
  rfl

/-- With fuel for all its turns, a loop whose turns can be made returns. -/
theorem run_of_invariant {inv : Nat → S → Prop} {turns : Nat}
    (continues : ∀ turn < turns, ∀ s, inv turn s →
      test s = true ∧ ∃ next, body s = .ok next ∧ inv (turn + 1) next)
    (stops : ∀ s, inv turns s → test s = false)
    {turn : Nat} (begun : turn ≤ turns) (start : inv turn s) (enough : turns < turn + fuel) :
    ∃ s', run test body endless fuel s = .ok s' ∧ inv turns s' := by
  induction fuel generalizing turn s with
  | zero => exact absurd begun (Nat.not_le.mpr enough)
  | succ fuel ih =>
      rcases Nat.eq_or_lt_of_le begun with last | more
      · subst last
        exact ⟨s, run_stop (stops s start), start⟩
      · obtain ⟨goesOn, next, result, kept⟩ := continues turn more s start
        rw [run_turn goesOn result]
        exact ih more kept (by omega)

/-- A loop whose turns can be made and take a measure down returns. -/
theorem run_of_measure {inv : S → Prop} (measure : S → Nat)
    (turn : ∀ s, inv s → test s = true →
      ∃ next, body s = .ok next ∧ inv next ∧ measure next < measure s)
    (start : inv s) (enough : measure s < fuel) :
    ∃ s', run test body endless fuel s = .ok s' ∧ inv s' := by
  induction fuel generalizing s with
  | zero => omega
  | succ fuel ih =>
      cases continues : test s with
      | false => exact ⟨s, run_stop continues, start⟩
      | true =>
          obtain ⟨next, result, kept, less⟩ := turn s start continues
          rw [run_turn continues result]
          exact ih kept (by omega)

theorem run_congr {body' : S → Except ε S} {inv : S → Prop}
    (agree : ∀ s, inv s → test s = true → body' s = body s)
    (preserved : ∀ s next, inv s → test s = true → body s = .ok next → inv next)
    (start : inv s) : run test body' endless fuel s = run test body endless fuel s := by
  induction fuel generalizing s with
  | zero => rfl
  | succ fuel ih =>
      cases continues : test s with
      | false => rw [run_stop continues, run_stop continues]
      | true =>
          have same := agree s start continues
          cases result : body s with
          | error stop =>
              rw [run, run, continues, same, result]
              rfl
          | ok next =>
              rw [run_turn continues result, run_turn continues (same.trans result)]
              exact ih (preserved s next start continues result)

/-! Turns. -/

def Turn (test : S → Bool) (body : S → Except ε S) (s next : S) : Prop :=
  test s = true ∧ body s = .ok next

/-- `Relation.ReflTransGen`: any number of turns. -/
abbrev Turns (test : S → Bool) (body : S → Except ε S) : S → S → Prop :=
  Relation.ReflTransGen (Turn test body)

theorem turns_of_run (returned : run test body endless fuel s = .ok s') :
    Turns test body s s' ∧ test s' = false := by
  induction fuel generalizing s with
  | zero => cases returned
  | succ fuel ih =>
      cases continues : test s with
      | false =>
          rw [run_stop continues] at returned
          cases returned
          exact ⟨.refl, continues⟩
      | true =>
          cases result : body s with
          | error stop =>
              rw [run, continues, result] at returned
              cases returned
          | ok next =>
              rw [run_turn continues result] at returned
              obtain ⟨turns, stopped⟩ := ih returned
              exact ⟨.head ⟨continues, result⟩ turns, stopped⟩

theorem Turns.preserves (inv : S → Prop) (preserved : ∀ s next, inv s → Turn test body s next →
    inv next) (turns : Turns test body s s') (start : inv s) : inv s' := by
  induction turns with
  | refl => exact start
  | tail _ turn ih => exact preserved _ _ ih turn

/-- A loop that returns has made some number of turns, each of which has returned. -/
theorem invariant_of_run {inv : Nat → S → Prop}
    (preserved : ∀ turn s next, inv turn s → test s = true → body s = .ok next →
      inv (turn + 1) next)
    {turn : Nat} (start : inv turn s) (returned : run test body endless fuel s = .ok s') :
    ∃ turns, inv turns s' ∧ test s' = false := by
  obtain ⟨turns, stopped⟩ := turns_of_run returned
  have counted := turns.preserves (fun s => ∃ turns, inv turns s) ?_ ⟨turn, start⟩
  · obtain ⟨turns, kept⟩ := counted
    exact ⟨turns, kept, stopped⟩
  · rintro s next ⟨turns, kept⟩ ⟨continues, result⟩
    exact ⟨turns + 1, preserved turns s next kept continues result⟩

end WhileLoop
