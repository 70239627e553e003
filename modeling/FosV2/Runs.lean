import Mathlib.Logic.Relation

/-!
Runs of a labelled transition system, and the rule that carries an invariant along them.
-/

namespace Runs

variable {State Label : Type}

/-- `Run step start labels finish`: the labels taken one after the other lead from one
state to the other. -/
inductive Run (step : State → Label → State → Prop) : State → List Label → State → Prop
  | nil (state : State) : Run step state [] state
  | cons {start middle finish : State} {label : Label} {labels : List Label} :
      step start label middle → Run step middle labels finish →
      Run step start (label :: labels) finish

def Reachable (step : State → Label → State → Prop) (start finish : State) : Prop :=
  ∃ labels, Run step start labels finish

variable {step : State → Label → State → Prop}

theorem Run.preserves {invariant : State → Prop}
    (preserved : ∀ state label next, invariant state → step state label next → invariant next)
    {start finish : State} {labels : List Label} (run : Run step start labels finish)
    (initial : invariant start) : invariant finish := by
  induction run with
  | nil => exact initial
  | cons taken _ ih => exact ih (preserved _ _ _ initial taken)

/-- A relation that every step keeps turns runs into runs with the same labels. -/
theorem Run.simulated {State' : Type} {step' : State' → Label → State' → Prop}
    {related : State → State' → Prop}
    (simulated : ∀ state state' label next, related state state' → step state label next →
      ∃ next', step' state' label next' ∧ related next next')
    {start finish : State} {labels : List Label} (run : Run step start labels finish)
    {start' : State'} (initial : related start start') :
    ∃ finish', Run step' start' labels finish' ∧ related finish finish' := by
  induction run generalizing start' with
  | nil state => exact ⟨start', Run.nil start', initial⟩
  | cons taken _ ih =>
      obtain ⟨middle', taken', related'⟩ := simulated _ _ _ _ initial taken
      obtain ⟨finish', rest, last⟩ := ih related'
      exact ⟨finish', Run.cons taken' rest, last⟩

theorem Run.append {start middle finish : State} {labels more : List Label}
    (run : Run step start labels middle) (rest : Run step middle more finish) :
    Run step start (labels ++ more) finish := by
  induction run with
  | nil => exact rest
  | cons taken _ ih => exact Run.cons taken (ih rest)

theorem Run.split {start finish : State} {labels more : List Label}
    (run : Run step start (labels ++ more) finish) :
    ∃ middle, Run step start labels middle ∧ Run step middle more finish := by
  induction labels generalizing start with
  | nil => exact ⟨start, Run.nil start, run⟩
  | cons label labels ih =>
      cases run with
      | cons taken rest =>
          obtain ⟨middle, first, last⟩ := ih rest
          exact ⟨middle, Run.cons taken first, last⟩

theorem Reachable.preserves {invariant : State → Prop}
    (preserved : ∀ state label next, invariant state → step state label next → invariant next)
    {start finish : State} (reachable : Reachable step start finish)
    (initial : invariant start) : invariant finish := by
  obtain ⟨labels, run⟩ := reachable
  exact run.preserves preserved initial

end Runs
