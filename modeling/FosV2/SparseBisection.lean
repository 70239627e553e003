import Mathlib.Order.Lattice
import Mathlib.Logic.Relation

/-!
Bisection of a table in which only some positions have a key. A probe looks for the last
position with a key up to the middle of the window; where there is none, the lower half is
skipped. The keys increase along the table.
-/

namespace SparseBisection

variable {K : Type}

structure Last (key : Int → Option K) (l m i : Int) : Prop where
  above : l ≤ i
  upto : i ≤ m
  after : ∀ j, i < j → j ≤ m → key j = none

theorem Last.le_of_marked {key : Int → Option K} {l m i j : Int} (last : Last key l m i) {v : K}
    (marked : key j = some v) (upto : j ≤ m) : j ≤ i := by
  by_contra after
  rw [last.after j (by omega) upto] at marked
  cases marked

theorem Last.unique {key : Int → Option K} {l m i j : Int} (first : Last key l m i)
    (second : Last key l m j) {v w : K} (iMarked : key i = some v) (jMarked : key j = some w) :
    i = j :=
  Int.le_antisymm (second.le_of_marked iMarked first.upto) (first.le_of_marked jMarked second.upto)

variable [LinearOrder K]

def Increasing (key : Int → Option K) (l r : Int) : Prop :=
  ∀ i j v w, l ≤ i → i < j → j ≤ r → key i = some v → key j = some w → v < w

inductive Halves (key : Int → Option K) (middle : Int → Int → Int) (x : K) :
    Int × Int → Int × Int → Prop
  | skip {l r : Int} : l ≤ r → (∀ j, l ≤ j → j ≤ middle l r → key j = none) →
      Halves key middle x (l, r) (middle l r + 1, r)
  | right {l r m : Int} {v : K} : l ≤ r → Last key l (middle l r) m → key m = some v → v < x →
      Halves key middle x (l, r) (middle l r + 1, r)
  | left {l r m : Int} {v : K} : l ≤ r → Last key l (middle l r) m → key m = some v → x < v →
      Halves key middle x (l, r) (l, m - 1)

/-- The steps from the window `[l, r]` come upon the key at `m`, with a window that still
reaches up to `last`. -/
def Meets (key : Int → Option K) (middle : Int → Int → Int) (x : K) (l r m last : Int) : Prop :=
  ∃ first, Relation.ReflTransGen (Halves key middle x) (l, r) (first, last) ∧ first ≤ last ∧
    Last key first (middle first last) m ∧ key m = some x

variable {key : Int → Option K} {middle : Int → Int → Int} {x : K} {L R : Int}

theorem Increasing.mono (increasing : Increasing key L R) {l r : Int} (low : L ≤ l) (high : r ≤ R) :
    Increasing key l r :=
  fun i j v w above before below => increasing i j v w (by omega) before (by omega)

theorem Increasing.lt_iff (increasing : Increasing key L R) {i j : Int} {v w : K}
    (iAbove : L ≤ i) (iBelow : i ≤ R) (jAbove : L ≤ j) (jBelow : j ≤ R) (first : key i = some v)
    (second : key j = some w) : i < j ↔ v < w := by
  constructor
  · intro before
    exact increasing i j v w iAbove before jBelow first second
  · intro less
    by_contra notBefore
    rcases Int.lt_or_eq_of_le (Int.not_lt.mp notBefore) with after | same
    · exact lt_asymm less (increasing j i w v jAbove after iBelow second first)
    · rw [same, first] at second
      exact lt_irrefl v (Option.some.inj second ▸ less)

theorem Increasing.index_unique (increasing : Increasing key L R) {i j : Int} {v : K}
    (iAbove : L ≤ i) (iBelow : i ≤ R) (jAbove : L ≤ j) (jBelow : j ≤ R) (first : key i = some v)
    (second : key j = some v) : i = j := by
  have before := mt (increasing.lt_iff iAbove iBelow jAbove jBelow first second).mp (lt_irrefl v)
  have after := mt (increasing.lt_iff jAbove jBelow iAbove iBelow second first).mp (lt_irrefl v)
  omega

/-! The steps towards a key. -/

structure Bracket (key : Int → Option K) (x : K) (window rest : Int × Int) : Prop where
  low : window.1 ≤ rest.1
  high : rest.2 ≤ window.2
  less : ∀ j v, window.1 ≤ j → j < rest.1 → key j = some v → v < x
  greater : ∀ j v, rest.2 < j → j ≤ window.2 → key j = some v → x < v

theorem Bracket.refl (window : Int × Int) : Bracket key x window window where
  low := Int.le_refl _
  high := Int.le_refl _
  less _ _ above below := absurd above (Int.not_le.mpr below)
  greater _ _ above below := absurd above (Int.not_lt.mpr below)

theorem Bracket.halves {window rest next : Int × Int} (bracket : Bracket key x window rest)
    (increasing : Increasing key window.1 window.2)
    (inside : ∀ l r, l ≤ r → l ≤ middle l r ∧ middle l r ≤ r)
    (step : Halves key middle x rest next) : Bracket key x window next := by
  have low := bracket.low
  have high := bracket.high
  cases step with
  | @skip l r within unmarked =>
      have bounds := inside l r within
      simp only at low high
      refine ⟨by simp only; omega, high, fun j v above below marked => ?_, bracket.greater⟩
      by_cases old : j < l
      · exact bracket.less j v above old marked
      · rw [unmarked j (by omega) (by simp only at below; omega)] at marked
        cases marked
  | @right l r m v within last found less =>
      have bounds := inside l r within
      have upto := last.upto
      have above := last.above
      simp only at low high
      refine ⟨by simp only; omega, high, fun j w first below marked => ?_, bracket.greater⟩
      have order := last.le_of_marked marked (by simp only at below; omega)
      by_cases same : j = m
      · rw [same, found] at marked
        exact Option.some.inj marked ▸ less
      · exact lt_trans (increasing j m w v first (by omega) (by omega) marked found) less
  | @left l r m v within last found greater =>
      have bounds := inside l r within
      have upto := last.upto
      have above := last.above
      simp only at low high
      refine ⟨low, by simp only; omega, bracket.less, fun j w after below marked => ?_⟩
      simp only at after
      by_cases same : j = m
      · rw [same, found] at marked
        exact Option.some.inj marked ▸ greater
      · exact lt_trans greater (increasing m j v w (by omega) (by omega) below found marked)

theorem Halves.stops {l r m : Int} (last : Last key l (middle l r) m) (found : key m = some x)
    (next : Int × Int) : ¬Halves key middle x (l, r) next := by
  intro step
  cases step with
  | skip _ unmarked =>
      rw [unmarked m last.above last.upto] at found
      cases found
  | right _ last' marked less =>
      rw [last.unique last' found marked, marked] at found
      exact lt_irrefl x (Option.some.inj found ▸ less)
  | left _ last' marked greater =>
      rw [last.unique last' found marked, marked] at found
      exact lt_irrefl x (Option.some.inj found ▸ greater)

theorem Halves.unique {window first second : Int × Int} (one : Halves key middle x window first)
    (two : Halves key middle x window second) : first = second := by
  have apart {l m i j : Int} {v w : K} (last : Last key l m i) (iMarked : key i = some v)
      (last' : Last key l m j) (jMarked : key j = some w) (less : v < x) (greater : x < w) :
      False := by
    rw [last.unique last' iMarked jMarked, jMarked] at iMarked
    exact lt_asymm (Option.some.inj iMarked ▸ less) greater
  have unmarked_or {l m i : Int} {v : K} (none : ∀ j, l ≤ j → j ≤ m → key j = none)
      (last : Last key l m i) (marked : key i = some v) : False := by
    rw [none i last.above last.upto] at marked
    cases marked
  cases one with
  | skip _ none =>
      cases two with
      | skip => rfl
      | right => rfl
      | left _ last marked => exact (unmarked_or none last marked).elim
  | right _ last marked less =>
      cases two with
      | skip => rfl
      | right => rfl
      | left _ last' marked' greater => exact (apart last marked last' marked' less greater).elim
  | left _ last marked greater =>
      cases two with
      | skip _ none => exact (unmarked_or none last marked).elim
      | right _ last' marked' less => exact (apart last' marked' last marked less greater).elim
      | left _ last' marked' => rw [last.unique last' marked marked']

theorem Meets.unique {l r m m' last last' : Int} (one : Meets key middle x l r m last)
    (two : Meets key middle x l r m' last') : m = m' ∧ last = last' := by
  obtain ⟨first, steps, _, found, marked⟩ := one
  obtain ⟨first', steps', _, found', marked'⟩ := two
  have deterministic : Relator.RightUnique (Halves key middle x) :=
    fun _ _ _ step step' => step.unique step'
  -- One of the two windows leads to the other, but no step leaves either.
  have same : (first, last) = (first', last') := by
    rcases Relation.ReflTransGen.total_of_right_unique deterministic steps steps' with on | back
    · rcases on.cases_head with same | ⟨next, step, _⟩
      · exact same
      · exact (Halves.stops found marked next step).elim
    · rcases back.cases_head with same | ⟨next, step, _⟩
      · exact same.symm
      · exact (Halves.stops found' marked' next step).elim
  cases same
  exact ⟨found.unique found' marked marked', rfl⟩

end SparseBisection
