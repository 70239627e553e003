import FosV2.StabTable

/-!
The loop of `stab_binsearch`: what one turn can do, what every turn keeps whatever the table
holds, and what the search is left with.
-/

namespace FosV2

open SparseBisection

theorem middle_bounds {l r : Int} (window : l ≤ r) : l ≤ middle l r ∧ middle l r ≤ r := by
  rcases Int.le_total 0 (l + r) with nonneg | nonpos
  · rw [middle, Int.tdiv_eq_ediv_of_nonneg nonneg]
    omega
  · have negated : middle l r = -((-(l + r)).tdiv 2) := by
      rw [Int.neg_tdiv, Int.neg_neg, middle]
    rw [negated, Int.tdiv_eq_ediv_of_nonneg (by omega)]
    omega

section

variable {stabs : Stabs} {type : Int}

theorem valueAt_of_entry {index : Int} {stab : Stab} (entry : stabs index = some stab)
    (typed : stab.hasType type = true) : valueAt stabs type index = some stab.nValue.toNat := by
  rw [valueAt, entry]
  exact if_pos typed

theorem entry_of_valueAt {index : Int} {value : Nat}
    (marked : valueAt stabs type index = some value) :
    ∃ stab, stabs index = some stab ∧ stab.nValue.toNat = value := by
  rw [valueAt] at marked
  split at marked
  next stab entry =>
    split at marked
    · exact ⟨stab, entry, Option.some.inj marked⟩
    · cases marked
  next => cases marked

theorem Stabs.entry_eq {index : Int} {stab : Stab} (entry : stabs index = some stab) :
    stabs.entry index = .ok stab := by
  rw [Stabs.entry, entry]

theorem scanBack_spec (type : Int) {steps : Nat} {m : Int}
    (readable : Readable stabs (m - steps + 1) m) :
    ∃ i, scanBack stabs type steps m = .ok i ∧ Last (valueAt stabs type) (m - steps) m i ∧
      (m - steps < i → ∃ v, valueAt stabs type i = some v) := by
  induction steps generalizing m with
  | zero => exact ⟨m, rfl, ⟨by omega, by omega, fun j _ _ => by omega⟩, fun _ => by omega⟩
  | succ steps ih =>
      obtain ⟨stab, entry⟩ := Option.isSome_iff_exists.mp (readable m (by omega) (by omega))
      rw [scanBack, Stabs.entry_eq entry]
      cases typed : stab.hasType type with
      | true =>
          refine ⟨m, ?_, ⟨by omega, by omega, fun j _ _ => by omega⟩,
            fun _ => ⟨_, valueAt_of_entry entry typed⟩⟩
          exact if_pos typed
      | false =>
          have other : valueAt stabs type m = none := by
            rw [valueAt, entry]
            exact if_neg (by rw [typed]; decide)
          obtain ⟨i, scanned, last, marked⟩ := ih (m := m - 1)
            (fun j above upto => readable j (by omega) (by omega))
          have bottom : m - (steps + 1 : Nat) = m - 1 - steps := by omega
          rw [bottom]
          refine ⟨i, ?_, ⟨last.above, by have := last.upto; omega, fun j after upto => ?_⟩,
            marked⟩
          · simp only [bind, Except.bind, typed]
            exact scanned
          · by_cases here : j = m
            · rw [here, other]
            · exact last.after j after (by omega)

theorem scanBack_congr (type : Int) {other : Stabs} {steps : Nat} {m : Int}
    (same : ∀ i, m - steps < i → i ≤ m → other i = stabs i) :
    scanBack other type steps m = scanBack stabs type steps m := by
  induction steps generalizing m with
  | zero => rfl
  | succ steps ih =>
      have rest := ih (m := m - 1) (fun i above upto => same i (by omega) (by omega))
      simp only [scanBack, Stabs.entry, same m (by omega) (by omega), rest]

theorem probe_spec (type : Int) {l r : Int} (window : l ≤ r)
    (readable : Readable stabs l (middle l r)) :
    ∃ m, Last (valueAt stabs type) (l - 1) (middle l r) m ∧
      (l ≤ m → ∃ v, valueAt stabs type m = some v) ∧
      ∀ other : Stabs, (∀ i, l ≤ i → i ≤ middle l r → other i = stabs i) →
        scanBack other type (middle l r - (l - 1)).toNat (middle l r) = .ok m := by
  have bounds := middle_bounds window
  have bottom : middle l r - ((middle l r - (l - 1)).toNat : Int) = l - 1 := by omega
  obtain ⟨m, scanned, last, marked⟩ := 
    @scanBack_spec stabs type (middle l r - (l - 1)).toNat (middle l r)
      fun i above upto => readable i (by omega) upto
  rw [bottom] at last marked
  refine ⟨m, last, fun inside => marked (by omega), fun other same => ?_⟩
  rw [← scanned]
  exact scanBack_congr type fun i above upto => same i (by omega) upto

namespace StabSearch

inductive Turned (key : Int → Option Nat) (search : StabSearch) : StabSearch → Prop
  | skip : (∀ j, search.l ≤ j → j ≤ middle search.l search.r → key j = none) →
      Turned key search { search with l := middle search.l search.r + 1 }
  | less {m : Int} {v : Nat} : Last key search.l (middle search.l search.r) m →
      key m = some v → v < search.addr.toNat →
      Turned key search
        { search with regionLeft := m, l := middle search.l search.r + 1, anyMatches := true }
  | greater {m : Int} {v : Nat} : Last key search.l (middle search.l search.r) m →
      key m = some v → search.addr.toNat < v →
      Turned key search
        { search with regionRight := m - 1, r := m - 1, anyMatches := true }
  | exact {m : Int} : Last key search.l (middle search.l search.r) m →
      key m = some search.addr.toNat →
      Turned key search
        { search with regionLeft := m, l := m, anyMatches := true, addr := search.addr + 4 }

theorem turn_spec (type : Int) {search : StabSearch} (continues : search.test = true)
    (readable : Readable stabs search.l (middle search.l search.r)) :
    ∃ next, Turned (valueAt stabs type) search next ∧
      ∀ other : Stabs, (∀ i, search.l ≤ i → i ≤ middle search.l search.r → other i = stabs i) →
        search.turn other type = .ok next := by
  have window : search.l ≤ search.r := of_decide_eq_true continues
  obtain ⟨m, last, marked, scanned⟩ := probe_spec type window readable
  by_cases none : m < search.l
  · refine ⟨_, .skip fun j above upto => last.after j (by omega) upto, fun other same => ?_⟩
    simp only [turn, scanned other same, bind, Except.bind]
    exact if_pos none
  · obtain ⟨v, key⟩ := marked (by omega)
    obtain ⟨stab, entry, value⟩ := entry_of_valueAt key
    have upto := last.upto
    have probe : Last (valueAt stabs type) search.l (middle search.l search.r) m :=
      ⟨by omega, upto, last.after⟩
    have turns (other : Stabs)
        (same : ∀ i, search.l ≤ i → i ≤ middle search.l search.r → other i = stabs i) :
        search.turn other type =
          if stab.nValue < search.addr then .ok { search with
            regionLeft := m, l := middle search.l search.r + 1, anyMatches := true }
          else if stab.nValue > search.addr then .ok { search with
            regionRight := m - 1, r := m - 1, anyMatches := true }
          else .ok { search with
            regionLeft := m, l := m, anyMatches := true, addr := search.addr + 4 } := by
      have read : other.entry m = .ok stab :=
        Stabs.entry_eq ((same m (by omega) upto).trans entry)
      simp only [turn, scanned other same, bind, Except.bind, read]
      exact if_neg none
    by_cases less : stab.nValue < search.addr
    · refine ⟨_, .less probe key (by rw [← value]; exact less), fun other same => ?_⟩
      rw [turns other same, if_pos less]
    · by_cases greater : stab.nValue > search.addr
      · refine ⟨_, .greater probe key (by rw [← value]; exact greater), fun other same => ?_⟩
        rw [turns other same, if_neg less, if_pos greater]
      · have equal : v = search.addr.toNat := by
          rw [← value]
          exact le_antisymm (Nat.le_of_not_lt greater) (Nat.le_of_not_lt less)
        refine ⟨_, .exact probe (equal ▸ key), fun other same => ?_⟩
        rw [turns other same, if_neg less, if_neg greater]

theorem turned_of_turn {search next : StabSearch} (continues : search.test = true)
    (readable : Readable stabs search.l (middle search.l search.r))
    (turn : search.turn stabs type = .ok next) : Turned (valueAt stabs type) search next := by
  obtain ⟨next', turned, turns⟩ := turn_spec type continues readable
  have turn' := turns stabs fun _ _ _ => rfl
  rw [turn] at turn'
  cases turn'
  exact turned

structure Searching (key : Int → Option Nat) (L R : Int) (search : StabSearch) : Prop where
  low : L ≤ search.l
  high : search.r ≤ R
  window : search.l ≤ search.r + 1
  right : search.regionRight = search.r
  edge : search.r = R ∨ ∃ v, key (search.r + 1) = some v
  leftLow : L ≤ search.regionLeft
  leftHigh : search.regionLeft ≤ search.l
  passed : ∀ j, search.regionLeft < j → j < search.l → key j = none
  left : (∃ v, key search.regionLeft = some v) ∨
    (search.regionLeft = L ∧ ∀ j, L ≤ j → j < search.l → key j = none)
  anyMatch : search.anyMatches = true → ∃ j v, L ≤ j ∧ j ≤ R ∧ key j = some v
  noMatch : search.anyMatches = false →
    search.regionLeft = L ∧ search.r = R ∧ ∀ j, L ≤ j → j < search.l → key j = none

variable {key : Int → Option Nat} {L R : Int} {search next : StabSearch}

theorem Searching.begin {addr : Word} (range : L ≤ R + 1) :
    Searching key L R (begin L R addr) where
  low := Int.le_refl L
  high := Int.le_refl R
  window := range
  right := rfl
  edge := Or.inl rfl
  leftLow := Int.le_refl L
  leftHigh := Int.le_refl L
  passed _ after before := absurd after (Int.not_lt.mpr (Int.le_of_lt before))
  left := Or.inr ⟨rfl, fun _ above before => absurd above (Int.not_le.mpr before)⟩
  anyMatch := Bool.noConfusion
  noMatch _ := ⟨rfl, rfl, fun _ above before => absurd above (Int.not_le.mpr before)⟩

theorem Searching.moveTo (searching : Searching key L R search) {m l : Int} {v : Nat}
    (low : L ≤ m) (upto : m ≤ search.r) (above : m ≤ l) (below : l ≤ search.r + 1)
    (passed : ∀ j, m < j → j < l → key j = none) (marked : key m = some v) (addr : Word) :
    Searching key L R
      { search with regionLeft := m, l := l, anyMatches := true, addr := addr } where
  low := Int.le_trans low above
  high := searching.high
  window := below
  right := searching.right
  edge := searching.edge
  leftLow := low
  leftHigh := above
  passed := passed
  left := Or.inl ⟨v, marked⟩
  anyMatch _ := ⟨m, v, low, Int.le_trans upto searching.high, marked⟩
  noMatch := Bool.noConfusion

theorem Searching.turned (searching : Searching key L R search) (continues : search.l ≤ search.r)
    (turned : Turned key search next) : Searching key L R next := by
  have bounds := middle_bounds continues
  have low := searching.low
  have high := searching.high
  have leftLow := searching.leftLow
  have leftHigh := searching.leftHigh
  cases turned with
  | skip unmarked =>
      -- The entries passed are those passed before and the lower half.
      have more {from_ : Int → Prop} (old : ∀ j, from_ j → j < search.l → key j = none) (j : Int)
          (above : from_ j) (before : j < middle search.l search.r + 1) : key j = none := by
        by_cases passed : j < search.l
        · exact old j above passed
        · exact unmarked j (by omega) (by omega)
      constructor
      · change L ≤ middle search.l search.r + 1
        omega
      · exact high
      · change middle search.l search.r + 1 ≤ search.r + 1
        omega
      · exact searching.right
      · exact searching.edge
      · exact leftLow
      · change search.regionLeft ≤ middle search.l search.r + 1
        omega
      · exact more searching.passed
      · exact searching.left.imp_right fun least => ⟨least.1, more least.2⟩
      · exact searching.anyMatch
      · intro none
        obtain ⟨left, right, passed⟩ := searching.noMatch none
        exact ⟨left, right, more passed⟩
  | less last marked _ =>
      have above := last.above
      have upto := last.upto
      exact searching.moveTo (by omega) (by omega) (by omega) (by omega)
        (fun j after before => last.after j after (by omega)) marked search.addr
  | @greater m v last marked _ =>
      have above := last.above
      have upto := last.upto
      constructor
      · exact low
      · change m - 1 ≤ R
        omega
      · change search.l ≤ m - 1 + 1
        omega
      · rfl
      · exact Or.inr ⟨v, (congrArg key (Int.sub_add_cancel m 1)).trans marked⟩
      · exact leftLow
      · exact leftHigh
      · exact searching.passed
      · exact searching.left
      · exact fun _ => ⟨m, v, by omega, by omega, marked⟩
      · exact Bool.noConfusion
  | exact last marked =>
      have above := last.above
      have upto := last.upto
      exact searching.moveTo (by omega) (by omega) (Int.le_refl _) (by omega)
        (fun j after before => by omega) marked (search.addr + 4)

/-- The window, and one for the turn after which its left end does not match any more. -/
def turnsLeft (key : Int → Option Nat) (search : StabSearch) : Nat :=
  2 * (search.r + 1 - search.l).toNat + if key search.l = some search.addr.toNat then 1 else 0

theorem turnsLeft_le (key : Int → Option Nat) (search : StabSearch) :
    2 * (search.r + 1 - search.l).toNat ≤ search.turnsLeft key ∧
      search.turnsLeft key ≤ 2 * (search.r + 1 - search.l).toNat + 1 := by
  rw [turnsLeft]
  split <;> omega

theorem add_four_toNat_ne (addr : Word) : (addr + 4).toNat ≠ addr.toNat := by
  have four : (4 : Word).toNat = 4 := rfl
  rw [BitVec.toNat_add, four]
  omega

theorem Turned.turnsLeft_lt (continues : search.l ≤ search.r) (turned : Turned key search next) :
    next.turnsLeft key < search.turnsLeft key := by
  have bounds := middle_bounds continues
  have before := turnsLeft_le key search
  have after := turnsLeft_le key next
  cases turned with
  | skip => simp only at after; omega
  | less => simp only at after; omega
  | greater last =>
      have above := last.above
      have upto := last.upto
      simp only at after
      omega
  | @exact m last marked =>
      have above := last.above
      simp only at after
      by_cases same : m = search.l
      · -- The window stays, but its left end has another value than the key by now.
        subst same
        simp only [turnsLeft, marked]
        have moved : ¬some search.addr.toNat = some (search.addr + 4).toNat :=
          fun same => add_four_toNat_ne search.addr (Option.some.inj same).symm
        rw [if_neg moved, if_pos True.intro]
        omega
      · omega

/-! The whole search. -/

theorem Searching.test_of (searching : Searching key L R search) (continues : search.test = true) :
    L ≤ search.l ∧ search.l ≤ search.r ∧ search.r ≤ R ∧
      search.l ≤ middle search.l search.r ∧ middle search.l search.r ≤ search.r :=
  have window : search.l ≤ search.r := of_decide_eq_true continues
  ⟨searching.low, window, searching.high, middle_bounds window⟩

theorem Searching.turned_of (readable : Readable stabs L R)
    (searching : Searching (valueAt stabs type) L R search)
    (turn : WhileLoop.Turn test (StabSearch.turn stabs type) search next) :
    search.l ≤ search.r ∧ Turned (valueAt stabs type) search next := by
  obtain ⟨low, window, high, bounds⟩ := searching.test_of turn.1
  refine ⟨window, turned_of_turn turn.1 (fun i above upto => ?_) turn.2⟩
  exact readable i (by omega) (by omega)

theorem run_spec (type : Int) (addr : Word) (readable : Readable stabs L R) (range : L ≤ R + 1) :
    ∃ final, WhileLoop.Turns test (turn stabs type) (begin L R addr) final ∧
      final.test = false ∧ Searching (valueAt stabs type) L R final ∧
      ∀ other : Stabs, (∀ i, L ≤ i → i ≤ R → other i = stabs i) →
        WhileLoop.run test (turn other type) .endlessLoop (fuel L R) (begin L R addr) =
          .ok final := by
  have start : Searching (valueAt stabs type) L R (begin L R addr) := .begin range
  have enough : turnsLeft (valueAt stabs type) (begin L R addr) < fuel L R := by
    have most := (turnsLeft_le (valueAt stabs type) (begin L R addr)).2
    exact Nat.lt_of_le_of_lt most (Nat.lt_succ_self _)
  have turns : ∀ search, Searching (valueAt stabs type) L R search → search.test = true →
      ∃ next, search.turn stabs type = .ok next ∧ Searching (valueAt stabs type) L R next ∧
        next.turnsLeft (valueAt stabs type) < search.turnsLeft (valueAt stabs type) := by
    intro search searching continues
    obtain ⟨low, window, high, bounds⟩ := searching.test_of continues
    obtain ⟨next, turned, turns⟩ := turn_spec type continues
      (fun i above upto => readable i (by omega) (by omega))
    exact ⟨next, turns stabs fun _ _ _ => rfl, searching.turned window turned,
      turned.turnsLeft_lt window⟩
  obtain ⟨final, run, searching⟩ := WhileLoop.run_of_measure _ turns start enough
  obtain ⟨turned, stopped⟩ := WhileLoop.turns_of_run run
  refine ⟨final, turned, stopped, searching, fun other same => ?_⟩
  rw [← run]
  refine WhileLoop.run_congr ?_ ?_ start
  · intro search searching continues
    obtain ⟨low, window, high, bounds⟩ := searching.test_of continues
    obtain ⟨next, _, turns⟩ := turn_spec type continues
      (fun i above upto => readable i (by omega) (by omega))
    rw [turns other fun i above upto => same i (by omega) (by omega)]
    exact (turns stabs fun _ _ _ => rfl).symm
  · intro search next searching continues turn
    obtain ⟨next', kept, kept', _⟩ := turns search searching continues
    rw [turn] at kept
    cases kept
    exact kept'

def result (search : StabSearch) : Int × Int :=
  if search.anyMatches then (min search.regionLeft search.r, search.r)
  else (search.regionLeft, search.regionLeft - 1)

theorem Searching.crossed (searching : Searching key L R search) (stopped : search.test = false) :
    search.l = search.r + 1 := by
  have window := searching.window
  have crossed : ¬search.l ≤ search.r := of_decide_eq_false stopped
  omega

/-- The search reports that there is nothing just where the range has no entry of the type. -/
theorem Searching.absent_iff (searching : Searching key L R search)
    (stopped : search.test = false) :
    search.result.2 < search.result.1 ↔ ∀ j, L ≤ j → j ≤ R → key j = none := by
  have crossed := searching.crossed stopped
  cases any : search.anyMatches with
  | false =>
      obtain ⟨_, all, unmarked⟩ := searching.noMatch any
      simp only [result, any, Bool.false_eq_true, if_false]
      exact ⟨fun _ j above upto => unmarked j above (by omega), fun _ => by omega⟩
  | true =>
      obtain ⟨j, v, above, upto, marked⟩ := searching.anyMatch any
      simp only [result, any, if_true]
      constructor
      · intro less
        exact absurd less (Int.not_lt.mpr (Int.min_le_right _ _))
      · intro unmarked
        rw [unmarked j above upto] at marked
        cases marked

theorem Searching.result_snd_le (searching : Searching key L R search) : search.result.2 ≤ R := by
  have low := searching.low
  have high := searching.high
  have window := searching.window
  cases any : search.anyMatches with
  | false =>
      obtain ⟨least, _⟩ := searching.noMatch any
      simp only [result, any, Bool.false_eq_true, if_false]
      omega
  | true =>
      simp only [result, any, if_true]
      exact high

theorem Searching.finish_eq (searching : Searching (valueAt stabs type) L R search)
    (stopped : search.test = false) (readable : Readable stabs L R) {other : Stabs}
    (same : ∀ i, L ≤ i → i ≤ R → other i = stabs i) :
    search.finish other type = .ok search.result := by
  have low := searching.leftLow
  have high := searching.high
  have crossed := searching.crossed stopped
  cases any : search.anyMatches with
  | false =>
      simp only [finish, result, any, Bool.false_eq_true, not_false_eq_true, if_true, if_false]
  | true =>
      simp only [finish, result, any, searching.right, not_true_eq_false, if_true, if_false]
      obtain ⟨i, scanned, last, marked⟩ :=
        @scanBack_spec stabs type (search.r - search.regionLeft).toNat search.r
          fun i above upto => readable i (by omega) (by omega)
      have scan := (scanBack_congr type fun i above upto =>
        same i (show L ≤ i by omega) (show i ≤ R by omega)).trans scanned
      have above := last.above
      have upto := last.upto
      have stop : i = min search.regionLeft search.r := by
        by_cases reached : search.r - ((search.r - search.regionLeft).toNat : Int) < i
        · obtain ⟨v, found⟩ := marked reached
          rw [searching.passed i (by omega) (by omega)] at found
          cases found
        · omega
      rw [scan, stop]
      rfl

end StabSearch

/-- The search returns, whatever the table holds, and reads nothing outside of the range. -/
theorem stabBinsearch_spec (type : Int) (addr : Word) {L R : Int} (readable : Readable stabs L R)
    (range : L ≤ R + 1) :
    ∃ final, WhileLoop.Turns StabSearch.test (StabSearch.turn stabs type) (.begin L R addr) final ∧
      final.test = false ∧ StabSearch.Searching (valueAt stabs type) L R final ∧
      ∀ other : Stabs, (∀ i, L ≤ i → i ≤ R → other i = stabs i) →
        stabBinsearch other L R type addr = .ok final.result := by
  obtain ⟨final, turned, stopped, searching, runs⟩ := StabSearch.run_spec type addr readable range
  refine ⟨final, turned, stopped, searching, fun other same => ?_⟩
  rw [stabBinsearch, runs other same]
  exact searching.finish_eq stopped readable same

theorem stabBinsearch_empty (stabs : Stabs) (type : Int) (addr : Word) {L R : Int} (empty : R < L) :
    stabBinsearch stabs L R type addr = .ok (L, L - 1) := by
  have stops : (StabSearch.begin L R addr).test = false := decide_eq_false (Int.not_le.mpr empty)
  rw [stabBinsearch, StabSearch.fuel, WhileLoop.run_stop stops]
  rfl

theorem stabBinsearch_unreadable {L : Int} (unreadable : stabs L = none) (type : Int)
    (addr : Word) : stabBinsearch stabs L L type addr = .error (.unreadable L) := by
  have bounds := middle_bounds (Int.le_refl L)
  have mid : middle L L = L := by omega
  have steps : (L - (L - 1)).toNat = 1 := by omega
  have continues : (StabSearch.begin L L addr).test = true := decide_eq_true (Int.le_refl L)
  have stops : (StabSearch.begin L L addr).turn stabs type = .error (.unreadable L) := by
    simp only [StabSearch.turn, StabSearch.begin, mid, steps, scanBack, Stabs.entry, unreadable]
    rfl
  rw [stabBinsearch, StabSearch.fuel, WhileLoop.run, continues, stops]
  rfl

theorem stabBinsearch_inRange (stabs : Stabs) {count : Int}
    (table : ∀ i, 0 ≤ i → i < count → (stabs i).isSome) {L R : Int} (low : 0 ≤ L) (high : R < count)
    (type : Int) (addr : Word) :
    ∃ result, stabBinsearch stabs L R type addr = .ok result ∧
      ∀ other : Stabs, (∀ i, L ≤ i → i ≤ R → other i = stabs i) →
        stabBinsearch other L R type addr = .ok result := by
  -- The loop is not entered where there is no entry in the range.
  by_cases empty : R < L
  · exact ⟨_, stabBinsearch_empty stabs type addr empty,
      fun other _ => stabBinsearch_empty other type addr empty⟩
  · obtain ⟨final, _, _, _, returns⟩ := stabBinsearch_spec type addr
      (fun i above upto => table i (by omega) (by omega)) (show L ≤ R + 1 by omega)
    exact ⟨final.result, returns stabs fun _ _ _ => rfl, returns⟩

end

/-! Two source files, of which the first has no instructions to speak of. -/

def closeSources : Stabs :=
  .ofList [⟨1, BitVec.ofInt 8 nSo, 0x100⟩, ⟨5, BitVec.ofInt 8 nSo, 0x102⟩]

theorem closeSources_table (i : Int) (above : 0 ≤ i) (below : i < 2) :
    (closeSources i).isSome := by
  rcases (by omega : i = 0 ∨ i = 1) with first | second
  · rw [first]
    rfl
  · rw [second]
    rfl

theorem stabBinsearch_inRange_closeSources :
    ∃ result, stabBinsearch closeSources 0 1 nSo 0x100 = .ok result ∧
      ∀ other : Stabs, (∀ i, 0 ≤ i → i ≤ 1 → other i = closeSources i) →
        stabBinsearch other 0 1 nSo 0x100 = .ok result :=
  stabBinsearch_inRange closeSources closeSources_table (by decide) (by decide) nSo 0x100

end FosV2
