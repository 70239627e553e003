import FosV2.StabSearch

/-!
What `stab_binsearch` finds in a table whose entries of the type come in the order of their
addresses. Up to an entry at the very address it bisects; from there on it goes on with another
key, four bytes further, and stays at that entry only if no other one is as close.
-/

namespace FosV2

open SparseBisection WhileLoop

namespace StabSearch

variable {stabs : Stabs} {type : Int} {key : Int → Option Nat} {L R : Int}
  {search next final : StabSearch}

theorem Searching.turns (readable : Readable stabs L R)
    (turns : Turns test (turn stabs type) search final)
    (searching : Searching (valueAt stabs type) L R search) :
    Searching (valueAt stabs type) L R final := by
  refine turns.preserves _ ?_ searching
  intro search next searching turn
  obtain ⟨window, turned⟩ := searching.turned_of readable turn
  exact searching.turned window turned

structure Narrows (key : Int → Option Nat) (search next : StabSearch) : Prop where
  steps : Relation.ReflTransGen (Halves key middle search.addr.toNat) (search.l, search.r)
    (next.l, next.r)
  low : search.l ≤ next.l
  addr : next.addr = search.addr
  left : next.regionLeft = search.regionLeft ∨
    (search.l ≤ next.regionLeft ∧ next.regionLeft < next.l)

def matchedAt (search : StabSearch) (m : Int) : StabSearch :=
  { search with regionLeft := m, l := m, anyMatches := true, addr := search.addr + 4 }

theorem Turned.narrows_or_matches (continues : search.l ≤ search.r)
    (turned : Turned key search next) :
    Narrows key search next ∨
      ∃ m, Last key search.l (middle search.l search.r) m ∧ key m = some search.addr.toNat ∧
        next = search.matchedAt m := by
  have bounds := middle_bounds continues
  cases turned with
  | skip unmarked =>
      exact Or.inl ⟨.single (.skip continues unmarked), Int.le_trans bounds.1 (by simp only; omega),
        rfl, Or.inl rfl⟩
  | less last marked less =>
      have upto := last.upto
      exact Or.inl ⟨.single (.right continues last marked less),
        Int.le_trans bounds.1 (by simp only; omega), rfl,
        Or.inr ⟨last.above, by simp only; omega⟩⟩
  | greater last marked greater =>
      exact Or.inl ⟨.single (.left continues last marked greater), Int.le_refl _, rfl, Or.inl rfl⟩
  | exact last marked => exact Or.inr ⟨_, last, marked, rfl⟩

theorem Narrows.refl (search : StabSearch) : Narrows key search search :=
  ⟨.refl, Int.le_refl _, rfl, Or.inl rfl⟩

theorem Narrows.trans (first : Narrows key search next) (second : Narrows key next final) :
    Narrows key search final where
  steps := first.steps.trans (first.addr ▸ second.steps)
  low := Int.le_trans first.low second.low
  addr := second.addr.trans first.addr
  left := by
    have low := first.low
    have low' := second.low
    rcases second.left with same | ⟨above, below⟩
    · rw [same]
      rcases first.left with same' | ⟨above', below'⟩
      · exact Or.inl same'
      · exact Or.inr ⟨above', by omega⟩
    · exact Or.inr ⟨by omega, below⟩

theorem Narrows.bracket (narrows : Narrows key search final)
    (increasing : Increasing key search.l search.r) :
    Bracket key search.addr.toNat (search.l, search.r) (final.l, final.r) := by
  have bracket : ∀ rest, Relation.ReflTransGen (Halves key middle search.addr.toNat)
      (search.l, search.r) rest → Bracket key search.addr.toNat (search.l, search.r) rest := by
    intro rest steps
    induction steps with
    | refl => exact .refl _
    | tail _ step ih => exact ih.halves increasing (fun _ _ => middle_bounds) step
  exact bracket _ narrows.steps

theorem Narrows.met_inside (narrows : Narrows key search final)
    (increasing : Increasing key search.l search.r) (window : final.l ≤ final.r) {m : Int}
    (last : Last key final.l (middle final.l final.r) m) :
    search.l ≤ m ∧ m ≤ final.r ∧ final.r ≤ search.r := by
  have low := narrows.low
  have above := last.above
  have upto := last.upto
  have bounds := middle_bounds window
  have high : final.r ≤ search.r := (narrows.bracket increasing).high
  omega

/-- A search meets its address in one of its turns, or in none. -/
theorem narrows_or_meets (readable : Readable stabs L R)
    (searching : Searching (valueAt stabs type) L R search)
    (turns : Turns test (turn stabs type) search final) :
    Narrows (valueAt stabs type) search final ∨
      ∃ met m, Narrows (valueAt stabs type) search met ∧ met.l ≤ met.r ∧
        Last (valueAt stabs type) met.l (middle met.l met.r) m ∧
        valueAt stabs type m = some search.addr.toNat ∧
        Searching (valueAt stabs type) L R (met.matchedAt m) ∧
        Turns test (turn stabs type) (met.matchedAt m) final := by
  induction turns with
  | refl => exact Or.inl (.refl _)
  | @tail before after turns turn ih =>
      rcases ih with narrows | ⟨met, m, narrows, window, last, marked, searching', turns'⟩
      · have kept := searching.turns readable turns
        obtain ⟨window, turned⟩ := kept.turned_of readable turn
        rcases turned.narrows_or_matches window with more | ⟨m, last, marked, same⟩
        · exact Or.inl (narrows.trans more)
        · have kept' := kept.turned window turned
          rw [same] at kept' ⊢
          exact Or.inr ⟨before, m, narrows, window, last, narrows.addr ▸ marked, kept', .refl⟩
      · exact Or.inr ⟨met, m, narrows, window, last, marked, searching', turns'.tail turn⟩

/-! What is left when the loop stops. -/

theorem Searching.result_passed (searching : Searching key L R final) (stopped : final.test = false)
    {i : Int} {v : Nat} (above : L ≤ i) (passed : i < final.l) (marked : key i = some v)
    (inside : final.regionLeft < final.l) :
    final.result = (final.regionLeft, final.r) ∧ i ≤ final.regionLeft ∧
      final.regionLeft ≤ final.r ∧ ∃ w, key final.regionLeft = some w := by
  have crossed := searching.crossed stopped
  have any : final.anyMatches = true := by
    cases none : final.anyMatches with
    | true => rfl
    | false =>
        obtain ⟨_, _, unmarked⟩ := searching.noMatch none
        rw [unmarked i above passed] at marked
        cases marked
  have reaches : i ≤ final.regionLeft := by
    by_contra behind
    rw [searching.passed i (by omega) passed] at marked
    cases marked
  refine ⟨?_, reaches, by omega, ?_⟩
  · rw [result, any, if_pos rfl, Int.min_eq_left (show final.regionLeft ≤ final.r by omega)]
  · rcases searching.left with found | ⟨_, unmarked⟩
    · exact found
    · rw [unmarked i above passed] at marked
      cases marked

theorem Narrows.result_near (narrows : Narrows key search final)
    (increasing : Increasing key search.l search.r) (begun : Searching key L R search)
    (searching : Searching key L R final) (stopped : final.test = false) {i : Int} {v : Nat}
    (above : search.l ≤ i) (below : i ≤ search.r) (marked : key i = some v)
    (notAbove : v ≤ search.addr.toNat) :
    final.result = (final.regionLeft, final.r) ∧ i ≤ final.regionLeft ∧
      final.regionLeft ≤ final.r ∧
      (∃ w, key final.regionLeft = some w ∧ w < search.addr.toNat) ∧
      ∀ j w, final.regionLeft < j → j ≤ search.r → key j = some w → search.addr.toNat < w := by
  have crossed := searching.crossed stopped
  have low := begun.low
  have leftHigh := begun.leftHigh
  have bracket := narrows.bracket increasing
  have passed : i < final.l := by
    by_contra behind
    have := bracket.greater i v (by simp only; omega) below marked
    omega
  have inside : final.regionLeft < final.l := by
    rcases narrows.left with same | ⟨_, inside⟩
    · omega
    · exact inside
  obtain ⟨result, reaches, region, w, found⟩ :=
    searching.result_passed stopped (by omega) passed marked inside
  refine ⟨result, reaches, region, ⟨w, found, ?_⟩, fun j u after upto entry => ?_⟩
  · exact bracket.less final.regionLeft w (by simp only; omega) inside found
  · by_cases before : j < final.l
    · rw [searching.passed j after before] at entry
      cases entry
    · exact bracket.greater j u (by simp only; omega) upto entry

theorem Narrows.no_match (narrows : Narrows key search final)
    (increasing : Increasing key search.l search.r) (searching : Searching key L R final)
    (stopped : final.test = false) {j : Int} (above : search.l ≤ j) (below : j ≤ search.r) :
    key j ≠ some search.addr.toNat := by
  intro marked
  have crossed := searching.crossed stopped
  have bracket := narrows.bracket increasing
  by_cases before : j < final.l
  · exact Nat.lt_irrefl _ (bracket.less j _ above before marked)
  · exact Nat.lt_irrefl _ (bracket.greater j _ (by simp only; omega) below marked)

theorem Narrows.result_above (narrows : Narrows key search final)
    (increasing : Increasing key search.l search.r) (begun : Searching key L R search)
    (searching : Searching key L R final) (stopped : final.test = false) {f : Int} {v : Nat}
    (above : search.l ≤ f) (below : f ≤ search.r) (first : ∀ j, search.l ≤ j → j < f → key j = none)
    (marked : key f = some v) (greater : search.addr.toNat < v) :
    final.result = (min search.regionLeft (f - 1), f - 1) := by
  have crossed := searching.crossed stopped
  have low := narrows.low
  have start := begun.low
  have finish := begun.high
  have leftLow := begun.leftLow
  have leftHigh := begun.leftHigh
  have bracket := narrows.bracket increasing
  have unpassed : final.l ≤ f := by
    by_contra passed
    exact lt_asymm greater (bracket.less f v above (by simp only; omega) marked)
  -- The entry behind the last window is the first one.
  have ends : final.r = f - 1 := by
    rcases searching.edge with all | ⟨w, behind⟩
    · omega
    · by_contra before
      rw [first (final.r + 1) (by omega) (by omega)] at behind
      cases behind
  have any : final.anyMatches = true := by
    cases none : final.anyMatches with
    | true => rfl
    | false =>
        obtain ⟨_, all, _⟩ := searching.noMatch none
        omega
  have left : final.regionLeft = search.regionLeft := by
    rcases narrows.left with same | ⟨inside, passed⟩
    · exact same
    · rcases searching.left with ⟨w, found⟩ | ⟨least, _⟩
      · rw [first final.regionLeft inside (by omega)] at found
        cases found
      · omega
  rw [result, any, if_pos rfl, left, ends]

/-! What follows a match. -/

structure Beyond (key : Int → Option Nat) (m : Int) (search : StabSearch) : Prop where
  l : m ≤ search.l
  r : m ≤ search.r
  left : m ≤ search.regionLeft
  anyMatch : search.anyMatches = true
  behind : m < search.l ∨ ∃ v, key m = some v ∧ v < search.addr.toNat

theorem Beyond.turned {m : Int} (beyond : Beyond key m search) (continues : search.l ≤ search.r)
    (turned : Turned key search next) : Beyond key m next := by
  have bounds := middle_bounds continues
  have low := beyond.l
  -- A probe that is not below the address lies above `m`.
  have probed {i : Int} {v : Nat} (above : search.l ≤ i) (marked : key i = some v)
      (notLess : search.addr.toNat ≤ v) : m < i := by
    rcases beyond.behind with past | ⟨w, here, less⟩
    · omega
    · by_contra back
      have same : i = m := by omega
      rw [same, here] at marked
      have := Option.some.inj marked
      omega
  cases turned with
  | skip =>
      exact ⟨Int.le_trans low (by simp only; omega), beyond.r, beyond.left, beyond.anyMatch,
        Or.inl (by simp only; omega)⟩
  | less last marked =>
      have above := last.above
      exact ⟨Int.le_trans low (by simp only; omega), beyond.r, Int.le_trans low above, rfl,
        Or.inl (by simp only; omega)⟩
  | greater last marked greater =>
      have past := probed last.above marked (Nat.le_of_lt greater)
      exact ⟨low, by simp only; omega, beyond.left, rfl, beyond.behind⟩
  | exact last marked =>
      have past := probed last.above marked (Nat.le_refl _)
      exact ⟨Int.le_of_lt past, beyond.r, Int.le_of_lt past, rfl, Or.inl past⟩

theorem Beyond.result_fst_ge {m : Int} (beyond : Beyond key m final) : m ≤ final.result.1 := by
  have left := beyond.left
  have right := beyond.r
  rw [result, beyond.anyMatch, if_pos rfl]
  exact Int.le_min.mpr ⟨left, right⟩

theorem Beyond.turns {m : Int} (beyond : Beyond (valueAt stabs type) m search)
    (readable : Readable stabs L R) (searching : Searching (valueAt stabs type) L R search)
    (turns : Turns test (turn stabs type) search final) :
    Beyond (valueAt stabs type) m final := by
  let inv search :=
    Searching (valueAt stabs type) L R search ∧ Beyond (valueAt stabs type) m search
  refine (turns.preserves inv ?_ ⟨searching, beyond⟩).2
  rintro search next ⟨searching, beyond⟩ turn
  obtain ⟨window, turned⟩ := searching.turned_of readable turn
  exact ⟨searching.turned window turned, beyond.turned window turned⟩

theorem result_wrapped (readable : Readable stabs L R)
    (increasing : Increasing (valueAt stabs type) L R)
    (searching : Searching (valueAt stabs type) L R search)
    (turns : Turns test (turn stabs type) search final) (stopped : final.test = false) {m : Int}
    (l : search.l = m) (left : search.regionLeft = m) (window : m ≤ search.r) {v : Nat}
    (marked : valueAt stabs type m = some v) (less : search.addr.toNat < v) :
    final.result = (m - 1, m - 1) := by
  have low := searching.low
  have high := searching.high
  have inside : Increasing (valueAt stabs type) search.l search.r := increasing.mono low high
  rcases narrows_or_meets readable searching turns with
    narrows | ⟨met, m', narrows, window', last, marked', _⟩
  · have result := narrows.result_above inside searching (searching.turns readable turns) stopped
      (Int.le_of_eq l) window (fun j above below => by omega) marked less
    rw [result, left, Int.min_eq_right (by omega)]
  · exfalso
    have met_at := narrows.met_inside inside window' last
    have order := increasing.lt_iff (show L ≤ m' by omega) (show m' ≤ R by omega)
      (show L ≤ m by omega) (show m ≤ R by omega) marked' marked
    have before := order.mpr less
    omega

end StabSearch

/-- `found` brackets the address: its first index is that of the last entry that does not lie above
the address, its second one is just before the next entry. -/
structure Containing (key : Int → Option Nat) (L R : Int) (addr : Nat) (found : Int × Int) :
    Prop where
  low : L ≤ found.1
  region : found.1 ≤ found.2
  high : found.2 ≤ R
  starts : ∃ v, key found.1 = some v ∧ v ≤ addr
  last : ∀ j v, found.1 < j → j ≤ R → key j = some v → addr < v
  next : ∀ j, found.1 < j → j ≤ found.2 → key j = none
  ends : found.2 = R ∨ ∃ v, key (found.2 + 1) = some v

/-- No other entry of the window is as close above `m` as the key has moved by. In one case the
search comes back to `m` in spite of one: that one is right behind `m`, the key moves on to its very
address, and the next move wraps. -/
def StaysAt (key : Int → Option Nat) (R : Int) (addr : Nat) (m last : Int) : Prop :=
  (∀ j v, m < j → j ≤ last → key j = some v → addr + 4 < v) ∨
    (2 ^ 32 ≤ addr + 8 ∧ m + 1 ≤ R ∧ key (m + 1) = some (addr + 4))

/-- An entry at the address itself stays the one found: the address does not wrap when it is
moved on by four, and the bisection has already left behind what lies that close above it. -/
def KeepsMatch (key : Int → Option Nat) (L R : Int) (addr : Nat) : Prop :=
  ∀ m, L ≤ m → m ≤ R → key m = some addr →
    ∃ last, Meets key middle addr L R m last ∧ addr + 4 < 2 ^ 32 ∧ StaysAt key R addr m last

theorem keepsMatch_iff {key : Int → Option Nat} {L R m last : Int} {addr : Nat}
    (increasing : Increasing key L R) (first : L ≤ m) (upto : m ≤ R)
    (match_ : key m = some addr) (meets : Meets key middle addr L R m last) :
    KeepsMatch key L R addr ↔ addr + 4 < 2 ^ 32 ∧ StaysAt key R addr m last := by
  constructor
  · intro keeps
    obtain ⟨last', meets', small, stays⟩ := keeps m first upto match_
    rw [(meets.unique meets').2]
    exact ⟨small, stays⟩
  · rintro ⟨small, stays⟩ m' first' upto' match'
    rw [increasing.index_unique first' upto' first upto match' match_]
    exact ⟨last, meets, small, stays⟩

section

open StabSearch

variable {stabs : Stabs} {type : Int} {L R : Int} {addr : Word} {search final : StabSearch}

theorem Containing.of_result {key : Int → Option Nat} {x : Nat}
    (searching : Searching key L R final) (stopped : final.test = false) {v : Nat}
    (low : L ≤ final.regionLeft) (region : final.regionLeft ≤ final.r)
    (marked : key final.regionLeft = some v) (notAbove : v ≤ x)
    (last : ∀ j w, final.regionLeft < j → j ≤ R → key j = some w → x < w) :
    Containing key L R x (final.regionLeft, final.r) where
  low := low
  region := region
  high := searching.high
  starts := ⟨v, marked, notAbove⟩
  last := last
  next j after before := by
    have crossed := searching.crossed stopped
    exact searching.passed j after (by simp only at before; omega)
  ends := searching.edge

theorem outcome_of_match (readable : Readable stabs L R)
    (increasing : Increasing (valueAt stabs type) L R)
    (searching : Searching (valueAt stabs type) L R search)
    (turns : Turns test (turn stabs type) search final) (stopped : final.test = false)
    {m : Int} {x : Nat} (l : search.l = m) (left : search.regionLeft = m) (window : m ≤ search.r)
    (marked : valueAt stabs type m = some x) (moved : search.addr.toNat = x + 4) :
    (StaysAt (valueAt stabs type) R x m search.r ∧
        Containing (valueAt stabs type) L R x final.result) ∨
      (¬StaysAt (valueAt stabs type) R x m search.r ∧ m < final.result.1) := by
  have low := searching.low
  have high := searching.high
  have finished := searching.turns readable turns
  have crossed := finished.crossed stopped
  have later : ∀ j w, m < j → j ≤ R → valueAt stabs type j = some w → x < w :=
    fun j w after upto => increasing m j x w (by omega) after upto marked
  rcases narrows_or_meets readable searching turns with
    narrows | ⟨met, m', narrows, window', last, marked', searching', turns'⟩
  · have inside := increasing.mono low high
    obtain ⟨result, reaches, region, ⟨w, found, near⟩, further⟩ :=
      narrows.result_near inside searching finished stopped (Int.le_of_eq l) window marked
        (by omega)
    have within : final.r ≤ search.r := (narrows.bracket inside).high
    rw [moved] at near further
    rw [result]
    by_cases same : final.regionLeft = m
    · exact Or.inl ⟨Or.inl (same ▸ further), .of_result finished stopped (by omega) region
        (same ▸ marked) (Nat.le_refl x) (same ▸ later)⟩
    · refine Or.inr ⟨?_, by simp only; omega⟩
      rintro (clean | ⟨_, _, close⟩)
      · have further := clean final.regionLeft w (by omega) (by omega) found
        omega
      · refine narrows.no_match inside finished stopped (j := m + 1) (by omega) (by omega) ?_
        rw [close, moved]
  · have met_at := narrows.met_inside (increasing.mono low high) window' last
    rw [moved] at marked'
    have beyond : m < m' :=
      (increasing.lt_iff (by omega) (by omega) (by omega) (by omega) marked marked').mpr (by omega)
    have notClean : ¬∀ j v, m < j → j ≤ search.r → valueAt stabs type j = some v → x + 4 < v :=
      fun clean => Nat.lt_irrefl _ (clean m' _ beyond (by omega) marked')
    have again : (met.matchedAt m').addr.toNat = (x + 4 + 4) % 2 ^ 32 := by
      change (met.addr + 4).toNat = _
      rw [narrows.addr, BitVec.toNat_add, moved]
      rfl
    by_cases wraps : 2 ^ 32 ≤ x + 8
    · have small : x + 4 < 2 ^ 32 := moved ▸ search.addr.isLt
      have result : final.result = (m' - 1, m' - 1) :=
        result_wrapped readable increasing searching' turns' stopped rfl rfl
          (show m' ≤ met.r by omega) marked' (by rw [again]; omega)
      rw [result]
      by_cases next : m' = m + 1
      · have here : m' - 1 = m := by omega
        rw [here]
        refine Or.inl ⟨Or.inr ⟨wraps, by omega, next ▸ marked'⟩, ?_⟩
        refine ⟨by simp only; omega, Int.le_refl m, by simp only; omega, ⟨x, marked, Nat.le_refl x⟩,
          later, fun j after before => ?_, Or.inr ⟨_, next ▸ marked'⟩⟩
        simp only at after before
        omega
      · refine Or.inr ⟨?_, by simp only; omega⟩
        rintro (clean | ⟨_, inRange, close⟩)
        · exact notClean clean
        · refine next (increasing.index_unique ?_ ?_ ?_ inRange marked' close)
          all_goals omega
    · have past : Beyond (valueAt stabs type) m' (met.matchedAt m') :=
        ⟨Int.le_refl m', show m' ≤ met.r by omega, Int.le_refl m', rfl,
          Or.inr ⟨_, marked', by rw [again]; omega⟩⟩
      have reaches := (past.turns readable searching' turns').result_fst_ge
      refine Or.inr ⟨?_, by omega⟩
      rintro (clean | ⟨wraps', _⟩)
      · exact notClean clean
      · exact wraps wraps'

theorem stabBinsearch_outcome (readable : Readable stabs L R)
    (increasing : Increasing (valueAt stabs type) L R) {i : Int} {v : Nat} (above : L ≤ i)
    (below : i ≤ R) (marked : valueAt stabs type i = some v) (starts : v ≤ addr.toNat) :
    ∃ found, stabBinsearch stabs L R type addr = .ok found ∧
      ((KeepsMatch (valueAt stabs type) L R addr.toNat ∧
          Containing (valueAt stabs type) L R addr.toNat found) ∨
        (¬KeepsMatch (valueAt stabs type) L R addr.toNat ∧
          ∃ m, L ≤ m ∧ m ≤ R ∧ valueAt stabs type m = some addr.toNat ∧
            ((2 ^ 32 ≤ addr.toNat + 4 ∧ found = (m - 1, m - 1)) ∨
              (addr.toNat + 4 < 2 ^ 32 ∧ m < found.1 ∧ found.1 ≤ R)))) := by
  obtain ⟨final, turns, stopped, searching, returns⟩ :=
    stabBinsearch_spec type addr readable (show L ≤ R + 1 by omega)
  have begun : Searching (valueAt stabs type) L R (begin L R addr) := .begin (by omega)
  have crossed := searching.crossed stopped
  refine ⟨final.result, returns stabs fun _ _ _ => rfl, ?_⟩
  rcases narrows_or_meets readable begun turns with
    narrows | ⟨met, m, narrows, window, last, match_, searching', turns'⟩
  · -- No entry at the address: the bisection is all there is.
    obtain ⟨result, reaches, region, ⟨w, found, near⟩, further⟩ :=
      narrows.result_near increasing begun searching stopped above below marked starts
    rw [result]
    refine Or.inl ⟨fun m first upto entry => ?_, ?_⟩
    · exact absurd entry (narrows.no_match increasing searching stopped first upto)
    · exact .of_result searching stopped (by omega) region found (Nat.le_of_lt near) further
  · have met_in : L ≤ m ∧ m ≤ met.r ∧ met.r ≤ R := narrows.met_inside increasing window last
    have inRange : L ≤ m ∧ m ≤ R := by omega
    have met_at : Meets (valueAt stabs type) middle addr.toNat L R m met.r :=
      ⟨met.l, narrows.steps, window, last, match_⟩
    have keeps : KeepsMatch (valueAt stabs type) L R addr.toNat ↔
        addr.toNat + 4 < 2 ^ 32 ∧ StaysAt (valueAt stabs type) R addr.toNat m met.r :=
      keepsMatch_iff increasing inRange.1 inRange.2 match_ met_at
    have moved : (met.matchedAt m).addr.toNat = (addr.toNat + 4) % 2 ^ 32 := by
      change (met.addr + 4).toNat = _
      rw [narrows.addr, BitVec.toNat_add]
      rfl
    have bound := addr.isLt
    rw [keeps]
    by_cases wraps : 2 ^ 32 ≤ addr.toNat + 4
    · have result : final.result = (m - 1, m - 1) :=
        result_wrapped readable increasing searching' turns' stopped rfl rfl
        (show m ≤ met.r by omega) match_ (by rw [moved]; change _ < addr.toNat; omega)
      exact Or.inr ⟨fun keeps => by omega, m, inRange.1, inRange.2, match_, Or.inl ⟨wraps, result⟩⟩
    · rcases outcome_of_match readable increasing searching' turns' stopped rfl rfl
          (show m ≤ met.r by omega) match_
          (by rw [moved]; exact Nat.mod_eq_of_lt (by omega)) with
        ⟨stays, containing⟩ | ⟨leaves, further⟩
      · exact Or.inl ⟨⟨by omega, stays⟩, containing⟩
      · have region : ¬final.result.2 < final.result.1 := by
          rw [searching.absent_iff stopped]
          intro unmarked
          rw [unmarked m inRange.1 inRange.2] at match_
          cases match_
        have upto := searching.result_snd_le
        exact Or.inr ⟨fun keeps => leaves keeps.2, m, inRange.1, inRange.2, match_,
          Or.inr ⟨by omega, further, by omega⟩⟩

theorem stabBinsearch_above (readable : Readable stabs L R)
    (increasing : Increasing (valueAt stabs type) L R)
    (above : ∀ j v, L ≤ j → j ≤ R → valueAt stabs type j = some v → addr.toNat < v)
    {i : Int} {v : Nat} (first : L ≤ i) (upto : i ≤ R) (marked : valueAt stabs type i = some v) :
    ∃ f w, L ≤ f ∧ f ≤ R ∧ (∀ j, L ≤ j → j < f → valueAt stabs type j = none) ∧
      valueAt stabs type f = some w ∧
      stabBinsearch stabs L R type addr = .ok (min L (f - 1), f - 1) := by
  obtain ⟨final, turns, stopped, searching, returns⟩ :=
    stabBinsearch_spec type addr readable (show L ≤ R + 1 by omega)
  have begun : Searching (valueAt stabs type) L R (begin L R addr) := .begin (by omega)
  have crossed := searching.crossed stopped
  have low := searching.low
  have high := searching.high
  rcases narrows_or_meets readable begun turns with
    narrows | ⟨met, m, narrows, window, last, match_, _⟩
  · have bracket : Bracket _ addr.toNat (L, R) (final.l, final.r) := narrows.bracket increasing
    have unpassed : ∀ j, L ≤ j → j < final.l → valueAt stabs type j = none := by
      intro j above' before
      cases entry : valueAt stabs type j with
      | none => rfl
      | some w =>
          have less := bracket.less j w above' before entry
          exact absurd less (Nat.lt_asymm (above j w above' (by omega) entry))
    rcases searching.edge with all | ⟨w, behind⟩
    · rw [unpassed i first (by omega)] at marked
      cases marked
    · rw [← crossed] at behind
      have inRange : final.l ≤ R := by
        by_contra outside
        rw [unpassed i first (by omega)] at marked
        cases marked
      refine ⟨final.l, w, low, inRange, unpassed, behind, ?_⟩
      rw [returns stabs fun _ _ _ => rfl]
      exact congrArg Except.ok (narrows.result_above increasing begun searching stopped low inRange
        unpassed behind (above _ w low inRange behind))
  · have met_in : L ≤ m ∧ m ≤ met.r ∧ met.r ≤ R := narrows.met_inside increasing window last
    exact absurd (above m _ (by omega) (by omega) match_) (Nat.lt_irrefl _)

def FindsContaining (stabs : Stabs) (type L R : Int) (addr : Word) : Prop :=
  ∃ found, stabBinsearch stabs L R type addr = .ok found ∧
    Containing (valueAt stabs type) L R addr.toNat found

theorem findsContaining_iff (readable : Readable stabs L R)
    (increasing : Increasing (valueAt stabs type) L R)
    (starts : ∃ i v, L ≤ i ∧ i ≤ R ∧ valueAt stabs type i = some v ∧ v ≤ addr.toNat) :
    FindsContaining stabs type L R addr ↔ KeepsMatch (valueAt stabs type) L R addr.toNat := by
  obtain ⟨i, v, above, below, marked, notAbove⟩ := starts
  obtain ⟨found, returns, outcome⟩ :=
    stabBinsearch_outcome readable increasing above below marked notAbove
  rcases outcome with ⟨keeps, containing⟩ | ⟨leaves, m, first, upto, match_, elsewhere⟩
  · exact ⟨fun _ => keeps, fun _ => ⟨found, returns, containing⟩⟩
  · refine ⟨fun finds => ?_, fun keeps => absurd keeps leaves⟩
    obtain ⟨found', returns', containing⟩ := finds
    rw [returns] at returns'
    cases returns'
    -- The entry at the address is the last one that does not lie above it.
    rcases elsewhere with ⟨_, before⟩ | ⟨_, after, inRange⟩
    · have behind : found.1 < m := by
        rw [before]
        exact Int.sub_one_lt_of_le (Int.le_refl m)
      exact absurd (containing.last m _ behind upto match_) (Nat.lt_irrefl _)
    · obtain ⟨w, at_, near⟩ := containing.starts
      have further := increasing m found.1 _ w first after inRange match_ at_
      omega

end

theorem closeSources_increasing : Increasing (valueAt closeSources nSo) 0 1 := by
  intro i j v w above before below first second
  obtain ⟨rfl, rfl⟩ : i = 0 ∧ j = 1 := by omega
  rw [← Option.some.inj first, ← Option.some.inj second]
  decide

/-- Nothing lies behind the second file, so it is found at its first instruction. -/
theorem findsContaining_iff_closeSources : FindsContaining closeSources nSo 0 1 0x102 := by
  have first : valueAt closeSources nSo 0 = some 0x100 := by decide
  have second : valueAt closeSources nSo 1 = some 0x102 := by decide
  have alone (i : Int) : Last (valueAt closeSources nSo) i i i :=
    ⟨Int.le_refl i, Int.le_refl i, fun j after upto => by omega⟩
  have lower : Halves (valueAt closeSources nSo) middle 0x102 (0, 1) (1, 1) :=
    Halves.right (by omega) (alone 0) first (by omega)
  have meets : Meets (valueAt closeSources nSo) middle 0x102 0 1 1 1 :=
    ⟨1, Relation.ReflTransGen.single lower, Int.le_refl 1, alone 1, second⟩
  have keeps : KeepsMatch (valueAt closeSources nSo) 0 1 0x102 := by
    intro m above upto match_
    have here := closeSources_increasing.index_unique above upto (by omega) (by omega) match_ second
    rw [here]
    exact ⟨1, meets, by omega, Or.inl fun j v after upto' _ => by omega⟩
  exact (findsContaining_iff (fun i above below => closeSources_table i above (by omega))
    closeSources_increasing ⟨0, 0x100, by decide, by decide, rfl, by decide⟩).mpr keeps

/-- The second file is found at the first instruction of the first one. -/
theorem not_findsContaining_closeSources :
    Readable closeSources 0 1 ∧ Increasing (valueAt closeSources nSo) 0 1 ∧
      (∃ i v, 0 ≤ i ∧ i ≤ 1 ∧ valueAt closeSources nSo i = some v ∧ v ≤ (0x100 : Word).toNat) ∧
      ¬FindsContaining closeSources nSo 0 1 0x100 := by
  refine ⟨fun i above below => closeSources_table i above (by omega), closeSources_increasing,
    ⟨0, 0x100, by decide, by decide, rfl, by decide⟩, ?_⟩
  rintro ⟨found, returns, containing⟩
  have wrong : stabBinsearch closeSources 0 1 nSo 0x100 = .ok (1, 1) := by decide
  rw [wrong] at returns
  cases returns
  obtain ⟨v, second, notAbove⟩ := containing.starts
  rw [← Option.some.inj second] at notAbove
  exact absurd notAbove (by decide)

end FosV2
