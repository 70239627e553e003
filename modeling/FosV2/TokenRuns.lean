import FosV2.IndexScan
import FosV2.WhileLoop
import Mathlib.Data.List.TakeWhile

/-!
The tokens of a text: its maximal runs of elements that are no separators, in order and with
the positions where they begin; and loops that walk to the end of a run.
-/

namespace TokenRuns

variable {α : Type} (sep : α → Bool) (s : List α)

def inToken (i : Nat) : Bool := s[i]?.any fun c => !sep c

def startsAt (i : Nat) : Bool := inToken sep s i && (i == 0 || !inToken sep s (i - 1))

def runAt (i : Nat) : List α := (s.drop i).takeWhile fun c => !sep c

def tokensFrom (i : Nat) : List (Nat × List α) :=
  ((List.range' i (s.length - i)).filter (startsAt sep s)).map fun i => (i, runAt sep s i)

def tokens : List (Nat × List α) := tokensFrom sep s 0

structure MaximalRun (i : Nat) (t : List α) : Prop where
  nonempty : t ≠ []
  elements : ∀ j c, t[j]? = some c → s[i + j]? = some c ∧ sep c = false
  before : ∀ j c, j + 1 = i → s[j]? = some c → sep c = true
  behind : ∀ c, s[i + t.length]? = some c → sep c = true

variable {sep s} {i j k : Nat} {c : α} {t : List α}

theorem inToken_iff : inToken sep s i = true ↔ ∃ c, s[i]? = some c ∧ sep c = false := by
  rw [inToken, Option.any_eq_true]
  simp

theorem inToken_false_iff : inToken sep s i = false ↔ ∀ c, s[i]? = some c → sep c = true := by
  rw [← Bool.not_eq_true, inToken_iff]
  simp

theorem inToken_not (inside : inToken (fun c => !sep c) s i = true) : inToken sep s i = false := by
  obtain ⟨c, found, separator⟩ := inToken_iff.mp inside
  rw [inToken, found]
  simpa using separator

theorem inToken_of_not (outside : inToken (fun c => !sep c) s i = false) (inside : i < s.length) :
    inToken sep s i = true := by
  have found := List.getElem?_eq_getElem inside
  have ordinary := inToken_false_iff.mp outside _ found
  exact inToken_iff.mpr ⟨_, found, by simpa using ordinary⟩

theorem lt_length_of_inToken (inside : inToken sep s i = true) : i < s.length := by
  obtain ⟨c, found, _⟩ := inToken_iff.mp inside
  exact (List.getElem?_eq_some_iff.mp found).1

theorem startsAt_iff : startsAt sep s i = true ↔
    inToken sep s i = true ∧ (i = 0 ∨ inToken sep s (i - 1) = false) := by
  simp [startsAt]

theorem runAt_element (found : (runAt sep s i)[j]? = some c) :
    s[i + j]? = some c ∧ sep c = false := by
  have member := List.mem_of_getElem? found
  have parts : runAt sep s i ++ (s.drop i).dropWhile (fun c => !sep c) = s.drop i :=
    List.takeWhile_append_dropWhile
  refine ⟨?_, by simpa using List.mem_takeWhile_imp member⟩
  rw [← List.getElem?_drop, ← parts, List.getElem?_append_left]
  · exact found
  · exact (List.getElem?_eq_some_iff.mp found).1

theorem inToken_runAt (above : i ≤ j) (below : j < i + (runAt sep s i).length) :
    inToken sep s j = true := by
  obtain ⟨k, rfl⟩ := Nat.exists_eq_add_of_le above
  have inside : k < (runAt sep s i).length := by omega
  exact inToken_iff.mpr ⟨_, runAt_element (List.getElem?_eq_getElem inside)⟩

variable (sep s i) in
theorem inToken_behind : inToken sep s (i + (runAt sep s i).length) = false := by
  have parts : runAt sep s i ++ (s.drop i).dropWhile (fun c => !sep c) = s.drop i :=
    List.takeWhile_append_dropWhile
  refine inToken_false_iff.mpr fun c found => ?_
  rw [← List.getElem?_drop, ← parts, List.getElem?_append_right (Nat.le_refl _), Nat.sub_self,
    ← List.head?_eq_getElem?] at found
  have stopped := List.head?_dropWhile_not (fun c => !sep c) (s.drop i)
  rw [found] at stopped
  simpa using stopped

variable (sep) in
theorem runAt_length_le (inside : i ≤ s.length) : i + (runAt sep s i).length ≤ s.length := by
  have le := (List.takeWhile_prefix (fun c => !sep c) (l := s.drop i)).length_le
  rw [List.length_drop] at le
  rw [runAt]
  omega

theorem runAt_ne_nil (inside : inToken sep s i = true) : runAt sep s i ≠ [] := by
  intro empty
  have outside := inToken_behind sep s i
  rw [empty, List.length_nil, Nat.add_zero, inside] at outside
  cases outside

theorem MaximalRun.within (run : MaximalRun sep s i t) : i + t.length ≤ s.length := by
  have positive := List.length_pos_iff.mpr run.nonempty
  have last := (run.elements (t.length - 1) _ (List.getElem?_eq_getElem (by omega))).1
  have inside := (List.getElem?_eq_some_iff.mp last).1
  omega

theorem maximalRun_runAt (start : startsAt sep s i = true) :
    MaximalRun sep s i (runAt sep s i) := by
  obtain ⟨inside, first⟩ := startsAt_iff.mp start
  constructor
  · exact runAt_ne_nil inside
  · intro j c found
    exact runAt_element found
  · rintro j c rfl found
    rcases first with zero | outside
    · cases zero
    · exact inToken_false_iff.mp outside c found
  · exact inToken_false_iff.mp (inToken_behind sep s i)

theorem tokensFrom_eq : tokensFrom sep s i =
    (IndexScan.matchesFrom (startsAt sep s) s.length i).map fun i => (i, runAt sep s i) := rfl

theorem tokensFrom_step (inside : i < s.length) : tokensFrom sep s i =
    if startsAt sep s i then (i, runAt sep s i) :: tokensFrom sep s (i + 1)
    else tokensFrom sep s (i + 1) := by
  rw [tokensFrom_eq, IndexScan.matchesFrom_step inside]
  split <;> rfl

theorem tokensFrom_end : tokensFrom sep s s.length = [] := by
  rw [tokensFrom_eq, IndexScan.matchesFrom_end]
  rfl

theorem tokensFrom_skip {count : Nat} (below : i + count ≤ s.length)
    (none : ∀ j, i ≤ j → j < i + count → startsAt sep s j = false) :
    tokensFrom sep s i = tokensFrom sep s (i + count) := by
  rw [tokensFrom_eq, tokensFrom_eq, IndexScan.matchesFrom_skip below none]

theorem tokensFrom_run (start : startsAt sep s i = true) : tokensFrom sep s i =
    (i, runAt sep s i) :: tokensFrom sep s (i + (runAt sep s i).length) := by
  have inside := (startsAt_iff.mp start).1
  have bound := lt_length_of_inToken inside
  have within := runAt_length_le sep (Nat.le_of_lt bound)
  obtain ⟨count, length⟩ := Nat.exists_eq_succ_of_ne_zero
    (Nat.ne_of_gt (List.length_pos_iff.mpr (runAt_ne_nil inside)))
  have behind : i + (runAt sep s i).length = i + 1 + count := by omega
  rw [tokensFrom_step bound, if_pos start, behind]
  refine congrArg _ (tokensFrom_skip (by omega) fun j above below => ?_)
  have before : inToken sep s (j - 1) = true := inToken_runAt (i := i) (by omega) (by omega)
  rw [← Bool.not_eq_true, startsAt_iff, before]
  rintro ⟨_, zero | outside⟩
  · omega
  · cases outside

theorem runAt_of_maximal (run : MaximalRun sep s i t) : runAt sep s i = t := by
  have sameLength : (runAt sep s i).length = t.length := by
    by_contra different
    rcases Nat.lt_or_gt_of_ne different with shorter | longer
    · obtain ⟨found, ordinary⟩ := run.elements _ _ (List.getElem?_eq_getElem shorter)
      have separator := inToken_false_iff.mp (inToken_behind sep s i) _ found
      rw [ordinary] at separator
      cases separator
    · obtain ⟨found, ordinary⟩ := runAt_element (List.getElem?_eq_getElem longer)
      have separator := run.behind _ found
      rw [ordinary] at separator
      cases separator
  refine List.ext_getElem sameLength fun j inRun inside => ?_
  have left := (runAt_element (List.getElem?_eq_getElem inRun)).1
  have right := (run.elements _ _ (List.getElem?_eq_getElem inside)).1
  exact Option.some.inj (left.symm.trans right)

/-- The tokens are just the maximal runs. -/
theorem mem_tokens_iff : (i, t) ∈ tokens sep s ↔ MaximalRun sep s i t := by
  simp only [tokens, tokensFrom, List.mem_map, List.mem_filter, List.mem_range'_1, Prod.mk.injEq]
  constructor
  · rintro ⟨_, ⟨_, start⟩, rfl, rfl⟩
    exact maximalRun_runAt start
  · intro run
    obtain ⟨c, rest, rfl⟩ := List.exists_cons_of_ne_nil run.nonempty
    obtain ⟨found, ordinary⟩ := run.elements 0 c rfl
    have inside : inToken sep s i = true := inToken_iff.mpr ⟨c, found, ordinary⟩
    have first : i = 0 ∨ inToken sep s (i - 1) = false := by
      by_cases zero : i = 0
      · exact .inl zero
      · exact .inr (inToken_false_iff.mpr fun c => run.before (i - 1) c (by omega))
    have bound := lt_length_of_inToken inside
    exact ⟨i, ⟨by omega, startsAt_iff.mpr ⟨inside, first⟩⟩, rfl, runAt_of_maximal run⟩

/-- A loop that goes on while it is in a token ends behind it. -/
theorem run_walk {S ε : Type} {test : S → Bool} {body : S → Except ε S} {endless : ε} {fuel : Nat}
    (line : Nat → S) (within : i ≤ s.length)
    (tests : ∀ j ≤ s.length, test (line j) = inToken sep s j)
    (turns : ∀ j, inToken sep s j = true → body (line j) = .ok (line (j + 1)))
    (enough : s.length < fuel) : WhileLoop.run test body endless fuel (line i) =
      .ok (line (i + (runAt sep s i).length)) := by
  have most := runAt_length_le sep within
  have continues : ∀ turn < (runAt sep s i).length, ∀ st, st = line (i + turn) →
      test st = true ∧ ∃ next, body st = .ok next ∧ next = line (i + (turn + 1)) := by
    rintro turn more st rfl
    have inside : inToken sep s (i + turn) = true := inToken_runAt (i := i) (by omega) (by omega)
    exact ⟨(tests _ (by omega)).trans inside, _, turns _ inside, rfl⟩
  have stops : ∀ st, st = line (i + (runAt sep s i).length) → test st = false := by
    rintro st rfl
    exact (tests _ most).trans (inToken_behind sep s i)
  have inTime : (runAt sep s i).length < 0 + fuel := by omega
  obtain ⟨st, returned, rfl⟩ :=
    WhileLoop.run_of_invariant continues stops (Nat.zero_le _) rfl inTime
  exact returned

end TokenRuns
