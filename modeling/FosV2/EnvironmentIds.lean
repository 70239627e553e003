import FosV2.EnvironmentPool

/-!
The ids of environments. The generation in front of the slot's index counts the times the
slot was completed; it starts again at 1 when it would reach the sign bit, after 524287
generations. Until then an id that was given up finds no environment.
-/

namespace FosV2

/-- `envid2env` where there may be no current environment: its id is then read through the
null pointer. -/
def envid2envFrom (κ : Kernel) (curenv : Option Nat) (envid : Word) (checkperm : Bool) :
    Except Stop (Word × Option Nat) :=
  if envid = 0 then .ok (0, curenv)
  else
    let e := envx envid
    if (κ.envs e).envStatus = envFree ∨ (κ.envs e).envId ≠ envid then .ok (-eBadEnv, none)
    else if checkperm ∧ some e ≠ curenv then do
      let caller ← envIdOf κ curenv
      if (κ.envs e).envParentId ≠ caller then return (-eBadEnv, none)
      else return (0, some e)
    else .ok (0, some e)

theorem envid2envFrom_curenv (κ : Kernel) (envid : Word) (checkperm : Bool) :
    envid2envFrom κ (some κ.curenv) envid checkperm = .ok (envid2env κ envid checkperm) := by
  simp only [envid2envFrom, envid2env]
  split
  · rfl
  · split
    · rfl
    · by_cases permitted : checkperm ∧ envx envid ≠ κ.curenv
      · simp only [permitted, true_and, ne_eq, Option.some.injEq, not_false_eq_true, and_self,
          if_true, envIdOf]
        change (if _ then Except.ok _ else Except.ok _) = _
        split <;> rfl
      · have notBoth : ¬(checkperm ∧ some (envx envid) ≠ some κ.curenv) := by
          simpa only [ne_eq, Option.some.injEq] using permitted
        rw [if_neg notBoth, if_neg]
        exact fun both => permitted ⟨both.1, both.2.1⟩

def generations : Nat := 524287

def idOf (e count : Nat) : Word := BitVec.ofNat 32 (4096 * (count % generations + 1) + e)

def idHistory (e : Nat) : Nat → List Word
  | 0 => []
  | count + 1 => idOf e count :: idHistory e count

section Words

variable {e count generation low : Nat}

theorem toNat_idOf (bound : e < nenv) (count : Nat) :
    (idOf e count).toNat = 4096 * (count % generations + 1) + e := by
  have small : count % generations < 524287 := Nat.mod_lt _ (by decide)
  have slots : nenv = 1024 := rfl
  rw [idOf, BitVec.toNat_ofNat, Nat.mod_eq_of_lt (by omega)]

theorem idOf_positive (bound : e < nenv) (count : Nat) : 0 < (idOf e count).toInt := by
  have value := toNat_idOf bound count
  have small : count % generations < 524287 := Nat.mod_lt _ (by decide)
  have slots : nenv = 1024 := rfl
  rw [BitVec.toInt_eq_toNat_of_lt (by omega)]
  omega

theorem envx_idOf (bound : e < nenv) (count : Nat) : envx (idOf e count) = e := by
  have value := toNat_idOf bound count
  have slots : nenv = 1024 := rfl
  have field := AlignedWord.toNat_field (idOf e count) 0 10 (by decide)
  rw [BitVec.ushiftRight_zero] at field
  have index : envx (idOf e count) = (idOf e count).toNat / 2 ^ 0 % 2 ^ 10 := field
  rw [index, value]
  omega

/-- Two ids of a slot are the same exactly when a whole number of periods lies between them. -/
theorem idOf_eq_iff (bound : e < nenv) (first second : Nat) :
    idOf e first = idOf e second ↔ first % generations = second % generations := by
  constructor
  · intro same
    have values := congrArg BitVec.toNat same
    rw [toNat_idOf bound, toNat_idOf bound] at values
    omega
  · intro same
    rw [idOf, idOf, same]

theorem toNat_nextGeneration {word : Word} (value : word.toNat = 4096 * generation + low)
    (fits : generation ≤ generations) (small : low < nenv) :
    ((word + (1 <<< envGenShift : Word)) &&& ~~~(BitVec.ofNat 32 nenv - 1)).toNat =
      4096 * (generation + 1) := by
  have slots : nenv = 1024 := rfl
  have most : generations = 524287 := rfl
  have sum : (word + (1 <<< envGenShift : Word)).toNat = 4096 * (generation + 1) + low := by
    have one : (1 <<< envGenShift : Word).toNat = 4096 := by decide
    rw [BitVec.toNat_add, one, value]
    omega
  have aligned := AlignedWord.toNat_alignDown 10 (word + (1 <<< envGenShift : Word))
  rw [sum] at aligned
  exact aligned.trans (by omega)

theorem toNat_or_index {word : Word} (value : word.toNat = 4096 * generation)
    (bound : e < nenv) : (word ||| BitVec.ofNat 32 e).toNat = 4096 * generation + e := by
  have slots : nenv = 1024 := rfl
  have index : (BitVec.ofNat 32 e).toNat = e := by
    rw [BitVec.toNat_ofNat]
    omega
  have aligned : 2 ^ 10 ∣ word.toNat := by
    rw [value]
    omega
  rw [AlignedWord.toNat_or_of_aligned word _ aligned (by omega), value, index]

theorem toNat_nextEnvId {word : Word} (value : word.toNat = 4096 * generation + low)
    (fits : generation ≤ generations) (small : low < nenv) (bound : e < nenv) :
    (nextEnvId word e).toNat = 4096 * (generation % generations + 1) + e := by
  have most : generations = 524287 := rfl
  have next := toNat_nextGeneration value fits small
  rw [nextEnvId]
  generalize (word + (1 <<< envGenShift : Word)) &&& ~~~(BitVec.ofNat 32 nenv - 1) = cleared
    at next
  by_cases last : generation = generations
  · -- The sign bit is reached, and the count starts again.
    have negative : cleared.toInt ≤ 0 := by
      rw [BitVec.toInt_eq_toNat_cond, next]
      omega
    rw [if_pos negative, last, Nat.mod_self]
    exact toNat_or_index (by decide) bound
  · have positive : ¬cleared.toInt ≤ 0 := by
      rw [BitVec.toInt_eq_toNat_of_lt (by omega), next]
      omega
    rw [if_neg positive, Nat.mod_eq_of_lt (by omega)]
    exact toNat_or_index next bound

theorem nextEnvId_idHistory (bound : e < nenv) (count : Nat) :
    nextEnvId ((idHistory e count).headD 0) e = idOf e count := by
  apply BitVec.eq_of_toNat_eq
  rw [toNat_idOf bound]
  cases count with
  | zero =>
      have first : (0 : Word).toNat = 4096 * 0 + 0 := rfl
      exact toNat_nextEnvId first (Nat.zero_le _) (by decide) bound
  | succ count =>
      have small : count % generations < generations := Nat.mod_lt _ (by decide)
      have previous := toNat_idOf bound count
      have next := toNat_nextEnvId previous small bound bound
      rwa [Nat.mod_add_mod] at next

theorem getElem?_idHistory {i : Nat} {id : Word} (found : (idHistory e count)[i]? = some id) :
    i < count ∧ id = idOf e (count - 1 - i) := by
  induction count generalizing i with
  | zero => exact absurd found (by simp [idHistory])
  | succ count ih =>
      cases i with
      | zero =>
          rw [idHistory, List.getElem?_cons_zero] at found
          exact ⟨by omega, (Option.some.inj found).symm⟩
      | succ i =>
          rw [idHistory, List.getElem?_cons_succ] at found
          obtain ⟨earlier, same⟩ := ih found
          refine ⟨by omega, ?_⟩
          rw [same]
          congr 1
          omega

theorem idHistory_distinct (bound : e < nenv) {i j : Nat} {id id' : Word}
    (later : i < j) (near : j - i < generations) (first : (idHistory e count)[i]? = some id)
    (second : (idHistory e count)[j]? = some id') : id ≠ id' := by
  obtain ⟨_, rfl⟩ := getElem?_idHistory first
  obtain ⟨inside, rfl⟩ := getElem?_idHistory second
  have most : generations = 524287 := rfl
  rw [ne_eq, idOf_eq_iff bound, most]
  omega

end Words

structure IdsUnique (ρ : PoolRun) : Prop where
  current : ∀ e, ρ.live e = true → (ρ.assigned e).head? = some (ρ.pool.envs e).envId
  positive : ∀ e, ∀ id ∈ ρ.assigned e, 0 < id.toInt
  index : ∀ e, ∀ id ∈ ρ.assigned e, envx id = e
  distinct : ∀ e e', ρ.live e = true → ρ.live e' = true → e ≠ e' →
    (ρ.pool.envs e).envId ≠ (ρ.pool.envs e').envId
  -- The 524286 incarnations before the one at `i`.
  incarnations : ∀ e i j id id', i < j → j - i ≤ 524286 → (ρ.assigned e)[i]? = some id →
    (ρ.assigned e)[j]? = some id' → id ≠ id'
  -- The incarnation at `i` is freed and its slot was reused `i` times since.
  stale : ∀ e i id, (ρ.assigned e)[i]? = some id → (i = 0 → ρ.live e = false) → i < 524287 →
    ∀ κ : Kernel, (∀ other < nenv, κ.envs other = (ρ.pool.envs other).toEnv) →
      ∀ curenv checkperm, envid2envFrom κ curenv id checkperm = .ok (-eBadEnv, none)

structure IdsInvariant (ρ : PoolRun) : Prop where
  history : ∀ e, ρ.assigned e = idHistory e (ρ.assigned e).length
  inside : ∀ e, ρ.assigned e ≠ [] → e < nenv
  latest : ∀ e < nenv, (ρ.pool.envs e).envId = (ρ.assigned e).headD 0
  completed : ∀ e, ρ.live e = true → ρ.assigned e ≠ []

namespace IdsInvariant

variable {members : List Nat} {ρ ρ' : PoolRun} {call : PoolCall} {pool : EnvPool}

theorem start (pool : EnvPool) : IdsInvariant (.start pool) where
  history _ := rfl
  inside _ some := absurd rfl some
  latest e bound := by
    rw [envs_start pool bound]
    rfl
  completed _ live := nomatch live

theorem complete (ids : IdsInvariant ρ) {e : Nat} (bound : e < nenv)
    (id : (pool.envs e).envId = nextEnvId (ρ.pool.envs e).envId e)
    (others : ∀ other ≠ e, pool.envs other = ρ.pool.envs other) :
    IdsInvariant ⟨pool, none, Function.update ρ.live e true,
      Function.update ρ.assigned e ((pool.envs e).envId :: ρ.assigned e)⟩ := by
  refine ⟨fun other => ?_, fun other => ?_, fun other inside => ?_, fun other => ?_⟩
  all_goals by_cases same : other = e
  · subst same
    simp only [Function.update_self, List.length_cons, idHistory]
    rw [← ids.history other, id, ids.latest other bound, ids.history other,
      nextEnvId_idHistory bound, ← ids.history other]
  · simp only [Function.update_of_ne same]
    exact ids.history other
  · exact fun _ => same ▸ bound
  · simp only [Function.update_of_ne same]
    exact ids.inside other
  · subst same
    simp only [Function.update_self, List.headD_cons]
  · simp only [Function.update_of_ne same, others other same]
    exact ids.latest other inside
  · subst same
    simp only [Function.update_self]
    exact fun _ => List.cons_ne_nil _ _
  · simp only [Function.update_of_ne same]
    exact ids.completed other

theorem free (ids : IdsInvariant ρ) (e : Nat) : IdsInvariant
    { ρ with pool := freeEnvironment ρ.pool e, live := Function.update ρ.live e false } := by
  refine ⟨ids.history, ids.inside, fun other inside => ?_, fun other live => ?_⟩
  · by_cases same : other = e
    · subst same
      simp only [envs_freeEnvironment, Function.update_self]
      exact ids.latest other inside
    · simp only [envs_freeEnvironment, Function.update_of_ne same]
      exact ids.latest other inside
  · by_cases same : other = e
    · subst same
      exact absurd live (by simp)
    · simp only [Function.update_of_ne same] at live
      exact ids.completed other live

theorem step (invariant : PoolInvariant members ρ) (ids : IdsInvariant ρ)
    (taken : PoolStep ρ call ρ') : IdsInvariant ρ' := by
  cases taken with
  | allocate => exact ⟨ids.history, ids.inside, ids.latest, ids.completed⟩
  | @complete e pgdir cr3 pool pending completed =>
      have bound := ((invariant.listed e).mp (invariant.pending e pending)).1
      obtain ⟨pool', rest, completed', id, others, _⟩ := invariant.complete pgdir cr3 pending
      rw [completed] at completed'
      cases completed'
      exact ids.complete bound id others
  | free live => exact ids.free _

theorem reachable (empty : pool.envFreeList.lhFirst = none)
    (reached : Runs.Reachable PoolStep (.start pool) ρ) :
    (∃ members, PoolInvariant members ρ) ∧ IdsInvariant ρ := by
  have preserved : ∀ state label next,
      (∃ members, PoolInvariant members state) ∧ IdsInvariant state →
      PoolStep state label next →
      (∃ members, PoolInvariant members next) ∧ IdsInvariant next := by
    rintro state label next ⟨⟨members, invariant⟩, ids⟩ taken
    exact ⟨invariant.step taken, ids.step invariant taken⟩
  exact Runs.Reachable.preserves preserved reached ⟨PoolInvariant.start empty, start pool⟩

theorem nonempty (ids : IdsInvariant ρ) {e i : Nat} {id : Word}
    (found : (ρ.assigned e)[i]? = some id) : e < nenv := by
  apply ids.inside
  intro none
  rw [none] at found
  exact absurd found (by simp)

theorem of_mem (ids : IdsInvariant ρ) {e : Nat} {id : Word} (member : id ∈ ρ.assigned e) :
    e < nenv ∧ ∃ count, id = idOf e count := by
  obtain ⟨i, found⟩ := List.mem_iff_getElem?.mp member
  refine ⟨ids.nonempty found, ?_⟩
  rw [ids.history] at found
  exact ⟨_, (getElem?_idHistory found).2⟩

theorem current (ids : IdsInvariant ρ) {e : Nat} (live : ρ.live e = true) :
    (ρ.assigned e).head? = some (ρ.pool.envs e).envId := by
  have some := ids.completed e live
  rw [ids.latest e (ids.inside e some)]
  cases assigned : ρ.assigned e with
  | nil => exact absurd assigned some
  | cons id rest => rfl

theorem incarnations (ids : IdsInvariant ρ) {e i j : Nat} {id id' : Word} (later : i < j)
    (near : j - i ≤ 524286) (first : (ρ.assigned e)[i]? = some id)
    (second : (ρ.assigned e)[j]? = some id') : id ≠ id' := by
  have bound := ids.nonempty first
  have most : generations = 524287 := rfl
  rw [ids.history] at first second
  exact idHistory_distinct bound later (by omega) first second

/-- An environment that was given up is not found: its slot is free or has another id. -/
theorem stale (invariant : PoolInvariant members ρ) (ids : IdsInvariant ρ) {e i : Nat}
    {id : Word} (found : (ρ.assigned e)[i]? = some id) (freed : i = 0 → ρ.live e = false)
    (near : i < 524287) : (ρ.pool.envs e).envStatus = envFree ∨ (ρ.pool.envs e).envId ≠ id := by
  have bound := ids.nonempty found
  by_cases live : ρ.live e = true
  · right
    have head := ids.current live
    rw [List.head?_eq_getElem?] at head
    have later : 0 < i := by
      rcases Nat.eq_zero_or_pos i with zero | positive
      · rw [freed zero] at live
        exact absurd live (by simp)
      · exact positive
    exact ids.incarnations later (by omega) head found
  · left
    by_contra busy
    exact live ((invariant.live e).mpr ⟨bound, busy⟩)

theorem unique (invariant : PoolInvariant members ρ) (ids : IdsInvariant ρ) : IdsUnique ρ where
  current e live := ids.current live
  positive e id member := by
    obtain ⟨bound, count, rfl⟩ := ids.of_mem member
    exact idOf_positive bound count
  index e id member := by
    obtain ⟨bound, count, rfl⟩ := ids.of_mem member
    exact envx_idOf bound count
  distinct e e' live live' different same := by
    obtain ⟨bound, count, id⟩ := ids.of_mem (List.mem_of_mem_head? (ids.current live))
    obtain ⟨bound', count', id'⟩ := ids.of_mem (List.mem_of_mem_head? (ids.current live'))
    rw [id, id'] at same
    exact different ((envx_idOf bound count).symm.trans (same ▸ envx_idOf bound' count'))
  incarnations e i j id id' later near first second := ids.incarnations later near first second
  stale e i id found freed near κ table curenv checkperm := by
    obtain ⟨bound, count, same⟩ := ids.of_mem (List.mem_of_getElem? found)
    have index : envx id = e := same ▸ envx_idOf bound count
    have nonzero : id ≠ 0 := by
      intro zero
      have positive := idOf_positive bound count
      rw [← same, zero] at positive
      exact absurd positive (by decide)
    have refused : (κ.envs (envx id)).envStatus = envFree ∨ (κ.envs (envx id)).envId ≠ id := by
      rw [index, table e bound]
      exact stale invariant ids found freed near
    rw [envid2envFrom, if_neg nonzero]
    exact if_pos refused

end IdsInvariant

/-- After `env_init` no id is given out twice within 524287 uses of its slot. -/
theorem environmentIds_unique {pool : EnvPool} {ρ : PoolRun}
    (empty : pool.envFreeList.lhFirst = none)
    (reached : Runs.Reachable PoolStep (.start pool) ρ) : IdsUnique ρ := by
  obtain ⟨⟨members, invariant⟩, ids⟩ := IdsInvariant.reachable empty reached
  exact ids.unique invariant

theorem environmentIds_unique_zeroedPool : ∃ ρ e,
    ρ.live e = true ∧ ρ.assigned e = [nextEnvId 0 e] ∧ IdsUnique ρ := by
  obtain ⟨ρ, e, reached, live, assigned⟩ := zeroedPool_reaches
  exact ⟨ρ, e, live, assigned, environmentIds_unique rfl reached⟩

end FosV2
