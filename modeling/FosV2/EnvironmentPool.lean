import FosV2.Runs
import FosV2.Syscall

/-!
The pool of environments: `allocate_environment`, `free_environment`, `env_init` and
`complete_environment_initialization` of `kern/user_environment.c`. Creating an environment
takes two calls. The first one only looks at the head of the free list, the second one takes
the environment off the list, wherever it stands by then.
-/

namespace FosV2

open IntrusiveList

def envRunnable : Word := 1
def eNoFreeEnv : Word := -5
def envGenShift : Nat := 12
def ustackTop : Word := userTop - 2 * pageSize
def gdUt : BitVec 16 := 0x18
def gdUd : BitVec 16 := 0x20

structure EnvTrapframe extends Trapframe where
  tfEs : BitVec 16
  tfDs : BitVec 16
  tfErr : Word
  tfEip : Word
  tfEflags : Word
  tfEsp : Word
  tfSs : BitVec 16

structure EnvSlot extends Env where
  envTf : EnvTrapframe
  envRuns : Word
  envCr3 : Word

structure EnvPool where
  memory : State
  envs : Nat → EnvSlot
  envFreeList : LinkedList Nat
  curenv : Option Nat

namespace EnvPool

def setEnv (pool : EnvPool) (e : Nat) (slot : EnvSlot) : EnvPool :=
  { pool with envs := Function.update pool.envs e slot }

/-- What `env_create` is to do between the two calls: the environment gets its directory. -/
def withDirectory (pool : EnvPool) (e pgdir : Nat) (cr3 : Word) : EnvPool :=
  pool.setEnv e { pool.envs e with envPgdir := pgdir, envCr3 := cr3 }

end EnvPool

def allocateEnvironment (pool : EnvPool) : Word × Option Nat :=
  match pool.envFreeList.lhFirst with
  | none => (eNoFreeEnv, none)
  | some e => (0, some e)

def freeEnvironment (pool : EnvPool) (e : Nat) : EnvPool :=
  let pool := { pool with curenv := none }
  let pool := pool.setEnv e { pool.envs e with envStatus := envFree }
  { pool with envFreeList := pool.envFreeList.insertHead e }

def envInitOne (pool : EnvPool) (iEnv : Nat) : EnvPool :=
  let pool := pool.setEnv iEnv { pool.envs iEnv with envStatus := envFree, envId := 0 }
  { pool with envFreeList := pool.envFreeList.insertHead iEnv }

def envInitBelow : Nat → EnvPool → EnvPool
  | 0, pool => pool
  | iEnv + 1, pool => envInitBelow iEnv (envInitOne pool iEnv)

def envInit (pool : EnvPool) : EnvPool := envInitBelow nenv pool

/-- `generation` is an `int32`. -/
def nextEnvId (envId : Word) (e : Nat) : Word :=
  let increment : Word := 1 <<< envGenShift
  let generation := (envId + increment) &&& ~~~(BitVec.ofNat 32 nenv - 1)
  let generation := if generation.toInt ≤ 0 then increment else generation
  generation ||| BitVec.ofNat 32 e

def initialTrapframe : EnvTrapframe where
  tfRegs := ⟨0, 0, 0, 0, 0, 0, 0, 0⟩
  tfTrapno := 0
  tfCs := gdUt ||| 3
  tfEs := gdUd ||| 3
  tfDs := gdUd ||| 3
  tfErr := 0
  tfEip := 0
  tfEflags := 0
  tfEsp := ustackTop
  tfSs := gdUd ||| 3

/-- All of `complete_environment_initialization` but the `LIST_REMOVE` at its end. -/
def initializeEnvironment (pool : EnvPool) (e : Nat) : EnvPool :=
  let slot := pool.envs e
  let memory := pool.memory.setWord slot.envPgdir (pdx vpt)
    (slot.envCr3 ||| permPresent ||| permWriteable)
  let memory := memory.setWord slot.envPgdir (pdx uvpt)
    (slot.envCr3 ||| permPresent ||| permUser)
  let pool := { pool with memory := memory }
  pool.setEnv e { slot with
    envId := nextEnvId slot.envId e
    envParentId := 0
    envStatus := envRunnable
    envRuns := 0
    envTf := initialTrapframe }

def completeEnvironmentInitialization (pool : EnvPool) (e : Nat) : Except Stop EnvPool :=
  let pool := initializeEnvironment pool e
  match pool.envFreeList.remove e with
  | none => .error .nullPointer
  | some list => .ok { pool with envFreeList := list }

/-! Runs of the pool. -/

inductive PoolCall where
  | allocate
  | complete (pgdir : Nat) (cr3 : Word)
  | free (e : Nat)

structure PoolRun where
  pool : EnvPool
  pending : Option Nat
  live : Nat → Bool
  assigned : Nat → List Word

inductive PoolStep : PoolRun → PoolCall → PoolRun → Prop
  -- A creation that was pending is abandoned.
  | allocate (ρ : PoolRun) :
      PoolStep ρ .allocate { ρ with pending := (allocateEnvironment ρ.pool).2 }
  | complete {ρ : PoolRun} {e pgdir : Nat} {cr3 : Word} {pool : EnvPool} :
      ρ.pending = some e →
      completeEnvironmentInitialization (ρ.pool.withDirectory e pgdir cr3) e = .ok pool →
      PoolStep ρ (.complete pgdir cr3)
        { pool := pool
          pending := none
          live := Function.update ρ.live e true
          assigned := Function.update ρ.assigned e ((pool.envs e).envId :: ρ.assigned e) }
  | free {ρ : PoolRun} {e : Nat} : ρ.live e = true →
      PoolStep ρ (.free e)
        { ρ with pool := freeEnvironment ρ.pool e, live := Function.update ρ.live e false }

def PoolRun.start (pool : EnvPool) : PoolRun where
  pool := envInit pool
  pending := none
  live _ := false
  assigned _ := []

structure PoolInvariant (members : List Nat) (ρ : PoolRun) : Prop where
  linked : ρ.pool.envFreeList.WellLinked members
  listed : ∀ e, e ∈ members ↔ e < nenv ∧ (ρ.pool.envs e).envStatus = envFree
  live : ∀ e, ρ.live e = true ↔ e < nenv ∧ (ρ.pool.envs e).envStatus ≠ envFree
  pending : ∀ e, ρ.pending = some e → e ∈ members

structure PoolExact (ρ : PoolRun) : Prop where
  linked : ∃ members, ρ.pool.envFreeList.WellLinked members
  listed : ∀ e, ρ.pool.envFreeList.Reaches .head e ↔
    e < nenv ∧ (ρ.pool.envs e).envStatus = envFree
  fresh : ∀ e, allocateEnvironment ρ.pool = (0, some e) → e < nenv ∧ ρ.live e = false
  accounted : ∀ e < nenv, ρ.live e = false → ρ.pool.envFreeList.Reaches .head e
  fails : (allocateEnvironment ρ.pool).1 = eNoFreeEnv ↔ ∀ e < nenv, ρ.live e = true
  completes : ∀ e pgdir cr3, ρ.pending = some e → ∃ pool,
    completeEnvironmentInitialization (ρ.pool.withDirectory e pgdir cr3) e = .ok pool

section EnvPool

variable {pool : EnvPool} {members before after : List Nat} {e iEnv : Nat}

@[simp] theorem envFreeList_setEnv (pool : EnvPool) (e : Nat) (slot : EnvSlot) :
    (pool.setEnv e slot).envFreeList = pool.envFreeList := rfl

@[simp] theorem envs_setEnv (pool : EnvPool) (e : Nat) (slot : EnvSlot) :
    (pool.setEnv e slot).envs = Function.update pool.envs e slot := rfl

@[simp] theorem envFreeList_withDirectory (pool : EnvPool) (e pgdir : Nat) (cr3 : Word) :
    (pool.withDirectory e pgdir cr3).envFreeList = pool.envFreeList := rfl

theorem envs_withDirectory_of_ne (pool : EnvPool) {e other : Nat} (pgdir : Nat) (cr3 : Word)
    (different : other ≠ e) : (pool.withDirectory e pgdir cr3).envs other = pool.envs other :=
  Function.update_of_ne different _ _

@[simp] theorem envId_withDirectory (pool : EnvPool) (e pgdir : Nat) (cr3 : Word) :
    ((pool.withDirectory e pgdir cr3).envs e).envId = (pool.envs e).envId := by
  simp [EnvPool.withDirectory]

@[simp] theorem envFreeList_initializeEnvironment (pool : EnvPool) (e : Nat) :
    (initializeEnvironment pool e).envFreeList = pool.envFreeList := rfl

@[simp] theorem envs_initializeEnvironment_self (pool : EnvPool) (e : Nat) :
    (initializeEnvironment pool e).envs e = { pool.envs e with
      envId := nextEnvId (pool.envs e).envId e
      envParentId := 0
      envStatus := envRunnable
      envRuns := 0
      envTf := initialTrapframe } :=
  Function.update_self _ _ _

theorem envs_initializeEnvironment_of_ne (pool : EnvPool) {e other : Nat}
    (different : other ≠ e) : (initializeEnvironment pool e).envs other = pool.envs other :=
  Function.update_of_ne different _ _

theorem envs_freeEnvironment (pool : EnvPool) (e : Nat) :
    (freeEnvironment pool e).envs =
      Function.update pool.envs e { pool.envs e with envStatus := envFree } := rfl

theorem completeEnvironmentInitialization_listed
    (linked : pool.envFreeList.WellLinked (before ++ e :: after)) :
    ∃ list, completeEnvironmentInitialization pool e =
        .ok { initializeEnvironment pool e with envFreeList := list } ∧
      list.WellLinked (before ++ after) := by
  obtain ⟨list, removed, relinked⟩ := linked.remove
  refine ⟨list, ?_, relinked⟩
  rw [completeEnvironmentInitialization, envFreeList_initializeEnvironment, removed]

theorem allocateEnvironment_linked (linked : pool.envFreeList.WellLinked members) :
    (allocateEnvironment pool).2 = members.head? ∧
      ((allocateEnvironment pool).1 = eNoFreeEnv ↔ members = []) := by
  rw [allocateEnvironment, linked.lhFirst_eq]
  cases members with
  | nil => exact ⟨rfl, iff_of_true rfl rfl⟩
  | cons e rest =>
      have different : (0 : Word) ≠ eNoFreeEnv := by decide
      exact ⟨rfl, iff_of_false different (by simp)⟩

/-! `env_init` -/

theorem envInitBelow_linked (count : Nat) (linked : pool.envFreeList.WellLinked members)
    (fresh : ∀ e < count, e ∉ members) :
    ∃ all, (envInitBelow count pool).envFreeList.WellLinked all ∧
      ∀ e, e ∈ all ↔ e < count ∨ e ∈ members := by
  induction count generalizing pool members with
  | zero => exact ⟨members, linked, by simp⟩
  | succ iEnv ih =>
      have inserted : (envInitOne pool iEnv).envFreeList.WellLinked (iEnv :: members) :=
        linked.insertHead (fresh iEnv (by omega))
      have stillFresh : ∀ e < iEnv, e ∉ iEnv :: members := by
        intro e below member
        rcases List.mem_cons.mp member with same | member
        · omega
        · exact fresh e (by omega) member
      obtain ⟨all, linked', exact⟩ := ih inserted stillFresh
      refine ⟨all, linked', fun e => ?_⟩
      rw [exact e, List.mem_cons, Nat.lt_succ_iff_lt_or_eq, or_assoc]

theorem envs_envInitBelow (count : Nat) (pool : EnvPool) (e : Nat) :
    (envInitBelow count pool).envs e = if e < count
      then { pool.envs e with envStatus := envFree, envId := 0 } else pool.envs e := by
  induction count generalizing pool with
  | zero => rfl
  | succ iEnv ih =>
      have one : (envInitOne pool iEnv).envs = Function.update pool.envs iEnv
        { pool.envs iEnv with envStatus := envFree, envId := 0 } := rfl
      rw [envInitBelow, ih, one]
      by_cases same : e = iEnv
      · subst same
        simp
      · simp only [Function.update_of_ne same]
        by_cases below : e < iEnv
        · rw [if_pos below, if_pos (by omega)]
        · rw [if_neg below, if_neg (by omega)]

theorem envs_start (pool : EnvPool) {e : Nat} (bound : e < nenv) :
    (PoolRun.start pool).pool.envs e =
      { pool.envs e with envStatus := envFree, envId := 0 } := by
  unfold PoolRun.start envInit
  rw [envs_envInitBelow, if_pos bound]

end EnvPool

/-! What each call preserves. -/

namespace PoolInvariant

variable {members : List Nat} {ρ ρ' : PoolRun} {call : PoolCall} {pool : EnvPool}

theorem start (empty : pool.envFreeList.lhFirst = none) :
    ∃ members, PoolInvariant members (.start pool) := by
  have linked : pool.envFreeList.WellLinked [] := ⟨empty, List.nodup_nil⟩
  obtain ⟨all, linked', exact⟩ := envInitBelow_linked nenv linked (by simp)
  refine ⟨all, linked', fun e => ?_, fun e => ?_, fun e none => nomatch none⟩
  · rw [exact e]
    constructor
    · rintro (bound | member)
      · exact ⟨bound, by rw [envs_start pool bound]⟩
      · exact absurd member (by simp)
    · exact fun both => Or.inl both.1
  · constructor
    · exact fun impossible => nomatch impossible
    · rintro ⟨bound, busy⟩
      rw [envs_start pool bound] at busy
      exact absurd rfl busy

theorem not_live (invariant : PoolInvariant members ρ) {e : Nat} (member : e ∈ members) :
    ρ.live e = false := by
  rw [Bool.eq_false_iff]
  intro live
  exact ((invariant.live e).mp live).2 ((invariant.listed e).mp member).2

theorem allocate (invariant : PoolInvariant members ρ) :
    PoolInvariant members { ρ with pending := (allocateEnvironment ρ.pool).2 } := by
  refine ⟨invariant.linked, invariant.listed, invariant.live, ?_⟩
  intro e handed
  rw [(allocateEnvironment_linked invariant.linked).1] at handed
  exact List.mem_of_mem_head? handed

theorem complete (invariant : PoolInvariant members ρ) {e : Nat} (pgdir : Nat) (cr3 : Word)
    (pending : ρ.pending = some e) :
    ∃ pool rest, completeEnvironmentInitialization (ρ.pool.withDirectory e pgdir cr3) e =
        .ok pool ∧
      (pool.envs e).envId = nextEnvId (ρ.pool.envs e).envId e ∧
      (∀ other ≠ e, pool.envs other = ρ.pool.envs other) ∧
      ∀ assigned, PoolInvariant rest ⟨pool, none, Function.update ρ.live e true, assigned⟩ := by
  have member := invariant.pending e pending
  have bound := ((invariant.listed e).mp member).1
  obtain ⟨before, after, split⟩ := List.append_of_mem member
  have linked := split ▸ invariant.linked
  rw [← envFreeList_withDirectory ρ.pool e pgdir cr3] at linked
  obtain ⟨list, completed, relinked⟩ := completeEnvironmentInitialization_listed linked
  have others : ∀ other ≠ e, (initializeEnvironment (ρ.pool.withDirectory e pgdir cr3) e).envs
      other = ρ.pool.envs other := by
    intro other different
    rw [envs_initializeEnvironment_of_ne _ different, envs_withDirectory_of_ne _ _ _ different]
  refine ⟨_, before ++ after, completed, by simp, others, fun assigned => ?_⟩
  have unique : e ∉ before ++ after := by
    have nodup := split ▸ invariant.linked.nodup
    exact (List.nodup_middle.mp nodup).notMem
  refine ⟨relinked, fun other => ?_, fun other => ?_, fun other none => nomatch none⟩
  · by_cases same : other = e
    · subst same
      have busy : envRunnable ≠ envFree := by decide
      simp [unique, busy]
    · have listed := invariant.listed other
      rw [split] at listed
      simp only [others other same]
      rw [← listed]
      simp [same]
  · by_cases same : other = e
    · subst same
      have busy : envRunnable ≠ envFree := by decide
      simp [bound, busy]
    · simp only [Function.update_of_ne same, others other same]
      exact invariant.live other

theorem abandonThenCreate {e : Nat} {rest : List Nat} (invariant : PoolInvariant (e :: rest) ρ)
    (pgdir : Nat) (cr3 : Word) :
    ∃ pool, Runs.Run PoolStep ρ [.allocate, .allocate, .complete pgdir cr3]
      { pool := pool
        pending := none
        live := Function.update ρ.live e true
        assigned := Function.update ρ.assigned e
          (nextEnvId (ρ.pool.envs e).envId e :: ρ.assigned e) } := by
  have handed := (allocateEnvironment_linked invariant.linked).1
  obtain ⟨pool, _, completed, id, _, _⟩ := invariant.allocate.complete pgdir cr3 handed
  have created := PoolStep.complete handed completed
  rw [id] at created
  exact ⟨pool, .cons (.allocate ρ) (.cons (.allocate _) (.cons created (.nil _)))⟩

theorem free (invariant : PoolInvariant members ρ) {e : Nat} (live : ρ.live e = true) :
    PoolInvariant (e :: members)
      { ρ with pool := freeEnvironment ρ.pool e, live := Function.update ρ.live e false } := by
  have busy := (invariant.live e).mp live
  have outside : e ∉ members := fun member => busy.2 ((invariant.listed e).mp member).2
  refine ⟨invariant.linked.insertHead outside, fun other => ?_, fun other => ?_, ?_⟩
  · by_cases same : other = e
    · subst same
      simp [envs_freeEnvironment, busy.1]
    · simp only [envs_freeEnvironment, Function.update_of_ne same, List.mem_cons, same, false_or]
      exact invariant.listed other
  · by_cases same : other = e
    · subst same
      simp [envs_freeEnvironment]
    · simp only [envs_freeEnvironment, Function.update_of_ne same]
      exact invariant.live other
  · exact fun other handed => List.mem_cons_of_mem _ (invariant.pending other handed)

theorem step (invariant : PoolInvariant members ρ) (taken : PoolStep ρ call ρ') :
    ∃ members', PoolInvariant members' ρ' := by
  cases taken with
  | allocate => exact ⟨members, invariant.allocate⟩
  | complete pending completed =>
      obtain ⟨pool, rest, completed', _, _, next⟩ := invariant.complete _ _ pending
      rw [completed] at completed'
      cases completed'
      exact ⟨rest, next _⟩
  | free live => exact ⟨_, invariant.free live⟩

theorem reachable (empty : pool.envFreeList.lhFirst = none)
    (reached : Runs.Reachable PoolStep (.start pool) ρ) :
    ∃ members, PoolInvariant members ρ := by
  have preserved : ∀ state label next, (∃ members, PoolInvariant members state) →
      PoolStep state label next → ∃ members, PoolInvariant members next := by
    rintro state label next ⟨members, invariant⟩ taken
    exact invariant.step taken
  exact Runs.Reachable.preserves preserved reached (start empty)

theorem exact (invariant : PoolInvariant members ρ) : PoolExact ρ where
  linked := ⟨members, invariant.linked⟩
  listed e := (invariant.linked.reaches_iff e).trans (invariant.listed e)
  fresh e handed := by
    have head := (allocateEnvironment_linked invariant.linked).1
    rw [handed] at head
    have member := List.mem_of_mem_head? head.symm
    exact ⟨((invariant.listed e).mp member).1, invariant.not_live member⟩
  accounted e bound notLive := by
    rw [invariant.linked.reaches_iff, invariant.listed]
    refine ⟨bound, ?_⟩
    by_contra busy
    rw [(invariant.live e).mpr ⟨bound, busy⟩] at notLive
    exact absurd notLive (by simp)
  fails := by
    rw [(allocateEnvironment_linked invariant.linked).2]
    constructor
    · intro none e bound
      refine (invariant.live e).mpr ⟨bound, fun free => ?_⟩
      have member := (invariant.listed e).mpr ⟨bound, free⟩
      rw [none] at member
      exact absurd member (by simp)
    · intro all
      apply List.eq_nil_iff_forall_not_mem.mpr
      intro e member
      have live := all e ((invariant.listed e).mp member).1
      rw [invariant.not_live member] at live
      exact absurd live (by simp)
  completes e pgdir cr3 pending := by
    obtain ⟨pool, _, completed, _⟩ := invariant.complete pgdir cr3 pending
    exact ⟨pool, completed⟩

end PoolInvariant

/-- Whatever is created, abandoned and freed after `env_init`, the pool stays exact. -/
theorem environmentPool_exact {pool : EnvPool} {ρ : PoolRun}
    (empty : pool.envFreeList.lhFirst = none)
    (reached : Runs.Reachable PoolStep (.start pool) ρ) : PoolExact ρ := by
  obtain ⟨members, invariant⟩ := PoolInvariant.reachable empty reached
  exact invariant.exact

def zeroedPool : EnvPool where
  memory := smallMachineBooted
  envs _ := ⟨⟨0, 0, 0, 0⟩, ⟨⟨⟨0, 0, 0, 0, 0, 0, 0, 0⟩, 0, 0⟩, 0, 0, 0, 0, 0, 0, 0⟩, 0, 0⟩
  envFreeList := ⟨none, fun _ => ⟨none, none⟩⟩
  curenv := none

theorem zeroedPool_reaches : ∃ ρ e, Runs.Reachable PoolStep (.start zeroedPool) ρ ∧
    ρ.live e = true ∧ ρ.assigned e = [nextEnvId 0 e] := by
  have started : ∃ members, PoolInvariant members (.start zeroedPool) :=
    PoolInvariant.start rfl
  obtain ⟨members, initial⟩ := started
  cases members with
  | nil =>
      have zero := (initial.listed 0).mpr ⟨by decide, by rw [envs_start zeroedPool (by decide)]⟩
      exact absurd zero (by simp)
  | cons e rest =>
      have bound := ((initial.listed e).mp (by simp)).1
      obtain ⟨pool, run⟩ := initial.abandonThenCreate 256 0x100000
      refine ⟨_, e, ⟨_, run⟩, Function.update_self _ _ _, ?_⟩
      rw [envs_start zeroedPool bound]
      exact Function.update_self _ _ _

theorem environmentPool_exact_zeroedPool : ∃ ρ e, ρ.live e = true ∧ PoolExact ρ := by
  obtain ⟨ρ, e, reached, live, _⟩ := zeroedPool_reaches
  exact ⟨ρ, e, live, environmentPool_exact rfl reached⟩

end FosV2
