import FosV2.InitializePaging

/-!
Environments as the system calls see them: the table `envs`, the current environment, and
`envid2env` with its one user `sys_env_destroy`. A `struct Env *` is an index into the
table, null is `none`.
-/

namespace FosV2

def nenv : Nat := 1024

def envx (envid : Word) : Nat := (envid &&& 1023).toNat

def envFree : Word := 0

structure Env where
  envId : Word
  envParentId : Word
  envStatus : Word
  -- The frame of the page directory.
  envPgdir : Nat

/-- The kernel while it serves a trap from user mode, so that there is a current
environment: `trap` asserts it. -/
structure Kernel where
  memory : State
  envs : Nat → Env
  curenv : Nat
  -- The frame of the directory that is loaded.
  cr3 : Nat
  -- The characters that wait for `cons_getc`, and those printed by `sys_cputs`.
  inputs : List (BitVec 8)
  output : List (BitVec 8)

namespace Kernel

def load (κ : Kernel) (va : Word) : Except Stop Word :=
  let directoryEntry := κ.memory.memory κ.cr3 (pdx va)
  if ¬present directoryEntry then .error (.pageFault va)
  else
    let entry := κ.memory.memory (entryFrame directoryEntry) (ptx va)
    if ¬present entry then .error (.pageFault va)
    else .ok (κ.memory.memory (entryFrame entry) (va.toNat % 4096 / 4))

end Kernel

/-- Where `env_id` lies in a `struct Env`, and so where it is read through a null pointer. -/
def envIdOffset : Word := 76

def envIdOf (κ : Kernel) : Option Nat → Except Stop Word
  | some e => .ok (κ.envs e).envId
  | none => κ.load envIdOffset

def envid2env (κ : Kernel) (envid : Word) (checkperm : Bool) : Word × Option Nat :=
  if envid = 0 then (0, some κ.curenv)
  else
    let e := envx envid
    if (κ.envs e).envStatus = envFree ∨ (κ.envs e).envId ≠ envid then (-eBadEnv, none)
    else if checkperm ∧ e ≠ κ.curenv ∧ (κ.envs e).envParentId ≠ (κ.envs κ.curenv).envId then
      (-eBadEnv, none)
    else (0, some e)

/-- `env_free` panics before it has done anything, so nothing comes back. -/
def envDestroy (_ : Kernel) (e : Option Nat) : Except Stop Kernel :=
  .error (.envDestroy e)

def sysEnvDestroy (κ : Kernel) (envid : Word) : Except Stop (Word × Kernel) := do
  let (r, e) := envid2env κ envid true
  if r.toInt < 0 then return (r, κ)
  -- Either message reads the id of `e`.
  if e = some κ.curenv then
    let _ ← envIdOf κ (some κ.curenv)
  else
    let _ ← envIdOf κ e
  let κ ← envDestroy κ e
  return (0, κ)

structure Destroyable (κ : Kernel) (envid : Word) (e : Nat) : Prop where
  live : (κ.envs e).envStatus ≠ envFree
  denoted : if envid = 0 then e = κ.curenv else e = envx envid ∧ (κ.envs e).envId = envid
  related : e = κ.curenv ∨ (κ.envs e).envParentId = (κ.envs κ.curenv).envId

structure DestroysSafely (κ : Kernel) (envid : Word) : Prop where
  target : ∀ e, sysEnvDestroy κ envid = .error (.envDestroy e) →
    ∃ environment, e = some environment ∧ Destroyable κ envid environment
  refusal : (∀ environment, ¬Destroyable κ envid environment) →
    ∃ r κ', sysEnvDestroy κ envid = .ok (r, κ') ∧ r.toInt < 0

theorem envid2env_of_destroyable {κ : Kernel} {envid : Word} {e : Nat}
    (destroyable : Destroyable κ envid e) : envid2env κ envid true = (0, some e) := by
  obtain ⟨live, denoted, related⟩ := destroyable
  by_cases zero : envid = 0
  · rw [if_pos zero] at denoted
    rw [envid2env, if_pos zero, denoted]
  · rw [if_neg zero] at denoted
    obtain ⟨index, id⟩ := denoted
    subst index
    rw [envid2env, if_neg zero, if_neg, if_neg]
    · rintro ⟨_, other, stranger⟩
      exact related.elim other stranger
    · rintro (free | stale)
      · exact live free
      · exact stale id

/-- A refused id comes back as a positive code and a null environment, except that the
current environment is never refused. -/
theorem envid2env_of_not_destroyable {κ : Kernel} {envid : Word}
    (none : ∀ e, ¬Destroyable κ envid e) :
    envid2env κ envid true = (-eBadEnv, Option.none) ∨
      (envid = 0 ∧ envid2env κ envid true = (0, some κ.curenv)) := by
  by_cases zero : envid = 0
  · refine Or.inr ⟨zero, ?_⟩
    rw [envid2env, if_pos zero]
  · refine Or.inl ?_
    simp only [envid2env, zero, if_false]
    split
    · rfl
    · rename_i found
      rw [not_or, not_not] at found
      split
      · rfl
      · rename_i permitted
        have related : envx envid = κ.curenv ∨
            (κ.envs (envx envid)).envParentId = (κ.envs κ.curenv).envId := by
          by_contra stranger
          rw [not_or] at stranger
          exact permitted ⟨trivial, stranger.1, stranger.2⟩
        refine absurd ⟨found.1, ?_, related⟩ (none (envx envid))
        rw [if_neg zero]
        exact ⟨rfl, found.2⟩

/-- What becomes of a lookup that has not returned a negative code: `env_destroy`, unless
the message faults on the way. -/
theorem sysEnvDestroy_of_lookup {κ : Kernel} {envid r : Word} {e : Option Nat}
    (lookup : envid2env κ envid true = (r, e)) (nonnegative : ¬r.toInt < 0) :
    sysEnvDestroy κ envid = .error (.envDestroy e) ∨
      sysEnvDestroy κ envid = .error (.pageFault envIdOffset) := by
  have run : sysEnvDestroy κ envid = (if e = some κ.curenv then
      envIdOf κ (some κ.curenv) >>= fun _ => .error (.envDestroy e)
    else envIdOf κ e >>= fun _ => .error (.envDestroy e)) := by
    simp only [sysEnvDestroy, lookup, nonnegative, if_false]
    split <;> rfl
  rw [run]
  split
  · exact Or.inl rfl
  · cases e with
    | some e => exact Or.inl rfl
    | none =>
        simp only [envIdOf, Kernel.load]
        split
        · exact Or.inr rfl
        · split
          · exact Or.inr rfl
          · exact Or.inl rfl

theorem exists_destroyable {κ : Kernel} {envid : Word} (safe : DestroysSafely κ envid) :
    ∃ e, Destroyable κ envid e := by
  by_contra none
  rw [not_exists] at none
  obtain ⟨r, κ', returned, _⟩ := safe.refusal none
  have stops : ∀ lookup, envid2env κ envid true = lookup → ¬lookup.1.toInt < 0 → False := by
    intro lookup found nonnegative
    rcases sysEnvDestroy_of_lookup found nonnegative with stop | stop
    · rw [stop] at returned
      exact absurd returned (by simp)
    · rw [stop] at returned
      exact absurd returned (by simp)
  rcases envid2env_of_not_destroyable none with lookup | ⟨_, lookup⟩
  · exact stops _ lookup (by decide)
  · exact stops _ lookup (by decide : ¬(0 : Word).toInt < 0)

/-- `sys_env_destroy` does what it should exactly for the ids that may be destroyed. -/
theorem destroysSafely_iff (κ : Kernel) (envid : Word) :
    DestroysSafely κ envid ↔ ∃ e, Destroyable κ envid e := by
  constructor
  · exact exists_destroyable
  · rintro ⟨e, destroyable⟩
    constructor
    · intro target called
      have lookup := envid2env_of_destroyable destroyable
      rcases sysEnvDestroy_of_lookup lookup (by decide) with stop | stop
      · rw [stop] at called
        cases called
        exact ⟨e, rfl, destroyable⟩
      · rw [stop] at called
        exact absurd called (by simp)
    · intro none
      exact absurd destroyable (none e)

def loneEnvironment : Kernel where
  memory := smallMachineBooted
  envs e := if e = 0 then ⟨1024, 0, 1, 256⟩ else ⟨0, 0, envFree, 0⟩
  curenv := 0
  cr3 := 256
  inputs := []
  output := []

/-- The id 1025 denotes the free slot 1. -/
theorem not_destroysSafely_freeSlot : ¬DestroysSafely loneEnvironment 1025 := by
  intro safe
  obtain ⟨e, destroyable⟩ := exists_destroyable safe
  have denoted := destroyable.denoted
  rw [if_neg (by decide)] at denoted
  have index : e = 1 := denoted.1
  subst index
  exact destroyable.live rfl

end FosV2
