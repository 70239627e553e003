import Mathlib.Data.Nat.Basic
import Mathlib.Order.Nat
import Mathlib.Data.List.Basic

/-!
A bump allocator whose pointer lives in a bounded address space. Blocks are described by
where they start and stop when nothing wraps around; the pointer is taken modulo the end of
the space, and a pointer that has become zero stands for the origin.
-/

namespace BumpAllocator

def alignUp (align address : Nat) : Nat := (address + (align - 1)) / align * align

theorem le_alignUp {align : Nat} (positive : 0 < align) (address : Nat) :
    address ≤ alignUp align address := by
  have division := Nat.div_add_mod (address + (align - 1)) align
  have remainder := Nat.mod_lt (address + (align - 1)) positive
  rw [Nat.mul_comm] at division
  unfold alignUp
  omega

theorem alignUp_le {align address bound : Nat} (positive : 0 < align) (aligned : align ∣ bound)
    (below : address ≤ bound) : alignUp align address ≤ bound := by
  obtain ⟨count, rfl⟩ := aligned
  have quotient : (address + (align - 1)) / align ≤ count := by
    apply Nat.le_of_lt_succ
    rw [Nat.div_lt_iff_lt_mul positive, Nat.succ_mul, Nat.mul_comm]
    omega
  exact (Nat.mul_le_mul_right align quotient).trans_eq (Nat.mul_comm count align)

structure Arena where
  align : Nat
  limit : Nat
  origin : Nat
  positive : 0 < align
  aligned : align ∣ limit
  nonzero : 0 < origin
  inside : origin < limit

namespace Arena

variable (arena : Arena)

def start (pointer : Nat) : Nat :=
  alignUp arena.align (if pointer = 0 then arena.origin else pointer)

def blocks : List Nat → Nat → List (Nat × Nat)
  | [], _ => []
  | size :: sizes, pointer =>
      (arena.start pointer, arena.start pointer + size) ::
        blocks sizes ((arena.start pointer + size) % arena.limit)

def finish : List Nat → Nat → Nat
  | [], pointer => pointer
  | size :: sizes, pointer => finish sizes ((arena.start pointer + size) % arena.limit)

def Covers (block : Nat × Nat) (address : Nat) : Prop :=
  ∃ byte, block.1 ≤ byte ∧ byte < block.2 ∧ byte % arena.limit = address

variable {arena}

theorem start_le_limit {pointer : Nat} (below : pointer < arena.limit) :
    arena.start pointer ≤ arena.limit := by
  apply alignUp_le arena.positive arena.aligned
  split
  · exact arena.inside.le
  · exact below.le

theorem le_start {pointer : Nat} : pointer ≤ arena.start pointer := by
  unfold start
  split
  · omega
  · exact le_alignUp arena.positive pointer

theorem start_pos {pointer : Nat} : 0 < arena.start pointer := by
  unfold start
  split
  · exact arena.nonzero.trans_le (le_alignUp arena.positive _)
  · have climbed := le_alignUp arena.positive pointer
    omega

theorem covers_of_lt {block : Nat × Nat} {address : Nat} (lower : block.1 ≤ address)
    (upper : address < block.2) (small : address < arena.limit) : arena.Covers block address :=
  ⟨address, lower, upper, Nat.mod_eq_of_lt small⟩

theorem covers_of_climb {target : Nat} (aligned : arena.align ∣ target)
    (small : target < arena.limit) {sizes : List Nat} {pointer : Nat} (nonzero : 0 < pointer)
    (below : pointer ≤ target) :
    (∃ block ∈ arena.blocks sizes pointer, arena.Covers block target) ∨
      (0 < arena.finish sizes pointer ∧ arena.finish sizes pointer ≤ target) := by
  induction sizes generalizing pointer with
  | nil => exact Or.inr ⟨nonzero, below⟩
  | cons size sizes ih =>
      have start_eq : arena.start pointer = alignUp arena.align pointer := by
        rw [start, if_neg (by omega)]
      have startBelow : arena.start pointer ≤ target := by
        rw [start_eq]
        exact alignUp_le arena.positive aligned below
      by_cases covered : target < arena.start pointer + size
      · exact Or.inl ⟨_, List.mem_cons_self, covers_of_lt startBelow covered small⟩
      · have next : (arena.start pointer + size) % arena.limit = arena.start pointer + size :=
          Nat.mod_eq_of_lt (by omega)
        have climbed : pointer ≤ arena.start pointer := le_start
        rw [finish, blocks, next]
        have nonzero' : 0 < arena.start pointer + size := by omega
        rcases ih nonzero' (by omega) with ⟨block, member, covers⟩ | low
        · exact Or.inl ⟨block, List.mem_cons_of_mem _ member, covers⟩
        · exact Or.inr low

/-- A block that runs past the end of the space comes back over every aligned address below
the pointer the requests end with. -/
theorem covers_of_overrun {target : Nat} (aligned : arena.align ∣ target)
    (small : target < arena.limit) {sizes : List Nat} {pointer : Nat}
    (bounded : ∀ size ∈ sizes, size < arena.limit) (inSpace : pointer < arena.limit)
    (overrun : ∃ block ∈ arena.blocks sizes pointer, arena.limit < block.2)
    (above : target < arena.finish sizes pointer) :
    ∃ block ∈ arena.blocks sizes pointer, arena.Covers block target := by
  induction sizes generalizing pointer with
  | nil =>
      obtain ⟨block, member, _⟩ := overrun
      exact absurd member (by simp [blocks])
  | cons size sizes ih =>
      have fits := bounded size (by simp)
      have startInside := start_le_limit inSpace
      have space : 0 < arena.limit := by omega
      by_cases past : arena.limit < arena.start pointer + size
      · have next : (arena.start pointer + size) % arena.limit =
            arena.start pointer + size - arena.limit := by
          rw [Nat.mod_eq_sub_mod past.le, Nat.mod_eq_of_lt (by omega)]
        by_cases around : target < arena.start pointer + size - arena.limit
        · refine ⟨_, List.mem_cons_self, arena.limit + target, ?_, ?_, ?_⟩
          · change arena.start pointer ≤ arena.limit + target
            omega
          · change arena.limit + target < arena.start pointer + size
            omega
          · rw [Nat.add_mod_left, Nat.mod_eq_of_lt small]
        · rw [finish, next] at above
          have wrapped : 0 < arena.start pointer + size - arena.limit := by omega
          rcases covers_of_climb aligned small wrapped (by omega) with
            ⟨block, member, covers⟩ | ⟨_, low⟩
          · refine ⟨block, ?_, covers⟩
            rw [blocks, next]
            exact List.mem_cons_of_mem _ member
          · omega
      · obtain ⟨block, member, beyond⟩ := overrun
        rcases List.mem_cons.mp member with rfl | member
        · exact absurd beyond past
        · obtain ⟨found, foundMember, covers⟩ := ih
            (fun other belongs => bounded other (by simp [belongs]))
            (Nat.mod_lt _ space) ⟨block, member, beyond⟩ above
          exact ⟨found, List.mem_cons_of_mem _ foundMember, covers⟩

theorem blocks_within {sizes : List Nat} {pointer : Nat}
    (inLap : pointer = 0 ∨ alignUp arena.align arena.origin ≤ pointer)
    (within : ∀ block ∈ arena.blocks sizes pointer, block.2 ≤ arena.limit) :
    (∀ block ∈ arena.blocks sizes pointer, alignUp arena.align arena.origin ≤ block.1) ∧
      (arena.finish sizes pointer = 0 ∨
        alignUp arena.align arena.origin ≤ arena.finish sizes pointer) := by
  induction sizes generalizing pointer with
  | nil => exact ⟨by simp [blocks], inLap⟩
  | cons size sizes ih =>
      have low : alignUp arena.align arena.origin ≤ arena.start pointer := by
        rcases inLap with zero | lap
        · rw [start, if_pos zero]
        · exact lap.trans le_start
      have top : arena.start pointer + size ≤ arena.limit := within _ List.mem_cons_self
      have next : (arena.start pointer + size) % arena.limit = 0 ∨
          alignUp arena.align arena.origin ≤ (arena.start pointer + size) % arena.limit := by
        rcases Nat.lt_or_eq_of_le top with inside | reached
        · rw [Nat.mod_eq_of_lt inside]
          exact Or.inr (by omega)
        · rw [reached, Nat.mod_self]
          exact Or.inl rfl
      obtain ⟨starts, last⟩ := ih next fun block member =>
        within block (List.mem_cons_of_mem _ member)
      refine ⟨?_, last⟩
      intro block member
      rcases List.mem_cons.mp member with rfl | member
      · exact low
      · exact starts block member

theorem stop_le_finish {sizes : List Nat} {pointer : Nat}
    (below : ∀ block ∈ arena.blocks sizes pointer, block.2 < arena.limit) :
    pointer ≤ arena.finish sizes pointer ∧
      ∀ block ∈ arena.blocks sizes pointer, block.2 ≤ arena.finish sizes pointer := by
  induction sizes generalizing pointer with
  | nil => exact ⟨Nat.le_refl _, by simp [blocks]⟩
  | cons size sizes ih =>
      have inside : arena.start pointer + size < arena.limit := below _ List.mem_cons_self
      have climbed : pointer ≤ arena.start pointer := le_start
      obtain ⟨more, stops⟩ := ih fun block member => below block (List.mem_cons_of_mem _ member)
      rw [Nat.mod_eq_of_lt inside] at more stops
      rw [finish, blocks, Nat.mod_eq_of_lt inside]
      refine ⟨by omega, ?_⟩
      intro block member
      rcases List.mem_cons.mp member with rfl | member
      · exact more
      · exact stops block member

/-- A lap that ends exactly at the end of the space has covered all that was left of it. -/
theorem covers_of_reset {target : Nat} (aligned : arena.align ∣ target)
    (small : target < arena.limit) {sizes : List Nat} {pointer : Nat}
    (within : ∀ block ∈ arena.blocks sizes pointer, block.2 ≤ arena.limit)
    (reset : ∃ block ∈ arena.blocks sizes pointer, block.2 = arena.limit)
    (above : arena.start pointer ≤ target) :
    ∃ block ∈ arena.blocks sizes pointer, arena.Covers block target := by
  induction sizes generalizing pointer with
  | nil =>
      obtain ⟨block, member, _⟩ := reset
      exact absurd member (by simp [blocks])
  | cons size sizes ih =>
      have top : arena.start pointer + size ≤ arena.limit := within _ List.mem_cons_self
      by_cases here : target < arena.start pointer + size
      · exact ⟨_, List.mem_cons_self, covers_of_lt above here small⟩
      · have inside : arena.start pointer + size < arena.limit := by omega
        have next := Nat.mod_eq_of_lt inside
        obtain ⟨block, member, last⟩ := reset
        rcases List.mem_cons.mp member with rfl | member
        · change arena.start pointer + size = arena.limit at last
          omega
        · have positive : 0 < arena.start pointer := start_pos
          have nextStart : arena.start (arena.start pointer + size) ≤ target := by
            rw [start, if_neg (by omega)]
            exact alignUp_le arena.positive aligned (by omega)
          obtain ⟨found, foundMember, covers⟩ := ih
            (fun other belongs => within other (List.mem_cons_of_mem _ belongs))
            ⟨block, member, last⟩ (by rw [next]; exact nextStart)
          exact ⟨found, List.mem_cons_of_mem _ foundMember, covers⟩

end Arena

end BumpAllocator
