import Mathlib.Data.List.Basic
import Mathlib.Data.Nat.ModEq
import Mathlib.Logic.Function.Basic

/-!
A queue in `capacity` cells with a read index and a write index that wrap. Equal indices
mean that nothing is waiting, so the queue is kept only while one cell stays unused.
-/

structure RingBuffer (α : Type) where
  buf : Nat → α
  rpos : Nat
  wpos : Nat

namespace RingBuffer

variable {α : Type} {capacity count i : Nat}

def next (capacity i : Nat) : Nat :=
  if i + 1 = capacity then 0 else i + 1

theorem next_eq_mod (inside : i < capacity) : next capacity i = (i + 1) % capacity := by
  rw [next]
  split
  · rename_i last
    rw [last, Nat.mod_self]
  · exact (Nat.mod_eq_of_lt (by omega)).symm

theorem next_lt (inside : i < capacity) : next capacity i < capacity := by
  rw [next_eq_mod inside]
  exact Nat.mod_lt _ (by omega)

theorem next_add_mod (inside : i < capacity) (offset : Nat) :
    (next capacity i + offset) % capacity = (i + (offset + 1)) % capacity := by
  rw [next_eq_mod inside, Nat.mod_add_mod]
  congr 1
  omega

theorem add_mod_ne (start : Nat) {j : Nat} (before : i < j) (near : j < i + capacity) :
    (start + i) % capacity ≠ (start + j) % capacity := by
  intro same
  have divides : capacity ∣ (start + j) - (start + i) :=
    (Nat.modEq_iff_dvd' (by omega)).mp same
  have distance := Nat.le_of_dvd (by omega) divides
  omega

def put (capacity : Nat) (ring : RingBuffer α) (a : α) : RingBuffer α :=
  { ring with
    buf := Function.update ring.buf ring.wpos a
    wpos := next capacity ring.wpos }

def get (capacity : Nat) (ring : RingBuffer α) : Option (α × RingBuffer α) :=
  if ring.rpos ≠ ring.wpos then
    some (ring.buf ring.rpos, { ring with rpos := next capacity ring.rpos })
  else none

/-- `count` elements were put that were not got back. The indices know this number only up
to the capacity. -/
structure Counts (capacity : Nat) (ring : RingBuffer α) (count : Nat) : Prop where
  rposBound : ring.rpos < capacity
  wposBound : ring.wpos < capacity
  distance : ring.wpos = (ring.rpos + count) % capacity

def Filled (capacity : Nat) (p : α → Prop) (ring : RingBuffer α) (count : Nat) : Prop :=
  ∀ i < count, p (ring.buf ((ring.rpos + i) % capacity))

structure Holds (capacity : Nat) (ring : RingBuffer α) (queue : List α) : Prop where
  counts : Counts capacity ring queue.length
  fits : queue.length < capacity
  cells : ∀ i < queue.length, queue[i]? = some (ring.buf ((ring.rpos + i) % capacity))

variable {ring ring' : RingBuffer α} {a : α} {queue : List α} {p : α → Prop}

theorem Counts.put (counts : Counts capacity ring count) (a : α) :
    Counts capacity (ring.put capacity a) (count + 1) := by
  refine ⟨counts.rposBound, next_lt counts.wposBound, ?_⟩
  change next capacity ring.wpos = (ring.rpos + (count + 1)) % capacity
  rw [next_eq_mod counts.wposBound, counts.distance, Nat.mod_add_mod, Nat.add_assoc]

theorem Counts.get_eq_none_iff (counts : Counts capacity ring count) :
    ring.get capacity = none ↔ count % capacity = 0 := by
  have bound := counts.rposBound
  have self : ring.rpos % capacity = ring.rpos := Nat.mod_eq_of_lt bound
  have met : ring.rpos = ring.wpos ↔ count % capacity = 0 := by
    rw [counts.distance]
    constructor
    · intro same
      have congruent : Nat.ModEq capacity (ring.rpos + 0) (ring.rpos + count) := by
        rw [Nat.ModEq, Nat.add_zero, self]
        exact same
      exact (Nat.ModEq.add_left_cancel' ring.rpos congruent).symm
    · intro whole
      rw [Nat.add_mod, whole, Nat.add_zero, Nat.mod_mod, self]
  rw [← met, RingBuffer.get]
  split
  · rename_i apart
    exact iff_of_false (by simp) apart
  · rename_i same
    exact iff_of_true rfl (not_not.mp same)

theorem Counts.get (counts : Counts capacity ring (count + 1))
    (got : ring.get capacity = some (a, ring')) :
    a = ring.buf ring.rpos ∧ ring'.buf = ring.buf ∧ ring'.rpos = next capacity ring.rpos ∧
      Counts capacity ring' count := by
  rw [RingBuffer.get] at got
  split at got
  · cases got
    refine ⟨rfl, rfl, rfl, next_lt counts.rposBound, counts.wposBound, ?_⟩
    change ring.wpos = (next capacity ring.rpos + count) % capacity
    rw [next_add_mod counts.rposBound]
    exact counts.distance
  · exact nomatch got

/-- A full ring is written over by elements that satisfy the predicate as well. -/
theorem Filled.put (filled : Filled capacity p ring count)
    (counts : Counts capacity ring count) (holds : p a) :
    Filled capacity p (ring.put capacity a) (count + 1) := by
  intro i below
  change p (Function.update ring.buf ring.wpos a ((ring.rpos + i) % capacity))
  by_cases written : (ring.rpos + i) % capacity = ring.wpos
  · rw [written, Function.update_self]
    exact holds
  · rw [Function.update_of_ne written]
    apply filled
    rcases Nat.lt_succ_iff_lt_or_eq.mp below with earlier | last
    · exact earlier
    · exact absurd counts.distance.symm (last ▸ written)

theorem Filled.get (filled : Filled capacity p ring (count + 1))
    (counts : Counts capacity ring (count + 1)) (got : ring.get capacity = some (a, ring')) :
    p a ∧ Filled capacity p ring' count := by
  obtain ⟨value, sameBuf, sameRpos, _⟩ := counts.get got
  constructor
  · have first := filled 0 (by omega)
    rwa [Nat.add_zero, Nat.mod_eq_of_lt counts.rposBound, ← value] at first
  · intro i below
    rw [sameBuf, sameRpos, next_add_mod counts.rposBound]
    exact filled (i + 1) (by omega)

theorem holds_nil (inside : ring.wpos < capacity) (empty : ring.rpos = ring.wpos) :
    Holds capacity ring [] := by
  refine ⟨⟨empty ▸ inside, inside, ?_⟩, by simp; omega, fun i below => nomatch below⟩
  rw [List.length_nil, Nat.add_zero, empty, Nat.mod_eq_of_lt inside]

theorem Holds.put (holds : Holds capacity ring queue) (a : α)
    (room : queue.length + 1 < capacity) : Holds capacity (ring.put capacity a) (queue ++ [a]) := by
  have length : (queue ++ [a]).length = queue.length + 1 := by simp
  refine ⟨length ▸ holds.counts.put a, by omega, fun i below => ?_⟩
  change _ = some (Function.update ring.buf ring.wpos a ((ring.rpos + i) % capacity))
  rcases Nat.lt_succ_iff_lt_or_eq.mp (length ▸ below) with earlier | last
  · have elsewhere : (ring.rpos + i) % capacity ≠ ring.wpos := by
      rw [holds.counts.distance]
      exact add_mod_ne _ earlier (by omega)
    rw [Function.update_of_ne elsewhere, List.getElem?_append_left earlier]
    exact holds.cells i earlier
  · rw [last, ← holds.counts.distance, Function.update_self, List.getElem?_concat_length]

theorem Holds.get_nil (holds : Holds capacity ring []) : ring.get capacity = none :=
  holds.counts.get_eq_none_iff.mpr (Nat.zero_mod _)

theorem Holds.get_cons (holds : Holds capacity ring (a :: queue)) :
    ∃ ring', ring.get capacity = some (a, ring') ∧ Holds capacity ring' queue := by
  have fits : queue.length + 1 < capacity := holds.fits
  cases got : ring.get capacity with
  | none =>
      have whole : (queue.length + 1) % capacity = 0 :=
        holds.counts.get_eq_none_iff.mp got
      rw [Nat.mod_eq_of_lt fits] at whole
      omega
  | some pair =>
      obtain ⟨value, ring'⟩ := pair
      obtain ⟨read, sameBuf, sameRpos, counts⟩ := holds.counts.get got
      have first := holds.cells 0 (by simp)
      rw [Nat.add_zero, Nat.mod_eq_of_lt holds.counts.rposBound, ← read] at first
      cases first
      refine ⟨ring', rfl, counts, by omega, fun i below => ?_⟩
      rw [sameBuf, sameRpos, next_add_mod holds.counts.rposBound]
      exact holds.cells (i + 1) (by simpa using below)

end RingBuffer
