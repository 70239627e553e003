import FosV2.BootLoader
import FosV2.MemoryCopy

/-!
`memmove` of `lib/string.c`. It copies from the back where the destination begins inside the
source, and from the front otherwise.
-/

namespace FosV2

/-- `while (n-- > 0) *--d = *--s;` -/
def copyBackward : Nat → Word → Word → Memory → Memory
  | 0, _, _, mem => mem
  | n + 1, s, d, mem => copyBackward n (s - 1) (d - 1) (Function.update mem (d - 1) (mem (s - 1)))

/-- `while (n-- > 0) *d++ = *s++;` -/
def copyForward : Nat → Word → Word → Memory → Memory
  | 0, _, _, mem => mem
  | n + 1, s, d, mem => copyForward n (s + 1) (d + 1) (Function.update mem d (mem s))

def memmove (dst src n : Word) (mem : Memory) : Word × Memory :=
  if src < dst ∧ dst < src + n then (dst, copyBackward n.toNat (src + n) (dst + n) mem)
  else (dst, copyForward n.toNat src dst mem)

section Copies

variable {n : Nat} {s d : Word} {mem : Memory}

theorem copyForward_eq : copyForward n s d mem =
    MemoryCopy.copy (fun k => d + BitVec.ofNat 32 k) (fun k => s + BitVec.ofNat 32 k) n mem := by
  induction n generalizing s d mem with
  | zero => rfl
  | succ n ih =>
      have later : ∀ (a : Word) k, a + 1 + BitVec.ofNat 32 k = a + BitVec.ofNat 32 (k + 1) := by
        intro a k
        rw [BitVec.add_assoc, Nat.add_comm k, BitVec.ofNat_add]
        rfl
      have first : ∀ a : Word, a + BitVec.ofNat 32 0 = a := BitVec.add_zero
      rw [copyForward, ih, MemoryCopy.copy_succ]
      simp only [later, first]

theorem copyBackward_eq :
    copyBackward n (s + BitVec.ofNat 32 n) (d + BitVec.ofNat 32 n) mem =
      MemoryCopy.copy (fun k => d + BitVec.ofNat 32 (n - (k + 1)))
        (fun k => s + BitVec.ofNat 32 (n - (k + 1))) n mem := by
  induction n generalizing mem with
  | zero => rfl
  | succ n ih =>
      have previous : ∀ a : Word, a + BitVec.ofNat 32 (n + 1) - 1 = a + BitVec.ofNat 32 n := by
        intro a
        rw [BitVec.ofNat_add, ← BitVec.add_assoc]
        exact BitVec.add_sub_cancel _ _
      have later : ∀ k, n + 1 - (k + 1 + 1) = n - (k + 1) := fun k => Nat.add_sub_add_right n 1 _
      rw [copyBackward, previous, previous, ih, MemoryCopy.copy_succ]
      simp only [later, Nat.zero_add, Nat.add_sub_cancel]

end Copies

structure Moved (dst src : Word) (n : Nat) (mem mem' : Memory) : Prop where
  copied : ∀ k < n, mem' (dst + BitVec.ofNat 32 k) = mem (src + BitVec.ofNat 32 k)
  outside : ∀ a : Word, a.toNat < dst.toNat ∨ dst.toNat + n ≤ a.toNat → mem' a = mem a

section Ranges

variable {dst src : Word} {n : Nat} {mem : Memory}

theorem address_toNat {a : Word} {k : Nat} (inside : a.toNat + k < 2 ^ 32) :
    (a + BitVec.ofNat 32 k).toNat = a.toNat + k := by
  rw [BitVec.toNat_add, BitVec.toNat_ofNat]
  omega

/-- Copying in an order in which no byte is written before it is read. -/
theorem moved_of_order {order : Nat → Nat} (inside : ∀ k < n, order k < n)
    (onto : ∀ k < n, ∃ j < n, order j = k) (injective : ∀ k < n, ∀ j < n, order k = order j → k = j)
    (srcFits : src.toNat + n ≤ 2 ^ 32) (dstFits : dst.toNat + n ≤ 2 ^ 32)
    (unread : ∀ k < n, ∀ j < k, src.toNat + order k ≠ dst.toNat + order j) :
    Moved dst src n mem (MemoryCopy.copy (fun k => dst + BitVec.ofNat 32 (order k))
      (fun k => src + BitVec.ofNat 32 (order k)) n mem) := by
  have source : ∀ k < n, (src + BitVec.ofNat 32 (order k)).toNat = src.toNat + order k := by
    intro k below
    have := inside k below
    exact address_toNat (by omega)
  have target : ∀ k < n, (dst + BitVec.ofNat 32 (order k)).toNat = dst.toNat + order k := by
    intro k below
    have := inside k below
    exact address_toNat (by omega)
  constructor
  · intro k below
    obtain ⟨j, turn, rfl⟩ := onto k below
    refine MemoryCopy.copy_dst ?_ ?_ turn
    · intro i first j second same
      have places := congrArg BitVec.toNat same
      rw [target i first, target j second] at places
      exact injective i first j second (by omega)
    · intro i first j earlier same
      have places := congrArg BitVec.toNat same
      rw [source i first, target j (by omega)] at places
      exact unread i first j earlier places
  · intro a away
    refine MemoryCopy.copy_of_ne fun k below same => ?_
    have place := congrArg BitVec.toNat same
    have := inside k below
    rw [target k below] at place
    omega

/-- However the two ranges overlap, `memmove` moves the bytes and writes nothing else. -/
theorem memmove_moved (dst src n : Word) (mem : Memory) (srcFits : src.toNat + n.toNat ≤ 2 ^ 32)
    (dstFits : dst.toNat + n.toNat ≤ 2 ^ 32) :
    (memmove dst src n mem).1 = dst ∧ Moved dst src n.toNat mem (memmove dst src n mem).2 := by
  rw [memmove]
  by_cases inside : src < dst ∧ dst < src + n
  · have before : src.toNat < dst.toNat := inside.1
    have length : BitVec.ofNat 32 n.toNat = n := BitVec.ofNat_toNat 32 n
    have copied := @copyBackward_eq n.toNat src dst mem
    rw [length] at copied
    rw [if_pos inside]
    refine ⟨rfl, ?_⟩
    dsimp only
    rw [copied]
    refine moved_of_order ?_ ?_ ?_ srcFits dstFits ?_
    · intro k below
      omega
    · intro k below
      exact ⟨n.toNat - (k + 1), by omega, by omega⟩
    · intro k first j second same
      omega
    · intro k below j earlier
      omega
  · have apart : dst.toNat ≤ src.toNat ∨ src.toNat + n.toNat ≤ dst.toNat := by
      by_contra overlap
      refine inside ⟨?_, ?_⟩
      · rw [BitVec.lt_def]
        omega
      · rw [BitVec.lt_def, BitVec.toNat_add, Nat.mod_eq_of_lt (by omega)]
        omega
    rw [if_neg inside]
    refine ⟨rfl, ?_⟩
    dsimp only
    rw [copyForward_eq]
    refine moved_of_order (fun k below => below) (fun k below => ⟨k, below, rfl⟩)
      (fun k _ j _ same => same) srcFits dstFits ?_
    intro k below j earlier
    omega

end Ranges

theorem memmove_moved_overlapping : (memmove 0x1001 0x1000 3 (stringMemory 0x1000
      ("abcd".toList.map char))).1 = 0x1001 ∧
    Moved 0x1001 0x1000 3 (stringMemory 0x1000 ("abcd".toList.map char))
      (memmove 0x1001 0x1000 3 (stringMemory 0x1000 ("abcd".toList.map char))).2 :=
  memmove_moved 0x1001 0x1000 3 (stringMemory 0x1000 ("abcd".toList.map char)) (by decide)
    (by decide)

end FosV2
