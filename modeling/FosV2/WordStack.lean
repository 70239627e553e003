import Mathlib.Data.Nat.Bitwise

/-!
Little-endian words in a memory of bytes, and stacks of such words: the memory holds a list
of words from the stack pointer upwards, the top of the stack first.
-/

namespace WordStack

variable {w : Nat}

def half (mem : BitVec w → BitVec 8) (a : BitVec w) : BitVec 16 := mem (a + 1) ++ mem a

def word (mem : BitVec w → BitVec 8) (a : BitVec w) : BitVec 32 :=
  half mem (a + 2) ++ half mem a

def setWord (mem : BitVec w → BitVec 8) (a : BitVec w) (v : BitVec 32) : BitVec w → BitVec 8 :=
  fun b => if (b - a).toNat < 4 then v.extractLsb' (8 * (b - a).toNat) 8 else mem b

/-- `n` bytes at once, as the assignment of a struct does it. -/
def copy (mem : BitVec w → BitVec 8) (dst src : BitVec w) (n : Nat) : BitVec w → BitVec 8 :=
  fun b => if (b - dst).toNat < n then mem (src + (b - dst)) else mem b

def setHalf (mem : BitVec w → BitVec 8) (a : BitVec w) (v : BitVec 16) : BitVec w → BitVec 8 :=
  fun b => if (b - a).toNat < 2 then v.extractLsb' (8 * (b - a).toNat) 8 else mem b

def fill (mem : BitVec w → BitVec 8) (a : BitVec w) (n : Nat) (v : BitVec 8) : BitVec w → BitVec 8 :=
  fun b => if (b - a).toNat < n then v else mem b

structure Stack (w : Nat) where
  mem : BitVec w → BitVec 8
  sp : BitVec w

def Stack.push (s : Stack w) (v : BitVec 32) : Stack w := ⟨setWord s.mem (s.sp - 4) v, s.sp - 4⟩

/-- The first word of the list is pushed first. -/
def Stack.pushAll (s : Stack w) (vs : List (BitVec 32)) : Stack w := vs.foldl Stack.push s

def Stack.pop (s : Stack w) : BitVec 32 × Stack w := (word s.mem s.sp, ⟨s.mem, s.sp + 4⟩)

def Holds (mem : BitVec w → BitVec 8) (a : BitVec w) (vs : List (BitVec 32)) : Prop :=
  ∀ (i : Nat) (v : BitVec 32), vs[i]? = some v → ∀ j < 4,
    mem (a + BitVec.ofNat w (4 * i + j)) = v.extractLsb' (8 * j) 8

section Addresses

variable {mem : BitVec w → BitVec 8} {a dst src : BitVec w} {n : Nat}

theorem distance (a : BitVec w) {k : Nat} (inside : k < 2 ^ w) :
    (a + BitVec.ofNat w k - a).toNat = k := by
  rw [BitVec.add_comm, BitVec.add_sub_cancel, BitVec.toNat_ofNat, Nat.mod_eq_of_lt inside]

theorem setWord_inside {v : BitVec 32} {j : Nat} (wide : 4 ≤ 2 ^ w) (inside : j < 4) :
    setWord mem a v (a + BitVec.ofNat w j) = v.extractLsb' (8 * j) 8 := by
  have far : (a + BitVec.ofNat w j - a).toNat = j := distance a (by omega)
  simp only [setWord, far, inside, if_true]

theorem setWord_outside {v : BitVec 32} {b : BitVec w} (outside : 4 ≤ (b - a).toNat) :
    setWord mem a v b = mem b := by
  simp only [setWord, Nat.not_lt.mpr outside, if_false]

theorem copy_inside {k : Nat} (fits : n ≤ 2 ^ w) (inside : k < n) :
    copy mem dst src n (dst + BitVec.ofNat w k) = mem (src + BitVec.ofNat w k) := by
  have back : dst + BitVec.ofNat w k - dst = BitVec.ofNat w k := by
    rw [BitVec.add_comm, BitVec.add_sub_cancel]
  have far : (BitVec.ofNat w k).toNat = k := by
    rw [BitVec.toNat_ofNat, Nat.mod_eq_of_lt (by omega)]
  simp only [copy, back, far, inside, if_true]

theorem copy_outside {b : BitVec w} (outside : n ≤ (b - dst).toNat) :
    copy mem dst src n b = mem b := by
  simp only [copy, Nat.not_lt.mpr outside, if_false]

end Addresses

section Held

variable {mem mem' : BitVec w → BitVec 8} {a dst : BitVec w} {v : BitVec 32}
  {vs : List (BitVec 32)}

theorem index_lt {i : Nat} (found : vs[i]? = some v) : i < vs.length :=
  (List.getElem?_eq_some_iff.mp found).1

theorem holds_nil (mem : BitVec w → BitVec 8) (a : BitVec w) : Holds mem a [] := by
  intro i v found
  simp at found

theorem Holds.congr (holds : Holds mem a vs)
    (same : ∀ k < 4 * vs.length, mem' (a + BitVec.ofNat w k) = mem (a + BitVec.ofNat w k)) :
    Holds mem' a vs := by
  intro i v found j small
  have inside := index_lt found
  rw [same _ (by omega)]
  exact holds i v found j small

theorem add_ofNat (a : BitVec w) (m n : Nat) :
    a + BitVec.ofNat w m + BitVec.ofNat w n = a + BitVec.ofNat w (m + n) := by
  rw [BitVec.add_assoc, ← BitVec.ofNat_add]

theorem add_four (a : BitVec w) (i j : Nat) :
    a + 4 + BitVec.ofNat w (4 * i + j) = a + BitVec.ofNat w (4 * (i + 1) + j) := by
  have sum : 4 * (i + 1) + j = 4 + (4 * i + j) := by omega
  have four : a + 4 = a + BitVec.ofNat w 4 := rfl
  rw [sum, four, add_ofNat]

theorem Holds.half (holds : Holds mem a vs) {i : Nat} (found : vs[i]? = some v) :
    half mem (a + BitVec.ofNat w (4 * i)) = v.setWidth 16 := by
  have first := holds i v found 0 (by omega)
  have second := holds i v found 1 (by omega)
  have next : a + BitVec.ofNat w (4 * i) + 1 = a + BitVec.ofNat w (4 * i + 1) :=
    add_ofNat a (4 * i) 1
  rw [WordStack.half, next, second]
  simp only [Nat.add_zero] at first
  rw [first, BitVec.extractLsb'_append_extractLsb'_eq_extractLsb' (by rfl)]
  exact (BitVec.setWidth_eq_extractLsb' (by omega)).symm

theorem word_of_bytes (bytes : ∀ j < 4, mem (a + BitVec.ofNat w j) = v.extractLsb' (8 * j) 8) :
    word mem a = v := by
  have zero : mem a = v.extractLsb' 0 8 := by
    simpa using bytes 0 (by omega)
  have one : mem (a + 1) = v.extractLsb' 8 8 := bytes 1 (by omega)
  have two : mem (a + 2) = v.extractLsb' 16 8 := bytes 2 (by omega)
  have three : mem (a + 2 + 1) = v.extractLsb' 24 8 := by
    have next : a + 2 + 1 = a + BitVec.ofNat w 3 := add_ofNat a 2 1
    rw [next]
    exact bytes 3 (by omega)
  rw [word, WordStack.half, WordStack.half, zero, one, two, three,
    BitVec.extractLsb'_append_extractLsb'_eq_extractLsb' (by rfl),
    BitVec.extractLsb'_append_extractLsb'_eq_extractLsb' (by rfl),
    BitVec.extractLsb'_append_extractLsb'_eq_extractLsb' (by rfl)]
  exact BitVec.extractLsb'_eq_self

theorem Holds.word (holds : Holds mem a vs) {i : Nat} (found : vs[i]? = some v) :
    word mem (a + BitVec.ofNat w (4 * i)) = v := by
  refine word_of_bytes fun j small => ?_
  rw [add_ofNat]
  exact holds i v found j small

theorem Holds.tail (holds : Holds mem a (v :: vs)) : Holds mem (a + 4) vs := by
  intro i u found j small
  have there := holds (i + 1) u found j small
  rw [add_four]
  exact there

theorem Holds.head (holds : Holds mem a (v :: vs)) : WordStack.word mem a = v := by
  have first : WordStack.word mem (a + BitVec.ofNat w (4 * 0)) = v := holds.word (i := 0) rfl
  simpa using first

theorem Holds.pop {s : Stack w} (holds : Holds s.mem s.sp (v :: vs)) :
    s.pop.1 = v ∧ Holds s.pop.2.mem s.pop.2.sp vs := ⟨holds.head, holds.tail⟩

theorem holds_cons {b : BitVec w} (room : 4 * (vs.length + 1) ≤ 2 ^ w)
    (holds : Holds mem (b + 4) vs) : Holds (setWord mem b v) b (v :: vs) := by
  intro i u found j small
  cases i with
  | zero =>
      have same : v = u := by simpa using found
      rw [← same, Nat.mul_zero, Nat.zero_add]
      exact setWord_inside (by omega) small
  | succ i =>
      have behind : vs[i]? = some u := found
      have inside := index_lt behind
      have far : (b + BitVec.ofNat w (4 * (i + 1) + j) - b).toNat = 4 * (i + 1) + j :=
        distance b (by omega)
      rw [setWord_outside (by omega), ← add_four]
      exact holds i u behind j small

theorem word_setWord (wide : 4 ≤ 2 ^ w) (mem : BitVec w → BitVec 8) (b : BitVec w)
    (v : BitVec 32) : WordStack.word (setWord mem b v) b = v :=
  Holds.head (holds_cons (by simpa using wide) (holds_nil _ _))

theorem half_setHalf (wide : 2 ≤ 2 ^ w) (mem : BitVec w → BitVec 8) (b : BitVec w)
    (v : BitVec 16) : WordStack.half (setHalf mem b v) b = v := by
  have one : (b + 1 - b).toNat = 1 := distance b (by omega : 1 < 2 ^ w)
  have low : setHalf mem b v b = v.extractLsb' 0 8 := by
    simp [setHalf]
  have high : setHalf mem b v (b + 1) = v.extractLsb' 8 8 := by
    simp only [setHalf, one]
    rfl
  rw [WordStack.half, low, high]
  exact BitVec.extractLsb'_append_extractLsb'

theorem Holds.push {s : Stack w} (room : 4 * (vs.length + 1) ≤ 2 ^ w)
    (holds : Holds s.mem s.sp vs) : Holds (s.push v).mem (s.push v).sp (v :: vs) := by
  have top : s.sp - 4 + 4 = s.sp := BitVec.sub_add_cancel _ _
  refine holds_cons room ?_
  rw [top]
  exact holds

/-- Pushing keeps what was on the stack below the new words. -/
theorem Holds.pushAll {s : Stack w} {us : List (BitVec 32)}
    (room : 4 * (us.length + vs.length) ≤ 2 ^ w) (holds : Holds s.mem s.sp vs) :
    Holds (s.pushAll us).mem (s.pushAll us).sp (us.reverse ++ vs) := by
  induction us generalizing s vs with
  | nil => exact holds
  | cons u us ih =>
      simp only [List.length_cons] at room
      have more : Holds (s.push u).mem (s.push u).sp (u :: vs) := holds.push (by omega)
      have rest := ih (by simp only [List.length_cons]; omega) more
      simpa [Stack.pushAll] using rest

theorem pushAll_append (s : Stack w) (us vs : List (BitVec 32)) :
    s.pushAll (us ++ vs) = (s.pushAll us).pushAll vs := List.foldl_append

theorem sp_pushAll (s : Stack w) (us : List (BitVec 32)) :
    (s.pushAll us).sp = s.sp - BitVec.ofNat w (4 * us.length) := by
  induction us generalizing s with
  | nil => simp [Stack.pushAll]
  | cons u us ih =>
      have rest := ih (s.push u)
      have sum : 4 * (us.length + 1) = 4 + 4 * us.length := by omega
      rw [List.length_cons, sum, BitVec.ofNat_add, ← BitVec.sub_sub]
      exact rest

theorem mem_pushAll_outside {s : Stack w} {us : List (BitVec 32)} {b : BitVec w}
    (fits : 4 * us.length ≤ 2 ^ w)
    (outside : 4 * us.length ≤ (b - (s.sp - BitVec.ofNat w (4 * us.length))).toNat) :
    (s.pushAll us).mem b = s.mem b := by
  induction us generalizing s with
  | nil => rfl
  | cons u us ih =>
      simp only [List.length_cons] at fits outside
      have sum : 4 * (us.length + 1) = 4 + 4 * us.length := by omega
      have base : s.sp - BitVec.ofNat w (4 * (us.length + 1)) =
          (s.push u).sp - BitVec.ofNat w (4 * us.length) := by
        rw [sum, BitVec.ofNat_add, ← BitVec.sub_sub]
        rfl
      rw [base] at outside
      have later : (Stack.pushAll (s.push u) us).mem b = (s.push u).mem b :=
        ih (by omega) (by omega)
      refine later.trans (setWord_outside ?_)
      have split : b - (s.sp - 4) = b - ((s.push u).sp - BitVec.ofNat w (4 * us.length)) -
          BitVec.ofNat w (4 * us.length) := by
        change b - (s.sp - 4) = b - (s.sp - 4 - BitVec.ofNat w (4 * us.length)) - _
        rw [BitVec.sub_sub, BitVec.sub_add_cancel]
      have small : (BitVec.ofNat w (4 * us.length)).toNat = 4 * us.length := by
        rw [BitVec.toNat_ofNat, Nat.mod_eq_of_lt (by omega)]
      rw [split, BitVec.toNat_sub_of_le (by rw [BitVec.le_def, small]; omega), small]
      omega

theorem Holds.copy {src : BitVec w} {n : Nat} (holds : Holds mem src vs)
    (covered : 4 * vs.length ≤ n) (fits : n ≤ 2 ^ w) :
    Holds (copy mem dst src n) dst vs := by
  intro i v found j small
  have inside := index_lt found
  rw [copy_inside fits (by omega)]
  exact holds i v found j small

theorem Holds.set (holds : Holds mem a vs) (fits : 4 * vs.length ≤ 2 ^ w) {i : Nat}
    (inside : i < vs.length) (v : BitVec 32) :
    Holds (setWord mem (a + BitVec.ofNat w (4 * i)) v) a (vs.set i v) := by
  intro k u found j small
  have bound : k < vs.length := by simpa using index_lt found
  by_cases here : k = i
  · subst here
    have same : v = u := by simpa [bound] using found
    rw [← same, BitVec.ofNat_add, ← BitVec.add_assoc]
    exact setWord_inside (by omega) small
  · rw [List.getElem?_set_ne fun same => here same.symm] at found
    have value := holds k u found j small
    refine (setWord_outside ?_).trans value
    have address : a + BitVec.ofNat w (4 * k + j) - (a + BitVec.ofNat w (4 * i)) =
        BitVec.ofNat w (4 * k + j) - BitVec.ofNat w (4 * i) := by
      rw [← BitVec.sub_sub, BitVec.add_comm a, BitVec.add_sub_cancel]
    have wide : (BitVec.ofNat w (4 * k + j)).toNat = 4 * k + j := by
      rw [BitVec.toNat_ofNat, Nat.mod_eq_of_lt (by omega)]
    have narrow : (BitVec.ofNat w (4 * i)).toNat = 4 * i := by
      rw [BitVec.toNat_ofNat, Nat.mod_eq_of_lt (by omega)]
    rw [address, BitVec.toNat_sub, wide, narrow]
    rcases Nat.lt_or_ge k i with below | above
    · rw [Nat.mod_eq_of_lt (by omega)]
      omega
    · have split : 2 ^ w - 4 * i + (4 * k + j) = 2 ^ w + (4 * (k - i) + j) := by omega
      rw [split, Nat.add_mod_left, Nat.mod_eq_of_lt (by omega)]
      omega

theorem Holds.setHalf (holds : Holds mem a vs) (fits : 4 * vs.length ≤ 2 ^ w) {i : Nat}
    (found : vs[i]? = some v) (h : BitVec 16) :
    Holds (setHalf mem (a + BitVec.ofNat w (4 * i)) h) a
      (vs.set i (v.extractLsb' 16 16 ++ h)) := by
  intro k u read j small
  have inside := index_lt found
  have bound : k < vs.length := by simpa using index_lt read
  have address : a + BitVec.ofNat w (4 * k + j) - (a + BitVec.ofNat w (4 * i)) =
      BitVec.ofNat w (4 * k + j) - BitVec.ofNat w (4 * i) := by
    rw [← BitVec.sub_sub, BitVec.add_comm a, BitVec.add_sub_cancel]
  have wide : (BitVec.ofNat w (4 * k + j)).toNat = 4 * k + j := by
    rw [BitVec.toNat_ofNat, Nat.mod_eq_of_lt (by omega)]
  have narrow : (BitVec.ofNat w (4 * i)).toNat = 4 * i := by
    rw [BitVec.toNat_ofNat, Nat.mod_eq_of_lt (by omega)]
  by_cases here : k = i
  · subst here
    have same : v.extractLsb' 16 16 ++ h = u := by simpa [bound] using read
    have off : (a + BitVec.ofNat w (4 * k + j) - (a + BitVec.ofNat w (4 * k))).toNat = j := by
      rw [address, BitVec.toNat_sub_of_le (by rw [BitVec.le_def, wide, narrow]; omega), wide,
        narrow]
      omega
    have value := holds k v found j small
    rw [← same, WordStack.setHalf, off]
    by_cases low : j < 2
    · rw [if_pos low, BitVec.extractLsb'_append_eq_of_add_le (by omega)]
    · rw [if_neg low, value, BitVec.extractLsb'_append_eq_of_le (by omega)]
      apply BitVec.eq_of_getLsbD_eq
      intro b less
      simp only [BitVec.getLsbD_extractLsb', less, decide_true, Bool.true_and]
      have same : 16 + (8 * j - 16 + b) = 8 * j + b := by omega
      have inner : 8 * j - 16 + b < 16 := by omega
      rw [same, decide_eq_true inner, Bool.true_and]
  · rw [List.getElem?_set_ne fun same => here same.symm] at read
    have value := holds k u read j small
    have off : 2 ≤ (a + BitVec.ofNat w (4 * k + j) - (a + BitVec.ofNat w (4 * i))).toNat := by
      rw [address, BitVec.toNat_sub, wide, narrow]
      rcases Nat.lt_or_ge k i with below | above
      · rw [Nat.mod_eq_of_lt (by omega)]
        omega
      · have split : 2 ^ w - 4 * i + (4 * k + j) = 2 ^ w + (4 * (k - i) + j) := by omega
        rw [split, Nat.add_mod_left, Nat.mod_eq_of_lt (by omega)]
        omega
    simp only [WordStack.setHalf, Nat.not_lt.mpr off, if_false]
    exact value

theorem holds_fill (mem : BitVec w → BitVec 8) (a : BitVec w) {n : Nat} (fits : 4 * n ≤ 2 ^ w) :
    Holds (fill mem a (4 * n) 0) a (List.replicate n 0) := by
  intro i u found j small
  obtain ⟨inside, same⟩ := List.getElem?_eq_some_iff.mp found
  rw [List.length_replicate] at inside
  rw [List.getElem_replicate] at same
  have far : (a + BitVec.ofNat w (4 * i + j) - a).toNat = 4 * i + j := distance a (by omega)
  have less : 4 * i + j < 4 * n := by omega
  simp only [fill, far, less, if_true, ← same]
  exact BitVec.extractLsb'_zero.symm

end Held

section Apart

variable {mem mem' mem'' : BitVec w → BitVec 8} {a b : BitVec w} {m n : Nat}

structure RangesApart (a : BitVec w) (m : Nat) (b : BitVec w) (n : Nat) : Prop where
  first : a.toNat + m ≤ 2 ^ w
  second : b.toNat + n ≤ 2 ^ w
  disjoint : a.toNat + m ≤ b.toNat ∨ b.toNat + n ≤ a.toNat

theorem RangesApart.symm (apart : RangesApart a m b n) : RangesApart b n a m :=
  ⟨apart.second, apart.first, apart.disjoint.symm⟩

theorem RangesApart.far (apart : RangesApart a m b n) {k : Nat} (inside : k < n) :
    m ≤ (b + BitVec.ofNat w k - a).toNat := by
  obtain ⟨first, second, disjoint⟩ := apart
  have small : (BitVec.ofNat w k).toNat = k := by
    rw [BitVec.toNat_ofNat, Nat.mod_eq_of_lt (by omega)]
  have sum : (b + BitVec.ofNat w k).toNat = b.toNat + k := by
    rw [BitVec.toNat_add, small, Nat.mod_eq_of_lt (by omega)]
  rw [BitVec.toNat_sub, sum]
  rcases disjoint with below | above
  · have split : 2 ^ w - a.toNat + (b.toNat + k) = 2 ^ w + (b.toNat + k - a.toNat) := by omega
    rw [split, Nat.add_mod_left, Nat.mod_eq_of_lt (by omega)]
    omega
  · rw [Nat.mod_eq_of_lt (by omega)]
    omega

theorem toNat_add_ofNat (a : BitVec w) {o : Nat} (fits : a.toNat + o < 2 ^ w) :
    (a + BitVec.ofNat w o).toNat = a.toNat + o := by
  rw [BitVec.toNat_add, BitVec.toNat_ofNat, Nat.mod_eq_of_lt (by omega : o < 2 ^ w),
    Nat.mod_eq_of_lt fits]

theorem RangesApart.parts (apart : RangesApart a m b n) {i k j l : Nat} (first : i + k ≤ m)
    (second : j + l ≤ n) (some : 0 < k) (some' : 0 < l) :
    RangesApart (a + BitVec.ofNat w i) k (b + BitVec.ofNat w j) l := by
  obtain ⟨fits, fits', disjoint⟩ := apart
  have here : (a + BitVec.ofNat w i).toNat = a.toNat + i := toNat_add_ofNat a (by omega)
  have there : (b + BitVec.ofNat w j).toNat = b.toNat + j := toNat_add_ofNat b (by omega)
  exact ⟨by omega, by omega, by omega⟩

theorem rangesApart_within {i k j l : Nat} (fits : a.toNat + i + k ≤ 2 ^ w)
    (fits' : a.toNat + j + l ≤ 2 ^ w) (some : 0 < k) (some' : 0 < l)
    (disjoint : i + k ≤ j ∨ j + l ≤ i) :
    RangesApart (a + BitVec.ofNat w i) k (a + BitVec.ofNat w j) l := by
  have here : (a + BitVec.ofNat w i).toNat = a.toNat + i := toNat_add_ofNat a (by omega)
  have there : (a + BitVec.ofNat w j).toNat = a.toNat + j := toNat_add_ofNat a (by omega)
  exact ⟨by omega, by omega, by omega⟩

def AgreeOn (mem mem' : BitVec w → BitVec 8) (a : BitVec w) (n : Nat) : Prop :=
  ∀ k < n, mem' (a + BitVec.ofNat w k) = mem (a + BitVec.ofNat w k)

theorem AgreeOn.refl (mem : BitVec w → BitVec 8) (a : BitVec w) (n : Nat) : AgreeOn mem mem a n :=
  fun _ _ => rfl

theorem AgreeOn.trans (first : AgreeOn mem mem' a n) (second : AgreeOn mem' mem'' a n) :
    AgreeOn mem mem'' a n :=
  fun k inside => (second k inside).trans (first k inside)

theorem AgreeOn.part (agree : AgreeOn mem mem' a n) {o : Nat} (inside : o + m ≤ n) :
    AgreeOn mem mem' (a + BitVec.ofNat w o) m := by
  intro k less
  rw [add_ofNat]
  exact agree (o + k) (by omega)

theorem AgreeOn.first (agree : AgreeOn mem mem' a n) (less : m ≤ n) : AgreeOn mem mem' a m :=
  fun k inside => agree k (by omega)

theorem AgreeOn.half (agree : AgreeOn mem mem' a 2) : WordStack.half mem' a = WordStack.half mem a := by
  have zero : mem' a = mem a := by
    simpa using agree 0 (by omega)
  have one : mem' (a + 1) = mem (a + 1) := agree 1 (by omega)
  rw [WordStack.half, WordStack.half, zero, one]

theorem AgreeOn.word (agree : AgreeOn mem mem' a 4) : WordStack.word mem' a = WordStack.word mem a := by
  have low : AgreeOn mem mem' a 2 := agree.first (by omega)
  have high : AgreeOn mem mem' (a + 2) 2 := agree.part (o := 2) (by omega)
  rw [WordStack.word, WordStack.word, low.half, high.half]

theorem AgreeOn.holds {vs : List (BitVec 32)} (agree : AgreeOn mem mem' a (4 * vs.length))
    (holds : Holds mem a vs) : Holds mem' a vs := holds.congr agree

theorem agreeOn_setWord (apart : RangesApart a 4 b n) (v : BitVec 32) :
    AgreeOn mem (setWord mem a v) b n := fun _ inside => setWord_outside (apart.far inside)

theorem agreeOn_setHalf (apart : RangesApart a 2 b n) (v : BitVec 16) :
    AgreeOn mem (setHalf mem a v) b n := by
  intro k inside
  simp only [setHalf, Nat.not_lt.mpr (apart.far inside), if_false]

theorem agreeOn_fill (apart : RangesApart a m b n) (v : BitVec 8) :
    AgreeOn mem (fill mem a m v) b n := by
  intro k inside
  simp only [fill, Nat.not_lt.mpr (apart.far inside), if_false]

theorem agreeOn_copy {src : BitVec w} (apart : RangesApart a m b n) :
    AgreeOn mem (copy mem a src m) b n := fun _ inside => copy_outside (apart.far inside)

theorem agreeOn_pushAll {s : Stack w} {us : List (BitVec 32)}
    (apart : RangesApart (s.sp - BitVec.ofNat w (4 * us.length)) (4 * us.length) b n) :
    AgreeOn s.mem (s.pushAll us).mem b n := by
  intro k inside
  have fits := apart.first
  exact mem_pushAll_outside (by omega) (apart.far inside)

end Apart

end WordStack
