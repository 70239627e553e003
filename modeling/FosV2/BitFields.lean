import Mathlib.Tactic.Ring

/-!
The bit fields of a struct, packed into a number with the first field in the lowest bits.
-/

namespace BitFields

abbrev Field := (w : Nat) × BitVec w

def width : List Field → Nat
  | [] => 0
  | field :: fields => field.1 + width fields

def pack : List Field → Nat
  | [] => 0
  | field :: fields => field.2.toNat + 2 ^ field.1 * pack fields

def bits (n start len : Nat) : BitVec len := BitVec.ofNat len (n / 2 ^ start)

theorem pack_cons (field : Field) (fields : List Field) :
    pack (field :: fields) = field.2.toNat + 2 ^ field.1 * pack fields := rfl

theorem pack_lt (fields : List Field) : pack fields < 2 ^ width fields := by
  induction fields with
  | nil => simp [pack, width]
  | cons field fields ih =>
      have bound := field.2.isLt
      simp only [pack, width, Nat.pow_add]
      calc field.2.toNat + 2 ^ field.1 * pack fields
          < 2 ^ field.1 + 2 ^ field.1 * pack fields := by omega
        _ = 2 ^ field.1 * (pack fields + 1) := by ring
        _ ≤ 2 ^ field.1 * 2 ^ width fields := Nat.mul_le_mul_left _ ih

theorem pack_div (field : Field) (fields : List Field) :
    pack (field :: fields) / 2 ^ field.1 = pack fields := by
  have positive : 0 < 2 ^ field.1 := Nat.two_pow_pos _
  rw [pack, Nat.add_mul_div_left _ _ positive, Nat.div_eq_of_lt field.2.isLt, Nat.zero_add]

theorem pack_append_div (front back : List Field) :
    pack (front ++ back) / 2 ^ width front = pack back := by
  induction front with
  | nil => simp [width]
  | cons field front ih =>
      rw [List.cons_append, width, Nat.pow_add, ← Nat.div_div_eq_div_mul, pack_div, ih]

theorem pack_congr (front : List Field) {fields others : List Field}
    (same : pack fields = pack others) : pack (front ++ fields) = pack (front ++ others) := by
  induction front with
  | nil => exact same
  | cons field front ih => simp only [List.cons_append, pack_cons, ih]

/-- Two fields side by side are one wider field. -/
theorem pack_merge {v w : Nat} (x : BitVec v) (y : BitVec w) (fields : List Field) :
    pack (⟨v, x⟩ :: ⟨w, y⟩ :: fields) = pack (⟨w + v, y ++ x⟩ :: fields) := by
  have joined : (y ++ x).toNat = x.toNat + 2 ^ v * y.toNat := by
    rw [BitVec.toNat_append, ← Nat.shiftLeft_add_eq_or_of_lt x.isLt, Nat.shiftLeft_eq,
      Nat.add_comm, Nat.mul_comm]
  simp only [pack, joined, Nat.pow_add]
  ring

theorem bits_pack (front : List Field) {w : Nat} (x : BitVec w) (back : List Field) :
    bits (pack (front ++ ⟨w, x⟩ :: back)) (width front) w = x := by
  rw [bits, pack_append_div]
  apply BitVec.eq_of_toNat_eq
  rw [BitVec.toNat_ofNat, pack, Nat.add_mul_mod_self_left]
  exact Nat.mod_eq_of_lt x.isLt

theorem bits_field {fields : List Field} {i w : Nat} {x : BitVec w}
    (found : fields[i]? = some ⟨w, x⟩) : bits (pack fields) (width (fields.take i)) w = x := by
  obtain ⟨inside, same⟩ := List.getElem?_eq_some_iff.mp found
  have split : fields = fields.take i ++ ⟨w, x⟩ :: fields.drop (i + 1) := by
    rw [← same, List.getElem_cons_drop, List.take_append_drop]
  have read := bits_pack (fields.take i) x (fields.drop (i + 1))
  rwa [← split] at read

/-- Adjacent fields that are read as one. -/
theorem bits_append (n start low high : Nat) :
    bits n (start + low) high ++ bits n start low = bits n start (high + low) := by
  apply BitVec.eq_of_toNat_eq
  have split : n / 2 ^ start % 2 ^ (high + low) =
      2 ^ low * (n / 2 ^ start / 2 ^ low % 2 ^ high) + n / 2 ^ start % 2 ^ low := by
    rw [Nat.add_comm high, Nat.pow_add, Nat.mod_mul]
    omega
  have bound : n / 2 ^ start % 2 ^ low < 2 ^ low := Nat.mod_lt _ (Nat.two_pow_pos low)
  simp only [bits, BitVec.toNat_append, BitVec.toNat_ofNat]
  rw [split, Nat.pow_add, ← Nat.div_div_eq_div_mul, ← Nat.shiftLeft_add_eq_or_of_lt bound,
    Nat.shiftLeft_eq, Nat.mul_comm]

end BitFields
