import FosV2.CputsDisclosure
import FosV2.StringField

/-!
`sys_cputs` against its comment, "The string is exactly 'len' characters long". The kernel
prints it with `%.*s`, which stops at a NUL and looks at one byte more than it prints.
-/

namespace FosV2

def cputsArguments (s len : Word) : Arguments := fun i => if i = 0 then len else s

/-- The bytes of `[s, s+len)` are printed, and nothing else is read: over a memory that holds
the same bytes there, be the rest of it unreadable, the format comes to the same. -/
structure CputsExact (κ : Kernel) (s len : Word) : Prop where
  output : ∃ κ' bytes, sysCputs κ s len = .ok κ' ∧ κ'.output = κ.output ++ bytes ∧
    bytes.length = len.toNat ∧
      ∀ i b, bytes[i]? = some b → κ.loadByte (s + BitVec.ofNat 32 i) = .ok b
  confined : ∀ load, (∀ i < len.toNat,
      load (s + BitVec.ofNat 32 i) = κ.loadByte (s + BitVec.ofNat 32 i)) →
    printed load ("%.*s".toList.map char) (cputsArguments s len) =
      printed κ.loadByte ("%.*s".toList.map char) (cputsArguments s len)

section Cputs

variable {κ : Kernel} {s len : Word} {load : Word → Except Stop Byte} {text : List Byte}

variable (len) in
theorem cputsText_spells (spells : Spells (textAt load s) 0 text)
    (short : text.length < 2 ^ 32) :
    ∃ behind, cputsText load s len = .ok ((text.take (admitted len text.length) ++
      List.replicate behind (char ' ')).map (BitVec.signExtend 32)) ∧
      (behind = 0 ∨ 2 ^ 31 < admitted len text.length ∧
        behind + admitted len text.length = 2 ^ 32) := by
  have right : ¬(cputsEscape len).PadsLeft := fun left => absurd left.1 (Int.lt_irrefl 0)
  have shown : admitted len text.length ≤ text.length := admitted_le len text.length
  have zero : (0 : Word).toNat = 0 := rfl
  have left := toInt_sub_ofNat (w := 0) (n := admitted len text.length) (by decide) (by omega)
  have put := putString_spells spells short (show (cputsEscape len).altflag = false from rfl)
  rw [padsBefore, if_neg right, List.replicate_zero, List.nil_append, padsBehind, widthLeft,
    if_neg right] at put
  refine ⟨((0 : Word) - BitVec.ofNat 32 (admitted len text.length)).toInt.toNat, put, ?_⟩
  rw [left, zero]
  split <;> omega

theorem printed_cputsArguments (load : Word → Except Stop Byte) (s len : Word) :
    printed load ("%.*s".toList.map char) (cputsArguments s len) = cputsText load s len :=
  printed_cputs load s len

theorem cputsText_of_sysCputs {κ' : Kernel} (called : sysCputs κ s len = .ok κ')
    {bytes : List Byte} (output : κ'.output = κ.output ++ bytes) :
    ∃ chars, cputsText κ.loadByte s len = .ok chars ∧ chars.map (BitVec.setWidth 8) = bytes := by
  rw [sysCputs_eq] at called
  cases text : cputsText κ.loadByte s len with
  | error stop =>
      rw [text] at called
      cases called
  | ok chars =>
      rw [text] at called
      have last := Except.ok.inj called
      rw [← last, output_foldl_putch] at output
      exact ⟨chars, rfl, List.append_cancel_left output⟩

/-- A NUL among the bytes ends the text before `len` bytes, however it is padded. -/
theorem length_ne_of_nul (notNull : s ≠ 0) {bytes : List Byte}
    (length : bytes.length = len.toNat)
    (read : ∀ i b, bytes[i]? = some b → load (s + BitVec.ofNat 32 i) = .ok b)
    (nul : 0 ∈ bytes) {chars : List Word} (shown : cputsText load s len = .ok chars) :
    chars.length ≠ len.toNat := by
  obtain ⟨before, after, split, none⟩ := List.eq_append_cons_of_mem nul
  have bits := len.isLt
  have count : before.length < bytes.length := by
    rw [split, List.length_append, List.length_cons]
    omega
  have spells : Spells (textAt load s) 0 before := by
    apply spells_of_bytes
    · intro k ch found
      have inside : k < before.length := (List.getElem?_eq_some_iff.mp found).1
      rw [Nat.zero_add, textAt_of_ne notNull]
      refine ⟨read k ch ?_, fun zero => none (zero ▸ List.mem_of_getElem? found)⟩
      rw [split, List.getElem?_append_left inside, found]
    · rw [Nat.zero_add, textAt_of_ne notNull]
      apply read
      rw [split, List.getElem?_append_right (Nat.le_refl _), Nat.sub_self]
      rfl
  obtain ⟨behind, text, padding⟩ := cputsText_spells len spells (by omega)
  have shorter := admitted_le len before.length
  rw [shown] at text
  rw [Except.ok.inj text, List.length_map, List.length_append, List.length_replicate,
    List.length_take]
  omega

/-- Without a NUL among them, the byte behind the last one is looked at. -/
theorem looked_behind (notNull : s ≠ 0) {bytes : List Byte} (length : bytes.length = len.toNat)
    (read : ∀ i b, bytes[i]? = some b → load (s + BitVec.ofNat 32 i) = .ok b)
    (noNul : 0 ∉ bytes) : Looked (textAt load s) len 0 len.toNat := by
  refine ⟨Nat.zero_le _, fun _ => by omega, fun k _ inside => ?_⟩
  rw [← length] at inside
  have found : bytes[k]? = some bytes[k] := List.getElem?_eq_getElem inside
  refine ⟨bytes[k], (textAt_of_ne notNull k).trans (read k _ found), fun zero => ?_⟩
  exact noNul (zero ▸ List.getElem_mem inside)

def confinedTo (load : Word → Except Stop Byte) (s len : Word) : Word → Except Stop Byte :=
  fun a => if (a - s).toNat < len.toNat then load a else .error (.pageFault a)

theorem confinedTo_inside {i : Nat} (inside : i < len.toNat) :
    confinedTo load s len (s + BitVec.ofNat 32 i) = load (s + BitVec.ofNat 32 i) := by
  have bits := len.isLt
  have offset := AlignedWord.toNat_add_ofNat_sub s (Nat.lt_trans inside bits)
  rw [confinedTo, if_pos (by omega)]

theorem confinedTo_behind : confinedTo load s len (s + BitVec.ofNat 32 len.toNat) =
    .error (.pageFault (s + BitVec.ofNat 32 len.toNat)) := by
  have bits := len.isLt
  have offset := AlignedWord.toNat_add_ofNat_sub s bits
  rw [confinedTo, if_neg (by omega)]

theorem null_of_cputsExact (exact_ : CputsExact κ s len) : s = 0 := by
  by_contra notNull
  obtain ⟨⟨κ', bytes, called, output, length, read⟩, confined⟩ := exact_
  obtain ⟨chars, shown, same⟩ := cputsText_of_sysCputs called output
  have count : chars.length = len.toNat := by rw [← length, ← same, List.length_map]
  by_cases nul : 0 ∈ bytes
  · exact length_ne_of_nul notNull length read nul shown count
  · have inside : ∀ i b, bytes[i]? = some b →
        confinedTo κ.loadByte s len (s + BitVec.ofNat 32 i) = .ok b := by
      intro i b found
      have small := (List.getElem?_eq_some_iff.mp found).1
      rw [confinedTo_inside (by omega)]
      exact read i b found
    have alike := confined (confinedTo κ.loadByte s len) fun i small => confinedTo_inside small
    rw [printed_cputsArguments, printed_cputsArguments, shown, cputsText_eq, putText_error
      (looked_behind notNull length inside nul)
      ((textAt_of_ne notNull _).trans confinedTo_behind)
      (show len.toNat < 0 + textFuel by rw [textFuel]; omega)] at alike
    cases alike

theorem spells_nullText (load : Word → Except Stop Byte) : Spells (textAt load 0) 0 nullText := by
  refine spells_of_bytes (fun k ch found => ?_) rfl
  have some : ch ≠ 0 := by
    rintro rfl
    exact absurd (List.mem_of_getElem? found) (by decide)
  refine ⟨?_, some⟩
  rw [Nat.zero_add]
  change Except.ok (nullText.getD k 0) = .ok ch
  rw [List.getD_eq_getElem?_getD, found]
  rfl

/-- Where the pointer is null, the text is `(null)`, cut at `len`. -/
theorem cputsText_null (load : Word → Except Stop Byte) (len : Word) :
    cputsText load 0 len =
      .ok ((nullText.take (admitted len 6)).map (BitVec.signExtend 32)) := by
  obtain ⟨behind, text, padding⟩ :=
    cputsText_spells len (spells_nullText load) (by decide)
  have few := admitted_le len 6
  have none : behind = 0 := by
    have six : nullText.length = 6 := rfl
    rw [six] at padding
    omega
  rw [text, none, List.replicate_zero, List.append_nil]
  rfl

end Cputs

/-- Only a null pointer can do: `(null)` is then printed, and the bytes from address 0 on
would have to be these. -/
theorem cputsExact_iff (κ : Kernel) (s len : Word) :
    CputsExact κ s len ↔ s = 0 ∧ len.toNat ≤ 6 ∧
      ∀ i < len.toNat, κ.loadByte (BitVec.ofNat 32 i) = .ok (nullText.getD i 0) := by
  have address : ∀ i, (0 : Word) + BitVec.ofNat 32 i = BitVec.ofNat 32 i :=
    fun i => BitVec.zero_add _
  constructor
  · intro exact_
    obtain rfl := null_of_cputsExact exact_
    obtain ⟨⟨κ', bytes, called, output, length, read⟩, _⟩ := exact_
    obtain ⟨chars, shown, same⟩ := cputsText_of_sysCputs called output
    rw [cputsText_null] at shown
    have text : nullText.take (admitted len 6) = bytes := by
      rw [← same, ← Except.ok.inj shown]
      exact (textOf_signExtend _).symm
    have few : len.toNat ≤ 6 := by
      rw [← length, ← text, List.length_take]
      exact Nat.min_le_right _ _
    refine ⟨rfl, few, fun i inside => ?_⟩
    have found : bytes[i]? = some (nullText.getD i 0) := by
      rw [← length, ← text, List.length_take] at inside
      have six : nullText.length = 6 := rfl
      rw [← text, List.getElem?_take_of_lt (by omega), List.getD_eq_getElem?_getD,
        List.getElem?_eq_getElem (by omega)]
      rfl
    have byte := read i _ found
    rwa [address] at byte
  · rintro ⟨rfl, few, held⟩
    have cut : admitted len 6 = len.toNat := by
      have positive : ¬len.toInt < 0 := by
        rw [BitVec.toInt_eq_toNat_of_lt (by omega)]
        omega
      rw [admitted, if_neg positive, Nat.min_eq_left few]
    refine ⟨?_, fun load _ => ?_⟩
    · have called := sysCputs_eq κ 0 len
      rw [cputsText_null, cut] at called
      refine ⟨_, nullText.take len.toNat, called, ?_, ?_, fun i b found => ?_⟩
      · rw [output_foldl_putch]
        exact congrArg (κ.output ++ ·) (textOf_signExtend _)
      · exact List.length_take_of_le few
      · have inside := (List.getElem?_eq_some_iff.mp found).1
        have small : i < len.toNat := by
          rw [List.length_take] at inside
          omega
        rw [List.getElem?_take_of_lt small] at found
        rw [address, held i small, List.getD_eq_getElem?_getD, found]
        rfl
    · rw [printed_cputsArguments, printed_cputsArguments, cputsText_null, cputsText_null]

/-- The page at 0x800000 holds `H` and then a NUL: of its first two bytes one is printed. -/
theorem not_cputsExact_nul :
    (∀ i < 2, ∃ b, (secretKernel 0).loadByte (0x800000 + BitVec.ofNat 32 i) = .ok b) ∧
      ¬CputsExact (secretKernel 0) 0x800000 2 := by
  constructor
  · intro i small
    rcases Nat.le_one_iff_eq_zero_or_eq_one.mp (Nat.le_of_lt_succ small) with rfl | rfl
    · exact ⟨0x48, rfl⟩
    · exact ⟨0, rfl⟩
  · rintro ⟨⟨κ', bytes, called, output, length, _⟩, _⟩
    have once : (fun κ : Kernel => κ.output) <$> sysCputs (secretKernel 0) 0x800000 2 =
        .ok [0x48] := rfl
    rw [called, map_ok, output] at once
    have one : (secretKernel 0).output ++ bytes = [0x48] := Except.ok.inj once
    have none : (secretKernel 0).output = [] := rfl
    rw [none, List.nil_append] at one
    rw [one] at length
    exact absurd length (by decide)

end FosV2
