import FosV2.ConsolePrinting
import FosV2.FormatLoop
import FosV2.ReferenceTerminal
import FosV2.StringField

/-!
Literal text of a format and the same text through `%s`, on the kernel's screen. The first is
loaded as `unsigned char` and the second as `char`, which is signed: a byte from 0x80 on brings
its own attribute along, and the default is not given to it.
-/

namespace FosV2

open ScreenTerminal

namespace Console

def place (κ : Console) : Nat :=
  if κ.crtPos.toNat + 1 < crtSize then κ.crtPos.toNat else κ.crtPos.toNat - crtCols

def defaultCell (b : Byte) : BitVec 16 := 0x0700 ||| b.setWidth 16

def StoresVisible (κ : Console) (chars : List Word) : Prop :=
  ∀ before c after, chars = before ++ c :: after → Visible (c.setWidth 8) →
    ((before.foldl consPutc κ).consPutc c).cell (before.foldl consPutc κ).place =
      defaultCell (c.setWidth 8)

def Keeps (κ : Console) (chars : List Word) : Prop :=
  (chars.foldl consPutc κ).crtBuf = κ.crtBuf ∧ (chars.foldl consPutc κ).crtPos = κ.crtPos

variable {κ : Console} {c : Word}

theorem foldl_onScreen (onScreen : κ.OnScreen) (chars : List Word) :
    (chars.foldl consPutc κ).OnScreen := by
  induction chars generalizing κ with
  | nil => exact onScreen
  | cons c rest ih => exact ih (consPutc_onScreen onScreen c)

theorem consPutc_stored (onScreen : κ.OnScreen)
    (visible : Visible ((withAttribute c &&& 0xFF).setWidth 8)) :
    (κ.consPutc c).cell κ.place = (withAttribute c).setWidth 16 := by
  obtain ⟨noBackspace, noNewline, noReturn, noTab⟩ := visible
  have size : crtSize = 2000 := rfl
  have columns : crtCols = 80 := rfl
  have inside : κ.crtPos.toNat < crtSize := onScreen
  have next : (κ.crtPos + 1).toNat = κ.crtPos.toNat + 1 := by bv_omega
  have put : κ.consPutc c = (((lptPutc c κ).setCell κ.crtPos.toNat
      ((withAttribute c).setWidth 16)).setPos (κ.crtPos + 1)).settled := by
    rw [consPutc, cgaPutc, cgaPutcWith, cgaWrite]
    simp only [noBackspace, noNewline, noReturn, noTab, if_false]
    rfl
  rw [put, settled, place, setPos_crtPos, next]
  by_cases more : κ.crtPos.toNat + 1 < crtSize
  · rw [if_neg (Nat.not_le.mpr more), if_pos more, setPos_cell, setCell_cell_self]
  · have back : κ.crtPos.toNat - crtCols + crtCols = κ.crtPos.toNat := by omega
    rw [if_pos (Nat.not_lt.mp more), if_neg more, scroll_cell (by omega), back, setPos_cell,
      setCell_cell_self]

theorem storesVisible_bytes (onScreen : κ.OnScreen) (s : List Byte) :
    κ.StoresVisible (s.map (BitVec.setWidth 32)) := by
  intro before c after split visible
  obtain ⟨first, rest, _, _, others⟩ := List.map_eq_append_iff.mp split
  obtain ⟨b, _, _, rfl, _⟩ := List.map_eq_cons_iff.mp others
  have byte : ∀ b : Byte, (b.setWidth 32 : Word).setWidth 8 = b ∧
      (0x0700 ||| b.setWidth 32 : Word).setWidth 16 = defaultCell b := by decide
  rw [(byte b).1] at visible ⊢
  have stored := consPutc_stored (c := b.setWidth 32) (foldl_onScreen onScreen before)
  rw [withAttribute_byte, character_byte, (byte b).2] at stored
  exact stored visible

/-- A byte from 0x80 on, sign-extended, keeps the bits above it as its attribute. -/
theorem storesVisible_signed (onScreen : κ.OnScreen) {s : List Byte}
    (stores : κ.StoresVisible (s.map (BitVec.signExtend 32))) : ∀ b ∈ s, b.toNat < 0x80 := by
  have high : ∀ b : Byte, 0x80 ≤ b.toNat → withAttribute (b.signExtend 32) = b.signExtend 32 ∧
      ((b.signExtend 32 : Word) &&& 0xFF).setWidth 8 = b ∧
      (b.signExtend 32 : Word).setWidth 8 = b ∧
      (b.signExtend 32 : Word).setWidth 16 ≠ defaultCell b := by decide
  intro b member
  by_contra large
  obtain ⟨given, character, byte, differs⟩ := high b (Nat.not_lt.mp large)
  obtain ⟨before, after, split⟩ := List.append_of_mem member
  have visible : Visible b := visible_of_space_le (by omega)
  have shown := stores (before.map (BitVec.signExtend 32)) (b.signExtend 32)
    (after.map (BitVec.signExtend 32)) (by rw [split, List.map_append, List.map_cons])
  rw [byte] at shown
  have stored := consPutc_stored (c := b.signExtend 32)
    (foldl_onScreen onScreen (before.map (BitVec.signExtend 32)))
  rw [given, character] at stored
  exact differs ((stored visible).symm.trans (shown visible))

end Console

theorem signExtend_small {b : Byte} (small : b.toNat < 0x80) :
    (b.signExtend 32 : Word) = b.setWidth 32 := by
  revert b
  decide

/-! The characters of the two calls -/

section Calls

variable {load : Word → Except Stop Byte} {s : List Byte} {ap args : Arguments} {κ : Console}

variable (load ap) in
theorem printed_literal (plain : ∀ b ∈ s, b ≠ char '%' ∧ b ≠ 0) :
    printed load s ap = .ok (s.map (BitVec.setWidth 32)) := by
  have text : ∀ (bytes : List Byte) (chars : List Word),
      putLiteral record bytes chars = chars ++ bytes.map (BitVec.setWidth 32) := by
    intro bytes
    induction bytes with
    | nil => exact fun chars => (List.append_nil chars).symm
    | cons ch rest ih =>
        intro chars
        rw [putLiteral, List.foldl_cons, ← putLiteral, ih, record, List.append_assoc]
        rfl
  rw [printed, vprintfmt, printFormat, Cursor.ofString, printEscapes_text plain,
    printEscapes_nul, text, List.nil_append]

/-- The spaces that `%s` prints behind a string, where the `int` that counts the width down
wraps. -/
def spacesBehind (length : Nat) : Nat := if length < 2 ^ 31 then 0 else 2 ^ 32 - 1 - length

theorem printed_string_argument (string : StringAt load (args 0) s) :
    printed load ("%s".toList.map char) args =
      .ok ((s ++ List.replicate (spacesBehind s.length) (char ' ')).map
        (BitVec.signExtend 32)) := by
  have short := string.length_lt
  have unset : ¬Escape.start.PadsLeft := fun left => absurd left.1 (by decide)
  have all : admitted Escape.start.precision s.length = s.length := if_pos (by decide)
  have behind : padsBehind .start (min Escape.start.precision.toNat s.length) s.length =
      spacesBehind s.length := by
    have width : (-1 : Word).toNat = 2 ^ 32 - 1 := by decide
    rw [padsBehind, widthLeft, if_neg unset, spacesBehind]
    change ((-1 : Word) - BitVec.ofNat 32 s.length).toInt.toNat = _
    rw [BitVec.toInt_eq_toNat_cond, BitVec.toNat_sub, BitVec.toNat_ofNat, width]
    split <;> split <;> omega
  have put := putString_spells string.spells short (show Escape.start.altflag = false from rfl)
  rw [padsBefore, if_neg unset, List.replicate_zero, List.nil_append, all, List.take_length,
    behind] at put
  exact (vprintfmt_escape [char 's'] rfl convert_string).trans put

end Calls

structure PrintsAlike (load : Word → Except Stop Byte) (s : List Byte) (ap args : Arguments)
    (κ : Console) : Prop where
  same : ∃ left right, kernelVcprintf Console.consPutc load s ap κ = .ok left ∧
    kernelVcprintf Console.consPutc load ("%s".toList.map char) args κ = .ok right ∧
    left.2.crtBuf = right.2.crtBuf ∧ left.2.crtPos = right.2.crtPos
  literal : ∀ chars, printed load s ap = .ok chars → κ.StoresVisible chars
  argument : ∀ chars, printed load ("%s".toList.map char) args = .ok chars →
    κ.StoresVisible chars

/-- There are no spaces behind the text; or they fill whole rows, and the text leaves a terminal
with a blank screen and its cursor in the last row. -/
def SpacesKeep (s : List Byte) (t : TextScreen) : Prop :=
  2 ^ 32 - 1 - s.length = 0 ∨
    crtCols ∣ 2 ^ 32 - 1 - s.length ∧ (s.foldl referencePutc t).BlankAtEnd blankCell

section Alike

variable {load : Word → Except Stop Byte} {s : List Byte} {ap args : Arguments} {κ κ₀ : Console}
  {t : TextScreen}

theorem Console.Mirrors.foldl (mirrors : Console.Mirrors κ₀ κ t) (s : List Byte) :
    Console.Mirrors κ₀ ((s.map (BitVec.setWidth 32)).foldl Console.consPutc κ)
      (s.foldl referencePutc t) := by
  induction s generalizing κ t with
  | nil => exact mirrors
  | cons c rest ih =>
      have sent : Console.Mirrors κ₀ (Console.lptPutc (c.setWidth 32) κ) t :=
        ⟨mirrors.shows, mirrors.outside⟩
      exact ih (sent.cgaPutc c)

theorem referencePutc_space (t : TextScreen) :
    referencePutc t (char ' ') = t.type blankCell blankCell := by
  have blank : (0x07 : Byte) ++ char ' ' = blankCell := by decide
  rw [referencePutc, if_neg (by decide), if_neg (by decide), if_neg (by decide),
    if_neg (by decide), blank]

theorem foldl_spaces (t : TextScreen) (n : Nat) : (List.replicate n (char ' ')).foldl referencePutc t =
    (Screen.type blankCell blankCell)^[n] t := by
  induction n generalizing t with
  | zero => rfl
  | succ n ih =>
      rw [List.replicate_succ, List.foldl_cons, ih, referencePutc_space, Function.iterate_succ_apply]

/-- The buffer and the cursor are known from what they show. -/
theorem Console.Mirrors.unique {κ' : Console} (mirrors : Console.Mirrors κ₀ κ t)
    (mirrors' : Console.Mirrors κ₀ κ' t) : κ'.crtBuf = κ.crtBuf ∧ κ'.crtPos = κ.crtPos := by
  have size : crtSize = 2000 := rfl
  have area : crtCols * crtRows = 2000 := rfl
  constructor
  · funext a
    by_cases outside : 2 * crtSize ≤ a
    · exact (mirrors'.outside a outside).trans (mirrors.outside a outside).symm
    have inside : a / 2 / crtCols < crtRows := Nat.div_lt_of_lt_mul (by omega)
    have column : a / 2 % crtCols < crtCols := Nat.mod_lt _ (by decide)
    have index : a / 2 / crtCols * crtCols + a / 2 % crtCols = a / 2 := Nat.div_add_mod' _ _
    have cell := (mirrors'.shows.cells ⟨_, inside⟩ ⟨_, column⟩).trans
      (mirrors.shows.cells ⟨_, inside⟩ ⟨_, column⟩).symm
    dsimp only at cell
    rw [index, Console.cell, Console.cell] at cell
    have high := congrArg (BitVec.extractLsb' 8 8) cell
    have low := congrArg (BitVec.setWidth 8) cell
    rw [BitVec.extractLsb'_append_eq_left, BitVec.extractLsb'_append_eq_left] at high
    rw [BitVec.setWidth_append_eq_right, BitVec.setWidth_append_eq_right] at low
    rcases Nat.mod_two_eq_zero_or_one a with even | odd
    · have place : 2 * (a / 2) = a := by omega
      rwa [place] at low
    · have place : 2 * (a / 2) + 1 = a := by omega
      rwa [place] at high
  · exact BitVec.eq_of_toNat_eq (mirrors'.shows.cursor.trans mirrors.shows.cursor.symm)

theorem keeps_spaces_iff (mirrors : Console.Mirrors κ₀ κ t) (n : Nat) :
    κ.Keeps (List.replicate n 0x20) ↔ n = 0 ∨ crtCols ∣ n ∧ t.BlankAtEnd blankCell := by
  have spaces : (List.replicate n (char ' ')).map (BitVec.setWidth 32) =
      List.replicate n (0x20 : Word) := List.map_replicate
  have typed := mirrors.foldl (List.replicate n (char ' '))
  rw [spaces, foldl_spaces] at typed
  rw [← Screen.iterate_type_eq_iff blankCell t n]
  constructor
  · rintro ⟨buf, pos⟩
    have shows := typed.shows
    have cells : ((List.replicate n (0x20 : Word)).foldl Console.consPutc κ).cell = κ.cell := by
      funext i
      rw [Console.cell, Console.cell, buf]
    rw [cells, pos] at shows
    have same : Console.Mirrors κ₀ κ ((Screen.type blankCell blankCell)^[n] t) :=
      ⟨shows, mirrors.outside⟩
    exact same.screen_eq.symm.trans mirrors.screen_eq
  · intro fixed
    rw [fixed] at typed
    exact mirrors.unique typed

theorem signExtend_bytes (small : ∀ b ∈ s, b.toNat < 0x80) (count : Nat) :
    (s ++ List.replicate count (char ' ')).map (BitVec.signExtend 32) =
      s.map (BitVec.setWidth 32) ++ List.replicate count (0x20 : Word) := by
  rw [List.map_append, List.map_replicate]
  congr 1
  exact List.map_congr_left fun b member => signExtend_small (small b member)

theorem printsAlike_iff_spaces (plain : ∀ b ∈ s, b ≠ char '%' ∧ b ≠ 0)
    (string : StringAt load (args 0) s) (onScreen : κ.OnScreen) :
    PrintsAlike load s ap args κ ↔ (∀ b ∈ s, b.toNat < 0x80) ∧
      ((s.map (BitVec.setWidth 32)).foldl Console.consPutc κ).Keeps
        (List.replicate (spacesBehind s.length) 0x20) := by
  have literal := printed_literal load ap plain
  have argument := printed_string_argument string
  have left := kernelVcprintf_printed Console.consPutc literal κ
  have right := kernelVcprintf_printed Console.consPutc argument κ
  constructor
  · rintro ⟨⟨_, _, first, second, buf, pos⟩, _, stores⟩
    have all := Console.storesVisible_signed onScreen (stores _ argument)
    have small : ∀ b ∈ s, b.toNat < 0x80 := fun b member => all b (List.mem_append_left _ member)
    rw [left] at first
    rw [right, signExtend_bytes small, List.foldl_append] at second
    cases first
    cases second
    exact ⟨small, buf.symm, pos.symm⟩
  · rintro ⟨small, keeps⟩
    rw [signExtend_bytes small] at argument right
    rw [List.foldl_append] at right
    refine ⟨⟨_, _, left, right, keeps.1.symm, keeps.2.symm⟩, fun chars shown => ?_,
      fun chars shown => ?_⟩
    · rw [← Except.ok.inj (literal.symm.trans shown)]
      exact Console.storesVisible_bytes onScreen s
    · have bytes : s.map (BitVec.setWidth 32) ++
          List.replicate (spacesBehind s.length) (0x20 : Word) =
          (s ++ List.replicate (spacesBehind s.length) (char ' ')).map (BitVec.setWidth 32) := by
        rw [List.map_append, List.map_replicate]
        rfl
      rw [← Except.ok.inj (argument.symm.trans shown), bytes]
      exact Console.storesVisible_bytes onScreen _

/-- The two calls agree on the bytes below 0x80. (From 2^31 bytes on there are spaces behind
the text of `%s`, and these must not show either.) -/
theorem printsAlike_iff (load : Word → Except Stop Byte) (s : List Byte)
    (plain : ∀ b ∈ s, b ≠ char '%' ∧ b ≠ 0) (ap args : Arguments)
    (string : StringAt load (args 0) s) (κ : Console) (onScreen : κ.OnScreen) :
    (s.length < 2 ^ 31 → (PrintsAlike load s ap args κ ↔ ∀ b ∈ s, b.toNat < 0x80)) ∧
      (2 ^ 31 ≤ s.length →
        (PrintsAlike load s ap args κ ↔
          (∀ b ∈ s, b.toNat < 0x80) ∧ SpacesKeep s (κ.screen onScreen))) := by
  rw [printsAlike_iff_spaces plain string onScreen]
  constructor
  · intro short
    rw [spacesBehind, if_pos short]
    exact and_iff_left ⟨rfl, rfl⟩
  · intro long
    rw [spacesBehind, if_neg (Nat.not_lt.mpr long),
      keeps_spaces_iff ((Console.mirrors_screen κ onScreen).foldl s)]
    exact Iff.rfl

end Alike

theorem printsAlike_iff_bottomRight :
    PrintsAlike (textMemory 4096 ("ok".toList.map char)) ("ok".toList.map char) (fun _ => 0)
      (fun _ => 4096) ⟨fun _ => 0, 1999, []⟩ := by
  have onScreen : Console.OnScreen ⟨fun _ => 0, 1999, []⟩ := by
    unfold Console.OnScreen
    decide
  have string : StringAt (textMemory 4096 ("ok".toList.map char)) 4096 ("ok".toList.map char) :=
    stringAt_textMemory (by decide) (by decide) (by decide)
  exact ((printsAlike_iff _ _ (by decide) (fun _ => 0) (fun _ => 4096) string _ onScreen).1
    (by decide)).mpr (by decide)

/-- `%s` stores the byte 0x80 as the cell 0xFF80. -/
theorem not_printsAlike_high :
    ¬PrintsAlike (textMemory 4096 [0x80]) [0x80] (fun _ => 0) (fun _ => 4096)
      ⟨fun _ => 0, 0, []⟩ := by
  rintro ⟨_, _, stores⟩
  have shown : printed (textMemory 4096 [0x80]) ("%s".toList.map char) (fun _ => 4096) =
      .ok [0xFFFFFF80] := by decide
  have visible : Console.Visible ((0xFFFFFF80 : Word).setWidth 8) :=
    Console.visible_of_space_le (by decide)
  have cell := stores _ shown [] 0xFFFFFF80 [] rfl visible
  have stored : (Console.consPutc ⟨fun _ => 0, 0, []⟩ 0xFFFFFF80).cell 0 = 0xFF80 := by decide
  exact absurd (stored.symm.trans cell) (by decide)

end FosV2
