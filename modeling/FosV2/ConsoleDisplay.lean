import FosV2.MemoryCopy
import FosV2.StringLibrary
import Mathlib.Tactic.SplitIfs

/-!
The output half of `kern/console.c`: the text screen of `cga_putc`, with the cursor that the
kernel keeps in `crt_pos`, and the parallel port of `lpt_putc`. The screen is an array of
cells of two bytes, the character and above it the attribute.
-/

namespace FosV2

def crtRows : Nat := 25

def crtCols : Nat := 80

def crtSize : Nat := crtRows * crtCols

structure Console where
  crtBuf : Nat → Byte
  crtPos : BitVec 16
  lpt : List Byte

def memcpy (mem : Nat → Byte) (dst src n : Nat) : Nat → Byte :=
  MemoryCopy.copy (dst + ·) (src + ·) n mem

namespace Console

def cell (κ : Console) (pos : Nat) : BitVec 16 := κ.crtBuf (2 * pos + 1) ++ κ.crtBuf (2 * pos)

def setCell (κ : Console) (pos : Nat) (value : BitVec 16) : Console :=
  let crtBuf := Function.update κ.crtBuf (2 * pos) (value.setWidth 8)
  { κ with crtBuf := Function.update crtBuf (2 * pos + 1) ((value >>> 8).setWidth 8) }

def setPos (κ : Console) (crtPos : BitVec 16) : Console := { κ with crtPos := crtPos }

/-- `for (i = CRT_SIZE - CRT_COLS; i < CRT_SIZE; i++) crt_buf[i] = 0x0700 | ' ';` -/
def blankCells (κ : Console) : Nat → Console
  | 0 => κ
  | count + 1 => (κ.blankCells count).setCell (crtSize - crtCols + count) 0x0720

def scroll (κ : Console) : Console :=
  let crtBuf := memcpy κ.crtBuf 0 (2 * crtCols) ((crtSize - crtCols) * 2)
  let κ := blankCells { κ with crtBuf := crtBuf } crtCols
  κ.setPos (κ.crtPos - BitVec.ofNat 16 crtCols)

def withAttribute (c : Word) : Word := if c &&& ~~~0xFF = 0 then c ||| 0x0700 else c

def cgaWrite (putSpace : Console → Console) (c : Word) (κ : Console) : Console :=
  let ch := (c &&& 0xFF).setWidth 8
  if ch = 0x08 then
    if 0 < κ.crtPos then
      let κ := κ.setPos (κ.crtPos - 1)
      κ.setCell κ.crtPos.toNat (((c &&& ~~~0xFF) ||| 0x20).setWidth 16)
    else κ
  else if ch = char '\n' then
    let κ := κ.setPos (κ.crtPos + BitVec.ofNat 16 crtCols)
    κ.setPos (κ.crtPos - κ.crtPos % BitVec.ofNat 16 crtCols)
  else if ch = char '\r' then κ.setPos (κ.crtPos - κ.crtPos % BitVec.ofNat 16 crtCols)
  else if ch = char '\t' then Nat.repeat putSpace 5 κ
  else (κ.setCell κ.crtPos.toNat (c.setWidth 16)).setPos (κ.crtPos + 1)

/-- `putSpace` stands for `cons_putc(' ')`. -/
def cgaPutcWith (putSpace : Console → Console) (c : Word) (κ : Console) : Console :=
  let κ := cgaWrite putSpace (withAttribute c) κ
  if crtSize ≤ κ.crtPos.toNat then κ.scroll else κ

/-- The port gets the character even where it never becomes ready. -/
def lptPutc (c : Word) (κ : Console) : Console := { κ with lpt := κ.lpt ++ [c.setWidth 8] }

/-- A space is not a tab, so `cga_putc` does not come back to `cons_putc` again. -/
def putSpace (κ : Console) : Console := cgaPutcWith id 0x20 (lptPutc 0x20 κ)

def cgaPutc (c : Word) (κ : Console) : Console := cgaPutcWith putSpace c κ

def consPutc (κ : Console) (c : Word) : Console := cgaPutc c (lptPutc c κ)

/-! What the pieces do to the cells and to the cursor -/

variable {κ : Console} {pos other : Nat} {value : BitVec 16}

@[simp] theorem setCell_crtPos : (κ.setCell pos value).crtPos = κ.crtPos := rfl

@[simp] theorem setPos_crtPos (crtPos : BitVec 16) : (κ.setPos crtPos).crtPos = crtPos := rfl

@[simp] theorem setPos_cell (crtPos : BitVec 16) :
    (κ.setPos crtPos).cell other = κ.cell other := rfl

@[simp] theorem lptPutc_crtPos (c : Word) : (lptPutc c κ).crtPos = κ.crtPos := rfl

@[simp] theorem lptPutc_cell (c : Word) : (lptPutc c κ).cell other = κ.cell other := rfl

theorem setCell_cell_of_ne (differs : other ≠ pos) :
    (κ.setCell pos value).cell other = κ.cell other := by
  have low : 2 * other ≠ 2 * pos := by omega
  have lowHigh : 2 * other ≠ 2 * pos + 1 := by omega
  have highLow : 2 * other + 1 ≠ 2 * pos := by omega
  simp [cell, setCell, low, lowHigh, highLow]

theorem append_bytes (value : BitVec 16) :
    (value >>> 8).setWidth 8 ++ value.setWidth 8 = value := by
  apply BitVec.eq_of_getLsbD_eq
  intro i small
  rw [BitVec.getLsbD_append]
  by_cases low : i < 8
  · simp [low]
  · have high : i - 8 < 8 := by omega
    have back : 8 + (i - 8) = i := by omega
    simp [low, high, back]

theorem setCell_cell_self : (κ.setCell pos value).cell pos = value := by
  have differs : 2 * pos ≠ 2 * pos + 1 := by omega
  simp only [cell, setCell, Function.update_self, Function.update_of_ne differs]
  exact append_bytes value

theorem blankCells_crtPos (count : Nat) : (κ.blankCells count).crtPos = κ.crtPos := by
  induction count with
  | zero => rfl
  | succ count ih => exact ih

theorem blankCells_cell (above : other < crtSize - crtCols) (count : Nat) :
    (κ.blankCells count).cell other = κ.cell other := by
  induction count with
  | zero => rfl
  | succ count ih =>
      rw [blankCells, setCell_cell_of_ne (by omega), ih]

theorem memcpy_front {mem : Nat → Byte} {n k : Nat} (src : Nat) (small : k < n) :
    memcpy mem 0 src n k = mem (src + k) := by
  have apart : ∀ i < n, ∀ j < n, 0 + i = 0 + j → i = j := by omega
  have unread : ∀ i < n, ∀ j < i, src + i ≠ 0 + j := by omega
  have copied : memcpy mem 0 src n (0 + k) = mem (src + k) :=
    MemoryCopy.copy_dst apart unread small
  rwa [Nat.zero_add] at copied

theorem scroll_cell (above : other < crtSize - crtCols) :
    κ.scroll.cell other = κ.cell (other + crtCols) := by
  have cells : crtSize - crtCols = 1920 := rfl
  have columns : crtCols = 80 := rfl
  rw [scroll, setPos_cell, blankCells_cell above]
  change memcpy κ.crtBuf 0 (2 * crtCols) ((crtSize - crtCols) * 2) (2 * other + 1) ++
    memcpy κ.crtBuf 0 (2 * crtCols) ((crtSize - crtCols) * 2) (2 * other) =
    κ.cell (other + crtCols)
  rw [memcpy_front _ (by omega), memcpy_front _ (by omega), cell]
  congr 2
  · omega
  · omega

theorem scroll_crtPos : κ.scroll.crtPos = κ.crtPos - BitVec.ofNat 16 crtCols := by
  rw [scroll, setPos_crtPos, blankCells_crtPos]

/-! The cursor stays on the screen. -/

def OnScreen (κ : Console) : Prop := κ.crtPos.toNat < crtSize

theorem rowStart_toNat (crtPos : BitVec 16) :
    (crtPos - crtPos % BitVec.ofNat 16 crtCols).toNat = crtPos.toNat - crtPos.toNat % crtCols := by
  have columns : (BitVec.ofNat 16 crtCols).toNat = crtCols := rfl
  have less : (crtPos % BitVec.ofNat 16 crtCols).toNat ≤ crtPos.toNat := by
    rw [BitVec.toNat_umod]
    exact Nat.mod_le _ _
  rw [BitVec.toNat_sub_of_le less, BitVec.toNat_umod, columns]

theorem cgaWrite_crtPos {putSpace : Console → Console}
    (spaces : ∀ κ : Console, κ.OnScreen → (putSpace κ).OnScreen) (c : Word)
    (onScreen : κ.OnScreen) : (cgaWrite putSpace c κ).crtPos.toNat ≤ crtSize := by
  have size : crtSize = 2000 := rfl
  have columns : crtCols = 80 := rfl
  have tab : (Nat.repeat putSpace 5 κ).OnScreen :=
    spaces _ (spaces _ (spaces _ (spaces _ (spaces κ onScreen))))
  rw [OnScreen] at onScreen tab
  simp only [cgaWrite]
  split_ifs
  · simp only [setCell_crtPos, setPos_crtPos]
    bv_omega
  · omega
  · have down : (κ.crtPos + BitVec.ofNat 16 crtCols).toNat = κ.crtPos.toNat + 80 := by
      rw [columns]
      bv_omega
    rw [setPos_crtPos, setPos_crtPos, rowStart_toNat, down, columns]
    omega
  · rw [setPos_crtPos, rowStart_toNat]
    omega
  · omega
  · simp only [setPos_crtPos]
    bv_omega

theorem cgaPutcWith_onScreen {putSpace : Console → Console}
    (spaces : ∀ κ : Console, κ.OnScreen → (putSpace κ).OnScreen) (c : Word)
    (onScreen : κ.OnScreen) : (cgaPutcWith putSpace c κ).OnScreen := by
  have written := cgaWrite_crtPos spaces (withAttribute c) onScreen
  have size : crtSize = 2000 := rfl
  have columns : crtCols = 80 := rfl
  simp only [cgaPutcWith]
  split_ifs
  · rw [OnScreen, scroll_crtPos, columns]
    bv_omega
  · rw [OnScreen]
    omega

theorem putSpace_onScreen (onScreen : κ.OnScreen) : κ.putSpace.OnScreen :=
  cgaPutcWith_onScreen (fun _ stays => stays) 0x20 onScreen

theorem consPutc_onScreen (onScreen : κ.OnScreen) (c : Word) : (κ.consPutc c).OnScreen :=
  cgaPutcWith_onScreen (fun _ stays => putSpace_onScreen stays) c onScreen

/-! The two characters of line editing that reach the screen -/

def Visible (c : Byte) : Prop := c ≠ 0x08 ∧ c ≠ char '\n' ∧ c ≠ char '\r' ∧ c ≠ char '\t'

theorem visible_of_space_le {c : Byte} (printable : 0x20 ≤ c.toNat) : Visible c := by
  refine ⟨?_, ?_, ?_, ?_⟩
  all_goals
    rintro rfl
    exact absurd printable (by decide)

theorem withAttribute_byte (c : Byte) :
    withAttribute (c.setWidth 32) = 0x0700 ||| c.setWidth 32 := by
  have plain : ∀ c : Byte, c.setWidth 32 &&& ~~~0xFF = (0 : Word) := by decide
  rw [withAttribute, if_pos (plain c), BitVec.or_comm]

theorem character_byte (c : Byte) :
    ((0x0700 ||| c.setWidth 32 : Word) &&& 0xFF).setWidth 8 = c := by
  revert c
  decide

theorem cell_byte (c : Byte) :
    (0x0700 ||| c.setWidth 32 : Word).setWidth 16 = (0x07 : Byte) ++ c := by
  revert c
  decide

theorem consPutc_visible {c : Byte} (visible : Visible c) :
    κ.consPutc (c.setWidth 32) =
      let shown := ((lptPutc (c.setWidth 32) κ).setCell κ.crtPos.toNat ((0x07 : Byte) ++ c)).setPos
        (κ.crtPos + 1)
      if crtSize ≤ shown.crtPos.toNat then shown.scroll else shown := by
  obtain ⟨noBackspace, noNewline, noReturn, noTab⟩ := visible
  rw [consPutc, cgaPutc, cgaPutcWith, withAttribute_byte, cgaWrite, character_byte, cell_byte,
    lptPutc_crtPos]
  simp only [noBackspace, noNewline, noReturn, noTab, if_false]

theorem consPutc_backspace (behind : 0 < κ.crtPos) (onScreen : κ.OnScreen) :
    κ.consPutc 0x08 =
      ((lptPutc 0x08 κ).setPos (κ.crtPos - 1)).setCell (κ.crtPos - 1).toNat 0x0720 := by
  have size : crtSize = 2000 := rfl
  have given : withAttribute 0x08 = 0x0708 := by decide
  have character : ((0x0708 : Word) &&& 0xFF).setWidth 8 = (0x08 : Byte) := by decide
  have blank : (((0x0708 : Word) &&& ~~~0xFF) ||| 0x20).setWidth 16 = (0x0720 : BitVec 16) := by
    decide
  have stays : ¬crtSize ≤ (κ.crtPos - 1).toNat := by
    rw [OnScreen] at onScreen
    bv_omega
  rw [consPutc, cgaPutc, cgaPutcWith, given, cgaWrite, character, blank, lptPutc_crtPos]
  simp only [behind, if_true, setCell_crtPos, setPos_crtPos, stays, if_false]

end Console

end FosV2
