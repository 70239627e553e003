import FosV2.ConsoleDisplay
import FosV2.ScreenTerminal

/-!
`cga_putc` is a terminal of 25 rows and 80 columns. The cursor of the code is one number, the
scroll a copy of the buffer onto itself, and a tab comes back to `cons_putc` five times.
-/

namespace FosV2

open ScreenTerminal

abbrev TextScreen := Screen crtRows crtCols (BitVec 16)

def blankCell : BitVec 16 := 0x0720

def referencePutc (t : TextScreen) (c : Byte) : TextScreen :=
  if c = 0x08 then t.backspace blankCell
  else if c = char '\n' then t.newline blankCell
  else if c = char '\r' then t.carriageReturn
  else if c = char '\t' then Nat.repeat (fun t => t.type blankCell blankCell) 5 t
  else t.type blankCell ((0x07 : Byte) ++ c)

namespace Console

variable {κ κ₀ : Console} {t : TextScreen}

def screen (κ : Console) (onScreen : κ.OnScreen) : TextScreen where
  cell row col := κ.cell (row * crtCols + col)
  row := ⟨κ.crtPos.toNat / crtCols, Nat.div_lt_of_lt_mul (Nat.mul_comm _ _ ▸ onScreen)⟩
  col := ⟨κ.crtPos.toNat % crtCols, Nat.mod_lt _ (by decide)⟩

structure Mirrors (κ₀ κ : Console) (t : TextScreen) : Prop where
  shows : Shows κ.cell κ.crtPos.toNat t
  outside : ∀ a, 2 * crtSize ≤ a → κ.crtBuf a = κ₀.crtBuf a

theorem Mirrors.onScreen (mirrors : Mirrors κ₀ κ t) : κ.OnScreen := mirrors.shows.pos_lt

theorem mirrors_screen (κ : Console) (onScreen : κ.OnScreen) :
    Mirrors κ κ (κ.screen onScreen) :=
  ⟨⟨fun _ _ => rfl, (Nat.div_add_mod' _ _).symm⟩, fun _ _ => rfl⟩

theorem Mirrors.screen_eq (mirrors : Mirrors κ₀ κ t) : κ.screen mirrors.onScreen = t := by
  obtain ⟨⟨cells, cursor⟩, _⟩ := mirrors
  have row : κ.crtPos.toNat / crtCols = t.row := by
    rw [cursor, Nat.mul_comm, Nat.mul_add_div (by decide), Nat.div_eq_of_lt t.col.isLt,
      Nat.add_zero]
  have col : κ.crtPos.toNat % crtCols = t.col := by
    rw [cursor, index_mod]
  obtain ⟨cell, ⟨_, _⟩, ⟨_, _⟩⟩ := t
  simp only [screen, row, col]
  congr 1
  funext row col
  exact cells row col

theorem setCell_cell (κ : Console) (pos : Nat) (value : BitVec 16) :
    (κ.setCell pos value).cell = Function.update κ.cell pos value := by
  funext other
  by_cases here : other = pos
  · rw [here, setCell_cell_self, Function.update_self]
  · rw [setCell_cell_of_ne here, Function.update_of_ne here]

theorem setCell_outside {pos a : Nat} (inside : pos < crtSize) (outside : 2 * crtSize ≤ a)
    (value : BitVec 16) : (κ.setCell pos value).crtBuf a = κ.crtBuf a := by
  have high : a ≠ 2 * pos + 1 := by omega
  have low : a ≠ 2 * pos := by omega
  simp [setCell, high, low]

theorem blankCells_blank {count k : Nat} (less : k < count) :
    (κ.blankCells count).cell (crtSize - crtCols + k) = blankCell := by
  induction count with
  | zero => omega
  | succ count ih =>
      rw [blankCells, setCell_cell]
      by_cases last : k = count
      · rw [last, Function.update_self, blankCell]
      · rw [Function.update_of_ne (by omega)]
        exact ih (by omega)

theorem blankCells_outside {a : Nat} (outside : 2 * crtSize ≤ a) {count : Nat}
    (few : count ≤ crtCols) : (κ.blankCells count).crtBuf a = κ.crtBuf a := by
  have size : crtSize = 2000 := rfl
  have columns : crtCols = 80 := rfl
  induction count with
  | zero => rfl
  | succ count ih =>
      rw [blankCells, setCell_outside (by omega) outside]
      exact ih (by omega)

theorem scroll_outside {a : Nat} (outside : 2 * crtSize ≤ a) :
    κ.scroll.crtBuf a = κ.crtBuf a := by
  have size : crtSize = 2000 := rfl
  have columns : crtCols = 80 := rfl
  have copied : memcpy κ.crtBuf 0 (2 * crtCols) ((crtSize - crtCols) * 2) a = κ.crtBuf a :=
    MemoryCopy.copy_of_ne fun k small => by omega
  exact (blankCells_outside outside (Nat.le_refl _)).trans copied

theorem scrolled_scroll (κ : Console) :
    Shows.Scrolled crtRows crtCols blankCell κ.cell κ.scroll.cell := by
  have size : crtSize - crtCols = (crtRows - 1) * crtCols := rfl
  have all : crtSize = crtRows * crtCols := rfl
  have columns : crtCols = 80 := rfl
  constructor
  · intro i above
    exact scroll_cell (by rwa [size])
  · intro i last inside
    have place : i = crtSize - crtCols + (i - (crtSize - crtCols)) := by omega
    rw [scroll, setPos_cell, place]
    exact blankCells_blank (by omega)

/-! One character -/

/-- The end of `cga_putc`, where the cursor may have left the screen. -/
def settled (κ : Console) : Console := if crtSize ≤ κ.crtPos.toNat then κ.scroll else κ

theorem settled_of_onScreen (onScreen : κ.OnScreen) : κ.settled = κ :=
  if_neg (Nat.not_le.mpr onScreen)

theorem scroll_toNat (beyond : crtSize ≤ κ.crtPos.toNat) :
    κ.scroll.crtPos.toNat = κ.crtPos.toNat - crtCols := by
  have size : crtSize = 2000 := rfl
  have columns : crtCols = 80 := rfl
  rw [scroll_crtPos, columns]
  bv_omega

theorem Mirrors.typed (mirrors : Mirrors κ₀ κ t) (value : BitVec 16) :
    Mirrors κ₀ ((κ.setCell κ.crtPos.toNat value).setPos (κ.crtPos + 1)).settled
      (t.type blankCell value) := by
  have size : crtSize = crtRows * crtCols := rfl
  have small : crtSize = 2000 := rfl
  have onScreen : κ.crtPos.toNat < crtSize := mirrors.onScreen
  have next : (κ.crtPos + 1).toNat = κ.crtPos.toNat + 1 := by bv_omega
  have written := mirrors.shows.write value
  rw [← setCell_cell] at written
  rw [Screen.type, settled]
  simp only [setPos_crtPos, next]
  split
  · rename_i beyond
    have place := scroll_toNat
      (κ := (κ.setCell κ.crtPos.toNat value).setPos (κ.crtPos + 1)) (next.symm ▸ beyond)
    rw [setPos_crtPos, next] at place
    refine ⟨?_, fun a outside => ?_⟩
    · rw [place]
      exact written.advance_scroll beyond (scrolled_scroll _)
    · rw [scroll_outside outside]
      exact (setCell_outside onScreen outside value).trans (mirrors.outside a outside)
  · rename_i inside
    refine ⟨?_, fun a outside => ?_⟩
    · rw [setPos_crtPos, next]
      exact written.advance_inside (by omega) blankCell
    · exact (setCell_outside onScreen outside value).trans (mirrors.outside a outside)

theorem Mirrors.newline (mirrors : Mirrors κ₀ κ t) {pos : BitVec 16}
    (down : pos.toNat = κ.crtPos.toNat - κ.crtPos.toNat % crtCols + crtCols) :
    Mirrors κ₀ (κ.setPos pos).settled (t.newline blankCell) := by
  have size : crtSize = crtRows * crtCols := rfl
  rw [settled, setPos_crtPos, down]
  split
  · rename_i beyond
    have place := scroll_toNat (κ := κ.setPos pos) (by rw [setPos_crtPos, down]; exact beyond)
    rw [setPos_crtPos, down, Nat.add_sub_cancel] at place
    refine ⟨?_, fun a outside => ?_⟩
    · rw [place]
      exact mirrors.shows.newline_scroll beyond (scrolled_scroll _)
    · rw [scroll_outside outside]
      exact mirrors.outside a outside
  · rename_i inside
    refine ⟨?_, mirrors.outside⟩
    rw [setPos_crtPos, down]
    exact mirrors.shows.newline_below (Nat.not_le.mp inside) blankCell

theorem Mirrors.carriageReturn (mirrors : Mirrors κ₀ κ t) :
    Mirrors κ₀ (κ.setPos (κ.crtPos - κ.crtPos % BitVec.ofNat 16 crtCols)).settled
      t.carriageReturn := by
  have start := rowStart_toNat κ.crtPos
  have onScreen : (κ.setPos (κ.crtPos - κ.crtPos % BitVec.ofNat 16 crtCols)).OnScreen := by
    rw [OnScreen, setPos_crtPos, start]
    exact Nat.lt_of_le_of_lt (Nat.sub_le _ _) mirrors.onScreen
  rw [settled_of_onScreen onScreen]
  refine ⟨?_, mirrors.outside⟩
  rw [setPos_crtPos, start]
  exact mirrors.shows.carriageReturn

theorem Mirrors.backspace (mirrors : Mirrors κ₀ κ t) (behind : 0 < κ.crtPos) :
    Mirrors κ₀ ((κ.setPos (κ.crtPos - 1)).setCell (κ.crtPos - 1).toNat blankCell).settled
      (t.backspace blankCell) := by
  have onScreen : κ.crtPos.toNat < crtSize := mirrors.onScreen
  have some : 0 < κ.crtPos.toNat := behind
  have previous : (κ.crtPos - 1).toNat = κ.crtPos.toNat - 1 := by bv_omega
  have stays : ((κ.setPos (κ.crtPos - 1)).setCell (κ.crtPos - 1).toNat blankCell).OnScreen := by
    rw [OnScreen, setCell_crtPos, setPos_crtPos, previous]
    omega
  rw [settled_of_onScreen stays]
  refine ⟨?_, fun a outside => ?_⟩
  · rw [setCell_crtPos, setPos_crtPos, setCell_cell, previous]
    exact mirrors.shows.backspace some blankCell
  · rw [setCell_outside (by omega) outside]
    exact mirrors.outside a outside

theorem cgaPutcWith_byte (putSpace : Console → Console) (c : Byte) (κ : Console) :
    cgaPutcWith putSpace (c.setWidth 32) κ =
      (cgaWrite putSpace (0x0700 ||| c.setWidth 32) κ).settled := by
  rw [cgaPutcWith, withAttribute_byte]
  rfl

theorem Mirrors.visible (mirrors : Mirrors κ₀ κ t) (putSpace : Console → Console) {c : Byte}
    (visible : Visible c) :
    Mirrors κ₀ (cgaPutcWith putSpace (c.setWidth 32) κ) (t.type blankCell ((0x07 : Byte) ++ c)) := by
  obtain ⟨noBackspace, noNewline, noReturn, noTab⟩ := visible
  rw [cgaPutcWith_byte, cgaWrite, character_byte, cell_byte]
  simp only [noBackspace, noNewline, noReturn, noTab, if_false]
  exact mirrors.typed _

theorem Mirrors.space (mirrors : Mirrors κ₀ κ t) :
    Mirrors κ₀ κ.putSpace (t.type blankCell blankCell) := by
  have space : Visible 0x20 := visible_of_space_le (by decide)
  have character : (0x20 : Byte).setWidth 32 = (0x20 : Word) := by decide
  have blank : (0x07 : Byte) ++ (0x20 : Byte) = blankCell := by decide
  have sent : Mirrors κ₀ (lptPutc 0x20 κ) t := ⟨mirrors.shows, mirrors.outside⟩
  have typed := sent.visible id space
  rw [blank, character] at typed
  exact typed

theorem Mirrors.tab (mirrors : Mirrors κ₀ κ t) (count : Nat) :
    Mirrors κ₀ (Nat.repeat Console.putSpace count κ)
      (Nat.repeat (fun t => t.type blankCell blankCell) count t) := by
  induction count with
  | zero => exact mirrors
  | succ count ih => exact ih.space

theorem Mirrors.cgaPutc (mirrors : Mirrors κ₀ κ t) (c : Byte) :
    Mirrors κ₀ (cgaPutc (c.setWidth 32) κ) (referencePutc t c) := by
  have columns : (BitVec.ofNat 16 crtCols).toNat = crtCols := rfl
  have size : crtSize = 2000 := rfl
  have wide : crtCols = 80 := rfl
  have onScreen : κ.crtPos.toNat < crtSize := mirrors.onScreen
  by_cases visible : Visible c
  · obtain ⟨noBackspace, noNewline, noReturn, noTab⟩ := visible
    have typed := mirrors.visible Console.putSpace ⟨noBackspace, noNewline, noReturn, noTab⟩
    rw [referencePutc, if_neg noBackspace, if_neg noNewline, if_neg noReturn, if_neg noTab]
    exact typed
  · rw [Console.cgaPutc, cgaPutcWith_byte, cgaWrite, character_byte, referencePutc]
    by_cases backspace : c = 0x08
    · subst backspace
      have blank : (((0x0700 ||| (0x08 : Byte).setWidth 32 : Word) &&& ~~~0xFF) ||| 0x20).setWidth 16
          = blankCell := by decide
      rw [blank]
      by_cases behind : 0 < κ.crtPos
      · simp only [if_true, behind]
        exact mirrors.backspace behind
      · have origin : κ.crtPos.toNat = 0 := Nat.eq_zero_of_not_pos behind
        have same : t.backspace blankCell = t := mirrors.shows.backspace_origin origin blankCell
        simp only [if_true, behind, if_false, same, settled_of_onScreen mirrors.onScreen]
        exact mirrors
    · by_cases newline : c = char '\n'
      · subst newline
        have down : (κ.crtPos + BitVec.ofNat 16 crtCols).toNat = κ.crtPos.toNat + 80 := by
          rw [wide]
          bv_omega
        simp only [backspace, if_false, if_true]
        apply mirrors.newline
        rw [setPos_crtPos, rowStart_toNat, down, wide]
        omega
      · by_cases carriage : c = char '\r'
        · subst carriage
          simp only [backspace, newline, if_false, if_true]
          exact mirrors.carriageReturn
        · have tab : c = char '\t' := by
            by_contra noTab
            exact visible ⟨backspace, newline, carriage, noTab⟩
          subst tab
          have spaces := mirrors.tab 5
          simp only [backspace, newline, carriage, if_false, if_true,
            settled_of_onScreen spaces.onScreen]
          exact spaces

end Console

def cgaPuts (chars : List Byte) (κ : Console) : Console :=
  chars.foldl (fun κ c => Console.cgaPutc (c.setWidth 32) κ) κ

theorem mirrors_cgaPuts {κ₀ κ : Console} {t : TextScreen} (mirrors : Console.Mirrors κ₀ κ t)
    (chars : List Byte) :
    Console.Mirrors κ₀ (cgaPuts chars κ) (chars.foldl referencePutc t) := by
  induction chars generalizing κ t with
  | nil => exact mirrors
  | cons c rest ih => exact ih (mirrors.cgaPutc c)

/-- After any characters the cursor is on the screen, nothing behind the screen has been
written, and the screen is that of the terminal. -/
theorem cgaPuts_refines (κ : Console) (onScreen : κ.OnScreen) (chars : List Byte) :
    ∃ onScreen' : (cgaPuts chars κ).OnScreen,
      (cgaPuts chars κ).screen onScreen' = chars.foldl referencePutc (κ.screen onScreen) ∧
      ∀ a, 2 * crtSize ≤ a → (cgaPuts chars κ).crtBuf a = κ.crtBuf a := by
  have mirrors := mirrors_cgaPuts (Console.mirrors_screen κ onScreen) chars
  exact ⟨mirrors.onScreen, mirrors.screen_eq, mirrors.outside⟩

/-- A tab at the end of the last row: the second of its spaces scrolls. -/
theorem cgaPuts_refines_tab : ∃ onScreen' : (cgaPuts [char '\t'] ⟨fun _ => 0, 1998, []⟩).OnScreen,
    (cgaPuts [char '\t'] ⟨fun _ => 0, 1998, []⟩).screen onScreen' =
      [char '\t'].foldl referencePutc (Console.screen ⟨fun _ => 0, 1998, []⟩
        (show 1998 < crtSize by decide)) ∧
      ∀ a, 2 * crtSize ≤ a → (cgaPuts [char '\t'] ⟨fun _ => 0, 1998, []⟩).crtBuf a = 0 :=
  cgaPuts_refines ⟨fun _ => 0, 1998, []⟩ (show 1998 < crtSize by decide) [char '\t']

end FosV2
