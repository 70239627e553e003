import Mathlib.Data.Nat.Basic
import Mathlib.Data.Nat.ModEq
import Mathlib.Logic.Function.Iterate

/-!
A terminal of rows and columns, and how it lies in a linear buffer, row after row. The cursor
is always on the screen: moving it past the last cell scrolls.
-/

namespace ScreenTerminal

structure Screen (rows cols : Nat) (α : Type) where
  cell : Fin rows → Fin cols → α
  row : Fin rows
  col : Fin cols

namespace Screen

variable {rows cols : Nat} {α : Type}

def write (value : α) (t : Screen rows cols α) : Screen rows cols α :=
  { t with cell := fun row col => if row = t.row ∧ col = t.col then value else t.cell row col }

def scroll (blank : α) (t : Screen rows cols α) : Screen rows cols α :=
  { t with cell := fun row col =>
      if below : row + 1 < rows then t.cell ⟨row + 1, below⟩ col else blank }

def carriageReturn (t : Screen rows cols α) : Screen rows cols α :=
  { t with col := ⟨0, Nat.lt_of_le_of_lt (Nat.zero_le _) t.col.isLt⟩ }

def newline (blank : α) (t : Screen rows cols α) : Screen rows cols α :=
  if below : t.row + 1 < rows then { t.carriageReturn with row := ⟨t.row + 1, below⟩ }
  else t.carriageReturn.scroll blank

def advance (blank : α) (t : Screen rows cols α) : Screen rows cols α :=
  if inside : t.col + 1 < cols then { t with col := ⟨t.col + 1, inside⟩ } else t.newline blank

def type (blank value : α) (t : Screen rows cols α) : Screen rows cols α :=
  (t.write value).advance blank

def back (t : Screen rows cols α) : Screen rows cols α :=
  if 0 < t.col.val then
    { t with col := ⟨t.col - 1, Nat.lt_of_le_of_lt (Nat.sub_le _ _) t.col.isLt⟩ }
  else { t with
    row := ⟨t.row - 1, Nat.lt_of_le_of_lt (Nat.sub_le _ _) t.row.isLt⟩
    col := ⟨cols - 1, Nat.sub_lt (Nat.lt_of_le_of_lt (Nat.zero_le _) t.col.isLt) Nat.one_pos⟩ }

def backspace (blank : α) (t : Screen rows cols α) : Screen rows cols α :=
  if t.row.val = 0 ∧ t.col.val = 0 then t else t.back.write blank

end Screen

structure Shows {rows cols : Nat} {α : Type} (buf : Nat → α) (pos : Nat)
    (t : Screen rows cols α) : Prop where
  cells : ∀ (row : Fin rows) (col : Fin cols), buf (row * cols + col) = t.cell row col
  cursor : pos = t.row * cols + t.col

section Linear

variable {rows cols : Nat} {α : Type} {buf buf' : Nat → α} {pos : Nat} {t : Screen rows cols α}
  {value blank : α}

theorem index_mod (row : Nat) (col : Fin cols) : (row * cols + col) % cols = col := by
  rw [Nat.mul_comm, Nat.mul_add_mod, Nat.mod_eq_of_lt col.isLt]

theorem index_inj {row row' : Fin rows} {col col' : Fin cols}
    (same : row * cols + col = row' * cols + (col' : Nat)) : row = row' ∧ col = col' := by
  have columns := congrArg (· % cols) same
  simp only [index_mod] at columns
  have positive : 0 < cols := Nat.lt_of_le_of_lt (Nat.zero_le _) col.isLt
  have rows' : row * cols = (row' : Nat) * cols := by omega
  exact ⟨Fin.ext (Nat.eq_of_mul_eq_mul_right positive rows'), Fin.ext columns⟩

theorem index_lt (row : Fin rows) (col : Fin cols) : row * cols + col < rows * cols :=
  calc row * cols + (col : Nat) < row * cols + cols := Nat.add_lt_add_left col.isLt _
    _ = (row + 1) * cols := (Nat.succ_mul _ _).symm
    _ ≤ rows * cols := Nat.mul_le_mul_right _ row.isLt

theorem below_iff (row : Fin rows) (positive : 0 < cols) :
    row * cols + cols < rows * cols ↔ row + 1 < rows := by
  rw [← Nat.succ_mul]
  exact Nat.mul_lt_mul_right positive

namespace Shows

theorem pos_lt (shows : Shows buf pos t) : pos < rows * cols := shows.cursor ▸ index_lt _ _

theorem cols_pos (_ : Shows buf pos t) : 0 < cols :=
  Nat.lt_of_le_of_lt (Nat.zero_le _) t.col.isLt

theorem rowStart (shows : Shows buf pos t) : pos - pos % cols = t.row * cols := by
  rw [shows.cursor, index_mod, Nat.add_sub_cancel]

theorem write (shows : Shows buf pos t) (value : α) :
    Shows (Function.update buf pos value) pos (t.write value) := by
  refine ⟨fun row col => ?_, shows.cursor⟩
  rw [Screen.write, shows.cursor]
  by_cases here : row = t.row ∧ col = t.col
  · rw [here.1, here.2, Function.update_self]
    exact (if_pos ⟨rfl, rfl⟩).symm
  · rw [Function.update_of_ne fun same => here (index_inj same), shows.cells]
    exact (if_neg here).symm

theorem carriageReturn (shows : Shows buf pos t) :
    Shows buf (pos - pos % cols) t.carriageReturn :=
  ⟨shows.cells, shows.rowStart⟩

structure Scrolled (rows cols : Nat) (blank : α) (buf buf' : Nat → α) : Prop where
  up : ∀ i < (rows - 1) * cols, buf' i = buf (i + cols)
  last : ∀ i, (rows - 1) * cols ≤ i → i < rows * cols → buf' i = blank

theorem Scrolled.cells (scrolled : Scrolled rows cols blank buf buf') (shows : Shows buf pos t)
    (row : Fin rows) (col : Fin cols) :
    buf' (row * cols + col) = (t.scroll blank).cell row col := by
  rw [Screen.scroll]
  dsimp only
  by_cases below : row + 1 < rows
  · have above : row * cols + col < (rows - 1) * cols :=
      index_lt (⟨row, by omega⟩ : Fin (rows - 1)) col
    rw [dif_pos below, scrolled.up _ above, Nat.add_right_comm, ← Nat.succ_mul]
    exact shows.cells ⟨row + 1, below⟩ col
  · have bottom : (row : Nat) = rows - 1 := by omega
    rw [dif_neg below]
    exact scrolled.last _ (by rw [bottom]; exact Nat.le_add_right _ _) (index_lt row col)

theorem newline_below (shows : Shows buf pos t)
    (below : pos - pos % cols + cols < rows * cols) (blank : α) :
    Shows buf (pos - pos % cols + cols) (t.newline blank) := by
  rw [shows.rowStart, below_iff _ shows.cols_pos] at below
  rw [Screen.newline, dif_pos below]
  refine ⟨shows.cells, ?_⟩
  rw [shows.rowStart, ← Nat.succ_mul]
  rfl

theorem newline_scroll (shows : Shows buf pos t)
    (last : rows * cols ≤ pos - pos % cols + cols)
    (scrolled : Scrolled rows cols blank buf buf') :
    Shows buf' (pos - pos % cols) (t.newline blank) := by
  rw [shows.rowStart, ← Nat.not_lt, below_iff _ shows.cols_pos] at last
  rw [Screen.newline, dif_neg last]
  exact ⟨scrolled.cells shows.carriageReturn, shows.rowStart⟩

theorem rowEnd (shows : Shows buf pos t) (last : ¬t.col + 1 < cols) :
    pos - pos % cols + cols = pos + 1 := by
  have inside := t.col.isLt
  rw [shows.rowStart, shows.cursor]
  omega

theorem advance_inside (shows : Shows buf pos t) (inside : pos + 1 < rows * cols) (blank : α) :
    Shows buf (pos + 1) (t.advance blank) := by
  rw [Screen.advance]
  by_cases more : t.col + 1 < cols
  · rw [dif_pos more]
    exact ⟨shows.cells, congrArg (· + 1) shows.cursor⟩
  · have rowEnd := shows.rowEnd more
    rw [dif_neg more, ← rowEnd]
    exact shows.newline_below (by rwa [rowEnd]) blank

theorem advance_scroll (shows : Shows buf pos t) (last : rows * cols ≤ pos + 1)
    (scrolled : Scrolled rows cols blank buf buf') :
    Shows buf' (pos + 1 - cols) (t.advance blank) := by
  have more : ¬t.col + 1 < cols := by
    intro more
    have inside := index_lt t.row ⟨t.col + 1, more⟩
    have cursor := shows.cursor
    dsimp only at inside
    omega
  have rowEnd := shows.rowEnd more
  rw [Screen.advance, dif_neg more, ← rowEnd, Nat.add_sub_cancel]
  exact shows.newline_scroll (by rwa [rowEnd]) scrolled

theorem backspace_origin (shows : Shows buf pos t) (origin : pos = 0) (blank : α) :
    t.backspace blank = t := by
  have cursor := shows.cursor
  have row : t.row * cols = 0 := by omega
  have positive := shows.cols_pos
  rcases Nat.mul_eq_zero.mp row with zero | none
  · exact if_pos ⟨zero, by omega⟩
  · omega

theorem back (shows : Shows buf pos t) (behind : 0 < pos) : Shows buf (pos - 1) t.back := by
  have cursor := shows.cursor
  rw [Screen.back]
  by_cases some : 0 < t.col.val
  · rw [if_pos some]
    refine ⟨shows.cells, ?_⟩
    dsimp only
    omega
  · rw [if_neg some]
    refine ⟨shows.cells, ?_⟩
    have above : 0 < t.row.val := by
      rcases Nat.eq_zero_or_pos t.row.val with zero | above
      · rw [zero, Nat.zero_mul] at cursor
        omega
      · exact above
    have positive := shows.cols_pos
    have rowAbove : t.row * cols = (t.row - 1) * cols + cols := by
      rw [← Nat.succ_mul, Nat.succ_eq_add_one, Nat.sub_add_cancel above]
    dsimp only
    omega

theorem backspace (shows : Shows buf pos t) (behind : 0 < pos) (blank : α) :
    Shows (Function.update buf (pos - 1) blank) (pos - 1) (t.backspace blank) := by
  have notOrigin : ¬(t.row.val = 0 ∧ t.col.val = 0) := by
    rintro ⟨row, col⟩
    have cursor := shows.cursor
    rw [row, col, Nat.zero_mul] at cursor
    omega
  rw [Screen.backspace, if_neg notOrigin]
  exact (shows.back behind).write blank

end Shows

end Linear

/-! Blanks that are typed -/

namespace Screen

variable {rows cols n : Nat} {α : Type} {t : Screen rows cols α} {blank value : α}

def pos (t : Screen rows cols α) : Nat := t.row * cols + t.col

theorem pos_lt (t : Screen rows cols α) : t.pos < rows * cols := index_lt _ _

theorem write_cell (row : Fin rows) (col : Fin cols) : (t.write value).cell row col =
    if row * cols + col = t.pos then value else t.cell row col := by
  have here : row = t.row ∧ col = t.col ↔ row * cols + col = t.pos :=
    ⟨fun ⟨first, second⟩ => by rw [first, second, pos], index_inj⟩
  simp only [write, here]

theorem scroll_cell (row : Fin rows) (col : Fin cols) : (t.scroll blank).cell row col =
    if below : row + 1 < rows then t.cell ⟨row + 1, below⟩ col else blank := rfl

theorem type_cases (blank value : α) (t : Screen rows cols α) :
    (t.type blank value).cell = (t.write value).cell ∧ (t.type blank value).pos = t.pos + 1 ∨
      (t.type blank value).cell = ((t.write value).scroll blank).cell ∧
        (t.type blank value).pos + cols = t.pos + 1 ∧ rows * cols = t.pos + 1 := by
  have inside := t.col.isLt
  rw [type, advance]
  by_cases more : t.col + 1 < cols
  · left
    have next : (t.write value).col + 1 < cols := more
    rw [dif_pos next]
    exact ⟨rfl, rfl⟩
  · have last : ¬(t.write value).col + 1 < cols := more
    have rowEnd : (t.row + 1) * cols = t.pos + 1 := by
      rw [Nat.succ_mul, pos]
      omega
    rw [dif_neg last, newline]
    by_cases below : t.row + 1 < rows
    · left
      have next : (t.write value).row + 1 < rows := below
      rw [dif_pos next]
      exact ⟨rfl, rowEnd⟩
    · right
      have bottom : ¬(t.write value).row + 1 < rows := below
      have rowsEnd : (t.row + 1) * cols = rows * cols :=
        congrArg (· * cols) (Nat.le_antisymm t.row.isLt (Nat.not_lt.mp below))
      rw [dif_neg bottom, ← rowsEnd, ← rowEnd]
      exact ⟨rfl, (Nat.succ_mul _ _).symm, rfl⟩

def BlankBehind (blank : α) (n : Nat) (t : Screen rows cols α) : Prop :=
  ∀ (row : Fin rows) (col : Fin cols), row * cols + col < t.pos →
    t.pos ≤ row * cols + col + n → t.cell row col = blank

def BlankAhead (blank : α) (t : Screen rows cols α) : Prop :=
  rows * cols ≤ t.pos + cols ∧
    ∀ (row : Fin rows) (col : Fin cols), t.pos ≤ row * cols + col → t.cell row col = blank

theorem BlankBehind.type (behind : BlankBehind blank n t) :
    BlankBehind blank (n + 1) (t.type blank blank) := by
  intro row col before near
  rcases type_cases blank blank t with ⟨cells, moved⟩ | ⟨cells, moved, _⟩
  · rw [cells, write_cell]
    split
    · rfl
    · exact behind row col (by omega) (by omega)
  · rw [cells, scroll_cell]
    split
    · rename_i below
      have down : (row + 1) * cols + col = row * cols + cols + (col : Nat) := by
        rw [Nat.succ_mul]
      rw [write_cell]
      dsimp only
      split
      · rfl
      · exact behind ⟨row + 1, below⟩ col (by dsimp only; omega) (by dsimp only; omega)
    · rfl

theorem blankAhead_of_scrolled {u : Screen rows cols α}
    (cells : u.cell = ((t.write value).scroll blank).cell) (moved : u.pos + cols = t.pos + 1)
    (last : rows * cols = t.pos + 1) : BlankAhead blank u := by
  refine ⟨by omega, fun row col from_ => ?_⟩
  have outside : ¬row + 1 < rows := by
    intro below
    have down := index_lt ⟨row + 1, below⟩ col
    rw [Nat.succ_mul] at down
    omega
  rw [cells, scroll_cell, dif_neg outside]

theorem BlankAhead.type (ahead : BlankAhead blank t) : BlankAhead blank (t.type blank blank) := by
  obtain ⟨bottom, blanks⟩ := ahead
  rcases type_cases blank blank t with ⟨cells, moved⟩ | ⟨cells, moved, last⟩
  · refine ⟨by omega, fun row col from_ => ?_⟩
    rw [cells, write_cell, if_neg (by omega)]
    exact blanks row col (by omega)
  · exact blankAhead_of_scrolled cells moved last

structure BlankAtEnd (blank : α) (t : Screen rows cols α) : Prop where
  cells : ∀ row col, t.cell row col = blank
  lastRow : t.row + 1 = rows

theorem blankAhead_or_moved (blank : α) (t : Screen rows cols α) (n : Nat) :
    BlankAhead blank ((type blank blank)^[n] t) ∨
      ((type blank blank)^[n] t).pos = t.pos + n := by
  induction n with
  | zero => exact Or.inr rfl
  | succ n ih =>
      rw [Function.iterate_succ_apply']
      rcases ih with ahead | moved
      · exact Or.inl ahead.type
      · rcases type_cases blank blank ((type blank blank)^[n] t) with
          ⟨_, next⟩ | ⟨cells, next, last⟩
        · exact Or.inr (by omega)
        · exact Or.inl (blankAhead_of_scrolled cells next last)

theorem blankBehind_iterate (blank : α) (t : Screen rows cols α) (n : Nat) :
    BlankBehind blank n ((type blank blank)^[n] t) := by
  induction n with
  | zero =>
      intro row col before near
      omega
  | succ n ih =>
      rw [Function.iterate_succ_apply']
      exact ih.type

/-- On a blank screen only the column changes. -/
theorem BlankAtEnd.iterate (blanks : BlankAtEnd blank t) (n : Nat) :
    BlankAtEnd blank ((type blank blank)^[n] t) ∧
      ((type blank blank)^[n] t).col.val = (t.col + n) % cols := by
  induction n with
  | zero => exact ⟨blanks, (Nat.mod_eq_of_lt t.col.isLt).symm⟩
  | succ n ih =>
      rw [Function.iterate_succ_apply', ← Nat.add_assoc]
      generalize (type blank blank)^[n] t = u at ih
      obtain ⟨⟨cells, lastRow⟩, column⟩ := ih
      have inside := u.col.isLt
      have written : ∀ row col, (u.write blank).cell row col = blank := by
        intro row col
        rw [write_cell, cells, ite_self]
      have next : (t.col + n + 1) % cols = (u.col + 1) % cols := by
        rw [column, Nat.mod_add_mod]
      rw [next, type, advance]
      by_cases more : u.col + 1 < cols
      · have stays : (u.write blank).col + 1 < cols := more
        rw [dif_pos stays, Nat.mod_eq_of_lt more]
        exact ⟨⟨written, lastRow⟩, rfl⟩
      · have ends : ¬(u.write blank).col + 1 < cols := more
        have bottom : ¬(u.write blank).row + 1 < rows := fun below =>
          absurd (Nat.lt_of_lt_of_eq below lastRow.symm) (Nat.lt_irrefl _)
        have full : u.col + 1 = cols := Nat.le_antisymm inside (Nat.not_lt.mp more)
        rw [dif_neg ends, newline, dif_neg bottom, full, Nat.mod_self]
        refine ⟨⟨fun row col => ?_, lastRow⟩, rfl⟩
        rw [scroll_cell]
        split
        · exact written _ _
        · rfl

/-- Typed blanks leave everything as it is only if there are none; or if they fill whole rows of a
screen that is blank already and has its cursor in the last row. -/
theorem iterate_type_eq_iff (blank : α) (t : Screen rows cols α) (n : Nat) :
    (type blank blank)^[n] t = t ↔ n = 0 ∨ cols ∣ n ∧ BlankAtEnd blank t := by
  have column := t.col.isLt
  constructor
  · intro fixed
    by_cases none : n = 0
    · exact Or.inl none
    right
    -- The same again, until each cell has been typed over.
    have again : (type blank blank)^[n * (rows * cols)] t = t := by
      rw [Function.iterate_mul]
      exact Function.iterate_fixed fixed _
    have inside := t.pos_lt
    have enough : rows * cols ≤ n * (rows * cols) :=
      Nat.le_mul_of_pos_left _ (Nat.pos_of_ne_zero none)
    have behind := blankBehind_iterate blank t (n * (rows * cols))
    have ahead := blankAhead_or_moved blank t (n * (rows * cols))
    rw [again] at behind ahead
    obtain ⟨bottom, blanks⟩ := ahead.resolve_right (by omega)
    have all : BlankAtEnd blank t := by
      refine ⟨fun row col => ?_, ?_⟩
      · by_cases before : row * cols + col < t.pos
        · exact behind row col before (by omega)
        · exact blanks row col (Nat.not_lt.mp before)
      · by_contra other
        have below : t.row + 1 < rows := Nat.lt_of_le_of_ne t.row.isLt other
        have down := index_lt ⟨t.row + 1, below⟩ t.col
        rw [pos] at bottom
        rw [Nat.succ_mul] at down
        omega
    have moved := (all.iterate n).2
    rw [fixed] at moved
    have same : t.col + n ≡ t.col + 0 [MOD cols] := by
      rw [Nat.ModEq, ← moved, Nat.add_zero, Nat.mod_eq_of_lt column]
    exact ⟨(Nat.modEq_zero_iff_dvd).mp (Nat.ModEq.add_left_cancel' _ same), all⟩
  · rintro (rfl | ⟨⟨k, rfl⟩, all⟩)
    · rfl
    · obtain ⟨⟨cells, lastRow⟩, moved⟩ := all.iterate (cols * k)
      rw [Nat.add_mul_mod_self_left, Nat.mod_eq_of_lt column] at moved
      generalize (type blank blank)^[cols * k] t = u at cells lastRow moved
      obtain ⟨cell, row, col⟩ := t
      obtain ⟨cell', row', col'⟩ := u
      have blanks := all.cells
      have bottom := all.lastRow
      simp only [Screen.mk.injEq]
      refine ⟨?_, Fin.ext (Nat.succ.inj (lastRow.trans bottom.symm)), Fin.ext moved⟩
      funext r c
      exact (cells r c).trans (blanks r c).symm

end Screen

end ScreenTerminal
