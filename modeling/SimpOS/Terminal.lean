import SimpOS.Machine
import SimpOS.Runs
import Mathlib.Logic.Function.Basic

/-!
The terminal, `terminal/terminal.c`: characters are written at a cursor of two 16-bit
coordinates. Nothing scrolls, so that the cursor leaves the screen after the last row; and a
backspace at the start of a row writes its blank at the end of the row above, from where
the cursor wraps before it is moved back.
-/
namespace SimpOS.Terminal
open SimpOS.Machine SimpOS.Runs

@[simp] abbrev VGA_WIDTH : Nat := 80
@[simp] abbrev VGA_HEIGHT : Nat := 20
@[simp] abbrev COLOR_WHITE : UInt8 := 15
@[simp] abbrev COLOR_BLACK : UInt8 := 0

/-- The value a `uint16_t` holds after storing x. -/
def u16 (x : Int) : Nat := (x % 65536).toNat

/-- The terminal's variables; written lists the indices of video_mem written to, the latest first. -/
structure Screen where
  video_mem : Nat → UInt16
  terminal_row : Nat
  terminal_column : Nat
  written : List Nat

/-- Both characters are signed and extended to the width of the shift. -/
def terminal_make_char (c color : UInt8) : UInt16 :=
  ((color.toInt8.toInt16 <<< 8) ||| c.toInt8.toInt16).toUInt16

def terminal_putchar (x y : Nat) (c color : UInt8) (s : Screen) : Screen :=
  let index := y * VGA_WIDTH + x
  { s with
    video_mem := Function.update s.video_mem index (terminal_make_char c color)
    written := index :: s.written }

/-- `terminal_writechar` for a character that is neither a newline nor a backspace. -/
def terminal_write_printable (c color : UInt8) (s : Screen) : Screen :=
  let s := terminal_putchar s.terminal_column s.terminal_row c color s
  let s := { s with terminal_column := u16 (s.terminal_column + 1) }
  if s.terminal_column ≥ VGA_WIDTH then
    { s with terminal_column := 0, terminal_row := u16 (s.terminal_row + 1) }
  else s

/-- The blank it writes is a printable character. -/
def terminal_backspace (s : Screen) : Screen :=
  if s.terminal_row = 0 ∧ s.terminal_column = 0 then s
  else
    let s := if s.terminal_column = 0 then
        { s with terminal_row := u16 ((s.terminal_row : Int) - 1), terminal_column := VGA_WIDTH }
      else s
    let s := { s with terminal_column := u16 ((s.terminal_column : Int) - 1) }
    let s := terminal_write_printable 32 15 s
    { s with terminal_column := u16 ((s.terminal_column : Int) - 1) }

def terminal_writechar (c color : UInt8) (s : Screen) : Screen :=
  if c = 10 then { s with terminal_column := 0, terminal_row := u16 (s.terminal_row + 1) }
  else if c = 0x08 then terminal_backspace s
  else terminal_write_printable c color s

/-- The backspace writes its blank as `terminal_writechar` does. -/
theorem terminal_write_blank (s : Screen) : terminal_write_printable 32 15 s = terminal_writechar 32 15 s := rfl

def print (str : List UInt8) (s : Screen) : Screen :=
  str.foldl (fun s c => terminal_writechar c COLOR_WHITE s) s

def terminal_initialize (s : Screen) : Screen :=
  let s := { s with terminal_row := 0, terminal_column := 0 }
  (List.range VGA_HEIGHT).foldl (fun s y =>
    (List.range VGA_WIDTH).foldl (fun s x => terminal_putchar x y 32 COLOR_BLACK s) s) s

/-! ### The cursor on the screen -/

/-- The cursor is on the screen, and so was every character written. -/
structure OnScreen (s : Screen) : Prop where
  column : s.terminal_column < VGA_WIDTH
  row : s.terminal_row < VGA_HEIGHT
  written : ∀ index, index ∈ s.written → index < VGA_WIDTH * VGA_HEIGHT

/-- A character and its color have been written. -/
def Written (s : Screen) (output : UInt8 × UInt8) (t : Screen) : Prop :=
  t = terminal_writechar output.1 output.2 s

/-- A newline has a row below it, a backspace is not at the start of a row other than the
    first, and a printable character is not in the last column of the last row. -/
def Fits (s : Screen) (output : UInt8 × UInt8) : Prop :=
  if output.1 = 10 then s.terminal_row + 1 < VGA_HEIGHT
  else if output.1 = 0x08 then s.terminal_column = 0 → s.terminal_row = 0
  else s.terminal_column + 1 < VGA_WIDTH ∨ s.terminal_row + 1 < VGA_HEIGHT

theorem u16_of_range {x : Int} (low : 0 ≤ x) (high : x < 65536) : u16 x = x.toNat := by
  unfold u16
  omega

section
variable {s t : Screen} {c color : UInt8}

theorem putchar_onScreen {x y : Nat} (on : OnScreen s) (column : x < VGA_WIDTH) (row : y < VGA_HEIGHT) :
    OnScreen (terminal_putchar x y c color s) := by
  refine ⟨on.column,on.row,fun index among => ?_⟩
  rcases List.mem_cons.mp among with rfl | old
  · simp only [VGA_WIDTH,VGA_HEIGHT] at column row ⊢
    omega
  · exact on.written index old

theorem write_printable_along (along : s.terminal_column + 1 < VGA_WIDTH) : terminal_write_printable c color s =
    { terminal_putchar s.terminal_column s.terminal_row c color s with terminal_column := s.terminal_column + 1 } := by
  have next : u16 (s.terminal_column + 1) = s.terminal_column + 1 := by
    simp only [VGA_WIDTH] at along
    rw [u16_of_range (by omega) (by omega)]
    omega
  unfold terminal_write_printable
  dsimp only [terminal_putchar]
  rw [next,if_neg (Nat.not_le_of_lt along)]

theorem write_printable_wraps (last : s.terminal_column + 1 = VGA_WIDTH) : terminal_write_printable c color s =
    { terminal_putchar s.terminal_column s.terminal_row c color s with
      terminal_column := 0, terminal_row := u16 (s.terminal_row + 1) } := by
  have next : u16 (s.terminal_column + 1) = VGA_WIDTH := by
    have cast : (s.terminal_column : Int) + 1 = (VGA_WIDTH : Nat) := by exact_mod_cast last
    rw [cast]
    rfl
  unfold terminal_write_printable
  dsimp only [terminal_putchar]
  rw [next,if_pos (Nat.le_refl _)]

/-- A backspace within a row moves back and blanks. -/
theorem backspace_within (column : s.terminal_column < VGA_WIDTH) (within : s.terminal_column ≠ 0) : terminal_backspace s =
    { terminal_putchar (s.terminal_column - 1) s.terminal_row 32 15 s with terminal_column := s.terminal_column - 1 } := by
  simp only [VGA_WIDTH] at column
  have back : u16 ((s.terminal_column : Int) - 1) = s.terminal_column - 1 := by
    rw [u16_of_range (by omega) (by omega)]
    omega
  unfold terminal_backspace
  dsimp only
  rw [if_neg fun start => within start.2,if_neg within,back,write_printable_along (by simp only [VGA_WIDTH]; omega)]
  dsimp only [terminal_putchar]
  rw [Nat.sub_add_cancel (by omega),back]

/-- A backspace at the start of a later row leaves the cursor far outside. -/
theorem backspace_start (row : s.terminal_row ≠ 0) (start : s.terminal_column = 0) :
    (terminal_backspace s).terminal_column = 65535 := by
  unfold terminal_backspace
  dsimp only
  rw [if_neg fun both => row both.1,if_pos start]
  dsimp only
  rw [write_printable_wraps (by rfl)]
  rfl

theorem next_row (row : s.terminal_row < VGA_HEIGHT) : u16 (s.terminal_row + 1) = s.terminal_row + 1 := by
  simp only [VGA_HEIGHT] at row
  rw [u16_of_range (by omega) (by omega)]
  omega

/-- A character that fits leaves the cursor on the screen. -/
theorem writechar_onScreen (on : OnScreen s) (fits : Fits s (c,color)) : OnScreen (terminal_writechar c color s) := by
  unfold Fits at fits
  unfold terminal_writechar
  by_cases newline : c = 10
  · rw [if_pos newline] at fits ⊢
    exact ⟨Nat.zero_lt_succ _,by dsimp only; rw [next_row on.row]; exact fits,on.written⟩
  · rw [if_neg newline] at fits ⊢
    by_cases backspace : c = 0x08
    · rw [if_pos backspace] at fits ⊢
      by_cases start : s.terminal_column = 0
      · unfold terminal_backspace
        dsimp only at fits ⊢
        rw [if_pos ⟨fits start,start⟩]
        exact on
      · rw [backspace_within on.column start]
        have left : s.terminal_column - 1 < VGA_WIDTH := Nat.lt_of_le_of_lt (Nat.sub_le _ _) on.column
        have put : OnScreen (terminal_putchar (s.terminal_column - 1) s.terminal_row 32 15 s) := putchar_onScreen on left on.row
        exact ⟨left,put.row,put.written⟩
    · rw [if_neg backspace] at fits ⊢
      have put : OnScreen (terminal_putchar s.terminal_column s.terminal_row c color s) :=
        putchar_onScreen on on.column on.row
      by_cases along : s.terminal_column + 1 < VGA_WIDTH
      · rw [write_printable_along along]
        exact ⟨along,put.row,put.written⟩
      · have last : s.terminal_column + 1 = VGA_WIDTH := Nat.le_antisymm on.column (Nat.le_of_not_lt along)
        have below := fits.resolve_left along
        rw [write_printable_wraps last,next_row on.row]
        exact ⟨Nat.zero_lt_succ _,below,put.written⟩

/-- A character that does not fit leaves the cursor off the screen. -/
theorem writechar_offScreen (on : OnScreen s) (after : OnScreen (terminal_writechar c color s)) : Fits s (c,color) := by
  unfold Fits
  unfold terminal_writechar at after
  by_cases newline : c = 10
  · rw [if_pos newline] at after ⊢
    have row := after.row
    dsimp only at row
    rwa [next_row on.row] at row
  · rw [if_neg newline] at after ⊢
    by_cases backspace : c = 0x08
    · rw [if_pos backspace] at after ⊢
      intro start
      by_contra row
      have column := after.column
      rw [backspace_start row start] at column
      exact absurd column (by decide)
    · rw [if_neg backspace] at after ⊢
      by_cases along : s.terminal_column + 1 < VGA_WIDTH
      · exact .inl along
      · have last : s.terminal_column + 1 = VGA_WIDTH := Nat.le_antisymm on.column (Nat.le_of_not_lt along)
        have row := after.row
        rw [write_printable_wraps last] at row
        dsimp only at row
        rw [next_row on.row] at row
        exact .inr row

end

private theorem clear_row {y : Nat} (row : y < VGA_HEIGHT) {xs : List Nat} (columns : ∀ x, x ∈ xs → x < VGA_WIDTH)
    {s : Screen} (on : OnScreen s) : OnScreen (xs.foldl (fun s x => terminal_putchar x y 32 COLOR_BLACK s) s) := by
  induction xs generalizing s with
  | nil => exact on
  | cons x xs ih =>
    have put : OnScreen (terminal_putchar x y 32 COLOR_BLACK s) :=
      putchar_onScreen on (columns x List.mem_cons_self) row
    exact ih (fun z among => columns z (List.mem_cons_of_mem x among)) put

private theorem clear_rows {ys : List Nat} (rows : ∀ y, y ∈ ys → y < VGA_HEIGHT) {s : Screen} (on : OnScreen s) :
    OnScreen (ys.foldl (fun s y =>
      (List.range VGA_WIDTH).foldl (fun s x => terminal_putchar x y 32 COLOR_BLACK s) s) s) := by
  induction ys generalizing s with
  | nil => exact on
  | cons y ys ih =>
    have cleared := clear_row (rows y List.mem_cons_self) (fun x => List.mem_range.mp) on
    exact ih (fun z among => rows z (List.mem_cons_of_mem y among)) cleared

/-- Clearing the screen does not move the cursor. -/
theorem initialize_cursor (s : Screen) :
    ( terminal_initialize s).terminal_row = 0 ∧ ( terminal_initialize s).terminal_column = 0 := by
  have row_kept : ∀ (y : Nat) (xs : List Nat) (s : Screen),
      (xs.foldl (fun s x => terminal_putchar x y 32 COLOR_BLACK s) s).terminal_row = s.terminal_row ∧
      (xs.foldl (fun s x => terminal_putchar x y 32 COLOR_BLACK s) s).terminal_column = s.terminal_column := by
    intro y xs
    induction xs with
    | nil => exact fun s => ⟨rfl,rfl⟩
    | cons x xs ih => exact fun s => ih _
  have rows_kept : ∀ (ys xs : List Nat) (s : Screen),
      (ys.foldl (fun s y => xs.foldl (fun s x => terminal_putchar x y 32 COLOR_BLACK s) s) s).terminal_row =
        s.terminal_row ∧
      (ys.foldl (fun s y => xs.foldl (fun s x => terminal_putchar x y 32 COLOR_BLACK s) s) s).terminal_column =
        s.terminal_column := by
    intro ys xs
    induction ys with
    | nil => exact fun s => ⟨rfl,rfl⟩
    | cons y ys ih => exact fun s => ⟨(ih _).1.trans (row_kept y xs s).1,(ih _).2.trans (row_kept y xs s).2⟩
  exact rows_kept _ _ _

theorem initialize_onScreen (m : Nat → UInt16) (row column : Nat) :
    OnScreen ( terminal_initialize ⟨m,row,column,[]⟩) := by
  have start : OnScreen ⟨m,0,0,[]⟩ :=
    ⟨Nat.zero_lt_succ _,Nat.zero_lt_succ _,fun index among => absurd among List.not_mem_nil⟩
  have rows : ∀ y, y ∈ List.range VGA_HEIGHT → y < VGA_HEIGHT := fun y => List.mem_range.mp
  unfold terminal_initialize
  generalize List.range VGA_HEIGHT = ys at rows ⊢
  exact clear_rows rows start

/-- The moves that write the characters of a list in white. -/
def printed : List UInt8 → Screen → List ((UInt8 × UInt8) × Screen)
  | [], _ => []
  | c :: rest, s => ((c, COLOR_WHITE), terminal_writechar c COLOR_WHITE s) :: printed rest (terminal_writechar c COLOR_WHITE s)

theorem printed_run (str : List UInt8) (s : Screen) : Run Written s (printed str s) ∧ final s (printed str s) = print str s := by
  induction str generalizing s with
  | nil => exact ⟨trivial,rfl⟩
  | cons c rest ih =>
    obtain ⟨run,ends⟩ := ih (terminal_writechar c COLOR_WHITE s)
    exact ⟨⟨rfl,run⟩,ends⟩

/-- The cleared screen. -/
def cleared : Screen := terminal_initialize ⟨fun _ => 0, 0, 0, []⟩

/-- The cursor stays on the screen exactly as long as every character written fits. -/
theorem cursor_onScreen_iff {m : Nat → UInt16} {row column : Nat} {moves : List ((UInt8 × UInt8) × Screen)}
    (run : Run Written ( terminal_initialize ⟨m,row,column,[]⟩) moves) :
    Always OnScreen ( terminal_initialize ⟨m,row,column,[]⟩) moves ↔
      Each Fits ( terminal_initialize ⟨m,row,column,[]⟩) moves := by
  refine always_iff_each OnScreen ?_ (fun s on => on) ?_ (initialize_onScreen m row column) run
  · rintro s output t on rfl fits
    exact writechar_onScreen on fits
  · rintro s output t on rfl after
    exact writechar_offScreen on after

private theorem typed_fits {s : Screen} (row : s.terminal_row = 0) (column : s.terminal_column = 0) :
    Each Fits s (printed [104,10] s) := by
  have along : s.terminal_column + 1 < VGA_WIDTH := by rw [column]; decide
  refine ⟨.inl along,?_,trivial⟩
  show (terminal_write_printable 104 COLOR_WHITE s).terminal_row + 1 < VGA_HEIGHT
  rw [write_printable_along along]
  show s.terminal_row + 1 < VGA_HEIGHT
  rw [row]
  decide

theorem cursor_onScreen_typed : Always OnScreen cleared (printed [104,10] cleared) :=
  (cursor_onScreen_iff (printed_run [104,10] cleared).1).mpr
    (typed_fits (initialize_cursor _).1 (initialize_cursor _).2)

private theorem newline_backspace {s : Screen} (row : s.terminal_row = 0) :
    ¬Always OnScreen s (printed [10,0x08] s) := by
  intro always
  have after := always.2.2.column
  have newline : (terminal_writechar 10 COLOR_WHITE s).terminal_row ≠ 0 := by
    show u16 (s.terminal_row + 1) ≠ 0
    rw [row]
    decide
  have far := backspace_start newline rfl
  have outside : 65535 < VGA_WIDTH := far ▸ after
  exact absurd outside (by decide)

/-- A backspace after a newline puts the cursor in column 65535. -/
theorem cursor_leaves_screen : ¬Always OnScreen cleared (printed [10,0x08] cleared) :=
  newline_backspace (initialize_cursor _).1

/-! ### Characters that are taken back -/

/-- A character that is written at the cursor. -/
def Printable (c : UInt8) : Prop := c ≠ 10 ∧ c ≠ 0x08
instance (c : UInt8) : Decidable (Printable c) := inferInstanceAs (Decidable (_ ∧ _))

/-- The cell the cursor is at. -/
def cell (s : Screen) : Nat := s.terminal_row * VGA_WIDTH + s.terminal_column

/-- The cursor is where it was. -/
structure SameCursor (s t : Screen) : Prop where
  row : t.terminal_row = s.terminal_row
  column : t.terminal_column = s.terminal_column

/-- The cursor is back at its cell, that cell is blank and the others are as they were. -/
structure Undone (s t : Screen) : Prop where
  cursor : SameCursor s t
  blank : t.video_mem (cell s) = terminal_make_char 32 15
  others : ∀ index, index ≠ cell s → t.video_mem index = s.video_mem index

/-- The screen after the characters of a line, and after so many backspaces. -/
def typed (color : UInt8) (line : List UInt8) (s : Screen) : Screen :=
  line.foldl (fun s c => terminal_writechar c color s) s
def erased (color : UInt8) : Nat → Screen → Screen
  | 0, s => s
  | n + 1, s => erased color n (terminal_writechar 0x08 color s)

section
variable {s : Screen} {c color : UInt8}

theorem writechar_printable (printable : Printable c) : terminal_writechar c color s = terminal_write_printable c color s := by
  unfold terminal_writechar
  rw [if_neg printable.1,if_neg printable.2]

theorem writechar_backspace : terminal_writechar 0x08 color s = terminal_backspace s := rfl

/-- A character in the last column of a row is not taken back: the cursor has gone on to the next row. -/
theorem backspace_undoes_iff (column : s.terminal_column < VGA_WIDTH) (row : s.terminal_row < VGA_HEIGHT)
    (printable : Printable c) :
    Undone s (terminal_writechar 0x08 color (terminal_writechar c color s)) ↔ s.terminal_column + 1 < VGA_WIDTH := by
  rw [writechar_backspace,writechar_printable printable]
  by_cases along : s.terminal_column + 1 < VGA_WIDTH
  · refine iff_of_true ?_ along
    have put : (terminal_putchar s.terminal_column s.terminal_row c color s).terminal_row = s.terminal_row := rfl
    rw [write_printable_along along,backspace_within along (Nat.succ_ne_zero _)]
    refine ⟨⟨rfl,rfl⟩,Function.update_self _ _ _,fun index other => ?_⟩
    have place : index ≠ s.terminal_row * VGA_WIDTH + (s.terminal_column + 1 - 1) := by
      rw [Nat.add_sub_cancel]
      exact other
    exact (Function.update_of_ne place _ _).trans (Function.update_of_ne other _ _)
  · refine iff_of_false (fun undone => ?_) along
    have last : s.terminal_column + 1 = VGA_WIDTH := Nat.le_antisymm column (Nat.le_of_not_lt along)
    have same := undone.cursor.column
    rw [write_printable_wraps last,next_row row,backspace_start (Nat.succ_ne_zero _) rfl] at same
    rw [← same] at column
    exact absurd column (by decide)

/-! ### Lines -/

/-- Where one character leaves the cursor; a row is a 16-bit number. -/
theorem writechar_cursor (column : s.terminal_column < VGA_WIDTH) (row : s.terminal_row < 65536) (printable : Printable c) :
    (terminal_writechar c color s).terminal_column = (s.terminal_column + 1) % VGA_WIDTH ∧
    (terminal_writechar c color s).terminal_row = (s.terminal_row + (s.terminal_column + 1) / VGA_WIDTH) % 65536 := by
  rw [writechar_printable printable]
  by_cases along : s.terminal_column + 1 < VGA_WIDTH
  · rw [write_printable_along along,Nat.mod_eq_of_lt along,Nat.div_eq_of_lt along]
    exact ⟨rfl,(Nat.mod_eq_of_lt row).symm⟩
  · have last : s.terminal_column + 1 = VGA_WIDTH := Nat.le_antisymm column (Nat.le_of_not_lt along)
    rw [write_printable_wraps last,last]
    refine ⟨rfl,?_⟩
    show u16 (s.terminal_row + 1) = _
    unfold u16
    simp only [VGA_WIDTH]
    omega

theorem typed_cursor {line : List UInt8} (column : s.terminal_column < VGA_WIDTH) (row : s.terminal_row < 65536)
    (printable : ∀ c ∈ line, Printable c) :
    (typed color line s).terminal_column = (s.terminal_column + line.length) % VGA_WIDTH ∧
    (typed color line s).terminal_row = (s.terminal_row + (s.terminal_column + line.length) / VGA_WIDTH) % 65536 := by
  induction line generalizing s with
  | nil =>
    rw [List.length_nil,Nat.add_zero,Nat.mod_eq_of_lt column,Nat.div_eq_of_lt column]
    exact ⟨rfl,(Nat.mod_eq_of_lt row).symm⟩
  | cons c line ih =>
    obtain ⟨column',row'⟩ := @writechar_cursor s c color column row (printable c List.mem_cons_self)
    have inside : (terminal_writechar c color s).terminal_column < VGA_WIDTH := by
      rw [column']
      exact Nat.mod_lt _ (by decide)
    have low : (terminal_writechar c color s).terminal_row < 65536 := by
      rw [row']
      exact Nat.mod_lt _ (by decide)
    obtain ⟨across,down⟩ := ih inside low fun d member => printable d (List.mem_cons_of_mem _ member)
    rw [column',row'] at down
    rw [column'] at across
    simp only [VGA_WIDTH] at across down ⊢
    rw [List.length_cons]
    refine ⟨across.trans ?_,down.trans ?_⟩
    · omega
    · omega

/-- Backspaces within a row move the cursor back along it. -/
theorem erased_within (n m : Nat) : ∀ {s : Screen}, s.terminal_column < VGA_WIDTH → n ≤ s.terminal_column →
    ∃ t, erased color (n + m) s = erased color m t ∧ t.terminal_column = s.terminal_column - n ∧
      t.terminal_row = s.terminal_row := by
  induction n with
  | zero =>
    intro s column start
    exact ⟨s,by rw [Nat.zero_add],rfl,rfl⟩
  | succ n ih =>
    intro s column enough
    have back := backspace_within column (by omega)
    have left : (terminal_backspace s).terminal_column = s.terminal_column - 1 := by rw [back]
    obtain ⟨t,same,across,row⟩ := ih (s := terminal_backspace s) (by omega) (by omega)
    refine ⟨t,?_,by omega,row.trans (by rw [back]; rfl)⟩
    rw [← same,Nat.succ_add]
    rfl

/-- In the first row the cursor stays at its start. -/
theorem erased_corner (n : Nat) (column : s.terminal_column = 0) (row : s.terminal_row = 0) : erased color n s = s := by
  induction n with
  | zero => rfl
  | succ n ih =>
    have still : terminal_backspace s = s := if_pos ⟨row,column⟩
    rw [erased,writechar_backspace,still,ih]

theorem backspace_outside (far : s.terminal_column = 65535) : (terminal_backspace s).terminal_column = 65535 := by
  have beyond : ∀ t : Screen, t.terminal_column = 65534 → (terminal_write_printable 32 15 t).terminal_column = 0 := by
    intro t column
    unfold terminal_write_printable
    dsimp only [terminal_putchar]
    rw [column]
    rfl
  unfold terminal_backspace
  dsimp only
  rw [if_neg fun both => absurd (far.symm.trans both.2) (by decide),if_neg fun start => absurd (far.symm.trans start) (by decide)]
  rw [beyond _ (by dsimp only; rw [far]; rfl)]
  rfl

/-- From the start of another row the cursor leaves the screen and does not come back. -/
theorem erased_outside (n : Nat) (column : s.terminal_column = 0) (row : s.terminal_row ≠ 0) :
    (erased color (n + 1) s).terminal_column = 65535 := by
  have stays : ∀ (n : Nat) (t : Screen), t.terminal_column = 65535 → (erased color n t).terminal_column = 65535 := by
    intro n
    induction n with
    | zero => exact fun t far => far
    | succ n ih => exact fun t far => ih _ (backspace_outside far)
  exact stays n _ (backspace_start row column)

/-- Erasing a line restores the cursor exactly when the line has stayed in its row; but for one that starts in the
    corner and is so long that the rows have come round. -/
theorem erased_line_iff {line : List UInt8} (column : s.terminal_column < VGA_WIDTH) (row : s.terminal_row < VGA_HEIGHT)
    (printable : ∀ c ∈ line, Printable c) :
    SameCursor s (erased color line.length (typed color line s)) ↔
      s.terminal_column + line.length < VGA_WIDTH ∨
      s.terminal_row = 0 ∧ s.terminal_column = 0 ∧ line.length / VGA_WIDTH % 65536 = 0 := by
  have low : s.terminal_row < 65536 := Nat.lt_trans row (by decide)
  obtain ⟨across,down⟩ := @typed_cursor s color line column low printable
  have inside : (typed color line s).terminal_column < VGA_WIDTH := by
    rw [across]
    exact Nat.mod_lt _ (by decide)
  generalize typed color line s = u at across down inside ⊢
  simp only [VGA_WIDTH,VGA_HEIGHT] at across down column row ⊢
  by_cases along : s.terminal_column + line.length < 80
  · refine iff_of_true ?_ (.inl along)
    obtain ⟨t,same,back,stays⟩ := @erased_within color line.length 0 u inside (by omega)
    rw [← Nat.add_zero line.length,same]
    exact ⟨stays.trans (by omega),back.trans (by omega)⟩
  -- the backspaces come to the start of a later row with one at least left
  · obtain ⟨t,same,back,stays⟩ := @erased_within color u.terminal_column (line.length - u.terminal_column) u inside
      (Nat.le_refl _)
    rw [Nat.add_sub_cancel' (by omega)] at same
    rw [same]
    by_cases corner : u.terminal_row = 0
    · rw [erased_corner _ (by omega) (by omega)]
      constructor
      · rintro ⟨samerow,samecolumn⟩
        omega
      · rintro (short | ⟨first,start,_⟩)
        · omega
        · exact ⟨by omega,by omega⟩
    · obtain ⟨n,more⟩ : ∃ n, line.length - u.terminal_column = n + 1 := ⟨line.length - u.terminal_column - 1,by omega⟩
      have far := @erased_outside t color n (by omega) (by omega)
      rw [more]
      refine iff_of_false (fun restored => ?_) (by omega)
      have column' := restored.column
      omega

/-- A character is taken back by a backspace exactly where it does not fill its row, and a line exactly where it does not
    leave its row. -/
theorem backspace_undoes_when (column : s.terminal_column < VGA_WIDTH) (row : s.terminal_row < VGA_HEIGHT) :
    (∀ c color, Printable c → (Undone s (terminal_writechar 0x08 color (terminal_writechar c color s)) ↔
      s.terminal_column + 1 < VGA_WIDTH)) ∧
    ∀ line color, (∀ c ∈ line, Printable c) → (SameCursor s (erased color line.length (typed color line s)) ↔
      s.terminal_column + line.length < VGA_WIDTH ∨
      s.terminal_row = 0 ∧ s.terminal_column = 0 ∧ line.length / VGA_WIDTH % 65536 = 0) :=
  ⟨fun _ _ printable => backspace_undoes_iff column row printable,
    fun _ _ printable => erased_line_iff column row printable⟩

end

/-- The cursor at a place of the screen. -/
def cursorAt (row column : Nat) : Screen := ⟨fun _ => 0, row, column, []⟩

theorem backspace_undoes_along : Undone (cursorAt 3 5) (terminal_writechar 0x08 15 (terminal_writechar 97 15 (cursorAt 3 5))) ∧
    SameCursor (cursorAt 3 5) (erased 15 2 (typed 15 [97,98] (cursorAt 3 5))) := by
  have undoes := backspace_undoes_when (s := cursorAt 3 5) (by decide) (by decide)
  refine ⟨(undoes.1 97 15 (by decide)).mpr (by decide),(undoes.2 [97,98] 15 ?_).mpr (.inl (by decide))⟩
  exact List.forall_mem_cons.mpr ⟨by decide,List.forall_mem_singleton.mpr (by decide)⟩

/-- A character in the last column is not taken back. -/
theorem backspace_wraps : ¬Undone (cursorAt 3 79) (terminal_writechar 0x08 15 (terminal_writechar 97 15 (cursorAt 3 79))) :=
  fun undone => absurd ((backspace_undoes_iff (by decide) (by decide) (by decide)).mp undone) (by decide)

end SimpOS.Terminal
