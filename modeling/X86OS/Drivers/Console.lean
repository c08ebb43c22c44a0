import X86OS.Drivers.Screen

set_option autoImplicit false

namespace X86OS.Drivers

open Mem

-- The text on a page of 80 columns that has no end, with the row its last character was put on.
structure Page where
  char : Nat → Nat → UInt8
  row : Nat
  col : Nat
  last : Nat

namespace Page

def empty : Page := ⟨fun _ _ => space, 0, 0, 0⟩

def nextRow (p : Page) : Page := { p with row := p.row + 1, col := 0, last := p.row }

def write (p : Page) (c : UInt8) : Page :=
  { p with char := fun row col => if row = p.row ∧ col = p.col then c else p.char row col }

def put (p : Page) (c : UInt8) : Page :=
  if c = newline then p.nextRow
  else if p.col + 1 = 80 then (p.write c).nextRow
  else { p.write c with col := p.col + 1, last := p.row }

def layout (text : List UInt8) : Page := text.foldl put empty

-- The first row on the screen.
def top (p : Page) : Nat := p.last - 24

end Page

structure Window (s : Screen) (p : Page) : Prop where
  row : s.row + p.top = p.row
  col : s.col = p.col
  started : p.last ≤ p.row
  near : p.row ≤ p.last + 1
  turned : p.last < p.row → p.col = 0
  chars : ∀ r < 25, ∀ c < 80, (s.ink r c).char = p.char (p.top + r) c
  ahead : ∀ r c, p.row < r ∨ (p.row = r ∧ p.col ≤ c) → p.char r c = space

theorem window_clear (color : UInt8) : Window (Screen.cleared color) Page.empty :=
  ⟨rfl, rfl, Nat.le_refl 0, Nat.zero_le 1, fun _ => rfl, fun _ _ _ _ => rfl, fun _ _ _ => rfl⟩

theorem window_room (s : Screen) (p : Page) (window : Window s p) (rowBound : s.row ≤ 25) :
    s.room.row + (p.row - 24) = p.row ∧ s.room.col = p.col ∧
      ∀ r < 25, ∀ c < 80, (s.room.ink r c).char = p.char (p.row - 24 + r) c := by
  have row := window.row
  have started := window.started
  have near := window.near
  rw [Page.top] at row
  rw [Screen.room]
  split
  · have scrolled : p.row - 24 = p.last - 24 + 1 := by omega
    refine ⟨by simp only; omega, window.col, ?_⟩
    intro r rBound c cBound
    simp only [Screen.scroll]
    split
    · rw [window.chars (r + 1) (by omega) c cBound, Page.top, scrolled, Nat.add_assoc, Nat.add_comm 1]
    · have blank := window.ahead (p.row - 24 + r) c (.inr ⟨by omega, by rw [window.turned (by omega)]; omega⟩)
      exact blank.symm
  · have same : p.row - 24 = p.last - 24 := by omega
    refine ⟨by omega, window.col, ?_⟩
    rw [same]
    exact window.chars

theorem window_next_row (s : Screen) (p : Page) (row : s.row + (p.row - 24) = p.row)
    (chars : ∀ r < 25, ∀ c < 80, (s.ink r c).char = p.char (p.row - 24 + r) c)
    (ahead : ∀ r c, p.row < r → p.char r c = space) :
    Window s.nextRow p.nextRow := by
  refine ⟨?_, rfl, Nat.le_succ _, Nat.le_refl _, fun _ => rfl, chars, ?_⟩
  · simp only [Screen.nextRow, Page.nextRow, Page.top]
    omega
  · intro r c later
    simp only [Page.nextRow] at later
    exact ahead r c (by omega)

theorem window_putc (s : Screen) (p : Page) (window : Window s p) (rowBound : s.row ≤ 25) (c : UInt8) :
    Window (s.putc c) (p.put c) := by
  obtain ⟨row, col, chars⟩ := window_room s p window rowBound
  rw [Screen.putc, Page.put]
  by_cases turn : c = newline
  · rw [if_pos turn, if_pos turn]
    exact window_next_row _ p row chars (fun r c later => window.ahead r c (.inl later))
  · rw [if_neg turn, if_neg turn]
    have chars' : ∀ r < 25, ∀ k < 80,
        ((s.room.place s.room.row s.room.col c).ink r k).char = (p.write c).char (p.row - 24 + r) k := by
      intro r rBound k kBound
      simp only [Screen.place, Page.write]
      by_cases here : r = s.room.row ∧ k = s.room.col
      · rw [if_pos here, if_pos ⟨by omega, by omega⟩]
      · rw [if_neg here, if_neg (by omega)]
        exact chars r rBound k kBound
    have ahead : ∀ r k, p.row < r ∨ (p.row = r ∧ p.col < k) → (p.write c).char r k = space := by
      intro r k later
      simp only [Page.write]
      rw [if_neg (by omega)]
      exact window.ahead r k (by omega)
    have place : (s.room.place s.room.row s.room.col c).col = p.col := col
    rw [Screen.nextCol, place]
    split
    · exact window_next_row _ (p.write c) row chars' (fun r k later => ahead r k (.inl later))
    · refine ⟨row, rfl, Nat.le_refl _, Nat.le_succ _, fun less => absurd less (Nat.lt_irrefl _), chars', ?_⟩
      intro r k later
      exact ahead r k later

-- Only the screen is written to.
structure Inside (v v' : Vga) : Prop where
  indices : ∃ new, v'.written = new ++ v.written ∧ ∀ i ∈ new, i < 80 * 25
  frame : ∀ x, x < vgaMemory ∨ vgaMemory + 2 * (80 * 25) ≤ x → v'.mem x = v.mem x

theorem inside_refl (v : Vga) : Inside v v := ⟨⟨[], rfl, by simp⟩, fun _ _ => rfl⟩

theorem inside_trans (v v' v'' : Vga) (first : Inside v v') (second : Inside v' v'') : Inside v v'' := by
  obtain ⟨new, written, below⟩ := first.indices
  obtain ⟨new', written', below'⟩ := second.indices
  refine ⟨⟨new' ++ new, by rw [written', written, List.append_assoc], ?_⟩, ?_⟩
  · intro i member
    exact (List.mem_append.mp member).elim (below' i) (below i)
  · intro x outside
    rw [second.frame x outside, first.frame x outside]

theorem inside_clear (v : Vga) : Inside v (vgaClear v) := by
  refine ⟨⟨[], rfl, by simp⟩, ?_⟩
  intro x outside
  rw [vga_clear_mem, fill_halves_frame _ _ _ _ _ (by omega)]

theorem inside_room (v : Vga) : Inside v (makeRoom v) := by
  rw [makeRoom]
  split
  · refine ⟨⟨[], rfl, by simp⟩, ?_⟩
    intro x outside
    simp only [vga_scroll_mem]
    generalize vgaMemory = base at outside ⊢
    rw [fill_halves_frame _ _ _ _ _ (by omega), copy_frame _ _ _ _ _ (by omega)]
  · exact inside_refl v

theorem inside_store (v : Vga) (i value : Nat) (below : i < 80 * 25) : Inside v (storeCell i value v) := by
  refine ⟨⟨[i], rfl, by simpa using below⟩, ?_⟩
  intro x outside
  exact write_half_frame _ _ _ _ (by omega)

theorem inside_next_col (v : Vga) : Inside v (nextCol v) := by
  simp only [nextCol]
  split <;> exact ⟨⟨[], rfl, by simp⟩, fun _ _ => rfl⟩

theorem inside_putc (v : Vga) (s : Screen) (shows : Shows v s) (c : UInt8) : Inside v (vgaPutc c v) := by
  obtain ⟨room, inside⟩ := shows_room v s shows
  apply inside_trans v (makeRoom v) _ (inside_room v)
  have colBound := room.colBound
  rw [vgaPutc]
  split
  · exact ⟨⟨[], rfl, by simp⟩, fun _ _ => rfl⟩
  · have below : (makeRoom v).cursorRow * columns + (makeRoom v).cursorCol < 80 * 25 := by
      rw [room.row, room.col, columns]
      omega
    have stored :=
      inside_trans _ _ _ (inside_store (makeRoom v) _ (cell c (makeRoom v).vgaColor) below) (inside_next_col _)
    exact ⟨stored.indices, stored.frame⟩

def typed (v : Vga) (text : List UInt8) : Vga := text.foldl (fun v c => vgaPutc c v) v

theorem typed_window (text : List UInt8) (v : Vga) (s : Screen) (p : Page) (shows : Shows v s) (window : Window s p) :
    ∃ s', Shows (typed v text) s' ∧ Window s' (text.foldl Page.put p) ∧ Inside v (typed v text) := by
  induction text generalizing v s p with
  | nil => exact ⟨s, shows, window, inside_refl v⟩
  | cons c rest ih =>
      obtain ⟨s', shows', window', inside⟩ := ih (vgaPutc c v) (s.putc c) (p.put c) (shows_putc v s shows c)
        (window_putc s p window shows.rowBound c)
      exact ⟨s', shows', window', inside_trans _ _ _ (inside_putc v s shows c) inside⟩

-- The screen is a window of the page that ends with the row of the last character.
theorem console_shows_window (v : Vga) (text : List UInt8) :
    (∀ r < 25, ∀ c < 80, cellChar (typed (vgaClear v) text).mem r c =
      (Page.layout text).char ((Page.layout text).last - 24 + r) c) ∧
    (typed (vgaClear v) text).cursorRow ≤ 25 ∧ (typed (vgaClear v) text).cursorCol < 80 ∧
      Inside v (typed (vgaClear v) text) := by
  obtain ⟨s, shows, window, inside⟩ := typed_window text (vgaClear v) _ _ (shows_clear v) (window_clear v.vgaColor)
  refine ⟨?_, ?_, ?_, inside_trans _ _ _ (inside_clear v) inside⟩
  · intro r rowBound c colBound
    rw [(shows.cells r rowBound c colBound).1]
    exact window.chars r rowBound c colBound
  · rw [shows.row]
    exact shows.rowBound
  · rw [shows.col]
    exact shows.colBound

end X86OS.Drivers
