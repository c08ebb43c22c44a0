import X86OS.Drivers.Vga

set_option autoImplicit false

namespace X86OS.Drivers

open Mem

-- The screen as it is meant: every cell has a character and the colour it was written in.
structure Ink where
  char : UInt8
  color : UInt8
deriving DecidableEq

structure Screen where
  ink : Nat → Nat → Ink
  row : Nat
  col : Nat
  color : UInt8

namespace Screen

def cleared (color : UInt8) : Screen := ⟨fun _ _ => ⟨space, color⟩, 0, 0, color⟩

def scroll (s : Screen) : Screen := { s with ink := fun r c => if r < 24 then s.ink (r + 1) c else ⟨space, s.color⟩ }

def place (row col : Nat) (char : UInt8) (s : Screen) : Screen :=
  { s with ink := fun r c => if r = row ∧ c = col then ⟨char, s.color⟩ else s.ink r c }

def nextRow (s : Screen) : Screen := { s with row := s.row + 1, col := 0 }

def nextCol (s : Screen) : Screen := if s.col + 1 = 80 then s.nextRow else { s with col := s.col + 1 }

-- A full screen makes room for the next character.
def room (s : Screen) : Screen := if s.row = 25 then { s.scroll with row := 24 } else s

def putc (char : UInt8) (s : Screen) : Screen :=
  if char = newline then s.room.nextRow else (s.room.place s.room.row s.room.col char).nextCol

end Screen

-- The video memory shows the screen, with what becomes of its colours.
structure Shows (v : Vga) (s : Screen) : Prop where
  color : v.vgaColor = s.color
  row : v.cursorRow = s.row
  col : v.cursorCol = s.col
  rowBound : s.row ≤ 25
  colBound : s.col < 80
  cells : ∀ r < 25, ∀ c < 80, cellChar v.mem r c = (s.ink r c).char ∧
    cellAttribute v.mem r c = shade (s.ink r c).char (s.ink r c).color

theorem shows_clear (v : Vga) : Shows (vgaClear v) (Screen.cleared v.vgaColor) := by
  refine ⟨rfl, rfl, rfl, Nat.zero_le 25, (by decide : 0 < 80), ?_⟩
  intro r rowBound c colBound
  rw [cellChar, cellAttribute, vga_clear_mem, fill_halves_low _ _ _ _ _ (by omega),
    fill_halves_high _ _ _ _ _ (by omega)]
  exact cell_bytes space v.vgaColor

theorem shows_scroll (v : Vga) (s : Screen) (shows : Shows v s) :
    Shows { vgaScroll v with cursorRow := 24 } { s.scroll with row := 24 } := by
  refine ⟨shows.color, rfl, shows.col, (by decide : 24 ≤ 25), shows.colBound, ?_⟩
  intro r rowBound c colBound
  simp only [cellChar, cellAttribute, vga_scroll_mem, Screen.scroll]
  by_cases last : r = 24
  · have low : vgaMemory + 2 * (r * 80 + c) = vgaMemory + 3840 + 2 * c := by omega
    rw [if_neg (by omega), low, fill_halves_low _ _ _ _ _ colBound, fill_halves_high _ _ _ _ _ colBound, shows.color]
    exact cell_bytes space s.color
  · have next : vgaMemory + 160 + (vgaMemory + 2 * (r * 80 + c) - vgaMemory) = vgaMemory + 2 * ((r + 1) * 80 + c) := by
      omega
    have next' : vgaMemory + 160 + (vgaMemory + 2 * (r * 80 + c) + 1 - vgaMemory) =
        vgaMemory + 2 * ((r + 1) * 80 + c) + 1 := by omega
    rw [if_pos (by omega), fill_halves_frame _ _ _ _ _ (by omega), fill_halves_frame _ _ _ _ _ (by omega), copy, copy,
      if_pos (by omega), if_pos (by omega), next, next']
    exact shows.cells (r + 1) (by omega) c colBound

theorem shows_store (v : Vga) (s : Screen) (shows : Shows v s) (row col : Nat) (char : UInt8) (rowBound : row < 25)
    (colBound : col < 80) :
    Shows (storeCell (row * 80 + col) (cell char v.vgaColor) v) (s.place row col char) := by
  refine ⟨shows.color, shows.row, shows.col, shows.rowBound, shows.colBound, ?_⟩
  intro r rBound c cBound
  simp only [cellChar, cellAttribute, storeCell, Screen.place]
  by_cases here : r = row ∧ c = col
  · obtain ⟨rfl, rfl⟩ := here
    obtain ⟨low, high⟩ := write_half_here v.mem (vgaMemory + 2 * (r * 80 + c)) (cell char v.vgaColor)
    rw [if_pos ⟨rfl, rfl⟩, low, high, shows.color]
    exact cell_bytes char s.color
  · rw [if_neg here, write_half_frame _ _ _ _ (by omega), write_half_frame _ _ _ _ (by omega)]
    exact shows.cells r rBound c cBound

theorem shows_next_row (v : Vga) (s : Screen) (shows : Shows v s) (inside : s.row < 25) :
    Shows (nextRow v) s.nextRow := by
  refine ⟨shows.color, ?_, rfl, inside, (by decide : 0 < 80), shows.cells⟩
  simp only [nextRow, Screen.nextRow, shows.row]
  omega

theorem shows_next_col (v : Vga) (s : Screen) (shows : Shows v s) (inside : s.row < 25) :
    Shows (nextCol v) s.nextCol := by
  have bound := shows.colBound
  have col : (v.cursorCol + 1) % 2 ^ 8 = s.col + 1 := by
    rw [shows.col]
    omega
  simp only [nextCol, Screen.nextCol, columns, col]
  split
  · exact shows_next_row v s shows inside
  · exact ⟨shows.color, shows.row, rfl, shows.rowBound, by simp only; omega, shows.cells⟩

theorem shows_room (v : Vga) (s : Screen) (shows : Shows v s) : Shows (makeRoom v) s.room ∧ s.room.row < 25 := by
  have bound := shows.rowBound
  rw [makeRoom, Screen.room, shows.row, rows]
  split
  · exact ⟨shows_scroll v s shows, (by decide : 24 < 25)⟩
  · exact ⟨shows, by omega⟩

theorem shows_cursor (v : Vga) (s : Screen) (shows : Shows v s) : Shows (vgaMoveCursor v) s :=
  ⟨shows.color, shows.row, shows.col, shows.rowBound, shows.colBound, shows.cells⟩

theorem shows_putc (v : Vga) (s : Screen) (shows : Shows v s) (c : UInt8) : Shows (vgaPutc c v) (s.putc c) := by
  obtain ⟨room, inside⟩ := shows_room v s shows
  rw [vgaPutc, Screen.putc]
  apply shows_cursor
  split
  · exact shows_next_row _ _ room inside
  · rw [room.row, room.col]
    exact shows_next_col _ _ (shows_store _ _ room s.room.row s.room.col c inside room.colBound) inside

-- The calls that change the screen or its colour. `vga_putc_at` stays on the screen.
inductive Call where
  | setColor (fg bg : VgaColor)
  | putc (c : UInt8)
  | puts (text : List UInt8)
  | putcAt (c : UInt8) (row : Fin 25) (col : Fin 80)

-- Their steps, with `vga_puts` taken apart.
inductive Stroke where
  | color (fg bg : VgaColor)
  | char (c : UInt8)
  | charAt (c : UInt8) (row : Fin 25) (col : Fin 80)

def Call.strokes : Call → List Stroke
  | setColor fg bg => [.color fg bg]
  | putc c => [.char c]
  | puts text => text.map .char
  | putcAt c row col => [.charAt c row col]

def perform (v : Vga) : Stroke → Vga
  | .color fg bg => vgaSetColor fg bg v
  | .char c => vgaPutc c v
  | .charAt c row col => vgaPutcAt c row col v

def Screen.draw (s : Screen) : Stroke → Screen
  | .color fg bg => { s with color := UInt8.ofNat (bg.code <<< 4 ||| fg.code) }
  | .char c => s.putc c
  | .charAt c row col => s.place row col c

theorem shows_stroke (v : Vga) (s : Screen) (shows : Shows v s) (stroke : Stroke) :
    Shows (perform v stroke) (s.draw stroke) := by
  cases stroke with
  | color fg bg => exact ⟨rfl, shows.row, shows.col, shows.rowBound, shows.colBound, shows.cells⟩
  | char c => exact shows_putc v s shows c
  | charAt c row col => exact shows_store v s shows row col c row.isLt col.isLt

-- Every cell has the attribute it was written with, in each state on the way.
def KeepsColors (v : Vga) (s : Screen) (strokes : List Stroke) : Prop :=
  ∀ done, done <+: strokes → ∀ r < 25, ∀ c < 80,
    cellAttribute (done.foldl perform v).mem r c = ((done.foldl Screen.draw s).ink r c).color

-- Characters from 0x80 on are written in bright white on bright white only.
def Plain : UInt8 → List Stroke → Prop
  | _, [] => True
  | _, .color fg bg :: rest => Plain (UInt8.ofNat (bg.code <<< 4 ||| fg.code)) rest
  | color, .char c :: rest => (c.toNat < 2 ^ 7 ∨ color = 0xFF) ∧ Plain color rest
  | color, .charAt c _ _ :: rest => (c.toNat < 2 ^ 7 ∨ color = 0xFF) ∧ Plain color rest

theorem shade_same_iff (c color : UInt8) : shade c color = color ↔ c.toNat < 2 ^ 7 ∨ color = 0xFF := by
  rw [shade]
  split
  · next small => exact ⟨fun _ => .inl small, fun _ => rfl⟩
  · next large => exact ⟨fun same => .inr same.symm, fun either => (either.resolve_left large).symm⟩

def Faithful (s : Screen) : Prop := ∀ r c, shade (s.ink r c).char (s.ink r c).color = (s.ink r c).color

theorem faithful_blank (color : UInt8) : shade space color = color := (shade_same_iff _ _).mpr (.inl (by decide))

theorem faithful_room (s : Screen) (faithful : Faithful s) : Faithful s.room ∧ s.room.color = s.color := by
  rw [Screen.room]
  split
  · refine ⟨?_, rfl⟩
    intro r c
    simp only [Screen.scroll]
    split
    · exact faithful (r + 1) c
    · exact faithful_blank s.color
  · exact ⟨faithful, rfl⟩

theorem faithful_place (s : Screen) (faithful : Faithful s) (row col : Nat) (char : UInt8)
    (same : shade char s.color = s.color) :
    Faithful (s.place row col char) := by
  intro r c
  simp only [Screen.place]
  split
  · exact same
  · exact faithful r c

theorem next_col_same (s : Screen) : s.nextCol.ink = s.ink ∧ s.nextCol.color = s.color := by
  rw [Screen.nextCol]
  split <;> exact ⟨rfl, rfl⟩

theorem putc_color (s : Screen) (c : UInt8) : (s.putc c).color = s.color := by
  rw [Screen.putc, Screen.room]
  split_ifs <;> first | rfl | exact (next_col_same _).2

theorem faithful_putc (s : Screen) (faithful : Faithful s) (char : UInt8) (same : shade char s.color = s.color) :
    Faithful (s.putc char) := by
  obtain ⟨room, color⟩ := faithful_room s faithful
  rw [Screen.putc]
  split
  · exact room
  · intro r c
    rw [(next_col_same _).1]
    exact faithful_place _ room _ _ char (by rw [color, same]) r c

theorem putc_ink (s : Screen) (rowBound : s.row ≤ 25) (colBound : s.col < 80) (char : UInt8) (noTurn : char ≠ newline) :
    ∃ r < 25, ∃ c < 80, (s.putc char).ink r c = ⟨char, s.color⟩ := by
  have place : s.room.row < 25 ∧ s.room.col < 80 ∧ s.room.color = s.color := by
    rw [Screen.room]
    split
    · exact ⟨(by decide : 24 < 25), colBound, rfl⟩
    · exact ⟨by omega, colBound, rfl⟩
  refine ⟨s.room.row, place.1, s.room.col, place.2.1, ?_⟩
  rw [Screen.putc, if_neg noTurn, (next_col_same _).1, ← place.2.2]
  exact if_pos ⟨rfl, rfl⟩

theorem keeps_cons (v : Vga) (s : Screen) (shows : Shows v s) (faithful : Faithful s) (stroke : Stroke)
    (rest : List Stroke) :
    KeepsColors v s (stroke :: rest) ↔ KeepsColors (perform v stroke) (s.draw stroke) rest := by
  constructor
  · intro keeps done isPrefix
    exact keeps (stroke :: done) (List.cons_prefix_cons.mpr ⟨rfl, isPrefix⟩)
  · intro keeps done isPrefix
    cases done with
    | nil =>
        intro r rowBound c colBound
        exact (shows.cells r rowBound c colBound).2.trans (faithful r c)
    | cons first done =>
        obtain ⟨rfl, later⟩ := List.cons_prefix_cons.mp isPrefix
        exact keeps done later

theorem keeps_written (v : Vga) (s : Screen) (shows : Shows v s) (rest : List Stroke) (keeps : KeepsColors v s rest)
    (char color : UInt8) (r c : Nat) (rowBound : r < 25) (colBound : c < 80) (here : s.ink r c = ⟨char, color⟩) :
    char.toNat < 2 ^ 7 ∨ color = 0xFF := by
  have kept := keeps [] (List.nil_prefix) r rowBound c colBound
  have seen := (shows.cells r rowBound c colBound).2
  rw [List.foldl_nil, List.foldl_nil, here] at kept
  rw [here] at seen
  exact (shade_same_iff char color).mp (seen.symm.trans kept)

theorem keeps_iff_plain (strokes : List Stroke) (v : Vga) (s : Screen) (shows : Shows v s) (faithful : Faithful s) :
    KeepsColors v s strokes ↔ Plain s.color strokes := by
  induction strokes generalizing v s with
  | nil =>
      refine ⟨fun _ => trivial, fun _ done isPrefix => ?_⟩
      obtain rfl := List.prefix_nil.mp isPrefix
      intro r rowBound c colBound
      exact (shows.cells r rowBound c colBound).2.trans (faithful r c)
  | cons stroke rest ih =>
      rw [keeps_cons v s shows faithful]
      have shows' := shows_stroke v s shows stroke
      cases stroke with
      | color fg bg => exact ih _ _ shows' faithful
      | char char =>
          have next (plain : char.toNat < 2 ^ 7 ∨ s.color = 0xFF) : KeepsColors (vgaPutc char v) (s.putc char) rest ↔
              Plain s.color rest := by
            have result := ih _ _ shows' (faithful_putc s faithful char ((shade_same_iff _ _).mpr plain))
            rwa [show (s.draw (.char char)).color = s.color from putc_color s char] at result
          constructor
          · intro keeps
            have plain : char.toNat < 2 ^ 7 ∨ s.color = 0xFF := by
              by_cases turn : char = newline
              · exact .inl (turn ▸ by decide)
              · obtain ⟨r, rowBound, c, colBound, here⟩ := putc_ink s shows.rowBound shows.colBound char turn
                exact keeps_written _ _ shows' rest keeps char s.color r c rowBound colBound here
            exact ⟨plain, (next plain).mp keeps⟩
          · rintro ⟨plain, later⟩
            exact (next plain).mpr later
      | charAt char row col =>
          have next (plain : char.toNat < 2 ^ 7 ∨ s.color = 0xFF) :
              KeepsColors (vgaPutcAt char row col v) (s.place row col char) rest ↔ Plain s.color rest :=
            ih _ _ shows' (faithful_place s faithful row col char ((shade_same_iff _ _).mpr plain))
          constructor
          · intro keeps
            have plain := keeps_written _ _ shows' rest keeps char s.color row col row.isLt col.isLt (if_pos ⟨rfl, rfl⟩)
            exact ⟨plain, (next plain).mp keeps⟩
          · rintro ⟨plain, later⟩
            exact (next plain).mpr later

-- After `vga_clear`, in whatever colour.
theorem colors_kept_iff (v : Vga) (calls : List Call) :
    KeepsColors (vgaClear v) (Screen.cleared v.vgaColor) (calls.flatMap Call.strokes) ↔
      Plain v.vgaColor (calls.flatMap Call.strokes) :=
  keeps_iff_plain _ _ _ (shows_clear v) (fun _ _ => faithful_blank v.vgaColor)

def darkScreen : Vga := ⟨0x0F, 2, 0, fun _ => 0, [], []⟩

-- A byte above 0x7F in white on black comes out on a bright white ground.
theorem high_char_loses_color :
    cellAttribute (vgaPutc 0x80 (vgaClear darkScreen)).mem 0 0 = 0xFF ∧
      ((Screen.cleared 0x0F).putc 0x80).ink 0 0 = ⟨0x80, 0x0F⟩ ∧
      ¬ KeepsColors (vgaClear darkScreen) (Screen.cleared 0x0F) (Call.putc 0x80).strokes := by
  have shows : Shows (vgaPutc 0x80 (vgaClear darkScreen)) ((Screen.cleared 0x0F).putc 0x80) :=
    shows_putc _ _ (shows_clear darkScreen) 0x80
  have ink : ((Screen.cleared 0x0F).putc 0x80).ink 0 0 = ⟨0x80, 0x0F⟩ := by decide
  have seen := (shows.cells 0 (by decide) 0 (by decide)).2
  rw [ink] at seen
  refine ⟨seen, ink, ?_⟩
  intro keeps
  have kept := keeps [.char 0x80] (List.prefix_refl _) 0 (by decide) 0 (by decide)
  have wrong := seen.symm.trans (kept.trans (congrArg Ink.color ink))
  revert wrong
  decide

end X86OS.Drivers
