import Mathlib.Tactic.Common
import Xv6.Lib.Run

/-!
# Drawing on the screen (`console.c`, `font.c`)

`consolewrite` and `cprintf` give one character after the other to `consputc`, which draws it
with `graphic_putc` (and sends it to the serial line, which is not modelled).  The screen has
`CONSOLE_HORIZONTAL_MAX` times `CONSOLE_VERTICAL_MAX` cells; `console_pos` is the next one, and
one more than the last cell when the screen is full.

The model logs each glyph that `font_render` draws: its cell, its place and its index in
`font_bin`.  The position is kept in bounds whatever is written; the character, however, reaches
the table of glyphs unchecked.  `drawing_in_bounds` says both.
-/

namespace Xv6
namespace Console

def CONSOLE_HORIZONTAL_MAX : Int := 53
def CONSOLE_VERTICAL_MAX : Int := 20
def FONT_WIDTH : Int := 15
def FONT_HEIGHT : Int := 30

/-- The character that `consputc` takes for a backspace. -/
def BACKSPACE : Int := 0x100

/-- The number of glyphs in `font_bin`. -/
def fontEntries : Int := 95

/-- A call of `font_render` from cell `cell`. -/
structure Glyph where
  cell : Int
  x : Int
  y : Int
  /-- The index into `font_bin`. -/
  index : Int
deriving DecidableEq

structure Screen where
  /-- `console_pos` -/
  pos : Int
  glyphs : List Glyph

/-- The screen at the start. -/
def Screen.start : Screen := ⟨CONSOLE_HORIZONTAL_MAX * CONSOLE_VERTICAL_MAX, []⟩

/-- Make room for a line when the position is behind the last cell. -/
def scroll (pos : Int) : Int :=
  if pos ≥ CONSOLE_VERTICAL_MAX * CONSOLE_HORIZONTAL_MAX then pos - CONSOLE_HORIZONTAL_MAX else pos

def fontRender (cell x y c : Int) : Glyph := ⟨cell, x, y, c - 0x20⟩

/-- `graphic_putc`, for the `int` that a character is. -/
def graphicPutc (s : Screen) (c : Int) : Screen :=
  if c = 10 then
    { s with pos :=
        scroll (s.pos + (CONSOLE_HORIZONTAL_MAX - s.pos.tmod CONSOLE_HORIZONTAL_MAX)) }
  else if c = BACKSPACE then
    if s.pos > 0 then { s with pos := s.pos - 1 } else s
  else
    let pos := scroll s.pos
    let x := pos.tmod CONSOLE_HORIZONTAL_MAX * FONT_WIDTH + 2
    let y := pos.tdiv CONSOLE_HORIZONTAL_MAX * FONT_HEIGHT
    ⟨pos + 1, s.glyphs ++ [fontRender pos x y c]⟩

/-! ## What is written -/

/-- The loop of `printint` over the digits, the last one first. -/
def digitsLoop (base : Nat) : Nat → Nat → List Int
  | 0, _ => []
  | k + 1, x =>
    let d := x % base
    let c : Int := if d < 10 then 48 + d else 87 + d
    if x / base ≠ 0 then c :: digitsLoop base k (x / base) else [c]

/-- The characters of `printint`.  A number of 32 bits has at most 32 digits. -/
def printint (xx : UInt32) (base : Nat) (sign : Bool) : List Int :=
  if sign ∧ xx ≥ 0x80000000 then
    45 :: (digitsLoop base 32 (-xx).toNat).reverse
  else
    (digitsLoop base 32 xx.toNat).reverse

/-- A `char` as an `int`: it is signed. -/
def ofChar (b : UInt8) : Int := if b < 128 then b.toNat else b.toNat - 256

/-- `fmt[i] & 0xff` -/
def ofByte (b : UInt8) : Int := b.toNat

/-- `"(null)"` -/
def nullString : List UInt8 := [40, 110, 117, 108, 108, 41]

/-- The characters that `cprintf` gives to `consputc`: `argp` are the arguments from the next one
on, and `str` the strings at the addresses that arguments may be. -/
def cprintf (str : UInt32 → List UInt8) : List UInt8 → (Nat → UInt32) → List Int
  | [], _ => []
  | [c], _ => if c ≠ 37 then [ofByte c] else []
  | c :: d :: fmt, argp =>
    let rest := fun i => argp (i + 1)
    if c ≠ 37 then
      ofByte c :: cprintf str (d :: fmt) argp
    else if d = 100 then
      printint (argp 0) 10 true ++ cprintf str fmt rest
    else if d = 120 ∨ d = 112 then
      printint (argp 0) 16 false ++ cprintf str fmt rest
    else if d = 115 then
      let s := if argp 0 = 0 then nullString else str (argp 0)
      s.map ofChar ++ cprintf str fmt rest
    else if d = 37 then
      37 :: cprintf str fmt argp
    else
      37 :: ofByte d :: cprintf str fmt argp

/-- What writes to the console. -/
inductive Write where
  | consolewrite (buf : List UInt8)
  | cprintf (str : UInt32 → List UInt8) (fmt : List UInt8) (argp : Nat → UInt32)
  | backspace

/-- The characters that a call gives to `consputc`. -/
def Write.chars : Write → List Int
  | .consolewrite buf => buf.map ofByte
  | .cprintf str fmt argp => Console.cprintf str fmt argp
  | .backspace => [BACKSPACE]

/-! ## Bounds -/

section bounds

variable {s : Screen} {c : Int} {cs : List Int}

/-- The number of cells. -/
def cells : Int := CONSOLE_HORIZONTAL_MAX * CONSOLE_VERTICAL_MAX

/-- The position is a cell or the place behind the last one, and all glyphs are in cells. -/
structure InBounds (s : Screen) : Prop where
  nonneg : 0 ≤ s.pos
  le : s.pos ≤ cells
  glyph : ∀ g ∈ s.glyphs, 0 ≤ g.cell ∧ g.cell < cells

theorem inBounds_start : InBounds Screen.start where
  nonneg := by decide
  le := by decide
  glyph := nofun

/-- A newline moves to the start of the next line, at most behind the last one. -/
theorem scroll_newline {pos : Int} (hlo : 0 ≤ pos) (hhi : pos ≤ cells) :
    0 ≤ scroll (pos + (CONSOLE_HORIZONTAL_MAX - pos.tmod CONSOLE_HORIZONTAL_MAX)) ∧
      scroll (pos + (CONSOLE_HORIZONTAL_MAX - pos.tmod CONSOLE_HORIZONTAL_MAX)) ≤ cells := by
  have hmod : pos.tmod CONSOLE_HORIZONTAL_MAX = pos % 53 := Int.tmod_eq_emod_of_nonneg hlo
  rw [hmod]
  unfold scroll
  unfold cells CONSOLE_VERTICAL_MAX CONSOLE_HORIZONTAL_MAX at *
  split <;> omega

theorem scroll_cell {pos : Int} (hlo : 0 ≤ pos) (hhi : pos ≤ cells) :
    0 ≤ scroll pos ∧ scroll pos < cells := by
  unfold scroll
  unfold cells CONSOLE_VERTICAL_MAX CONSOLE_HORIZONTAL_MAX at *
  split <;> omega

/-- Every character keeps the bounds. -/
theorem InBounds.putc (h : InBounds s) (c : Int) : InBounds (graphicPutc s c) := by
  obtain ⟨hlo, hhi, hglyph⟩ := h
  unfold graphicPutc
  split
  · obtain ⟨hlo', hhi'⟩ := scroll_newline hlo hhi
    exact ⟨hlo', hhi', hglyph⟩
  · split
    · split
      · refine ⟨?_, ?_, hglyph⟩
        · show 0 ≤ s.pos - 1
          omega
        · show s.pos - 1 ≤ cells
          omega
      · exact ⟨hlo, hhi, hglyph⟩
    · obtain ⟨hlo', hhi'⟩ := scroll_cell hlo hhi
      refine ⟨?_, ?_, ?_⟩
      · show 0 ≤ scroll s.pos + 1
        omega
      · show scroll s.pos + 1 ≤ cells
        omega
      · intro g hg
        rcases List.mem_append.mp hg with hg | hg
        · exact hglyph g hg
        · rw [List.mem_singleton.mp hg]
          exact ⟨hlo', hhi'⟩

theorem InBounds.puts (h : InBounds s) (cs : List Int) : InBounds (cs.foldl graphicPutc s) := by
  induction cs generalizing s with
  | nil => exact h
  | cons c cs ih => exact ih (h.putc c)

/-! ## Glyphs -/

/-- The character has no glyph, or one of `font_bin`. -/
def Printable (c : Int) : Prop := c = 10 ∨ c = BACKSPACE ∨ 0x20 ≤ c ∧ c ≤ 0x7e

/-- The glyph is one of `font_bin`. -/
def Glyph.InFont (g : Glyph) : Prop := 0 ≤ g.index ∧ g.index < fontEntries

/-- A character draws a glyph of the font, or none, exactly if it is printable. -/
theorem inFont_putc_iff : (∀ g ∈ (graphicPutc s c).glyphs, g.InFont) ↔
    (∀ g ∈ s.glyphs, g.InFont) ∧ Printable c := by
  unfold graphicPutc
  by_cases hnl : c = 10
  · rw [if_pos hnl]
    exact (and_iff_left (.inl hnl)).symm
  · rw [if_neg hnl]
    by_cases hback : c = BACKSPACE
    · have hglyphs : (if s.pos > 0 then { s with pos := s.pos - 1 } else s).glyphs = s.glyphs := by
        split <;> rfl
      rw [if_pos hback, hglyphs]
      exact (and_iff_left (.inr (.inl hback))).symm
    · rw [if_neg hback]
      have hlast : ∀ cell x y, (fontRender cell x y c).InFont ↔ Printable c := by
        intro cell x y
        unfold Printable
        rw [or_iff_right hnl, or_iff_right hback]
        show 0 ≤ c - 0x20 ∧ c - 0x20 < 95 ↔ _
        omega
      simp only [List.mem_append, List.mem_singleton, or_imp, forall_and, forall_eq, hlast]

theorem inFont_puts_iff : (∀ g ∈ (cs.foldl graphicPutc s).glyphs, g.InFont) ↔
    (∀ g ∈ s.glyphs, g.InFont) ∧ ∀ c ∈ cs, Printable c := by
  induction cs generalizing s with
  | nil => exact (and_iff_left nofun).symm
  | cons c cs ih => rw [List.foldl_cons, ih, inFont_putc_iff, and_assoc, List.forall_mem_cons]

/-- After any number of characters of any sequence of writes, the position is in bounds and so
are the cells of the glyphs; and the indices into the font are in bounds exactly if every
character is a newline, a backspace or one of 0x20 to 0x7e. -/
theorem drawing_in_bounds (ws : List Write) :
    (∀ k, InBounds (((ws.flatMap Write.chars).take k).foldl graphicPutc Screen.start)) ∧
    ((∀ g ∈ ((ws.flatMap Write.chars).foldl graphicPutc Screen.start).glyphs,
        0 ≤ g.index ∧ g.index < fontEntries) ↔
      ∀ c ∈ ws.flatMap Write.chars, Printable c) := by
  constructor
  · intro k
    exact inBounds_start.puts _
  · have h := @inFont_puts_iff Screen.start (ws.flatMap Write.chars)
    exact h.trans (and_iff_right nofun)

/-- A tab written by a program is drawn with the glyph at index -23. -/
theorem tab_outside_font :
    (((Write.consolewrite [9]).chars).foldl graphicPutc Screen.start).glyphs =
      [⟨1007, 2, 570, -23⟩] := by
  decide

end bounds

end Console
end Xv6
