import SelfmadeOS.Drawing
import SelfmadeOS.Writes

/-!
# Texts on the screen

What `display` holds after a text is drawn. Each letter has a box of its own, so a pixel of the
text is written once, and its place in `display` is that of no other pixel of the screen.
-/

namespace SelfmadeOS
set_option autoImplicit false
open CStrings

def paint (display : Int → PixelColor) (pixels : List PixelWrite) : Int → PixelColor :=
  Writes.apply display (pixels.map fun w => (w.index, w.color))

def pixelIndex (px py : Nat) : Int := (drawPixel px py black).index

section painting
variable (display : Int → PixelColor) {pixels : List PixelWrite} {i : Int}

theorem paint_other (h : ∀ w ∈ pixels, w.index ≠ i) : paint display pixels i = display i := by
  apply Writes.apply_other
  intro p hp
  obtain ⟨w, hw, rfl⟩ := List.mem_map.mp hp
  exact h w hw

theorem paint_drawn {color : PixelColor} (hdrawn : ∃ w ∈ pixels, w.index = i)
    (h : ∀ w ∈ pixels, w.index = i → w.color = color) : paint display pixels i = color := by
  apply Writes.apply_written
  · obtain ⟨w, hw, hindex⟩ := hdrawn
    exact ⟨(w.index, w.color), List.mem_map_of_mem hw, hindex⟩
  · intro p hp
    obtain ⟨w, hw, rfl⟩ := List.mem_map.mp hp
    exact h w hw

end painting

/-- A horizontal overrun would be a place in the next row; on the screen there is none. -/
theorem index_screen_injective {w w' : PixelWrite} (h : Box.screen.Contains w)
    (h' : Box.screen.Contains w') (heq : w.index = w'.index) : w.x = w'.x ∧ w.y = w'.y := by
  obtain ⟨⟨hx, hx'⟩, -⟩ := h
  obtain ⟨⟨hw, hw'⟩, -⟩ := h'
  unfold PixelWrite.index at heq
  simp only [Box.screen, screenWidth] at *
  omega

section letters
variable {font : Nat → Nat → Nat} {x y : Int} {string : List Char} {c : PixelColor} {n s : Nat}

def letterColor (font : Nat → Nat → Nat) (l : Char) (c : PixelColor) (size row column : Nat) :
    PixelColor :=
  if font l.toNat (row / size) >>> (column / size) &&& 1 = 1 then c else black

theorem mem_drawText {w : PixelWrite} : w ∈ drawText font x y string n c s ↔
    ∃ i < n, ∃ row < 8 * s, ∃ column < 8 * s,
      w = drawPixel (x + (i * s * 8 : Nat) + column) (y + row)
        (letterColor font (string.getD i nul) c s row column) := by
  simp only [drawText, drawLetter, letterColor, List.mem_flatMap, List.mem_map, List.mem_range,
    eq_comm]

theorem letter_column {i column d : Nat} (hcolumn : column < 8 * s) (h : d = i * s * 8 + column) :
    d / (8 * s) = i ∧ d % (8 * s) = column := by
  have hpos : 0 < 8 * s := by omega
  apply (Nat.div_mod_unique hpos).mpr
  refine ⟨?_, hcolumn⟩
  rw [h, Nat.add_comm, Nat.mul_comm (8 * s), Nat.mul_comm 8, Nat.mul_assoc i]

end letters

/-- What a text of `n` letters does to the display. -/
structure PaintsText (font : Nat → Nat → Nat) (x y : Nat) (string : List Char) (n : Nat)
    (c : PixelColor) (s : Nat) (before after : Int → PixelColor) : Prop where
  inside : ∀ px py : Nat, x ≤ px → px < x + 8 * s * n → y ≤ py → py < y + 8 * s →
    ∃ l, string[(px - x) / (8 * s)]? = some l ∧ after (pixelIndex px py) =
      if font l.toNat ((py - y) / s) >>> ((px - x) % (8 * s) / s) &&& 1 = 1 then c else black
  outside : ∀ px py : Nat, px < 1280 → py < 800 →
    ¬ ((x ≤ px ∧ px < x + 8 * s * n) ∧ (y ≤ py ∧ py < y + 8 * s)) →
    after (pixelIndex px py) = before (pixelIndex px py)

section texts
variable {font : Nat → Nat → Nat} {string : List Char} {c : PixelColor} {x y n s : Nat}

theorem pixel_screen {px py : Nat} (hx : px < 1280) (hy : py < 800) :
    Box.screen.Contains (drawPixel px py black) := by
  refine ⟨⟨?_, ?_⟩, ⟨?_, ?_⟩⟩ <;>
    simp only [drawPixel, Box.screen, screenWidth, screenHeight] <;> omega

theorem drawText_screen (hx : x + 8 * s * n ≤ 1280) (hy : y + 8 * s ≤ 800) :
    ∀ w ∈ drawText font x y string n c s, Box.screen.Contains w := by
  intro w hw
  apply Box.Within.contains _ (drawText_box w hw)
  refine ⟨Int.natCast_nonneg x, ?_, Int.natCast_nonneg y, ?_⟩ <;>
    simp only [Box.screen, screenWidth, screenHeight] <;> omega

/-- The pixels that are written at the place of a pixel of the screen are that pixel. -/
theorem drawText_pixel (hx : x + 8 * s * n ≤ 1280) (hy : y + 8 * s ≤ 800) {px py : Nat}
    (hpx : px < 1280) (hpy : py < 800) {w : PixelWrite}
    (hw : w ∈ drawText font x y string n c s) (hindex : w.index = pixelIndex px py) :
    ∃ i < n, ∃ row < 8 * s, ∃ column < 8 * s, px = x + i * s * 8 + column ∧ py = y + row ∧
      w.color = letterColor font (string.getD i nul) c s row column := by
  obtain ⟨hwx, hwy⟩ := index_screen_injective (drawText_screen hx hy w hw)
    (pixel_screen hpx hpy) hindex
  obtain ⟨i, hi, row, hrow, column, hcolumn, rfl⟩ := mem_drawText.mp hw
  simp only [drawPixel] at hwx hwy
  exact ⟨i, hi, row, hrow, column, hcolumn, by omega, by omega, rfl⟩

theorem paint_drawText_inside (display : Int → PixelColor) (hn : n ≤ string.length)
    (hx : x + 8 * s * n ≤ 1280) (hy : y + 8 * s ≤ 800) {px py : Nat} (hleft : x ≤ px)
    (hright : px < x + 8 * s * n) (htop : y ≤ py) (hbottom : py < y + 8 * s) :
    ∃ l, string[(px - x) / (8 * s)]? = some l ∧
      paint display (drawText font x y string n c s) (pixelIndex px py) =
        letterColor font l c s (py - y) ((px - x) % (8 * s)) := by
  have hpos : 0 < 8 * s := by omega
  have hletter : (px - x) / (8 * s) < n := Nat.div_lt_of_lt_mul (by omega)
  obtain ⟨l, hl⟩ : ∃ l, string[(px - x) / (8 * s)]? = some l :=
    ⟨_, List.getElem?_eq_getElem (Nat.lt_of_lt_of_le hletter hn)⟩
  refine ⟨l, hl, paint_drawn display ?_ ?_⟩
  · have hsplit : (px - x) / (8 * s) * s * 8 + (px - x) % (8 * s) = px - x := by
      rw [Nat.mul_assoc, Nat.mul_comm s, Nat.mul_comm _ (8 * s)]
      exact Nat.div_add_mod (px - x) (8 * s)
    refine ⟨_, mem_drawText.mpr ⟨_, hletter, py - y, by omega, _, Nat.mod_lt (px - x) hpos, rfl⟩,
      ?_⟩
    have hpx :
        (x : Int) + ((px - x) / (8 * s) * s * 8 : Nat) + ((px - x) % (8 * s) : Nat) = px := by
      omega
    have hpy : (y : Int) + (py - y : Nat) = py := by omega
    rw [hpx, hpy]
    rfl
  · intro w hw hindex
    obtain ⟨i, -, row, -, column, hcolumn, hpx, hpy, hcolor⟩ :=
      drawText_pixel hx hy (by omega) (by omega) hw hindex
    obtain ⟨hi, hcol⟩ := letter_column hcolumn (by omega : px - x = i * s * 8 + column)
    have hrow : row = py - y := by omega
    rw [hcolor, hcol, hrow, List.getD_eq_getElem?_getD, ← hi, hl]
    rfl

theorem paint_drawText_outside (display : Int → PixelColor) (hx : x + 8 * s * n ≤ 1280)
    (hy : y + 8 * s ≤ 800) {px py : Nat} (hpx : px < 1280) (hpy : py < 800)
    (h : ¬ ((x ≤ px ∧ px < x + 8 * s * n) ∧ (y ≤ py ∧ py < y + 8 * s))) :
    paint display (drawText font x y string n c s) (pixelIndex px py) =
      display (pixelIndex px py) := by
  apply paint_other
  intro w hw hindex
  obtain ⟨⟨hwx, hwx'⟩, ⟨hwy, hwy'⟩⟩ := drawText_box w hw
  obtain ⟨heqx, heqy⟩ := index_screen_injective (drawText_screen hx hy w hw)
    (pixel_screen hpx hpy) hindex
  simp only [drawPixel] at *
  apply h
  omega

end texts

theorem drawText_paintsText (font : Nat → Nat → Nat) {string : List Char} (c : PixelColor)
    {x y n s : Nat} (display : Int → PixelColor) (hn : n ≤ string.length)
    (hx : x + 8 * s * n ≤ 1280) (hy : y + 8 * s ≤ 800) :
    PaintsText font x y string n c s display
      (paint display (drawText font x y string n c s)) := by
  constructor
  · intro px py
    exact paint_drawText_inside display hn hx hy
  · intro px py
    exact paint_drawText_outside display hx hy

/-- Two letters in the lower right corner, each pixel of a glyph drawn three by three. -/
theorem drawText_paintsText_corner :
    PaintsText (fun l row => l + row) 1232 776 ['o', 'k', '!'] 2 white 3 (fun _ => black)
      (paint (fun _ => black)
        (drawText (fun l row => l + row) 1232 776 ['o', 'k', '!'] 2 white 3)) :=
  drawText_paintsText (fun l row => l + row) white (fun _ => black)
    (by decide) (by decide) (by decide)

end SelfmadeOS
