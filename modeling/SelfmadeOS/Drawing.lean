import SelfmadeOS.Terminal

/-!
# Drawing (`virtio_gpu_driver.cpp`)

The drawing functions as the pixels they write, in the order of their loops. The glyphs of
`font8x8_basic` are a parameter: a character and a row give eight bits.
-/

namespace SelfmadeOS
set_option autoImplicit false
open CStrings

structure PixelColor where
  b : UInt8
  g : UInt8
  r : UInt8
  a : UInt8

def black : PixelColor := ⟨0, 0, 0, 255⟩
def white : PixelColor := ⟨255, 255, 255, 255⟩

def screenHeight : Nat := 800
def screenWidth : Nat := 1280

structure PixelWrite where
  x : Int
  y : Int
  color : PixelColor

def PixelWrite.index (w : PixelWrite) : Int := w.y * screenWidth + w.x

def drawPixel (x y : Int) (c : PixelColor) : PixelWrite := ⟨x, y, c⟩

def drawLetter (font : Nat → Nat → Nat) (x y : Int) (l : Char) (c : PixelColor) (size : Nat) :
    List PixelWrite :=
  (List.range (8 * size)).flatMap fun i => (List.range (8 * size)).map fun j =>
    let bit := font l.toNat (i / size) >>> (j / size) &&& 1
    drawPixel (x + j) (y + i) (if bit = 1 then c else black)

def drawText (font : Nat → Nat → Nat) (x y : Int) (string : List Char) (stringSize : Nat)
    (c : PixelColor) (textSize : Nat) : List PixelWrite :=
  (List.range stringSize).flatMap fun i =>
    drawLetter font (x + (i * textSize * 8 : Nat)) y (string.getD i nul) c textSize

def clearScreen : List PixelWrite :=
  (List.range screenWidth).flatMap fun (i : Nat) =>
    (List.range screenHeight).map fun (j : Nat) => drawPixel i j black

/-- What a call of `printf` writes to the display. -/
def Terminal.draws (font : Nat → Nat → Nat) (t : Terminal) (m : Message) : List PixelWrite :=
  clearScreen ++ (t.printf m).2.flatMap fun row =>
    drawText font row.x row.y row.string maxTextLength white 2

structure Box where
  x : Int
  y : Int
  width : Nat
  height : Nat

namespace Box

def Contains (b : Box) (w : PixelWrite) : Prop :=
  (b.x ≤ w.x ∧ w.x < b.x + b.width) ∧ (b.y ≤ w.y ∧ w.y < b.y + b.height)

structure Within (inner outer : Box) : Prop where
  left : outer.x ≤ inner.x
  right : inner.x + inner.width ≤ outer.x + outer.width
  top : outer.y ≤ inner.y
  bottom : inner.y + inner.height ≤ outer.y + outer.height

theorem Within.contains {inner outer : Box} (h : Within inner outer) {w : PixelWrite}
    (hw : inner.Contains w) : outer.Contains w := by
  obtain ⟨hleft, hright, htop, hbottom⟩ := h
  obtain ⟨⟨hx, hx'⟩, ⟨hy, hy'⟩⟩ := hw
  refine ⟨⟨?_, ?_⟩, ⟨?_, ?_⟩⟩ <;> omega

def screen : Box := ⟨0, 0, screenWidth, screenHeight⟩

theorem index_of_screen {w : PixelWrite} (h : screen.Contains w) :
    0 ≤ w.index ∧ w.index < screenHeight * screenWidth := by
  obtain ⟨⟨hx, hx'⟩, ⟨hy, hy'⟩⟩ := h
  unfold PixelWrite.index
  simp only [screen, screenWidth, screenHeight] at *
  omega

end Box

section boxes
variable {font : Nat → Nat → Nat} {x y : Int} {c : PixelColor}

theorem drawLetter_box {l : Char} {size : Nat} :
    ∀ w ∈ drawLetter font x y l c size, (Box.mk x y (8 * size) (8 * size)).Contains w := by
  intro w hw
  obtain ⟨i, hi, hrow⟩ := List.mem_flatMap.mp hw
  obtain ⟨j, hj, rfl⟩ := List.mem_map.mp hrow
  have hi := List.mem_range.mp hi
  have hj := List.mem_range.mp hj
  refine ⟨⟨?_, ?_⟩, ⟨?_, ?_⟩⟩ <;> simp only [drawPixel] <;> omega

theorem letter_within {i stringSize textSize : Nat} (hi : i < stringSize) :
    (Box.mk (x + (i * textSize * 8 : Nat)) y (8 * textSize) (8 * textSize)).Within
      (Box.mk x y (8 * textSize * stringSize) (8 * textSize)) := by
  have hend : i * textSize * 8 + 8 * textSize ≤ 8 * textSize * stringSize := by
    have hle := Nat.mul_le_mul_left (8 * textSize) (Nat.succ_le_of_lt hi)
    rw [Nat.mul_succ] at hle
    rw [Nat.mul_assoc i, Nat.mul_comm i, Nat.mul_comm textSize]
    exact hle
  refine ⟨?_, ?_, Int.le_refl _, Int.le_refl _⟩
  · simp only
    omega
  · simp only
    omega

theorem drawText_box {string : List Char} {stringSize textSize : Nat} :
    ∀ w ∈ drawText font x y string stringSize c textSize,
      (Box.mk x y (8 * textSize * stringSize) (8 * textSize)).Contains w := by
  intro w hw
  obtain ⟨i, hi, hletter⟩ := List.mem_flatMap.mp hw
  exact (letter_within (List.mem_range.mp hi)).contains (drawLetter_box w hletter)

theorem clearScreen_box : ∀ w ∈ clearScreen, Box.screen.Contains w := by
  intro w hw
  obtain ⟨i, hi, hcolumn⟩ := List.mem_flatMap.mp hw
  obtain ⟨j, hj, rfl⟩ := List.mem_map.mp hcolumn
  have hi := List.mem_range.mp hi
  have hj := List.mem_range.mp hj
  refine ⟨⟨?_, ?_⟩, ⟨?_, ?_⟩⟩ <;> simp only [drawPixel, Box.screen] <;> omega

end boxes

section terminal
variable {t : Terminal} {n : Nat}

theorem rowsDrawn_le (n : Nat) : rowsDrawn n ≤ 20 := by
  unfold rowsDrawn
  omega

theorem CalledTimes.row_within (h : CalledTimes t n) {row : TextRow} (hrow : row ∈ t.drawRows) :
    (0 ≤ row.slot ∧ row.slot ≤ 39) ∧
      (Box.mk row.x row.y (8 * 2 * maxTextLength) (8 * 2)).Within Box.screen := by
  rw [h.drawRows] at hrow
  obtain ⟨i, hi, rfl⟩ := List.mem_map.mp hrow
  have hi : i < 20 := Nat.lt_of_lt_of_le (List.mem_range.mp hi) (rowsDrawn_le n)
  have hx : (t.drawRow i).x = 0 := rfl
  have hy : (t.drawRow i).y = i * 4 * 8 := rfl
  refine ⟨?_, ?_⟩
  · rw [h.drawRow_slot hi]
    omega
  · rw [hx, hy]
    refine ⟨Int.le_refl _, ?_, ?_, ?_⟩ <;>
      simp only [Box.screen, screenWidth, screenHeight, maxTextLength] <;> omega

theorem CalledTimes.draws_box (h : CalledTimes t n) (font : Nat → Nat → Nat) (m : Message) :
    ∀ w ∈ t.draws font m, Box.screen.Contains w := by
  intro w hw
  rcases List.mem_append.mp hw with hclear | htext
  · exact clearScreen_box w hclear
  · obtain ⟨row, hrow, hw⟩ := List.mem_flatMap.mp htext
    obtain ⟨-, hwithin⟩ := (h.printf m).row_within hrow
    exact hwithin.contains (drawText_box w hw)

end terminal

/-- The cursors and the slots stay in the ring, and each pixel on the screen. -/
structure OnScreen (font : Nat → Nat → Nat) (t : Terminal) (m : Message) : Prop where
  head : 0 ≤ t.head ∧ t.head ≤ 39
  tail : 0 ≤ t.tail ∧ t.tail ≤ 39
  slots : ∀ row ∈ (t.printf m).2, 0 ≤ row.slot ∧ row.slot ≤ 39
  pixels : ∀ w ∈ t.draws font m,
    (0 ≤ w.x ∧ w.x < 1280) ∧ (0 ≤ w.y ∧ w.y < 800) ∧ 0 ≤ w.index ∧ w.index < 800 * 1280

/-- In every call of every run. -/
theorem printf_onScreen (font : Nat → Nat → Nat) (contents : Slots) (calls : List Message)
    (m : Message) : OnScreen font ((Terminal.new contents).after calls) m := by
  have h := (calledTimes_new contents).after calls
  refine ⟨?_, ?_, ?_, ?_⟩
  · rw [h.head]
    omega
  · rw [h.tail]
    omega
  · intro row hrow
    exact ((h.printf m).row_within hrow).1
  · intro w hw
    have hscreen := h.draws_box font m w hw
    have ⟨hx, hy⟩ := hscreen
    refine ⟨?_, ?_, Box.index_of_screen hscreen⟩
    · simp only [Box.screen, screenWidth] at hx
      omega
    · simp only [Box.screen, screenHeight] at hy
      omega

end SelfmadeOS
