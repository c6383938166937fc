import SelfmadeOS.GpuDevice
import SelfmadeOS.Painting

/-!
# Rectangles on the screen

`draw_rec` counts places of `display`; a rectangle that sticks out on the right goes on at the
left, one line further down.
-/

namespace SelfmadeOS
set_option autoImplicit false

/-- `start_pos`: a product of unsigned numbers, assigned to an `int`. -/
def VirtioGpuRect.startPos (rec : VirtioGpuRect) : Int :=
  let start : Nat := (rec.y * screenWidth + rec.x) % 2 ^ 32
  if start < 2 ^ 31 then (start : Int) else (start : Int) - 2 ^ 32

/-- The column `start_pos + i` may lie behind the end of a line. -/
def drawRec (rec : VirtioGpuRect) (c : PixelColor) : List PixelWrite :=
  (List.range rec.width).flatMap fun (i : Nat) => (List.range rec.height).map fun (j : Nat) =>
    drawPixel (rec.startPos + i) j c

/-- The part of the rectangle that is on the screen is painted, the rest of the screen is not, and
nothing is written beside the frame. -/
structure PaintsRec (rec : VirtioGpuRect) (c : PixelColor) (before after : Int → PixelColor) :
    Prop where
  bounds : ∀ w ∈ drawRec rec c, 0 ≤ w.index ∧ w.index < screenHeight * screenWidth
  inside : ∀ px < screenWidth, ∀ py < screenHeight, rec.Covers px py →
    after (pixelIndex px py) = c
  outside : ∀ px < screenWidth, ∀ py < screenHeight, ¬rec.Covers px py →
    after (pixelIndex px py) = before (pixelIndex px py)

section rectangles
variable {rec : VirtioGpuRect} {c : PixelColor}

theorem mem_drawRec {w : PixelWrite} : w ∈ drawRec rec c ↔
    ∃ i < rec.width, ∃ j < rec.height, w = drawPixel (rec.startPos + i) j c := by
  simp only [drawRec, List.mem_flatMap, List.mem_map, List.mem_range, eq_comm]

theorem startPos_eq (h : rec.y * screenWidth + rec.x < 2 ^ 31) :
    rec.startPos = (rec.y * screenWidth + rec.x : Nat) := by
  have hmod : (rec.y * screenWidth + rec.x) % 2 ^ 32 = rec.y * screenWidth + rec.x :=
    Nat.mod_eq_of_lt (by omega)
  unfold VirtioGpuRect.startPos
  rw [hmod]
  exact if_pos h

theorem pixelIndex_eq (px py : Nat) : pixelIndex px py = (py * screenWidth + px : Nat) := by
  unfold pixelIndex PixelWrite.index drawPixel
  simp

theorem startPos_inside (h : rec.Inside screenWidth screenHeight) :
    rec.startPos = (rec.y * screenWidth + rec.x : Nat) := by
  obtain ⟨hwidth, hheight, hright, hbottom⟩ := h
  apply startPos_eq
  simp only [screenWidth, screenHeight] at *
  omega

theorem drawRec_inside (h : rec.Inside screenWidth screenHeight) (display : Int → PixelColor) :
    PaintsRec rec c display (paint display (drawRec rec c)) := by
  have hstart := startPos_inside h
  obtain ⟨hwidth, hheight, hright, hbottom⟩ := h
  simp only [screenWidth, screenHeight] at hstart hright hbottom
  refine ⟨fun w hw => ?_, fun px hpx py hpy hcovers => ?_, fun px hpx py hpy hout => ?_⟩
  · obtain ⟨i, hi, j, hj, rfl⟩ := mem_drawRec.mp hw
    simp only [PixelWrite.index, drawPixel, screenWidth, screenHeight]
    omega
  · obtain ⟨⟨hleft, hright'⟩, htop, hbottom'⟩ := hcovers
    apply paint_drawn
    · refine ⟨_, mem_drawRec.mpr ⟨px - rec.x, by omega, py - rec.y, by omega, rfl⟩, ?_⟩
      simp only [pixelIndex, PixelWrite.index, drawPixel, screenWidth]
      omega
    · intro w hw _
      obtain ⟨i, -, j, -, rfl⟩ := mem_drawRec.mp hw
      rfl
  · apply paint_other
    intro w hw hindex
    obtain ⟨i, hi, j, hj, rfl⟩ := mem_drawRec.mp hw
    simp only [pixelIndex, PixelWrite.index, drawPixel, screenWidth] at hindex hpx
    have hcolumn : px = rec.x + i := by omega
    have hline : py = rec.y + j := by omega
    subst hcolumn hline
    exact hout ⟨⟨by omega, by omega⟩, by omega, by omega⟩

theorem PaintsRec.covers (h : ∀ display, PaintsRec rec c display (paint display (drawRec rec c)))
    {i j : Nat} (hi : i < rec.width) (hj : j < rec.height) :
    ∃ px < screenWidth, ∃ py < screenHeight, rec.Covers px py ∧
      rec.startPos + i + j * screenWidth = (py * screenWidth + px : Nat) := by
  have hw : drawPixel (rec.startPos + i) j c ∈ drawRec rec c :=
    mem_drawRec.mpr ⟨i, hi, j, hj, rfl⟩
  have hindex : (drawPixel (rec.startPos + i) j c).index =
      rec.startPos + i + j * screenWidth := Int.add_comm _ _
  obtain ⟨hlow, hhigh⟩ := (h fun _ => black).bounds _ hw
  rw [hindex] at hlow hhigh
  obtain ⟨n, hn⟩ := Int.eq_ofNat_of_zero_le hlow
  simp only [hn] at hhigh ⊢
  simp only [screenWidth, screenHeight] at hhigh ⊢
  refine ⟨n % 1280, by omega, n / 1280, by omega, ?_, by omega⟩
  by_contra hout
  -- on a display of another color the write would be seen
  obtain ⟨other, hother⟩ : ∃ other, other ≠ c := by
    by_cases hc : c = black
    · exact ⟨white, fun heq => absurd (congrArg PixelColor.b (heq.trans hc)) (by decide)⟩
    · exact ⟨black, fun heq => hc heq.symm⟩
  have hkept := (h fun _ => other).outside (n % 1280) (by simp only [screenWidth]; omega)
    (n / 1280) (by simp only [screenHeight]; omega) hout
  have hpainted : paint (fun _ => other) (drawRec rec c)
      (pixelIndex (n % 1280) (n / 1280)) = c := by
    apply paint_drawn _ ⟨_, hw, ?_⟩
    · intro w hw _
      obtain ⟨i, -, j, -, rfl⟩ := mem_drawRec.mp hw
      rfl
    · rw [hindex, hn, pixelIndex_eq]
      simp only [screenWidth]
      omega
  exact hother (hkept.symm.trans hpainted)

end rectangles

/-- `draw_rec` paints its rectangle and nothing else exactly if the rectangle lies on the screen
as a whole, or is empty: nothing is cut off at the edges. -/
theorem drawRec_paints_iff (rec : VirtioGpuRect) (c : PixelColor) :
    (∀ display, PaintsRec rec c display (paint display (drawRec rec c))) ↔
      rec.width = 0 ∨ rec.height = 0 ∨ rec.Inside screenWidth screenHeight := by
  constructor
  · intro h
    by_contra hnot
    obtain ⟨hwidth, hheight, hout⟩ : rec.width ≠ 0 ∧ rec.height ≠ 0 ∧
        ¬rec.Inside screenWidth screenHeight := by tauto
    obtain ⟨px, hpx, py, hpy, ⟨⟨hleft, -⟩, htop, -⟩, hfirst⟩ :=
      PaintsRec.covers h (i := 0) (j := 0) (by omega) (by omega)
    obtain ⟨qx, hqx, qy, hqy, ⟨⟨-, hright⟩, -, hbottom⟩, hlast⟩ :=
      PaintsRec.covers h (i := rec.width - 1) (j := rec.height - 1) (by omega) (by omega)
    have hsmall : rec.y * screenWidth + rec.x < 2 ^ 31 := by
      simp only [screenWidth, screenHeight] at hpx hpy ⊢
      omega
    rw [startPos_eq hsmall] at hlast
    apply hout
    simp only [VirtioGpuRect.Inside, screenWidth, screenHeight] at hpx hpy hqx hqy hlast ⊢
    omega
  · intro h display
    have hempty : (rec.width = 0 ∨ rec.height = 0) →
        PaintsRec rec c display (paint display (drawRec rec c)) := by
      intro hzero
      have hnone : ∀ w, w ∉ drawRec rec c := by
        intro w hw
        obtain ⟨i, hi, j, hj, -⟩ := mem_drawRec.mp hw
        omega
      refine ⟨fun w hw => absurd hw (hnone w), ?_, fun px _ py _ _ => ?_⟩
      · rintro px - py - ⟨⟨hleft, hright⟩, htop, hbottom⟩
        omega
      · exact paint_other _ fun w hw => absurd hw (hnone w)
    rcases h with h | h | h
    · exact hempty (Or.inl h)
    · exact hempty (Or.inr h)
    · exact drawRec_inside h display

end SelfmadeOS
