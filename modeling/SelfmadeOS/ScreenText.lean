import SelfmadeOS.GpuScreen

/-!
# Reading the screen

Someone who knows the font can read the messages of `printf` off the pixels of the screen.
-/

namespace SelfmadeOS
set_option autoImplicit false
open CStrings

deriving instance DecidableEq for PixelColor

section reading
variable (pixel : Nat → Nat → PixelColor) (i j : Nat)

/-- The eight pixels of a line of a letter, as bits. A pixel of a glyph is a square of two by two
pixels of the screen. -/
def seenRow (px py : Nat) : Nat :=
  ((List.range 8).map fun bit => if pixel (px + 2 * bit) py = white then 2 ^ bit else 0).sum

def seenGlyph : List Nat := (List.range 8).map fun row => seenRow pixel (16 * j) (32 * i + 2 * row)

/-- The first character that looks like it. -/
def readLetter : Option Nat := (List.range 128).find? fun l => glyph l = seenGlyph pixel i j

end reading

/-- What can be seen of a character: all that leave no pixels look like NUL. -/
def seen (l : Nat) : Nat := if Visible l then l else 0

theorem sum_bits : ∀ n < 256,
    ((List.range 8).map fun bit => if n >>> bit &&& 1 = 1 then 2 ^ bit else 0).sum = n := by
  decide +kernel

theorem white_ne_black : white ≠ black := by decide

def letterAt (rows : List TextRow) (i j : Nat) : Char :=
  match rows[i]? with
  | some row => row.string.getD j nul
  | none => nul

section letters
variable {rows : List TextRow} {i j : Nat}

theorem letterColor_nul {line column : Nat} (hline : line < 16) :
    letterColor font nul white 2 line column = black := by
  have hblank : font nul.toNat (line / 2) = 0 := font_nul _ (by omega)
  unfold letterColor
  rw [hblank, Nat.zero_shiftRight]
  rfl

theorem rowsColor_letter {line column : Nat} (hline : line < 16) (hcolumn : column < 16) :
    rowsColor font rows (16 * j + column) (32 * i + line) =
      letterColor font (letterAt rows i j) white 2 line column := by
  have hdiv : (32 * i + line) / 32 = i := by omega
  have hmod : (32 * i + line) % 32 = line := by omega
  have hletter : (16 * j + column) / 16 = j := by omega
  have hpixel : (16 * j + column) % 16 = column := by omega
  unfold rowsColor letterAt
  rw [hdiv]
  cases rows[i]? with
  | none => exact (letterColor_nul hline).symm
  | some row =>
    dsimp only
    rw [hmod, if_pos hline, hletter, hpixel]

theorem letterColor_white (l : Char) (line bit : Nat) :
    letterColor font l white 2 (2 * line) (2 * bit) = white ↔
      font l.toNat line >>> bit &&& 1 = 1 := by
  unfold letterColor
  rw [Nat.mul_div_cancel_left line (by decide), Nat.mul_div_cancel_left bit (by decide)]
  split
  · exact iff_of_true rfl ‹_›
  · exact iff_of_false (fun heq => white_ne_black heq.symm) ‹_›

variable {pixel : Nat → Nat → PixelColor}

theorem seenGlyph_eq (hpixel : ∀ px < 1280, ∀ py < 800, pixel px py = rowsColor font rows px py)
    (hi : i < 25) (hj : j < 80) (hseven : (letterAt rows i j).toNat < 128) :
    seenGlyph pixel i j = glyph (letterAt rows i j).toNat := by
  apply List.map_congr_left
  intro line hline
  have hline := List.mem_range.mp hline
  have hbit : ∀ bit ∈ List.range 8,
      (if pixel (16 * j + 2 * bit) (32 * i + 2 * line) = white then 2 ^ bit else 0) =
        if font (letterAt rows i j).toNat line >>> bit &&& 1 = 1 then 2 ^ bit else 0 := by
    intro bit hbit
    have hbit := List.mem_range.mp hbit
    rw [hpixel _ (by omega) _ (by omega), rowsColor_letter (by omega) (by omega)]
    simp only [letterColor_white]
  unfold seenRow
  rw [List.map_congr_left hbit]
  exact sum_bits _ (font_byte _ hseven line hline)

theorem readLetter_eq (hpixel : ∀ px < 1280, ∀ py < 800, pixel px py = rowsColor font rows px py)
    (hi : i < 25) (hj : j < 80) (hseven : (letterAt rows i j).toNat < 128) :
    readLetter pixel i j = some (seen (letterAt rows i j).toNat) := by
  have hglyph := seenGlyph_eq hpixel hi hj hseven
  generalize (letterAt rows i j).toNat = l at hglyph hseven
  unfold readLetter seen
  rw [hglyph, List.find?_range_eq_some]
  by_cases hvisible : Visible l
  · rw [if_pos hvisible]
    refine ⟨decide_eq_true rfl, List.mem_range.mpr hseven, fun k hk => ?_⟩
    simp only [Bool.not_eq_true', decide_eq_false_iff_not]
    intro heq
    have hsame := glyph_injective hvisible (by omega) heq.symm
    omega
  · rw [if_neg hvisible]
    have hnul := glyph_blank 0 (by decide) (by decide)
    have hblank := hnul.trans (glyph_blank l hseven hvisible).symm
    exact ⟨decide_eq_true hblank, List.mem_range.mpr (by decide), fun k hk => by omega⟩

end letters

/-- After the call of `m`, the slot of an earlier call is drawn, not yet written again, and shows
the message of that call. -/
structure StaysDrawn (earlier : List Message) (m : Message) (before : List Message)
    (stored : Message) (later : List Message) : Prop where
  calls : earlier ++ [m] = before ++ stored :: later
  lap : later.length < 40
  low : firstDrawn (earlier.length + 1) ≤ before.length % 40
  high : before.length % 40 < (earlier.length + 1) % 40
  fills : stored.FillsRow (slotBefore before)

def screenLine (earlier before : List Message) : Nat :=
  before.length % 40 - firstDrawn (earlier.length + 1)

theorem StaysDrawn.row {earlier before later : List Message} {m stored : Message}
    (h : StaysDrawn earlier m before stored later) :
    ∃ row, ((terminalAfter earlier).printf m).2[screenLine earlier before]? = some row ∧
      row.string = stored.line ∧ screenLine earlier before < 25 := by
  have hcalled := (terminalAfter_called earlier).printf m
  have hrows : ((terminalAfter earlier).printf m).2 =
    ((terminalAfter earlier).printf m).1.drawRows := rfl
  have hdrawn : screenLine earlier before < rowsDrawn (earlier.length + 1) := by
    have hlow := h.low
    have hhigh := h.high
    unfold screenLine rowsDrawn firstDrawn at *
    omega
  have hline := Nat.lt_of_lt_of_le hdrawn (rowsDrawn_le _)
  refine ⟨((terminalAfter earlier).printf m).1.drawRow (screenLine earlier before), ?_, ?_,
    by omega⟩
  · rw [hrows, hcalled.drawRows, List.getElem?_map, List.getElem?_range hdrawn]
    rfl
  · have hkept := terminalAfter_row before stored later h.lap
    rw [← h.calls] at hkept
    refine (printf_drawRow earlier m h.low h.high).2.trans (hkept.trans ?_)
    exact (Message.formatString_eq_line_iff (slotBefore_length before)).mpr h.fills

theorem StaysDrawn.letterAt {earlier before later : List Message} {m stored : Message}
    (h : StaysDrawn earlier m before stored later) (column : Nat) :
    letterAt ((terminalAfter earlier).printf m).2 (screenLine earlier before) column =
      stored.line.getD column nul ∧ screenLine earlier before < 25 := by
  obtain ⟨row, hrow, hstring, hline⟩ := h.row
  refine ⟨?_, hline⟩
  unfold SelfmadeOS.letterAt
  rw [hrow, ← hstring]

theorem getD_seven {text : List Char} (h : ∀ c ∈ text, c.toNat < 128) (column : Nat) :
    (text.getD column nul).toNat < 128 := by
  rw [List.getD_eq_getElem?_getD]
  cases hget : text[column]? with
  | none => decide
  | some c => exact h c (List.mem_of_getElem? hget)

/-- In any order of steps: once a call of `printf` is flushed, the messages that its rows show can
be read off the pixels of the screen, letter by letter. -/
theorem session_text {σ : Type} {execute : Executes σ} {view : σ → Gpu}
    (hdocumented : Documented execute view) {k : Nat} (hlow : 2 ≤ k) (hk : k ≤ 16)
    {world : World σ} {x : Session σ} (h : (sessionSystem execute (2 ^ k) world).Reachable x)
    (hidle : x.queue.driver = .idle) (hfresh : Fresh (view world.device))
    (setUp b : Nat → Buffers) (memory2d : Nat → Nat) (before' later' : List GpuOp)
    {earlier before later : List Message} {m stored : Message}
    (hhistory : x.history = screenHistory font setUp memory2d before' (terminalAfter earlier) m b
      later')
    (hrunning : ∀ op ∈ before' ++ [.command .transferToHost2d (b 0) (memory2d 0),
      .command .resourceFlush (b 1) (memory2d 1)], Running (memory2d 2) op)
    (hlater : ∀ op ∈ later', op.isCommand = false)
    (hstays : StaysDrawn earlier m before stored later)
    (hseven : ∀ c ∈ stored.line, c.toNat < 128) {column : Nat} (hcolumn : column < 80) :
    readLetter (view x.world.device).pixel (screenLine earlier before) column =
      some (seen (stored.line.getD column nul).toNat) := by
  obtain ⟨hletter, hline⟩ := hstays.letterAt column
  have hpixel := session_pixels hdocumented hlow hk h hidle hfresh (terminalAfter_called earlier)
    hhistory hrunning hlater
  rw [← hletter]
  exact readLetter_eq hpixel hline hcolumn (hletter ▸ getD_seven hseven column)

theorem hallo_text : hallo.text = ['h', 'a', 'l', 'l', 'o', ' ', 'w', 'o', 'r', 'l', 'd'] ∧
    hallo.memoryText = ['h', 'a', 'l', 'l', 'o', ' ', 'w', 'o', 'r', 'l', 'd'] := by
  decide +kernel

theorem hallo_stays : StaysDrawn [] hallo [] hallo [] where
  calls := rfl
  lap := by decide
  low := by decide
  high := by decide
  fills := by
    have hblank : slotBefore [] = List.replicate maxTextLength nul := rfl
    constructor
    · rw [hallo_text.1, hallo_text.2]
      exact fun c hc => absurd hc List.not_mem_nil
    · rw [hblank]
      exact fun c hc => List.eq_of_mem_replicate (List.mem_of_mem_drop hc)

theorem hallo_seven : ∀ c ∈ hallo.line, c.toNat < 128 := by
  unfold Message.line
  rw [hallo_text.1, List.forall_mem_append]
  constructor
  · simp
  · intro c hc
    rw [List.eq_of_mem_replicate hc]
    decide

theorem session_text_hallo : ∃ x, (sessionSystem Gpu.execute (2 ^ 6) freshWorld).Reachable x ∧
    ∀ column < 80, readLetter x.world.device.pixel 0 column =
      some (seen (hallo.line.getD column nul).toNat) := by
  obtain ⟨x, hreach, hidle, hhistory⟩ := exists_screenHistory font hallo
  exact ⟨x, hreach, fun column hcolumn => session_text gpu_documented (k := 6) (by decide)
    (by decide) hreach hidle ⟨by decide, rfl⟩ exampleBuffers exampleBuffers exampleFrames [] []
    hhistory (fun op hop => (example_commands op hop).2.2)
    (fun op hop => absurd hop List.not_mem_nil) hallo_stays hallo_seven hcolumn⟩

end SelfmadeOS
