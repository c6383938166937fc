import SelfmadeOS.GpuPicture
import SelfmadeOS.Painting
import SelfmadeOS.Font
import SelfmadeOS.TerminalRows

/-!
# What the screen shows of the terminal

A pixel that is drawn is a store of four bytes to the frame. A call of `printf` draws the whole
screen, transfers it and flushes it.
-/

namespace SelfmadeOS
set_option autoImplicit false
open ByteMemory CStrings Records

def PixelColor.value (c : PixelColor) : Nat :=
  c.b.toNat + 256 * (c.g.toNat + 256 * (c.r.toNat + 256 * c.a.toNat))

def drawStore (display : Nat) (w : PixelWrite) : Store :=
  ⟨((display : Int) + 4 * w.index).toNat, ⟨4, w.color.value⟩⟩

def pixelOf (bytes : Bytes) (a : Nat) : PixelColor :=
  ⟨⟨bytes a⟩, ⟨bytes (a + 1)⟩, ⟨bytes (a + 2)⟩, ⟨bytes (a + 3)⟩⟩

section pixels
variable {m : Bytes} {display i : Nat} {w : PixelWrite}

theorem ofNat_byte (b : UInt8) (rest : Nat) :
    BitVec.ofNat 8 (b.toNat + 256 * rest) = b.toBitVec := by
  apply BitVec.eq_of_toNat_eq
  have hlt := b.toNat_lt
  rw [BitVec.toNat_ofNat]
  show _ = b.toNat
  omega

theorem div_byte (b : UInt8) (rest : Nat) : (b.toNat + 256 * rest) / 256 = rest := by
  have hlt := b.toNat_lt
  omega

theorem digits_value (c : PixelColor) :
    digits 4 c.value = [c.b.toBitVec, c.g.toBitVec, c.r.toBitVec, c.a.toBitVec] := by
  have hlast : BitVec.ofNat 8 c.a.toNat = c.a.toBitVec := ofNat_byte c.a 0
  simp only [digits, PixelColor.value, ofNat_byte, div_byte, hlast]

theorem pixelOf_draw (hindex : 0 ≤ w.index) : pixelOf ((drawStore display w).apply m)
    (display + 4 * i) = if (i : Int) = w.index then w.color else
      pixelOf m (display + 4 * i) := by
  obtain ⟨n, hn⟩ := Int.eq_ofNat_of_zero_le hindex
  have haddress : (drawStore display w).address = display + 4 * n := by
    unfold drawStore
    dsimp only
    omega
  have hstore : (drawStore display w).apply m =
      Writes.apply m (Writes.inOrder (display + 4 * n)
        [w.color.b.toBitVec, w.color.g.toBitVec, w.color.r.toBitVec, w.color.a.toBitVec]) := by
    rw [← haddress, ← digits_value]
    rfl
  rw [hstore, hn]
  by_cases hi : n = i
  · subst hi
    have hown : ∀ j b, [w.color.b.toBitVec, w.color.g.toBitVec, w.color.r.toBitVec,
        w.color.a.toBitVec][j]? = some b → Writes.apply m (Writes.inOrder (display + 4 * n)
        [w.color.b.toBitVec, w.color.g.toBitVec, w.color.r.toBitVec, w.color.a.toBitVec])
        (display + 4 * n + j) = b := fun j b hj => Writes.apply_inOrder m hj
    have hfirst := hown 0 _ rfl
    rw [Nat.add_zero] at hfirst
    unfold pixelOf
    rw [if_pos rfl, hfirst, hown 1 _ rfl, hown 2 _ rfl, hown 3 _ rfl]
  · have hother : ∀ j < 4, Writes.apply m (Writes.inOrder (display + 4 * n)
        [w.color.b.toBitVec, w.color.g.toBitVec, w.color.r.toBitVec, w.color.a.toBitVec])
        (display + 4 * i + j) = m (display + 4 * i + j) := by
      intro j hj
      apply Writes.apply_other
      intro place hplace heq
      obtain ⟨k, hk, hplace'⟩ := Writes.mem_inOrder.mp hplace
      have hlt := (List.getElem?_eq_some_iff.mp hk).1
      simp only [List.length_cons, List.length_nil] at hlt
      omega
    have hfirst := hother 0 (by decide)
    rw [Nat.add_zero] at hfirst
    unfold pixelOf
    rw [if_neg (by omega), hfirst, hother 1 (by decide), hother 2 (by decide), hother 3 (by decide)]

/-- The frame is the display that the drawing functions paint. -/
theorem pixelOf_draws {pixels : List PixelWrite} (h : ∀ w ∈ pixels, 0 ≤ w.index) :
    pixelOf (storeAll m (pixels.map (drawStore display))) (display + 4 * i) =
      paint (fun j => pixelOf m (display + 4 * j.toNat)) pixels i := by
  induction pixels generalizing m with
  | nil => rfl
  | cons w pixels ih =>
    obtain ⟨hw, hpixels⟩ := List.forall_mem_cons.mp h
    refine (ih hpixels).trans (Writes.apply_congr _ ?_)
    show pixelOf ((drawStore display w).apply m) (display + 4 * (i : Int).toNat) = Function.update
      (fun j : Int => pixelOf m (display + 4 * j.toNat)) w.index w.color i
    rw [Int.toNat_natCast, pixelOf_draw hw, Function.update_apply, Int.toNat_natCast]

end pixels

/-- The pixel that drawn rows give to a place: each row has 80 letters of 16 by 16 pixels, and a
gap below it. -/
def rowsColor (font : Nat → Nat → Nat) (rows : List TextRow) (px py : Nat) : PixelColor :=
  match rows[py / 32]? with
  | some row =>
    if py % 32 < 16 then
      letterColor font (row.string.getD (px / 16) nul) white 2 (py % 32) (px % 16)
    else black
  | none => black

section calls
variable {font : Nat → Nat → Nat} {t : Terminal} {n px py : Nat}

theorem clearScreen_black (display : Int → PixelColor) (hpx : px < 1280) (hpy : py < 800) :
    paint display clearScreen (pixelIndex px py) = black := by
  apply paint_drawn
  · refine ⟨drawPixel px py black, List.mem_flatMap.mpr ⟨px, List.mem_range.mpr hpx, ?_⟩, rfl⟩
    exact List.mem_map.mpr ⟨py, List.mem_range.mpr hpy, rfl⟩
  · intro w hw _
    obtain ⟨i, -, hcolumn⟩ := List.mem_flatMap.mp hw
    obtain ⟨j, -, rfl⟩ := List.mem_map.mp hcolumn
    rfl

/-- A pixel that is drawn for a row lies in the sixteen lines of that row. -/
theorem row_pixel {i : Nat} (hi : i < 20) {string : List Char} (hpx : px < 1280) (hpy : py < 800)
    {w : PixelWrite} (hw : w ∈ drawText font 0 (i * 4 * 8 : Nat) string maxTextLength white 2)
    (hindex : w.index = pixelIndex px py) : i = py / 32 ∧ py % 32 < 16 ∧
      w.color = letterColor font (string.getD (px / 16) nul) white 2 (py % 32) (px % 16) := by
  have hx : 0 + 8 * 2 * maxTextLength ≤ 1280 := by decide
  obtain ⟨l, hl, row, hrow, column, hcolumn, hplace, hline, hcolor⟩ :=
    drawText_pixel hx (by omega) hpx hpy hw hindex
  have hletter : l = px / 16 := by omega
  have hline' : row = py % 32 := by omega
  have hcolumn' : column = px % 16 := by omega
  subst hletter hline' hcolumn'
  exact ⟨by omega, hrow, hcolor⟩

theorem rowsDrawn_lt {i : Nat} (hi : i < rowsDrawn n) : i < 20 :=
  Nat.lt_of_lt_of_le hi (rowsDrawn_le n)

/-- The whole screen after a call: the rows that it draws, on black. -/
theorem CalledTimes.paint_rows (h : CalledTimes t n) (display : Int → PixelColor)
    (hpx : px < 1280) (hpy : py < 800) :
    paint display (clearScreen ++ t.drawRows.flatMap fun row =>
      drawText font row.x row.y row.string maxTextLength white 2) (pixelIndex px py) =
      rowsColor font t.drawRows px py := by
  have hwrites : ∀ w ∈ t.drawRows.flatMap fun row =>
      drawText font row.x row.y row.string maxTextLength white 2, w.index = pixelIndex px py →
      py / 32 < rowsDrawn n ∧ py % 32 < 16 ∧ w.color =
        letterColor font ((t.drawRow (py / 32)).string.getD (px / 16) nul) white 2 (py % 32)
          (px % 16) := by
    intro w hw hindex
    rw [h.drawRows] at hw
    obtain ⟨row, hrow, hw⟩ := List.mem_flatMap.mp hw
    obtain ⟨i, hi, rfl⟩ := List.mem_map.mp hrow
    have hi := List.mem_range.mp hi
    obtain ⟨rfl, hline, hcolor⟩ := row_pixel (rowsDrawn_lt hi) hpx hpy hw hindex
    exact ⟨hi, hline, hcolor⟩
  have hsplit : ∀ texts, paint display (clearScreen ++ texts) =
      paint (paint display clearScreen) texts := by
    intro texts
    unfold paint
    rw [List.map_append, Writes.apply_append]
  rw [hsplit]
  by_cases hdrawn : py / 32 < rowsDrawn n ∧ py % 32 < 16
  · obtain ⟨hrow, hline⟩ := hdrawn
    have hget : t.drawRows[py / 32]? = some (t.drawRow (py / 32)) := by
      rw [h.drawRows, List.getElem?_map, List.getElem?_range hrow]
      rfl
    unfold rowsColor
    rw [hget]
    refine (paint_drawn _ ?_ fun w hw hindex => (hwrites w hw hindex).2.2).trans (if_pos hline).symm
    refine ⟨_, List.mem_flatMap.mpr ⟨_, List.mem_of_getElem? hget, mem_drawText.mpr
      ⟨px / 16, ?_, py % 32, hline, px % 16, Nat.mod_lt _ (by decide), rfl⟩⟩, ?_⟩
    · show px / 16 < 80
      omega
    · have hx : (t.drawRow (py / 32)).x + (px / 16 * 2 * 8 : Nat) + (px % 16 : Nat) = px := by
        show (0 : Int) + (px / 16 * 2 * 8 : Nat) + (px % 16 : Nat) = px
        omega
      have hy : (t.drawRow (py / 32)).y + (py % 32 : Nat) = py := by
        show ((py / 32 : Nat) : Int) * 4 * 8 + (py % 32 : Nat) = py
        omega
      rw [hx, hy]
      rfl
  · have hblack : rowsColor font t.drawRows px py = black := by
      unfold rowsColor
      split
      · rename_i row hget
        have hlt := (List.getElem?_eq_some_iff.mp hget).1
        rw [h.drawRows, List.length_map, List.length_range] at hlt
        exact if_neg fun hline => hdrawn ⟨hlt, hline⟩
      · rfl
    rw [hblack, paint_other, clearScreen_black display hpx hpy]
    intro w hw hindex
    obtain ⟨hrow, hline, -⟩ := hwrites w hw hindex
    exact hdrawn ⟨hrow, hline⟩

end calls

def printfOps (font : Nat → Nat → Nat) (display : Nat) (t : Terminal) (m : Message)
    (b : Nat → Buffers) (memory2d : Nat → Nat) : List GpuOp :=
  (t.draws font m).map (fun w => .store (drawStore display w)) ++
    [.command .transferToHost2d (b 0) (memory2d 0), .command .resourceFlush (b 1) (memory2d 1)]

def Gpu.pixel (g : Gpu) (px py : Nat) : PixelColor :=
  pixelOf (g.shown 0) (4 * (py * screenWidth + px))

theorem pixelOf_congr {m m' : Bytes} {a : Nat} (h : ∀ j < 4, m (a + j) = m' (a + j)) :
    pixelOf m a = pixelOf m' a := by
  have hfirst := h 0 (by decide)
  rw [Nat.add_zero] at hfirst
  unfold pixelOf
  rw [hfirst, h 1 (by decide), h 2 (by decide), h 3 (by decide)]

theorem pixelOf_shift (m : Bytes) (display a : Nat) :
    pixelOf (fun i => m (display + i)) a = pixelOf m (display + a) := rfl

section steps
variable {display : Nat} {p : Picture}

theorem steps_append (first second : List GpuOp) :
    p.steps display (first ++ second) = (p.steps display first).steps display second :=
  List.foldl_append

theorem steps_draws (stores : List Store) :
    p.steps display (stores.map .store) = { p with frame := storeAll p.frame stores } := by
  induction stores generalizing p with
  | nil => rfl
  | cons s stores ih => exact ih

theorem steps_stores {ops : List GpuOp} (h : ∀ op ∈ ops, op.isCommand = false) :
    (p.steps display ops).shown = p.shown := by
  induction ops generalizing p with
  | nil => rfl
  | cons op ops ih =>
    obtain ⟨hop, hops⟩ := List.forall_mem_cons.mp h
    cases op with
    | store s => exact ih hops
    | command c b memory2d => cases hop

theorem printfOps_shown (font : Nat → Nat → Nat) (t : Terminal) (m : Message)
    (b : Nat → Buffers) (memory2d : Nat → Nat) :
    (p.steps display (printfOps font display t m b memory2d)).shown = fun i =>
      storeAll p.frame ((t.draws font m).map (drawStore display)) (display + i) := by
  have hmap : (t.draws font m).map (fun w => GpuOp.store (drawStore display w)) =
      ((t.draws font m).map (drawStore display)).map .store := by rw [List.map_map]; rfl
  rw [printfOps, steps_append, hmap, steps_draws]
  generalize (t.draws font m).map (drawStore display) = stores
  rfl

theorem printfOps_pixel {n px py : Nat} (font : Nat → Nat → Nat) {t : Terminal}
    (h : CalledTimes t n) (m : Message) (b : Nat → Buffers) (memory2d : Nat → Nat)
    (hpx : px < 1280) (hpy : py < 800) :
    pixelOf (p.steps display (printfOps font display t m b memory2d)).shown
        (4 * (py * screenWidth + px)) = rowsColor font (t.printf m).2 px py := by
  have hindex : ∀ w ∈ t.draws font m, 0 ≤ w.index :=
    fun w hw => (Box.index_of_screen (h.draws_box font m w hw)).1
  have hplace : pixelIndex px py = (py * screenWidth + px : Nat) := by
    unfold pixelIndex PixelWrite.index drawPixel
    simp
  have hpaint : pixelOf (storeAll p.frame ((t.draws font m).map (drawStore display)))
      (display + 4 * (py * screenWidth + px)) =
      paint (fun j => pixelOf p.frame (display + 4 * j.toNat)) (t.draws font m)
        (py * screenWidth + px : Nat) := pixelOf_draws hindex
  have hrows : paint (fun j => pixelOf p.frame (display + 4 * j.toNat)) (t.draws font m)
      (pixelIndex px py) = rowsColor font (t.printf m).1.drawRows px py :=
    (h.printf m).paint_rows _ hpx hpy
  have hsame : (t.printf m).2 = (t.printf m).1.drawRows := rfl
  rw [printfOps_shown, pixelOf_shift (storeAll p.frame _), hpaint, hsame, ← hrows, ← hplace]

end steps

/-- What has been done when a call of `printf` is the last that was flushed: the setting up,
anything that only stores, transfers and flushes, the call, and stores. -/
def screenHistory (font : Nat → Nat → Nat) (setUp : Nat → Buffers) (memory2d : Nat → Nat)
    (before : List GpuOp) (t : Terminal) (m : Message) (b : Nat → Buffers) (later : List GpuOp) :
    List GpuOp :=
  startup setUp memory2d ++ (before ++ printfOps font (memory2d 2) t m b memory2d ++ later)

theorem session_pixels {σ : Type} {execute : Executes σ} {view : σ → Gpu}
    (hdocumented : Documented execute view) {k : Nat} (hlow : 2 ≤ k) (hk : k ≤ 16)
    {world : World σ} {x : Session σ} (h : (sessionSystem execute (2 ^ k) world).Reachable x)
    (hidle : x.queue.driver = .idle) (hfresh : Fresh (view world.device))
    {font : Nat → Nat → Nat} {setUp b : Nat → Buffers} {memory2d : Nat → Nat}
    {before later : List GpuOp} {t : Terminal} {n : Nat} (hcalled : CalledTimes t n) {m : Message}
    (hhistory : x.history = screenHistory font setUp memory2d before t m b later)
    (hrunning : ∀ op ∈ before ++ [.command .transferToHost2d (b 0) (memory2d 0),
      .command .resourceFlush (b 1) (memory2d 1)], Running (memory2d 2) op)
    (hlater : ∀ op ∈ later, op.isCommand = false) :
    ∀ px < 1280, ∀ py < 800,
      (view x.world.device).pixel px py = rowsColor font (t.printf m).2 px py := by
  intro px hpx py hpy
  obtain ⟨hbefore, hcommands⟩ := List.forall_mem_append.mp hrunning
  have hstores : ∀ op ∈ later, Running (memory2d 2) op := by
    intro op hop
    cases op with
    | store s => trivial
    | command c b memory2d => exact absurd (hlater _ hop) (by simp [GpuOp.isCommand])
  have hdraws : ∀ op ∈ printfOps font (memory2d 2) t m b memory2d, Running (memory2d 2) op := by
    intro op hop
    rcases List.mem_append.mp hop with hdraw | hcommand
    · obtain ⟨w, -, rfl⟩ := List.mem_map.mp hdraw
      trivial
    · exact hcommands op hcommand
  have hall := List.forall_mem_append.mpr ⟨List.forall_mem_append.mpr ⟨hbefore, hdraws⟩, hstores⟩
  obtain ⟨hshows, -, -⟩ := session_shows hlow hk hdocumented h hidle hfresh hhistory hall
  have hshown := hshows.shown
  rw [steps_append, steps_append, steps_stores hlater] at hshown
  generalize Picture.steps _ (startPicture execute view world setUp memory2d) _ = p at hshown
  have hpixel : pixelOf (p.steps (memory2d 2) (printfOps font (memory2d 2) t m b memory2d)).shown
      (4 * (py * screenWidth + px)) = rowsColor font (t.printf m).2 px py :=
    printfOps_pixel font hcalled m b memory2d hpx hpy
  rw [← hpixel]
  apply pixelOf_congr
  intro j hj
  apply hshown
  have hframe : frameBytes = 4096000 := rfl
  have hwidth : screenWidth = 1280 := rfl
  rw [hframe, hwidth]
  omega

/-- In any order of steps: the screen shows the rows of the last call of `printf`, letter by
letter in the glyphs of the font, and is black elsewhere. -/
theorem session_screen {σ : Type} {execute : Executes σ} {view : σ → Gpu}
    (hdocumented : Documented execute view) {k : Nat} (hlow : 2 ≤ k) (hk : k ≤ 16)
    {world : World σ} {x : Session σ} (h : (sessionSystem execute (2 ^ k) world).Reachable x)
    (hidle : x.queue.driver = .idle) (hfresh : Fresh (view world.device)) (font : Nat → Nat → Nat)
    (setUp b : Nat → Buffers) (memory2d : Nat → Nat) (before later : List GpuOp)
    (contents : Slots) (earlier : List Message) (m : Message)
    (hhistory : x.history = screenHistory font setUp memory2d before
      ((Terminal.new contents).after earlier) m b later)
    (hrunning : ∀ op ∈ before ++ [.command .transferToHost2d (b 0) (memory2d 0),
      .command .resourceFlush (b 1) (memory2d 1)], Running (memory2d 2) op)
    (hlater : ∀ op ∈ later, op.isCommand = false) {px py : Nat} (hpx : px < 1280)
    (hpy : py < 800) :
    (view x.world.device).pixel px py =
      rowsColor font (((Terminal.new contents).after earlier).printf m).2 px py :=
  session_pixels hdocumented hlow hk h hidle hfresh ((calledTimes_new contents).after earlier)
    hhistory hrunning hlater px hpx py hpy

def hallo : Message where
  fom := ['h', 'a', 'l', 'l', 'o', ' ', 'w', 'o', 'r', 'l', 'd', nul]
  args := fun _ => ⟨0, CString.empty⟩

theorem example_commands :
    ∀ op ∈ [GpuOp.command .transferToHost2d (exampleBuffers 0) (exampleFrames 0),
      .command .resourceFlush (exampleBuffers 1) (exampleFrames 1)],
      op.Allocated ∧ op.NotFirst ∧ Running 0x10000 op := by
  simp only [List.forall_mem_cons]
  exact ⟨⟨example_allocated _ 0 (by decide), nofun, example_running (Or.inl rfl) 0⟩,
    ⟨example_allocated _ 1 (by decide), nofun, example_running (Or.inr rfl) 1⟩,
    fun _ h => absurd h List.not_mem_nil⟩

theorem exists_screenHistory (font : Nat → Nat → Nat) (m : Message) : ∃ x,
    (sessionSystem Gpu.execute (2 ^ 6) freshWorld).Reachable x ∧ x.queue.driver = .idle ∧
      x.history = screenHistory font exampleBuffers exampleFrames [] (terminalAfter []) m
        exampleBuffers [] := by
  have hops : ∀ op ∈ printfOps font 0x10000 (terminalAfter []) m exampleBuffers exampleFrames,
      op.Allocated ∧ op.NotFirst := by
    intro op hop
    rcases List.mem_append.mp hop with hdraw | hcommand
    · obtain ⟨w, -, rfl⟩ := List.mem_map.mp hdraw
      exact ⟨trivial, trivial⟩
    · exact ⟨(example_commands op hcommand).1, (example_commands op hcommand).2.1⟩
  obtain ⟨x, hreach, hidle, hhistory⟩ := exists_startup (fun op hop => (hops op hop).1)
    fun op hop => (hops op hop).2
  refine ⟨x, hreach, hidle, ?_⟩
  have hframe : exampleFrames 2 = 0x10000 := rfl
  rw [hhistory, screenHistory, List.append_nil, List.nil_append, hframe]

theorem session_screen_hallo : ∃ x, (sessionSystem Gpu.execute (2 ^ 6) freshWorld).Reachable x ∧
    ∀ px < 1280, ∀ py < 800, x.world.device.pixel px py =
      rowsColor font ((terminalAfter []).printf hallo).2 px py := by
  obtain ⟨x, hreach, hidle, hhistory⟩ := exists_screenHistory font hallo
  exact ⟨x, hreach, fun px hpx py hpy => session_screen gpu_documented (k := 6) (by decide)
    (by decide) hreach hidle ⟨by decide, rfl⟩ font exampleBuffers exampleBuffers exampleFrames []
    [] Slots.blank [] hallo hhistory (fun op hop => (example_commands op hop).2.2)
    (fun op hop => absurd hop List.not_mem_nil) hpx hpy⟩

end SelfmadeOS
