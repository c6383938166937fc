import SelfmadeOS.GpuAnswers
import SelfmadeOS.GpuProgress

/-!
# Three copies of the picture

The kernel draws into memory, a transfer copies the frame to the host, and a flush puts it on the
screen. Once the display is set up, a session does no more to the picture than these three.
-/

namespace SelfmadeOS
set_option autoImplicit false
open ByteMemory Records

/-- The frame by its addresses in memory; what the host has of it, and what the screen shows. -/
structure Picture where
  frame : Bytes
  host : Bytes
  shown : Bytes

def Picture.step (display : Nat) (p : Picture) : GpuOp → Picture
  | .store s => { p with frame := s.apply p.frame }
  | .command .transferToHost2d _ _ => { p with host := fun i => p.frame (display + i) }
  | .command .resourceFlush _ _ => { p with shown := p.host }
  | .command _ _ _ => p

def Picture.steps (display : Nat) (p : Picture) (ops : List GpuOp) : Picture :=
  ops.foldl (Picture.step display) p

/-- What the kernel does once the display is set up: it stores anything, or it transfers or
flushes the frame, with blocks beside the frame. -/
def Running (display : Nat) : GpuOp → Prop
  | .store _ => True
  | .command c b memory2d => (c = .transferToHost2d ∨ c = .resourceFlush) ∧
      ∀ i < frameBytes, OutsideBlocks (c.blocks b memory2d) (display + i)

def GpuOp.isCommand : GpuOp → Bool
  | .store _ => false
  | .command _ _ _ => true

structure Shows {σ : Type} (view : σ → Gpu) (w : World σ) (p : Picture) : Prop where
  resource : ∃ res, (view w.device).resources 1 = some res ∧ res.width = screenWidth ∧
    res.height = screenHeight ∧ res.backing = [⟨w.display, frameBytes⟩] ∧
    ∀ i < frameBytes, res.pixels i = p.host i
  scanout : (view w.device).scanouts 0 = some ⟨screenRect, 1⟩
  frame : ∀ i < frameBytes, w.mem (w.display + i) = p.frame (w.display + i)
  shown : ∀ i < frameBytes, (view w.device).shown 0 i = p.shown i

section copies
variable {res : Resource} {mem shown : Bytes} {display i : Nat}

theorem screen_covers (hi : i < frameBytes) :
    screenRect.Covers (i % (4 * screenWidth) / 4) (i / (4 * screenWidth)) := by
  have hframe : frameBytes = 4 * screenWidth * screenHeight := rfl
  have hrow : i / (4 * screenWidth) < screenHeight := Nat.div_lt_of_lt_mul (hframe ▸ hi)
  have hcolumn : i % (4 * screenWidth) < 4 * screenWidth := Nat.mod_lt _ (by decide)
  refine ⟨⟨Nat.zero_le _, ?_⟩, Nat.zero_le _, ?_⟩
  · show _ < 0 + screenWidth
    omega
  · show _ < 0 + screenHeight
    omega

theorem transfer_screen (hwidth : res.width = screenWidth)
    (hbacking : res.backing = [⟨display, frameBytes⟩]) (hi : i < frameBytes) :
    (res.transfer mem screenRect 0).pixels i = mem (display + i) := by
  have hplace : 0 + (i / (4 * screenWidth) - 0) * (4 * screenWidth) +
      (i % (4 * screenWidth) - 4 * 0) = i := by
    rw [Nat.zero_add, Nat.sub_zero, Nat.mul_zero, Nat.sub_zero, Nat.mul_comm]
    exact Nat.div_add_mod i (4 * screenWidth)
  unfold Resource.transfer
  dsimp only
  rw [hwidth, hbacking, if_pos (screen_covers hi)]
  show (backingByte mem _ (0 + (i / (4 * screenWidth) - 0) * (4 * screenWidth) +
    (i % (4 * screenWidth) - 4 * 0))).getD _ = _
  rw [hplace, backingByte, if_pos hi]
  rfl

theorem refresh_screen (hwidth : res.width = screenWidth) (hi : i < frameBytes) (id : Nat) :
    res.refresh ⟨screenRect, id⟩ screenRect shown i = res.pixels i := by
  have hcovers := screen_covers hi
  have hplace : (0 + i / (4 * screenWidth)) * (4 * screenWidth) + 4 * 0 +
      i % (4 * screenWidth) = i := by
    rw [Nat.zero_add, Nat.mul_zero, Nat.add_zero, Nat.mul_comm]
    exact Nat.div_add_mod i (4 * screenWidth)
  unfold Resource.refresh
  dsimp only
  rw [hwidth]
  show (if screenRect.Covers (0 + i % (4 * screenWidth) / 4) (0 + i / (4 * screenWidth)) then
    res.pixels ((0 + i / (4 * screenWidth)) * (4 * screenWidth) + 4 * 0 + i % (4 * screenWidth))
    else _) = _
  rw [hplace, Nat.zero_add, Nat.zero_add, if_pos hcovers]

end copies

/-- A device that has a display and not yet the resource. -/
structure Fresh (g : Gpu) : Prop where
  modes : 0 < g.modes.length
  resource : g.resources 1 = none

section results
variable {g : Gpu} {mem : Bytes} {res : Resource} {memory2d : Nat}

theorem setResource_same (g : Gpu) (id : Nat) (res : Resource) :
    (g.setResource id res).resources id = some res := Function.update_self id _ g.resources

theorem create_result (h : Fresh g) :
    g.executeRequest mem (Command.init2DFrameBuffer.request memory2d) =
      (g.setResource 1 ⟨screenWidth, screenHeight, 1, [], fun _ => 0⟩, respOkNodata) := by
  have hnew : ¬((1 : Nat) = 0 ∨ (none : Option Resource).isSome) := by decide
  have hformat : 1 ∈ gpuFormats := by decide
  simp only [Command.request, Gpu.executeRequest, h.resource, if_neg hnew, if_pos hformat]

theorem attach_result (h : g.resources 1 = some res) (hbacking : res.backing = []) :
    g.executeRequest mem (Command.connectResourceToMemory.request memory2d) =
      (g.setResource 1 { res with backing := [⟨memory2d, frameBytes⟩] }, respOkNodata) := by
  simp only [Command.request, Gpu.executeRequest, h, if_pos hbacking]

theorem scanout_result (h : g.resources 1 = some res) (hmodes : 0 < g.modes.length)
    (hinside : screenRect.Inside res.width res.height) :
    g.executeRequest mem (Command.setScanoutParam.request memory2d) =
      ({ g with scanouts := Function.update g.scanouts 0 (some ⟨screenRect, 1⟩) },
        respOkNodata) := by
  have hid : (1 : Nat) ≠ 0 := by decide
  simp only [Command.request, Gpu.executeRequest, if_pos hmodes, if_neg hid, h, if_pos hinside]

theorem transfer_result (h : g.resources 1 = some res) (hbacking : res.backing ≠ [])
    (hinside : screenRect.Inside res.width res.height) :
    g.executeRequest mem (Command.transferToHost2d.request memory2d) =
      (g.setResource 1 (res.transfer mem screenRect 0), respOkNodata) := by
  simp only [Command.request, Gpu.executeRequest, h, if_neg hbacking, if_pos hinside]

theorem flush_result (h : g.resources 1 = some res)
    (hinside : screenRect.Inside res.width res.height) :
    g.executeRequest mem (Command.resourceFlush.request memory2d) =
      (g.flush 1 res screenRect, respOkNodata) := by
  simp only [Command.request, Gpu.executeRequest, h, if_pos hinside]

end results

section steps
variable {σ : Type} {execute : Executes σ} {view : σ → Gpu} {s : Outcome σ} {p : Picture}
variable {c : Command} {b : Buffers} {memory2d : Nat}

theorem Shows.serve_frame (h : Shows view s.world p)
    (hrunning : Running s.world.display (.command c b memory2d)) :
    (s.serve execute (.command c b memory2d)).world.display = s.world.display ∧
      ∀ i < frameBytes, (s.world.filled c b memory2d).mem (s.world.display + i) =
          p.frame (s.world.display + i) ∧
        (s.serve execute (.command c b memory2d)).world.mem (s.world.display + i) =
          p.frame (s.world.display + i) := by
  obtain ⟨hc, haside⟩ := hrunning
  constructor
  · rw [serve_display, if_neg]
    rcases hc with rfl | rfl <;> decide
  · intro i hi
    rw [filled_outside s.world (haside i hi), serve_outside s (haside i hi), h.frame i hi]
    exact ⟨rfl, rfl⟩

theorem Shows.transfer (hdocumented : Documented execute view) (h : Shows view s.world p)
    (hrunning : Running s.world.display (.command .transferToHost2d b memory2d))
    (hallocated : (GpuOp.command .transferToHost2d b memory2d).Allocated) :
    Shows view (s.serve execute (.command .transferToHost2d b memory2d)).world
        (p.step s.world.display (.command .transferToHost2d b memory2d)) ∧
      (s.serve execute (.command .transferToHost2d b memory2d)).reads =
        s.reads ++ [respOkNodata] := by
  obtain ⟨hdisplay, hframe⟩ := h.serve_frame hrunning
  obtain ⟨res, hres, hwidth, hheight, hbacking, -⟩ := h.resource
  have hinside : screenRect.Inside res.width res.height := by
    rw [hwidth, hheight]
    decide
  have hne : res.backing ≠ [] := hbacking ▸ List.cons_ne_nil _ _
  obtain ⟨hdevice, hreads⟩ := serve_result hdocumented s hallocated (by decide)
    (transfer_result hres hne hinside)
  generalize (s.world.filled .transferToHost2d b memory2d).mem = mem at hdevice hframe
  refine ⟨⟨⟨res.transfer mem screenRect 0, ?_, hwidth, hheight, ?_, ?_⟩, ?_, ?_, ?_⟩, hreads⟩
  · rw [hdevice]
    exact setResource_same _ 1 _
  · rw [hdisplay]
    exact hbacking
  · intro i hi
    rw [transfer_screen hwidth hbacking hi]
    exact (hframe i hi).1
  · rw [hdevice]
    exact h.scanout
  · intro i hi
    rw [hdisplay]
    exact (hframe i hi).2
  · rw [hdevice]
    exact h.shown

theorem Shows.flush (hdocumented : Documented execute view) (h : Shows view s.world p)
    (hrunning : Running s.world.display (.command .resourceFlush b memory2d))
    (hallocated : (GpuOp.command .resourceFlush b memory2d).Allocated) :
    Shows view (s.serve execute (.command .resourceFlush b memory2d)).world
        (p.step s.world.display (.command .resourceFlush b memory2d)) ∧
      (s.serve execute (.command .resourceFlush b memory2d)).reads =
        s.reads ++ [respOkNodata] := by
  obtain ⟨hdisplay, hframe⟩ := h.serve_frame hrunning
  obtain ⟨res, hres, hwidth, hheight, hbacking, hpixels⟩ := h.resource
  have hinside : screenRect.Inside res.width res.height := by
    rw [hwidth, hheight]
    decide
  obtain ⟨hdevice, hreads⟩ := serve_result hdocumented s hallocated (by decide)
    (flush_result hres hinside)
  have hshown : (view (s.serve execute
      (.command .resourceFlush b memory2d)).world.device).shown 0 =
      res.refresh ⟨screenRect, 1⟩ screenRect ((view s.world.device).shown 0) := by
    rw [hdevice]
    simp only [Gpu.flush, h.scanout, if_true]
  refine ⟨⟨⟨res, ?_, hwidth, hheight, ?_, hpixels⟩, ?_, ?_, ?_⟩, hreads⟩
  · rw [hdevice]
    exact hres
  · rw [hdisplay]
    exact hbacking
  · rw [hdevice]
    exact h.scanout
  · intro i hi
    rw [hdisplay]
    exact (hframe i hi).2
  · intro i hi
    rw [hshown, refresh_screen hwidth hi]
    exact hpixels i hi

theorem Shows.draw (h : Shows view s.world p) (w : Store) :
    Shows view (s.serve execute (.store w)).world (p.step s.world.display (.store w)) :=
  ⟨h.resource, h.scanout, fun i hi => Writes.apply_congr _ (h.frame i hi), h.shown⟩

theorem Shows.step (hdocumented : Documented execute view) (h : Shows view s.world p) {op : GpuOp}
    (hrunning : Running s.world.display op) (hallocated : op.Allocated) :
    Shows view (s.serve execute op).world (p.step s.world.display op) ∧
      (s.serve execute op).world.display = s.world.display ∧
      (s.serve execute op).reads =
        s.reads ++ List.replicate ([op].filter GpuOp.isCommand).length respOkNodata := by
  cases op with
  | store w => exact ⟨h.draw w, rfl, (List.append_nil _).symm⟩
  | command c b memory2d =>
    have hdisplay : (s.serve execute (.command c b memory2d)).world.display = s.world.display :=
      (h.serve_frame hrunning).1
    obtain ⟨rfl | rfl, -⟩ := id hrunning
    · obtain ⟨hshows, hreads⟩ := h.transfer hdocumented hrunning hallocated
      exact ⟨hshows, hdisplay, hreads⟩
    · obtain ⟨hshows, hreads⟩ := h.flush hdocumented hrunning hallocated
      exact ⟨hshows, hdisplay, hreads⟩

theorem Shows.steps (hdocumented : Documented execute view) (h : Shows view s.world p)
    {ops : List GpuOp} (hrunning : ∀ op ∈ ops, Running s.world.display op)
    (hallocated : ∀ op ∈ ops, op.Allocated) :
    Shows view (s.serveAll execute ops).world (p.steps s.world.display ops) ∧
      (s.serveAll execute ops).world.display = s.world.display ∧
      (s.serveAll execute ops).reads =
        s.reads ++ List.replicate (ops.filter GpuOp.isCommand).length respOkNodata := by
  induction ops generalizing s p with
  | nil => exact ⟨h, rfl, (List.append_nil _).symm⟩
  | cons op ops ih =>
    obtain ⟨hop, hops⟩ := List.forall_mem_cons.mp hrunning
    obtain ⟨hfirst, hrest⟩ := List.forall_mem_cons.mp hallocated
    obtain ⟨hshows, hdisplay, hreads⟩ := h.step hdocumented hop hfirst
    obtain ⟨hshows', hdisplay', hreads'⟩ := ih hshows (hdisplay.symm ▸ hops) hrest
    refine ⟨?_, hdisplay'.trans hdisplay, ?_⟩
    · rw [hdisplay] at hshows'
      exact hshows'
    · rw [Outcome.serveAll, List.foldl_cons]
      refine hreads'.trans ?_
      rw [hreads, List.append_assoc, List.replicate_append_replicate, ← List.length_append,
        ← List.filter_append]
      rfl

end steps

/-- What `kernel_main` has done when it begins to draw. -/
def startup (b : Nat → Buffers) (memory2d : Nat → Nat) : List GpuOp :=
  [.command .getDisplayInfo (b 0) (memory2d 0), .command .init2DFrameBuffer (b 1) (memory2d 1),
    .command .connectResourceToMemory (b 2) (memory2d 2),
    .command .setScanoutParam (b 3) (memory2d 3)]

def startPicture {σ : Type} (execute : Executes σ) (view : σ → Gpu) (world : World σ)
    (b : Nat → Buffers) (memory2d : Nat → Nat) : Picture where
  frame := ((Outcome.mk world []).serveAll execute (startup b memory2d)).world.mem
  host := fun _ => 0
  shown := (view world.device).shown 0

section startup
variable {σ : Type} {execute : Executes σ} {view : σ → Gpu}

theorem startup_shows (hdocumented : Documented execute view) {s : Outcome σ}
    (h : Fresh (view s.world.device)) (b : Nat → Buffers)
    (memory2d : Nat → Nat) (hallocated : ∀ op ∈ startup b memory2d, op.Allocated) :
    Shows view (s.serveAll execute (startup b memory2d)).world
        ⟨(s.serveAll execute (startup b memory2d)).world.mem, fun _ => 0,
          (view s.world.device).shown 0⟩ ∧
      (s.serveAll execute (startup b memory2d)).world.display = memory2d 2 ∧
      (s.serveAll execute (startup b memory2d)).reads =
        s.reads ++ respOkDisplayInfo :: List.replicate 3 respOkNodata := by
  simp only [startup, List.forall_mem_cons] at hallocated
  obtain ⟨h0, h1, h2, h3, -⟩ := hallocated
  have hinside : screenRect.Inside screenWidth screenHeight := by decide
  have hall : s.serveAll execute (startup b memory2d) =
      (((s.serve execute (.command .getDisplayInfo (b 0) (memory2d 0))).serve execute
        (.command .init2DFrameBuffer (b 1) (memory2d 1))).serve execute
        (.command .connectResourceToMemory (b 2) (memory2d 2))).serve execute
        (.command .setScanoutParam (b 3) (memory2d 3)) := rfl
  rw [hall]
  obtain ⟨hdevice0, hreads0⟩ := serve_result hdocumented s h0 (by decide) rfl
  generalize s.serve execute (.command .getDisplayInfo _ _) = s0 at *
  obtain ⟨hdevice1, hreads1⟩ := serve_result hdocumented s0 h1 (by decide)
    (hdevice0 ▸ create_result h)
  generalize s0.serve execute (.command .init2DFrameBuffer _ _) = s1 at *
  obtain ⟨hdevice2, hreads2⟩ := serve_result hdocumented s1 h2 (by decide)
    (hdevice1 ▸ attach_result (setResource_same _ _ _) rfl)
  have hdisplay2 : (s1.serve execute (.command .connectResourceToMemory (b 2)
      (memory2d 2))).world.display = memory2d 2 := (serve_display s1).trans (if_pos rfl)
  generalize s1.serve execute (.command .connectResourceToMemory _ _) = s2 at *
  have hmodes : 0 < (view s1.world.device).modes.length := by
    rw [hdevice1, hdevice0]
    exact h.modes
  obtain ⟨hdevice3, hreads3⟩ := serve_result hdocumented s2 h3 (by decide)
    (hdevice2 ▸ scanout_result (setResource_same _ _ _) hmodes hinside)
  have hdisplay3 : (s2.serve execute (.command .setScanoutParam (b 3)
      (memory2d 3))).world.display = memory2d 2 :=
    (serve_display s2).trans ((if_neg (by decide)).trans hdisplay2)
  generalize s2.serve execute (.command .setScanoutParam _ _) = s3 at *
  have hshown : (view s3.world.device).shown = (view s.world.device).shown := by
    rw [hdevice3, hdevice2, hdevice1, hdevice0]
    rfl
  refine ⟨⟨⟨⟨screenWidth, screenHeight, 1, [⟨memory2d 2, frameBytes⟩], fun _ => 0⟩, ?_, rfl, rfl,
    ?_, fun _ _ => rfl⟩, ?_, fun _ _ => rfl, ?_⟩, hdisplay3, ?_⟩
  · rw [hdevice3, hdevice2]
    exact setResource_same (view s1.world.device) 1 _
  · rw [hdisplay3]
  · rw [hdevice3]
    exact Function.update_self 0 _ (view s2.world.device).scanouts
  · intro i _
    rw [hshown]
  · rw [hreads3, hreads2, hreads1, hreads0]
    simp

end startup

section sessions
variable {σ : Type} {execute : Executes σ} {view : σ → Gpu} {k : Nat} {world : World σ}
variable {x : Session σ}

theorem history_allocated
    (h : (sessionSystem execute (2 ^ k) world).Reachable x) : ∀ op ∈ x.history, op.Allocated := by
  have hconcat : ∀ {ops : List GpuOp} {op : GpuOp}, (∀ op ∈ ops, op.Allocated) → op.Allocated →
      ∀ op' ∈ ops ++ [op], op'.Allocated := fun hops hop =>
    List.forall_mem_append.mpr ⟨hops, List.forall_mem_singleton.mpr hop⟩
  induction h with
  | start h =>
    obtain ⟨-, u, b, rfl, hallocated, -, hhistory⟩ := h
    exact hconcat (hhistory ▸ fun _ hop => absurd hop List.not_mem_nil) hallocated
  | step _ hstep ih =>
    cases hstep with
    | store s hidle => exact hconcat ih trivial
    | begin c b memory2d hidle hfirst hallocated => exact hconcat ih hallocated
    | plain hplan hplain => exact ih
    | fill hplan hdriver => exact ih
    | driver hplan hdriver => exact ih
    | consume hidle hnew => exact ih
    | answer hdevice => exact ih
    | complete hdevice => exact ih

theorem session_shows (hlow : 2 ≤ k) (hk : k ≤ 16) (hdocumented : Documented execute view)
    (h : (sessionSystem execute (2 ^ k) world).Reachable x)
    (hidle : x.queue.driver = .idle) (hfresh : Fresh (view world.device)) {b : Nat → Buffers}
    {memory2d : Nat → Nat} {ops : List GpuOp} (hhistory : x.history = startup b memory2d ++ ops)
    (hrunning : ∀ op ∈ ops, Running (memory2d 2) op) :
    Shows view x.world
        (Picture.steps (memory2d 2) (startPicture execute view world b memory2d) ops) ∧
      x.world.display = memory2d 2 ∧ x.queue.reads = respOkDisplayInfo ::
        List.replicate (3 + (ops.filter GpuOp.isCommand).length) respOkNodata := by
  have houtcome := ((stage_reachable hlow hk h).driver_idle hidle).2
  have hallocated := history_allocated h
  rw [hhistory, List.forall_mem_append] at hallocated
  obtain ⟨hshows, hdisplay, hreads⟩ :=
    startup_shows hdocumented (s := ⟨world, []⟩) hfresh b memory2d hallocated.1
  rw [← hdisplay] at hrunning
  obtain ⟨hshows', hdisplay', hreads'⟩ := hshows.steps hdocumented hrunning hallocated.2
  have hsplit : (Outcome.mk world []).serveAll execute x.history =
      ((Outcome.mk world []).serveAll execute (startup b memory2d)).serveAll execute
        ops := by
    rw [hhistory]
    exact List.foldl_append
  rw [← hsplit, ← houtcome, hdisplay] at hshows' hdisplay'
  rw [← hsplit, ← houtcome] at hreads'
  refine ⟨hshows', hdisplay', hreads'.trans ?_⟩
  rw [hreads, List.nil_append, List.cons_append, List.replicate_append_replicate]

end sessions

structure PictureShown {σ : Type} (view : σ → Gpu) (x : Session σ) (display : Nat) (p : Picture)
    (commands : Nat) : Prop where
  shown : ∀ i < frameBytes, (view x.world.device).shown 0 i = p.shown i
  frame : ∀ i < frameBytes, x.world.mem (display + i) = p.frame (display + i)
  reads : x.queue.reads = respOkDisplayInfo :: List.replicate commands respOkNodata

/-- In any order of steps: whatever is drawn, transferred and flushed once the display is set up,
the screen shows what the last flush put there of what the last transfer took from memory, and
every command is answered with success. -/
theorem session_picture {σ : Type} {execute : Executes σ} {view : σ → Gpu}
    (hdocumented : Documented execute view) {k : Nat} (hlow : 2 ≤ k) (hk : k ≤ 16)
    {world : World σ} {x : Session σ}
    (h : (sessionSystem execute (2 ^ k) world).Reachable x)
    (hidle : x.queue.driver = .idle) (hfresh : Fresh (view world.device)) (b : Nat → Buffers)
    (memory2d : Nat → Nat) {ops : List GpuOp} (hhistory : x.history = startup b memory2d ++ ops)
    (hrunning : ∀ op ∈ ops, Running (memory2d 2) op) :
    PictureShown view x (memory2d 2)
      (Picture.steps (memory2d 2) (startPicture execute view world b memory2d) ops)
      (3 + (ops.filter GpuOp.isCommand).length) := by
  obtain ⟨hshows, hdisplay, hreads⟩ :=
    session_shows hlow hk hdocumented h hidle hfresh hhistory hrunning
  refine ⟨hshows.shown, fun i hi => ?_, hreads⟩
  have hframe := hshows.frame i hi
  rwa [hdisplay] at hframe

def exampleBuffers : Nat → Buffers := fun _ => ⟨0x1000, 0x2000, 0x3000⟩

def exampleFrames : Nat → Nat := fun i => if i = 0 then 0 else 0x10000

theorem example_allocated (c : Command) (i : Nat) (h : i ≠ 0 ∨ c ≠ .connectResourceToMemory) :
    (GpuOp.command c (exampleBuffers i) (exampleFrames i)).Allocated := by
  have hfits : exampleFrames i < 2 ^ 64 := by
    unfold exampleFrames
    split <;> decide
  refine ⟨?_, hfits⟩
  cases c with
  | connectResourceToMemory =>
    have hframe : exampleFrames i = 0x10000 := if_neg (h.resolve_right fun hne => hne rfl)
    simp [BlocksApart, Command.blocks, NoOverlap, pageSize, exampleBuffers, hframe]
  | _ => simp [BlocksApart, Command.blocks, NoOverlap, pageSize, exampleBuffers]

theorem exists_startup {ops : List GpuOp} (hallocated : ∀ op ∈ ops, op.Allocated)
    (hfirst : ∀ op ∈ ops, op.NotFirst) : ∃ x,
      (sessionSystem Gpu.execute (2 ^ 6) freshWorld).Reachable x ∧ x.queue.driver = .idle ∧
        x.history = startup exampleBuffers exampleFrames ++ ops := by
  obtain ⟨n, y, hrun, hidle⟩ := exists_idle (by decide) (by decide) firstSession_reachable
  have hreach := working_run firstSession_reachable hrun
  have hhistory : y.history = [.command .getDisplayInfo (exampleBuffers 0) (exampleFrames 0)] :=
    working_history hrun
  have hstart : ∀ op ∈ (startup exampleBuffers exampleFrames).tail,
      op.Allocated ∧ op.NotFirst := by
    simp only [startup, List.tail_cons, List.forall_mem_cons]
    exact ⟨⟨example_allocated _ 1 (by decide), nofun⟩, ⟨example_allocated _ 2 (by decide), nofun⟩,
      ⟨example_allocated _ 3 (by decide), nofun⟩, fun _ h => absurd h List.not_mem_nil⟩
  obtain ⟨x, hreach', hidle', hhistory'⟩ := exists_history (k := 6) (by decide) (by decide)
    ((startup exampleBuffers exampleFrames).tail ++ ops) hreach hidle
    (List.forall_mem_append.mpr ⟨fun op hop => (hstart op hop).1, hallocated⟩)
    (List.forall_mem_append.mpr ⟨fun op hop => (hstart op hop).2, hfirst⟩)
  exact ⟨x, hreach', hidle', hhistory'.trans (by rw [hhistory]; rfl)⟩

theorem example_running {c : Command} (hc : c = .transferToHost2d ∨ c = .resourceFlush)
    (i : Nat) : Running 0x10000 (.command c (exampleBuffers i) (exampleFrames i)) := by
  refine ⟨hc, fun _ _ block hblock => Or.inr ?_⟩
  have hbelow : block.1 + block.2 ≤ 0x10000 := by
    rcases hc with rfl | rfl <;>
      rcases List.mem_pair.mp hblock with rfl | rfl <;> simp [exampleBuffers, pageSize]
  omega

theorem session_picture_flushed : ∃ x,
    (sessionSystem Gpu.execute (2 ^ 6) freshWorld).Reachable x ∧ PictureShown id x 0x10000
      (Picture.steps 0x10000 (startPicture Gpu.execute id freshWorld exampleBuffers exampleFrames)
        [.store ⟨0x10000, ⟨4, 7⟩⟩,
          .command .transferToHost2d (exampleBuffers 1) (exampleFrames 1),
          .command .resourceFlush (exampleBuffers 1) (exampleFrames 1)]) 5 := by
  have hops : ∀ op ∈ [GpuOp.store ⟨0x10000, ⟨4, 7⟩⟩,
      .command .transferToHost2d (exampleBuffers 1) (exampleFrames 1),
      .command .resourceFlush (exampleBuffers 1) (exampleFrames 1)],
      op.Allocated ∧ op.NotFirst ∧ Running 0x10000 op := by
    simp only [List.forall_mem_cons]
    exact ⟨⟨trivial, trivial, trivial⟩,
      ⟨example_allocated _ 1 (by decide), nofun, example_running (Or.inl rfl) 1⟩,
      ⟨example_allocated _ 1 (by decide), nofun, example_running (Or.inr rfl) 1⟩,
      fun _ h => absurd h List.not_mem_nil⟩
  obtain ⟨x, hreach, hidle, hhistory⟩ := exists_startup (fun op hop => (hops op hop).1)
    fun op hop => (hops op hop).2.1
  exact ⟨x, hreach, session_picture gpu_documented (k := 6) (by decide) (by decide) hreach hidle
    ⟨by decide, rfl⟩ exampleBuffers exampleFrames hhistory fun op hop => (hops op hop).2.2⟩

end SelfmadeOS
