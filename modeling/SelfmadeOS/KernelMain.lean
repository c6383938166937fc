import SelfmadeOS.MessageTexts
import SelfmadeOS.Rectangles
import SelfmadeOS.ScreenText

/-!
# What `kernel_main` leaves on the screen (`kernel.cpp`)

The display is set up, a black screen and a rectangle are drawn, and twenty-eight messages are
printed, the last one by the logger. With the device in any pace the last twenty of them can be
read off the screen in the end.
-/

namespace SelfmadeOS
set_option autoImplicit false
open CStrings

def literal (chars : List Char) (args : Nat → Arg) : Message := ⟨chars ++ [nul], args⟩

def noArgs : Nat → Arg := fun _ => wordArg 0

/-- The format comes to that text, also as the formatter goes through memory. -/
def Message.Reads (m : Message) (text : List Char) : Prop := m.text = text ∧ m.memoryText = text

section literals
variable {chars : List Char} {args : Nat → Arg}

theorem literal_reads (h : nul ∉ chars) (hcomplete : Complete chars) :
    (literal chars args).Reads ((render args chars 0).take (maxTextLength - 1)) := by
  constructor
  · show (render args (cString (chars ++ [nul])) 0).take _ = _
    rw [cString_append_nul, cString_of_noNul h]
  · show (render args (chars ++ nul :: []) 0).take _ = _
    rw [render_complete args h hcomplete]

theorem plain_reads (h : nul ∉ chars) (hpercent : '%' ∉ chars) :
    (literal chars args).Reads (chars.take (maxTextLength - 1)) := by
  have hreads : (literal chars args).Reads ((render args chars 0).take (maxTextLength - 1)) :=
    literal_reads h (complete_of_noPercent hpercent)
  rwa [render_cString, cString_of_noNul h] at hreads
  rwa [cString_of_noNul h]

end literals

def kernelMainPrinted : List Message :=
  literal ['t', 'e', 's', 't'] noArgs ::
    (List.replicate 20 hallo ++ List.replicate 3 (literal (List.replicate 90 'M') noArgs) ++
      [literal ['i', 'n', 't', ' ', 's', 'i', 'z', 'e', ' ', '%', 'u'] fun _ => wordArg 4,
        literal ['%', 'x'] fun _ => wordArg 16,
        literal ['t', 'e', 's', 't', ':', ' ', '%', '%'] noArgs])

def zMessage (mem : VlogMemory) : Message := outputMessage mem (vlogOutput mem ['z', nul] noArgs)

def kernelMainTexts : List (List Char) :=
  ['t', 'e', 's', 't'] ::
    (List.replicate 20 ['h', 'a', 'l', 'l', 'o', ' ', 'w', 'o', 'r', 'l', 'd'] ++
      List.replicate 3 (List.replicate 79 'M') ++
      [['i', 'n', 't', ' ', 's', 'i', 'z', 'e', ' ', '4'],
        ['0', 'x', '0', '0', '0', '0', '0', '0', '1', '0'],
        ['t', 'e', 's', 't', ':', ' ', '%']] ++ [['z']])

section messages
variable (mem : VlogMemory)

theorem zMessage_reads : (zMessage mem).Reads ['z'] := by
  have hregion : regionText noArgs ['z', nul] = ['z'] := by decide
  have hread : cString (vlogOutput mem ['z', nul] noArgs) = ['z'] := by
    rw [vlogOutput_cString mem (by rw [hregion]; decide) (by rw [hregion]; decide), hregion]
  have hmessage : zMessage mem =
      literal ['%', 's'] fun _ => ⟨mem.outputAddress, ⟨['z'], by decide⟩⟩ := by
    simp only [zMessage, outputMessage, hread, literal]
    rfl
  have hcomplete : Complete ['%', 's'] := trivial
  rw [hmessage]
  exact literal_reads (by decide) hcomplete

theorem kernelMain_reads :
    List.Forall₂ Message.Reads (kernelMainPrinted ++ [zMessage mem]) kernelMainTexts := by
  have hcomplete : Complete ['i', 'n', 't', ' ', 's', 'i', 'z', 'e', ' ', '%', 'u'] ∧
      Complete ['%', 'x'] ∧ Complete ['t', 'e', 's', 't', ':', ' ', '%', '%'] := by
    simp [Complete]
  have hhallo : hallo.Reads ['h', 'a', 'l', 'l', 'o', ' ', 'w', 'o', 'r', 'l', 'd'] := hallo_text
  have hlong : (literal (List.replicate 90 'M') noArgs).Reads (List.replicate 79 'M') :=
    plain_reads (by simp [nul]) (by simp)
  have hrepeat : ∀ {m : Message} {text : List Char} (n : Nat), m.Reads text →
      List.Forall₂ Message.Reads (List.replicate n m) (List.replicate n text) := by
    intro m text n h
    induction n with
    | zero => exact .nil
    | succ n ih => exact .cons h ih
  refine .cons (plain_reads (by decide) (by decide)) ?_
  refine List.rel_append (List.rel_append (List.rel_append (hrepeat 20 hhallo) (hrepeat 3 hlong))
    ?_) (.cons (zMessage_reads mem) .nil)
  refine .cons (literal_reads (by decide) hcomplete.1) ?_
  refine .cons (literal_reads (by decide) hcomplete.2.1) ?_
  exact .cons (literal_reads (by decide) hcomplete.2.2) .nil

end messages

section lines
variable {before : List Message}

theorem slotBefore_fresh (h : before.length < 40) :
    slotBefore before = List.replicate maxTextLength nul := by
  have hhead : (terminalAfter before).head.toNat = before.length := by
    rw [(terminalAfter_called before).head]
    omega
  unfold slotBefore
  rw [hhead]
  apply ((calledTimes_new Slots.blank).row_kept before.length before fun k hk => by omega).trans
  show (List.replicate 40 (List.replicate maxTextLength nul)).getD before.length [] = _
  rw [List.getD_eq_getElem?_getD, List.getElem?_replicate, if_pos h]
  rfl

theorem Message.Reads.fillsRow {m : Message} {text : List Char} (hreads : m.Reads text)
    (h : before.length < 40) : m.FillsRow (slotBefore before) := by
  constructor
  · rw [hreads.1, hreads.2, List.drop_length]
    exact fun c hc => absurd hc List.not_mem_nil
  · rw [slotBefore_fresh h]
    exact fun c hc => List.eq_of_mem_replicate (List.mem_of_mem_drop hc)

theorem line_getD (m : Message) (column : Nat) :
    m.line.getD column nul = m.text.getD column nul := by
  unfold Message.line
  rw [List.getD_eq_getElem?_getD, List.getD_eq_getElem?_getD, List.getElem?_append]
  by_cases hcolumn : column < m.text.length
  · rw [if_pos hcolumn]
  · have hnone : m.text[column]? = none := List.getElem?_eq_none (by omega)
    rw [if_neg hcolumn, hnone, List.getElem?_replicate]
    split <;> rfl

theorem texts_seven : ∀ text ∈ kernelMainTexts, ∀ c ∈ text, c.toNat < 128 := by
  simp [kernelMainTexts]

/-- The line `i` of the screen shows message `8 + i`. -/
theorem kernelMain_stays (mem : VlogMemory) {i : Nat} (hi : i < 20) :
    ∃ before stored later text, StaysDrawn kernelMainPrinted (zMessage mem) before stored later ∧
      screenLine kernelMainPrinted before = i ∧ kernelMainTexts[8 + i]? = some text ∧
        stored.text = text := by
  have hlength : kernelMainPrinted.length = 27 := by
    simp [kernelMainPrinted]
  have hall : (kernelMainPrinted ++ [zMessage mem]).length = 28 := by
    rw [List.length_append, hlength]
    rfl
  have hj : 8 + i < (kernelMainPrinted ++ [zMessage mem]).length := by omega
  obtain ⟨before, stored, later, hsplit, hbefore⟩ := calls_split hj
  have hlengths := congrArg List.length hsplit
  rw [hall, List.length_append, List.length_cons] at hlengths
  have hreads := kernelMain_reads mem
  have htexts : kernelMainTexts.length = 28 := hreads.length_eq.symm.trans hall
  rw [hsplit] at hreads
  have hstored := hreads.get (i := 8 + i)
    (by rw [List.length_append, List.length_cons]; omega) (by omega)
  have hget : (before ++ stored :: later).get ⟨8 + i, by
      rw [List.length_append, List.length_cons]; omega⟩ = stored := by
    simp [← hbefore]
  rw [hget, List.get_eq_getElem] at hstored
  refine ⟨before, stored, later, _, ⟨hsplit, by omega, ?_, ?_, hstored.fillsRow (by omega)⟩, ?_,
    List.getElem?_eq_getElem _, hstored.1⟩
  · simp only [firstDrawn, hlength]
    omega
  · omega
  · simp only [screenLine, firstDrawn, hlength, hbefore]
    omega

theorem printf_rows_length (earlier : List Message) (m : Message) :
    ((terminalAfter earlier).printf m).2.length = rowsDrawn (earlier.length + 1) := by
  have hcalled := (terminalAfter_called earlier).printf m
  have hrows : ((terminalAfter earlier).printf m).2 =
    ((terminalAfter earlier).printf m).1.drawRows := rfl
  rw [hrows, hcalled.drawRows, List.length_map, List.length_range]

def kernelMainLine (i : Nat) : List Char := (kernelMainTexts.drop 8).getD i []

theorem kernelMain_letterAt (mem : VlogMemory) (i column : Nat) :
    letterAt ((terminalAfter kernelMainPrinted).printf (zMessage mem)).2 i column =
      (kernelMainLine i).getD column nul := by
  have hline : kernelMainLine i = kernelMainTexts[8 + i]?.getD [] := by
    rw [kernelMainLine, List.getD_eq_getElem?_getD, List.getElem?_drop]
  rw [hline]
  by_cases hi : i < 20
  · obtain ⟨before, stored, later, text, hstays, rfl, htext, hstored⟩ := kernelMain_stays mem hi
    rw [(hstays.letterAt column).1, htext, line_getD, hstored]
    rfl
  · have hcount : rowsDrawn (kernelMainPrinted.length + 1) = 20 := by
      simp [kernelMainPrinted, rowsDrawn]
    have hnone : ((terminalAfter kernelMainPrinted).printf (zMessage mem)).2[i]? = none := by
      apply List.getElem?_eq_none
      rw [printf_rows_length, hcount]
      omega
    have htexts : kernelMainTexts[8 + i]? = none := by
      apply List.getElem?_eq_none
      rw [← (kernelMain_reads mem).length_eq]
      simp [kernelMainPrinted]
      omega
    unfold letterAt
    rw [hnone, htexts]
    rfl

theorem kernelMainLine_seven (i : Nat) : ∀ c ∈ kernelMainLine i, c.toNat < 128 := by
  intro c hc
  unfold kernelMainLine at hc
  rw [List.getD_eq_getElem?_getD] at hc
  cases hget : (kernelMainTexts.drop 8)[i]? with
  | none =>
    rw [hget] at hc
    exact absurd hc List.not_mem_nil
  | some text =>
    rw [hget] at hc
    exact texts_seven text (List.mem_of_mem_drop (List.mem_of_getElem? hget)) c hc

end lines

def printfsOps (display : Nat) (b : Nat → Buffers) (memory2d : Nat → Nat) :
    Terminal → Nat → List Message → List GpuOp
  | _, _, [] => []
  | t, n, m :: rest =>
    printfOps font display t m (fun i => b (n + i)) memory2d ++
      printfsOps display b memory2d (t.printf m).1 (n + 2) rest

def kernelMainDraws : List PixelWrite :=
  clearScreen ++ drawRec ⟨100, 100, 100, 100⟩ ⟨0, 0, 255, 255⟩

def kernelMainBefore (b : Nat → Buffers) (memory2d : Nat → Nat) : List GpuOp :=
  kernelMainDraws.map (fun w => .store (drawStore (memory2d 2) w)) ++
    [.command .transferToHost2d (b 4) (memory2d 0), .command .resourceFlush (b 5) (memory2d 1)] ++
    printfsOps (memory2d 2) b memory2d (Terminal.new Slots.blank) 6 kernelMainPrinted

/-- All that `kernel_main` does to the display; `b n` are the blocks of command `n`. -/
def kernelMainHistory (mem : VlogMemory) (b : Nat → Buffers) (memory2d : Nat → Nat) :
    List GpuOp :=
  startup b memory2d ++ (kernelMainBefore b memory2d ++
    printfOps font (memory2d 2) (terminalAfter kernelMainPrinted) (zMessage mem)
      (fun i => b (60 + i)) memory2d)

/-- The blocks of the commands lie beside the frame. -/
def BesideFrame (b : Nat → Buffers) (display : Nat) : Prop :=
  ∀ n, ∀ i < frameBytes,
    OutsideBlocks [((b n).request, pageSize), ((b n).response, pageSize)] (display + i)

section run
variable {b : Nat → Buffers} {memory2d : Nat → Nat} {display : Nat} {P : GpuOp → Prop}
variable (hstore : ∀ s, P (.store s))
variable (hcommand : ∀ c n i, c = .transferToHost2d ∨ c = .resourceFlush →
  P (.command c (b n) (memory2d i)))
include hstore hcommand

theorem printfOps_all (t : Terminal) (m : Message) (n : Nat) :
    ∀ op ∈ printfOps font display t m (fun i => b (n + i)) memory2d, P op := by
  intro op hop
  rcases List.mem_append.mp hop with hop | hop
  · obtain ⟨w, -, rfl⟩ := List.mem_map.mp hop
    exact hstore _
  · rcases List.mem_pair.mp hop with rfl | rfl
    · exact hcommand _ _ _ (Or.inl rfl)
    · exact hcommand _ _ _ (Or.inr rfl)

theorem printfsOps_all {messages : List Message} :
    ∀ t n, ∀ op ∈ printfsOps display b memory2d t n messages, P op := by
  induction messages with
  | nil => exact fun t n op hop => absurd hop List.not_mem_nil
  | cons m rest ih =>
    intro t n op hop
    rcases List.mem_append.mp hop with hop | hop
    · exact printfOps_all hstore hcommand t m n op hop
    · exact ih _ _ op hop

/-- All that `kernel_main` does once the display is set up: it draws, transfers and flushes. -/
theorem kernelMain_all (mem : VlogMemory) : ∀ op ∈ kernelMainBefore b memory2d ++
    printfOps font (memory2d 2) (terminalAfter kernelMainPrinted) (zMessage mem)
      (fun i => b (60 + i)) memory2d, P op := by
  intro op hop
  rcases List.mem_append.mp hop with hop | hop
  · rcases List.mem_append.mp hop with hop | hop
    · rcases List.mem_append.mp hop with hop | hop
      · obtain ⟨w, -, rfl⟩ := List.mem_map.mp hop
        exact hstore _
      · rcases List.mem_pair.mp hop with rfl | rfl
        · exact hcommand _ _ _ (Or.inl rfl)
        · exact hcommand _ _ _ (Or.inr rfl)
    · exact printfsOps_all hstore hcommand _ _ op hop
  · exact printfOps_all hstore hcommand _ _ _ op hop

end run

theorem BesideFrame.running {b : Nat → Buffers} {display : Nat} (h : BesideFrame b display)
    {c : Command} (hc : c = .transferToHost2d ∨ c = .resourceFlush) (n m : Nat) :
    Running display (.command c (b n) m) := by
  refine ⟨hc, fun i hi => ?_⟩
  have hblocks : c.blocks (b n) m = [((b n).request, pageSize), ((b n).response, pageSize)] := by
    rcases hc with rfl | rfl <;> rfl
  rw [hblocks]
  exact h n i hi

/-- In any order of steps, with any device that does what is documented: what `kernel_main` leaves
on the screen reads as its last twenty messages, and nothing below them. -/
theorem kernelMain_text {σ : Type} {execute : Executes σ} {view : σ → Gpu}
    (hdocumented : Documented execute view) {k : Nat} (hlow : 2 ≤ k) (hk : k ≤ 16)
    {world : World σ} {x : Session σ} (h : (sessionSystem execute (2 ^ k) world).Reachable x)
    (hidle : x.queue.driver = .idle) (hfresh : Fresh (view world.device)) {b : Nat → Buffers}
    {memory2d : Nat → Nat} (hbeside : BesideFrame b (memory2d 2)) (mem : VlogMemory)
    (hhistory : x.history = kernelMainHistory mem b memory2d) {i column : Nat} (hi : i < 25)
    (hcolumn : column < 80) :
    readLetter (view x.world.device).pixel i column =
      some (seen ((kernelMainLine i).getD column nul).toNat) := by
  have hshape : kernelMainHistory mem b memory2d = screenHistory font b memory2d
      (kernelMainBefore b memory2d) (terminalAfter kernelMainPrinted) (zMessage mem)
      (fun i => b (60 + i)) [] := by
    rw [kernelMainHistory, screenHistory, List.append_nil]
  have hall : ∀ op ∈ kernelMainBefore b memory2d ++ printfOps font (memory2d 2)
      (terminalAfter kernelMainPrinted) (zMessage mem) (fun i => b (60 + i)) memory2d,
      Running (memory2d 2) op :=
    kernelMain_all (fun _ => trivial) (fun _ _ _ hc => hbeside.running hc _ _) mem
  have hrunning : ∀ op ∈ kernelMainBefore b memory2d ++
      [GpuOp.command .transferToHost2d (b (60 + 0)) (memory2d 0),
        .command .resourceFlush (b (60 + 1)) (memory2d 1)], Running (memory2d 2) op := by
    intro op hop
    apply hall
    rcases List.mem_append.mp hop with hop | hop
    · exact List.mem_append_left _ hop
    · exact List.mem_append_right _ (List.mem_append_right _ hop)
  have hpixel := session_pixels hdocumented hlow hk h hidle hfresh
    (terminalAfter_called kernelMainPrinted) (hhistory.trans hshape) hrunning
    fun op hop => absurd hop List.not_mem_nil
  rw [← kernelMain_letterAt mem]
  apply readLetter_eq hpixel hi hcolumn
  rw [kernelMain_letterAt mem]
  exact getD_seven (kernelMainLine_seven i) column

theorem example_besideFrame : BesideFrame exampleBuffers 0x10000 :=
  fun n => (example_running (c := .transferToHost2d) (Or.inl rfl) n).2

theorem kernelMain_text_example : ∃ x,
    (sessionSystem Gpu.execute (2 ^ 6) freshWorld).Reachable x ∧
      ∀ i < 25, ∀ column < 80, readLetter x.world.device.pixel i column =
        some (seen ((kernelMainLine i).getD column nul).toNat) := by
  let mem := clearMemory (Buffer.replicate maxTextLength nul)
  have hcommand : ∀ c n i, c = .transferToHost2d ∨ c = .resourceFlush →
      (GpuOp.command c (exampleBuffers n) (exampleFrames i)).Allocated ∧
        (GpuOp.command c (exampleBuffers n) (exampleFrames i)).NotFirst := by
    intro c n i hc
    refine ⟨example_allocated c i (Or.inr ?_), ?_⟩ <;> rcases hc with rfl | rfl <;> exact nofun
  have hall : ∀ op ∈ kernelMainBefore exampleBuffers exampleFrames ++
      printfOps font 0x10000 (terminalAfter kernelMainPrinted) (zMessage mem)
        (fun i => exampleBuffers (60 + i)) exampleFrames, op.Allocated ∧ op.NotFirst :=
    kernelMain_all (fun _ => ⟨trivial, trivial⟩) hcommand mem
  obtain ⟨x, hreach, hidle, hhistory⟩ := exists_startup (fun op hop => (hall op hop).1)
    fun op hop => (hall op hop).2
  exact ⟨x, hreach, fun i hi column hcolumn => kernelMain_text gpu_documented (k := 6) (by decide)
    (by decide) hreach hidle ⟨by decide, rfl⟩ example_besideFrame mem hhistory hi hcolumn⟩

end SelfmadeOS
