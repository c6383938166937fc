import SelfmadeOS.LogReturns
import SelfmadeOS.TerminalRows

/-!
# What the two sinks get of a message

`vlog` formats once for itself, and then `uart_send` takes the text as a format again, while
the terminal takes it as the argument of a `%s`. A command that fails in between is logged by a
call of its own, which prints and sends as well.
-/

namespace SelfmadeOS
set_option autoImplicit false
open CStrings

/-- The text of a message, as far as there is room for it. -/
def messageText (fmt : CString) (args : Nat → Arg) : List Char :=
  (render args fmt.chars 0).take (maxTextLength - 1)

def Settled (fmt : CString) (args : Nat → Arg) : Prop :=
  Complete fmt.chars ∨ maxTextLength - 1 ≤ (render args fmt.chars 0).length

/-- The terminal, if there is one, has come about by calls of `printf`. -/
def TerminalReached (s : Logger) : Prop :=
  ∀ t, s.logTerminal = some t → ∃ contents calls, t = (Terminal.new contents).after calls

/-- From `t` to `t'` one line has been stored, in the slot at `head`. -/
structure LineStored (text : List Char) (t t' : Terminal) : Prop where
  head : t'.head = (t.head + 1).tmod 40
  line : cString (t'.circularBuffer.row t.head.toNat) = text
  others : ∀ i, t.head.toNat ≠ i → t'.circularBuffer.row i = t.circularBuffer.row i

/-- A call of `vlog` has given its text to both sinks. The `nested` calls for commands that failed
have sent two lines each before it, and printed behind it. -/
structure SinksGet (text : List Char) (sendTerminal : Bool) (nested : Nat) (s s' : Logger) :
    Prop where
  vlogs : s'.vlogs = s.vlogs + 1 + nested
  uart : ∃ lines, lines.length = 2 * nested ∧ s'.uart = s.uart ++ lines ++ [text, ['\n']]
  terminal : ∀ t, s.logTerminal = some t → sendTerminal = true →
    ∃ t' later, LineStored text t t' ∧ later.length = nested ∧
      s'.logTerminal = some (t'.after later) ∧
      (nested < 40 → cString ((t'.after later).circularBuffer.row t.head.toNat) = text)
  aside : s.logTerminal = none ∨ sendTerminal = false →
    nested = 0 ∧ s'.logTerminal = s.logTerminal

/-- The call returns and both sinks have the text of the message, whatever the memory holds that
nobody has written. -/
def SinksAgree (fmt : CString) (args : Nat → Arg) (sendTerminal : Bool) (s : Logger) : Prop :=
  ∀ (beyond : List Char) (memory : Nat → VlogMemory), ∃ depth s' nested,
    vlog depth (fmt.chars ++ nul :: beyond) args sendTerminal { s with memory := memory } =
      some s' ∧
    SinksGet (messageText fmt args) sendTerminal nested s s'

/-- Some of the next answers, taken in order, hold two good ones more than others. -/
def EnoughOks (s : Logger) : Prop :=
  ∃ n, oks s.responses s.commands n = errors s.responses s.commands n + 2

section sinks

theorem uartSend_newLine (mem : UartMemory 3) : uartSend ['\n', nul] 3 mem = ['\n'] :=
  uartSend_plain mem (by decide) (by decide) (by decide)

theorem vlogUart_uart (mem : VlogMemory) (output : List Char) (s : Logger) :
    (vlogUart mem output s).uart =
      s.uart ++ [uartSend output maxTextLength mem.sent, ['\n']] := by
  unfold vlogUart Logger.send
  rw [uartSend_newLine]
  exact List.append_assoc _ _ _

theorem vlog_succ {depth : Nat} {fmt : List Char} {args : Nat → Arg} {sendTerminal : Bool}
    {s s' : Logger} (h : vlog (depth + 1) fmt args sendTerminal s = some s') :
    ∃ s₁, vlogTerminal (log depth) (s.memory s.vlogs) (vlogOutput (s.memory s.vlogs) fmt args)
        sendTerminal { s with vlogs := s.vlogs + 1 } = some s₁ ∧
      s' = vlogUart (s.memory s.vlogs) (vlogOutput (s.memory s.vlogs) fmt args) s₁ := by
  unfold vlog at h
  obtain ⟨s₁, hterminal, hend⟩ := Option.bind_eq_some_iff.mp h
  exact ⟨s₁, hterminal, (Option.some.inj hend).symm⟩

theorem vlog_uart {depth : Nat} {fmt : List Char} {args : Nat → Arg} {sendTerminal : Bool}
    {s s' : Logger} (h : vlog depth fmt args sendTerminal s = some s') :
    ∃ before, s'.uart = before ++ [uartSend (vlogOutput (s.memory s.vlogs) fmt args) maxTextLength
      (s.memory s.vlogs).sent, ['\n']] := by
  cases depth with
  | zero => cases h
  | succ depth =>
    obtain ⟨s₁, -, rfl⟩ := vlog_succ h
    exact ⟨s₁.uart, vlogUart_uart _ _ s₁⟩

def regionText (args : Nat → Arg) (region : List Char) : List Char :=
  (render args region 0).take (maxTextLength - 1)

theorem regionText_ne_nil {args : Nat → Arg} {region : List Char}
    (h : regionText args region ≠ []) : ∃ c rest, region = c :: rest ∧ c ≠ nul := by
  match region with
  | [] => exact absurd rfl h
  | c :: rest =>
    refine ⟨c, rest, rfl, ?_⟩
    rintro rfl
    apply h
    unfold regionText
    rw [render_nul, List.take_nil]

theorem vlogOutput_eq (mem : VlogMemory) {args : Nat → Arg} {region : List Char}
    (h : regionText args region ≠ []) :
    vlogOutput mem region args = regionText args region ++
      nul :: mem.output.chars.drop ((regionText args region).length + 1) := by
  obtain ⟨text, rfl, hout⟩ :=
    formatString_output args (by decide) mem.output.room (regionText_ne_nil h)
  exact hout

theorem vlogOutput_cString (mem : VlogMemory) {args : Nat → Arg} {region : List Char}
    (hne : regionText args region ≠ []) (hnul : nul ∉ regionText args region) :
    cString (vlogOutput mem region args) = regionText args region := by
  rw [vlogOutput_eq mem hne, cString_append_nul, cString_of_noNul hnul]

theorem regionText_length_le (args : Nat → Arg) (region : List Char) :
    (regionText args region).length ≤ maxTextLength - 1 := by
  unfold regionText
  rw [List.length_take]
  exact Nat.min_le_left _ _

theorem messageText_length_le (fmt : CString) (args : Nat → Arg) :
    (messageText fmt args).length ≤ maxTextLength - 1 :=
  regionText_length_le args fmt.chars

theorem uartSend_vlogOutput (mem : VlogMemory) {args : Nat → Arg} {region : List Char}
    (hne : regionText args region ≠ []) (hpercent : '%' ∉ regionText args region)
    (hnul : nul ∉ regionText args region) :
    uartSend (vlogOutput mem region args) maxTextLength mem.sent = regionText args region := by
  have htext := vlogOutput_cString mem hne hnul
  rw [← htext] at hne hpercent
  rw [uartSend_plain mem.sent (by decide) hne hpercent, htext]
  exact List.take_of_length_le (regionText_length_le args region)

theorem lineStored_printf {t : Terminal} {n : Nat} (h : CalledTimes t n) (mem : VlogMemory)
    {output : List Char} (hlength : (cString output).length ≤ maxTextLength - 1) :
    LineStored (cString output) t (t.printf (outputMessage mem output)).1 := by
  have hhead : t.head.toNat < 40 := by
    rw [h.head]
    omega
  have hrow := t.circularBuffer.row_length hhead
  have hread := formatString_cString (outputMessage mem output).args (by decide)
    (Nat.le_of_eq hrow.symm) ⟨'%', ['s', nul], rfl, by decide⟩
  refine ⟨?_, ?_, fun i hi => ?_⟩
  · rw [(h.printf _).head, h.head, Int.tmod_eq_emod_of_nonneg (by omega)]
    omega
  · rw [t.printf_circularBuffer, t.circularBuffer.format_row hhead]
    apply hread.trans
    rw [render_percent, render_nul, List.append_nil]
    show cString ((cString output).take (maxTextLength - 1)) = cString output
    rw [cString_take, List.take_of_length_le hlength]
  · rw [t.printf_circularBuffer, t.circularBuffer.format_row_ne hi]

end sinks

section printing

/-- Calls of `log` have come to their ends: each has printed its message and sent two lines. -/
structure Prints (messages : List Message) (s s' : Logger) : Prop where
  vlogs : s'.vlogs = s.vlogs + messages.length
  uart : ∃ lines, lines.length = 2 * messages.length ∧ s'.uart = s.uart ++ lines
  terminal : s'.logTerminal = s.logTerminal.map fun t => t.after messages

variable {s s₁ s₂ s' : Logger} {messages more : List Message}

theorem Prints.of_terminal (hvlogs : s'.vlogs = s.vlogs) (huart : s'.uart = s.uart)
    (hterminal : s'.logTerminal = s.logTerminal) : Prints [] s s' := by
  refine ⟨hvlogs, ⟨[], rfl, by rw [huart, List.append_nil]⟩, ?_⟩
  rw [hterminal]
  exact Option.map_id'.symm

theorem Prints.trans (h : Prints messages s s₁) (h' : Prints more s₁ s₂) :
    Prints (messages ++ more) s s₂ := by
  obtain ⟨lines, hlength, huart⟩ := h.uart
  obtain ⟨lines', hlength', huart'⟩ := h'.uart
  refine ⟨?_, ⟨lines ++ lines', ?_, ?_⟩, ?_⟩
  · rw [h'.vlogs, h.vlogs, List.length_append, Nat.add_assoc]
  · rw [List.length_append, List.length_append, hlength, hlength', Nat.mul_add]
  · rw [huart', huart, List.append_assoc]
  · rw [h'.terminal, h.terminal, Option.map_map]
    congr 1
    funext t
    exact (t.after_append messages more).symm

def Printing (log : Log) : Prop :=
  ∀ fmt args s s', log fmt args s = some s' → ∃ messages, Prints messages s s'

theorem command_prints {log : Log} (hlog : Printing log) {fmt : List Char}
    {args : Nat → Nat → Arg} (h : Logger.command log fmt args s = some s') :
    ∃ messages, Prints messages s s' := by
  by_cases hok : s.responses s.commands = respOkNodata
  · rw [command_ok log fmt args hok] at h
    obtain rfl := Option.some.inj h
    exact ⟨[], .of_terminal rfl rfl rfl⟩
  · rw [command_error log fmt args hok] at h
    obtain ⟨messages, hprints⟩ := hlog _ _ s.answered s' h
    exact ⟨messages, hprints.vlogs, hprints.uart, hprints.terminal⟩

def Logger.printed (s : Logger) (m : Message) : Logger :=
  { s with logTerminal := s.logTerminal.map fun t => (t.printf m).1 }

theorem vlogTerminal_prints {log : Log} (hlog : Printing log) {mem : VlogMemory}
    {output : List Char} (h : vlogTerminal log mem output true s = some s') :
    ∃ later, Prints later (s.printed (outputMessage mem output)) s' := by
  unfold vlogTerminal at h
  split at h
  · next t ht =>
    unfold terminalPrintf transferToHost2d resourceFlush at h
    obtain ⟨s₁, htransfer, hflush⟩ := Option.bind_eq_some_iff.mp h
    obtain ⟨messages, hfirst⟩ := command_prints hlog htransfer
    obtain ⟨more, hsecond⟩ := command_prints hlog hflush
    refine ⟨messages ++ more, ?_⟩
    rw [Logger.printed, ht]
    exact hfirst.trans hsecond
  · next hnone =>
    obtain rfl := Option.some.inj h
    refine ⟨[], .of_terminal rfl rfl ?_⟩
    rw [Logger.printed, hnone]
    rfl

/-- By induction on the depth: the message of the call comes first, then those of nested ones. -/
theorem log_prints (depth : Nat) : Printing (log depth) := by
  induction depth with
  | zero =>
    intro fmt args s s' h
    cases h
  | succ depth ih =>
    intro fmt args s s' h
    obtain ⟨s₁, hterminal, rfl⟩ := vlog_succ h
    obtain ⟨later, hprints⟩ := vlogTerminal_prints ih hterminal
    obtain ⟨lines, hlength, huart⟩ := hprints.uart
    let mem := s.memory s.vlogs
    let output := vlogOutput mem fmt args
    refine ⟨outputMessage mem output :: later, ?_,
      ⟨lines ++ [uartSend output maxTextLength mem.sent, ['\n']], ?_, ?_⟩, ?_⟩
    · have hvlogs : s₁.vlogs = s.vlogs + 1 + later.length := hprints.vlogs
      show s₁.vlogs = _
      rw [hvlogs, List.length_cons]
      omega
    · rw [List.length_append, hlength]
      exact (Nat.mul_succ 2 later.length).symm
    · rw [vlogUart_uart, huart, List.append_assoc]
      rfl
    · refine hprints.terminal.trans ?_
      rw [Logger.printed, Option.map_map]
      rfl

end printing

section exactly
variable {fmt : CString} {args : Nat → Arg}

theorem regionText_of_settled (h : Settled fmt args) (beyond : List Char) :
    regionText args (fmt.chars ++ nul :: beyond) = messageText fmt args := by
  unfold regionText messageText
  exact render_take args fmt.noNul h beyond

/-- What the text has to be for both sinks to get it. -/
structure Legible (fmt : CString) (args : Nat → Arg) : Prop where
  settled : Settled fmt args
  ne_nil : messageText fmt args ≠ []
  noPercent : '%' ∉ messageText fmt args
  noNul : nul ∉ messageText fmt args

section legible
variable (hlegible : Legible fmt args) (mem : VlogMemory) (beyond : List Char)
include hlegible

theorem Legible.sent : uartSend (vlogOutput mem (fmt.chars ++ nul :: beyond) args) maxTextLength
    mem.sent = messageText fmt args := by
  have htext := regionText_of_settled hlegible.settled beyond
  rw [uartSend_vlogOutput mem (htext ▸ hlegible.ne_nil) (htext ▸ hlegible.noPercent)
    (htext ▸ hlegible.noNul), htext]

theorem Legible.read :
    cString (vlogOutput mem (fmt.chars ++ nul :: beyond) args) = messageText fmt args := by
  have htext := regionText_of_settled hlegible.settled beyond
  rw [vlogOutput_cString mem (htext ▸ hlegible.ne_nil) (htext ▸ hlegible.noNul), htext]

end legible

section calls
variable {beyond : List Char} {sendTerminal : Bool} {depth : Nat}
variable {s s' : Logger}

theorem vlogTerminal_aside (log : Log) (mem : VlogMemory) (output : List Char)
    (h : s.logTerminal = none ∨ sendTerminal = false) :
    vlogTerminal log mem output sendTerminal s = some s := by
  unfold vlogTerminal
  rcases h with h | rfl
  · rw [h]
  · split <;> rfl

theorem sinksGet_of_vlog (hlegible : Legible fmt args) (hreached : TerminalReached s)
    (h : vlog depth (fmt.chars ++ nul :: beyond) args sendTerminal s = some s') :
    ∃ nested, SinksGet (messageText fmt args) sendTerminal nested s s' := by
  have hsent := hlegible.sent (s.memory s.vlogs) beyond
  have hread := hlegible.read (s.memory s.vlogs) beyond
  cases depth with
  | zero => cases h
  | succ depth =>
    obtain ⟨s₁, hterminal, rfl⟩ := vlog_succ h
    by_cases haside : s.logTerminal = none ∨ sendTerminal = false
    · have hunchanged := vlogTerminal_aside (s := { s with vlogs := s.vlogs + 1 })
        (log depth) (s.memory s.vlogs)
        (vlogOutput (s.memory s.vlogs) (fmt.chars ++ nul :: beyond) args) haside
      obtain rfl := Option.some.inj (hunchanged.symm.trans hterminal)
      refine ⟨0, rfl, ⟨[], rfl, ?_⟩, fun t ht hsend => ?_, fun _ => ⟨rfl, rfl⟩⟩
      · rw [vlogUart_uart, hsent, List.append_nil]
      · rcases haside with hnone | hoff
        · rw [hnone] at ht
          cases ht
        · rw [hsend] at hoff
          cases hoff
    · obtain rfl : sendTerminal = true := by simpa using (not_or.mp haside).2
      obtain ⟨later, hprints⟩ := vlogTerminal_prints (log_prints depth) hterminal
      obtain ⟨lines, hlines, huart⟩ := hprints.uart
      refine ⟨later.length, hprints.vlogs, ⟨lines, hlines, ?_⟩, fun t ht _ => ?_,
        fun h => absurd h haside⟩
      · rw [vlogUart_uart, hsent, huart]
        rfl
      · obtain ⟨contents, calls, rfl⟩ := hreached t ht
        have hcalled := (calledTimes_new contents).after calls
        have hstored := lineStored_printf hcalled (s.memory s.vlogs)
          (hread ▸ messageText_length_le fmt args)
        rw [hread] at hstored
        refine ⟨_, later, hstored, rfl, ?_, fun hlap => ?_⟩
        · refine hprints.terminal.trans ?_
          rw [Logger.printed, ht]
          rfl
        · -- a slot is written again only after forty calls
          rw [(hcalled.printf _).row_kept _ later fun k hk => by rw [hcalled.head]; omega]
          exact hstored.line

theorem vlog_returns {fmt : List Char}
    (h : sendTerminal = true → s.logTerminal.isSome = true → EnoughOks s) :
    ∃ depth s', vlog depth fmt args sendTerminal s = some s' := by
  by_cases haside : s.logTerminal = none ∨ sendTerminal = false
  · exact ⟨1, _, Option.bind_eq_some_iff.mpr ⟨_, vlogTerminal_aside _ _ _ haside, rfl⟩⟩
  · obtain ⟨hattached, hsend⟩ := not_or.mp haside
    obtain rfl : sendTerminal = true := by simpa using hsend
    have hsome := Option.isSome_iff_ne_none.mpr hattached
    obtain ⟨n, hcount⟩ := h rfl hsome
    obtain ⟨depth, s', hlog, -⟩ := enoughForLog n s hsome hcount.ge fmt args
    exact ⟨depth, s', hlog⟩

end calls

theorem sinksAgree_of_legible {sendTerminal : Bool} {s : Logger} (hlegible : Legible fmt args)
    (hreached : TerminalReached s)
    (hoks : sendTerminal = true → s.logTerminal.isSome = true → EnoughOks s) :
    SinksAgree fmt args sendTerminal s := by
  intro beyond memory
  obtain ⟨depth, s', hvlog⟩ := vlog_returns (s := { s with memory := memory }) hoks
  obtain ⟨nested, hget⟩ :=
    sinksGet_of_vlog (s := { s with memory := memory }) hlegible hreached hvlog
  exact ⟨depth, s', nested, hvlog, hget.vlogs, hget.uart, hget.terminal, hget.aside⟩

section forced
variable {sendTerminal : Bool} {s : Logger} (h : SinksAgree fmt args sendTerminal s)
include h

theorem SinksAgree.enoughOks (hsend : sendTerminal = true)
    (hattached : s.logTerminal.isSome = true) : EnoughOks s := by
  obtain ⟨depth, s', nested, hvlog, -⟩ := h [] s.memory
  subst hsend
  obtain ⟨n, -, hcount⟩ := (vlog_took depth _ _ s s' hattached hvlog).count
  exact ⟨n, hcount⟩

theorem SinksAgree.sent (beyond : List Char) (chars : Buffer maxTextLength) :
    uartSend (vlogOutput (clearMemory chars) (fmt.chars ++ nul :: beyond) args) maxTextLength
      (clearMemory chars).sent = messageText fmt args := by
  obtain ⟨depth, s', nested, hvlog, hget⟩ := h beyond fun _ => clearMemory chars
  obtain ⟨lines, -, huart⟩ := hget.uart
  obtain ⟨before, hown⟩ := vlog_uart hvlog
  rw [huart] at hown
  exact (List.cons.inj (List.append_inj_right' hown rfl)).1.symm

end forced

theorem regionText_terminated (fmt : CString) (args : Nat → Arg) :
    regionText args (fmt.chars ++ [nul]) = messageText fmt args := by
  unfold regionText messageText
  by_cases hcomplete : Complete fmt.chars
  · rw [render_complete args fmt.noNul hcomplete]
  · obtain ⟨m, hm⟩ := render_incomplete args fmt.noNul hcomplete 0
    rw [hm]
    exact congrArg (List.take _) (List.append_nil _)

theorem vlogOutput_clear (chars : Buffer maxTextLength) (args : Nat → Arg)
    (region : List Char) :
    cString (vlogOutput (clearMemory chars) region args) = cString (regionText args region) := by
  by_cases hempty : cString region = []
  · have hidle : vlogOutput (clearMemory chars) region args = (clearMemory chars).output.chars :=
      formatString_idle args hempty
    rw [hidle]
    match region with
    | [] => rfl
    | c :: rest =>
      by_cases hc : c = nul
      · subst hc
        unfold regionText
        rw [render_nul]
        rfl
      · rw [cString_cons_of_ne hc] at hempty
        cases hempty
  · exact formatString_cString args (by decide) (clearMemory chars).output.room
      (cString_ne_nil hempty)

section legible
variable {sendTerminal : Bool} {s : Logger} (h : SinksAgree fmt args sendTerminal s)
include h

theorem SinksAgree.noNul : nul ∉ messageText fmt args := by
  rw [← h.sent [] (Buffer.replicate maxTextLength nul)]
  exact uartSend_noNul _ _

theorem SinksAgree.ne_nil : messageText fmt args ≠ [] := by
  intro hempty
  have hout := vlogOutput_clear (Buffer.replicate maxTextLength 'x') args (fmt.chars ++ [nul])
  rw [regionText_terminated, hempty] at hout
  have hsent := h.sent [] (Buffer.replicate maxTextLength 'x')
  rw [uartSend_empty _ hout, hempty] at hsent
  revert hsent
  decide

theorem SinksAgree.noPercent : '%' ∉ messageText fmt args := by
  have hregion := regionText_terminated fmt args
  have hne := hregion ▸ h.ne_nil
  have hnul := hregion ▸ h.noNul
  have hout := vlogOutput_eq (clearMemory (Buffer.replicate maxTextLength nul)) hne
  have hread := vlogOutput_cString (clearMemory (Buffer.replicate maxTextLength nul)) hne hnul
  have hsent : uartSend (vlogOutput (clearMemory (Buffer.replicate maxTextLength nul))
      (fmt.chars ++ [nul]) args) maxTextLength ⟨Buffer.replicate maxTextLength nul, zeroArgs⟩ =
        messageText fmt args := h.sent [] (Buffer.replicate maxTextLength nul)
  have hbehind : (nul :: (clearMemory (Buffer.replicate maxTextLength nul)).output.chars.drop
      ((regionText args (fmt.chars ++ [nul])).length + 1)).count '%' = 0 := by
    rw [List.count_eq_zero, List.mem_cons, not_or]
    exact ⟨by decide, fun hmem =>
      absurd (List.eq_of_mem_replicate (List.mem_of_mem_drop hmem)) (by decide)⟩
  have hcount := count_percent_uartSend (Buffer.replicate maxTextLength nul)
    (by decide) (hread ▸ hne)
  rw [hsent, hout, List.count_append, hbehind, hregion] at hcount
  exact List.count_eq_zero.mp (by omega)

theorem SinksAgree.settled : Settled fmt args := by
  by_contra hsettled
  obtain ⟨hcomplete, hshort⟩ := not_or.mp hsettled
  rw [Nat.not_le] at hshort
  have htext : messageText fmt args = render args fmt.chars 0 :=
    List.take_of_length_le (Nat.le_of_lt hshort)
  obtain ⟨m, hm⟩ := render_incomplete args fmt.noNul hcomplete 0
  have hregion : regionText args (fmt.chars ++ nul :: ['x']) = messageText fmt args ++ ['x'] := by
    unfold regionText
    rw [hm, htext, List.take_of_length_le]
    · rfl
    · rw [List.length_append]
      exact hshort
  have hplain : ∀ c, c ≠ 'x' → c ∉ messageText fmt args →
      c ∉ regionText args (fmt.chars ++ nul :: ['x']) := by
    intro c hne hmem
    rw [hregion]
    simp [hne, hmem]
  have hsent := h.sent ['x'] (Buffer.replicate maxTextLength nul)
  rw [uartSend_vlogOutput _ (by rw [hregion]; simp) (hplain '%' (by decide) h.noPercent)
    (hplain nul (by decide) h.noNul), hregion] at hsent
  simp at hsent

end legible

end exactly

/-- The call returns with the text at both sinks exactly if the text is legible and, with a
terminal, enough commands are answered well. -/
theorem sinksAgree_iff (fmt : CString) (args : Nat → Arg) (sendTerminal : Bool) (s : Logger)
    (hreached : TerminalReached s) :
    SinksAgree fmt args sendTerminal s ↔ Legible fmt args ∧
      (sendTerminal = true → s.logTerminal.isSome = true → EnoughOks s) :=
  ⟨fun h => ⟨⟨h.settled, h.ne_nil, h.noPercent, h.noNul⟩, h.enoughOks⟩,
    fun ⟨hlegible, hoks⟩ => sinksAgree_of_legible hlegible hreached hoks⟩

def attached : Logger :=
  initTerminal (Terminal.new Slots.blank) (detached (Buffer.replicate maxTextLength nul))

theorem attached_reached : TerminalReached attached := by
  rintro t ⟨⟩
  exact ⟨Slots.blank, [], rfl⟩

theorem sinksAgree_attached : SinksAgree ⟨['z'], by decide⟩ zeroArgs true attached := by
  refine (sinksAgree_iff _ _ _ _ attached_reached).mpr ⟨⟨Or.inl ?_, ?_, ?_, ?_⟩, fun _ _ => ?_⟩
  · simp [Complete]
  · decide
  · decide
  · decide
  · exact ⟨2, rfl⟩

/-- Of `50%% of` the second pass leaves `50of`; the terminal gets the text. -/
theorem sinksAgree_fails_percent :
    (∃ s', vlog 1 ['5', '0', '%', '%', ' ', 'o', 'f', nul] zeroArgs true attached = some s' ∧
      s'.uart = [['5', '0', 'o', 'f'], ['\n']] ∧
      ∃ t, s'.logTerminal = some t ∧
        cString (t.circularBuffer.row 0) = ['5', '0', '%', ' ', 'o', 'f']) ∧
    ¬ SinksAgree ⟨['5', '0', '%', '%', ' ', 'o', 'f'], by decide⟩ zeroArgs true attached := by
  refine ⟨⟨_, rfl, by decide, _, rfl, by decide⟩, fun h => ?_⟩
  have hmem : '%' ∈ messageText ⟨['5', '0', '%', '%', ' ', 'o', 'f'], by decide⟩ zeroArgs := by
    decide
  exact h.noPercent hmem

end SelfmadeOS
