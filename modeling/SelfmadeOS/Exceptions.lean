import SelfmadeOS.FormatValues
import SelfmadeOS.MessageTexts

/-!
# Exceptions (`boot.s`, `exceptions.c`)

An exception enters at `VBAR_EL1<63:11>` followed by the eleven bits of its offset. What stands
there in `vector_table` is a branch to a handler, and the handler logs its report.
-/

namespace SelfmadeOS
set_option autoImplicit false
open CStrings

inductive ExceptionOrigin
  | currentElUsingSpel0
  | currentElUsingSpel1
  | lowerEl
  | lowerElAllLowerElAarch32
  deriving DecidableEq

inductive ExceptionKind
  | sync
  | irq
  | fiq
  | error
  deriving DecidableEq

structure ExceptionVector where
  origin : ExceptionOrigin
  kind : ExceptionKind
  deriving DecidableEq

structure ExceptionRegisters where
  esr : BitVec 64
  elr : BitVec 64
  far : BitVec 64

structure LogCall where
  fmt : CString
  args : Nat → Arg

structure ExceptionHandler where
  calls : ExceptionRegisters → List LogCall
  /-- The handler ends in `for (;;) wfi`; the others return. -/
  waits : Bool

section handlers

def literalText (text : String) (h : nul ∉ text.toList) : CString := ⟨text.toList, h⟩

def kernelLoggerLog (fmt : CString) : LogCall := ⟨fmt, zeroArgs⟩

def kernelLoggerLogWord (fmt : CString) (word : Nat) : LogCall := ⟨fmt, fun _ => wordArg word⟩

def syncText : CString := literalText "Synchronous exception:" (by simp [nul])
def irqText : CString := literalText "IRQ" (by simp [nul])
def fiqText : CString := literalText "FIQ:" (by simp [nul])
def errorText : CString := literalText "SError" (by simp [nul])

def spel0Text : CString :=
  literalText "Exception from the current EL while using SP_EL0" (by simp [nul])
def spel1Text : CString :=
  literalText "Exception from the current EL while using SP_EL1" (by simp [nul])
def lowerElText : CString :=
  literalText "Exception from a lower EL and at least one lower EL is AArch64" (by simp [nul])
def aarch32Text : CString :=
  literalText "\tException from a lower EL and all lower ELs are AArch32" (by simp [nul])

def ecFormat : CString := literalText "  ESR_EL1_EC: %x\n" (by simp [nul])
def elrFormat : CString := literalText "  ELR_EL1: %x\n" (by simp [nul])
def farFormat : CString := literalText "  FAR_EL1: %x\n" (by simp [nul])

/-- `(uint8_t)(esr>>26)&0x3F`. -/
def ExceptionRegisters.esrEc (r : ExceptionRegisters) : BitVec 8 :=
  (r.esr >>> 26).setWidth 8 &&& 0x3F#8

def logRegisters (r : ExceptionRegisters) : List LogCall :=
  [kernelLoggerLogWord ecFormat r.esrEc.toNat, kernelLoggerLogWord elrFormat r.elr.toNat,
    kernelLoggerLogWord farFormat r.far.toNat]

def logTwo (first second : CString) : ExceptionHandler :=
  ⟨fun _ => [kernelLoggerLog first, kernelLoggerLog second], false⟩

def syncExceptionCurrentElUsingSpel0 : ExceptionHandler :=
  ⟨fun r => [kernelLoggerLog syncText, kernelLoggerLog spel0Text] ++ logRegisters r, false⟩
def irqHandlerCurrentElUsingSpel0 : ExceptionHandler := logTwo irqText spel0Text
def fiqHandlerCurrentElUsingSpel0 : ExceptionHandler := logTwo fiqText spel0Text
def errorHandlerCurrentElUsingSpel0 : ExceptionHandler := logTwo errorText spel0Text

def syncExceptionCurrentElUsingSpel1 : ExceptionHandler :=
  ⟨fun r => [kernelLoggerLog syncText, kernelLoggerLog spel1Text] ++ logRegisters r, true⟩
def irqHandlerCurrentElUsingSpel1 : ExceptionHandler := logTwo irqText spel1Text
def fiqHandlerCurrentElUsingSpel1 : ExceptionHandler := logTwo fiqText spel1Text
def errorHandlerCurrentElUsingSpel1 : ExceptionHandler := logTwo errorText spel1Text

def syncExceptionLowerEl : ExceptionHandler := logTwo syncText lowerElText
def irqHandlerLowerEl : ExceptionHandler := logTwo irqText lowerElText
def fiqHandlerLowerEl : ExceptionHandler := logTwo fiqText lowerElText
def errorHandlerLowerEl : ExceptionHandler := logTwo errorText lowerElText

def syncExceptionLowerElAllLowerElAarch32 : ExceptionHandler := logTwo aarch32Text syncText
def irqHandlerLowerElAllLowerElAarch32 : ExceptionHandler := logTwo irqText aarch32Text
def fiqHandlerLowerElAllLowerElAarch32 : ExceptionHandler := logTwo fiqText aarch32Text
def errorHandlerLowerElAllLowerElAarch32 : ExceptionHandler := logTwo errorText aarch32Text

end handlers

/-- The branches of `vector_table`, one in every `0x80` bytes. -/
def vectorTable : List ExceptionHandler :=
  [syncExceptionCurrentElUsingSpel0, irqHandlerCurrentElUsingSpel0,
    fiqHandlerCurrentElUsingSpel0, errorHandlerCurrentElUsingSpel0,
    syncExceptionCurrentElUsingSpel1, irqHandlerCurrentElUsingSpel1,
    fiqHandlerCurrentElUsingSpel1, errorHandlerCurrentElUsingSpel1,
    syncExceptionLowerEl, irqHandlerLowerEl, fiqHandlerLowerEl, errorHandlerLowerEl,
    syncExceptionLowerElAllLowerElAarch32, irqHandlerLowerElAllLowerElAarch32,
    fiqHandlerLowerElAllLowerElAarch32, errorHandlerLowerElAllLowerElAarch32]

def ExceptionVector.handler : ExceptionVector → ExceptionHandler
  | ⟨.currentElUsingSpel0, .sync⟩ => syncExceptionCurrentElUsingSpel0
  | ⟨.currentElUsingSpel0, .irq⟩ => irqHandlerCurrentElUsingSpel0
  | ⟨.currentElUsingSpel0, .fiq⟩ => fiqHandlerCurrentElUsingSpel0
  | ⟨.currentElUsingSpel0, .error⟩ => errorHandlerCurrentElUsingSpel0
  | ⟨.currentElUsingSpel1, .sync⟩ => syncExceptionCurrentElUsingSpel1
  | ⟨.currentElUsingSpel1, .irq⟩ => irqHandlerCurrentElUsingSpel1
  | ⟨.currentElUsingSpel1, .fiq⟩ => fiqHandlerCurrentElUsingSpel1
  | ⟨.currentElUsingSpel1, .error⟩ => errorHandlerCurrentElUsingSpel1
  | ⟨.lowerEl, .sync⟩ => syncExceptionLowerEl
  | ⟨.lowerEl, .irq⟩ => irqHandlerLowerEl
  | ⟨.lowerEl, .fiq⟩ => fiqHandlerLowerEl
  | ⟨.lowerEl, .error⟩ => errorHandlerLowerEl
  | ⟨.lowerElAllLowerElAarch32, .sync⟩ => syncExceptionLowerElAllLowerElAarch32
  | ⟨.lowerElAllLowerElAarch32, .irq⟩ => irqHandlerLowerElAllLowerElAarch32
  | ⟨.lowerElAllLowerElAarch32, .fiq⟩ => fiqHandlerLowerElAllLowerElAarch32
  | ⟨.lowerElAllLowerElAarch32, .error⟩ => errorHandlerLowerElAllLowerElAarch32

section entry

/-- Where the linker puts `.vectors`; its `.balign 0x80` hold for the section as a whole. -/
structure TablePlace where
  address : Nat
  balign : address % 0x80 = 0

def ExceptionOrigin.number : ExceptionOrigin → Nat
  | .currentElUsingSpel0 => 0
  | .currentElUsingSpel1 => 1
  | .lowerEl => 2
  | .lowerElAllLowerElAarch32 => 3

def ExceptionKind.number : ExceptionKind → Nat
  | .sync => 0
  | .irq => 1
  | .fiq => 2
  | .error => 3

def ExceptionVector.offset (v : ExceptionVector) : Nat :=
  0x200 * v.origin.number + 0x80 * v.kind.number

/-- `VBAR_EL1` after `_start`, as far as the processor takes it. -/
def TablePlace.vectorBase (table : TablePlace) : Nat := table.address / 2 ^ 11 * 2 ^ 11

def TablePlace.entry (table : TablePlace) (v : ExceptionVector) : Nat :=
  table.vectorBase + v.offset

def TablePlace.branchTarget (table : TablePlace) (address : Nat) : Option ExceptionHandler :=
  if table.address ≤ address ∧ (address - table.address) % 0x80 = 0 then
    vectorTable[(address - table.address) / 0x80]?
  else none

end entry

section reporting

def LogCall.run (depth : Nat) (c : LogCall) (s : Logger) : Option Logger :=
  log depth (c.fmt.chars ++ [nul]) c.args s

def runCalls (depth : Nat) : List LogCall → Logger → Option Logger
  | [], s => some s
  | c :: calls, s => do
    let s ← c.run depth s
    runCalls depth calls s

/-- An exception is taken: what its entry branches to makes its calls. -/
def takeException (depth : Nat) (table : TablePlace) (v : ExceptionVector)
    (r : ExceptionRegisters) (s : Logger) : Option Logger := do
  let handler ← table.branchTarget (table.entry v)
  runCalls depth (handler.calls r) s

/-- What the two calls of `uart_send` in `vlog` put on the UART. -/
def LogCall.lines (c : LogCall) : List (List Char) := [messageText c.fmt c.args, ['\n']]

def ExceptionVector.report (v : ExceptionVector) (r : ExceptionRegisters) :
    List (List Char) :=
  (v.handler.calls r).flatMap LogCall.lines

end reporting

section texts

theorem messageText_plain (args : Nat → Arg) {fmt : CString} (hpercent : '%' ∉ fmt.chars)
    (hroom : fmt.chars.length ≤ maxTextLength - 1) : messageText fmt args = fmt.chars := by
  have hchars := cString_of_noNul fmt.noNul
  unfold messageText
  rw [render_cString args fmt.chars 0 (by rwa [hchars]), hchars,
    List.take_of_length_le hroom]

theorem legible_plain (args : Nat → Arg) {fmt : CString} (hpercent : '%' ∉ fmt.chars)
    (hroom : fmt.chars.length ≤ maxTextLength - 1) (hne : fmt.chars ≠ []) :
    Legible fmt args := by
  have htext := messageText_plain args hpercent hroom
  exact ⟨.inl (complete_of_noPercent hpercent), htext ▸ hne, htext ▸ hpercent,
    htext ▸ fmt.noNul⟩

theorem u32ToHex_chars {value : Nat} {c : Char} (hc : c ∈ u32ToHex value) :
    c ≠ '%' ∧ c ≠ nul := by
  have hhex : ∀ d : Fin 16, hex.getD d.val nul ≠ '%' ∧ hex.getD d.val nul ≠ nul := by decide
  rcases List.mem_cons.mp hc with rfl | hc
  · decide
  rcases List.mem_cons.mp hc with rfl | hc
  · decide
  obtain ⟨i, -, rfl⟩ := List.mem_map.mp hc
  exact hhex ⟨_, Nat.lt_of_le_of_lt Nat.and_le_right (by decide)⟩

theorem u32ToHex_inj {a b : Nat} (ha : a < 2 ^ 32) (hb : b < 2 ^ 32)
    (h : u32ToHex a = u32ToHex b) : a = b := by
  have ha' : a < 16 ^ 8 := Nat.lt_of_lt_of_eq ha (by decide)
  have hb' : b < 16 ^ 8 := Nat.lt_of_lt_of_eq hb (by decide)
  unfold u32ToHex at h
  rw [toHex_padded (by decide) ha', toHex_padded (by decide) hb'] at h
  exact Numerals.padded_inj (by decide) (by decide) ha' hb' (List.cons.inj (List.cons.inj h).2).2

structure RegisterFormat (fmt : CString) (label : List Char) : Prop where
  chars : fmt.chars = label ++ ['%', 'x', '\n']
  noPercent : '%' ∉ label
  room : label.length + 11 ≤ maxTextLength - 1

section registers
variable {fmt : CString} {label : List Char} (h : RegisterFormat fmt label) (word : Nat)
include h

theorem RegisterFormat.messageText :
    messageText fmt (fun _ => wordArg word) = label ++ u32ToHex (word % 2 ^ 32) ++ ['\n'] := by
  have hnul : nul ∉ label := fun hmem => fmt.noNul (h.chars ▸ List.mem_append_left _ hmem)
  have hrest : render (fun _ => wordArg word) ['%', 'x', '\n'] 0 =
      u32ToHex (word % 2 ^ 32) ++ ['\n'] := render_percent _ 0 'x' ['\n']
  unfold SelfmadeOS.messageText
  rw [h.chars, render_label _ h.noPercent hnul, hrest, ← List.append_assoc]
  apply List.take_of_length_le
  have hroom := h.room
  simp only [List.length_append, u32ToHex_length, List.length_singleton]
  omega

theorem RegisterFormat.legible : Legible fmt (fun _ => wordArg word) := by
  have htext := h.messageText word
  have hnul : nul ∉ label := fun hmem => fmt.noNul (h.chars ▸ List.mem_append_left _ hmem)
  refine ⟨.inl ?_, ?_, ?_, ?_⟩
  · rw [h.chars, complete_label h.noPercent, complete_percent]
    exact complete_of_noPercent (by decide)
  · rw [htext]
    simp
  · rw [htext]
    simp only [List.mem_append, not_or]
    exact ⟨⟨h.noPercent, fun hc => (u32ToHex_chars hc).1 rfl⟩, by decide⟩
  · rw [htext]
    simp only [List.mem_append, not_or]
    exact ⟨⟨hnul, fun hc => (u32ToHex_chars hc).2 rfl⟩, by decide⟩

theorem RegisterFormat.messageText_eq_iff (word' : Nat) :
    SelfmadeOS.messageText fmt (fun _ => wordArg word) =
        SelfmadeOS.messageText fmt (fun _ => wordArg word') ↔
      word % 2 ^ 32 = word' % 2 ^ 32 := by
  rw [h.messageText, h.messageText, List.append_left_inj, List.append_right_inj]
  constructor
  · exact u32ToHex_inj (Nat.mod_lt _ (by decide)) (Nat.mod_lt _ (by decide))
  · exact congrArg u32ToHex

end registers

theorem ecFormat_register : RegisterFormat ecFormat "  ESR_EL1_EC: ".toList :=
  ⟨by simp [ecFormat, literalText], by simp, by simp [maxTextLength]⟩

theorem elrFormat_register : RegisterFormat elrFormat "  ELR_EL1: ".toList :=
  ⟨by simp [elrFormat, literalText], by simp, by simp [maxTextLength]⟩

theorem farFormat_register : RegisterFormat farFormat "  FAR_EL1: ".toList :=
  ⟨by simp [farFormat, literalText], by simp, by simp [maxTextLength]⟩

end texts

section reports

def ExceptionKind.text : ExceptionKind → CString
  | .sync => syncText
  | .irq => irqText
  | .fiq => fiqText
  | .error => errorText

def ExceptionOrigin.text : ExceptionOrigin → CString
  | .currentElUsingSpel0 => spel0Text
  | .currentElUsingSpel1 => spel1Text
  | .lowerEl => lowerElText
  | .lowerElAllLowerElAarch32 => aarch32Text

/-- One handler logs where the exception is from before it logs of what kind it is. -/
def ExceptionVector.swapped (v : ExceptionVector) : Prop :=
  v = ⟨.lowerElAllLowerElAarch32, .sync⟩

instance (v : ExceptionVector) : Decidable v.swapped := inferInstanceAs (Decidable (_ = _))

def ExceptionVector.logsRegisters (v : ExceptionVector) : Prop :=
  v.kind = .sync ∧ (v.origin = .currentElUsingSpel0 ∨ v.origin = .currentElUsingSpel1)

instance (v : ExceptionVector) : Decidable v.logsRegisters :=
  inferInstanceAs (Decidable (_ ∧ _))

def ExceptionVector.texts (v : ExceptionVector) : List CString :=
  if v.swapped then [v.origin.text, v.kind.text] else [v.kind.text, v.origin.text]

theorem ExceptionVector.handler_calls (v : ExceptionVector) (r : ExceptionRegisters) :
    v.handler.calls r =
      v.texts.map kernelLoggerLog ++ if v.logsRegisters then logRegisters r else [] := by
  obtain ⟨origin, kind⟩ := v
  cases origin <;> cases kind <;> rfl

theorem ExceptionKind.text_plain (k : ExceptionKind) :
    '%' ∉ k.text.chars ∧ k.text.chars.length ≤ 22 ∧ k.text.chars ≠ [] := by
  cases k <;> simp [text, syncText, irqText, fiqText, errorText, literalText]

theorem ExceptionOrigin.text_plain (o : ExceptionOrigin) :
    '%' ∉ o.text.chars ∧ 22 < o.text.chars.length ∧ o.text.chars.length ≤ 62 := by
  cases o <;> simp [text, spel0Text, spel1Text, lowerElText, aarch32Text, literalText]

theorem ExceptionKind.text_inj {k k' : ExceptionKind} (h : k.text.chars = k'.text.chars) :
    k = k' := by
  have hlength := congrArg List.length h
  cases k <;> cases k' <;>
    simp [text, syncText, irqText, fiqText, errorText, literalText] at hlength ⊢

theorem ExceptionOrigin.text_inj {o o' : ExceptionOrigin} (h : o.text.chars = o'.text.chars) :
    o = o' := by
  cases o <;> cases o' <;>
    simp [text, spel0Text, spel1Text, lowerElText, aarch32Text, literalText] at h ⊢

theorem ExceptionKind.messageText_text (k : ExceptionKind) :
    messageText k.text zeroArgs = k.text.chars := by
  obtain ⟨hpercent, hlength, -⟩ := k.text_plain
  exact messageText_plain zeroArgs hpercent (hlength.trans (by decide))

theorem ExceptionOrigin.messageText_text (o : ExceptionOrigin) :
    messageText o.text zeroArgs = o.text.chars := by
  obtain ⟨hpercent, -, hlength⟩ := o.text_plain
  exact messageText_plain zeroArgs hpercent (hlength.trans (by decide))

theorem ExceptionVector.texts_plain (v : ExceptionVector) {fmt : CString}
    (h : fmt ∈ v.texts) : fmt = v.kind.text ∨ fmt = v.origin.text := by
  unfold texts at h
  split at h
  · exact (by simpa using h : fmt = v.origin.text ∨ fmt = v.kind.text).symm
  · simpa using h

theorem ExceptionVector.calls_legible (v : ExceptionVector) (r : ExceptionRegisters)
    {c : LogCall} (hc : c ∈ v.handler.calls r) : Legible c.fmt c.args := by
  rw [v.handler_calls r] at hc
  rcases List.mem_append.mp hc with htext | hregister
  · obtain ⟨fmt, hfmt, rfl⟩ := List.mem_map.mp htext
    rcases v.texts_plain hfmt with rfl | rfl
    · obtain ⟨hpercent, hlength, hne⟩ := v.kind.text_plain
      exact legible_plain zeroArgs hpercent (hlength.trans (by decide)) hne
    · obtain ⟨hpercent, hpos, hlength⟩ := v.origin.text_plain
      refine legible_plain zeroArgs hpercent (hlength.trans (by decide)) ?_
      exact List.ne_nil_of_length_pos (Nat.zero_lt_of_lt hpos)
  · split at hregister
    · simp only [logRegisters, List.mem_cons, List.not_mem_nil, or_false] at hregister
      rcases hregister with rfl | rfl | rfl
      · exact ecFormat_register.legible _
      · exact elrFormat_register.legible _
      · exact farFormat_register.legible _
    · exact absurd hregister List.not_mem_nil

theorem lines_eq_iff (calls calls' : List LogCall) :
    calls.flatMap LogCall.lines = calls'.flatMap LogCall.lines ↔
      calls.map (fun c => messageText c.fmt c.args) =
        calls'.map (fun c => messageText c.fmt c.args) := by
  induction calls generalizing calls' with
  | nil =>
    cases calls' with
    | nil => exact Iff.rfl
    | cons c' calls' => simp [LogCall.lines]
  | cons c calls ih =>
    cases calls' with
    | nil => simp [LogCall.lines]
    | cons c' calls' =>
      simp only [List.flatMap_cons, LogCall.lines, List.cons_append, List.nil_append,
        List.map_cons, List.cons.injEq, true_and]
      exact and_congr_right fun _ => ih calls'

/-- The texts alone tell the exceptions apart. -/
theorem ExceptionVector.texts_inj {v v' : ExceptionVector}
    (h : v.texts.map (fun fmt => messageText fmt zeroArgs) =
      v'.texts.map (fun fmt => messageText fmt zeroArgs)) : v = v' := by
  have hapart : ∀ (k : ExceptionKind) (o : ExceptionOrigin), k.text.chars ≠ o.text.chars := by
    intro k o heq
    have hkind := k.text_plain.2.1
    have horigin := o.text_plain.2.1
    rw [heq] at hkind
    omega
  unfold texts at h
  split at h <;> split at h <;>
    simp only [List.map_cons, List.map_nil, ExceptionKind.messageText_text,
      ExceptionOrigin.messageText_text, List.cons.injEq, and_true] at h
  · rename_i hv hv'
    exact hv.trans hv'.symm
  · exact absurd h.1.symm (hapart _ _)
  · exact absurd h.1 (hapart _ _)
  · obtain ⟨origin, kind⟩ := v
    obtain ⟨origin', kind'⟩ := v'
    obtain rfl : kind = kind' := ExceptionKind.text_inj h.1
    obtain rfl : origin = origin' := ExceptionOrigin.text_inj h.2
    rfl

theorem ExceptionRegisters.esrEc_eq_iff (r r' : ExceptionRegisters) :
    r.esrEc.toNat % 2 ^ 32 = r'.esrEc.toNat % 2 ^ 32 ↔
      r.esr.extractLsb' 26 6 = r'.esr.extractLsb' 26 6 := by
  have hec : ∀ r : ExceptionRegisters,
      r.esrEc.toNat % 2 ^ 32 = (r.esr.extractLsb' 26 6).toNat := by
    intro r
    have hmask := Nat.and_two_pow_sub_one_eq_mod ((r.esr.toNat >>> 26) % 2 ^ 8) 6
    simp only [esrEc, BitVec.toNat_and, BitVec.toNat_setWidth, BitVec.toNat_ushiftRight,
      BitVec.extractLsb'_toNat, BitVec.toNat_ofNat]
    rw [show 0x3F % 2 ^ 8 = 2 ^ 6 - 1 by decide, hmask]
    omega
  rw [hec, hec, BitVec.toNat_inj]

theorem logRegisters_eq_iff (r r' : ExceptionRegisters) :
    (logRegisters r).map (fun c => messageText c.fmt c.args) =
        (logRegisters r').map (fun c => messageText c.fmt c.args) ↔
      r.esr.extractLsb' 26 6 = r'.esr.extractLsb' 26 6 ∧
        r.elr.setWidth 32 = r'.elr.setWidth 32 ∧ r.far.setWidth 32 = r'.far.setWidth 32 := by
  simp only [logRegisters, kernelLoggerLogWord, List.map_cons, List.map_nil, List.cons.injEq,
    and_true, ecFormat_register.messageText_eq_iff, elrFormat_register.messageText_eq_iff,
    farFormat_register.messageText_eq_iff, r.esrEc_eq_iff r']
  simp only [← BitVec.toNat_inj, BitVec.toNat_setWidth]

/-- Two reports are the same exactly for the same exception; of the registers, those handlers
that log them show the class and the low halves of the two addresses. -/
theorem ExceptionVector.report_eq_iff (v v' : ExceptionVector) (r r' : ExceptionRegisters) :
    v.report r = v'.report r' ↔ v = v' ∧
      (v.logsRegisters → r.esr.extractLsb' 26 6 = r'.esr.extractLsb' 26 6 ∧
        r.elr.setWidth 32 = r'.elr.setWidth 32 ∧
        r.far.setWidth 32 = r'.far.setWidth 32) := by
  unfold report
  rw [lines_eq_iff, v.handler_calls, v'.handler_calls, List.map_append, List.map_append,
    List.map_map, List.map_map]
  constructor
  · intro h
    have hlength : ∀ v : ExceptionVector, v.texts.length = 2 := by
      intro v
      unfold texts
      split <;> rfl
    obtain ⟨htexts, hregisters⟩ := List.append_inj h (by simp [hlength])
    obtain rfl := texts_inj htexts
    refine ⟨rfl, fun hlogs => ?_⟩
    rw [if_pos hlogs, if_pos hlogs] at hregisters
    exact (logRegisters_eq_iff r r').mp hregisters
  · rintro ⟨rfl, h⟩
    split
    · rename_i hlogs
      rw [(logRegisters_eq_iff r r').mpr (h hlogs)]
    · rfl

end reports

section sending
variable {s s' : Logger}

theorem LogCall.run_uart {c : LogCall} {depth : Nat} (hlegible : Legible c.fmt c.args)
    (h : c.run depth s = some s') :
    ∃ nested, s'.uart = s.uart ++ nested ++ c.lines ∧
      2 * s'.vlogs = 2 * s.vlogs + nested.length + 2 := by
  cases depth with
  | zero => cases h
  | succ depth =>
    obtain ⟨s₁, hterminal, rfl⟩ := vlog_succ h
    obtain ⟨later, hprints⟩ := vlogTerminal_prints (log_prints depth) hterminal
    obtain ⟨nested, hlength, hnested⟩ := hprints.uart
    have hvlogs : s₁.vlogs = s.vlogs + 1 + later.length := hprints.vlogs
    refine ⟨nested, ?_, ?_⟩
    · rw [vlogUart_uart, hnested, hlegible.sent]
      rfl
    · show 2 * s₁.vlogs = _
      rw [hvlogs, hlength]
      omega

/-- The lines of a run come one after another, with those of nested calls between them. -/
theorem runCalls_uart {depth : Nat} {calls : List LogCall}
    (hlegible : ∀ c ∈ calls, Legible c.fmt c.args) (h : runCalls depth calls s = some s') :
    ∃ sent, s'.uart = s.uart ++ sent ∧ (calls.flatMap LogCall.lines).Sublist sent ∧
      2 * s'.vlogs = 2 * s.vlogs + sent.length := by
  induction calls generalizing s with
  | nil =>
    obtain rfl := Option.some.inj h
    exact ⟨[], (List.append_nil _).symm, List.Sublist.slnil, rfl⟩
  | cons c calls ih =>
    obtain ⟨s₁, hrun, hrest⟩ := Option.bind_eq_some_iff.mp h
    obtain ⟨nested, hfirst, hcount⟩ := LogCall.run_uart (hlegible c List.mem_cons_self) hrun
    obtain ⟨sent, hsent, hsublist, hcount'⟩ :=
      ih (fun c hc => hlegible c (List.mem_cons_of_mem _ hc)) hrest
    refine ⟨nested ++ c.lines ++ sent, ?_, ?_, ?_⟩
    · rw [hsent, hfirst]
      simp only [List.append_assoc]
    · rw [List.flatMap_cons]
      exact (List.sublist_append_right nested c.lines).append hsublist
    · have hlines : c.lines.length = 2 := rfl
      rw [hcount', hcount, List.length_append, List.length_append, hlines]
      omega

def AnswersOk (s : Logger) : Prop := ∀ n, s.responses n = respOkNodata

theorem terminalPrintf_ok (log : Log) (h : AnswersOk s) (t : Terminal) (m : Message) :
    ∃ s', terminalPrintf log t m s = some s' ∧ s'.uart = s.uart ∧ AnswersOk s' := by
  let stored : Logger := { s with logTerminal := some (t.printf m).1 }
  have htransfer : transferToHost2d log stored = some stored.answered := command_ok log _ _ (h _)
  have hflush : resourceFlush log stored.answered = some stored.answered.answered :=
    command_ok log _ _ (h _)
  exact ⟨_, Option.bind_eq_some_iff.mpr ⟨_, htransfer, hflush⟩, rfl, h⟩

theorem vlogTerminal_ok (log : Log) (h : AnswersOk s) (mem : VlogMemory) (output : List Char)
    (sendTerminal : Bool) :
    ∃ s', vlogTerminal log mem output sendTerminal s = some s' ∧ s'.uart = s.uart ∧
      AnswersOk s' := by
  unfold vlogTerminal
  split
  · split
    · exact terminalPrintf_ok log h _ _
    · exact ⟨s, rfl, rfl, h⟩
  · exact ⟨s, rfl, rfl, h⟩

theorem LogCall.run_ok {c : LogCall} (depth : Nat) (hlegible : Legible c.fmt c.args)
    (h : AnswersOk s) :
    ∃ s', c.run (depth + 1) s = some s' ∧ s'.uart = s.uart ++ c.lines ∧ AnswersOk s' := by
  let mem := s.memory s.vlogs
  let output := vlogOutput mem (c.fmt.chars ++ [nul]) c.args
  obtain ⟨s₁, hterminal, huart, hok⟩ :=
    vlogTerminal_ok (s := { s with vlogs := s.vlogs + 1 }) (log depth) h mem output true
  have hrun : c.run (depth + 1) s = some (vlogUart mem output s₁) :=
    Option.bind_eq_some_iff.mpr ⟨s₁, hterminal, rfl⟩
  refine ⟨_, hrun, ?_, hok⟩
  rw [vlogUart_uart, huart, hlegible.sent]
  rfl

theorem runCalls_ok (depth : Nat) {calls : List LogCall}
    (hlegible : ∀ c ∈ calls, Legible c.fmt c.args) (h : AnswersOk s) :
    ∃ s', runCalls (depth + 1) calls s = some s' ∧
      s'.uart = s.uart ++ calls.flatMap LogCall.lines := by
  induction calls generalizing s with
  | nil => exact ⟨s, rfl, (List.append_nil _).symm⟩
  | cons c calls ih =>
    obtain ⟨s₁, hrun, huart, hok⟩ := LogCall.run_ok depth (hlegible c List.mem_cons_self) h
    obtain ⟨s₂, hrest, hsent⟩ := ih (fun c hc => hlegible c (List.mem_cons_of_mem _ hc)) hok
    refine ⟨s₂, Option.bind_eq_some_iff.mpr ⟨s₁, hrun, hrest⟩, ?_⟩
    rw [hsent, huart, List.flatMap_cons, List.append_assoc]

end sending

section dispatching

def vectors : List ExceptionVector :=
  [.currentElUsingSpel0, .currentElUsingSpel1, .lowerEl, .lowerElAllLowerElAarch32].flatMap
    fun origin => [.sync, .irq, .fiq, .error].map (ExceptionVector.mk origin)

def ExceptionVector.index (v : ExceptionVector) : Nat := 4 * v.origin.number + v.kind.number

theorem vectorTable_eq : vectorTable = vectors.map ExceptionVector.handler := rfl

theorem vectors_index (v : ExceptionVector) : vectors[v.index]? = some v := by
  obtain ⟨origin, kind⟩ := v
  cases origin <;> cases kind <;> rfl

theorem ExceptionVector.offset_eq (v : ExceptionVector) : v.offset = 0x80 * v.index := by
  unfold offset index
  omega

theorem ExceptionVector.index_lt (v : ExceptionVector) : v.index < 16 :=
  (List.getElem?_eq_some_iff.mp (vectors_index v)).1

theorem ExceptionVector.handler_inj {v v' : ExceptionVector} (h : v.handler = v'.handler) :
    v = v' := by
  have hreport : v.report ⟨0, 0, 0⟩ = v'.report ⟨0, 0, 0⟩ := by
    unfold report
    rw [h]
  exact ((v.report_eq_iff v' _ _).mp hreport).1

theorem vectorTable_getElem?_iff (v : ExceptionVector) (i : Nat) :
    vectorTable[i]? = some v.handler ↔ i = v.index := by
  rw [vectorTable_eq, List.getElem?_map]
  constructor
  · intro h
    obtain ⟨w, hw, hhandler⟩ := Option.map_eq_some_iff.mp h
    obtain rfl := ExceptionVector.handler_inj hhandler
    have hi := (List.getElem?_eq_some_iff.mp hw).1
    exact (List.getElem?_inj hi (by decide)).mp (hw.trans (vectors_index w).symm)
  · rintro rfl
    rw [vectors_index]
    rfl

theorem TablePlace.branchTarget_entry (table : TablePlace) (v : ExceptionVector) :
    table.branchTarget (table.entry v) = some v.handler ↔ table.address % 2 ^ 11 = 0 := by
  have hbase : table.vectorBase + table.address % 2 ^ 11 = table.address :=
    Nat.div_add_mod' table.address (2 ^ 11)
  have hoffset := v.offset_eq
  have hbalign := table.balign
  unfold branchTarget entry
  constructor
  · intro h
    split at h
    · rename_i hinside
      have hindex := (vectorTable_getElem?_iff v _).mp h
      omega
    · cases h
  · intro h
    rw [if_pos ⟨by omega, by omega⟩]
    exact (vectorTable_getElem?_iff v _).mpr (by omega)

end dispatching

section exceptions

/-- The linker script aligns the table to 64 bytes and the section itself to `0x80`; an
exception reaches its own handler exactly if the address is a multiple of `0x800`. -/
theorem dispatched_iff (table : TablePlace) (v : ExceptionVector) :
    table.branchTarget (table.entry v) = some v.handler ↔ table.address % 0x800 = 0 :=
  table.branchTarget_entry v

theorem takeException_eq {table : TablePlace} (h : table.address % 0x800 = 0) (depth : Nat)
    (v : ExceptionVector) (r : ExceptionRegisters) (s : Logger) :
    takeException depth table v r s = runCalls depth (v.handler.calls r) s := by
  unfold takeException
  rw [(table.branchTarget_entry v).mpr h]
  rfl

/-- Whatever the GPU answers: where an exception is handled to the end of its calls, its report
stands on the UART, in order; every call of the logger, nested or not, has sent two lines. -/
theorem exception_reported {table : TablePlace} (h : table.address % 0x800 = 0)
    {v : ExceptionVector} {r : ExceptionRegisters} {depth : Nat} {s s' : Logger}
    (htaken : takeException depth table v r s = some s') :
    ∃ sent, s'.uart = s.uart ++ sent ∧ (v.report r).Sublist sent ∧
      sent.length = 2 * (s'.vlogs - s.vlogs) := by
  rw [takeException_eq h] at htaken
  obtain ⟨sent, hsent, hreport, hcount⟩ :=
    runCalls_uart (fun c hc => v.calls_legible r hc) htaken
  exact ⟨sent, hsent, hreport, by omega⟩

theorem takeException_ok {table : TablePlace} (h : table.address % 0x800 = 0)
    (v : ExceptionVector) (r : ExceptionRegisters) (depth : Nat) {s : Logger}
    (hok : AnswersOk s) :
    ∃ s', takeException (depth + 1) table v r s = some s' ∧
      s'.uart = s.uart ++ v.report r := by
  rw [takeException_eq h]
  exact runCalls_ok depth (fun c hc => v.calls_legible r hc) hok

/-- An access to an address that is not mapped, on the kernel's own stack. -/
def dataAbort : ExceptionRegisters := ⟨0x96000045#64, 0x40010204#64, 0x8000000000#64⟩

def alignedTable : TablePlace := ⟨0x40018000, by decide⟩

theorem exception_reported_abort :
    ∃ s' sent, takeException 1 alignedTable ⟨.currentElUsingSpel1, .sync⟩ dataAbort
        (detached (Buffer.replicate maxTextLength nul)) = some s' ∧
      s'.uart = [] ++ sent ∧
      (ExceptionVector.report ⟨.currentElUsingSpel1, .sync⟩ dataAbort).Sublist sent ∧
      sent.length = 2 * s'.vlogs := by
  have haligned : alignedTable.address % 0x800 = 0 := by decide
  obtain ⟨s', htaken, -⟩ := takeException_ok haligned ⟨.currentElUsingSpel1, .sync⟩ dataAbort 0
    (s := detached (Buffer.replicate maxTextLength nul)) (fun _ => rfl)
  obtain ⟨sent, hsent, hreport, hcount⟩ := exception_reported haligned htaken
  exact ⟨s', sent, htaken, hsent, hreport, hcount⟩

end exceptions

end SelfmadeOS
