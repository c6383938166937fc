import SelfmadeOS.Terminal

/-!
# What the rows of the terminal show

A slot is written up to the NUL of its text and drawn as a whole, so what an earlier message
left behind that NUL is drawn with it.
-/

namespace SelfmadeOS
set_option autoImplicit false
open CStrings

namespace Message

/-- The text of the format of a message, as far as a slot has room for it. -/
def text (m : Message) : List Char :=
  (render m.args (cString m.fom) 0).take (maxTextLength - 1)

/-- The text of the memory that the formatter goes through. -/
def memoryText (m : Message) : List Char :=
  (render m.args m.fom 0).take (maxTextLength - 1)

/-- The cells of a row that shows the message and nothing else. -/
def line (m : Message) : List Char :=
  m.text ++ List.replicate (maxTextLength - m.text.length) nul

/-- The formatter finds no text behind the format, and the slot has nothing behind the NUL that
the formatter stores (behind its start, if the format is empty). -/
structure FillsRow (m : Message) (row : List Char) : Prop where
  ends : ∀ c ∈ m.memoryText.drop m.text.length, c = nul
  behind : ∀ c ∈ row.drop (if cString m.fom = [] then 0 else m.memoryText.length + 1), c = nul

end Message

section slots
variable {m : Message} {row : List Char}

theorem cString_split (region : List Char) :
    region = cString region ∨ ∃ beyond, region = cString region ++ nul :: beyond := by
  induction region with
  | nil => exact Or.inl rfl
  | cons c rest ih =>
    by_cases hc : c = nul
    · subst hc
      exact Or.inr ⟨rest, by rw [cString_nul]; rfl⟩
    · rw [cString_cons_of_ne hc]
      rcases ih with heq | ⟨beyond, heq⟩
      · exact Or.inl (congrArg (List.cons c) heq)
      · exact Or.inr ⟨beyond, congrArg (List.cons c) heq⟩

theorem render_region (args : Nat → Arg) (region : List Char) (n : Nat) :
    ∃ more, render args region n = render args (cString region) n ++ more := by
  rcases cString_split region with heq | ⟨beyond, heq⟩
  · exact ⟨[], by rw [← heq, List.append_nil]⟩
  · have hnoNul := cString_noNul region
    by_cases hcomplete : Complete (cString region)
    · refine ⟨[], ?_⟩
      rw [List.append_nil, ← render_complete args hnoNul hcomplete beyond, ← heq]
    · obtain ⟨k, hk⟩ := render_incomplete args hnoNul hcomplete n
      exact ⟨render args beyond k, by rw [← hk, ← heq]⟩

theorem Message.memoryText_split (m : Message) :
    m.memoryText = m.text ++ m.memoryText.drop m.text.length := by
  obtain ⟨more, hmore⟩ := render_region m.args m.fom 0
  have hprefix : m.text <+: m.memoryText := by
    unfold text memoryText
    rw [hmore, List.take_append]
    exact List.prefix_append _ _
  obtain ⟨rest, hrest⟩ := hprefix
  rw [← hrest, List.drop_left]

theorem append_eq_blank_iff (text : List Char) {rest : List Char} {width : Nat}
    (hlength : (text ++ rest).length = width) :
    text ++ rest = text ++ List.replicate (width - text.length) nul ↔ ∀ c ∈ rest, c = nul := by
  rw [List.append_cancel_left_eq, List.eq_replicate_iff]
  rw [List.length_append] at hlength
  constructor
  · exact fun h => h.2
  · exact fun h => ⟨by omega, h⟩

theorem Message.texts_of_empty (h : cString m.fom = []) : m.text = [] ∧ m.memoryText = [] := by
  unfold text memoryText
  refine ⟨by rw [h, render, List.take_nil], ?_⟩
  rcases cString_split m.fom with heq | ⟨beyond, heq⟩
  · rw [heq, h, render, List.take_nil]
  · rw [heq, h, List.nil_append, render_nul, List.take_nil]

theorem Message.formatString_split (hrow : row.length = maxTextLength)
    (h : cString m.fom ≠ []) :
    (formatString m.fom row maxTextLength m.args).output =
      m.text ++ (m.memoryText.drop m.text.length ++
        nul :: row.drop (m.memoryText.length + 1)) := by
  have hinput : ∃ c rest, m.fom = c :: rest ∧ c ≠ nul := by
    cases hfom : m.fom with
    | nil => rw [hfom] at h; exact absurd rfl h
    | cons c rest =>
      refine ⟨c, rest, rfl, ?_⟩
      rintro rfl
      rw [hfom, cString_nul] at h
      exact h rfl
  obtain ⟨text, rfl, hout⟩ :=
    formatString_output m.args (by decide) (Nat.le_of_eq hrow.symm) hinput
  rw [← List.append_assoc, ← m.memoryText_split]
  exact hout

/-- The slot holds the line of its message exactly if the message fills the row. -/
theorem Message.formatString_eq_line_iff (hrow : row.length = maxTextLength) :
    (formatString m.fom row maxTextLength m.args).output = m.line ↔ m.FillsRow row := by
  have hlength : (formatString m.fom row maxTextLength m.args).output.length = maxTextLength :=
    (formatString_length m.args).trans hrow
  by_cases hempty : cString m.fom = []
  · obtain ⟨htext, hmemory⟩ := texts_of_empty hempty
    rw [formatString_idle m.args hempty] at hlength ⊢
    have hblank := append_eq_blank_iff [] hlength
    unfold line
    rw [htext]
    refine hblank.trans ⟨fun h => ⟨?_, ?_⟩, fun h => ?_⟩
    · rw [hmemory, List.drop_nil]
      exact fun c hc => absurd hc List.not_mem_nil
    · rw [if_pos hempty]
      exact h
    · have hbehind := h.behind
      rwa [if_pos hempty] at hbehind
  · rw [formatString_split hrow hempty] at hlength ⊢
    refine (append_eq_blank_iff _ hlength).trans ⟨fun h => ⟨?_, ?_⟩, fun h => ?_⟩
    · exact fun c hc => h c (List.mem_append_left _ hc)
    · rw [if_neg hempty]
      exact fun c hc => h c (List.mem_append_right _ (List.mem_cons_of_mem _ hc))
    · have hbehind := h.behind
      rw [if_neg hempty] at hbehind
      rw [List.forall_mem_append, List.forall_mem_cons]
      exact ⟨h.ends, rfl, hbehind⟩

end slots

section ring
variable {t : Terminal}

theorem Slots.format_row_ne (b : Slots) {i j : Nat} (h : i ≠ j) (fom : List Char)
    (args : Nat → Arg) : (b.format i fom args).row j = b.row j := by
  unfold format row
  simp only
  rw [List.getD_eq_getElem?_getD, List.getElem?_set_ne h, List.getD_eq_getElem?_getD]

theorem Terminal.printf_circularBuffer (t : Terminal) (m : Message) :
    (t.printf m).1.circularBuffer =
      t.circularBuffer.format t.head.toNat m.fom m.args := by
  unfold printf scroll store
  split
  · split <;> rfl
  · rfl

theorem Terminal.after_append (t : Terminal) (first second : List Message) :
    t.after (first ++ second) = (t.after first).after second := by
  induction first generalizing t with
  | nil => rfl
  | cons m rest ih => exact ih _

theorem CalledTimes.row_kept {n : Nat} (h : CalledTimes t n) (slot : Nat) (calls : List Message)
    (hother : ∀ k, k < calls.length → (n + k) % 40 ≠ slot) :
    (t.after calls).circularBuffer.row slot = t.circularBuffer.row slot := by
  induction calls generalizing t n with
  | nil => rfl
  | cons m rest ih =>
    have hfirst := hother 0 (Nat.succ_pos _)
    have hhead : t.head.toNat ≠ slot := by
      rw [h.head]
      omega
    have hrest := ih (h.printf m) (fun k hk => by
      have hnext := hother (k + 1) (Nat.succ_lt_succ hk)
      omega)
    apply hrest.trans
    rw [t.printf_circularBuffer, t.circularBuffer.format_row_ne hhead]

end ring

section runs

/-- The terminal after these calls; its slots were cleared when they were allocated. -/
def terminalAfter (calls : List Message) : Terminal := (Terminal.new Slots.blank).after calls

def slotBefore (calls : List Message) : List Char :=
  (terminalAfter calls).circularBuffer.row (terminalAfter calls).head.toNat

/-- Each row that the call of `m` draws is the line of the last message in its slot. -/
def ShowsMessages (earlier : List Message) (m : Message) : Prop :=
  ∀ row ∈ ((terminalAfter earlier).printf m).2, ∃ (j : Nat) (stored : Message),
    (earlier ++ [m])[j]? = some stored ∧ row.slot = (j % 40 : Nat) ∧
      earlier.length < j + 40 ∧ row.string = stored.line

/-- The slot of call number `n` is drawn before it is written again: later than in the first lap
`tail` stays at 19. -/
def Drawn (n : Nat) : Prop := n % 40 ≠ 39 ∧ (n < 40 ∨ 19 ≤ n % 40)

variable {calls earlier rest : List Message} {m : Message}

theorem terminalAfter_called (calls : List Message) :
    CalledTimes (terminalAfter calls) calls.length := by
  have hcalled := (calledTimes_new Slots.blank).after calls
  rwa [Nat.zero_add] at hcalled

theorem terminalAfter_append (earlier rest : List Message) :
    terminalAfter (earlier ++ rest) = (terminalAfter earlier).after rest :=
  Terminal.after_append _ _ _

theorem slotBefore_length (calls : List Message) :
    (slotBefore calls).length = maxTextLength := by
  unfold slotBefore
  rw [(terminalAfter_called calls).head]
  exact Slots.row_length _ (by omega)

/-- What a call stores stays in its slot for the rest of a lap. -/
theorem terminalAfter_row (earlier : List Message) (m : Message) (rest : List Message)
    (hlap : rest.length < 40) :
    (terminalAfter (earlier ++ m :: rest)).circularBuffer.row (earlier.length % 40) =
      (formatString m.fom (slotBefore earlier) maxTextLength m.args).output := by
  have hcalled := terminalAfter_called earlier
  have hhead : (terminalAfter earlier).head.toNat = earlier.length % 40 := by
    rw [hcalled.head]
    omega
  have hkept := (hcalled.printf m).row_kept (earlier.length % 40) rest
    (fun k hk => by omega)
  rw [terminalAfter_append]
  apply hkept.trans
  unfold slotBefore
  rw [Terminal.printf_circularBuffer, hhead]
  exact Slots.format_row _ (by omega) m.fom m.args

def firstDrawn (n : Nat) : Nat := min (n - 20) 19

theorem printf_drawRow (earlier : List Message) (m : Message) {slot : Nat}
    (hlow : firstDrawn (earlier.length + 1) ≤ slot) (hhigh : slot < (earlier.length + 1) % 40) :
    let row := ((terminalAfter earlier).printf m).1.drawRow
      (slot - firstDrawn (earlier.length + 1))
    row.slot = (slot : Int) ∧
      row.string = (terminalAfter (earlier ++ [m])).circularBuffer.row slot := by
  unfold firstDrawn at *
  intro row
  have hcalled := (terminalAfter_called earlier).printf m
  have hslot : row.slot = (slot : Int) := by
    apply (hcalled.drawRow_slot (by omega)).trans
    omega
  refine ⟨hslot, ?_⟩
  have hstring : row.string =
    ((terminalAfter earlier).printf m).1.circularBuffer.row row.slot.toNat := rfl
  rw [hstring, hslot, Int.toNat_natCast, terminalAfter_append]
  rfl

theorem mem_printf_iff {row : TextRow} :
    row ∈ ((terminalAfter earlier).printf m).2 ↔
      ∃ slot, firstDrawn (earlier.length + 1) ≤ slot ∧ slot < (earlier.length + 1) % 40 ∧
        row = ((terminalAfter earlier).printf m).1.drawRow
          (slot - firstDrawn (earlier.length + 1)) := by
  have hcalled := (terminalAfter_called earlier).printf m
  have hrows : ((terminalAfter earlier).printf m).2 =
    ((terminalAfter earlier).printf m).1.drawRows := rfl
  rw [hrows, hcalled.drawRows, List.mem_map]
  unfold rowsDrawn firstDrawn
  constructor
  · rintro ⟨i, hi, rfl⟩
    have hcount := List.mem_range.mp hi
    refine ⟨min (earlier.length + 1 - 20) 19 + i, by omega, by omega, ?_⟩
    rw [Nat.add_sub_cancel_left]
  · rintro ⟨slot, hlow, hhigh, rfl⟩
    exact ⟨_, List.mem_range.mpr (by omega), rfl⟩

theorem ShowsMessages.fillsRow (h : ShowsMessages earlier m) (hdrawn : Drawn earlier.length) :
    m.FillsRow (slotBefore earlier) := by
  obtain ⟨hlast, hlap⟩ := hdrawn
  have hlow : firstDrawn (earlier.length + 1) ≤ earlier.length % 40 := by
    unfold firstDrawn
    omega
  have hhigh : earlier.length % 40 < (earlier.length + 1) % 40 := by omega
  obtain ⟨hslot, hstring⟩ := printf_drawRow earlier m hlow hhigh
  obtain ⟨j, stored, hget, hslot', hrecent, hline⟩ :=
    h _ (mem_printf_iff.mpr ⟨_, hlow, hhigh, rfl⟩)
  have hj : j < earlier.length + 1 := by
    have hlt := (List.getElem?_eq_some_iff.mp hget).1
    rwa [List.length_append, List.length_singleton] at hlt
  obtain rfl : j = earlier.length := by omega
  obtain rfl : m = stored := by simpa using hget
  rw [hstring, terminalAfter_row earlier m [] (by decide)] at hline
  exact (Message.formatString_eq_line_iff (slotBefore_length earlier)).mp hline

theorem calls_split {j : Nat} (hj : j < calls.length) :
    ∃ before stored later, calls = before ++ stored :: later ∧ before.length = j := by
  refine ⟨calls.take j, calls[j], calls.drop (j + 1), ?_, ?_⟩
  · rw [← List.drop_eq_getElem_cons hj, List.take_append_drop]
  · rw [List.length_take]
    omega

end runs

/-- Every drawn row shows its own message in every call of a run, exactly if each message whose
slot is drawn fills the row that it finds there. -/
theorem printf_showsMessages_iff (calls : List Message) :
    (∀ earlier m rest, calls = earlier ++ m :: rest → ShowsMessages earlier m) ↔
      ∀ earlier m rest, calls = earlier ++ m :: rest → Drawn earlier.length →
        m.FillsRow (slotBefore earlier) := by
  constructor
  · intro h earlier m rest hcalls hdrawn
    exact (h earlier m rest hcalls).fillsRow hdrawn
  · intro h earlier m rest hcalls row hrow
    obtain ⟨slot, hlow, hhigh, rfl⟩ := mem_printf_iff.mp hrow
    obtain ⟨hslot, hstring⟩ := printf_drawRow earlier m hlow hhigh
    -- the last call of that slot was made in the lap that is drawn
    have hj : earlier.length + 1 - (earlier.length + 1) % 40 + slot <
        (earlier ++ [m]).length := by
      rw [List.length_append, List.length_singleton]
      omega
    obtain ⟨before, stored, later, hsplit, hlength⟩ := calls_split hj
    have hlengths := congrArg List.length hsplit
    simp only [List.length_append, List.length_cons, List.length_nil] at hlengths
    have hmod : before.length % 40 = slot := by omega
    have hdrawn : Drawn before.length := by
      unfold Drawn
      unfold firstDrawn at hlow
      omega
    have hfills := h before stored (later ++ rest) (by
      rw [← List.cons_append, ← List.append_assoc, ← hsplit, List.append_assoc]
      exact hcalls) hdrawn
    have hkept := terminalAfter_row before stored later (by omega)
    rw [← hsplit, hmod] at hkept
    refine ⟨before.length, stored, ?_, ?_, by omega, ?_⟩
    · rw [hsplit]
      simp
    · rw [hslot, hmod]
    · rw [hstring, hkept]
      exact (Message.formatString_eq_line_iff (slotBefore_length _)).mpr hfills

section reuse

def longMessage : Message := ⟨['a', 'b', 'c', nul], fun _ => ⟨0, CString.empty⟩⟩

def shortMessage : Message := ⟨['d', nul], fun _ => ⟨0, CString.empty⟩⟩

theorem slotBefore_longMessages :
    ∃ rest, slotBefore (List.replicate 59 longMessage) = 'a' :: 'b' :: 'c' :: rest := by
  have hlap : (List.replicate 39 longMessage).length < 40 := by
    rw [List.length_replicate]
    decide
  have hkept := terminalAfter_row (List.replicate 19 longMessage) longMessage _ hlap
  have hsplit : List.replicate 19 longMessage ++ longMessage :: List.replicate 39 longMessage =
    List.replicate 59 longMessage := rfl
  have hhead := (terminalAfter_called (List.replicate 59 longMessage)).head
  rw [hsplit, List.length_replicate, Message.formatString_split (slotBefore_length _)
    (by decide)] at hkept
  unfold slotBefore
  rw [hhead, List.length_replicate]
  have htext : longMessage.text = ['a', 'b', 'c'] := by decide
  rw [htext] at hkept
  exact ⟨_, hkept⟩

/-- After a lap of messages the slot of a shorter one still shows their end. -/
theorem printf_showsRemains :
    ¬ ∀ earlier m rest, List.replicate 59 longMessage ++ [shortMessage] = earlier ++ m :: rest →
      ShowsMessages earlier m := by
  intro h
  have hshows := h (List.replicate 59 longMessage) shortMessage [] rfl
  have hdrawn : Drawn (List.replicate 59 longMessage).length := by
    rw [List.length_replicate]
    unfold Drawn
    decide
  have hbehind := (hshows.fillsRow hdrawn).behind
  obtain ⟨rest, hrow⟩ := slotBefore_longMessages
  have hskip : (if cString shortMessage.fom = [] then 0
    else shortMessage.memoryText.length + 1) = 2 := by decide
  rw [hrow, hskip] at hbehind
  have hremains := hbehind 'c' List.mem_cons_self
  exact absurd hremains (by decide)

end reuse

end SelfmadeOS
