import SelfmadeOS.Rendering

/-!
# The UART (`uart.c`)

A call stands for the characters it puts into `UART0DR`. What its array holds before it is
written, and what its `va_list` finds, is whatever memory holds.
-/

namespace SelfmadeOS
set_option autoImplicit false
open CStrings

/-- An array of `size` characters, with what lies behind it. -/
structure Buffer (size : Nat) where
  chars : List Char
  room : size ≤ chars.length

def Buffer.replicate (size : Nat) (c : Char) : Buffer size :=
  ⟨List.replicate size c, Nat.le_of_eq List.length_replicate.symm⟩

structure UartMemory (stringLength : Nat) where
  outputString : Buffer stringLength
  args : Nat → Arg

def putUart (s : List Char) (newLine : Bool) : List Char :=
  cString s ++ if newLine then ['\n'] else []

def uartSend (string : List Char) (stringLength : Nat) (mem : UartMemory stringLength) :
    List Char :=
  putUart (formatString string mem.outputString.chars stringLength mem.args).output false

/-- Without a `%` a text stands for itself, up to its NUL. -/
theorem render_cString (args : Nat → Arg) (text : List Char) (n : Nat)
    (h : '%' ∉ cString text) : render args text n = cString text := by
  induction text with
  | nil => rfl
  | cons c rest ih =>
    by_cases hc : c = nul
    · subst hc
      rw [render_nul, cString_nul]
    · rw [cString_cons_of_ne hc] at h ⊢
      obtain ⟨hpercent, hrest⟩ := List.ne_and_not_mem_of_not_mem_cons h
      rw [render_plain args n hc hpercent.symm, ih hrest]

theorem cString_ne_nil {text : List Char} (h : cString text ≠ []) :
    ∃ c rest, text = c :: rest ∧ c ≠ nul := by
  match text with
  | [] => exact absurd rfl h
  | c :: rest =>
    refine ⟨c, rest, rfl, ?_⟩
    rintro rfl
    exact h (cString_nul rest)

theorem cString_take (text : List Char) (n : Nat) :
    cString ((cString text).take n) = (cString text).take n :=
  cString_of_noNul fun h => cString_noNul text (List.mem_of_mem_take h)

section sending
variable {size : Nat} (mem : UartMemory size)

theorem uartSend_eq {string : List Char} (hsize : 1 < size) (hne : cString string ≠ []) :
    uartSend string size mem = cString ((render mem.args string 0).take (size - 1)) := by
  have hread := formatString_cString mem.args hsize mem.outputString.room (cString_ne_nil hne)
  unfold uartSend putUart
  rw [hread]
  exact List.append_nil _

theorem uartSend_plain {string : List Char} (hsize : 1 < size) (hne : cString string ≠ [])
    (h : '%' ∉ cString string) :
    uartSend string size mem = (cString string).take (size - 1) := by
  rw [uartSend_eq mem hsize hne, render_cString mem.args string 0 h, cString_take]

theorem uartSend_empty {string : List Char} (h : cString string = []) :
    uartSend string size mem = cString mem.outputString.chars := by
  unfold uartSend putUart
  rw [formatString_idle mem.args h]
  exact List.append_nil _

theorem uartSend_noNul (string : List Char) : nul ∉ uartSend string size mem := by
  unfold uartSend putUart
  simp only [Bool.false_eq_true, if_false, List.append_nil]
  exact cString_noNul _

end sending

section percents

def zeroArgs : Nat → Arg := fun _ => ⟨0, CString.empty⟩

theorem zeroArgs_conversion {k : Char} (h : k ≠ '%') (n : Nat) :
    '%' ∉ conversion k (zeroArgs n) := by
  by_cases hs : k = 's'
  · subst hs
    exact List.not_mem_nil
  by_cases hc : k = 'c'
  · subst hc
    exact List.not_mem_nil
  by_cases hu : k = 'u'
  · subst hu
    show '%' ∉ intToStr 0
    decide
  by_cases hx : k = 'x'
  · subst hx
    show '%' ∉ u32ToHex 0
    decide
  by_cases hp : k = 'p'
  · subst hp
    show '%' ∉ u64ToHex 0
    decide
  simp [conversion, hs, hc, hu, hx, hp, h]

/-- Of every two `%` that a second pass reads, at most one is left. -/
theorem count_percent_render (text : List Char) (n : Nat) :
    2 * (render zeroArgs text n).count '%' ≤ text.count '%' := by
  match text with
  | [] => simp [render]
  | c :: rest =>
    by_cases hc : c = nul
    · subst hc
      simp [render_nul]
    by_cases hpercent : c = '%'
    · subst hpercent
      match rest with
      | [] => simp [render_lone]
      | k :: rest =>
        have ih := count_percent_render rest (nextAfter k n)
        rw [render_percent, List.count_append, List.count_cons_self]
        by_cases hk : k = '%'
        · subst hk
          have hone : (conversion '%' (zeroArgs n)).count '%' = 1 := rfl
          rw [hone, List.count_cons_self]
          omega
        · rw [List.count_eq_zero_of_not_mem (zeroArgs_conversion hk n), List.count_cons_of_ne hk]
          omega
    · have ih := count_percent_render rest n
      rw [render_plain zeroArgs n hc hpercent, List.count_cons_of_ne hpercent,
        List.count_cons_of_ne hpercent]
      exact ih

theorem count_percent_uartSend {size : Nat} (outputString : Buffer size) {string : List Char}
    (hsize : 1 < size) (hne : cString string ≠ []) :
    2 * (uartSend string size ⟨outputString, zeroArgs⟩).count '%' ≤ string.count '%' := by
  have hsub : (uartSend string size ⟨outputString, zeroArgs⟩).Sublist
      (render zeroArgs string 0) := by
    rw [uartSend_eq _ hsize hne]
    exact (List.takeWhile_sublist _).trans (List.take_sublist _ _)
  have hcount := hsub.count_le '%'
  have hrender := count_percent_render string 0
  omega

end percents

end SelfmadeOS
