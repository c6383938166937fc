import SelfmadeOS.KernelLogger

/-!
# When a log call returns

A call of `log` waits for two commands that are answered with `okNodata`; every other answer
adds a call of its own, with two commands more.
-/

namespace SelfmadeOS
set_option autoImplicit false

def oks (responses : Nat → Nat) (start n : Nat) : Nat :=
  (List.range' start n).countP fun i => responses i = respOkNodata

def errors (responses : Nat → Nat) (start n : Nat) : Nat :=
  (List.range' start n).countP fun i => responses i ≠ respOkNodata

section counting
variable (responses : Nat → Nat) (start n m : Nat)

theorem oks_add : oks responses start (n + m) =
    oks responses start n + oks responses (start + n) m := by
  unfold oks
  rw [← List.range'_append_1, List.countP_append]

theorem errors_add : errors responses start (n + m) =
    errors responses start n + errors responses (start + n) m := by
  unfold errors
  rw [← List.range'_append_1, List.countP_append]

variable {responses start}

theorem oks_one (h : responses start = respOkNodata) :
    oks responses start 1 = 1 ∧ errors responses start 1 = 0 := by
  simp [oks, errors, h]

theorem errors_one (h : responses start ≠ respOkNodata) :
    oks responses start 1 = 0 ∧ errors responses start 1 = 1 := by
  simp [oks, errors, h]

end counting

/-- A run has taken some answers, of which so many more are good than are not. -/
structure Took (surplus : Nat) (s s' : Logger) : Prop where
  responses : s'.responses = s.responses
  attached : s'.logTerminal.isSome = true
  count : ∃ n, s'.commands = s.commands + n ∧
    oks s.responses s.commands n = errors s.responses s.commands n + surplus

theorem Took.trans {a b : Nat} {s s₁ s₂ : Logger} (h : Took a s s₁) (h' : Took b s₁ s₂) :
    Took (a + b) s s₂ := by
  obtain ⟨n, hn, hcount⟩ := h.count
  obtain ⟨m, hm, hcount'⟩ := h'.count
  rw [h.responses, hn] at hcount'
  refine ⟨h'.responses.trans h.responses, h'.attached, n + m, by omega, ?_⟩
  rw [oks_add, errors_add]
  omega

section taking
variable {s s' : Logger}

/-- A function that logs takes two good answers more than others. -/
def TakesTwo (log : Log) : Prop :=
  ∀ fmt args s s', s.logTerminal.isSome = true → log fmt args s = some s' → Took 2 s s'

theorem command_ok (log : Log) (fmt : List Char) (args : Nat → Nat → Arg)
    (h : s.responses s.commands = respOkNodata) :
    Logger.command log fmt args s = some s.answered := if_neg (not_not.mpr h)

theorem command_error (log : Log) (fmt : List Char) (args : Nat → Nat → Arg)
    (h : s.responses s.commands ≠ respOkNodata) :
    Logger.command log fmt args s = log fmt (args (s.responses s.commands)) s.answered :=
  if_pos h

theorem command_took {log : Log} (hlog : TakesTwo log) {fmt : List Char}
    {args : Nat → Nat → Arg} (hattached : s.logTerminal.isSome = true)
    (h : Logger.command log fmt args s = some s') : Took 1 s s' := by
  by_cases hok : s.responses s.commands = respOkNodata
  · rw [command_ok log fmt args hok] at h
    obtain rfl := Option.some.inj h
    obtain ⟨hoks, herrors⟩ := oks_one hok
    exact ⟨rfl, hattached, 1, rfl, by rw [hoks, herrors]⟩
  · rw [command_error log fmt args hok] at h
    have hnested := hlog _ _ s.answered s' hattached h
    obtain ⟨n, hn, hcount⟩ := hnested.count
    obtain ⟨hoks, herrors⟩ := errors_one hok
    refine ⟨hnested.responses, hnested.attached, 1 + n, ?_, ?_⟩
    · rw [hn]
      exact Nat.add_assoc _ 1 n
    · rw [oks_add, errors_add, hoks, herrors]
      simp only [Logger.answered] at hcount
      omega

theorem terminalPrintf_took {log : Log} (hlog : TakesTwo log) {t : Terminal} {m : Message}
    (h : terminalPrintf log t m s = some s') : Took 2 s s' := by
  unfold terminalPrintf transferToHost2d resourceFlush at h
  obtain ⟨s₁, htransfer, hflush⟩ := Option.bind_eq_some_iff.mp h
  have hfirst := command_took hlog rfl htransfer
  have hboth := hfirst.trans (command_took hlog hfirst.attached hflush)
  exact ⟨hboth.responses, hboth.attached, hboth.count⟩

theorem vlog_took (depth : Nat) : TakesTwo (log depth) := by
  induction depth with
  | zero =>
    intro fmt args s s' _ h
    cases h
  | succ depth ih =>
    intro fmt args s s' hattached h
    unfold log vlog at h
    obtain ⟨s₁, hterminal, hend⟩ := Option.bind_eq_some_iff.mp h
    obtain ⟨t, ht⟩ := Option.isSome_iff_exists.mp hattached
    unfold vlogTerminal at hterminal
    simp only [ht, if_true] at hterminal
    have htook := terminalPrintf_took ih hterminal
    obtain rfl := Option.some.inj hend
    exact ⟨htook.responses, htook.attached, htook.count⟩

end taking

section depths

def Below (log log' : Log) : Prop :=
  ∀ fmt args s s', log fmt args s = some s' → log' fmt args s = some s'

variable {log₁ log₂ : Log} {s s' : Logger}

theorem Below.command (h : Below log₁ log₂) {fmt : List Char} {args : Nat → Nat → Arg}
    (hcommand : Logger.command log₁ fmt args s = some s') :
    Logger.command log₂ fmt args s = some s' := by
  by_cases hok : s.responses s.commands = respOkNodata
  · rw [command_ok _ fmt args hok] at hcommand ⊢
    exact hcommand
  · rw [command_error _ fmt args hok] at hcommand ⊢
    exact h _ _ _ _ hcommand

theorem Below.terminalPrintf (h : Below log₁ log₂) {t : Terminal} {m : Message}
    (hprintf : terminalPrintf log₁ t m s = some s') :
    SelfmadeOS.terminalPrintf log₂ t m s = some s' := by
  unfold SelfmadeOS.terminalPrintf at hprintf ⊢
  obtain ⟨s₁, htransfer, hflush⟩ := Option.bind_eq_some_iff.mp hprintf
  exact Option.bind_eq_some_iff.mpr ⟨s₁, h.command htransfer, h.command hflush⟩

theorem log_below_succ (depth : Nat) : Below (log depth) (log (depth + 1)) := by
  induction depth with
  | zero =>
    intro fmt args s s' h
    cases h
  | succ depth ih =>
    intro fmt args s s' h
    unfold log vlog at h ⊢
    obtain ⟨s₁, hterminal, hend⟩ := Option.bind_eq_some_iff.mp h
    refine Option.bind_eq_some_iff.mpr ⟨s₁, ?_, hend⟩
    unfold vlogTerminal at hterminal ⊢
    split at hterminal
    · exact ih.terminalPrintf hterminal
    · exact hterminal

theorem log_below {depth depth' : Nat} (h : depth ≤ depth') :
    Below (log depth) (log depth') := by
  induction h with
  | refl => exact fun _ _ _ _ h => h
  | step _ ih => exact fun fmt args s s' h => log_below_succ _ _ _ _ _ (ih fmt args s s' h)

end depths

section returning

/-- Wherever `n` answers hold two good ones more than others, they are enough for a call. -/
def EnoughForLog (n : Nat) : Prop :=
  ∀ (s : Logger), s.logTerminal.isSome = true →
    errors s.responses s.commands n + 2 ≤ oks s.responses s.commands n →
    ∀ fmt args, ∃ depth s', log depth fmt args s = some s' ∧ s'.commands ≤ s.commands + n

theorem command_returns {n : Nat} (henough : ∀ m < n, EnoughForLog m) {s : Logger}
    (hattached : s.logTerminal.isSome = true)
    (hcount : errors s.responses s.commands n + 1 ≤ oks s.responses s.commands n)
    (fmt : List Char) (args : Nat → Nat → Arg) :
    ∃ depth s', Logger.command (log depth) fmt args s = some s' ∧
      s'.commands ≤ s.commands + n := by
  rcases n with _ | n
  · simp [oks] at hcount
  by_cases hok : s.responses s.commands = respOkNodata
  · refine ⟨0, s.answered, command_ok _ fmt args hok, ?_⟩
    simp only [Logger.answered]
    omega
  · obtain ⟨hoks, herrors⟩ := errors_one hok
    rw [Nat.add_comm n 1, oks_add, errors_add, hoks, herrors] at hcount
    obtain ⟨depth, s', hlog, hcommands⟩ := henough n (Nat.lt_succ_self n) s.answered hattached
      (by simp only [Logger.answered]; omega) fmt (args (s.responses s.commands))
    refine ⟨depth, s', ?_, ?_⟩
    · rw [command_error _ fmt args hok]
      exact hlog
    · simp only [Logger.answered] at hcommands
      omega

theorem terminalPrintf_returns {n : Nat} (henough : ∀ m < n, EnoughForLog m) {s : Logger}
    (hcount : errors s.responses s.commands n + 2 ≤ oks s.responses s.commands n)
    (t : Terminal) (m : Message) :
    ∃ depth s', terminalPrintf (log depth) t m s = some s' ∧ s'.commands ≤ s.commands + n := by
  have hattached : ({ s with logTerminal := some (t.printf m).1 } : Logger).logTerminal.isSome =
      true := rfl
  obtain ⟨depth, s₁, htransfer, hfirst⟩ := command_returns henough hattached
    (by simp only; omega) ("Wrong return typ for transfer: %x".toList ++ [CStrings.nul])
    fun type n => wordArg (if n = 1 then type else 0)
  have htook := command_took (vlog_took depth) hattached htransfer
  -- The answers that are left hold one good one more than others.
  obtain ⟨k, hk, hsurplus⟩ := htook.count
  simp only at hk hsurplus hfirst
  obtain ⟨m', rfl⟩ := Nat.exists_eq_add_of_le (show k ≤ n by omega)
  rw [oks_add, errors_add] at hcount
  have hresponses : s₁.responses = s.responses := htook.responses
  obtain ⟨depth', s₂, hflush, hsecond⟩ := command_returns (n := m')
    (fun j hj => henough j (by omega)) htook.attached (by rw [hresponses, hk]; omega)
    ("Wrong return typ for resource flush: ".toList ++ [CStrings.nul])
    fun type n => wordArg (if n = 1 then type else 0)
  refine ⟨max depth depth', s₂, ?_, by omega⟩
  exact Option.bind_eq_some_iff.mpr ⟨s₁,
    (log_below (Nat.le_max_left depth depth')).command htransfer,
    (log_below (Nat.le_max_right depth depth')).command hflush⟩

/-- The run of the nested calls is followed by the number of answers that are left. -/
theorem enoughForLog (n : Nat) : EnoughForLog n := by
  induction n using Nat.strong_induction_on with
  | _ n ih =>
    intro s hattached hcount fmt args
    obtain ⟨t, ht⟩ := Option.isSome_iff_exists.mp hattached
    let mem := s.memory s.vlogs
    obtain ⟨depth, s₁, hprintf, hcommands⟩ := terminalPrintf_returns ih
      (s := { s with vlogs := s.vlogs + 1 }) hcount t
      (outputMessage mem (vlogOutput mem fmt args))
    refine ⟨depth + 1, vlogUart mem (vlogOutput mem fmt args) s₁, ?_, hcommands⟩
    unfold log vlog
    refine Option.bind_eq_some_iff.mpr ⟨s₁, ?_, rfl⟩
    unfold vlogTerminal
    simp only [ht, if_true]
    exact hprintf

end returning

/-- A call of `log` with a terminal returns exactly if some of the next answers, taken in
order, hold two good ones more than others. -/
theorem log_returns_iff (t : Terminal) (s : Logger) (fmt : List Char) (args : Nat → Arg) :
    (∃ depth s', log depth fmt args (initTerminal t s) = some s') ↔
      ∃ n, oks s.responses s.commands n = errors s.responses s.commands n + 2 := by
  constructor
  · rintro ⟨depth, s', h⟩
    obtain ⟨n, -, hcount⟩ := (vlog_took depth _ _ _ _ rfl h).count
    exact ⟨n, hcount⟩
  · rintro ⟨n, hcount⟩
    obtain ⟨depth, s', h, -⟩ := enoughForLog n (initTerminal t s) rfl (Nat.le_of_eq hcount.symm)
      fmt args
    exact ⟨depth, s', h⟩

/-- A device that answers every command with an error keeps the logger for good. -/
theorem log_returns_never :
    ¬ ∃ depth s', log depth ("z".toList ++ [CStrings.nul]) zeroArgs
      (initTerminal (Terminal.new Slots.blank)
        { detached (Buffer.replicate maxTextLength CStrings.nul) with
          responses := fun _ => 0x1200 }) = some s' := by
  rintro ⟨depth, s', h⟩
  obtain ⟨n, -, hcount⟩ := (vlog_took depth _ _ _ _ rfl h).count
  simp [oks, errors, initTerminal, respOkNodata] at hcount

end SelfmadeOS
