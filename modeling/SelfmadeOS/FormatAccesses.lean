import SelfmadeOS.Rendering

/-!
# Where `format_string` reads and writes

The same branches as in `formatLoop`, once more with the indices they touch. Played back, the
accesses give the output and the number of arguments of the loop.
-/

namespace SelfmadeOS
set_option autoImplicit false
open CStrings

inductive FormatAccess where
  | input (i : Nat)
  | output (i : Nat) (c : Char)
  /-- `va_arg`, for the conversion whose letter stands at `input[i]`. -/
  | argument (i : Nat)

def copyAccesses (limit : Nat) : List Char → Nat → List FormatAccess
  | [], _ => []
  | c :: rest, i =>
    if i < limit then .output i c :: copyAccesses limit rest (i + 1) else []

/-- The branches for the letter of a conversion, which stands behind `idxInput`. -/
def convertAccesses (limit : Nat) (args : Nat → Arg) (k : Char) (s : Formatting) :
    List FormatAccess :=
  let arg := args s.nextArg
  let took := FormatAccess.argument (s.idxInput + 1)
  if k = 's' then took :: copyAccesses limit arg.string.chars s.idxOutput
  else if k = 'c' then
    if arg.int ≠ 0 ∧ s.idxOutput < limit then
      [took, .output s.idxOutput (Char.ofNat (arg.word % 256))]
    else [took]
  else if k = 'u' then took :: copyAccesses limit ((intToStr arg.int).take 10) s.idxOutput
  else if k = 'x' then
    took :: copyAccesses limit ((intToHexString (arg.word % 2 ^ 32) 4).take 10) s.idxOutput
  else if k = 'p' then
    took :: copyAccesses limit ((intToHexString (arg.word % 2 ^ 64) 8).take 18) s.idxOutput
  else if k = '%' then if s.idxOutput < limit then [.output s.idxOutput '%'] else []
  else []

/-- The loop head reads its character before it looks at the room that is left. -/
def formatAccesses (limit : Nat) (args : Nat → Arg) :
    List Char → Formatting → List FormatAccess
  | [], s => [.input s.idxInput]
  | c :: rest, s =>
    .input s.idxInput ::
      if c ≠ nul ∧ s.idxOutput < limit then
        if c = '%' then
          .input (s.idxInput + 1) ::
            match rest with
            | [] =>
              convertAccesses limit args nul s ++
                [.output (convert limit args nul s).idxOutput nul, .input (s.idxInput + 2)]
            | k :: rest =>
              convertAccesses limit args k s ++
                .output (convert limit args k s).idxOutput nul ::
                  formatAccesses limit args rest
                    ((convert limit args k s).advance 2).terminate
        else
          .output s.idxOutput c :: .output (s.idxOutput + 1) nul ::
            formatAccesses limit args rest ((s.write c).advance 1).terminate
      else []

/-- `max_output_size` is an `int`; below 2 it leaves no room. -/
def formatStringAccesses (input output : List Char) (maxOutputSize : Int)
    (args : Nat → Arg) : List FormatAccess :=
  formatAccesses (maxOutputSize - 1).toNat args input ⟨0, 0, output, 0⟩

namespace FormatAccess

def play (s : List Char × Nat) : FormatAccess → List Char × Nat
  | input _ => s
  | output i c => (s.1.set i c, s.2)
  | argument _ => (s.1, s.2 + 1)

def replay (s : List Char × Nat) (accesses : List FormatAccess) : List Char × Nat :=
  accesses.foldl play s

theorem replay_append (s : List Char × Nat) (first second : List FormatAccess) :
    replay s (first ++ second) = replay (replay s first) second := List.foldl_append

theorem replay_input (s : List Char × Nat) (i : Nat) (rest : List FormatAccess) :
    replay s (input i :: rest) = replay s rest := rfl

theorem replay_output (s : List Char × Nat) (i : Nat) (c : Char) (rest : List FormatAccess) :
    replay s (output i c :: rest) = replay (s.1.set i c, s.2) rest := rfl

/-- A write stays below the room, and its last one may be the terminator. -/
def InRoom (limit : Nat) : FormatAccess → Prop
  | output i _ => i ≤ limit
  | _ => True

/-- Nothing is read behind the index `last`, and no argument is taken for a letter there. -/
def UpTo (last : Nat) : FormatAccess → Prop
  | input i => i ≤ last
  | argument i => i < last
  | output _ _ => True

end FormatAccess

section copies
variable {limit : Nat}

theorem copyAccesses_replay (chars : List Char) (s : Formatting) :
    FormatAccess.replay (s.output, s.nextArg) (copyAccesses limit chars s.idxOutput) =
      ((copyString limit chars s).output, (copyString limit chars s).nextArg) := by
  induction chars generalizing s with
  | nil => rfl
  | cons c rest ih =>
    unfold copyAccesses copyString
    split
    · exact ih (s.write c)
    · rfl

theorem copyString_idxOutput (chars : List Char) {s : Formatting} (h : s.idxOutput ≤ limit) :
    (copyString limit chars s).idxOutput = min limit (s.idxOutput + chars.length) := by
  induction chars generalizing s with
  | nil => simp only [copyString, List.length_nil]; omega
  | cons c rest ih =>
    unfold copyString
    split
    · rw [ih (s := s.write c) ‹_›]
      simp only [Formatting.write, List.length_cons]
      omega
    · simp only [List.length_cons]
      omega

theorem copyString_idxInput (chars : List Char) (s : Formatting) :
    (copyString limit chars s).idxInput = s.idxInput := by
  induction chars generalizing s with
  | nil => rfl
  | cons c rest ih =>
    unfold copyString
    split
    · exact ih _
    · rfl

theorem copyAccesses_inRoom (chars : List Char) (i : Nat) :
    ∀ a ∈ copyAccesses limit chars i, a.InRoom limit := by
  induction chars generalizing i with
  | nil => simp [copyAccesses]
  | cons c rest ih =>
    unfold copyAccesses
    split
    · rw [List.forall_mem_cons]
      exact ⟨Nat.le_of_lt ‹_›, ih (i + 1)⟩
    · simp

theorem copyAccesses_upTo (chars : List Char) (i last : Nat) :
    ∀ a ∈ copyAccesses limit chars i, a.UpTo last := by
  induction chars generalizing i with
  | nil => simp [copyAccesses]
  | cons c rest ih =>
    unfold copyAccesses
    split
    · rw [List.forall_mem_cons]
      exact ⟨trivial, ih (i + 1)⟩
    · simp

end copies

section conversions
variable {limit : Nat} (args : Nat → Arg)

theorem convertAccesses_eq (k : Char) (s : Formatting) :
    convertAccesses limit args k s =
      (if TakesArg k then [FormatAccess.argument (s.idxInput + 1)] else []) ++
        copyAccesses limit (conversion k (args s.nextArg)) s.idxOutput := by
  unfold convertAccesses
  by_cases hk : TakesArg k
  · rw [if_pos hk]
    have hcases := hk
    simp only [TakesArg, List.mem_cons, List.not_mem_nil, or_false] at hcases
    rcases hcases with rfl | rfl | rfl | rfl | rfl
    · rfl
    · unfold conversion
      by_cases hzero : (args s.nextArg).int = 0
      · simp [hzero, copyAccesses]
      · by_cases hroom : s.idxOutput < limit <;> simp [hzero, hroom, copyAccesses]
    · have htake := List.take_of_length_le (intToStr_length_le (args s.nextArg).int)
      simp only [htake]
      rfl
    · have htake := List.take_of_length_le
        (Nat.le_of_eq (u32ToHex_length ((args s.nextArg).word % 2 ^ 32)))
      simp only [intToHexString_word, htake]
      rfl
    · have htake := List.take_of_length_le
        (Nat.le_of_eq (u64ToHex_length ((args s.nextArg).word % 2 ^ 64)))
      simp only [intToHexString_pointer, htake]
      rfl
  · rw [if_neg hk, List.nil_append]
    have hcases := hk
    simp only [TakesArg, List.mem_cons, List.not_mem_nil, or_false, not_or] at hcases
    obtain ⟨hs, hc, hu, hx, hp⟩ := hcases
    simp only [hs, hc, hu, hx, hp, if_false]
    by_cases hpercent : k = '%'
    · subst hpercent
      rfl
    · rw [if_neg hpercent, conversion_unknown hk hpercent]
      rfl

theorem convertAccesses_replay (k : Char) (s : Formatting) :
    FormatAccess.replay (s.output, s.nextArg) (convertAccesses limit args k s) =
      ((convert limit args k s).output, (convert limit args k s).nextArg) := by
  rw [convertAccesses_eq, convert_eq_copyString]
  split
  · exact copyAccesses_replay _ s.tookArg
  · exact copyAccesses_replay _ s

theorem convert_idxOutput (k : Char) {s : Formatting} (h : s.idxOutput ≤ limit) :
    (convert limit args k s).idxOutput =
      min limit (s.idxOutput + (conversion k (args s.nextArg)).length) := by
  rw [convert_eq_copyString]
  split
  · exact copyString_idxOutput _ (s := s.tookArg) h
  · exact copyString_idxOutput _ h

theorem convert_idxInput (k : Char) (s : Formatting) :
    (convert limit args k s).idxInput = s.idxInput := by
  rw [convert_eq_copyString, copyString_idxInput]
  split <;> rfl

theorem convertAccesses_inRoom (k : Char) (s : Formatting) :
    ∀ a ∈ convertAccesses limit args k s, a.InRoom limit := by
  rw [convertAccesses_eq, List.forall_mem_append]
  refine ⟨?_, copyAccesses_inRoom _ _⟩
  split <;> simp [FormatAccess.InRoom]

theorem convertAccesses_upTo (k : Char) {s : Formatting} {last : Nat}
    (h : TakesArg k → s.idxInput + 1 < last) :
    ∀ a ∈ convertAccesses limit args k s, a.UpTo last := by
  rw [convertAccesses_eq, List.forall_mem_append]
  refine ⟨?_, copyAccesses_upTo _ _ _⟩
  split
  · simpa [FormatAccess.UpTo] using h ‹_›
  · simp

end conversions

section loop
variable {limit : Nat} (args : Nat → Arg)

theorem formatAccesses_stop {c : Char} {s : Formatting} (h : ¬ (c ≠ nul ∧ s.idxOutput < limit))
    (rest : List Char) : formatAccesses limit args (c :: rest) s = [.input s.idxInput] := by
  rw [formatAccesses.eq_def]
  simp only [if_neg h]

theorem formatAccesses_plain {c : Char} {s : Formatting} (hgo : c ≠ nul ∧ s.idxOutput < limit)
    (hpercent : c ≠ '%') (rest : List Char) :
    formatAccesses limit args (c :: rest) s =
      .input s.idxInput :: .output s.idxOutput c :: .output (s.idxOutput + 1) nul ::
        formatAccesses limit args rest ((s.write c).advance 1).terminate := by
  rw [formatAccesses.eq_def]
  simp only [if_pos hgo, if_neg hpercent]

theorem formatAccesses_percent {s : Formatting} (hgo : s.idxOutput < limit) (k : Char)
    (rest : List Char) :
    formatAccesses limit args ('%' :: k :: rest) s =
      .input s.idxInput :: .input (s.idxInput + 1) :: (convertAccesses limit args k s ++
        .output (convert limit args k s).idxOutput nul ::
          formatAccesses limit args rest ((convert limit args k s).advance 2).terminate) := by
  have hpercent : '%' ≠ nul := by decide
  rw [formatAccesses.eq_def]
  simp only [if_pos (And.intro hpercent hgo), if_true]

theorem formatAccesses_lone {s : Formatting} (hgo : s.idxOutput < limit) :
    formatAccesses limit args ['%'] s =
      .input s.idxInput :: .input (s.idxInput + 1) :: (convertAccesses limit args nul s ++
        [.output (convert limit args nul s).idxOutput nul, .input (s.idxInput + 2)]) := by
  have hpercent : '%' ≠ nul := by decide
  rw [formatAccesses.eq_def]
  simp only [if_pos (And.intro hpercent hgo), if_true]

theorem formatLoop_plain {c : Char} {s : Formatting} (hgo : c ≠ nul ∧ s.idxOutput < limit)
    (hpercent : c ≠ '%') (rest : List Char) :
    formatLoop limit args (c :: rest) s =
      formatLoop limit args rest ((s.write c).advance 1).terminate := by
  rw [formatLoop.eq_def]
  simp only [if_pos hgo, if_neg hpercent]

theorem formatLoop_percent {s : Formatting} (hgo : s.idxOutput < limit) (k : Char)
    (rest : List Char) :
    formatLoop limit args ('%' :: k :: rest) s =
      formatLoop limit args rest ((convert limit args k s).advance 2).terminate := by
  have hpercent : '%' ≠ nul := by decide
  rw [formatLoop.eq_def]
  simp only [if_pos (And.intro hpercent hgo), if_true]

theorem formatLoop_stop {c : Char} {s : Formatting} (h : ¬ (c ≠ nul ∧ s.idxOutput < limit))
    (rest : List Char) : formatLoop limit args (c :: rest) s = s := by
  rw [formatLoop.eq_def]
  simp only [if_neg h]

/-- The accesses do to the memory what the loop does. -/
theorem formatLoop_replay (input : List Char) (s : Formatting) :
    FormatAccess.replay (s.output, s.nextArg) (formatAccesses limit args input s) =
      ((formatLoop limit args input s).output, (formatLoop limit args input s).nextArg) := by
  match input with
  | [] => rfl
  | c :: rest =>
    by_cases hgo : c ≠ nul ∧ s.idxOutput < limit
    · by_cases hpercent : c = '%'
      · subst hpercent
        match rest with
        | [] =>
          rw [formatAccesses_lone args hgo.2, FormatAccess.replay_input,
            FormatAccess.replay_input, FormatAccess.replay_append, convertAccesses_replay,
            formatLoop.eq_def]
          simp only [if_pos hgo, if_true]
          rfl
        | k :: rest =>
          have ih := formatLoop_replay rest ((convert limit args k s).advance 2).terminate
          rw [formatAccesses_percent args hgo.2, formatLoop_percent args hgo.2, ← ih,
            FormatAccess.replay_input, FormatAccess.replay_input, FormatAccess.replay_append,
            convertAccesses_replay]
          rfl
      · have ih := formatLoop_replay rest ((s.write c).advance 1).terminate
        rw [formatAccesses_plain args hgo hpercent, formatLoop_plain args hgo hpercent, ← ih]
        rfl
    · rw [formatAccesses_stop args hgo, formatLoop_stop args hgo]
      rfl

theorem formatAccesses_inRoom (input : List Char) {s : Formatting} (h : s.idxOutput ≤ limit) :
    ∀ a ∈ formatAccesses limit args input s, a.InRoom limit := by
  match input with
  | [] => simp [formatAccesses, FormatAccess.InRoom]
  | c :: rest =>
    by_cases hgo : c ≠ nul ∧ s.idxOutput < limit
    · by_cases hpercent : c = '%'
      · subst hpercent
        have hidx (k : Char) : (convert limit args k s).idxOutput ≤ limit := by
          rw [convert_idxOutput args k h]
          exact Nat.min_le_left _ _
        match rest with
        | [] =>
          rw [formatAccesses_lone args hgo.2]
          simp only [List.forall_mem_cons, List.forall_mem_append]
          exact ⟨trivial, trivial, convertAccesses_inRoom args nul s, hidx nul, trivial,
            List.forall_mem_nil _⟩
        | k :: rest =>
          have ih := formatAccesses_inRoom rest
            (s := ((convert limit args k s).advance 2).terminate) (hidx k)
          rw [formatAccesses_percent args hgo.2]
          simp only [List.forall_mem_cons, List.forall_mem_append]
          exact ⟨trivial, trivial, convertAccesses_inRoom args k s, hidx k, ih⟩
      · have ih := formatAccesses_inRoom rest (s := ((s.write c).advance 1).terminate) hgo.2
        rw [formatAccesses_plain args hgo hpercent]
        simp only [List.forall_mem_cons]
        exact ⟨trivial, Nat.le_of_lt hgo.2, hgo.2, ih⟩
    · rw [formatAccesses_stop args hgo]
      simp [FormatAccess.InRoom]

theorem input_mem_formatAccesses (input : List Char) (s : Formatting) :
    FormatAccess.input s.idxInput ∈ formatAccesses limit args input s := by
  cases input with
  | nil => exact List.mem_cons_self
  | cons c rest =>
    rw [formatAccesses.eq_def]
    exact List.mem_cons_self

theorem upTo_plain {c : Char} {s : Formatting} {last : Nat} {rest : List Char}
    (hgo : c ≠ nul ∧ s.idxOutput < limit) (hpercent : c ≠ '%') (hhead : s.idxInput ≤ last) :
    (∀ a ∈ formatAccesses limit args (c :: rest) s, a.UpTo last) ↔
      ∀ a ∈ formatAccesses limit args rest ((s.write c).advance 1).terminate, a.UpTo last := by
  rw [formatAccesses_plain args hgo hpercent]
  simp only [List.forall_mem_cons]
  constructor
  · rintro ⟨-, -, -, hall⟩
    exact hall
  · intro hall
    exact ⟨hhead, trivial, trivial, hall⟩

theorem upTo_percent {k : Char} {s : Formatting} {last : Nat} {rest : List Char}
    (hgo : s.idxOutput < limit) (hletter : s.idxInput + 1 ≤ last)
    (htakes : TakesArg k → s.idxInput + 1 < last) :
    (∀ a ∈ formatAccesses limit args ('%' :: k :: rest) s, a.UpTo last) ↔
      ∀ a ∈ formatAccesses limit args rest ((convert limit args k s).advance 2).terminate,
        a.UpTo last := by
  rw [formatAccesses_percent args hgo]
  simp only [List.forall_mem_cons, List.forall_mem_append]
  constructor
  · rintro ⟨-, -, -, -, hall⟩
    exact hall
  · intro hall
    have hconvert : ∀ a ∈ convertAccesses limit args k s, a.UpTo last :=
      convertAccesses_upTo args k htakes
    exact ⟨Nat.le_of_succ_le hletter, hletter, hconvert, trivial, hall⟩

/-- The loop passes the NUL behind a `%` that stands alone, if it gets there. -/
theorem formatAccesses_upTo_iff {format : List Char} (h : nul ∉ format) (beyond : List Char)
    {s : Formatting} (hidx : s.idxOutput ≤ limit) :
    (∀ a ∈ formatAccesses limit args (format ++ nul :: beyond) s,
      a.UpTo (s.idxInput + format.length)) ↔
      Complete format ∨ limit ≤ s.idxOutput + (render args format s.nextArg).length := by
  match format with
  | [] =>
    refine iff_of_true ?_ (Or.inl trivial)
    rw [List.nil_append, formatAccesses_stop args (fun hgo => hgo.1 rfl)]
    simp [FormatAccess.UpTo]
  | c :: rest =>
    obtain ⟨hc, hrest⟩ := List.ne_and_not_mem_of_not_mem_cons h
    rw [List.cons_append]
    by_cases hroom : s.idxOutput < limit
    · by_cases hpercent : c = '%'
      · subst hpercent
        match rest with
        | [] =>
          refine iff_of_false ?_ ?_
          · intro hall
            have hnone : ¬ TakesArg nul := by decide
            rw [List.nil_append, List.length_singleton, upTo_percent args hroom (Nat.le_refl _)
              (fun htakes => absurd htakes hnone)] at hall
            have hread := hall _ (input_mem_formatAccesses args beyond _)
            have hin : (convert limit args nul s).idxInput = s.idxInput :=
              convert_idxInput args nul s
            simp only [FormatAccess.UpTo, Formatting.advance, Formatting.terminate, hin] at hread
            omega
          · rw [render_lone]
            simp only [not_complete_lone, List.length_nil, false_or]
            omega
        | k :: rest =>
          have hrest' := (List.ne_and_not_mem_of_not_mem_cons hrest).2
          have hout := convert_idxOutput args k hidx
          have hin : (convert limit args k s).idxInput = s.idxInput := convert_idxInput args k s
          have hnext : (convert limit args k s).nextArg = nextAfter k s.nextArg :=
            convert_nextArg args k s
          have ih := formatAccesses_upTo_iff hrest' beyond
            (s := ((convert limit args k s).advance 2).terminate) (by
              simp only [Formatting.advance, Formatting.terminate]
              omega)
          rw [List.cons_append, upTo_percent args hroom
            (by simp only [List.length_cons]; omega) (by simp only [List.length_cons]; omega),
            complete_percent, render_percent, List.length_append, ← Nat.add_assoc]
          simp only [Formatting.advance, Formatting.terminate, hout, hin, hnext,
            List.length_cons, Nat.add_assoc, Nat.add_comm 2] at ih ⊢
          rw [ih]
          apply or_congr_right
          omega
      · have ih := formatAccesses_upTo_iff hrest beyond
          (s := ((s.write c).advance 1).terminate) hroom
        rw [upTo_plain args ⟨hc.symm, hroom⟩ hpercent (Nat.le_add_right _ _),
          complete_plain hpercent, render_plain args s.nextArg hc.symm hpercent]
        simp only [Formatting.terminate, Formatting.advance, Formatting.write, List.length_cons,
          Nat.add_assoc, Nat.add_comm 1] at ih ⊢
        exact ih
    · refine iff_of_true ?_ (Or.inr (by omega))
      rw [formatAccesses_stop args (fun hgo => hroom hgo.2)]
      simp [FormatAccess.UpTo]

end loop

section formatted
variable {output : List Char} {args : Nat → Arg}

/-- Nothing behind the NUL is read, exactly when the format is complete or its text fills the
room. -/
theorem formatString_upTo_iff (format : CString) (beyond : List Char) (maxOutputSize : Int) :
    (∀ a ∈ formatStringAccesses (format.chars ++ nul :: beyond) output maxOutputSize args,
      a.UpTo format.chars.length) ↔
      Complete format.chars ∨ maxOutputSize - 1 ≤ (render args format.chars 0).length := by
  have hloop := formatAccesses_upTo_iff args format.noNul beyond (s := ⟨0, 0, output, 0⟩)
    (Nat.zero_le (maxOutputSize - 1).toNat)
  simp only [Nat.zero_add] at hloop
  unfold formatStringAccesses
  rw [hloop]
  apply or_congr_right
  omega

/-- A percentage that is given as a format: `50%`, and the text behind it in memory. -/
theorem formatString_readsOn :
    ¬ ∀ a ∈ formatStringAccesses (['5', '0', '%'] ++ nul :: ['x', nul]) (List.replicate 80 'z')
      80 (fun _ => ⟨0, CString.empty⟩), a.UpTo 3 := by
  intro hall
  have hread : FormatAccess.input 5 ∈ formatStringAccesses
      (['5', '0', '%'] ++ nul :: ['x', nul]) (List.replicate 80 'z') 80
      (fun _ => ⟨0, CString.empty⟩) := by
    simp [formatStringAccesses, formatAccesses, convertAccesses, convert, nul,
      Formatting.write, Formatting.advance, Formatting.terminate]
  have hlast := hall _ hread
  simp [FormatAccess.UpTo] at hlast

/-- Whatever lies behind the format, the writes stay in the buffer and leave the characters of
the format there, with a NUL behind them. -/
def Terminated (format : CString) (output : List Char) (size : Nat) (args : Nat → Arg) : Prop :=
  ∀ beyond, (∀ a ∈ formatStringAccesses (format.chars ++ nul :: beyond) output size args,
      a.InRoom (size - 1)) ∧
    ∃ k, k ≤ size - 1 ∧
      (formatString (format.chars ++ nul :: beyond) output size args).output[k]? = some nul ∧
      (formatString (format.chars ++ nul :: beyond) output size args).output.take k =
        (render args format.chars 0).take (size - 1)

def Runs (format : CString) (size : Nat) : Prop := format.chars ≠ [] ∧ 2 ≤ size

section terminated
variable {format : CString} {output beyond : List Char} {size : Nat} {args : Nat → Arg}

theorem formatString_still (h : ¬ Runs format size) (beyond : List Char) :
    (formatString (format.chars ++ nul :: beyond) output size args).output = output := by
  unfold formatString
  rw [formatLoop_idle]
  rintro ⟨hroom, c, rest, hinput, hne⟩
  refine h ⟨?_, by simp only at hroom; omega⟩
  intro hempty
  rw [hempty] at hinput
  exact hne (List.cons.inj hinput).1.symm

theorem ownText_still (h : ¬ Runs format size) :
    (render args format.chars 0).take (size - 1) = [] := by
  by_cases hempty : format.chars = []
  · rw [hempty, render, List.take_nil]
  · have hsmall : size - 1 = 0 := by
      have hsize : ¬ 2 ≤ size := fun hsize => h ⟨hempty, hsize⟩
      omega
    rw [hsmall, List.take_zero]

theorem formatString_runs (args : Nat → Arg) (h : Runs format size)
    (hroom : size ≤ output.length) (beyond : List Char) :
    ∃ text, text = (render args (format.chars ++ nul :: beyond) 0).take (size - 1) ∧
      (formatString (format.chars ++ nul :: beyond) output size args).output =
        text ++ nul :: output.drop (text.length + 1) := by
  exact formatString_output args h.2 hroom (CString.starts h.1 beyond)

theorem formatString_inRoom (input : List Char) :
    ∀ a ∈ formatStringAccesses input output size args, a.InRoom (size - 1) := by
  have hlimit : ((size : Int) - 1).toNat = size - 1 := by omega
  unfold formatStringAccesses
  rw [hlimit]
  exact formatAccesses_inRoom args input (Nat.zero_le _)

end terminated

/-- The buffer ends in a NUL of the call, or was empty before. -/
theorem formatString_terminated_iff (format : CString) {output : List Char} {size : Nat}
    (args : Nat → Arg) (hsize : 1 ≤ size) (hroom : size ≤ output.length) :
    Terminated format output size args ↔
      (Runs format size ∨ output[0]? = some nul) ∧
        (Complete format.chars ∨ size - 1 ≤ (render args format.chars 0).length) := by
  constructor
  · intro h
    refine ⟨?_, ?_⟩
    · by_cases hruns : Runs format size
      · exact Or.inl hruns
      · obtain ⟨-, k, hk, hmark, htext⟩ := h []
        rw [formatString_still hruns] at hmark htext
        rw [ownText_still hruns] at htext
        have hzero : k = 0 := by
          have hlength := congrArg List.length htext
          simp only [List.length_take, List.length_nil] at hlength
          omega
        exact Or.inr (hzero ▸ hmark)
    · by_contra hnone
      obtain ⟨hcomplete, hshort⟩ := not_or.mp hnone
      have hruns : Runs format size := by
        refine ⟨fun hempty => hcomplete ?_, by omega⟩
        rw [hempty]
        trivial
      obtain ⟨m, hm⟩ := render_incomplete args format.noNul hcomplete 0
      obtain ⟨-, k, hk, hmark, htext⟩ := h ['z']
      obtain ⟨text, heq, hout⟩ := formatString_runs args hruns hroom ['z']
      have hbehind : render args ['z'] m = ['z'] :=
        render_plain args m (by decide) (by decide) []
      have hown : text = render args format.chars 0 ++ ['z'] := by
        rw [heq, hm, hbehind]
        apply List.take_of_length_le
        rw [List.length_append, List.length_singleton]
        omega
      have hfits : (render args format.chars 0).length ≤ size - 1 := by omega
      rw [List.take_of_length_le hfits] at htext
      have hk' : k = (render args format.chars 0).length := by
        have hlength := congrArg List.length htext
        rw [List.length_take, formatString_length] at hlength
        omega
      rw [hout, hown, hk', List.append_assoc, List.getElem?_append_right (Nat.le_refl _),
        Nat.sub_self] at hmark
      exact absurd (Option.some.inj hmark) (by decide)
  · rintro ⟨hstart, hwhen⟩ beyond
    refine ⟨formatString_inRoom _, ?_⟩
    by_cases hruns : Runs format size
    · obtain ⟨text, heq, hout⟩ := formatString_runs args hruns hroom beyond
      rw [render_take args format.noNul hwhen] at heq
      refine ⟨text.length, ?_, ?_, ?_⟩
      · rw [heq, List.length_take]
        omega
      · rw [hout]
        simp
      · rw [hout, heq]
        simp
    · rw [formatString_still hruns, ownText_still hruns]
      exact ⟨0, Nat.zero_le _, hstart.resolve_left hruns, rfl⟩

theorem formatString_terminated_letter :
    Terminated ⟨['a'], by decide⟩ ['z', 'z'] 2 fun _ => ⟨0, CString.empty⟩ := by
  have hruns : Runs ⟨['a'], by decide⟩ 2 := ⟨List.cons_ne_nil _ _, Nat.le_refl _⟩
  exact (formatString_terminated_iff _ _ (by omega) (by simp)).mpr
    ⟨Or.inl hruns, Or.inl trivial⟩

/-- An empty format leaves what the buffer held. -/
theorem formatString_unterminated :
    ¬ Terminated CString.empty ['z', 'z'] 2 fun _ => ⟨0, CString.empty⟩ := by
  intro h
  obtain ⟨-, k, hk, hmark, htext⟩ := h []
  obtain rfl | rfl : k = 0 ∨ k = 1 := by omega
  · cases hmark
  · cases hmark

end formatted

end SelfmadeOS
