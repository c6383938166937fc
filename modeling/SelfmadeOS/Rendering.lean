import SelfmadeOS.Formating
import Mathlib.Tactic.Common

/-!
# What a format stands for

The text of a format without a buffer in the way, and what `format_string` leaves of it.
-/

namespace SelfmadeOS
set_option autoImplicit false
open CStrings

def conversion (k : Char) (arg : Arg) : List Char :=
  if k = 's' then arg.string.chars
  else if k = 'c' then if arg.int ≠ 0 then [Char.ofNat (arg.word % 256)] else []
  else if k = 'u' then intToStr arg.int
  else if k = 'x' then u32ToHex (arg.word % 2 ^ 32)
  else if k = 'p' then u64ToHex (arg.word % 2 ^ 64)
  else if k = '%' then ['%']
  else []

def TakesArg (k : Char) : Prop := k ∈ ['s', 'c', 'u', 'x', 'p']

instance (k : Char) : Decidable (TakesArg k) := inferInstanceAs (Decidable (_ ∈ _))

def nextAfter (k : Char) (n : Nat) : Nat := if TakesArg k then n + 1 else n

/-- The whole text of a format in memory, with `n` the next slot of the arguments. -/
def render (args : Nat → Arg) : List Char → Nat → List Char
  | [], _ => []
  | c :: rest, n =>
    if c = nul then []
    else if c = '%' then
      match rest with
      | [] => []
      | k :: rest => conversion k (args n) ++ render args rest (nextAfter k n)
    else c :: render args rest n

/-- No `%` stands alone at the end. -/
def Complete : List Char → Prop
  | [] => True
  | c :: rest =>
    if c = '%' then
      match rest with
      | [] => False
      | _ :: rest => Complete rest
    else Complete rest

section equations
variable (args : Nat → Arg) (n : Nat)

theorem render_nul (rest : List Char) : render args (nul :: rest) n = [] := by
  rw [render.eq_def]
  exact if_pos rfl

theorem render_plain {c : Char} (hend : c ≠ nul) (hpercent : c ≠ '%') (rest : List Char) :
    render args (c :: rest) n = c :: render args rest n := by
  rw [render.eq_def]
  simp only [if_neg hend, if_neg hpercent]

theorem render_percent (k : Char) (rest : List Char) :
    render args ('%' :: k :: rest) n =
      conversion k (args n) ++ render args rest (nextAfter k n) := by
  rw [render.eq_def]
  rfl

theorem render_lone : render args ['%'] n = [] := rfl

theorem conversion_unknown {k : Char} {arg : Arg} (hk : ¬ TakesArg k) (hpercent : k ≠ '%') :
    conversion k arg = [] := by
  simp only [TakesArg, List.mem_cons, List.not_mem_nil, or_false, not_or] at hk
  obtain ⟨hs, hc, hu, hx, hp⟩ := hk
  unfold conversion
  simp only [hs, hc, hu, hx, hp, hpercent, if_false]

theorem complete_plain {c : Char} (hpercent : c ≠ '%') (rest : List Char) :
    Complete (c :: rest) ↔ Complete rest := by
  rw [Complete.eq_def]
  simp only [if_neg hpercent]

theorem complete_percent (k : Char) (rest : List Char) :
    Complete ('%' :: k :: rest) ↔ Complete rest := by
  rw [Complete.eq_def]
  rfl

theorem not_complete_lone : ¬ Complete ['%'] := id

end equations

section plain

theorem complete_of_noPercent {text : List Char} (h : '%' ∉ text) : Complete text := by
  induction text with
  | nil => trivial
  | cons c text ih =>
    obtain ⟨hc, htext⟩ := List.ne_and_not_mem_of_not_mem_cons h
    exact (complete_plain hc.symm text).mpr (ih htext)

theorem render_label (args : Nat → Arg) {label : List Char} (hpercent : '%' ∉ label)
    (hnul : nul ∉ label) (rest : List Char) (n : Nat) :
    render args (label ++ rest) n = label ++ render args rest n := by
  induction label with
  | nil => rfl
  | cons c label ih =>
    obtain ⟨hc, hlabel⟩ := List.ne_and_not_mem_of_not_mem_cons hpercent
    obtain ⟨hend, hlabel'⟩ := List.ne_and_not_mem_of_not_mem_cons hnul
    rw [List.cons_append, render_plain args n hend.symm hc.symm, ih hlabel hlabel']
    rfl

theorem complete_label {label : List Char} (hpercent : '%' ∉ label) (rest : List Char) :
    Complete (label ++ rest) ↔ Complete rest := by
  induction label with
  | nil => rfl
  | cons c label ih =>
    obtain ⟨hc, hlabel⟩ := List.ne_and_not_mem_of_not_mem_cons hpercent
    exact (complete_plain hc.symm _).trans (ih hlabel)

end plain

section digits

theorem reversedDigits_length_le (size value : Nat) :
    (reversedDigits size value).length ≤ size := by
  induction size generalizing value with
  | zero => simp [reversedDigits]
  | succ size ih =>
    unfold reversedDigits
    split
    · have hrest := ih (value / 10)
      simp only [List.length_cons]
      omega
    · simp

theorem intToStr_length_le (value : Int) : (intToStr value).length ≤ 10 := by
  unfold intToStr
  split
  · simp
  · rw [List.length_reverse]
    exact reversedDigits_length_le 10 _

theorem toHex_length (digits value : Nat) : (toHex digits value).length = digits + 2 := by
  simp [toHex]

theorem u32ToHex_length (value : Nat) : (u32ToHex value).length = 10 := toHex_length 8 value

theorem u64ToHex_length (value : Nat) : (u64ToHex value).length = 18 := toHex_length 16 value

theorem intToHexString_word (value : Nat) : intToHexString value 4 = u32ToHex value := rfl

theorem intToHexString_pointer (value : Nat) : intToHexString value 8 = u64ToHex value := rfl

end digits

/-- The output is the text, a mark behind it, and the rest as it was. -/
structure Wrote (limit : Nat) (initial : List Char) (s : Formatting) (text : List Char)
    (mark : Char) : Prop where
  room : limit < initial.length
  fits : text.length ≤ limit
  idx : s.idxOutput = text.length
  output : s.output = text ++ mark :: initial.drop (text.length + 1)

section writing
variable {limit : Nat} {initial text full : List Char} {s : Formatting} {mark : Char}

theorem Wrote.write (h : Wrote limit initial s text mark) (hlimit : s.idxOutput < limit)
    (c : Char) : ∃ mark', Wrote limit initial (s.write c) (text ++ [c]) mark' := by
  obtain ⟨hroom, hfits, hidx, hout⟩ := h
  have hlt : text.length + 1 < initial.length := by omega
  refine ⟨initial[text.length + 1], hroom, ?_, ?_, ?_⟩
  · simp only [List.length_append, List.length_singleton]
    omega
  · simp [Formatting.write, hidx]
  · unfold Formatting.write
    simp only [hout, hidx, List.length_append, List.length_singleton]
    rw [List.set_append_right _ _ (Nat.le_refl _), Nat.sub_self, List.set_cons_zero,
      List.drop_eq_getElem_cons hlt, List.append_assoc, List.singleton_append]

theorem Wrote.terminate (h : Wrote limit initial s text mark) :
    Wrote limit initial s.terminate text nul := by
  obtain ⟨hroom, hfits, hidx, hout⟩ := h
  refine ⟨hroom, hfits, hidx, ?_⟩
  unfold Formatting.terminate
  simp only [hout, hidx]
  rw [List.set_append_right _ _ (Nat.le_refl _), Nat.sub_self, List.set_cons_zero]

theorem Wrote.advance (h : Wrote limit initial s text mark) (n : Nat) :
    Wrote limit initial (s.advance n) text mark := ⟨h.room, h.fits, h.idx, h.output⟩

theorem Wrote.tookArg (h : Wrote limit initial s text mark) :
    Wrote limit initial s.tookArg text mark := ⟨h.room, h.fits, h.idx, h.output⟩

theorem Wrote.saturated (h : Wrote limit initial s (full.take limit) mark)
    (hlimit : ¬ s.idxOutput < limit) (more : List Char) :
    Wrote limit initial s ((full ++ more).take limit) mark := by
  have hidx := h.idx
  rw [List.length_take] at hidx
  have hfull : limit ≤ full.length := by omega
  rwa [List.take_append_of_le_length hfull]

theorem Wrote.full_length (h : Wrote limit initial s (full.take limit) mark)
    (hlimit : s.idxOutput < limit) : full.length < limit := by
  have hidx := h.idx
  rw [List.length_take] at hidx
  omega

theorem Wrote.writeNext (h : Wrote limit initial s (full.take limit) mark)
    (hlimit : s.idxOutput < limit) (c : Char) :
    ∃ mark', Wrote limit initial (s.write c) ((full ++ [c]).take limit) mark' := by
  have hfull := h.full_length hlimit
  obtain ⟨mark', hw⟩ := h.write hlimit c
  refine ⟨mark', ?_⟩
  rw [List.take_of_length_le (Nat.le_of_lt hfull)] at hw
  rwa [List.take_of_length_le (by simp only [List.length_append, List.length_singleton]; omega)]

theorem copyString_wrote (chars : List Char)
    (h : Wrote limit initial s (full.take limit) mark) :
    ∃ mark', Wrote limit initial (copyString limit chars s) ((full ++ chars).take limit)
      mark' := by
  induction chars generalizing s full mark with
  | nil => exact ⟨mark, by simpa [copyString] using h⟩
  | cons c rest ih =>
    unfold copyString
    by_cases hlimit : s.idxOutput < limit
    · rw [if_pos hlimit]
      obtain ⟨mark', hw⟩ := h.writeNext hlimit c
      have hrest := ih hw
      rwa [List.append_assoc, List.singleton_append] at hrest
    · rw [if_neg hlimit]
      exact ⟨mark, h.saturated hlimit _⟩

theorem copyString_length (chars : List Char) (s : Formatting) :
    (copyString limit chars s).output.length = s.output.length := by
  induction chars generalizing s with
  | nil => rfl
  | cons c rest ih =>
    unfold copyString
    split
    · rw [ih]
      exact List.length_set
    · rfl

theorem copyString_nextArg (chars : List Char) (s : Formatting) :
    (copyString limit chars s).nextArg = s.nextArg := by
  induction chars generalizing s with
  | nil => rfl
  | cons c rest ih =>
    unfold copyString
    split
    · exact ih _
    · rfl

end writing

section conversions
variable {limit : Nat} {initial full : List Char} {s : Formatting} {mark : Char}
variable (args : Nat → Arg)

theorem convert_eq_copyString (k : Char) (s : Formatting) :
    convert limit args k s =
      copyString limit (conversion k (args s.nextArg)) (if TakesArg k then s.tookArg else s) := by
  unfold convert conversion copyParam
  by_cases hs : k = 's'
  · subst hs; rfl
  by_cases hc : k = 'c'
  · subst hc
    simp only [hs, if_false, if_true, show TakesArg 'c' by decide]
    by_cases hzero : (args s.nextArg).int = 0
    · simp [hzero, copyString]
    · simp [hzero, copyString, Formatting.tookArg]
  by_cases hu : k = 'u'
  · subst hu
    simp only [hs, hc, if_false, if_true, show TakesArg 'u' by decide]
    rw [List.take_of_length_le (intToStr_length_le _)]
  by_cases hx : k = 'x'
  · subst hx
    simp only [hs, hc, hu, if_false, if_true, show TakesArg 'x' by decide, intToHexString_word]
    rw [List.take_of_length_le (Nat.le_of_eq (u32ToHex_length _))]
  by_cases hp : k = 'p'
  · subst hp
    simp only [hs, hc, hu, hx, if_false, if_true, show TakesArg 'p' by decide,
      intToHexString_pointer]
    rw [List.take_of_length_le (Nat.le_of_eq (u64ToHex_length _))]
  have hnone : ¬ TakesArg k := by simp [TakesArg, hs, hc, hu, hx, hp]
  by_cases hpercent : k = '%'
  · subst hpercent
    simp only [hs, hc, hu, hx, hp, if_false, if_true, if_neg hnone, copyString]
  · simp only [hs, hc, hu, hx, hp, hpercent, if_false, if_neg hnone, copyString]

theorem convert_wrote (k : Char) (h : Wrote limit initial s (full.take limit) mark) :
    ∃ mark', Wrote limit initial (convert limit args k s)
      ((full ++ conversion k (args s.nextArg)).take limit) mark' := by
  rw [convert_eq_copyString]
  split
  · exact copyString_wrote _ h.tookArg
  · exact copyString_wrote _ h

theorem convert_nextArg (k : Char) (s : Formatting) :
    (convert limit args k s).nextArg = nextAfter k s.nextArg := by
  rw [convert_eq_copyString, copyString_nextArg]
  unfold nextAfter Formatting.tookArg
  split <;> rfl

theorem convert_length (k : Char) (s : Formatting) :
    (convert limit args k s).output.length = s.output.length := by
  rw [convert_eq_copyString, copyString_length]
  split <;> rfl

end conversions

section loop
variable {limit : Nat} {initial full : List Char}
variable (args : Nat → Arg)

/-- The loop goes round at least once more. -/
def Enters (limit : Nat) (input : List Char) (s : Formatting) : Prop :=
  s.idxOutput < limit ∧ ∃ c rest, input = c :: rest ∧ c ≠ nul

theorem formatLoop_wrote (input : List Char) {full : List Char} {s : Formatting} {mark : Char}
    (h : Wrote limit initial s (full.take limit) mark)
    (hmark : mark = nul ∨ Enters limit input s) :
    Wrote limit initial (formatLoop limit args input s)
      ((full ++ render args input s.nextArg).take limit) nul := by
  match input with
  | [] =>
    rcases hmark with rfl | ⟨-, c, rest, hinput, -⟩
    · simpa [formatLoop, render] using h
    · cases hinput
  | c :: rest =>
    unfold formatLoop render
    by_cases hend : c = nul
    · rcases hmark with rfl | ⟨-, c', rest', hinput, hne⟩
      · simpa [hend] using h
      · cases hinput
        exact absurd hend hne
    rw [if_neg hend]
    by_cases hlimit : s.idxOutput < limit
    · rw [if_pos ⟨hend, hlimit⟩]
      by_cases hpercent : c = '%'
      · rw [if_pos hpercent, if_pos hpercent]
        match rest with
        | [] =>
          obtain ⟨mark', hw⟩ := convert_wrote args nul h
          have hnone : conversion nul (args s.nextArg) = [] := rfl
          rw [hnone] at hw
          exact (hw.advance 2).terminate
        | k :: rest =>
          obtain ⟨mark', hw⟩ := convert_wrote args k h
          have hrest := formatLoop_wrote rest (hw.advance 2).terminate (Or.inl rfl)
          rw [List.append_assoc] at hrest
          have hnext : ((convert limit args k s).advance 2).terminate.nextArg =
            nextAfter k s.nextArg := convert_nextArg args k s
          rwa [hnext] at hrest
      · rw [if_neg hpercent, if_neg hpercent]
        obtain ⟨mark', hw⟩ := h.writeNext hlimit c
        have hrest := formatLoop_wrote rest (hw.advance 1).terminate (Or.inl rfl)
        rwa [List.append_assoc, List.singleton_append] at hrest
    · rw [if_neg (fun hgo => hlimit hgo.2)]
      rcases hmark with rfl | ⟨hgo, -⟩
      · exact h.saturated hlimit _
      · exact absurd hgo hlimit

theorem formatLoop_length (input : List Char) (s : Formatting) :
    (formatLoop limit args input s).output.length = s.output.length := by
  match input with
  | [] => rfl
  | c :: rest =>
    unfold formatLoop
    split
    · split
      · match rest with
        | [] => exact List.length_set.trans (convert_length args nul s)
        | k :: rest =>
          exact (formatLoop_length rest _).trans
            (List.length_set.trans (convert_length args k s))
      · exact (formatLoop_length rest _).trans (List.length_set.trans List.length_set)
    · rfl

theorem formatLoop_idle {input : List Char} {s : Formatting} (h : ¬ Enters limit input s) :
    formatLoop limit args input s = s := by
  match input with
  | [] => rfl
  | c :: rest =>
    unfold formatLoop
    rw [if_neg]
    rintro ⟨hne, hlimit⟩
    exact h ⟨hlimit, c, rest, rfl, hne⟩

end loop

section formatted
variable {input output : List Char} {size : Nat} (args : Nat → Arg)

/-- What `format_string` leaves: the text as far as there is room, its NUL, and the rest. -/
theorem formatString_output (hsize : 1 < size) (hroom : size ≤ output.length)
    (hinput : ∃ c rest, input = c :: rest ∧ c ≠ nul) :
    ∃ text, text = (render args input 0).take (size - 1) ∧
      (formatString input output size args).output =
        text ++ nul :: output.drop (text.length + 1) := by
  have hpos : 0 < output.length := by omega
  have hstart : Wrote (size - 1) output ⟨0, 0, output, 0⟩ (List.take (size - 1) []) output[0] := by
    refine ⟨by omega, by simp, by simp, ?_⟩
    simp only [List.take_nil, List.nil_append, List.length_nil]
    exact (List.drop_zero (l := output)).symm.trans (List.drop_eq_getElem_cons hpos)
  have hend := formatLoop_wrote args input hstart (Or.inr ⟨by simp only; omega, hinput⟩)
  exact ⟨_, rfl, hend.output⟩

/-- An empty format leaves the output as it was, without a NUL of its own. -/
theorem formatString_idle (hinput : cString input = []) :
    (formatString input output size args).output = output := by
  unfold formatString
  rw [formatLoop_idle]
  rintro ⟨-, c, rest, rfl, hne⟩
  rw [cString_cons_of_ne hne] at hinput
  cases hinput

theorem formatString_length :
    (formatString input output size args).output.length = output.length :=
  formatLoop_length args input _

theorem formatString_cString (hsize : 1 < size) (hroom : size ≤ output.length)
    (hinput : ∃ c rest, input = c :: rest ∧ c ≠ nul) :
    cString (formatString input output size args).output =
      cString ((render args input 0).take (size - 1)) := by
  obtain ⟨text, rfl, hout⟩ := formatString_output args hsize hroom hinput
  rw [hout, cString_append_nul]

end formatted

section ends
variable (args : Nat → Arg)

/-- A complete format ends at its NUL. -/
theorem render_complete {format : List Char} (h : nul ∉ format) (hcomplete : Complete format)
    (beyond : List Char) (n : Nat) :
    render args (format ++ nul :: beyond) n = render args format n := by
  match format with
  | [] => exact render_nul args n beyond
  | c :: rest =>
    obtain ⟨hc, hrest⟩ := List.ne_and_not_mem_of_not_mem_cons h
    by_cases hpercent : c = '%'
    · subst hpercent
      match rest with
      | [] => exact absurd hcomplete not_complete_lone
      | k :: rest =>
        have hrest' := (List.ne_and_not_mem_of_not_mem_cons hrest).2
        have ih := render_complete hrest' ((complete_percent k rest).mp hcomplete) beyond
          (nextAfter k n)
        rw [render_percent, ← ih]
        exact render_percent args n k _
    · have ih := render_complete hrest ((complete_plain hpercent rest).mp hcomplete) beyond n
      rw [render_plain args n hc.symm hpercent, ← ih]
      exact render_plain args n hc.symm hpercent _

/-- Any other format goes on behind its NUL, which its last `%` has taken. -/
theorem render_incomplete {format : List Char} (h : nul ∉ format)
    (hcomplete : ¬ Complete format) (n : Nat) :
    ∃ m, ∀ beyond, render args (format ++ nul :: beyond) n =
      render args format n ++ render args beyond m := by
  match format with
  | [] => exact absurd trivial hcomplete
  | c :: rest =>
    obtain ⟨hc, hrest⟩ := List.ne_and_not_mem_of_not_mem_cons h
    by_cases hpercent : c = '%'
    · subst hpercent
      match rest with
      | [] => exact ⟨n, fun beyond => render_percent args n nul beyond⟩
      | k :: rest =>
        have hrest' := (List.ne_and_not_mem_of_not_mem_cons hrest).2
        obtain ⟨m, hm⟩ := render_incomplete hrest'
          (fun hc => hcomplete ((complete_percent k rest).mpr hc)) (nextAfter k n)
        refine ⟨m, fun beyond => ?_⟩
        rw [render_percent, List.append_assoc, ← hm]
        exact render_percent args n k _
    · obtain ⟨m, hm⟩ := render_incomplete hrest
        (fun hc => hcomplete ((complete_plain hpercent rest).mpr hc)) n
      refine ⟨m, fun beyond => ?_⟩
      have hplain := render_plain args n hc.symm hpercent (rest ++ nul :: beyond)
      rw [hm] at hplain
      rw [render_plain args n hc.symm hpercent]
      exact hplain

/-- Room for no more than the format's own text, or a complete format: nothing else is left. -/
theorem render_take {format : List Char} (h : nul ∉ format) {limit n : Nat}
    (hwhen : Complete format ∨ limit ≤ (render args format n).length) (beyond : List Char) :
    (render args (format ++ nul :: beyond) n).take limit =
      (render args format n).take limit := by
  by_cases hcomplete : Complete format
  · rw [render_complete args h hcomplete]
  · obtain ⟨m, hm⟩ := render_incomplete args h hcomplete n
    rw [hm, List.take_append_of_le_length (hwhen.resolve_left hcomplete)]

end ends

end SelfmadeOS
