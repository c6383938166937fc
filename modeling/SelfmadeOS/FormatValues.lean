import SelfmadeOS.Numerals
import SelfmadeOS.Rendering

/-!
# Formats and their values

A format in pieces, the values that are passed for its conversions, and the text that it has
with them. `format_string` leaves the beginning of that text.
-/

namespace SelfmadeOS
set_option autoImplicit false
open CStrings

/-- What a caller passes for a conversion. -/
inductive Value where
  | string (s : CString)
  | char (code : Fin 256)
  | number (n : Fin (2 ^ 31))
  | word (w : Fin (2 ^ 32))
  | pointer (p : Fin (2 ^ 64))

namespace Value

def letter : Value → Char
  | string _ => 's'
  | char _ => 'c'
  | number _ => 'u'
  | word _ => 'x'
  | pointer _ => 'p'

def text : Value → List Char
  | string s => s.chars
  | char code => if code.val = 0 then [] else [Char.ofNat code.val]
  | number n => Nat.toDigits 10 n.val
  | word w => '0' :: 'x' :: Numerals.padded 16 8 w.val
  | pointer p => '0' :: 'x' :: Numerals.padded 16 16 p.val

/-- A value in its slot; a character is passed as an `int` that is cut to it. -/
def PassedIn (arg : Arg) : Value → Prop
  | string s => arg.string = s
  | char code => arg.int % 256 = code.val ∧ (code.val = 0 → arg.int = 0)
  | number n => arg.int = n.val
  | word w => arg.word % 2 ^ 32 = w.val
  | pointer p => arg.word % 2 ^ 64 = p.val

end Value

inductive Piece where
  | literal (c : Char)
  | conversion (k : Char)
  | percent
  | unknown (k : Char)

namespace Piece

/-- The piece that a `%` and the character behind it make. -/
def ofLetter (k : Char) : Piece :=
  if TakesArg k then conversion k else if k = '%' then percent else unknown k

def letter : Piece → Option Char
  | conversion k => some k
  | _ => none

/-- The pieces of a format, from left to right. -/
def ofFormat : List Char → List Piece
  | [] => []
  | c :: rest =>
    if c = '%' then
      match rest with
      | [] => []
      | k :: rest => ofLetter k :: ofFormat rest
    else literal c :: ofFormat rest

def fullRendering : List Piece → List Value → List Char
  | [], _ => []
  | literal c :: rest, values => c :: fullRendering rest values
  | percent :: rest, values => '%' :: fullRendering rest values
  | unknown _ :: rest, values => fullRendering rest values
  | conversion _ :: rest, [] => fullRendering rest []
  | conversion _ :: rest, value :: values => value.text ++ fullRendering rest values

def Match (pieces : List Piece) (values : List Value) : Prop :=
  pieces.filterMap letter = values.map Value.letter

end Piece

def PassedFrom (args : Nat → Arg) (n : Nat) (values : List Value) : Prop :=
  ∀ (i : Nat) (value : Value), values[i]? = some value → value.PassedIn (args (n + i))

section numerals

theorem reversedDigits_reverse {size value : Nat} (hpos : 0 < value) (h : value < 10 ^ size) :
    (reversedDigits size value).reverse = Nat.toDigits 10 value := by
  induction size generalizing value with
  | zero => simp only [Nat.pow_zero] at h; omega
  | succ size ih =>
    have hdigit : ∀ d, d < 10 → Char.ofNat (48 + d) = Nat.digitChar d := by decide
    unfold reversedDigits
    rw [if_pos hpos, List.reverse_cons, hdigit _ (Nat.mod_lt _ (by omega)),
      Nat.toDigits_eq_if (by omega : 1 < 10)]
    split
    · have hzero : value / 10 = 0 := by omega
      have hnone : reversedDigits size 0 = [] := by cases size <;> rfl
      rw [hzero, hnone, Nat.mod_eq_of_lt ‹_›]
      rfl
    · rw [ih (by omega) (by rw [Nat.pow_succ] at h; omega)]

theorem intToStr_toDigits {value : Nat} (h : value < 2 ^ 31) :
    intToStr (value : Int) = Nat.toDigits 10 value := by
  unfold intToStr
  by_cases hzero : value = 0
  · subst hzero
    rfl
  · rw [if_neg (by omega), Int.toNat_natCast]
    exact reversedDigits_reverse (by omega) (Nat.lt_trans h (by decide))

theorem hex_getD {d : Nat} (h : d < 16) : hex.getD d nul = Nat.digitChar d := by
  have hall : ∀ d : Fin 16, hex.getD d.val nul = Nat.digitChar d.val := by decide
  exact hall ⟨d, h⟩

/-- The digits of a number, from the left, each shifted down to its own place. -/
theorem hexDigits_padded {digits value : Nat} (hdigits : 0 < digits)
    (h : value < 16 ^ digits) :
    ((List.range digits).map fun i => hex.getD (value >>> (4 * (digits - 1 - i)) &&& 0xF) nul) =
      Numerals.padded 16 digits value := by
  have hmask : ∀ v : Nat, v &&& 0xF = v % 16 := fun v => Nat.and_two_pow_sub_one_eq_mod v 4
  induction digits generalizing value with
  | zero => omega
  | succ digits ih =>
    rw [List.range_succ, List.map_append, List.map_singleton]
    have hlast : value >>> (4 * (digits + 1 - 1 - digits)) = value := by simp
    rw [hlast, hmask, hex_getD (Nat.mod_lt _ (by omega))]
    rcases Nat.eq_zero_or_pos digits with rfl | hpos
    · have hlt : value < 16 := by simpa using h
      rw [Numerals.padded_one hlt, Nat.mod_eq_of_lt hlt]
      rfl
    · rw [Numerals.padded_succ (by omega) hpos, ← ih hpos (by rw [Nat.pow_succ] at h; omega)]
      congr 1
      apply List.map_congr_left
      intro i hi
      have hlt := List.mem_range.mp hi
      have hshift : 4 * (digits + 1 - 1 - i) = 4 + 4 * (digits - 1 - i) := by omega
      rw [hshift, Nat.shiftRight_add, Nat.shiftRight_eq_div_pow value 4]

theorem toHex_padded {digits value : Nat} (hdigits : 0 < digits) (h : value < 16 ^ digits) :
    toHex digits value = '0' :: 'x' :: Numerals.padded 16 digits value := by
  unfold toHex
  rw [hexDigits_padded hdigits h]

end numerals

section values
variable {args : Nat → Arg} {n : Nat} {value : Value} {values : List Value}

theorem PassedFrom.head (h : PassedFrom args n (value :: values)) :
    value.PassedIn (args n) := by
  have hfirst := h 0 value rfl
  rwa [Nat.add_zero] at hfirst

theorem PassedFrom.tail (h : PassedFrom args n (value :: values)) :
    PassedFrom args (n + 1) values := by
  intro i v hi
  have hnext := h (i + 1) v hi
  rwa [show n + (i + 1) = n + 1 + i by omega] at hnext

theorem Value.conversion_eq_text {arg : Arg} (h : value.PassedIn arg) :
    conversion value.letter arg = value.text := by
  cases value with
  | string s => exact congrArg CString.chars h
  | char code =>
    obtain ⟨hcode, hzero⟩ := h
    have hne : arg.int = 0 ↔ code.val = 0 := ⟨fun heq => by rw [heq] at hcode; omega, hzero⟩
    have hbyte : arg.word % 256 = code.val := by
      unfold Arg.int at hcode
      simp only at hcode
      split at hcode <;> omega
    unfold conversion text letter
    simp only [Char.reduceEq, if_false, if_true, ne_eq, hne, hbyte, ite_not]
  | number k =>
    have hint : conversion 'u' arg = intToStr arg.int := rfl
    exact hint.trans ((congrArg intToStr h).trans (intToStr_toDigits k.isLt))
  | word w =>
    have hhex : conversion 'x' arg = u32ToHex (arg.word % 2 ^ 32) := rfl
    refine hhex.trans ((congrArg u32ToHex h).trans (toHex_padded (by decide) ?_))
    exact Nat.lt_of_lt_of_eq w.isLt (by decide)
  | pointer p =>
    have hhex : conversion 'p' arg = u64ToHex (arg.word % 2 ^ 64) := rfl
    refine hhex.trans ((congrArg u64ToHex h).trans (toHex_padded (by decide) ?_))
    exact Nat.lt_of_lt_of_eq p.isLt (by decide)

theorem byteChar_ne_nul {code : Nat} (hzero : code ≠ 0) (h : code < 256) :
    Char.ofNat code ≠ nul := by
  have hvalid : code.isValidChar := Or.inl (by omega)
  have hcode : (Char.ofNat code).toNat = code := by
    unfold Char.ofNat
    rw [dif_pos hvalid]
    rfl
  intro heq
  rw [heq] at hcode
  exact hzero hcode.symm

theorem digitChar_ne_nul {d : Nat} (h : d < 16) : Nat.digitChar d ≠ nul := by
  have hall : ∀ d : Fin 16, Nat.digitChar d.val ≠ nul := by decide
  exact hall ⟨d, h⟩

theorem toDigits_noNul {base : Nat} (hlow : 1 < base) (hhigh : base ≤ 16) (k : Nat) :
    nul ∉ Nat.toDigits base k := by
  intro hmem
  obtain ⟨d, hd, heq⟩ := Numerals.exists_digit_of_mem hlow k hmem
  exact digitChar_ne_nul (by omega) heq.symm

theorem hexNumeral_noNul (width k : Nat) :
    nul ∉ '0' :: 'x' :: Numerals.padded 16 width k := by
  unfold Numerals.padded List.leftpad
  have hdigits := toDigits_noNul (by omega : 1 < 16) (Nat.le_refl 16) k
  have hzero : nul ≠ '0' := by decide
  have hx : nul ≠ 'x' := by decide
  simp [hdigits, hzero, hx, List.mem_replicate]

theorem Value.text_noNul (value : Value) : nul ∉ value.text := by
  cases value with
  | string s => exact s.noNul
  | char code =>
    by_cases hzero : code.val = 0
    · simp [text, hzero]
    · have hbyte := byteChar_ne_nul hzero code.isLt
      simp [text, hzero, hbyte.symm]
  | number k => exact toDigits_noNul (by omega) (by omega) k.val
  | word w => exact hexNumeral_noNul 8 w.val
  | pointer p => exact hexNumeral_noNul 16 p.val

end values

section formats
variable {args : Nat → Arg}

theorem Piece.match_ofLetter {k : Char} {rest : List Piece} {values : List Value}
    (h : Match (ofLetter k :: rest) values) (hk : TakesArg k) :
    ∃ value later, values = value :: later ∧ value.letter = k ∧ Match rest later := by
  unfold Match ofLetter at h
  rw [if_pos hk, List.filterMap_cons_some (show letter (conversion k) = some k from rfl)] at h
  cases values with
  | nil => cases h
  | cons value later =>
    obtain ⟨hletter, hrest⟩ := List.cons.inj h
    exact ⟨value, later, rfl, hletter.symm, hrest⟩

theorem Piece.match_skip {piece : Piece} {rest : List Piece} {values : List Value}
    (h : Match (piece :: rest) values) (hnone : piece.letter = none) : Match rest values := by
  unfold Match at h
  rwa [List.filterMap_cons_none hnone] at h

/-- The arguments go to the conversions from left to right. -/
theorem render_eq_fullRendering {format : List Char} (h : nul ∉ format) {n : Nat}
    {values : List Value} (hmatch : Piece.Match (Piece.ofFormat format) values)
    (hpassed : PassedFrom args n values) :
    render args format n = Piece.fullRendering (Piece.ofFormat format) values := by
  match format with
  | [] => rfl
  | c :: rest =>
    obtain ⟨hc, hrest⟩ := List.ne_and_not_mem_of_not_mem_cons h
    by_cases hpercent : c = '%'
    · subst hpercent
      match rest with
      | [] => rfl
      | k :: rest =>
        have hrest' := (List.ne_and_not_mem_of_not_mem_cons hrest).2
        have hpieces : Piece.ofFormat ('%' :: k :: rest) =
          Piece.ofLetter k :: Piece.ofFormat rest := rfl
        rw [hpieces] at hmatch ⊢
        rw [render_percent]
        unfold nextAfter
        by_cases hk : TakesArg k
        · obtain ⟨value, later, rfl, rfl, hlater⟩ := Piece.match_ofLetter hmatch hk
          rw [if_pos hk, Value.conversion_eq_text hpassed.head,
            render_eq_fullRendering hrest' hlater hpassed.tail, Piece.ofLetter, if_pos hk]
          rfl
        · rw [if_neg hk]
          by_cases hk' : k = '%'
          · subst hk'
            rw [render_eq_fullRendering hrest' (Piece.match_skip hmatch rfl) hpassed]
            rfl
          · have hpiece : Piece.ofLetter k = Piece.unknown k := by
              unfold Piece.ofLetter
              rw [if_neg hk, if_neg hk']
            rw [hpiece] at hmatch ⊢
            rw [render_eq_fullRendering hrest' (Piece.match_skip hmatch rfl) hpassed,
              conversion_unknown hk hk']
            rfl
    · have hpieces : Piece.ofFormat (c :: rest) = Piece.literal c :: Piece.ofFormat rest := by
        rw [Piece.ofFormat.eq_def]
        simp only [if_neg hpercent]
      rw [hpieces] at hmatch ⊢
      rw [render_plain args n hc.symm hpercent,
        render_eq_fullRendering hrest (Piece.match_skip hmatch rfl) hpassed]
      rfl

theorem Piece.fullRendering_noNul {pieces : List Piece} (h : Piece.literal nul ∉ pieces)
    (values : List Value) : nul ∉ fullRendering pieces values := by
  induction pieces generalizing values with
  | nil => exact List.not_mem_nil
  | cons piece rest ih =>
    obtain ⟨hpiece, hrest⟩ := List.ne_and_not_mem_of_not_mem_cons h
    have ih := ih hrest
    cases piece with
    | literal c =>
      have hc : nul ≠ c := fun heq => hpiece (congrArg Piece.literal heq)
      exact List.not_mem_cons_of_ne_of_not_mem hc (ih values)
    | percent => exact List.not_mem_cons_of_ne_of_not_mem (by decide) (ih values)
    | unknown k => exact ih values
    | conversion k =>
      cases values with
      | nil => exact ih []
      | cons value later =>
        intro hmem
        rcases List.mem_append.mp hmem with htext | hlater
        · exact value.text_noNul htext
        · exact ih later hlater

theorem Piece.literal_noNul {format : List Char} (h : nul ∉ format) :
    Piece.literal nul ∉ ofFormat format := by
  match format with
  | [] => exact List.not_mem_nil
  | c :: rest =>
    obtain ⟨hc, hrest⟩ := List.ne_and_not_mem_of_not_mem_cons h
    unfold ofFormat
    by_cases hpercent : c = '%'
    · rw [if_pos hpercent]
      match rest with
      | [] => exact List.not_mem_nil
      | k :: rest =>
        have hrest' := (List.ne_and_not_mem_of_not_mem_cons hrest).2
        have hletter : Piece.literal nul ≠ ofLetter k := by
          unfold ofLetter
          split
          · exact Piece.noConfusion
          · split <;> exact Piece.noConfusion
        exact List.not_mem_cons_of_ne_of_not_mem hletter (literal_noNul hrest')
    · rw [if_neg hpercent]
      have hne : Piece.literal nul ≠ Piece.literal c := fun heq => hc (Piece.literal.inj heq)
      exact List.not_mem_cons_of_ne_of_not_mem hne (literal_noNul hrest)

end formats

section output
variable {output beyond : List Char} {size : Nat} {args : Nat → Arg}

/-- The output is the beginning of the full rendering, as far as there is room. -/
theorem formatString_renders (format : CString) (values : List Value)
    (hnonempty : format.chars ≠ []) (hcomplete : Complete format.chars)
    (hmatch : Piece.Match (Piece.ofFormat format.chars) values)
    (hpassed : PassedFrom args 0 values) (hsize : 2 ≤ size) (hroom : size ≤ output.length) :
    cString (formatString (format.chars ++ nul :: beyond) output size args).output =
      (Piece.fullRendering (Piece.ofFormat format.chars) values).take (size - 1) := by
  rw [formatString_cString args hsize hroom (CString.starts hnonempty beyond),
    render_complete args format.noNul hcomplete,
    render_eq_fullRendering format.noNul hmatch hpassed]
  apply cString_of_noNul
  have hnoNul := Piece.fullRendering_noNul (Piece.literal_noNul format.noNul) values
  exact fun hmem => hnoNul (List.mem_of_mem_take hmem)

end output

/-- A buffer of five characters cuts the last two digits off. -/
theorem formatString_renders_cut :
    cString (formatString (['n', '=', '%', 'u'] ++ nul :: []) (List.replicate 5 'z') 5
      fun _ => ⟨1234, CString.empty⟩).output = ['n', '=', '1', '2'] := by
  have hpassed : PassedFrom (fun _ => ⟨1234, CString.empty⟩) 0 [Value.number 1234] := by
    intro i value hi
    obtain ⟨rfl, rfl⟩ : i = 0 ∧ value = Value.number 1234 := by
      cases i with
      | zero => exact ⟨rfl, (Option.some.inj hi).symm⟩
      | succ i => cases hi
    rfl
  have hcut : cString (formatString (['n', '=', '%', 'u'] ++ nul :: []) (List.replicate 5 'z') 5
      fun _ => ⟨1234, CString.empty⟩).output = _ :=
    formatString_renders ⟨['n', '=', '%', 'u'], by decide⟩ [Value.number 1234] (by simp) trivial
      rfl hpassed (by omega) (by simp)
  exact hcut.trans (by decide)

end SelfmadeOS
