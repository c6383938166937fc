import SelfmadeOS.FormatValues
import SelfmadeOS.Writes

/-!
# Numbers and their scratch arrays

`int_to_str`, `u32_to_hex` and `u64_to_hex` write a text and its NUL into an array on the stack
of `format_string`, which copies the text from there. The functions once more, with the indices
they touch.
-/

namespace SelfmadeOS
set_option autoImplicit false
open CStrings

def Arg.uint (a : Arg) : Nat := a.word % 2 ^ 32

structure DecimalNumeral (value : Nat) (text : List Char) : Prop where
  nonempty : text ≠ []
  digits : ∀ c ∈ text, c.isDigit
  leading : text.head? = some '0' → value = 0
  decodes : Nat.ofDigitChars 10 text 0 = value

section unsigned

theorem toDigits_decimalNumeral (value : Nat) :
    DecimalNumeral value (Nat.toDigits 10 value) := by
  refine ⟨Nat.toDigits_ne_nil, ?_, ?_, Nat.ofDigitChars_ten_toDigits⟩
  · intro c hc
    exact Nat.isDigit_of_mem_toDigits (by omega) (by omega) hc
  · intro hhead
    apply Nat.eq_zero_of_not_pos
    intro hpos
    exact Numerals.toDigits_head (by omega) hpos hhead

/-- The loop for the digits runs as long as the value is positive. -/
theorem intToStr_negative {value : Int} (h : value < 0) : intToStr value = [] := by
  have hnat : value.toNat = 0 := by omega
  unfold intToStr
  rw [if_neg (by omega), hnat]
  rfl

theorem Arg.int_of_small {a : Arg} (h : a.uint < 2 ^ 31) : a.int = a.uint := by
  unfold Arg.uint at h
  unfold Arg.int
  exact if_pos h

theorem Arg.int_of_large {a : Arg} (h : ¬ a.uint < 2 ^ 31) : a.int < 0 := by
  unfold Arg.uint at h
  have hlt := Nat.mod_lt a.word (by decide : 2 ^ 32 > 0)
  unfold Arg.int
  simp only [if_neg h]
  omega

theorem Arg.int_lt (a : Arg) : a.int < 2 ^ 31 := by
  by_cases h : a.uint < 2 ^ 31
  · rw [Arg.int_of_small h]
    omega
  · exact Int.lt_trans (Arg.int_of_large h) (by decide)

/-- The argument is an `int`, and the upper half of the unsigned values is printed as nothing. -/
theorem intToStr_unsigned_iff (a : Arg) :
    DecimalNumeral a.uint (intToStr a.int) ↔ a.uint < 2 ^ 31 := by
  constructor
  · intro hnumeral
    by_cases h : a.uint < 2 ^ 31
    · exact h
    · exact absurd (intToStr_negative (Arg.int_of_large h)) hnumeral.nonempty
  · intro h
    rw [Arg.int_of_small h, intToStr_toDigits h]
    exact toDigits_decimalNumeral a.uint

theorem intToStr_high_bit :
    ¬ ∀ a : Arg, DecimalNumeral a.uint (intToStr a.int) := by
  intro hall
  have hempty : intToStr (Arg.mk 0x80000000 CString.empty).int = [] := by decide
  exact (hall ⟨0x80000000, CString.empty⟩).nonempty hempty

end unsigned

/-- `tmp` is the array of `int_to_str`, `param` the array that its caller passes. -/
inductive ScratchAccess where
  | writeTmp (i : Nat) (c : Char)
  | readTmp (i : Nat)
  | writeParam (i : Nat) (c : Char)
  | readParam (i : Nat)

namespace ScratchAccess

def InBounds (size : Nat) : ScratchAccess → Prop
  | writeTmp i _ => i < 10
  | readTmp i => i < 10
  | writeParam i _ => i < size
  | readParam i => i < size

def paramWrite : ScratchAccess → Option (Nat × Char)
  | writeParam i c => some (i, c)
  | _ => none

end ScratchAccess

/-- `while (value > 0) tmp[len++] = ...`. -/
def digitWrites (value len : Nat) : List (Nat × Char) :=
  if h : value > 0 then
    (len, Char.ofNat (48 + value % 10)) :: digitWrites (value / 10) (len + 1)
  else []
termination_by value
decreasing_by exact Nat.div_lt_self h (by omega)

/-- `for (i < len) buf[i] = tmp[len - 1 - i]`. -/
def reversal (tmp : Nat → Char) (len : Nat) : List ScratchAccess :=
  (List.range len).flatMap fun i =>
    [.readTmp (len - 1 - i), .writeParam i (tmp (len - 1 - i))]

def intToStrAccesses (tmp : Nat → Char) (value : Int) : List ScratchAccess :=
  if value = 0 then [.writeParam 0 '0', .writeParam 1 nul]
  else
    let digits := digitWrites value.toNat 0
    let len := digits.length
    digits.map (fun w => .writeTmp w.1 w.2) ++ reversal (Writes.apply tmp digits) len ++
      [.writeParam len nul]

/-- `u32_to_hex` and `u64_to_hex` differ in their number of digits. -/
def toHexAccesses (digits value : Nat) : List ScratchAccess :=
  .writeParam 0 '0' :: .writeParam 1 'x' ::
    (List.range digits).map (fun i =>
      .writeParam (2 + i) (hex.getD (value >>> (4 * (digits - 1 - i)) &&& 0xF) nul)) ++
    [.writeParam (digits + 2) nul]

def u32ToHexAccesses (value : Nat) : List ScratchAccess := toHexAccesses 8 value
def u64ToHexAccesses (value : Nat) : List ScratchAccess := toHexAccesses 16 value

/-- A copy loop of `format_string`: the array is read before the other two tests are made, and
once more for the copy. -/
def copyLoop (limit size : Nat) (param : Nat → Char) (idxParam : Nat) (s : Formatting) :
    List ScratchAccess × Formatting :=
  if h : param idxParam ≠ nul ∧ s.idxOutput < limit ∧ idxParam < size then
    let rest := copyLoop limit size param (idxParam + 1) (s.write (param idxParam))
    (.readParam idxParam :: .readParam idxParam :: rest.1, rest.2)
  else ([.readParam idxParam], s)
termination_by size - idxParam
decreasing_by omega

inductive NumberConversion where
  | u
  | x
  | p

namespace NumberConversion

def letter : NumberConversion → Char
  | u => 'u'
  | x => 'x'
  | p => 'p'

def size : NumberConversion → Nat
  | u => 10
  | x => 10
  | p => 18

def fill (tmp : Nat → Char) (arg : Arg) : NumberConversion → List ScratchAccess
  | u => intToStrAccesses tmp arg.int
  | x => u32ToHexAccesses (arg.word % 2 ^ 32)
  | p => u64ToHexAccesses (arg.word % 2 ^ 64)

def run (k : NumberConversion) (tmp param : Nat → Char) (arg : Arg) (limit : Nat)
    (s : Formatting) : List ScratchAccess × Formatting :=
  let filled := k.fill tmp arg
  let param := Writes.apply param (filled.filterMap ScratchAccess.paramWrite)
  let copied := copyLoop limit k.size param 0 s
  (filled ++ copied.1, copied.2)

end NumberConversion

section texts
variable (tmp param : Nat → Char)

theorem digitWrites_eq {size value : Nat} (h : value < 10 ^ size) (len : Nat) :
    digitWrites value len = Writes.inOrder len (reversedDigits size value) := by
  induction size generalizing value len with
  | zero =>
    have hzero : value = 0 := by simpa using h
    subst hzero
    rw [digitWrites]
    rfl
  | succ size ih =>
    rw [digitWrites]
    unfold reversedDigits
    split
    · rw [Writes.inOrder_cons, ih (by rw [Nat.pow_succ] at h; omega)]
    · rfl

theorem digitWrites_int {value : Int} (h : value < 2 ^ 31) :
    digitWrites value.toNat 0 = Writes.inOrder 0 (reversedDigits 10 value.toNat) := by
  apply digitWrites_eq
  omega

theorem reversal_text (digits : List Char) :
    (reversal (Writes.apply tmp (Writes.inOrder 0 digits)) digits.length).filterMap
      ScratchAccess.paramWrite = Writes.inOrder 0 digits.reverse := by
  have hreverse : digits.reverse.length = digits.length := List.length_reverse
  unfold reversal
  rw [List.filterMap_flatMap, ← hreverse]
  refine (List.map_eq_flatMap (f := fun i => (i, _))).symm.trans (Writes.map_range_eq_inOrder ?_)
  intro i c hi
  obtain ⟨hlt, -⟩ := List.getElem?_eq_some_iff.mp hi
  rw [List.getElem?_reverse (by omega), ← hreverse] at hi
  have hread : Writes.apply tmp (Writes.inOrder 0 digits) (0 + _) = c :=
    Writes.apply_inOrder tmp hi
  rw [Nat.zero_add] at hread
  rw [hread, Nat.zero_add]

/-- What is written to the caller's array: the text and its NUL, in order. -/
theorem intToStrAccesses_text {value : Int} (h : value < 2 ^ 31) :
    (intToStrAccesses tmp value).filterMap ScratchAccess.paramWrite =
      Writes.inOrder 0 (intToStr value ++ [nul]) := by
  unfold intToStrAccesses intToStr
  by_cases hzero : value = 0
  · rw [if_pos hzero, if_pos hzero]
    rfl
  rw [if_neg hzero, if_neg hzero, digitWrites_int h]
  have htmp : ((Writes.inOrder 0 (reversedDigits 10 value.toNat)).map fun w =>
      ScratchAccess.writeTmp w.1 w.2).filterMap ScratchAccess.paramWrite = [] := by
    rw [List.filterMap_map, List.filterMap_eq_nil_iff]
    exact fun _ _ => rfl
  simp only [List.filterMap_append, htmp, Writes.inOrder_length, reversal_text,
    Writes.inOrder_append, List.nil_append, List.length_reverse, Nat.zero_add]
  rfl

theorem toHexAccesses_text (digits value : Nat) :
    (toHexAccesses digits value).filterMap ScratchAccess.paramWrite =
      Writes.inOrder 0 (toHex digits value ++ [nul]) := by
  let nibble : Nat → Char := fun i => hex.getD (value >>> (4 * (digits - 1 - i)) &&& 0xF) nul
  have hnibbles : ((List.range digits).map fun i =>
      ScratchAccess.writeParam (2 + i) (nibble i)).filterMap ScratchAccess.paramWrite =
      Writes.inOrder 2 ((List.range digits).map nibble) := by
    rw [List.filterMap_map, Writes.inOrder_map_range]
    exact congrFun List.filterMap_eq_map (List.range digits)
  have htext : toHex digits value = '0' :: 'x' :: (List.range digits).map nibble := rfl
  rw [htext, Writes.inOrder_append, Writes.inOrder_cons, Writes.inOrder_cons, ← hnibbles]
  simp [toHexAccesses, ScratchAccess.paramWrite, Writes.inOrder, nibble]

theorem scratch_text (k : NumberConversion) (arg : Arg) :
    (k.fill tmp arg).filterMap ScratchAccess.paramWrite =
      Writes.inOrder 0 (conversion k.letter arg ++ [nul]) := by
  cases k with
  | u => exact intToStrAccesses_text tmp arg.int_lt
  | x => exact toHexAccesses_text 8 (arg.word % 2 ^ 32)
  | p => exact toHexAccesses_text 16 (arg.word % 2 ^ 64)

theorem toHex_noNul {digits value : Nat} (hdigits : 0 < digits) (h : value < 16 ^ digits) :
    nul ∉ toHex digits value := by
  rw [toHex_padded hdigits h]
  exact hexNumeral_noNul digits value

theorem intToStr_noNul (arg : Arg) : nul ∉ intToStr arg.int := by
  by_cases h : arg.uint < 2 ^ 31
  · rw [Arg.int_of_small h, intToStr_toDigits h]
    exact toDigits_noNul (by omega) (by omega) arg.uint
  · rw [intToStr_negative (Arg.int_of_large h)]
    exact List.not_mem_nil

theorem number_noNul (k : NumberConversion) (arg : Arg) : nul ∉ conversion k.letter arg := by
  cases k with
  | u => exact intToStr_noNul arg
  | x =>
    have hword : nul ∉ toHex 8 (arg.word % 2 ^ 32) :=
      toHex_noNul (by omega) (Nat.mod_lt _ (by decide))
    exact hword
  | p =>
    have hpointer : nul ∉ toHex 16 (arg.word % 2 ^ 64) :=
      toHex_noNul (by omega) (Nat.mod_lt _ (by decide))
    exact hpointer

end texts

section copies
variable (limit size : Nat) {param : Nat → Char}

theorem copyLoop_stop {idxParam : Nat} {s : Formatting}
    (h : ¬ (param idxParam ≠ nul ∧ s.idxOutput < limit ∧ idxParam < size)) :
    copyLoop limit size param idxParam s = ([.readParam idxParam], s) := by
  rw [copyLoop, dif_neg h]

theorem copyLoop_step {idxParam : Nat} {s : Formatting}
    (h : param idxParam ≠ nul ∧ s.idxOutput < limit ∧ idxParam < size) :
    copyLoop limit size param idxParam s =
      (.readParam idxParam :: .readParam idxParam ::
        (copyLoop limit size param (idxParam + 1) (s.write (param idxParam))).1,
        (copyLoop limit size param (idxParam + 1) (s.write (param idxParam))).2) := by
  rw [copyLoop, dif_pos h]

def HoldsFrom (param : Nat → Char) (idx : Nat) (text : List Char) : Prop :=
  ∀ i c, (text ++ [nul])[i]? = some c → param (idx + i) = c

theorem HoldsFrom.tail {idx : Nat} {c : Char} {text : List Char}
    (h : HoldsFrom param idx (c :: text)) : HoldsFrom param (idx + 1) text := by
  intro i c' hi
  rw [Nat.add_right_comm, Nat.add_assoc]
  exact h (i + 1) c' hi

/-- The loop copies what `copyString` copies, and no index behind the NUL is read. -/
theorem copyLoop_holds {idx : Nat} {text : List Char} (h : HoldsFrom param idx text)
    (hnul : nul ∉ text) (s : Formatting) :
    (copyLoop limit size param idx s).2 = copyString limit (text.take (size - idx)) s ∧
      ∀ a ∈ (copyLoop limit size param idx s).1,
        ∃ i, i ≤ idx + text.length ∧ a = .readParam i := by
  induction text generalizing idx s with
  | nil =>
    have hend : param idx = nul := h 0 nul rfl
    rw [copyLoop_stop _ _ fun hgo => hgo.1 hend]
    refine ⟨by simp [copyString], ?_⟩
    intro a ha
    exact ⟨idx, Nat.le_refl idx, List.mem_singleton.mp ha⟩
  | cons c rest ih =>
    obtain ⟨hc, hrest⟩ := List.ne_and_not_mem_of_not_mem_cons hnul
    have hparam : param idx = c := h 0 c rfl
    by_cases hgo : s.idxOutput < limit ∧ idx < size
    · obtain ⟨hsame, hreads⟩ := ih h.tail hrest (s.write c)
      have hsize : size - idx = size - (idx + 1) + 1 := by omega
      rw [copyLoop_step _ _ ⟨by rw [hparam]; exact hc.symm, hgo⟩, hparam, hsize,
        List.take_succ_cons, copyString, if_pos hgo.1]
      refine ⟨hsame, ?_⟩
      simp only [List.forall_mem_cons, List.length_cons]
      refine ⟨⟨idx, by omega, rfl⟩, ⟨idx, by omega, rfl⟩, ?_⟩
      intro a ha
      obtain ⟨i, hi, rfl⟩ := hreads a ha
      exact ⟨i, by omega, rfl⟩
    · rw [copyLoop_stop _ _ fun hall => hgo hall.2]
      constructor
      · by_cases hroom : s.idxOutput < limit
        · have hnone : size - idx = 0 := by omega
          rw [hnone, List.take_zero, copyString]
        · cases size - idx with
          | zero => rfl
          | succ n => rw [List.take_succ_cons, copyString, if_neg hroom]
      · intro a ha
        exact ⟨idx, by omega, List.mem_singleton.mp ha⟩

end copies

section conversions
variable (tmp param : Nat → Char) (arg : Arg) (limit : Nat) (s : Formatting)

theorem scratch_holds (k : NumberConversion) :
    HoldsFrom (Writes.apply param ((k.fill tmp arg).filterMap ScratchAccess.paramWrite)) 0
      (conversion k.letter arg) := by
  intro i c hi
  rw [scratch_text]
  exact Writes.apply_inOrder param hi

/-- The conversion through its scratch array is the conversion of the model. -/
theorem run_eq_convert (k : NumberConversion) (args : Nat → Arg) :
    (k.run tmp param (args s.nextArg) limit s.tookArg).2 = convert limit args k.letter s := by
  obtain ⟨hcopy, -⟩ := copyLoop_holds limit k.size
    (scratch_holds tmp param (args s.nextArg) k) (number_noNul k (args s.nextArg)) s.tookArg
  refine hcopy.trans ?_
  cases k <;> rfl

end conversions

section bounds
variable {tmp : Nat → Char} {size : Nat}

theorem reversal_inBounds {len : Nat} (htmp : len ≤ 10) (hsize : len ≤ size) :
    ∀ a ∈ reversal tmp len, a.InBounds size := by
  intro a ha
  obtain ⟨i, hi, ha⟩ := List.mem_flatMap.mp ha
  have hi := List.mem_range.mp hi
  simp only [List.mem_cons, List.not_mem_nil, or_false] at ha
  rcases ha with rfl | rfl
  · exact (by omega : len - 1 - i < 10)
  · exact (by omega : i < size)

/-- An `int` has at most ten digits, so `tmp` is large enough; the caller's array must have room
for the NUL as well. -/
theorem intToStrAccesses_inBounds {value : Int} (h : value < 2 ^ 31)
    (hsize : (intToStr value).length < size) :
    ∀ a ∈ intToStrAccesses tmp value, a.InBounds size := by
  unfold intToStrAccesses
  unfold intToStr at hsize
  by_cases hzero : value = 0
  · rw [if_pos hzero] at hsize ⊢
    have hone : 1 < size := hsize
    simp only [List.forall_mem_cons]
    exact ⟨Nat.lt_of_succ_lt hone, hone, List.forall_mem_nil _⟩
  · have hten := reversedDigits_length_le 10 value.toNat
    rw [if_neg hzero, List.length_reverse] at hsize
    rw [if_neg hzero, digitWrites_int h]
    simp only [List.forall_mem_append, Writes.inOrder_length]
    refine ⟨⟨?_, reversal_inBounds hten (Nat.le_of_lt hsize)⟩, ?_⟩
    · intro a ha
      obtain ⟨w, hw, rfl⟩ := List.mem_map.mp ha
      obtain ⟨i, hi, hplace⟩ := Writes.mem_inOrder.mp hw
      obtain ⟨hlt, -⟩ := List.getElem?_eq_some_iff.mp hi
      exact (by omega : w.1 < 10)
    · exact List.forall_mem_singleton.mpr hsize

theorem intToStr_length_lt {value : Int} (h : value < 2 ^ 31) :
    (intToStr value).length < 10 ↔ value < 1000000000 := by
  by_cases hneg : value < 0
  · rw [intToStr_negative hneg, List.length_nil]
    omega
  · obtain ⟨n, rfl⟩ := Int.eq_ofNat_of_zero_le (Int.not_lt.mp hneg)
    have hlen := Nat.length_toDigits_le_iff (n := n) (by omega : 1 < 10) (by omega : 0 < 9)
    rw [intToStr_toDigits (by omega)]
    omega

theorem nul_mem_fill (tmp : Nat → Char) (k : NumberConversion) (arg : Arg) :
    ScratchAccess.writeParam (conversion k.letter arg).length nul ∈ k.fill tmp arg := by
  have hlast : ((conversion k.letter arg).length, nul) ∈
      (k.fill tmp arg).filterMap ScratchAccess.paramWrite := by
    rw [scratch_text]
    exact Writes.mem_inOrder.mpr ⟨_, List.getElem?_concat_length, (Nat.zero_add _).symm⟩
  obtain ⟨a, ha, hwrite⟩ := List.mem_filterMap.mp hlast
  cases a with
  | writeParam i c =>
    obtain ⟨rfl, rfl⟩ := Prod.mk.inj (Option.some.inj hwrite)
    exact ha
  | writeTmp i c => cases hwrite
  | readTmp i => cases hwrite
  | readParam i => cases hwrite

/-- Every index lies in its array exactly for decimal numerals of up to nine digits. -/
theorem numberConversion_inBounds_iff (k : NumberConversion) (tmp param : Nat → Char) (arg : Arg)
    (limit : Nat) (s : Formatting) :
    (∀ a ∈ (k.run tmp param arg limit s).1, a.InBounds k.size) ↔
      k = .u ∧ arg.int < 1000000000 := by
  have hnul := nul_mem_fill tmp k arg
  constructor
  · intro hall
    have hroom : (conversion k.letter arg).length < k.size :=
      hall _ (List.mem_append_left _ hnul)
    cases k with
    | u => exact ⟨rfl, (intToStr_length_lt arg.int_lt).mp hroom⟩
    | x =>
      have hlen : (conversion 'x' arg).length = 10 := u32ToHex_length _
      exact absurd (hlen ▸ hroom) (Nat.lt_irrefl 10)
    | p =>
      have hlen : (conversion 'p' arg).length = 18 := u64ToHex_length _
      exact absurd (hlen ▸ hroom) (Nat.lt_irrefl 18)
  · rintro ⟨rfl, hint⟩
    have hroom := (intToStr_length_lt arg.int_lt).mpr hint
    obtain ⟨-, hreads⟩ := copyLoop_holds limit 10
      (scratch_holds tmp param arg .u) (number_noNul .u arg) s
    intro a ha
    rcases List.mem_append.mp ha with hfill | hcopy
    · exact intToStrAccesses_inBounds arg.int_lt hroom a hfill
    · obtain ⟨i, hi, rfl⟩ := hreads a hcopy
      have hlen : (conversion 'u' arg).length < 10 := hroom
      exact Nat.lt_of_le_of_lt hi ((Nat.zero_add _).symm ▸ hlen)

/-- The NUL of a register value lands behind the ten bytes. -/
theorem hex_nul_outOfBounds : ¬ ∀ a ∈ (NumberConversion.x.run (fun _ => nul) (fun _ => nul)
    ⟨0, CString.empty⟩ 79 ⟨0, 0, [], 0⟩).1, a.InBounds NumberConversion.x.size := by
  intro hall
  have hmem : ScratchAccess.writeParam 10 nul ∈ u32ToHexAccesses 0 :=
    List.mem_append_right _ (List.mem_singleton.mpr rfl)
  exact Nat.lt_irrefl 10 (hall _ (List.mem_append_left _ hmem))

end bounds

end SelfmadeOS
