import Mathlib.Algebra.Group.Nat.Defs
import Mathlib.Tactic.Common

/-!
# Numerals of a fixed width

`Nat.toDigits` writes a number without leading zeros; padded on the left it is the numeral of a
given width, and one more place on the right is one more division.
-/

namespace Numerals
set_option autoImplicit false

def padded (base width value : Nat) : List Char :=
  (Nat.toDigits base value).leftpad width '0'

theorem padded_one {base value : Nat} (h : value < base) :
    padded base 1 value = [Nat.digitChar value] := by
  unfold padded
  rw [Nat.toDigits_of_lt_base h]
  rfl

section numerals
variable {base : Nat} (hbase : 1 < base)
include hbase

theorem exists_digit_of_mem (value : Nat) {c : Char} (h : c ∈ Nat.toDigits base value) :
    ∃ d, d < base ∧ c = Nat.digitChar d := by
  induction value using Nat.strongRecOn with
  | _ value ih =>
    rw [Nat.toDigits_eq_if hbase] at h
    split at h
    · exact ⟨value, ‹_›, List.mem_singleton.mp h⟩
    · rename_i hle
      have hpos : 0 < value := by omega
      rcases List.mem_append.mp h with hinit | hlast
      · exact ih _ (Nat.div_lt_self hpos hbase) hinit
      · exact ⟨_, Nat.mod_lt _ (by omega), List.mem_singleton.mp hlast⟩

theorem toDigits_head {value : Nat} (hpos : 0 < value) :
    (Nat.toDigits base value).head? ≠ some '0' := by
  induction value using Nat.strongRecOn with
  | _ value ih =>
    rw [Nat.toDigits_eq_if hbase]
    split
    · intro hzero
      have hdigit := Nat.digitChar_eq_zero.mp (Option.some.inj hzero)
      omega
    · rename_i hle
      have hinit := ih _ (Nat.div_lt_self hpos hbase)
        (Nat.div_pos (Nat.le_of_not_lt hle) (by omega))
      obtain ⟨c, rest, heq⟩ := List.exists_cons_of_ne_nil (Nat.toDigits_ne_nil (n := value / base)
        (b := base))
      rw [heq] at hinit ⊢
      exact hinit

/-- The last digit of a numeral is the remainder, and the quotient stands before it. -/
theorem padded_succ {width : Nat} (hwidth : 0 < width) (value : Nat) :
    padded base (width + 1) value =
      padded base width (value / base) ++ [Nat.digitChar (value % base)] := by
  unfold padded List.leftpad
  by_cases h : value < base
  · rw [Nat.div_eq_of_lt h, Nat.mod_eq_of_lt h, Nat.toDigits_of_lt_base h, Nat.toDigits_zero]
    have hzero : List.replicate (width - 1) '0' ++ ['0'] = List.replicate width '0' := by
      rw [← List.replicate_succ', Nat.sub_add_cancel hwidth]
    simp only [List.length_singleton, Nat.add_sub_cancel]
    rw [hzero]
  · rw [Nat.toDigits_of_base_le hbase (Nat.le_of_not_lt h), List.length_append,
      List.length_singleton, Nat.add_sub_add_right, List.append_assoc]

theorem padded_inj (hdigits : base ≤ 16) {width a b : Nat} (ha : a < base ^ width)
    (hb : b < base ^ width) (h : padded base width a = padded base width b) : a = b := by
  have hdigit : ∀ m < 16, ∀ n < 16, Nat.digitChar m = Nat.digitChar n → m = n := by decide
  induction width generalizing a b with
  | zero =>
    rw [Nat.pow_zero] at ha hb
    omega
  | succ width ih =>
    by_cases hwidth : width = 0
    · subst hwidth
      rw [Nat.zero_add, Nat.pow_one] at ha hb
      rw [padded_one ha, padded_one hb] at h
      exact hdigit a (by omega) b (by omega) (List.cons.inj h).1
    · have hpos : 0 < width := Nat.pos_of_ne_zero hwidth
      rw [padded_succ hbase hpos, padded_succ hbase hpos] at h
      obtain ⟨hinit, hlast⟩ := List.append_inj' h rfl
      rw [Nat.pow_succ] at ha hb
      have hdiv := ih (Nat.div_lt_of_lt_mul (by rwa [Nat.mul_comm]))
        (Nat.div_lt_of_lt_mul (by rwa [Nat.mul_comm])) hinit
      have hmod := hdigit _ (Nat.lt_of_lt_of_le (Nat.mod_lt a (by omega)) hdigits) _
        (Nat.lt_of_lt_of_le (Nat.mod_lt b (by omega)) hdigits) (List.cons.inj hlast).1
      rw [← Nat.div_add_mod a base, ← Nat.div_add_mod b base, hdiv, hmod]

end numerals

end Numerals
