import Mathlib.Algebra.Group.Nat.Defs
import SelfmadeOS.Writes

/-!
# Numbers in a memory of bytes

A number of `n` bytes stands in little-endian order. It is read back from where it was stored,
and a store elsewhere leaves it alone.
-/

namespace ByteMemory
set_option autoImplicit false

abbrev Bytes := Nat → BitVec 8

/-- The lowest `n` bytes of a number, the least significant first. -/
def digits : Nat → Nat → List (BitVec 8)
  | 0, _ => []
  | n + 1, v => BitVec.ofNat 8 v :: digits n (v / 256)

def value : List (BitVec 8) → Nat
  | [] => 0
  | b :: rest => b.toNat + 256 * value rest

def loadBytes (m : Bytes) (a n : Nat) : Nat := value ((List.range n).map fun i => m (a + i))

def storeBytes (m : Bytes) (a n v : Nat) : Bytes := Writes.apply m (Writes.inOrder a (digits n v))

def NoOverlap (a n b k : Nat) : Prop := a + n ≤ b ∨ b + k ≤ a

section digits

@[simp] theorem digits_length (n v : Nat) : (digits n v).length = n := by
  induction n generalizing v with
  | zero => rfl
  | succ n ih => rw [digits, List.length_cons, ih]

theorem value_digits {n v : Nat} (h : v < 256 ^ n) : value (digits n v) = v := by
  induction n generalizing v with
  | zero =>
    rw [Nat.pow_zero] at h
    exact (Nat.lt_one_iff.mp h).symm
  | succ n ih =>
    rw [Nat.pow_succ] at h
    have hbyte : (BitVec.ofNat 8 v).toNat = v % 256 := BitVec.toNat_ofNat v 8
    rw [digits, value, ih (by omega), hbyte]
    exact Nat.mod_add_div v 256

end digits

section memory
variable {m m' : Bytes} {a n b k v x : Nat}

theorem loadBytes_congr (h : ∀ x, a ≤ x → x < a + n → m x = m' x) :
    loadBytes m a n = loadBytes m' a n := by
  unfold loadBytes
  congr 1
  apply List.map_congr_left
  intro i hi
  have hlt := List.mem_range.mp hi
  exact h (a + i) (Nat.le_add_right a i) (Nat.add_lt_add_left hlt a)

theorem storeBytes_outside (h : x < a ∨ a + n ≤ x) : storeBytes m a n v x = m x := by
  apply Writes.apply_other
  intro w hw heq
  obtain ⟨i, hi, hplace⟩ := Writes.mem_inOrder.mp hw
  obtain ⟨hlt, -⟩ := List.getElem?_eq_some_iff.mp hi
  rw [digits_length] at hlt
  omega

theorem loadBytes_storeBytes_same (h : v < 256 ^ n) : loadBytes (storeBytes m a n v) a n = v := by
  have hbytes : ((List.range n).map fun i => storeBytes m a n v (a + i)) = digits n v := by
    apply List.ext_getElem
    · simp
    · intro i hi hi'
      rw [List.getElem_map, List.getElem_range]
      exact Writes.apply_inOrder m (List.getElem?_eq_getElem hi')
  unfold loadBytes
  rw [hbytes, value_digits h]

theorem loadBytes_storeBytes_apart (h : NoOverlap a n b k) :
    loadBytes (storeBytes m a n v) b k = loadBytes m b k := by
  apply loadBytes_congr
  intro x hx hx'
  apply storeBytes_outside
  unfold NoOverlap at h
  omega

end memory

end ByteMemory
