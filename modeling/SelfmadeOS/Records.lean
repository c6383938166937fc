import SelfmadeOS.ByteMemory
import Mathlib.Algebra.GroupWithZero.Nat

/-!
# Records in a memory of bytes

A record is a list of numbers with their widths, laid out without gaps. Its fields may be stored
in any order, and a field that is not stored has to be zero before; whoever reads the record cuts
it up again.
-/

namespace Records
set_option autoImplicit false
open ByteMemory

/-- A number and how many bytes it takes. -/
structure Field where
  width : Nat
  value : Nat
deriving DecidableEq

def Field.Fits (f : Field) : Prop := f.value < 256 ^ f.width

def size (r : List Field) : Nat := (r.map Field.width).sum

def pack (r : List Field) : List (BitVec 8) := r.flatMap fun f => digits f.width f.value

/-- The numbers of the given widths, one after the other. -/
def unpack : List Nat → List (BitVec 8) → List Nat
  | [], _ => []
  | w :: widths, bytes => value (bytes.take w) :: unpack widths (bytes.drop w)

def unpackAll (widths : List Nat) (bytes : List (BitVec 8)) : Option (List Nat) :=
  if widths.sum ≤ bytes.length then some (unpack widths bytes) else none

structure Store where
  address : Nat
  field : Field
deriving DecidableEq

def Store.apply (m : Bytes) (s : Store) : Bytes :=
  storeBytes m s.address s.field.width s.field.value

def storeAll (m : Bytes) (stores : List Store) : Bytes := stores.foldl Store.apply m

def readBytes (m : Bytes) (a n : Nat) : List (BitVec 8) := (List.range n).map fun i => m (a + i)

def writeBytes (m : Bytes) (a : Nat) (bytes : List (BitVec 8)) : Bytes :=
  Writes.apply m (Writes.inOrder a bytes)

/-- Where the fields of a record at `base` are stored. -/
def layout (base : Nat) : List Field → List Store
  | [] => []
  | f :: r => ⟨base, f⟩ :: layout (base + f.width) r

section packing
variable {r : List Field} {f : Field} {i : Nat}

@[simp] theorem size_nil : size [] = 0 := rfl

@[simp] theorem size_cons (f : Field) (r : List Field) : size (f :: r) = f.width + size r := rfl

theorem pack_cons (f : Field) (r : List Field) :
    pack (f :: r) = digits f.width f.value ++ pack r := List.flatMap_cons

@[simp] theorem pack_length (r : List Field) : (pack r).length = size r := by
  induction r with
  | nil => rfl
  | cons f r ih => rw [pack_cons, List.length_append, digits_length, ih, size_cons]

theorem pack_append (r s : List Field) : pack (r ++ s) = pack r ++ pack s := List.flatMap_append

theorem unpack_pack (h : ∀ f ∈ r, f.Fits) (rest : List (BitVec 8)) :
    unpack (r.map Field.width) (pack r ++ rest) = r.map Field.value := by
  induction r with
  | nil => rfl
  | cons f r ih =>
    obtain ⟨hf, hr⟩ := List.forall_mem_cons.mp h
    have hlength : (digits f.width f.value).length = f.width := digits_length _ _
    rw [List.map_cons, unpack, pack_cons, List.append_assoc, List.take_left' hlength,
      List.drop_left' hlength, value_digits hf, ih hr, List.map_cons]

theorem unpackAll_pack (h : ∀ f ∈ r, f.Fits) (rest : List (BitVec 8)) :
    unpackAll (r.map Field.width) (pack r ++ rest) = some (r.map Field.value) := by
  have hlength : (r.map Field.width).sum ≤ (pack r ++ rest).length := by
    rw [List.length_append, pack_length]
    exact Nat.le_add_right _ _
  rw [unpackAll, if_pos hlength, unpack_pack h]

theorem digits_zero {n j : Nat} {b : BitVec 8} (h : (digits n 0)[j]? = some b) : b = 0 := by
  induction n generalizing j with
  | zero => cases h
  | succ n ih =>
    rw [digits] at h
    cases j with
    | zero => exact (Option.some.inj h).symm
    | succ j =>
      rw [List.getElem?_cons_succ, Nat.zero_div] at h
      exact ih h

end packing

section layouts
variable {base : Nat} {r : List Field}

/-- A byte of a field is the byte of the record at that place. -/
theorem layout_byte {s : Store} (hs : s ∈ layout base r) {j : Nat} (hj : j < s.field.width) :
    ∃ i, i < size r ∧ base + i = s.address + j ∧
      (pack r)[i]? = (digits s.field.width s.field.value)[j]? := by
  induction r generalizing base with
  | nil => cases hs
  | cons f r ih =>
    rw [pack_cons, size_cons]
    rcases List.mem_cons.mp hs with rfl | htail
    · refine ⟨j, Nat.lt_add_right _ hj, rfl, ?_⟩
      rw [List.getElem?_append_left (by rwa [digits_length])]
    · obtain ⟨i, hi, haddress, hbyte⟩ := ih htail
      refine ⟨f.width + i, Nat.add_lt_add_left hi _, by omega, ?_⟩
      rw [List.getElem?_append_right (by rw [digits_length]; omega), digits_length,
        Nat.add_sub_cancel_left, hbyte]

theorem layout_covers (base : Nat) {i : Nat} (hi : i < size r) :
    ∃ s ∈ layout base r, ∃ j, j < s.field.width ∧ base + i = s.address + j := by
  induction r generalizing base i with
  | nil => exact absurd hi (Nat.not_lt_zero i)
  | cons f r ih =>
    rw [size_cons] at hi
    by_cases hfirst : i < f.width
    · exact ⟨⟨base, f⟩, List.mem_cons_self, i, hfirst, rfl⟩
    · obtain ⟨s, hs, j, hj, haddress⟩ := ih (base + f.width) (i := i - f.width) (by omega)
      exact ⟨s, List.mem_cons_of_mem _ hs, j, hj, by omega⟩

/-- A field lies inside its record. -/
theorem layout_inside {s : Store} (hs : s ∈ layout base r) :
    base ≤ s.address ∧ s.address + s.field.width ≤ base + size r := by
  induction r generalizing base with
  | nil => cases hs
  | cons f r ih =>
    rw [size_cons]
    rcases List.mem_cons.mp hs with rfl | htail
    · exact ⟨Nat.le_refl _, by dsimp only; omega⟩
    · obtain ⟨hlow, hhigh⟩ := ih htail
      omega

end layouts

section storing
variable {m : Bytes} {stores : List Store} {base n : Nat} {r : List Field}

def Store.bytes (s : Store) : List (Nat × BitVec 8) :=
  Writes.inOrder s.address (digits s.field.width s.field.value)

theorem storeAll_eq (m : Bytes) (stores : List Store) :
    storeAll m stores = Writes.apply m (stores.flatMap Store.bytes) := by
  induction stores generalizing m with
  | nil => rfl
  | cons s stores ih =>
    rw [List.flatMap_cons, Writes.apply_append]
    exact ih _

theorem storeAll_append (m : Bytes) (first second : List Store) :
    storeAll m (first ++ second) = storeAll (storeAll m first) second := List.foldl_append

theorem mem_bytes {s : Store} {w : Nat × BitVec 8} (h : w ∈ s.bytes) :
    ∃ j, j < s.field.width ∧ w.1 = s.address + j ∧
      (digits s.field.width s.field.value)[j]? = some w.2 := by
  obtain ⟨j, hj, hplace⟩ := Writes.mem_inOrder.mp h
  have hlt := (List.getElem?_eq_some_iff.mp hj).1
  rw [digits_length] at hlt
  exact ⟨j, hlt, hplace, hj⟩

theorem exists_byte (s : Store) {j : Nat} (hj : j < s.field.width) :
    ∃ b, (s.address + j, b) ∈ s.bytes ∧ (digits s.field.width s.field.value)[j]? = some b := by
  have hdigit : j < (digits s.field.width s.field.value).length := by rwa [digits_length]
  have hget := List.getElem?_eq_getElem hdigit
  exact ⟨_, Writes.mem_inOrder.mpr ⟨j, hget, rfl⟩, hget⟩

theorem storeAll_other {x : Nat}
    (h : ∀ s ∈ stores, x < s.address ∨ s.address + s.field.width ≤ x) :
    storeAll m stores x = m x := by
  rw [storeAll_eq]
  apply Writes.apply_other
  intro w hw
  obtain ⟨s, hs, hmem⟩ := List.mem_flatMap.mp hw
  obtain ⟨j, hj, hplace, -⟩ := mem_bytes hmem
  have hout := h s hs
  omega

theorem storeAll_zero {x : Nat} (hzero : ∀ s ∈ stores, s.field.value = 0)
    (hcovered : ∃ s ∈ stores, s.address ≤ x ∧ x < s.address + s.field.width) :
    storeAll m stores x = 0 := by
  rw [storeAll_eq]
  have hbyte : ∀ w ∈ stores.flatMap Store.bytes, w.2 = 0 := by
    intro w hw
    obtain ⟨s, hs, hmem⟩ := List.mem_flatMap.mp hw
    obtain ⟨j, -, -, hdigit⟩ := mem_bytes hmem
    rw [hzero s hs] at hdigit
    exact digits_zero hdigit
  apply Writes.apply_written
  · obtain ⟨s, hs, hlow, hhigh⟩ := hcovered
    obtain ⟨b, hb, -⟩ := exists_byte s (j := x - s.address) (by omega)
    exact ⟨_, List.mem_flatMap.mpr ⟨s, hs, hb⟩, Nat.add_sub_cancel' hlow⟩
  · exact fun w hw _ => hbyte w hw

@[simp] theorem readBytes_length (m : Bytes) (a n : Nat) : (readBytes m a n).length = n := by
  simp [readBytes]

theorem readBytes_getElem {a i : Nat} (hi : i < (readBytes m a n).length) :
    (readBytes m a n)[i] = m (a + i) := by
  simp [readBytes]

/-- However its fields are stored, a record whose other fields were zero stands in memory; stores
beside it do not matter. -/
theorem readBytes_storeAll
    (hplaced : ∀ s ∈ stores, s ∈ layout base r ∨
      NoOverlap s.address s.field.width base (size r))
    (hcomplete : ∀ s ∈ layout base r, s ∈ stores ∨ s.field.value = 0)
    (hclear : ∀ x, base ≤ x → x < base + size r → m x = 0) :
    readBytes (storeAll m stores) base (size r) = pack r := by
  apply List.ext_getElem
  · rw [readBytes_length, pack_length]
  intro i hi hi'
  have hlt : i < size r := pack_length r ▸ hi'
  obtain ⟨s, hs, j, hj, haddress⟩ := layout_covers base hlt
  rw [readBytes_getElem, storeAll_eq]
  have hbyte : ∀ s' ∈ layout base r, ∀ j' b, j' < s'.field.width →
      base + i = s'.address + j' → (digits s'.field.width s'.field.value)[j']? = some b →
      b = (pack r)[i] := by
    intro s' hs' j' b hj' haddress' hdigit
    obtain ⟨i', -, heq, hpack⟩ := layout_byte hs' hj'
    obtain rfl : i' = i := by omega
    rw [hdigit, List.getElem?_eq_getElem hi'] at hpack
    exact (Option.some.inj hpack).symm
  obtain ⟨b, hb, hdigit⟩ := exists_byte s hj
  have hwrites : ∀ w ∈ stores.flatMap Store.bytes, w.1 = base + i → w.2 = (pack r)[i] := by
    intro w hw hplace
    obtain ⟨s', hs', hmem⟩ := List.mem_flatMap.mp hw
    obtain ⟨j', hj', hplace', hdigit'⟩ := mem_bytes hmem
    rcases hplaced s' hs' with hin | hout
    · exact hbyte s' hin j' w.2 hj' (hplace.symm.trans hplace') hdigit'
    · unfold NoOverlap at hout
      omega
  rcases hcomplete s hs with hstored | hzero
  · apply Writes.apply_written _ _ hwrites
    exact ⟨_, List.mem_flatMap.mpr ⟨s, hstored, hb⟩, haddress.symm⟩
  · apply Writes.apply_kept _ _ hwrites
    rw [← hbyte s hs j b hj haddress hdigit, hclear _ (Nat.le_add_right ..) (by omega)]
    rw [hzero] at hdigit
    exact (digits_zero hdigit).symm

theorem readBytes_cleared {clears : List Store} (hzero : ∀ s ∈ clears, s.field.value = 0)
    (hcovered : ∃ s ∈ clears, s.address ≤ base ∧ base + size r ≤ s.address + s.field.width)
    (hplaced : ∀ s ∈ stores, s ∈ layout base r ∨
      NoOverlap s.address s.field.width base (size r))
    (hcomplete : ∀ s ∈ layout base r, s ∈ stores ∨ s.field.value = 0) :
    readBytes (storeAll m (clears ++ stores)) base (size r) = pack r := by
  rw [storeAll_append]
  apply readBytes_storeAll hplaced hcomplete
  intro x hlow hhigh
  obtain ⟨s, hs, hfirst, hlast⟩ := hcovered
  exact storeAll_zero hzero ⟨s, hs, by omega, by omega⟩

theorem writeBytes_outside {bytes : List (BitVec 8)} {a x : Nat}
    (h : x < a ∨ a + bytes.length ≤ x) : writeBytes m a bytes x = m x := by
  apply Writes.apply_other
  intro w hw heq
  obtain ⟨i, hi, hplace⟩ := Writes.mem_inOrder.mp hw
  obtain ⟨hlt, -⟩ := List.getElem?_eq_some_iff.mp hi
  omega

theorem loadBytes_writeBytes {bytes : List (BitVec 8)} (a : Nat) (h : n ≤ bytes.length) :
    loadBytes (writeBytes m a bytes) a n = value (bytes.take n) := by
  unfold loadBytes
  congr 1
  apply List.ext_getElem
  · simp [h]
  · intro i hi hi'
    rw [List.length_take] at hi'
    rw [List.getElem_map, List.getElem_range, List.getElem_take]
    exact Writes.apply_inOrder m (List.getElem?_eq_getElem (by omega))

/-- The first number of a record is read back, also where the record is cut off behind it. -/
theorem loadBytes_writeBytes_pack {f : Field} (hf : f.Fits) (r : List Field) (a : Nat)
    (hn : f.width ≤ n) :
    loadBytes (writeBytes m a ((pack (f :: r)).take n)) a f.width = f.value := by
  have hlength : (digits f.width f.value).length = f.width := digits_length _ _
  rw [loadBytes_writeBytes, List.take_take, Nat.min_eq_left hn, pack_cons,
    List.take_left' hlength, value_digits hf]
  rw [List.length_take, pack_length, size_cons]
  omega

end storing

end Records
