import SelfmadeOS.RadixTree
import SelfmadeOS.Translation

/-!
# The address space that the tables in memory denote

`Space` is the abstract view of the tables: where the table of each path of indices lies, and
which descriptor each page has. `Space.ofMem` reads it from memory the way `mmu.c` reads
tables (bit 0 decides). The three operations below are all that a run does to it.
-/

namespace SelfmadeOS
set_option autoImplicit false
open RadixTree

def child (m : Mem) (table : Nat) (i : Index) : Option Nat :=
  if m table i &&& 1 = 0 then none else some (m table i &&& addressMask)

def leaf (m : Mem) (table : Nat) (i : Index) : Option Nat :=
  if m table i &&& 1 = 0 then none else some (m table i)

theorem child_of_invalid {m : Mem} {table : Nat} {i : Index} (h : m table i &&& 1 = 0) :
    child m table i = none := if_pos h

theorem leaf_of_invalid {m : Mem} {table : Nat} {i : Index} (h : m table i &&& 1 = 0) :
    leaf m table i = none := if_pos h

theorem tableIndex_val (va shift : Nat) : (tableIndex va shift).val = va / 2 ^ shift % 512 :=
  Words.shift_and va shift 9

@[simp] theorem l0Index_val (va : Nat) : (l0Index va).val = va / 2 ^ 39 % 512 :=
  tableIndex_val va 39

@[simp] theorem l1Index_val (va : Nat) : (l1Index va).val = va / 2 ^ 30 % 512 :=
  tableIndex_val va 30

@[simp] theorem l2Index_val (va : Nat) : (l2Index va).val = va / 2 ^ 21 % 512 :=
  tableIndex_val va 21

@[simp] theorem l3Index_val (va : Nat) : (l3Index va).val = va / 2 ^ 12 % 512 :=
  tableIndex_val va 12

/-- The indices that lead to the L3 table of an address. -/
def tablePath (va : Nat) : List Index := [l0Index va, l1Index va, l2Index va]

@[simp] theorem tablePath_length (va : Nat) : (tablePath va).length = 3 := rfl

/-- A page the tables can name: page-aligned and below 48 bits. -/
def IsPage (page : Nat) : Prop := page % 4096 = 0 ∧ page < 2 ^ 48

instance (page : Nat) : Decidable (IsPage page) := instDecidableAnd

theorem page_eq_of_indices {a b : Nat} (ha : IsPage a) (hb : IsPage b)
    (hpath : tablePath a = tablePath b) (hindex : l3Index a = l3Index b) : a = b := by
  simp only [tablePath, List.cons.injEq, and_true, Fin.ext_iff, l0Index_val, l1Index_val,
    l2Index_val, l3Index_val] at hpath hindex
  obtain ⟨ha, ha'⟩ := ha
  obtain ⟨hb, hb'⟩ := hb
  omega

theorem exists_page (i0 i1 i2 i3 : Index) :
    ∃ a, IsPage a ∧ tablePath a = [i0, i1, i2] ∧ l3Index a = i3 := by
  refine ⟨(((i0.val * 512 + i1.val) * 512 + i2.val) * 512 + i3.val) * 4096, ⟨?_, ?_⟩, ?_, ?_⟩
  · omega
  · omega
  · simp only [tablePath, List.cons.injEq, and_true, Fin.ext_iff, l0Index_val, l1Index_val,
      l2Index_val]
    omega
  · simp only [Fin.ext_iff, l3Index_val]
    omega

theorem and_addressMask (word : Nat) : word &&& addressMask = word / 4096 % 2 ^ 36 * 4096 :=
  Words.and_field word 36 12

theorem link_eq {page : Nat} (hpage : page % 4096 = 0) : page ||| pageTableAttributes = page + 3 :=
  Words.or_eq_add 12 (Nat.dvd_of_mod_eq_zero hpage) (by decide)

theorem normal_eq {page : Nat} (hpage : page % 4096 = 0) :
    pageAttributesForNormalMemory ||| page = page + 0x703 := by
  rw [Nat.or_comm]
  exact Words.or_eq_add 12 (Nat.dvd_of_mod_eq_zero hpage) (by decide)

theorem device_eq {page : Nat} (hpage : IsPage page) :
    pageAttributesForDeviceMemory ||| page = page + 0x60000000000707 := by
  obtain ⟨haligned, hlt⟩ := hpage
  have hlow : 0x707 ||| page = page + 0x707 := by
    rw [Nat.or_comm]
    exact Words.or_eq_add 12 (Nat.dvd_of_mod_eq_zero haligned) (by decide)
  have hhigh : 0b11 <<< 53 ||| (page + 0x707) = 0b11 <<< 53 + (page + 0x707) :=
    Words.or_eq_add 53 (by decide) (by omega)
  rw [pageAttributesForDeviceMemory, Nat.or_assoc, show 0b11100000111 = 0x707 by rfl, hlow, hhigh]
  omega

/-- The descriptor `mmu_map_4kb` writes for a page; attribute index 0 is normal memory. -/
def descriptor (attrIdx page : Nat) : Nat :=
  if attrIdx = 0 then pageAttributesForNormalMemory ||| page
  else pageAttributesForDeviceMemory ||| page

def attributesOf (attrIdx : Nat) : Nat :=
  if attrIdx = 0 then pageAttributesForNormalMemory else pageAttributesForDeviceMemory

theorem descriptor_eq {attrIdx page : Nat} (hpage : IsPage page) :
    descriptor attrIdx page = page + attributesOf attrIdx := by
  unfold descriptor attributesOf
  split
  · exact normal_eq hpage.1
  · exact device_eq hpage

theorem and_one (word : Nat) : word &&& 1 = word % 2 := Nat.and_two_pow_sub_one_eq_mod word 1

theorem and_three (word : Nat) : word &&& 3 = word % 4 := Nat.and_two_pow_sub_one_eq_mod word 2

theorem attributesOf_mod (attrIdx : Nat) :
    attributesOf attrIdx % 4096 % 4 = 3 ∧ attributesOf attrIdx / 2 ^ 48 * 2 ^ 48 +
      attributesOf attrIdx % 4096 = attributesOf attrIdx := by
  unfold attributesOf
  split <;> decide

theorem link_address {page : Nat} (hpage : IsPage page) : (page + 3) &&& addressMask = page := by
  obtain ⟨haligned, hlt⟩ := hpage
  rw [and_addressMask]
  omega

theorem descriptor_address {attrIdx page : Nat} (hpage : IsPage page) :
    descriptor attrIdx page &&& addressMask = page := by
  have hattr := attributesOf_mod attrIdx
  rw [descriptor_eq hpage, and_addressMask]
  obtain ⟨haligned, hlt⟩ := hpage
  omega

theorem descriptor_low (attrIdx : Nat) {page : Nat} (hpage : IsPage page) :
    descriptor attrIdx page % 4 = 3 := by
  have hattr := attributesOf_mod attrIdx
  rw [descriptor_eq hpage]
  obtain ⟨haligned, hlt⟩ := hpage
  omega

theorem child_link {m : Mem} {table page : Nat} {i : Index} (hpage : IsPage page)
    (h : m table i = page + 3) : child m table i = some page := by
  have hvalid : ¬ m table i &&& 1 = 0 := by
    obtain ⟨haligned, _⟩ := hpage
    rw [h, and_one]
    omega
  rw [child, if_neg hvalid, h, link_address hpage]

theorem leaf_descriptor {m : Mem} (attrIdx : Nat) {table page : Nat} {i : Index}
    (hpage : IsPage page)
    (h : m table i = descriptor attrIdx page) :
    leaf m table i = some (descriptor attrIdx page) := by
  have hlow := descriptor_low attrIdx hpage
  have hvalid : ¬ m table i &&& 1 = 0 := by
    rw [h, and_one]
    omega
  rw [leaf, if_neg hvalid, h]

@[ext] structure Space where
  tables : List Index → Option Nat
  pages : Nat → Option Nat

namespace Space

def Injective (σ : Space) : Prop :=
  ∀ p q t, σ.tables p = some t → σ.tables q = some t → p = q

def ofMem (m : Mem) : Space where
  tables path := if path.length ≤ 3 then descend (child m) l0Table path else none
  pages page :=
    if IsPage page then
      (descend (child m) l0Table (tablePath page)).bind fun t => leaf m t (l3Index page)
    else none

/-- The pages of the block that a call maps when its tables are there down to level `present`. -/
def TakesPage (block present page : Nat) : Prop :=
  page = block ∨ (present < 3 ∧ page = block + 3 * pageSize) ∨
    (present < 2 ∧ page = block + 2 * pageSize) ∨ (present < 1 ∧ page = block + pageSize)

instance (block present page : Nat) : Decidable (TakesPage block present page) := instDecidableOr

/-- `map_page_for_pagetable`: the missing tables of the block's own region become pages of the
block, page `j` at level `j`, and they and the first page are mapped. -/
def takeBlock (σ : Space) (block present : Nat) : Space where
  tables path :=
    if present < path.length ∧ (tablePath block).take (present + 1) <+: path then
      if path <+: tablePath block then some (block + path.length * pageSize) else none
    else σ.tables path
  pages page :=
    if TakesPage block present page then some (descriptor 0 page) else σ.pages page

def linkTable (σ : Space) (path : List Index) (table : Nat) : Space where
  tables p := if path <+: p then if p = path then some table else none else σ.tables p
  pages page := if path <+: tablePath page then none else σ.pages page

def mapPage (σ : Space) (page word : Nat) : Space where
  tables := σ.tables
  pages a := if a = page then some word else σ.pages a

end Space

end SelfmadeOS
