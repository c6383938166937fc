import SelfmadeOS.MappingInvariant

/-!
# The hardware's walk and the address space

Where every valid word of a live table is a table or page descriptor, the hardware translates
an address by the page that the address space has for it.
-/

namespace SelfmadeOS
set_option autoImplicit false
open Space RadixTree

def pageOf (va : Nat) : Nat := va / 4096 * 4096

/-- Valid words of live tables are table or page descriptors. -/
def OnlyDescriptors (m : Mem) : Prop :=
  ∀ p f j, (ofMem m).tables p = some f → m f j &&& 1 ≠ 0 → m f j % 4 = 3

theorem AllAuthored.onlyDescriptors {s : Machine} (h : AllAuthored s) : OnlyDescriptors s.mem :=
  fun p f j hf hvalid => (h p f j hf hvalid).1

theorem tablePath_pageOf (va : Nat) : tablePath (pageOf va) = tablePath va := by
  simp only [tablePath, List.cons.injEq, and_true, Fin.ext_iff, l0Index_val, l1Index_val,
    l2Index_val, pageOf]
  omega

theorem l3Index_pageOf (va : Nat) : l3Index (pageOf va) = l3Index va := by
  simp only [Fin.ext_iff, l3Index_val, pageOf]
  omega

theorem pageOf_isPage {va : Nat} (h : va < addressLimit) : IsPage (pageOf va) := by
  simp only [addressLimit] at h
  simp only [IsPage, pageOf]
  omega

section Walk
variable {m : Mem} {table : Nat} (only : ∀ j, m table j &&& 1 ≠ 0 → m table j % 4 = 3)
include only

theorem descriptor_type (j : Index) : if m table j &&& 1 = 0
    then m table j &&& 3 ≠ 3 ∧ m table j &&& 3 ≠ 1 else m table j &&& 3 = 3 := by
  split
  · rename_i h
    rw [and_one] at h
    rw [and_three]
    omega
  · rw [and_three]
    exact only j ‹_›

theorem translateL3_eq (va : Nat) :
    translateL3 m table va = (leaf m table (l3Index va)).map fun word => mapped word 12 va := by
  have htype := descriptor_type only (l3Index va)
  rw [translateL3, leaf]
  split at htype
  · rw [if_neg htype.1, if_pos ‹_›]
    rfl
  · rw [if_pos htype, if_neg ‹_›]
    rfl

theorem translateL2_eq (va : Nat) : translateL2 m table va =
    (child m table (l2Index va)).bind fun next => translateL3 m next va := by
  have htype := descriptor_type only (l2Index va)
  rw [translateL2, child]
  split at htype
  · rw [if_neg htype.1, if_neg htype.2, if_pos ‹_›]
    rfl
  · rw [if_pos htype, if_neg ‹_›]
    rfl

theorem translateL1_eq (va : Nat) : translateL1 m table va =
    (child m table (l1Index va)).bind fun next => translateL2 m next va := by
  have htype := descriptor_type only (l1Index va)
  rw [translateL1, child]
  split at htype
  · rw [if_neg htype.1, if_neg htype.2, if_pos ‹_›]
    rfl
  · rw [if_pos htype, if_neg ‹_›]
    rfl

end Walk

theorem translate_l0 {m : Mem} (only : ∀ j, m l0Table j &&& 1 ≠ 0 → m l0Table j % 4 = 3) {va : Nat}
    (hva : va < addressLimit) : translate m va =
      (child m l0Table (l0Index va)).bind fun next => translateL1 m next va := by
  have htype := descriptor_type only (l0Index va)
  rw [translate, child, if_pos hva]
  split at htype
  · rw [if_neg htype.1, if_pos ‹_›]
    rfl
  · rw [if_pos htype, if_neg ‹_›]
    rfl

theorem OnlyDescriptors.translate_eq {m : Mem} (only : OnlyDescriptors m) {va : Nat}
    (hva : va < addressLimit) :
    translate m va = ((ofMem m).pages (pageOf va)).map fun word => mapped word 12 va := by
  have hstep : ∀ {p : List Index} {t : Nat} {i : Index} {next : Nat}, p.length ≤ 2 →
      (ofMem m).tables p = some t → child m t i = some next →
      (ofMem m).tables (p ++ [i]) = some next := by
    intro p t i next hlen ht hnext
    rw [ofMem_concat i hlen, ht, Option.bind_some, hnext]
  rw [ofMem_pages (pageOf_isPage hva), tablePath_pageOf, l3Index_pageOf, ofMem_tables (by simp),
    tablePath, descend_cons, translate_l0 (only [] _ · (ofMem_root m)) hva]
  cases h1 : child m l0Table (l0Index va) with
  | none => rfl
  | some l1 =>
    have ht1 := hstep (by simp) (ofMem_root m) h1
    rw [Option.bind_some, Option.bind_some, descend_cons, translateL1_eq (only _ _ · ht1)]
    cases h2 : child m l1 (l1Index va) with
    | none => rfl
    | some l2 =>
      have ht2 := hstep (by simp) ht1 h2
      rw [Option.bind_some, Option.bind_some, descend_cons, translateL2_eq (only _ _ · ht2)]
      cases h3 : child m l2 (l2Index va) with
      | none => rfl
      | some l3 =>
        have ht3 := hstep (by simp) ht2 h3
        rw [Option.bind_some, Option.bind_some, translateL3_eq (only _ _ · ht3)]
        rfl

/-- What the hardware makes of a page that is mapped to itself. -/
theorem mapped_descriptor {attrIdx va : Nat} (hva : va < addressLimit) :
    mapped (descriptor attrIdx (pageOf va)) 12 va = ⟨va, attributesOf attrIdx⟩ := by
  have hpage := pageOf_isPage hva
  have hsum : pageOf va / 2 ^ 12 * 2 ^ 12 + va % 2 ^ 12 = va := by
    simp only [pageOf]
    omega
  rw [mapped, descriptor_address hpage, descriptor_eq hpage, hsum, Nat.add_sub_cancel_left]

theorem OnlyDescriptors.translate_descriptor {m : Mem} (only : OnlyDescriptors m) (attrIdx : Nat)
    {va : Nat} (hva : va < addressLimit)
    (h : (ofMem m).pages (pageOf va) = some (descriptor attrIdx (pageOf va))) :
    translate m va = some ⟨va, attributesOf attrIdx⟩ := by
  rw [only.translate_eq hva, h, Option.map_some, mapped_descriptor hva]

/-- The entry is a table descriptor for `next`. -/
structure Links (m : Mem) (table : Nat) (i : Index) (next : Nat) : Prop where
  type : m table i &&& 3 = 3
  address : m table i &&& addressMask = next

theorem links_of_eq {m : Mem} {table page : Nat} {i : Index} (hpage : IsPage page)
    (h : m table i = page + 3) : Links m table i page := by
  have haligned := hpage.1
  refine ⟨?_, h ▸ link_address hpage⟩
  rw [h, and_three]
  omega

theorem Links.congr {m m' : Mem} {table next : Nat} {i : Index} (h : Links m table i next)
    (heq : m' table i = m table i) : Links m' table i next := ⟨heq ▸ h.type, heq ▸ h.address⟩

theorem translate_links {m : Mem} {va l1 l2 l3 : Nat} (hva : va < addressLimit)
    (h1 : Links m l0Table (l0Index va) l1) (h2 : Links m l1 (l1Index va) l2)
    (h3 : Links m l2 (l2Index va) l3) : translate m va = translateL3 m l3 va := by
  simp only [translate, translateL1, translateL2, hva, if_true, h1.type, h1.address, h2.type,
    h2.address, h3.type, h3.address]

end SelfmadeOS
