import SelfmadeOS.AddressSpace

/-!
# What changes of memory do to the address space

Each operation on tables changes one slot of one live table and otherwise only pages that are
no live table. These are the refinement steps: the memory after it denotes the abstract
operation applied to what the memory before it denotes.
-/

namespace SelfmadeOS
set_option autoImplicit false
open RadixTree

namespace Space

theorem ofMem_tables {m : Mem} {path : List Index} (h : path.length ≤ 3) :
    (ofMem m).tables path = descend (child m) l0Table path := if_pos h

theorem ofMem_tables_long {m : Mem} {path : List Index} (h : 3 < path.length) :
    (ofMem m).tables path = none := if_neg (by omega)

theorem ofMem_tables_length {m : Mem} {path : List Index} {t : Nat}
    (h : (ofMem m).tables path = some t) : path.length ≤ 3 := by
  by_contra hlen
  simp [ofMem, hlen] at h

theorem ofMem_pages {m : Mem} {page : Nat} (h : IsPage page) : (ofMem m).pages page =
    ((ofMem m).tables (tablePath page)).bind fun t => leaf m t (l3Index page) := by
  rw [ofMem_tables (by simp)]
  exact if_pos h

theorem ofMem_pages_isPage {m : Mem} {page w : Nat} (h : (ofMem m).pages page = some w) :
    IsPage page := by
  by_contra hpage
  simp [ofMem, hpage] at h

@[simp] theorem ofMem_root (m : Mem) : (ofMem m).tables [] = some l0Table := rfl

theorem ofMem_concat {m : Mem} {path : List Index} (i : Index) (h : path.length ≤ 2) :
    (ofMem m).tables (path ++ [i]) = ((ofMem m).tables path).bind fun t => child m t i := by
  have hlen : (path ++ [i]).length ≤ 3 := by
    rw [List.length_append, List.length_singleton]
    omega
  rw [ofMem_tables hlen, ofMem_tables (by omega), descend_concat]

theorem ofMem_prefix {m : Mem} {p q : List Index} {t : Nat} (hpq : p <+: q)
    (h : (ofMem m).tables q = some t) : ∃ u, (ofMem m).tables p = some u := by
  have hq := ofMem_tables_length h
  have hp := hpq.length_le
  rw [ofMem_tables hq] at h
  rw [ofMem_tables (by omega)]
  exact descend_prefix _ _ hpq h

theorem ofMem_page_table {m : Mem} {page w : Nat} (h : (ofMem m).pages page = some w) :
    ∃ t, (ofMem m).tables (tablePath page) = some t ∧ leaf m t (l3Index page) = some w := by
  rw [ofMem_pages (ofMem_pages_isPage h)] at h
  exact Option.bind_eq_some_iff.mp h

theorem Injective.unshared {m : Mem} (h : (ofMem m).Injective) :
    Unshared (child m) l0Table 3 := by
  intro p q t hp hq hpt hqt
  exact h p q t (by rwa [ofMem_tables hp]) (by rwa [ofMem_tables hq])

theorem ofMem_congr {m m' : Mem}
    (h : ∀ p f j, (ofMem m).tables p = some f → m' f j = m f j) : ofMem m' = ofMem m := by
  have htables : (ofMem m').tables = (ofMem m).tables := by
    funext q
    by_cases hq : q.length ≤ 3
    · rw [ofMem_tables hq, ofMem_tables hq]
      apply descend_congr
      intro p f i hp hf
      rw [← ofMem_tables (by omega)] at hf
      simp only [child, h p f i hf]
    · rw [ofMem_tables_long (by omega), ofMem_tables_long (by omega)]
  ext1
  · exact htables
  · funext a
    by_cases ha : IsPage a
    · rw [ofMem_pages ha, ofMem_pages ha, htables]
      cases ht : (ofMem m).tables (tablePath a) with
      | none => rfl
      | some t => simp only [Option.bind_some, leaf, h _ _ _ ht]
    · simp [ofMem, ha]

/-- Of the words in live tables only slot `i` of `table` differs. -/
structure SlotChange (m m' : Mem) (path : List Index) (table : Nat) (i : Index) : Prop where
  at_path : (ofMem m).tables path = some table
  frame : ∀ p f j, (ofMem m).tables p = some f → f ≠ table ∨ j ≠ i → m' f j = m f j

namespace SlotChange
variable {m m' : Mem} {path : List Index} {table : Nat} {i : Index}
variable (change : SlotChange m m' path table i)
include change

theorem changesSlot : ChangesSlot (child m) (child m') l0Table 3 path table i where
  at_path := by
    rw [← ofMem_tables (ofMem_tables_length change.at_path)]
    exact change.at_path
  short := ofMem_tables_length change.at_path
  frame := by
    intro p f j hp hf hne
    have h := change.frame p f j (by rwa [ofMem_tables hp]) hne
    simp only [child, h]

variable (inj : (ofMem m).Injective)
include inj

theorem tables_of_not_prefix {q : List Index} (hno : ¬ path ++ [i] <+: q) :
    (ofMem m').tables q = (ofMem m).tables q := by
  by_cases hq : q.length ≤ 3
  · rw [ofMem_tables hq, ofMem_tables hq]
    exact change.changesSlot.descend_of_not_prefix inj.unshared (by omega) hno
  · simp [ofMem, hq]

theorem tables_through {q : List Index} (hq : path.length + 1 + q.length ≤ 3) :
    (ofMem m').tables (path ++ i :: q) =
      (child m' table i).bind fun g => descend (child m') g q := by
  rw [ofMem_tables (by simp only [List.length_append, List.length_cons]; omega)]
  exact change.changesSlot.descend_through inj.unshared q

theorem pages_of_not_prefix {a : Nat} (hno : ¬ path ++ [i] <+: tablePath a)
    (hne : tablePath a ≠ path ∨ l3Index a ≠ i) : (ofMem m').pages a = (ofMem m).pages a := by
  by_cases ha : IsPage a
  · rw [ofMem_pages ha, ofMem_pages ha, change.tables_of_not_prefix inj hno]
    cases ht : (ofMem m).tables (tablePath a) with
    | none => rfl
    | some t =>
      have hword : m' t (l3Index a) = m t (l3Index a) := by
        apply change.frame (tablePath a) t _ ht
        rcases hne with hpath | hindex
        · refine Or.inl fun heq => hpath ?_
          exact inj _ _ t ht (heq ▸ change.at_path)
        · exact Or.inr hindex
      simp only [Option.bind_some, leaf, hword]
  · simp [ofMem, ha]

theorem linkTable {page : Nat} (hpath : path.length ≤ 2) (hslot : child m' table i = some page)
    (hempty : ∀ j, m' page j &&& 1 = 0) :
    ofMem m' = (ofMem m).linkTable (path ++ [i]) page := by
  have hbelow : ∀ q, (ofMem m').tables (path ++ i :: q) = if q = [] then some page else none := by
    intro q
    by_cases hq : path.length + 1 + q.length ≤ 3
    · rw [change.tables_through inj hq, hslot]
      cases q with
      | nil => rfl
      | cons j q => simp [descend_cons, child_of_invalid (hempty j)]
    · have hlen : 3 < (path ++ i :: q).length := by
        simp only [List.length_append, List.length_cons]
        omega
      have hne : q ≠ [] := by
        rintro rfl
        simp only [List.length_nil] at hq
        omega
      rw [ofMem_tables_long hlen, if_neg hne]
  ext1
  · funext q
    by_cases hq : path ++ [i] <+: q
    · obtain ⟨r, rfl⟩ := hq
      have h := hbelow r
      simp only [Space.linkTable, List.append_assoc, List.cons_append, List.nil_append] at h ⊢
      rw [h]
      simp
    · rw [change.tables_of_not_prefix inj hq]
      simp [Space.linkTable, hq]
  · funext a
    by_cases hq : path ++ [i] <+: tablePath a
    · have ha : (ofMem m').pages a = none := by
        by_cases hpage : IsPage a
        · obtain ⟨r, hr⟩ := hq
          have h := hbelow r
          simp only [List.append_assoc, List.cons_append, List.nil_append] at hr
          rw [ofMem_pages hpage, ← hr, h]
          split
          · exact leaf_of_invalid (hempty _)
          · rfl
        · simp [ofMem, hpage]
      simp [Space.linkTable, hq, ha]
    · rw [change.pages_of_not_prefix inj hq]
      · simp [Space.linkTable, hq]
      · refine Or.inl fun heq => ?_
        have hlen := congrArg List.length heq
        simp at hlen
        omega

theorem mapPage {page word : Nat} (hpage : IsPage page) (hpath : path = tablePath page)
    (hindex : i = l3Index page) (hword : leaf m' table i = some word) :
    ofMem m' = (ofMem m).mapPage page word := by
  have hno : ∀ q : List Index, q.length ≤ 3 → ¬ path ++ [i] <+: q := by
    intro q hq h
    have hlen := h.length_le
    simp only [hpath, List.length_append, tablePath_length, List.length_singleton] at hlen
    omega
  ext1
  · funext q
    by_cases hq : q.length ≤ 3
    · rw [change.tables_of_not_prefix inj (hno q hq)]
      rfl
    · simp [ofMem, Space.mapPage, hq]
  · funext a
    by_cases ha : a = page
    · subst a
      have hnop := hno (tablePath page) (by simp)
      rw [ofMem_pages hpage, change.tables_of_not_prefix inj hnop, ← hpath, change.at_path]
      simp [Space.mapPage, ← hindex, hword]
    · simp only [Space.mapPage, ha, if_false]
      by_cases hap : IsPage a
      · apply change.pages_of_not_prefix inj (hno _ (by simp))
        by_contra hsame
        push Not at hsame
        exact ha (page_eq_of_indices hap hpage (hsame.1.trans hpath) (hsame.2.trans hindex))
      · simp [ofMem, hap]

end SlotChange

end Space

/-- The four pages of the block lie in one 2 MB region, as `palloc_continuous_block` promises. -/
def OneRegion (block : Nat) : Prop := block % blockSizeL2 + 4 * pageSize ≤ blockSizeL2

instance (block : Nat) : Decidable (OneRegion block) := Nat.decLe _ _

namespace OneRegion
variable {block : Nat} (region : OneRegion block) (hpage : IsPage block)
include region hpage

theorem isPage {j : Nat} (hj : j ≤ 3) : IsPage (block + j * pageSize) := by
  obtain ⟨haligned, hlt⟩ := hpage
  simp only [OneRegion, blockSizeL2, pageSize] at region ⊢
  exact ⟨by omega, by omega⟩

theorem tablePath_eq {j : Nat} (hj : j ≤ 3) :
    tablePath (block + j * pageSize) = tablePath block := by
  obtain ⟨haligned, hlt⟩ := hpage
  simp only [OneRegion, blockSizeL2, pageSize] at region
  simp only [tablePath, List.cons.injEq, and_true, Fin.ext_iff, l0Index_val, l1Index_val,
    l2Index_val, pageSize]
  omega

theorem of_takesPage {present a : Nat} (h : Space.TakesPage block present a) :
    IsPage a ∧ tablePath a = tablePath block := by
  rcases h with rfl | ⟨_, rfl⟩ | ⟨_, rfl⟩ | ⟨_, rfl⟩
  · exact ⟨hpage, rfl⟩
  · exact ⟨region.isPage hpage le_rfl, region.tablePath_eq hpage le_rfl⟩
  · exact ⟨region.isPage hpage (by decide), region.tablePath_eq hpage (by decide)⟩
  · have h := And.intro (region.isPage hpage (j := 1)) (region.tablePath_eq hpage (j := 1))
    simpa using h

end OneRegion

namespace Space

/-- Below level `present` the new tables of a block form a single chain. -/
def Chain (m : Mem) (block present : Nat) : Prop :=
  ∀ d j, present < d → d ≤ 2 → child m (block + d * pageSize) j =
    if (tablePath block)[d]? = some j then some (block + (d + 1) * pageSize) else none

theorem Chain.descend {m : Mem} {block present : Nat} (chain : Chain m block present)
    {d : Nat} (hd : present < d) {q : List Index} (hq : d + q.length ≤ 3) :
    descend (child m) (block + d * pageSize) q =
      if q <+: (tablePath block).drop d then some (block + (d + q.length) * pageSize)
      else none := by
  induction q generalizing d with
  | nil => simp
  | cons j q ih =>
    simp only [List.length_cons] at hq
    have hlt : d < (tablePath block).length := by
      rw [tablePath_length]
      omega
    rw [descend_cons, chain d j hd (by omega), List.drop_eq_getElem_cons hlt,
      List.getElem?_eq_getElem hlt]
    by_cases hj : (tablePath block)[d] = j
    · have h := ih (Nat.lt_succ_of_lt hd) (by omega)
      have hsum : d + 1 + q.length = d + (q.length + 1) := by omega
      rw [hsum] at h
      simp only [hj, if_true, Option.bind_some, List.cons_prefix_cons, true_and, List.length_cons]
      exact h
    · rw [if_neg (by simpa using hj), Option.bind_none, if_neg]
      rw [List.cons_prefix_cons]
      exact fun h => hj h.1.symm

theorem pages_of_no_table {m : Mem} {q : List Index} {a : Nat} (hnone : (ofMem m).tables q = none)
    (hq : q <+: tablePath a) : (ofMem m).pages a = none := by
  by_contra hsome
  obtain ⟨w, hw⟩ := Option.ne_none_iff_exists'.mp hsome
  obtain ⟨t, ht, _⟩ := ofMem_page_table hw
  obtain ⟨u, hu⟩ := ofMem_prefix hq ht
  rw [hnone] at hu
  cases hu

section NewTables
variable {path : List Index} {block present : Nat} {i : Index}
  (hpath : path = (tablePath block).take present) (hindex : (tablePath block)[present]? = some i)
include hpath hindex

theorem tablePath_take_succ : (tablePath block).take (present + 1) = path ++ [i] := by
  rw [List.take_add_one, hindex, hpath]
  rfl

theorem tablePath_split :
    path ++ [i] ++ (tablePath block).drop (present + 1) = tablePath block := by
  rw [← tablePath_take_succ hpath hindex, List.take_append_drop]

namespace SlotChange
variable {m m' : Mem} {table : Nat} (change : SlotChange m m' path table i)
  (inj : (ofMem m).Injective) (hpresent : present ≤ 2) (chain : Chain m' block present)
  (hslot : child m' table i = some (block + (present + 1) * pageSize))
include change inj hpresent chain hslot

theorem tables_of_chain (r : List Index) : (ofMem m').tables (path ++ [i] ++ r) =
    if path ++ [i] ++ r <+: tablePath block
    then some (block + (path ++ [i] ++ r).length * pageSize) else none := by
  have hlength : (path ++ [i] ++ r).length = present + 1 + r.length := by
    simp only [hpath, List.length_append, List.length_singleton, List.length_take,
      tablePath_length]
    omega
  have hpre : path ++ [i] ++ r <+: tablePath block ↔
      r <+: (tablePath block).drop (present + 1) := by
    conv_lhs => rw [← tablePath_split hpath hindex]
    exact List.prefix_append_right_inj _
  by_cases hr : present + 1 + r.length ≤ 3
  · have h := change.tables_through inj (q := r) (by
      simp only [List.length_append, List.length_singleton] at hlength
      omega)
    rw [hslot, Option.bind_some, chain.descend (Nat.lt_succ_self present) hr] at h
    rw [List.append_assoc, List.singleton_append, h, ← List.singleton_append,
      ← List.append_assoc, hlength]
    simp only [hpre]
  · rw [ofMem_tables_long (by omega), if_neg]
    intro h
    have hle := h.length_le
    rw [tablePath_length] at hle
    omega

theorem pages_of_chain (hpage : IsPage block) (region : OneRegion block)
    (hnone : (ofMem m).tables (path ++ [i]) = none)
    (hleaf : ∀ a, IsPage a → tablePath a = tablePath block →
      leaf m' (block + 3 * pageSize) (l3Index a) =
        if TakesPage block present a then some (descriptor 0 a) else none)
    {a : Nat} (hq : path ++ [i] <+: tablePath a) :
    (ofMem m').pages a = ((ofMem m).takeBlock block present).pages a := by
  simp only [Space.takeBlock, pages_of_no_table hnone hq]
  by_cases ha : IsPage a
  · obtain ⟨r, hr⟩ := hq
    have h := change.tables_of_chain hpath hindex inj hpresent chain hslot r
    rw [hr] at h
    rw [ofMem_pages ha, h]
    by_cases hsame : tablePath a = tablePath block
    · rw [hsame, if_pos List.prefix_rfl, Option.bind_some, tablePath_length]
      exact hleaf a ha hsame
    · rw [if_neg, if_neg fun h => hsame (region.of_takesPage hpage h).2]
      · rfl
      · intro h
        exact hsame (h.eq_of_length (by simp))
  · rw [if_neg fun h => ha (region.of_takesPage hpage h).1]
    simp [ofMem, ha]

end SlotChange

end NewTables

/-- The store of the link to a chain of new tables, with all of the block in one region. -/
theorem SlotChange.takeBlock {m m' : Mem} {path : List Index} {table block present : Nat}
    {i : Index} (change : SlotChange m m' path table i) (inj : (ofMem m).Injective)
    (hpresent : present ≤ 2) (hpage : IsPage block) (region : OneRegion block)
    (hpath : path = (tablePath block).take present) (hindex : (tablePath block)[present]? = some i)
    (hmissing : child m table i = none)
    (hslot : child m' table i = some (block + (present + 1) * pageSize))
    (chain : Chain m' block present)
    (hleaf : ∀ a, IsPage a → tablePath a = tablePath block →
      leaf m' (block + 3 * pageSize) (l3Index a) =
        if TakesPage block present a then some (descriptor 0 a) else none) :
    ofMem m' = (ofMem m).takeBlock block present := by
  have hlen : path.length = present := by
    rw [hpath, List.length_take, tablePath_length]
    omega
  have hnone : (ofMem m).tables (path ++ [i]) = none := by
    rw [ofMem_concat i (by omega), change.at_path]
    exact hmissing
  ext1
  · funext q
    simp only [Space.takeBlock, tablePath_take_succ hpath hindex]
    by_cases hq : path ++ [i] <+: q
    · obtain ⟨r, rfl⟩ := hq
      have hlt : present < (path ++ [i] ++ r).length := by simp [hlen]
      rw [change.tables_of_chain hpath hindex inj hpresent chain hslot r]
      exact (if_pos ⟨hlt, List.prefix_append _ _⟩).symm
    · rw [change.tables_of_not_prefix inj hq, if_neg fun h => hq h.2]
  · funext a
    by_cases hq : path ++ [i] <+: tablePath a
    · exact change.pages_of_chain hpath hindex inj hpresent chain hslot hpage region hnone hleaf hq
    · simp only [Space.takeBlock]
      rw [change.pages_of_not_prefix inj hq, if_neg]
      · intro h
        apply hq
        rw [(region.of_takesPage hpage h).2, ← tablePath_split hpath hindex]
        exact List.prefix_append _ _
      · refine Or.inl fun heq => ?_
        have h := congrArg List.length heq
        rw [tablePath_length] at h
        omega

/-- With all tables there, only the first page of the block is mapped. -/
theorem takeBlock_present (m : Mem) (block : Nat) :
    (ofMem m).takeBlock block 3 = (ofMem m).mapPage block (descriptor 0 block) := by
  ext1
  · funext q
    by_cases hq : 3 < q.length
    · rw [Space.mapPage, ofMem_tables_long hq]
      simp only [Space.takeBlock]
      split
      · rw [if_neg]
        intro h
        have hle := h.length_le
        rw [tablePath_length] at hle
        omega
      · exact ofMem_tables_long hq
    · simp [Space.takeBlock, Space.mapPage, hq]
  · funext a
    by_cases ha : a = block
    · simp [Space.takeBlock, Space.mapPage, TakesPage, ha]
    · simp [Space.takeBlock, Space.mapPage, TakesPage, ha]

end Space

end SelfmadeOS
