import SelfmadeOS.Grafting
import SelfmadeOS.RunRecord

/-!
# The invariant of the mapping code

The tables form a tree of frames below the bump pointer, every page they map is an identity
mapping that somebody asked for, and nothing at or above the bump pointer is mapped. The
invariant is stated relative to a `Setting`, which fixes where RAM ends and which of the
optional assumptions (and the parts of the invariant that rest on them) are in force.
-/

namespace SelfmadeOS
set_option autoImplicit false
open StateRuns Space

structure Setting where
  layout : Layout
  ramEnd : Nat
  room : layout.kernelEnd ≤ ramEnd
  limit : ramEnd ≤ addressLimit
  zeroHeap : Prop
  noOwnSlot : Prop
  tidy : Prop

/-- The attribute index a page is mapped with: normal for RAM, device for the rest. -/
def attrIdxOf (ramEnd page : Nat) : Nat :=
  if initPageL0 ≤ page ∧ page < ramEnd then 0 else 1

/-- The block lies below the very slot whose table is being supplied. -/
def OwnSlot (c : TableCall) : Prop :=
  (tablePath c.va).take c.level = (tablePath c.before.block).take c.level

instance (c : TableCall) : Decidable (OwnSlot c) :=
  inferInstanceAs (Decidable (_ = _))

/-- The tables of the region of the next block are there down to level `n`. -/
def Kernel.HasTable (k : Kernel) (n : Nat) : Prop :=
  ∃ t, (ofMem k.mem).tables ((tablePath k.block).take n) = some t

/-- The temporary pages are no tables and hold zeros. -/
def TemporariesClean (k : Kernel) : Prop :=
  (∀ p t, (ofMem k.mem).tables p = some t →
    t ≠ tmpL1Table ∧ t ≠ tmpL2Table ∧ t ≠ tmpL3Table) ∧
  ∀ j, k.mem tmpL1Table j = 0 ∧ k.mem tmpL2Table j = 0 ∧ k.mem tmpL3Table j = 0

/-- What is assumed of a call: the block lies in RAM and in one region (or needs no table of its
own), its first page holds no valid entry, and the optional assumptions. -/
structure Admissible (S : Setting) (c : TableCall) : Prop where
  inside : c.before.block + 4 * pageSize ≤ S.ramEnd
  region : OneRegion c.before.block ∨ c.before.HasTable 3
  clean : S.zeroHeap ∨ NoEntries c.before.mem c.before.block
  ownSlot : S.noOwnSlot → ¬ OwnSlot c
  tidy : S.tidy → c.before.HasTable 3 ∨ ¬ c.before.HasTable 1

structure Good (S : Setting) (s : Machine) : Prop where
  calls : ∀ c ∈ s.calls, Admissible S c
  requests : ∀ r ∈ s.requests, r.attrIdx = 0 → r.address + r.size ≤ S.ramEnd

theorem Good.of_extends {S : Setting} {s s' : Machine} (good : Good S s') (h : Extends s s') :
    Good S s :=
  ⟨fun c hc => good.calls c (h.calls.subset hc), fun r hr => good.requests r (h.requests.subset hr)⟩

/-- Somebody asked for the page, or it belongs to the tables. -/
def Owned (s : Machine) (page : Nat) : Prop :=
  (∃ r ∈ s.requests, r.Covers page) ∨ (initPageL0 ≤ page ∧ page < kernelStart) ∨
    ∃ c ∈ s.calls, c.before.block ≤ page ∧ page < c.before.block + 4 * pageSize

structure NormalRequest (s : Machine) (r : Request) : Prop where
  attrIdx : r.attrIdx = 0
  aligned : r.address % 4096 = 0
  above : kernelStart ≤ r.address
  below : r.address + r.size ≤ s.currentFree
  apart : ∀ p t, (ofMem s.mem).tables p = some t → ¬ r.Covers t

structure DeviceRequest (S : Setting) (r : Request) : Prop where
  attrIdx : r.attrIdx = 1
  aligned : r.address % 4096 = 0
  outside : r.address + r.size ≤ initPageL0 ∨ S.ramEnd ≤ r.address
  limit : r.address + r.size ≤ addressLimit

structure Inv (S : Setting) (s : Machine) : Prop where
  aligned : s.currentFree % 4096 = 0
  above : S.layout.kernelEnd ≤ s.currentFree
  below : s.currentFree ≤ S.ramEnd
  injective : (ofMem s.mem).Injective
  tables_at : ∀ p t, (ofMem s.mem).tables p = some t → t % 4096 = 0 ∧
    (initPageL0 ≤ t ∧ t < tmpPage1 ∨ S.layout.kernelEnd ≤ t ∧ t < s.currentFree)
  pages_at : ∀ a w, (ofMem s.mem).pages a = some w →
    w = descriptor (attrIdxOf S.ramEnd a) a ∧ Owned s a
  free : ∀ a, s.currentFree ≤ a → a < S.ramEnd → (ofMem s.mem).pages a = none
  authored : AllAuthored s
  tmp1 : NoEntries s.mem tmpL1Table
  tmp2 : NoEntries s.mem tmpL2Table
  requests_at : ∀ r ∈ s.requests, NormalRequest s r ∨ DeviceRequest S r
  zero : S.zeroHeap → ∀ a j, s.currentFree ≤ a → a < S.ramEnd → s.mem a j = 0
  mapped : S.noOwnSlot → ∀ p t, (ofMem s.mem).tables p = some t →
    (ofMem s.mem).pages t = some (descriptor 0 t)
  tidy : S.tidy →
    (∀ j, s.mem tmpL1Table j = 0 ∧ s.mem tmpL2Table j = 0 ∧ s.mem tmpL3Table j = 0) ∧
    ∀ k ∈ s.returned, TemporariesClean k

/-- A step that only adds to the address space and serves no new request. -/
structure Adds (s s' : Machine) : Prop where
  requests : s'.requests = s.requests
  tables : ∀ p t, (ofMem s.mem).tables p = some t → (ofMem s'.mem).tables p = some t
  pages : ∀ a w, (ofMem s.mem).pages a = some w → (ofMem s'.mem).pages a = some w

theorem Adds.of_eq {s s' : Machine} (hr : s'.requests = s.requests) (hm : s'.mem = s.mem) :
    Adds s s' := ⟨hr, fun _ _ h => hm ▸ h, fun _ _ h => hm ▸ h⟩

theorem Adds.trans {s t u : Machine} (h : Adds s t) (h' : Adds t u) : Adds s u :=
  ⟨h'.requests.trans h.requests, fun p f hf => h'.tables p f (h.tables p f hf),
    fun a w hw => h'.pages a w (h.pages a w hw)⟩

/-- The page has been taken from the heap, or lies in the image, and is no table. -/
structure Aside (s : Machine) (page : Nat) : Prop where
  above : kernelStart ≤ page
  below : page < s.currentFree
  noTable : ∀ p, (ofMem s.mem).tables p ≠ some page

/-- The calls took their blocks one behind the other, from `free` up to `free'`. -/
def Stacked : Nat → List TableCall → Nat → Prop
  | free, [], free' => free' = free
  | free, c :: cs, free' => c.before.block = free ∧ Stacked (free + 4 * pageSize) cs free'

theorem Stacked.append {free free' free'' : Nat} {cs cs' : List TableCall}
    (h : Stacked free cs free') (h' : Stacked free' cs' free'') :
    Stacked free (cs ++ cs') free'' := by
  induction cs generalizing free with
  | nil =>
    obtain rfl : free' = free := h
    exact h'
  | cons c cs ih => exact ⟨h.1, ih h.2⟩

/-- A step that adds to the address space takes the blocks for it off the heap and writes to no
other page there. -/
structure Builds (s s' : Machine) : Prop extends Adds s s' where
  blocks : ∃ cs, s'.calls = s.calls ++ cs ∧ Stacked s.currentFree cs s'.currentFree
  spares : ∀ page, Aside s page → Aside s' page ∧ ∀ j, s'.mem page j = s.mem page j

theorem Builds.of_eq {s s' : Machine} (hk : s'.toKernel = s.toKernel)
    (hr : s'.requests = s.requests) (hc : s'.calls = s.calls) : Builds s s' := by
  refine ⟨Adds.of_eq hr (by rw [hk]), ⟨[], by rw [hc, List.append_nil], by rw [hk]; rfl⟩, ?_⟩
  rintro page ⟨habove, hbelow, hnone⟩
  refine ⟨⟨habove, ?_, ?_⟩, fun j => ?_⟩
  · rwa [hk]
  · rwa [hk]
  · rw [hk]

theorem Builds.trans {s t u : Machine} (h : Builds s t) (h' : Builds t u) : Builds s u := by
  obtain ⟨adds, ⟨cs, hcalls, hstacked⟩, hspares⟩ := h
  obtain ⟨adds', ⟨cs', hcalls', hstacked'⟩, hspares'⟩ := h'
  refine ⟨adds.trans adds', ⟨cs ++ cs', ?_, hstacked.append hstacked'⟩, fun page haside => ?_⟩
  · rw [hcalls', hcalls, List.append_assoc]
  · obtain ⟨haside', hkept⟩ := hspares page haside
    obtain ⟨haside'', hkept'⟩ := hspares' page haside'
    exact ⟨haside'', fun j => (hkept' j).trans (hkept j)⟩

theorem kernelStart_lt {S : Setting} : kernelStart < S.layout.kernelEnd := S.layout.above

namespace Inv
variable {S : Setting} {s : Machine} (inv : Inv S s)
include inv

theorem block_eq : s.block = s.currentFree := by
  have hbelow := inv.below
  have hlimit := S.limit
  simp only [addressLimit] at hlimit
  exact allignAddr_of_aligned inv.aligned (by omega)

theorem isPage : IsPage s.currentFree := by
  have hbelow := inv.below
  have hlimit := S.limit
  simp only [addressLimit] at hlimit
  exact ⟨inv.aligned, by omega⟩

theorem separate {p : List Index} {t : Nat} (h : (ofMem s.mem).tables p = some t) :
    t < s.currentFree ∧ t ≠ tmpL1Table ∧ t ≠ tmpL2Table ∧ t ≠ tmpL3Table := by
  have hat := (inv.tables_at p t h).2
  have habove := inv.above
  have hstart := kernelStart_lt (S := S)
  simp only [initPageL0, kernelStart, tmpL1Table, tmpL2Table, tmpL3Table, tmpPage1, tmpPage2,
    tmpPage3] at *
  omega

theorem takesPage_range {a present : Nat} (ha : TakesPage s.block present a) :
    s.currentFree ≤ a ∧ a < s.currentFree + 4 * pageSize := by
  rw [inv.block_eq] at ha
  simp only [TakesPage, pageSize] at ha ⊢
  omega

theorem ready {c : TableCall} (hc : c.before = s.toKernel) (adm : Admissible S c) :
    Ready s.toKernel := by
  have hblock := inv.block_eq
  have hinside := adm.inside
  have hlimit := S.limit
  rw [hc] at hinside
  simp only [addressLimit] at hlimit
  simp only [pageSize] at hinside
  refine ⟨inv.injective, hblock ▸ inv.isPage, ?_, ?_, ?_, inv.tmp1, inv.tmp2, ?_, ?_⟩
  · simp only [pageSize]
    omega
  · rw [hblock]
    exact le_trans kernelStart_lt.le inv.above
  · intro p f hf
    rw [hblock]
    exact inv.separate hf
  · have hregion := adm.region
    rw [hc] at hregion
    exact hregion
  · rw [hblock] at hinside ⊢
    exact inv.free _ le_rfl (by omega)

theorem clean {c : TableCall} (hc : c.before = s.toKernel) (adm : Admissible S c) :
    NoEntries s.mem s.block := by
  have hclean := adm.clean
  have hinside := adm.inside
  rw [hc] at hclean hinside
  rcases hclean with hzero | hclean
  · intro j
    rw [inv.block_eq] at hinside ⊢
    simp only [pageSize] at hinside
    rw [inv.zero hzero _ j le_rfl (by omega)]
    rfl
  · exact hclean

theorem of_eq {s' : Machine} (hk : s'.toKernel = s.toKernel) (hr : s'.requests = s.requests)
    (hc : s'.calls = s.calls) (hb : s'.returned = s.returned)
    (hw : ∀ {page i}, Written s page i → Written s' page i) : Inv S s' where
  aligned := hk ▸ inv.aligned
  above := hk ▸ inv.above
  below := hk ▸ inv.below
  injective := hk ▸ inv.injective
  tables_at := hk ▸ inv.tables_at
  pages_at := by
    rw [hk]
    intro a w ha
    refine (inv.pages_at a w ha).imp_right fun howned => ?_
    rwa [Owned, hr, hc]
  free := hk ▸ inv.free
  authored := by
    intro p f j hf hvalid
    rw [hk] at hf hvalid
    rw [Authored, hk]
    exact (inv.authored p f j hf hvalid).imp_right hw
  tmp1 := hk ▸ inv.tmp1
  tmp2 := hk ▸ inv.tmp2
  requests_at := by
    rw [hr]
    exact fun r h => (inv.requests_at r h).imp_left fun n =>
      ⟨n.attrIdx, n.aligned, n.above, hk ▸ n.below, hk ▸ n.apart⟩
  zero := hk ▸ inv.zero
  mapped := hk ▸ inv.mapped
  tidy := by
    rw [hk, hb]
    exact inv.tidy

theorem loaded (page : Nat) (i : Index) : Inv S (s.loaded page i) :=
  inv.of_eq rfl rfl rfl rfl written_loaded.mpr

theorem logged (message : String) : Inv S (s.logged message) :=
  inv.of_eq rfl rfl rfl rfl id

end Inv

theorem Admissible.room {S : Setting} {s : Machine} {va level : Nat} (inv : Inv S s)
    (adm : Admissible S ⟨va, level, s.toKernel⟩) : s.currentFree + 4 * pageSize ≤ S.ramEnd := by
  have hinside := adm.inside
  change s.block + 4 * pageSize ≤ S.ramEnd at hinside
  rwa [inv.block_eq] at hinside

namespace Grafts
variable {S : Setting} {s s' : Machine} {va level present : Nat} {path : List Index}
variable (h : Grafts s s' va level present path)
include h

theorem owned {a : Nat} (ha : Owned s a) : Owned s' a := by
  rcases ha with ⟨r, hr, hcovers⟩ | hinit | ⟨c, hc, hrange⟩
  · exact Or.inl ⟨r, h.requests ▸ hr, hcovers⟩
  · exact Or.inr (Or.inl hinit)
  · exact Or.inr (Or.inr ⟨c, h.calls ▸ List.mem_append_left _ hc, hrange⟩)

variable (inv : Inv S s)
include inv

theorem free_eq : s'.currentFree = s.currentFree + 4 * pageSize := by
  rw [h.currentFree, inv.block_eq]

theorem table_cases {p : List Index} {t : Nat} (hp : (ofMem s'.mem).tables p = some t) :
    (ofMem s.mem).tables p = some t ∨
      (t % 4096 = 0 ∧ s.currentFree ≤ t ∧ t < s.currentFree + 4 * pageSize) := by
  have haligned := inv.aligned
  rw [h.space] at hp
  rcases graft_tables_new hp with hold | ⟨j, hj, rfl⟩
  · exact Or.inl hold
  · rw [inv.block_eq]
    simp only [pageSize]
    omega

theorem free {a : Nat} (hge : s'.currentFree ≤ a) (hlt : a < S.ramEnd) :
    (ofMem s'.mem).pages a = none := by
  rw [h.free_eq inv] at hge
  by_contra hsome
  obtain ⟨w, hw⟩ := Option.ne_none_iff_exists'.mp hsome
  rw [h.space] at hw
  rcases graft_pages_cases hw with hold | ⟨htakes, _⟩
  · rw [inv.free a (by omega) hlt] at hold
    cases hold
  · have hrange := inv.takesPage_range htakes
    omega

variable (adm : Admissible S ⟨va, level, s.toKernel⟩)
include adm

theorem adds : Adds s s' := by
  refine ⟨h.requests, fun p t hp => ?_, fun a w hw => ?_⟩
  · rw [h.space]
    exact h.graftable.tables_of_some hp
  · rw [h.space]
    apply h.graftable.pages_of_some hw
    intro htakes
    obtain ⟨hge, hlt⟩ := inv.takesPage_range htakes
    have hroom := adm.room inv
    rw [inv.free a hge (by omega)] at hw
    cases hw

theorem builds : Builds s s' := by
  refine ⟨h.adds inv adm, ⟨_, h.calls, ?_⟩, ?_⟩
  · refine ⟨inv.block_eq, ?_⟩
    rw [h.free_eq inv]
    rfl
  · rintro page ⟨habove, hbelow, hnone⟩
    have hfree := h.free_eq inv
    refine ⟨⟨habove, by omega, fun p hp => ?_⟩, fun j => h.frame page j hnone ?_ ?_ ?_ ?_⟩
    · rcases h.table_cases inv hp with hold | ⟨-, hge, -⟩
      · exact hnone p hold
      · omega
    · rintro rfl
      exact absurd habove (by decide)
    · rintro rfl
      exact absurd habove (by decide)
    · rintro rfl
      exact absurd habove (by decide)
    · left
      rw [inv.block_eq]
      exact hbelow.le

theorem pages_at {a w : Nat} (ha : (ofMem s'.mem).pages a = some w) :
    w = descriptor (attrIdxOf S.ramEnd a) a ∧ Owned s' a := by
  rw [h.space] at ha
  rcases graft_pages_cases ha with hold | ⟨htakes, rfl⟩
  · obtain ⟨hw, howned⟩ := inv.pages_at a w hold
    exact ⟨hw, h.owned howned⟩
  · obtain ⟨hge, hlt⟩ := inv.takesPage_range htakes
    have hroom := adm.room inv
    have habove := inv.above
    have hstart := kernelStart_lt (S := S)
    have hkind : attrIdxOf S.ramEnd a = 0 := by
      simp only [kernelStart] at hstart
      exact if_pos ⟨by simp only [initPageL0]; omega, by omega⟩
    refine ⟨by rw [hkind], Or.inr (Or.inr ⟨⟨va, level, s.toKernel⟩, ?_, ?_⟩)⟩
    · rw [h.calls]
      exact List.mem_append_right _ (List.mem_singleton_self _)
    · change s.block ≤ a ∧ a < s.block + 4 * pageSize
      rw [inv.block_eq]
      exact ⟨hge, hlt⟩

theorem mapped (hpath : path = (tablePath va).take level) (hlevel : path.length = level)
    (hno : S.noOwnSlot) {p : List Index} {t : Nat} (hp : (ofMem s'.mem).tables p = some t) :
    (ofMem s'.mem).pages t = some (descriptor 0 t) := by
  have hready := inv.ready rfl adm
  have hslot : ¬ path <+: tablePath s.block := by
    intro hpre
    have heq := List.prefix_iff_eq_take.mp hpre
    rw [hlevel] at heq
    exact adm.ownSlot hno (hpath.symm.trans heq)
  have hnew : ∀ {a : Nat}, TakesPage s.block present a → tablePath a = tablePath s.block →
      (ofMem s'.mem).pages a = some (descriptor 0 a) := by
    intro a htakes hsame
    rw [h.space]
    simp only [Space.graft, Space.linkTable, hsame, if_neg hslot, Space.takeBlock, if_pos htakes]
  rw [h.space] at hp
  rcases graft_tables_cases hp with ⟨_, rfl⟩ | ⟨_, hold | ⟨hlt, hpre, rfl⟩⟩
  · exact hnew (Or.inl rfl) rfl
  · exact (h.adds inv adm).pages _ _ (inv.mapped hno p t hold)
  · have hlen := hpre.length_le
    rw [tablePath_length] at hlen
    have hregion := h.region (by omega)
    apply hnew _ (hregion.tablePath_eq hready.page hlen)
    simp only [TakesPage, pageSize]
    omega

theorem stays_tidy (htidy : S.tidy) :
    (∀ j, s'.mem tmpL1Table j = 0 ∧ s'.mem tmpL2Table j = 0 ∧ s'.mem tmpL3Table j = 0) ∧
    ∀ k ∈ s'.returned, TemporariesClean k := by
  have hready := inv.ready rfl adm
  obtain ⟨htemps, hreturned⟩ := inv.tidy htidy
  have hshort : ∀ {n : Nat} {t : Nat}, (ofMem s.mem).tables ((tablePath s.block).take n) = some t →
      ∀ {k}, k ≤ n → ∃ u, (ofMem s.mem).tables ((tablePath s.block).take k) = some u := by
    intro n t ht k hn
    exact ofMem_prefix (List.take_prefix_take_left hn) ht
  obtain ⟨t, ht⟩ := h.own
  have hclean : ∀ j,
      s'.mem tmpL1Table j = 0 ∧ s'.mem tmpL2Table j = 0 ∧ s'.mem tmpL3Table j = 0 := by
    rcases adm.tidy htidy with ⟨u, hu⟩ | hnone
    · have hpresent : present = 3 := by
        by_contra hne
        have hle := h.present_le
        obtain ⟨v, hv⟩ := hshort hu (k := present + 1) (by omega)
        rw [h.graftable.own (by omega)] at hv
        cases hv
      intro j
      obtain ⟨h1, h2, h3⟩ := h.tidy.2 hpresent j
      rw [h1, h2, h3]
      exact htemps j
    · have hpresent : present = 0 := by
        by_contra hne
        exact hnone (hshort ht (by omega))
      exact h.tidy.1 hpresent
  refine ⟨hclean, fun k hk => ?_⟩
  obtain ⟨k', hk', hspace, hsame⟩ := h.returned
  rw [hk'] at hk
  rcases List.mem_append.mp hk with hk | hk
  · exact hreturned k hk
  · obtain rfl := List.mem_singleton.mp hk
    refine ⟨fun p t hp => ?_, fun j => ?_⟩
    · rw [hspace] at hp
      rcases takeBlock_tables_cases hp with hold | ⟨_, _, rfl⟩
      · exact (inv.separate hold).2
      · have habove := hready.above
        simp only [kernelStart, tmpL1Table, tmpL2Table, tmpL3Table, tmpPage1, tmpPage2,
          tmpPage3] at habove ⊢
        omega
    · obtain ⟨h1, h2, h3⟩ := hsame j
      rw [h1, h2, h3]
      exact hclean j

theorem inv' (hpath : path = (tablePath va).take level) (hlevel : path.length = level) :
    Inv S s' := by
  have hready := inv.ready rfl adm
  have hfree := h.free_eq inv
  have hroom := adm.room inv
  have haligned := inv.aligned
  have habove := inv.above
  simp only [pageSize] at hfree hroom
  refine ⟨by omega, by omega, by omega, ?_, ?_, fun a w => h.pages_at inv adm,
    fun a => h.free inv, h.authored inv.authored, h.tmp1, h.tmp2, ?_, ?_,
    fun hno p t => h.mapped inv adm hpath hlevel hno, h.stays_tidy inv adm⟩
  · rw [h.space]
    exact graft_injective inv.injective fun p t hp => (hready.separate p t hp).1
  · intro p t hp
    rcases h.table_cases inv hp with hold | ⟨hpage, hge, hlt⟩
    · obtain ⟨hpage, hat⟩ := inv.tables_at p t hold
      exact ⟨hpage, by omega⟩
    · simp only [pageSize] at hlt
      exact ⟨hpage, by omega⟩
  · intro r hr
    rw [h.requests] at hr
    refine (inv.requests_at r hr).imp_left fun normal => ?_
    have hbelow := normal.below
    refine ⟨normal.attrIdx, normal.aligned, normal.above, by omega, fun p t hp hcovers => ?_⟩
    rcases h.table_cases inv hp with hold | ⟨_, hge, _⟩
    · exact normal.apart p t hold hcovers
    · have hlt := hcovers.2
      omega
  · intro hzero a j hge hlt
    have hstart := kernelStart_lt (S := S)
    have hlive : ∀ p, (ofMem s.mem).tables p ≠ some a := by
      intro p hp
      have h := (inv.separate hp).1
      omega
    have htmp : a ≠ tmpL1Table ∧ a ≠ tmpL2Table ∧ a ≠ tmpL3Table := by
      simp only [kernelStart] at hstart
      simp only [tmpL1Table, tmpL2Table, tmpL3Table, tmpPage1, tmpPage2, tmpPage3]
      omega
    rw [h.frame a j hlive htmp.1 htmp.2.1 htmp.2.2 (Or.inr (by rw [inv.block_eq, pageSize]; omega))]
    exact inv.zero hzero a j (by omega) hlt

end Grafts

/-- The state in which the block is taken is on record at the end. -/
theorem nextTable_records {s : Machine} {table : Nat} {i : Index} (va level : Nat)
    (h : s.mem table i &&& 1 = 0) :
    Extends ((s.loaded table i).called va level) (final (nextTable table i va level s)) := by
  have hcall := Recorded.mapPageForPagetable ((s.loaded table i).called va level)
  cases hrun : mapPageForPagetable ((s.loaded table i).called va level) with
  | ok page s' =>
    rw [hrun] at hcall
    rw [nextTable_invalid va level h hrun]
    exact ⟨hcall.requests, hcall.calls⟩
  | error e s' =>
    rw [hrun] at hcall
    rw [nextTable_stop h hrun]
    exact hcall

theorem Inv.nextTable_spec {S : Setting} {s : Machine} (inv : Inv S s)
    (path : List Index) (va level : Nat) {table : Nat} {i : Index}
    (hpath : (ofMem s.mem).tables path = some table)
    (hslot : path ++ [i] = (tablePath va).take level) (hlevel : path.length + 1 = level)
    (hle : level ≤ 3) (good : Good S (final (nextTable table i va level s))) :
    ∃ t s', nextTable table i va level s = .ok t s' ∧ Inv S s' ∧ Builds s s' ∧
      (ofMem s'.mem).tables (path ++ [i]) = some t := by
  by_cases h : s.mem table i &&& 1 = 0
  · have hgood := good.of_extends (nextTable_records va level h)
    have adm := hgood.calls ⟨va, level, s.toKernel⟩
      (List.mem_append_right _ (List.mem_singleton_self _))
    obtain ⟨s', present, hrun, hgraft⟩ := nextTable_graft va level (inv.ready rfl adm)
      (by omega) hpath h (inv.clean rfl adm)
    refine ⟨_, s', hrun, hgraft.inv' inv adm hslot (by simpa using hlevel),
      hgraft.builds inv adm, ?_⟩
    rw [hgraft.space]
    simp only [Space.graft, Space.linkTable, List.prefix_rfl, if_true]
  · refine ⟨_, _, nextTable_valid va level h, (inv.loaded _ _).loaded _ _, ?_, ?_⟩
    · exact Builds.of_eq rfl rfl rfl
    · change (ofMem s.mem).tables (path ++ [i]) = _
      rw [ofMem_concat i (by omega), hpath, Option.bind_some, child, if_neg h]

end SelfmadeOS
