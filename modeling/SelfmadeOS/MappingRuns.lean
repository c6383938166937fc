import SelfmadeOS.MappingInvariant

/-!
# Whole mapping operations keep the invariant

From one page over the loop of `map_addr` and `register_device_memory` to `kalloc` and whole
runs. Each result says: if the run is good as far as it went, then it came back, the invariant
still holds, and what was asked for is mapped.
-/

namespace SelfmadeOS
set_option autoImplicit false
open StateRuns Space

theorem Good.first {S : Setting} {α β : Type} {x : KernelM α} {f : α → KernelM β} {s : Machine}
    (good : Good S (final ((x >>= f) s))) (hf : ∀ a, Recorded (f a)) : Good S (final (x s)) :=
  good.of_extends (final_bind Extends.refl hf s)

def Mapped (S : Setting) (s : Machine) (page : Nat) : Prop :=
  (ofMem s.mem).pages page = some (descriptor (attrIdxOf S.ramEnd page) page)

theorem Adds.mapped {S : Setting} {s s' : Machine} (h : Adds s s') {page : Nat}
    (hp : Mapped S s page) : Mapped S s' page := h.pages _ _ hp

section Entry
variable {S : Setting} {s : Machine} (inv : Inv S s)
include inv

theorem Inv.entry_space {va l3 word : Nat} (hpage : IsPage va)
    (hl3 : (ofMem s.mem).tables (tablePath va) = some l3)
    (hmissing : s.mem l3 (l3Index va) &&& 1 = 0)
    (hword : leaf (s.mem.set l3 (l3Index va) word) l3 (l3Index va) = some word) :
    (ofMem s.mem).pages va = none ∧
    ofMem (s.mem.set l3 (l3Index va) word) = (ofMem s.mem).mapPage va word := by
  have change : SlotChange s.mem (s.mem.set l3 (l3Index va) word) (tablePath va) l3 (l3Index va) :=
    ⟨hl3, fun p f j _ hne => Mem.set_other _ _ (by tauto)⟩
  refine ⟨?_, change.mapPage inv.injective hpage rfl rfl hword⟩
  rw [ofMem_pages hpage, hl3]
  exact leaf_of_invalid hmissing

variable {r : Request} (hr : r ∈ s.requests) {va : Nat} (hcovers : r.Covers va)
include hr hcovers

theorem Inv.request_kind :
    r.attrIdx = attrIdxOf S.ramEnd va ∧ (va < S.ramEnd → va < s.currentFree) := by
  have hbelow := inv.below
  have habove := inv.above
  have hstart := kernelStart_lt (S := S)
  obtain ⟨hge, hlt⟩ := hcovers
  rcases inv.requests_at r hr with normal | device
  · obtain ⟨hattr, _, hlow, hhigh, _⟩ := normal
    simp only [kernelStart] at hlow
    have hkind : attrIdxOf S.ramEnd va = 0 := if_pos ⟨by simp only [initPageL0]; omega, by omega⟩
    exact ⟨hattr.trans hkind.symm, fun _ => by omega⟩
  · obtain ⟨hattr, _, houtside, _⟩ := device
    have hkind : attrIdxOf S.ramEnd va = 1 := if_neg (by omega)
    refine ⟨hattr.trans hkind.symm, fun h => ?_⟩
    simp only [initPageL0] at houtside
    simp only [kernelStart] at hstart
    omega

variable (hpage : IsPage va) {l3 : Nat} (hl3 : (ofMem s.mem).tables (tablePath va) = some l3)
variable (hmissing : s.mem l3 (l3Index va) &&& 1 = 0)
include hpage hl3 hmissing

theorem Inv.entry_adds : Adds s (s.stored l3 (l3Index va) (descriptor r.attrIdx va)) ∧
    Mapped S (s.stored l3 (l3Index va) (descriptor r.attrIdx va)) va := by
  obtain ⟨hnone, hspace⟩ := inv.entry_space hpage hl3 hmissing
    (leaf_descriptor r.attrIdx hpage (Mem.set_same _ _ _ _))
  obtain ⟨hkind, _⟩ := inv.request_kind hr hcovers
  refine ⟨⟨rfl, fun p t hp => ?_, fun a w hw => ?_⟩, ?_⟩
  · rw [stored_mem, hspace]
    exact hp
  · have hne : a ≠ va := by
      rintro rfl
      rw [hnone] at hw
      cases hw
    rw [stored_mem, hspace]
    simp only [Space.mapPage, if_neg hne, hw]
  · rw [Mapped, stored_mem, hspace]
    simp only [Space.mapPage, if_true, hkind]

theorem Inv.entry_inv : Inv S (s.stored l3 (l3Index va) (descriptor r.attrIdx va)) := by
  obtain ⟨hnone, hspace⟩ := inv.entry_space hpage hl3 hmissing
    (leaf_descriptor r.attrIdx hpage (Mem.set_same _ _ _ _))
  obtain ⟨hkind, hbelow⟩ := inv.request_kind hr hcovers
  obtain ⟨hlt, hne1, hne2, hne3⟩ := inv.separate hl3
  have hother : ∀ f j, f ≠ l3 →
      s.mem.set l3 (l3Index va) (descriptor r.attrIdx va) f j = s.mem f j :=
    fun f j hf => Mem.set_other _ _ fun h => hf h.1
  have htables : (ofMem (s.mem.set l3 (l3Index va) (descriptor r.attrIdx va))).tables =
      (ofMem s.mem).tables := by rw [hspace]; rfl
  have hpages : ∀ {a w}, (ofMem (s.mem.set l3 (l3Index va) (descriptor r.attrIdx va))).pages a =
      some w → a = va ∧ w = descriptor r.attrIdx va ∨ a ≠ va ∧ (ofMem s.mem).pages a = some w := by
    intro a w ha
    rw [hspace] at ha
    simp only [Space.mapPage] at ha
    split at ha
    · exact Or.inl ⟨‹_›, (Option.some.inj ha).symm⟩
    · exact Or.inr ⟨‹_›, ha⟩
  refine ⟨inv.aligned, inv.above, inv.below, ?_, ?_, ?_, ?_, ?_, ?_, ?_, ?_, ?_, ?_, ?_⟩
  · intro p q t hp hq
    rw [stored_mem, htables] at hp hq
    exact inv.injective p q t hp hq
  · rw [stored_mem, htables]
    exact inv.tables_at
  · intro a w ha
    rcases hpages ha with ⟨rfl, rfl⟩ | ⟨_, hold⟩
    · exact ⟨by rw [hkind], Or.inl ⟨r, hr, hcovers⟩⟩
    · exact inv.pages_at a w hold
  · intro a hge hlt'
    rw [stored_currentFree] at hge
    rw [stored_mem, hspace]
    have hne : a ≠ va := by
      rintro rfl
      exact absurd (hbelow hlt') (by omega)
    simp only [Space.mapPage, if_neg hne]
    exact inv.free a hge hlt'
  · intro p f j hf hvalid
    rw [stored_mem] at hf hvalid
    rw [htables] at hf
    rw [Authored, stored_mem, written_stored]
    by_cases hslot : f = l3 ∧ j = l3Index va
    · obtain ⟨rfl, rfl⟩ := hslot
      rw [Mem.set_same]
      exact ⟨descriptor_low _ hpage, Or.inr ⟨rfl, rfl⟩⟩
    · rw [Mem.set_other _ _ hslot] at hvalid ⊢
      exact (inv.authored p f j hf hvalid).imp_right Or.inl
  · intro j
    rw [stored_mem, hother _ _ hne1.symm]
    exact inv.tmp1 j
  · intro j
    rw [stored_mem, hother _ _ hne2.symm]
    exact inv.tmp2 j
  · intro r' hr'
    refine (inv.requests_at r' hr').imp_left fun n => ⟨n.attrIdx, n.aligned, n.above, n.below, ?_⟩
    rw [stored_mem, htables]
    exact n.apart
  · intro hzero a j hge hlt'
    rw [stored_currentFree] at hge
    rw [stored_mem, hother a j (by omega)]
    exact inv.zero hzero a j hge hlt'
  · intro hno p t hp
    rw [stored_mem, htables] at hp
    have hold := inv.mapped hno p t hp
    have hne : t ≠ va := by
      rintro rfl
      rw [hnone] at hold
      cases hold
    rw [stored_mem, hspace]
    simp only [Space.mapPage, if_neg hne]
    exact hold
  · intro htidy
    obtain ⟨htemps, hreturned⟩ := inv.tidy htidy
    refine ⟨fun j => ?_, hreturned⟩
    rw [stored_mem, hother _ _ hne1.symm, hother _ _ hne2.symm, hother _ _ hne3.symm]
    exact htemps j

theorem Inv.entry_builds : Builds s (s.stored l3 (l3Index va) (descriptor r.attrIdx va)) := by
  obtain ⟨hnone, hspace⟩ := inv.entry_space hpage hl3 hmissing
    (leaf_descriptor r.attrIdx hpage (Mem.set_same _ _ _ _))
  refine ⟨(inv.entry_adds hr hcovers hpage hl3 hmissing).1,
    ⟨[], (List.append_nil _).symm, rfl⟩, ?_⟩
  rintro page ⟨habove, hbelow, hnotable⟩
  refine ⟨⟨habove, hbelow, ?_⟩, fun j => ?_⟩
  · rw [stored_mem, hspace]
    exact hnotable
  · refine Mem.set_other _ _ fun h => ?_
    rw [h.1] at hnotable
    exact hnotable _ hl3

omit hmissing in
theorem Inv.pageEntry_spec : ∃ s', pageEntry l3 va va r.attrIdx s = .ok () s' ∧ Inv S s' ∧
    Builds s s' ∧ Mapped S s' va := by
  by_cases h : s.mem l3 (l3Index va) &&& 1 = 0
  · have hload := inv.loaded l3 (l3Index va)
    have hbuilds := hload.entry_builds hr hcovers hpage hl3 h
    have hmapped := (hload.entry_adds hr hcovers hpage hl3 h).2
    have hread : Builds s (s.loaded l3 (l3Index va)) := Builds.of_eq rfl rfl rfl
    refine ⟨_, ?_, hload.entry_inv hr hcovers hpage hl3 h, hread.trans hbuilds, hmapped⟩
    have hattr : r.attrIdx = 0 ∨ r.attrIdx = 1 :=
      (inv.requests_at r hr).imp NormalRequest.attrIdx DeviceRequest.attrIdx
    rcases hattr with hattr | hattr <;>
      simp only [pageEntry, bind, EStateM.bind, load_run, h, if_true, hattr, store_run,
        descriptor, one_ne_zero, if_false]
  · have hrun : pageEntry l3 va va r.attrIdx s = .ok ()
        ((s.loaded l3 (l3Index va)).logged "Error: Page already initialized") := by
      simp only [pageEntry, bind, EStateM.bind, load_run, h, if_false]
      rfl
    have hsome : (ofMem s.mem).pages va = some (s.mem l3 (l3Index va)) := by
      rw [ofMem_pages hpage, hl3, Option.bind_some, leaf, if_neg h]
    refine ⟨_, hrun, (inv.loaded l3 (l3Index va)).logged _, Builds.of_eq rfl rfl rfl, ?_⟩
    change (ofMem s.mem).pages va = _
    rw [hsome, (inv.pages_at va _ hsome).1]

end Entry

section MapPage
variable {S : Setting} {s : Machine} (inv : Inv S s) {r : Request} (hr : r ∈ s.requests)
variable {va : Nat} (hcovers : r.Covers va) (hpage : IsPage va)
include inv hr hcovers hpage

theorem Inv.mmuMap4kb_spec (good : Good S (final (mmuMap4kb l0Table va va r.attrIdx s))) :
    ∃ s', mmuMap4kb l0Table va va r.attrIdx s = .ok () s' ∧ Inv S s' ∧ Builds s s' ∧
      Mapped S s' va := by
  have hrest2 := fun l2 => (Recorded.nextTable l2 (l2Index va) va 3).bind fun l3 =>
    Recorded.accesses.pageEntry l3 va va r.attrIdx
  have hrest1 := fun l1 => (Recorded.nextTable l1 (l1Index va) va 2).bind hrest2
  obtain ⟨l1, s1, hrun1, inv1, adds1, hl1⟩ := inv.nextTable_spec [] va 1
    (ofMem_root s.mem) rfl rfl (by decide) (good.first hrest1)
  simp only [mmuMap4kb] at good ⊢
  rw [bind_run hrun1] at good ⊢
  obtain ⟨l2, s2, hrun2, inv2, adds2, hl2⟩ := inv1.nextTable_spec [l0Index va] va 2
    hl1 rfl rfl (by decide) (good.first hrest2)
  rw [bind_run hrun2] at good ⊢
  obtain ⟨l3, s3, hrun3, inv3, adds3, hl3⟩ := inv2.nextTable_spec [l0Index va, l1Index va] va 3
    hl2 rfl rfl (by decide)
    (good.first fun l3 => Recorded.accesses.pageEntry l3 va va r.attrIdx)
  rw [bind_run hrun3] at good ⊢
  have hadds := (adds1.trans adds2).trans adds3
  obtain ⟨s4, hrun4, inv4, adds4, hmapped⟩ :=
    inv3.pageEntry_spec (hadds.requests ▸ hr) hcovers hpage hl3
  exact ⟨s4, hrun4, inv4, hadds.trans adds4, hmapped⟩

end MapPage

section Loop
variable {S : Setting} {r : Request}

theorem Inv.request_limit {s : Machine} (inv : Inv S s) (hr : r ∈ s.requests) :
    r.address + r.size ≤ addressLimit := by
  rcases inv.requests_at r hr with normal | device
  · exact normal.below.trans (inv.below.trans S.limit)
  · exact device.limit

theorem Inv.request_aligned {s : Machine} (inv : Inv S s) (hr : r ∈ s.requests) :
    r.address % 4096 = 0 :=
  (inv.requests_at r hr).elim NormalRequest.aligned DeviceRequest.aligned

/-- `n` pages are left of the range; the loop tests once more than it maps. -/
theorem Inv.mapLoop_spec {tests n adr : Nat} (htests : n < tests) (haligned : adr % 4096 = 0)
    (hlow : r.address ≤ adr) (hhigh : adr + 4096 * n ≤ r.address + r.size)
    {s : Machine} (inv : Inv S s) (hr : r ∈ s.requests)
    (good : Good S (final (mapLoop r.attrIdx tests (4096 * n) adr s))) :
    ∃ s', mapLoop r.attrIdx tests (4096 * n) adr s = .ok () s' ∧ Inv S s' ∧ Builds s s' ∧
      ∀ k, k < n → Mapped S s' (adr + 4096 * k) := by
  induction tests generalizing n adr s with
  | zero => exact absurd htests (Nat.not_lt_zero n)
  | succ tests ih =>
    cases n with
    | zero =>
      refine ⟨s, rfl, inv, Builds.of_eq rfl rfl rfl, fun k hk => absurd hk (Nat.not_lt_zero k)⟩
    | succ n =>
      have hlimit := inv.request_limit hr
      simp only [addressLimit] at hlimit
      have hpage : IsPage adr := ⟨haligned, by omega⟩
      have hcovers : r.Covers adr := ⟨hlow, by omega⟩
      have hleft : (4096 * (n + 1) + 2 ^ 64 - blockSizeL3) % 2 ^ 64 = 4096 * n := by
        simp only [blockSizeL3]
        omega
      have hnext : (adr + blockSizeL3) % 2 ^ 64 = adr + 4096 := by
        simp only [blockSizeL3]
        omega
      simp only [mapLoop, if_pos (show 4096 * (n + 1) > 0 by omega), hleft, hnext]
        at good ⊢
      obtain ⟨s1, hrun1, inv1, adds1, hmapped⟩ := inv.mmuMap4kb_spec hr hcovers hpage
        (good.first fun _ => Recorded.mapLoop _ _ _ _)
      rw [bind_run hrun1] at good ⊢
      obtain ⟨s2, hrun2, inv2, adds2, hrest⟩ := ih (by omega) (by omega) (by omega) (by omega)
        inv1 (adds1.requests ▸ hr) good
      refine ⟨s2, hrun2, inv2, adds1.trans adds2, fun k hk => ?_⟩
      cases k with
      | zero => exact adds2.mapped hmapped
      | succ k =>
        have h := hrest k (by omega)
        rwa [show adr + 4096 + 4096 * k = adr + 4096 * (k + 1) by omega] at h

/-- Every page of every range asked for so far is mapped to itself. -/
def Served (S : Setting) (s : Machine) : Prop :=
  ∀ r ∈ s.requests, ∀ page, page % 4096 = 0 → r.Covers page → Mapped S s page

def Machine.requested (s : Machine) (r : Request) : Machine :=
  { s with requests := s.requests ++ [r] }

section Fields
variable (s : Machine) (r : Request)

@[simp] theorem requested_toKernel : (s.requested r).toKernel = s.toKernel := (rfl)
@[simp] theorem requested_requests : (s.requested r).requests = s.requests ++ [r] := (rfl)
@[simp] theorem requested_calls : (s.requested r).calls = s.calls := (rfl)

end Fields

theorem Inv.requested {s : Machine} (inv : Inv S s)
    (hr : NormalRequest s r ∨ DeviceRequest S r) : Inv S (s.requested r) where
  aligned := inv.aligned
  above := inv.above
  below := inv.below
  injective := inv.injective
  tables_at := inv.tables_at
  pages_at := by
    intro a w ha
    refine (inv.pages_at a w ha).imp_right fun howned => ?_
    exact howned.imp_left fun ⟨r', hr', hcovers⟩ => ⟨r', List.mem_append_left _ hr', hcovers⟩
  free := inv.free
  authored := inv.authored
  tmp1 := inv.tmp1
  tmp2 := inv.tmp2
  requests_at := by
    intro r' hr'
    rcases List.mem_append.mp hr' with hr' | hr'
    · exact (inv.requests_at r' hr').imp_left fun n => ⟨n.1, n.2, n.3, n.4, n.5⟩
    · obtain rfl := List.mem_singleton.mp hr'
      exact hr.imp_left fun n => ⟨n.1, n.2, n.3, n.4, n.5⟩
  zero := inv.zero
  mapped := inv.mapped
  tidy := inv.tidy

theorem Inv.mapRange {s : Machine} (inv : Inv S s) (served : Served S s)
    (hr : NormalRequest s r ∨ DeviceRequest S r) (haddress : r.address % 4096 = 0)
    (hsize : r.size % 4096 = 0)
    (good : Good S (final (mapLoop r.attrIdx (2 ^ 52) r.size r.address (s.requested r)))) :
    ∃ s', mapLoop r.attrIdx (2 ^ 52) r.size r.address (s.requested r) = .ok () s' ∧ Inv S s' ∧
      Served S s' ∧ Builds (s.requested r) s' := by
  have hmem : r ∈ (s.requested r).requests := List.mem_append_right _ (List.mem_singleton_self r)
  have invr := inv.requested hr
  have hlimit := invr.request_limit hmem
  simp only [addressLimit] at hlimit
  obtain ⟨n, hn⟩ : ∃ n, r.size = 4096 * n := ⟨r.size / 4096, by omega⟩
  rw [hn] at good ⊢
  obtain ⟨s', hrun, inv', adds, hmapped⟩ := invr.mapLoop_spec (by omega) haddress le_rfl
    (by omega) hmem good
  refine ⟨s', hrun, inv', fun r' hr' page hpage hcovers => ?_, adds⟩
  rw [adds.requests] at hr'
  rcases List.mem_append.mp hr' with hr' | hr'
  · exact adds.mapped (served r' hr' page hpage hcovers)
  · obtain rfl := List.mem_singleton.mp hr'
    obtain ⟨hge, hlt⟩ := hcovers
    have h := hmapped ((page - r'.address) / 4096) (by omega)
    rwa [show r'.address + 4096 * ((page - r'.address) / 4096) = page by omega] at h

end Loop

end SelfmadeOS
