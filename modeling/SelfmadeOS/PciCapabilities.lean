import SelfmadeOS.PciFunction

/-!
# The walk through the capability list (`get_pci_capability`)

The walk compares the fourth byte of each entry and nothing else, and when it gives up it returns
the entry it stands on. What it prints with `verbose` set changes nothing and is left out.
-/

namespace SelfmadeOS
set_option autoImplicit false

def pciCapIdVndr : BitVec 8 := 0x09

namespace PciFunction
variable (f : PciFunction)

def capVndr (cap : Nat) : BitVec 8 := f.byte cap
def capNext (cap : Nat) : Nat := (f.byte (cap + 1) &&& 0xFC).toNat
def cfgType (cap : Nat) : BitVec 8 := f.byte (cap + 3)

def getPciCapabilityOffset : Nat := (f.byte 0x34 &&& 0xFC).toNat

/-- Where the walk ends and what it has to say; `none` when it has not ended after so many tests
of the loop. -/
def capabilityWalk (cfgType : BitVec 8) : (tests cap : Nat) → Option (Nat × List String)
  | 0, _ => none
  | tests + 1, cap =>
    if f.cfgType cap = cfgType then some (cap, [])
    else if f.capNext cap = 0 then some (cap, ["Could not find this capability type."])
    else capabilityWalk cfgType tests (f.capNext cap)

def getPciCapability (bdf : BusDeviceFunction) (cfgType : BitVec 8) (tests : Nat) :
    Option (Nat × List String) :=
  (f.capabilityWalk cfgType tests f.getPciCapabilityOffset).map fun r => (ecamPtr bdf r.1, r.2)

/-- The entries of a list that ends with a null pointer. -/
inductive CapabilityList : Nat → List Nat → Prop where
  | nil : CapabilityList 0 []
  | cons {cap : Nat} {caps : List Nat} (hcap : cap ≠ 0)
      (rest : CapabilityList (f.capNext cap) caps) : CapabilityList cap (cap :: caps)

/-- The pointer that the caller asks for: to the first vendor-specific entry of the type, or
none. -/
def capabilityAskedFor (bdf : BusDeviceFunction) (cfgType : BitVec 8) (caps : List Nat) : Nat :=
  match caps.find? fun cap => f.capVndr cap = pciCapIdVndr ∧ f.cfgType cap = cfgType with
  | some cap => ecamPtr bdf cap
  | none => 0

section walk
variable {f} {cfgType : BitVec 8} {tests cap : Nat} {caps : List Nat} {r : Nat × List String}

theorem capabilityWalk_mono {more : Nat} (hle : tests ≤ more)
    (h : f.capabilityWalk cfgType tests cap = some r) :
    f.capabilityWalk cfgType more cap = some r := by
  induction tests generalizing more cap with
  | zero => cases h
  | succ tests ih =>
    obtain ⟨more, rfl⟩ := Nat.exists_eq_add_of_le hle
    rw [Nat.add_right_comm]
    unfold capabilityWalk at h ⊢
    split
    · rwa [if_pos ‹_›] at h
    · rw [if_neg ‹_›] at h
      split
      · rwa [if_pos ‹_›] at h
      · rw [if_neg ‹_›] at h
        exact ih (Nat.le_add_right tests more) h

theorem capabilityWalk_unique {tests' : Nat} {r' : Nat × List String}
    (h : f.capabilityWalk cfgType tests cap = some r)
    (h' : f.capabilityWalk cfgType tests' cap = some r') : r = r' := by
  rcases Nat.le_total tests tests' with hle | hle
  · exact Option.some.inj ((capabilityWalk_mono hle h).symm.trans h')
  · exact Option.some.inj (h.symm.trans (capabilityWalk_mono hle h'))

/-- A list is walked up to the first entry whose fourth byte matches, or to its last entry. -/
theorem CapabilityList.walk (h : f.CapabilityList cap caps) (hne : caps ≠ []) :
    ∃ messages, f.capabilityWalk cfgType caps.length cap =
      some (((caps.find? fun c => f.cfgType c = cfgType).getD (caps.getLast hne)), messages) := by
  induction h with
  | nil => exact absurd rfl hne
  | @cons cap caps hcap rest ih =>
    rw [List.length_cons]
    unfold capabilityWalk
    by_cases htype : f.cfgType cap = cfgType
    · rw [if_pos htype, List.find?_cons_of_pos (by simpa using htype)]
      exact ⟨[], rfl⟩
    · rw [if_neg htype, List.find?_cons_of_neg (by simpa using htype)]
      generalize f.capNext cap = next at rest ih
      cases rest with
      | nil => exact ⟨_, if_pos rfl⟩
      | cons hnext rest =>
        rw [if_neg hnext]
        obtain ⟨messages, hwalk⟩ := ih (List.cons_ne_nil _ _)
        refine ⟨messages, hwalk.trans ?_⟩
        rw [List.getLast_cons (List.cons_ne_nil _ _)]

theorem getPciCapability_ne_zero {bdf : BusDeviceFunction} {messages : List String}
    (h : f.getPciCapability bdf cfgType tests = some (cap, messages)) : cap ≠ 0 := by
  obtain ⟨r, -, hr⟩ := Option.map_eq_some_iff.mp h
  rw [← (Prod.mk.inj hr).1]
  exact ecamPtr_ne_zero bdf r.1

end walk

section result
variable {f : PciFunction} {cfgType : BitVec 8} {caps : List Nat}

theorem find_vendor {cap : Nat}
    (htype : caps.find? (fun c => f.cfgType c = cfgType) = some cap)
    (hvendor : f.capVndr cap = pciCapIdVndr) :
    caps.find? (fun c => f.capVndr c = pciCapIdVndr ∧ f.cfgType c = cfgType) = some cap := by
  rw [List.find?_eq_some_iff_append] at htype ⊢
  obtain ⟨hmatch, before, after, hsplit, hbefore⟩ := htype
  refine ⟨?_, before, after, hsplit, ?_⟩
  · simpa [hvendor] using hmatch
  · intro c hc
    have hc := hbefore c hc
    simp only [Bool.not_eq_eq_eq_not, Bool.not_true, decide_eq_false_iff_not] at hc ⊢
    exact fun h => hc h.2

/-- The capability returned is the one asked for exactly when the first entry with this fourth
byte is vendor-specific. -/
theorem getPciCapability_asked_iff (f : PciFunction) (bdf : BusDeviceFunction)
    (cfgType : BitVec 8) (caps : List Nat)
    (hlist : f.CapabilityList f.getPciCapabilityOffset caps) :
    (∃ tests messages, f.getPciCapability bdf cfgType tests =
        some (f.capabilityAskedFor bdf cfgType caps, messages)) ↔
      ∃ cap, caps.find? (fun c => f.cfgType c = cfgType) = some cap ∧
        f.capVndr cap = pciCapIdVndr := by
  constructor
  · rintro ⟨tests, messages, h⟩
    have hnonzero := getPciCapability_ne_zero h
    unfold capabilityAskedFor at h hnonzero
    split at hnonzero
    · rename_i cap hfind
      rw [hfind] at h
      obtain ⟨r, hwalk, hr⟩ := Option.map_eq_some_iff.mp h
      have hcap : r.1 = cap := ecamPtr_injective bdf (Prod.mk.inj hr).1
      obtain ⟨hvendor, htype⟩ : f.capVndr cap = pciCapIdVndr ∧ f.cfgType cap = cfgType := by
        simpa using List.find?_some hfind
      have hmem := List.mem_of_find?_eq_some hfind
      obtain ⟨first, hfirst⟩ : ∃ c, caps.find? (fun c => f.cfgType c = cfgType) = some c :=
        Option.isSome_iff_exists.mp (List.find?_isSome.mpr ⟨cap, hmem, by simpa using htype⟩)
      obtain ⟨messages', hlast⟩ := hlist.walk (List.ne_nil_of_mem hmem)
      have hsame := capabilityWalk_unique hwalk hlast
      rw [hsame, hfirst] at hcap
      obtain rfl : first = cap := hcap
      exact ⟨first, hfirst, hvendor⟩
    · exact absurd rfl hnonzero
  · rintro ⟨cap, htype, hvendor⟩
    have hne := List.ne_nil_of_mem (List.mem_of_find?_eq_some htype)
    obtain ⟨messages, hwalk⟩ := hlist.walk hne
    refine ⟨caps.length, messages, ?_⟩
    unfold getPciCapability capabilityAskedFor
    rw [hwalk, find_vendor htype hvendor, htype]
    rfl

def oneCapability (cap : BitVec 32) : PciFunction where
  register := fun i => if i = 0 then 0x10501af4 else if i = 0x34 / 4 then 0x40
    else if i = 0x40 / 4 then cap else 0
  writable := fun _ => 0

def firstFunction : BusDeviceFunction := ⟨0, 0, 0, by decide, by decide, by decide⟩

def commonConfig : PciFunction := oneCapability 0x01100009

/-- A power management capability whose fourth byte is 1. -/
def powerManagement : PciFunction := oneCapability 0x01080001

theorem getPciCapability_asked_iff_common :
    (∃ tests messages, commonConfig.getPciCapability firstFunction 1 tests =
        some (commonConfig.capabilityAskedFor firstFunction 1 [0x40], messages)) ↔
      ∃ cap, [0x40].find? (fun c => commonConfig.cfgType c = 1) = some cap ∧
        commonConfig.capVndr cap = pciCapIdVndr :=
  getPciCapability_asked_iff commonConfig firstFunction 1 [0x40] (.cons (by decide) .nil)

/-- Asked for the common configuration, the walk returns power management instead of nothing. -/
theorem getPciCapability_wrong_kind :
    powerManagement.CapabilityList powerManagement.getPciCapabilityOffset [0x40] ∧
    powerManagement.getPciCapability firstFunction 1 1 = some (ecamPtr firstFunction 0x40, []) ∧
    powerManagement.capabilityAskedFor firstFunction 1 [0x40] = 0 ∧
    ¬∃ tests messages, powerManagement.getPciCapability firstFunction 1 tests =
      some (powerManagement.capabilityAskedFor firstFunction 1 [0x40], messages) := by
  refine ⟨.cons (by decide) .nil, rfl, rfl, ?_⟩
  rintro ⟨tests, messages, h⟩
  exact getPciCapability_ne_zero h rfl

end result

end PciFunction

end SelfmadeOS
