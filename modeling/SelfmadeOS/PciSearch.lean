import SelfmadeOS.FirstMatch
import SelfmadeOS.HeapBounds
import SelfmadeOS.PciFunction

/-!
# The search for a PCI device (`search_pci_device`)

The search reads the first dword of one function after the other and ends where that is the pair
of ids. Behind its loops there is no `return`. What it prints with `verbose` set reads none of the
window and is left out.
-/

namespace SelfmadeOS
set_option autoImplicit false
open StateRuns FirstMatch

def nrOfBuses : Nat := 256
def nrOfDevices : Nat := 32
def nrOfFunctions : Nat := 8

/-- `struct bus_device_function` with whatever three ints it holds. -/
structure BdfStruct where
  busNr : Int
  deviceNr : Int
  functionNr : Int
deriving DecidableEq

def BusDeviceFunction.struct (bdf : BusDeviceFunction) : BdfStruct :=
  ⟨bdf.busNr, bdf.deviceNr, bdf.functionNr⟩

abbrev SearchM := EStateM Stop (List Nat)

def readDword (window : Nat → BitVec 32) (address : Nat) : SearchM (BitVec 32) :=
  fun reads => .ok (window address) (reads ++ [address])

def pciId (deviceId vendorId : BitVec 16) : BitVec 32 :=
  deviceId.setWidth 32 <<< 16 ||| vendorId.setWidth 32

def bdfOf (i : Fin nrOfBuses) (j : Fin nrOfDevices) (k : Fin nrOfFunctions) :
    BusDeviceFunction := ⟨i, j, k, i.isLt, j.isLt, k.isLt⟩

def compareId (window : Nat → BitVec 32) (deviceId vendorId : BitVec 16)
    (bdf : BusDeviceFunction) : SearchM (Option BusDeviceFunction) := do
  let value ← readDword window (ecamPtr bdf 0)
  return if pciId deviceId vendorId = value then some bdf else none

/-- The loops, and what a `return` in them leaves with. -/
def searchLoops (window : Nat → BitVec 32) (deviceId vendorId : BitVec 16) :
    SearchM (Option BusDeviceFunction) :=
  (List.finRange nrOfBuses).findSomeM? fun i =>
    (List.finRange nrOfDevices).findSomeM? fun j =>
      (List.finRange nrOfFunctions).findSomeM? fun k =>
        compareId window deviceId vendorId (bdfOf i j k)

def searchPciDevice (window : Nat → BitVec 32) (deviceId vendorId : BitVec 16) :
    SearchM BdfStruct := do
  let found ← searchLoops window deviceId vendorId
  match found with
  | some bdf => return bdf.struct
  | none => throw .noReturnValue

def initPciDriver : KernelM Unit := registerDeviceMemory ecamBase 0x10000000

def allFunctions : List BusDeviceFunction :=
  (List.finRange nrOfBuses).flatMap fun i =>
    (List.finRange nrOfDevices).flatMap fun j =>
      (List.finRange nrOfFunctions).flatMap fun k => [bdfOf i j k]

namespace BusDeviceFunction

def Before (a b : BusDeviceFunction) : Prop :=
  a.busNr < b.busNr ∨ a.busNr = b.busNr ∧
    (a.deviceNr < b.deviceNr ∨ a.deviceNr = b.deviceNr ∧ a.functionNr < b.functionNr)

def Matches (bdf : BusDeviceFunction) (window : Nat → BitVec 32)
    (deviceId vendorId : BitVec 16) : Prop :=
  pciId deviceId vendorId = window (ecamPtr bdf 0)

instance (bdf : BusDeviceFunction) (window : Nat → BitVec 32) (deviceId vendorId : BitVec 16) :
    Decidable (bdf.Matches window deviceId vendorId) := inferInstanceAs (Decidable (_ = _))

end BusDeviceFunction

section order

theorem mem_allFunctions (bdf : BusDeviceFunction) : bdf ∈ allFunctions := by
  refine List.mem_flatMap.mpr ⟨⟨bdf.busNr, bdf.bus_lt⟩, List.mem_finRange _, ?_⟩
  refine List.mem_flatMap.mpr ⟨⟨bdf.deviceNr, bdf.device_lt⟩, List.mem_finRange _, ?_⟩
  refine List.mem_flatMap.mpr ⟨⟨bdf.functionNr, bdf.function_lt⟩, List.mem_finRange _, ?_⟩
  exact List.mem_singleton.mpr rfl

theorem allFunctions_pairwise : allFunctions.Pairwise BusDeviceFunction.Before := by
  refine List.pairwise_flatMap.mpr ⟨?_, ?_⟩
  · intro i _
    refine List.pairwise_flatMap.mpr ⟨?_, ?_⟩
    · intro j _
      refine List.pairwise_flatMap.mpr ⟨fun k _ => List.pairwise_singleton _ _, ?_⟩
      refine (List.pairwise_lt_finRange nrOfFunctions).imp ?_
      intro k k' hlt a ha b hb
      obtain rfl := List.mem_singleton.mp ha
      obtain rfl := List.mem_singleton.mp hb
      exact Or.inr ⟨rfl, Or.inr ⟨rfl, hlt⟩⟩
    · refine (List.pairwise_lt_finRange nrOfDevices).imp ?_
      intro j j' hlt a ha b hb
      obtain ⟨k, -, ha⟩ := List.mem_flatMap.mp ha
      obtain ⟨k', -, hb⟩ := List.mem_flatMap.mp hb
      obtain rfl := List.mem_singleton.mp ha
      obtain rfl := List.mem_singleton.mp hb
      exact Or.inr ⟨rfl, Or.inl hlt⟩
  · refine (List.pairwise_lt_finRange nrOfBuses).imp ?_
    intro i i' hlt a ha b hb
    obtain ⟨j, -, ha⟩ := List.mem_flatMap.mp ha
    obtain ⟨k, -, ha⟩ := List.mem_flatMap.mp ha
    obtain ⟨j', -, hb⟩ := List.mem_flatMap.mp hb
    obtain ⟨k', -, hb⟩ := List.mem_flatMap.mp hb
    obtain rfl := List.mem_singleton.mp ha
    obtain rfl := List.mem_singleton.mp hb
    exact Or.inl hlt

theorem ecamPtr_sum (bdf : BusDeviceFunction) : ecamPtr bdf 0 =
    ecamBase + bdf.busNr * 0x100000 + bdf.deviceNr * 0x8000 + bdf.functionNr * 0x1000 := by
  unfold ecamPtr
  rw [Nat.shiftLeft_eq, Nat.shiftLeft_eq, Nat.shiftLeft_eq]
  rfl

theorem ecamPtr_before {a b : BusDeviceFunction} (h : a.Before b) :
    ecamPtr a 0 < ecamPtr b 0 := by
  have hdevice := a.device_lt
  have hfunction := a.function_lt
  rw [ecamPtr_sum, ecamPtr_sum]
  unfold BusDeviceFunction.Before at h
  omega

theorem ecamPtr_window (bdf : BusDeviceFunction) :
    ecamBase ≤ ecamPtr bdf 0 ∧ ecamPtr bdf 0 + 4 ≤ ecamBase + 0x10000000 := by
  have hbus := bdf.bus_lt
  have hdevice := bdf.device_lt
  have hfunction := bdf.function_lt
  rw [ecamPtr_sum]
  omega

end order

def lookedAt (window : Nat → BitVec 32) (deviceId vendorId : BitVec 16) :
    List BusDeviceFunction :=
  scanned (fun bdf => bdf.Matches window deviceId vendorId) allFunctions

def firstDwords (visited : List BusDeviceFunction) : List Nat :=
  visited.map fun bdf => ecamPtr bdf 0

section search
variable (window : Nat → BitVec 32) (deviceId vendorId : BitVec 16)

/-- The comparison as a search among one candidate. -/
theorem compareId_scans (bdf : BusDeviceFunction) :
    Scans (fun bdf => bdf.Matches window deviceId vendorId) (fun bdf => ecamPtr bdf 0) [bdf]
      (compareId window deviceId vendorId bdf) := by
  intro reads
  have hread : compareId window deviceId vendorId bdf reads =
      .ok (if bdf.Matches window deviceId vendorId then some bdf else none)
        (reads ++ [ecamPtr bdf 0]) := rfl
  rw [hread]
  by_cases h : bdf.Matches window deviceId vendorId
  · simp [scanned, h]
  · simp [scanned, h]

theorem searchLoops_scans :
    Scans (fun bdf => bdf.Matches window deviceId vendorId) (fun bdf => ecamPtr bdf 0) allFunctions
      (searchLoops window deviceId vendorId) := by
  apply Scans.loop
  intro i _
  apply Scans.loop
  intro j _
  apply Scans.loop
  intro k _
  exact compareId_scans window deviceId vendorId (bdfOf i j k)

theorem searchLoops_run {found : Option BusDeviceFunction}
    (h : allFunctions.find? (fun bdf => bdf.Matches window deviceId vendorId) = found) :
    searchLoops window deviceId vendorId [] =
      .ok found (firstDwords (lookedAt window deviceId vendorId)) := by
  have hscan := searchLoops_scans window deviceId vendorId []
  rw [h, List.nil_append] at hscan
  exact hscan

theorem searchPciDevice_found {bdf : BusDeviceFunction}
    (h : allFunctions.find? (fun bdf => bdf.Matches window deviceId vendorId) = some bdf) :
    searchPciDevice window deviceId vendorId [] =
      .ok bdf.struct (firstDwords (lookedAt window deviceId vendorId)) :=
  bind_run (searchLoops_run window deviceId vendorId h)

/-- When nothing matches, the function comes to its end without a `return`. -/
theorem searchPciDevice_nothing
    (h : ∀ bdf : BusDeviceFunction, ¬ bdf.Matches window deviceId vendorId) :
    searchPciDevice window deviceId vendorId [] =
      .error .noReturnValue (firstDwords (lookedAt window deviceId vendorId)) := by
  have hnone : allFunctions.find? (fun bdf => bdf.Matches window deviceId vendorId) = none := by
    apply List.find?_eq_none.mpr
    intro bdf _
    simpa using h bdf
  exact bind_run (searchLoops_run window deviceId vendorId hnone)

theorem allFunctions_find {bdf : BusDeviceFunction} (h : bdf.Matches window deviceId vendorId) :
    ∃ first, allFunctions.find? (fun bdf => bdf.Matches window deviceId vendorId) = some first := by
  apply Option.isSome_iff_exists.mp
  exact List.find?_isSome.mpr ⟨bdf, mem_allFunctions bdf, decide_eq_true h⟩

/-- Whatever comes of it, a search reads the first dwords of the functions that it looks at. -/
theorem searchPciDevice_reads : final (searchPciDevice window deviceId vendorId []) =
    firstDwords (lookedAt window deviceId vendorId) := by
  by_cases h : ∃ bdf : BusDeviceFunction, bdf.Matches window deviceId vendorId
  · obtain ⟨bdf, hbdf⟩ := h
    obtain ⟨first, hfirst⟩ := allFunctions_find window deviceId vendorId hbdf
    rw [searchPciDevice_found window deviceId vendorId hfirst, final_ok]
  · rw [searchPciDevice_nothing window deviceId vendorId (not_exists.mp h), final_error]

theorem lookedAt_pairwise :
    (lookedAt window deviceId vendorId).Pairwise BusDeviceFunction.Before :=
  scanned_pairwise allFunctions_pairwise

theorem firstDwords_pairwise :
    (firstDwords (lookedAt window deviceId vendorId)).Pairwise (· < ·) :=
  (lookedAt_pairwise window deviceId vendorId).map _ fun _ _ => ecamPtr_before

end search

/-- What a caller may rely on: where the search reads and what it returns. -/
structure FindsFirst (window : Nat → BitVec 32) (deviceId vendorId : BitVec 16)
    (reads : List Nat) (value : BdfStruct) : Prop where
  dwords : ∃ visited : List BusDeviceFunction, visited.Nodup ∧ reads = firstDwords visited
  distinct : reads.Nodup
  mapped : ∀ s s' : Machine, initPciDriver s = .ok () s' →
    ∃ r : Request, s'.requests = s.requests ++ [r] ∧ r.attrIdx = 1 ∧
      r.address = ecamBase ∧ r.size = 0x10000000 ∧
      ∀ a ∈ reads, r.address ≤ a ∧ a + 4 ≤ r.address + r.size
  found : (∃ bdf : BusDeviceFunction, bdf.Matches window deviceId vendorId) →
    ∃ first : BusDeviceFunction, first.Matches window deviceId vendorId ∧
      (∀ other : BusDeviceFunction, other.Matches window deviceId vendorId →
        other = first ∨ first.Before other) ∧ value = first.struct
  notFound : (∀ bdf : BusDeviceFunction, ¬ bdf.Matches window deviceId vendorId) →
    ∀ bdf : BusDeviceFunction, value ≠ bdf.struct

section returns
variable {window : Nat → BitVec 32} {deviceId vendorId : BitVec 16}

theorem before_ne {a b : BusDeviceFunction} (h : a.Before b) : a ≠ b := by
  intro heq
  subst heq
  exact Nat.lt_irrefl _ (ecamPtr_before h)

theorem initPciDriver_maps {s s' : Machine} (h : initPciDriver s = .ok () s')
    (visited : List BusDeviceFunction) :
    ∃ r : Request, s'.requests = s.requests ++ [r] ∧ r.attrIdx = 1 ∧
      r.address = ecamBase ∧ r.size = 0x10000000 ∧
      ∀ a ∈ firstDwords visited, r.address ≤ a ∧ a + 4 ≤ r.address + r.size := by
  refine ⟨_, registerDeviceMemory_requests h, rfl, rfl, rfl, ?_⟩
  intro a ha
  obtain ⟨bdf, -, rfl⟩ := List.mem_map.mp ha
  exact ecamPtr_window bdf

theorem searchPciDevice_findsFirst {bdf : BusDeviceFunction}
    (h : allFunctions.find? (fun bdf => bdf.Matches window deviceId vendorId) = some bdf) :
    FindsFirst window deviceId vendorId (firstDwords (lookedAt window deviceId vendorId))
      bdf.struct := by
  have hmatch : bdf.Matches window deviceId vendorId := by simpa using List.find?_some h
  refine ⟨⟨_, ?_, rfl⟩, ?_, fun s s' hrun => initPciDriver_maps hrun _, ?_, ?_⟩
  · exact (lookedAt_pairwise window deviceId vendorId).imp before_ne
  · exact (firstDwords_pairwise window deviceId vendorId).imp Nat.ne_of_lt
  · intro _
    refine ⟨bdf, hmatch, ?_, rfl⟩
    intro other hother
    exact find?_least allFunctions_pairwise h (mem_allFunctions other) (decide_eq_true hother)
  · intro hnone
    exact absurd hmatch (hnone bdf)

/-- The search keeps its promise exactly when some function has the ids. -/
theorem searchPciDevice_findsFirst_iff (window : Nat → BitVec 32)
    (deviceId vendorId : BitVec 16) :
    (∃ reads value, searchPciDevice window deviceId vendorId [] = .ok value reads ∧
      FindsFirst window deviceId vendorId reads value) ↔
      ∃ bdf : BusDeviceFunction, bdf.Matches window deviceId vendorId := by
  constructor
  · rintro ⟨reads, value, hrun, -⟩
    by_contra hnone
    rw [searchPciDevice_nothing window deviceId vendorId (not_exists.mp hnone)] at hrun
    cases hrun
  · rintro ⟨bdf, hbdf⟩
    obtain ⟨first, hfirst⟩ := allFunctions_find window deviceId vendorId hbdf
    exact ⟨_, _, searchPciDevice_found window deviceId vendorId hfirst,
      searchPciDevice_findsFirst hfirst⟩

/-- A bus without a GPU: every dword is all ones. -/
theorem searchPciDevice_allOnes : ¬ ∃ reads value,
    searchPciDevice (fun _ => 0xFFFFFFFF) 0x1050 0x1AF4 [] = .ok value reads ∧
      FindsFirst (fun _ => 0xFFFFFFFF) 0x1050 0x1AF4 reads value := by
  rintro ⟨reads, value, hrun, -⟩
  have hids : pciId 0x1050 0x1AF4 ≠ 0xFFFFFFFF := by decide
  have hnone (bdf : BusDeviceFunction) : ¬ bdf.Matches (fun _ => 0xFFFFFFFF) 0x1050 0x1AF4 :=
    fun h => hids h
  rw [searchPciDevice_nothing _ _ _ hnone] at hrun
  cases hrun

end returns

end SelfmadeOS
