import SelfmadeOS.Orbits
import SelfmadeOS.PciCapabilities
import SelfmadeOS.Words

/-!
# When the walk through the capability list ends

Next pointers are multiples of four in one byte, so the entries are the points of a map on 64
places. The counter that the walk prints is never counted up, and nothing else bounds the walk.
-/

namespace SelfmadeOS
set_option autoImplicit false

namespace PciFunction
variable (f : PciFunction) (cfgType : BitVec 8)

def EndsAt (cap : Nat) : Prop := f.cfgType cap = cfgType ∨ f.capNext cap = 0

instance (cap : Nat) : Decidable (f.EndsAt cfgType cap) := inferInstanceAs (Decidable (_ ∨ _))

def EndsWithin (n : Nat) : Prop :=
  ∃ k < n, f.EndsAt cfgType (f.capNext^[k] f.getPciCapabilityOffset)

section walk
variable {f cfgType} {cap : Nat}

theorem capabilityWalk_of_ends (h : f.EndsAt cfgType cap) (tests : Nat) :
    ∃ messages, f.capabilityWalk cfgType (tests + 1) cap = some (cap, messages) := by
  unfold capabilityWalk
  by_cases htype : f.cfgType cap = cfgType
  · exact ⟨[], if_pos htype⟩
  · exact ⟨_, (if_neg htype).trans (if_pos (h.resolve_left htype))⟩

theorem capabilityWalk_of_not_ends (h : ¬f.EndsAt cfgType cap) (tests : Nat) :
    f.capabilityWalk cfgType (tests + 1) cap = f.capabilityWalk cfgType tests (f.capNext cap) := by
  obtain ⟨htype, hnext⟩ := not_or.mp h
  rw [capabilityWalk, if_neg htype, if_neg hnext]

/-- The walk has ended after so many tests if one of so many entries ends it. -/
theorem capabilityWalk_ends_iff (tests : Nat) :
    (∃ r, f.capabilityWalk cfgType tests cap = some r) ↔
      ∃ k < tests, f.EndsAt cfgType (f.capNext^[k] cap) := by
  induction tests generalizing cap with
  | zero =>
    constructor
    · rintro ⟨r, h⟩
      cases h
    · rintro ⟨k, hk, -⟩
      exact absurd hk (Nat.not_lt_zero k)
  | succ tests ih =>
    by_cases hends : f.EndsAt cfgType cap
    · obtain ⟨messages, hwalk⟩ := capabilityWalk_of_ends hends tests
      exact iff_of_true ⟨_, hwalk⟩ ⟨0, Nat.succ_pos tests, hends⟩
    · rw [capabilityWalk_of_not_ends hends, ih]
      constructor
      · rintro ⟨k, hk, h⟩
        exact ⟨k + 1, Nat.succ_lt_succ hk, h⟩
      · rintro ⟨k, hk, h⟩
        cases k with
        | zero => exact absurd h hends
        | succ k => exact ⟨k, Nat.lt_of_succ_lt_succ hk, h⟩

end walk

theorem and_pointerMask (b : BitVec 8) : (b &&& 0xFC).toNat = 4 * (b.toNat / 4) := by
  have hfield := Words.and_field b.toNat 6 2
  have hlt := b.isLt
  change b.toNat &&& 0xFC = _
  rw [show 0xFC = (2 ^ 6 - 1) * 2 ^ 2 by decide, hfield]
  omega

def nextPlace (i : Fin 64) : Fin 64 :=
  ⟨(f.byte (4 * i + 1)).toNat / 4, by
    have hlt := (f.byte (4 * i + 1)).isLt
    omega⟩

def firstPlace : Fin 64 :=
  ⟨(f.byte 0x34).toNat / 4, by
    have hlt := (f.byte 0x34).isLt
    omega⟩

theorem iterate_capNext (k : Nat) :
    f.capNext^[k] f.getPciCapabilityOffset = 4 * (f.nextPlace^[k] f.firstPlace).val := by
  have hconj : Function.Semiconj (fun i : Fin 64 => 4 * i.val) f.nextPlace f.capNext := by
    intro i
    exact (and_pointerMask _).symm
  have hstart : f.getPciCapabilityOffset = 4 * f.firstPlace.val := and_pointerMask _
  rw [hstart]
  exact ((hconj.iterate_right k).eq f.firstPlace).symm

/-- The walk ends exactly if one of the first 64 entries ends it. -/
theorem getPciCapability_ends_iff (bdf : BusDeviceFunction) :
    (∃ tests r, f.getPciCapability bdf cfgType tests = some r) ↔ f.EndsWithin cfgType 64 := by
  constructor
  · rintro ⟨tests, r, h⟩
    obtain ⟨r', hwalk, -⟩ := Option.map_eq_some_iff.mp h
    obtain ⟨k, -, hends⟩ := (capabilityWalk_ends_iff tests).mp ⟨r', hwalk⟩
    rw [iterate_capNext] at hends
    obtain ⟨m, hm, hends⟩ := Orbits.exists_lt_card f.nextPlace
      (p := fun i => f.EndsAt cfgType (4 * i.val)) hends
    rw [Fintype.card_fin] at hm
    refine ⟨m, hm, ?_⟩
    rwa [iterate_capNext]
  · intro h
    obtain ⟨r, hwalk⟩ := (capabilityWalk_ends_iff 64).mpr h
    exact ⟨64, _, Option.map_eq_some_iff.mpr ⟨r, hwalk, rfl⟩⟩

def selfLoop : PciFunction := oneCapability 0x02104009

theorem getPciCapability_hangs :
    ¬∃ tests r, selfLoop.getPciCapability firstFunction 1 tests = some r := by
  rintro ⟨tests, r, h⟩
  obtain ⟨r', hwalk, -⟩ := Option.map_eq_some_iff.mp h
  obtain ⟨k, -, hends⟩ := (capabilityWalk_ends_iff tests).mp ⟨r', hwalk⟩
  have hstart : selfLoop.getPciCapabilityOffset = 0x40 := by decide
  have hloop : selfLoop.capNext 0x40 = 0x40 := by decide
  rw [hstart, Function.iterate_fixed hloop] at hends
  exact absurd hends (by decide)

end PciFunction

end SelfmadeOS
