import Mathlib.Tactic.Common

/-!
# The configuration space of a PCI function (`pci_driver.c`)

A function is its 32-bit registers and, for each, the bits that take what is written; the other
bits keep their value whatever the driver stores.
-/

namespace SelfmadeOS
set_option autoImplicit false

structure PciFunction where
  register : Nat → BitVec 32
  writable : Nat → BitVec 32

namespace PciFunction

def byte (f : PciFunction) (off : Nat) : BitVec 8 :=
  (f.register (off / 4) >>> (8 * (off % 4))).setWidth 8

def stored (f : PciFunction) (i : Nat) (value : BitVec 32) : BitVec 32 :=
  f.register i &&& ~~~f.writable i ||| value &&& f.writable i

def write (f : PciFunction) (i : Nat) (value : BitVec 32) : PciFunction :=
  { f with register := fun j => if j = i then f.stored i value else f.register j }

end PciFunction

structure BusDeviceFunction where
  busNr : Nat
  deviceNr : Nat
  functionNr : Nat
  bus_lt : busNr < 256
  device_lt : deviceNr < 32
  function_lt : functionNr < 8
deriving DecidableEq

def ecamBase : Nat := 0x4010000000

def ecamPtr (bdf : BusDeviceFunction) (off : Nat) : Nat :=
  ecamBase + bdf.busNr <<< 20 + bdf.deviceNr <<< 15 + bdf.functionNr <<< 12 + off

theorem ecamPtr_ne_zero (bdf : BusDeviceFunction) (off : Nat) : ecamPtr bdf off ≠ 0 := by
  unfold ecamPtr ecamBase
  omega

theorem ecamPtr_injective (bdf : BusDeviceFunction) {off off' : Nat}
    (h : ecamPtr bdf off = ecamPtr bdf off') : off = off' :=
  Nat.add_left_cancel h

section writes
variable (f : PciFunction) (i j : Nat) (value : BitVec 32)

@[simp] theorem write_same : (f.write i value).register i = f.stored i value := if_pos rfl

theorem write_other (h : j ≠ i) : (f.write i value).register j = f.register j := if_neg h

theorem write_fixed : (f.write i value).register j &&& ~~~f.writable j =
    f.register j &&& ~~~f.writable j := by
  by_cases h : j = i
  · subst h
    rw [write_same, PciFunction.stored]
    ext k hk
    simp only [BitVec.getElem_and, BitVec.getElem_or, BitVec.getElem_not]
    cases (f.writable j)[k] <;> simp
  · rw [write_other f i j value h]

end writes

end SelfmadeOS
