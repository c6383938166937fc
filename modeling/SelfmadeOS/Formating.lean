import Mathlib.Algebra.Group.Int.Defs
import Mathlib.Algebra.Group.Nat.Defs
import SelfmadeOS.CStrings

/-!
# Formatting (`formating.c`)

`input` is the memory from the format on: its characters, the NUL, and what lies behind. The
format ends where the loop meets a NUL, and a `%` takes the character behind it unseen.
-/

namespace SelfmadeOS
set_option autoImplicit false
open CStrings

/-- One slot of a `va_list`: its 64 bits, and the string that is found at that address. -/
structure Arg where
  word : Nat
  string : CString

def Arg.int (a : Arg) : Int :=
  let w : Nat := a.word % 2 ^ 32
  if w < 2 ^ 31 then (w : Int) else (w : Int) - 2 ^ 32

/-- The loop that collects digits; a positive `int` has at most ten. -/
def reversedDigits : (size value : Nat) → List Char
  | 0, _ => []
  | size + 1, value =>
    if value > 0 then Char.ofNat (48 + value % 10) :: reversedDigits size (value / 10) else []

def intToStr (value : Int) : List Char :=
  if value = 0 then ['0'] else (reversedDigits 10 value.toNat).reverse

def hex : List Char := "0123456789abcdef".toList

/-- `u8_to_hex` to `u64_to_hex` differ in their number of digits. -/
def toHex (digits value : Nat) : List Char :=
  '0' :: 'x' :: (List.range digits).map fun i =>
    hex.getD (value >>> (4 * (digits - 1 - i)) &&& 0xF) nul

def u8ToHex (value : Nat) : List Char := toHex 2 value
def u16ToHex (value : Nat) : List Char := toHex 4 value
def u32ToHex (value : Nat) : List Char := toHex 8 value
def u64ToHex (value : Nat) : List Char := toHex 16 value

def intToHexString (value size : Nat) : List Char :=
  if size * 8 = 8 then u8ToHex value
  else if size * 8 = 16 then u16ToHex value
  else if size * 8 = 32 then u32ToHex value
  else if size * 8 = 64 then u64ToHex value
  else []

/-- The locals of `format_string`, its output (with what lies behind it) and the slots used. -/
structure Formatting where
  idxInput : Nat
  idxOutput : Nat
  output : List Char
  nextArg : Nat

namespace Formatting

def write (s : Formatting) (c : Char) : Formatting :=
  { s with output := s.output.set s.idxOutput c, idxOutput := s.idxOutput + 1 }

def terminate (s : Formatting) : Formatting :=
  { s with output := s.output.set s.idxOutput nul }

def advance (s : Formatting) (n : Nat) : Formatting := { s with idxInput := s.idxInput + n }

def tookArg (s : Formatting) : Formatting := { s with nextArg := s.nextArg + 1 }

end Formatting

def copyString (limit : Nat) : List Char → Formatting → Formatting
  | [], s => s
  | c :: rest, s => if s.idxOutput < limit then copyString limit rest (s.write c) else s

def copyParam (limit size : Nat) (param : List Char) (s : Formatting) : Formatting :=
  copyString limit (param.take size) s

/-- The branches for the character behind a `%`. -/
def convert (limit : Nat) (args : Nat → Arg) (k : Char) (s : Formatting) : Formatting :=
  let arg := args s.nextArg
  if k = 's' then copyString limit arg.string.chars s.tookArg
  else if k = 'c' then
    if arg.int ≠ 0 ∧ s.idxOutput < limit then s.tookArg.write (Char.ofNat (arg.word % 256))
    else s.tookArg
  else if k = 'u' then copyParam limit 10 (intToStr arg.int) s.tookArg
  else if k = 'x' then copyParam limit 10 (intToHexString (arg.word % 2 ^ 32) 4) s.tookArg
  else if k = 'p' then copyParam limit 18 (intToHexString (arg.word % 2 ^ 64) 8) s.tookArg
  else if k = '%' then if s.idxOutput < limit then s.write '%' else s
  else s

def formatLoop (limit : Nat) (args : Nat → Arg) : List Char → Formatting → Formatting
  | [], s => s
  | c :: rest, s =>
    if c ≠ nul ∧ s.idxOutput < limit then
      if c = '%' then
        match rest with
        | [] => ((convert limit args nul s).advance 2).terminate
        | k :: rest => formatLoop limit args rest ((convert limit args k s).advance 2).terminate
      else formatLoop limit args rest ((s.write c).advance 1).terminate
    else s

def formatString (input output : List Char) (maxOutputSize : Nat) (args : Nat → Arg) :
    Formatting :=
  formatLoop (maxOutputSize - 1) args input ⟨0, 0, output, 0⟩

end SelfmadeOS
