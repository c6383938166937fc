import Mathlib.Data.List.TakeWhile
import Mathlib.Tactic.Common

/-!
# Strings in memory

A region of memory is the list of its characters, up to where nothing is known of it; whatever
lies behind the end counts as NUL. A C string is read from a region up to the first NUL.
-/

namespace CStrings
set_option autoImplicit false

def nul : Char := Char.ofNat 0

def cString (region : List Char) : List Char := region.takeWhile fun c => c ≠ nul

/-- A NUL-terminated string, without its NUL. -/
structure CString where
  chars : List Char
  noNul : nul ∉ chars

def CString.empty : CString := ⟨[], List.not_mem_nil⟩

theorem cString_noNul (region : List Char) : nul ∉ cString region := by
  intro h
  have hne := List.mem_takeWhile_imp h
  simp at hne

theorem cString_append {text : List Char} (h : nul ∉ text) (rest : List Char) :
    cString (text ++ rest) = text ++ cString rest := by
  apply List.takeWhile_append_of_pos
  intro c hc
  have hne : c ≠ nul := fun heq => h (heq ▸ hc)
  simpa using hne

theorem cString_of_noNul {text : List Char} (h : nul ∉ text) : cString text = text := by
  have happend := cString_append h []
  rwa [List.append_nil, show cString [] = [] from rfl, List.append_nil] at happend

theorem cString_cons_of_ne {c : Char} (h : c ≠ nul) (rest : List Char) :
    cString (c :: rest) = c :: cString rest := by
  unfold cString
  simp [h]

theorem cString_nul (rest : List Char) : cString (nul :: rest) = [] := by
  unfold cString
  simp

theorem cString_append_nul (text rest : List Char) :
    cString (text ++ nul :: rest) = cString text := by
  induction text with
  | nil => exact cString_nul rest
  | cons c text ih =>
    by_cases hc : c = nul
    · subst hc
      rw [List.cons_append, cString_nul, cString_nul]
    · rw [List.cons_append, cString_cons_of_ne hc, cString_cons_of_ne hc, ih]

theorem CString.starts {s : CString} (h : s.chars ≠ []) (beyond : List Char) :
    ∃ c rest, s.chars ++ nul :: beyond = c :: rest ∧ c ≠ nul := by
  obtain ⟨c, rest, hchars⟩ := List.exists_cons_of_ne_nil h
  have hmem : c ∈ s.chars := hchars ▸ List.mem_cons_self
  refine ⟨c, rest ++ nul :: beyond, by rw [hchars]; rfl, ?_⟩
  exact fun heq => s.noNul (heq ▸ hmem)

end CStrings
