import Mathlib.Data.List.Infix
import Mathlib.Data.List.Induction

/-!
# Radix trees in a store of frames

A store gives each frame a family of slots that may link to other frames. Following slots
from a root is a partial function on paths. A store in which no frame is reached twice stays
readable while single slots change: the theorems below say what a change of one slot of one
reached frame does to every path, whatever happens to frames that are not reached.
-/

namespace RadixTree
set_option autoImplicit false

universe u v
variable {Frame : Type u} {Slot : Type v}

def descend (links : Frame → Slot → Option Frame) : Frame → List Slot → Option Frame
  | f, [] => some f
  | f, i :: path => (links f i).bind fun g => descend links g path

section Paths
variable (links : Frame → Slot → Option Frame) (f : Frame)

@[simp] theorem descend_nil : descend links f [] = some f := rfl

theorem descend_cons (i : Slot) (path : List Slot) :
    descend links f (i :: path) = (links f i).bind fun g => descend links g path := rfl

theorem descend_append (p q : List Slot) :
    descend links f (p ++ q) = (descend links f p).bind fun g => descend links g q := by
  induction p generalizing f with
  | nil => rfl
  | cons i p ih =>
    simp only [List.cons_append, descend_cons, ih, Option.bind_assoc]

theorem descend_concat (p : List Slot) (i : Slot) :
    descend links f (p ++ [i]) = (descend links f p).bind fun g => links g i := by
  simp [descend_append, descend_cons]

theorem descend_prefix {p q : List Slot} {g : Frame} (hpq : p <+: q)
    (hq : descend links f q = some g) : ∃ h, descend links f p = some h := by
  obtain ⟨r, rfl⟩ := hpq
  rw [descend_append] at hq
  exact ⟨_, (Option.bind_eq_some_iff.mp hq).choose_spec.1⟩

end Paths

/-- No frame is reached along two different paths of at most `depth` slots. -/
def Unshared (links : Frame → Slot → Option Frame) (root : Frame) (depth : Nat) : Prop :=
  ∀ p q f, p.length ≤ depth → q.length ≤ depth →
    descend links root p = some f → descend links root q = some f → p = q

/-- The two stores agree on the frames reached by at most `depth` slots,
but for slot `i` of the frame at the end of `path`. -/
structure ChangesSlot (links links' : Frame → Slot → Option Frame) (root : Frame) (depth : Nat)
    (path : List Slot) (table : Frame) (i : Slot) : Prop where
  at_path : descend links root path = some table
  short : path.length ≤ depth
  frame : ∀ p f j, p.length ≤ depth → descend links root p = some f →
    f ≠ table ∨ j ≠ i → links' f j = links f j

namespace ChangesSlot
variable {links links' : Frame → Slot → Option Frame} {root table : Frame} {depth : Nat}
variable {path : List Slot} {i : Slot}
variable (change : ChangesSlot links links' root depth path table i)
variable (unshared : Unshared links root depth)
include change unshared

/-- Paths that do not go through the slot lead where they led. -/
theorem descend_of_not_prefix {q : List Slot} (hq : q.length ≤ depth + 1)
    (hno : ¬ path ++ [i] <+: q) : descend links' root q = descend links root q := by
  induction q using List.reverseRecOn with
  | nil => rfl
  | append_singleton q j ih =>
    have hlen : q.length ≤ depth := by simpa using hq
    have hno' : ¬ path ++ [i] <+: q := fun h => hno (h.trans (List.prefix_append q [j]))
    rw [descend_concat, descend_concat, ih (by omega) hno']
    cases hf : descend links root q with
    | none => rfl
    | some f =>
      apply change.frame q f j hlen hf
      by_contra hsame
      push Not at hsame
      obtain ⟨rfl, rfl⟩ := hsame
      have heq := unshared q path f hlen change.short hf change.at_path
      exact hno (heq ▸ List.prefix_rfl)

theorem descend_path : descend links' root path = some table := by
  rw [change.descend_of_not_prefix unshared (Nat.le_succ_of_le change.short), change.at_path]
  intro h
  have hlen := h.length_le
  simp only [List.length_append, List.length_singleton] at hlen
  omega

theorem descend_through (q : List Slot) :
    descend links' root (path ++ i :: q) =
      (links' table i).bind fun g => descend links' g q := by
  rw [descend_append, change.descend_path unshared]
  rfl

end ChangesSlot

theorem descend_congr {links links' : Frame → Slot → Option Frame} {root : Frame}
    {q : List Slot} (h : ∀ p f i, p.length < q.length → descend links root p = some f →
      links' f i = links f i) : descend links' root q = descend links root q := by
  induction q using List.reverseRecOn with
  | nil => rfl
  | append_singleton q i ih =>
    have hq : q.length < (q ++ [i]).length := by simp
    rw [descend_concat, descend_concat, ih fun p f j hp => h p f j (hp.trans hq)]
    cases hf : descend links root q with
    | none => rfl
    | some f => exact h q f i hq hf

end RadixTree
