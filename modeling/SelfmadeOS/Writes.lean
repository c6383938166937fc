import Mathlib.Logic.Function.Basic
import Mathlib.Tactic.Common

/-!
# Lists of writes to a memory

The writes are done from left to right. What a place holds afterwards is known without their
order when every write to it stores the same value, and when there is none.
-/

namespace Writes
set_option autoImplicit false

universe u v
variable {A : Type u} {V : Type v} [DecidableEq A]

def apply (m : A → V) (ws : List (A × V)) : A → V :=
  ws.foldl (fun m w => Function.update m w.1 w.2) m

section rules
variable (m : A → V) {ws : List (A × V)} {a : A}

theorem apply_cons (w : A × V) (ws : List (A × V)) :
    apply m (w :: ws) = apply (Function.update m w.1 w.2) ws := rfl

theorem apply_append (first second : List (A × V)) :
    apply m (first ++ second) = apply (apply m first) second := List.foldl_append

theorem apply_other (h : ∀ w ∈ ws, w.1 ≠ a) : apply m ws a = m a := by
  induction ws generalizing m with
  | nil => rfl
  | cons w ws ih =>
    obtain ⟨hw, hws⟩ := List.forall_mem_cons.mp h
    rw [apply_cons, ih _ hws]
    exact Function.update_of_ne hw.symm _ _

theorem apply_congr {m' : A → V} (h : m a = m' a) : apply m ws a = apply m' ws a := by
  induction ws generalizing m m' with
  | nil => exact h
  | cons w ws ih =>
    rw [apply_cons, apply_cons]
    apply ih
    by_cases heq : a = w.1
    · rw [heq, Function.update_self, Function.update_self]
    · rw [Function.update_of_ne heq, Function.update_of_ne heq]
      exact h

/-- A place that holds `v` keeps it when nothing else is written there. -/
theorem apply_kept {v : V} (hm : m a = v) (h : ∀ w ∈ ws, w.1 = a → w.2 = v) :
    apply m ws a = v := by
  induction ws generalizing m with
  | nil => exact hm
  | cons w ws ih =>
    obtain ⟨hw, hws⟩ := List.forall_mem_cons.mp h
    rw [apply_cons]
    apply ih _ _ hws
    by_cases heq : w.1 = a
    · rw [heq, Function.update_self]
      exact hw heq
    · rw [Function.update_of_ne (Ne.symm heq)]
      exact hm

theorem apply_written {v : V} (hwritten : ∃ w ∈ ws, w.1 = a)
    (h : ∀ w ∈ ws, w.1 = a → w.2 = v) : apply m ws a = v := by
  obtain ⟨w, hw, rfl⟩ := hwritten
  obtain ⟨before, after, rfl⟩ := List.append_of_mem hw
  rw [apply_append, apply_cons]
  apply apply_kept
  · rw [Function.update_self]
    exact h w hw rfl
  · intro w' hw'
    exact h w' (List.mem_append_right _ (List.mem_cons_of_mem w hw'))

end rules

/-- The values of a list, one place after the other. -/
def inOrder (start : Nat) (values : List V) : List (Nat × V) :=
  values.mapIdx fun i v => (start + i, v)

section ordered
variable (m : Nat → V) {start i : Nat} {values : List V}

@[simp] theorem inOrder_length (start : Nat) (values : List V) :
    (inOrder start values).length = values.length := List.length_mapIdx

theorem inOrder_cons (start : Nat) (v : V) (values : List V) :
    inOrder start (v :: values) = (start, v) :: inOrder (start + 1) values := by
  unfold inOrder
  rw [List.mapIdx_cons]
  congr 2
  funext i v
  rw [Nat.add_right_comm, Nat.add_assoc]

theorem inOrder_append (start : Nat) (first second : List V) :
    inOrder start (first ++ second) =
      inOrder start first ++ inOrder (start + first.length) second := by
  induction first generalizing start with
  | nil => rfl
  | cons v first ih =>
    rw [List.cons_append, inOrder_cons, inOrder_cons, ih, List.cons_append, List.length_cons]
    congr 3
    omega

theorem map_range_eq_inOrder {f : Nat → Nat × V}
    (h : ∀ i v, values[i]? = some v → f i = (start + i, v)) :
    (List.range values.length).map f = inOrder start values := by
  apply List.ext_getElem
  · simp
  · intro i hi hi'
    have hlt : i < values.length := by simpa using hi'
    simp only [List.getElem_map, List.getElem_range, inOrder, List.getElem_mapIdx]
    exact h i _ (List.getElem?_eq_getElem hlt)

theorem inOrder_map_range (start n : Nat) (f : Nat → V) :
    inOrder start ((List.range n).map f) = (List.range n).map fun i => (start + i, f i) := by
  apply List.ext_getElem
  · simp
  · intro i hi hi'
    simp [inOrder]

theorem mem_inOrder {w : Nat × V} :
    w ∈ inOrder start values ↔ ∃ i, values[i]? = some w.2 ∧ w.1 = start + i := by
  constructor
  · intro h
    obtain ⟨i, hi, rfl⟩ := List.mem_mapIdx.mp h
    exact ⟨i, List.getElem?_eq_getElem hi, rfl⟩
  · rintro ⟨i, hi, hw⟩
    obtain ⟨hlt, hv⟩ := List.getElem?_eq_some_iff.mp hi
    exact List.mem_mapIdx.mpr ⟨i, hlt, Prod.ext hw.symm hv⟩

theorem apply_inOrder {v : V} (h : values[i]? = some v) :
    apply m (inOrder start values) (start + i) = v := by
  apply apply_written
  · exact ⟨(start + i, v), mem_inOrder.mpr ⟨i, h, rfl⟩, rfl⟩
  · intro w hw heq
    obtain ⟨j, hj, hplace⟩ := mem_inOrder.mp hw
    have hij : j = i := Nat.add_left_cancel (hplace.symm.trans heq)
    rw [hij, h] at hj
    exact (Option.some.inj hj).symm

end ordered

end Writes
