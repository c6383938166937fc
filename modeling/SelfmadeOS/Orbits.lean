import Mathlib.Data.Fintype.Pigeonhole
import Mathlib.Logic.Function.Iterate

/-!
# Where an orbit of a finite map can first meet a set

A place that is reached at all is reached before the map has gone through as many steps as there
are places: two of more places are the same, and what lies between them can be left out.
-/

namespace Orbits
set_option autoImplicit false

universe u
variable {α : Type u} (f : α → α)

/-- The steps between two equal places can be left out. -/
theorem iterate_skip {x : α} {i j k : Nat} (hjk : j ≤ k) (h : f^[i] x = f^[j] x) :
    f^[k - j + i] x = f^[k] x := by
  rw [Function.iterate_add_apply, h, ← Function.iterate_add_apply, Nat.sub_add_cancel hjk]

/-- Of more steps than there are places, two lead to the same place. -/
theorem exists_same [Fintype α] (x : α) :
    ∃ i j, i < j ∧ j ≤ Fintype.card α ∧ f^[i] x = f^[j] x := by
  have hcard : Fintype.card α < Fintype.card (Fin (Fintype.card α + 1)) := by
    rw [Fintype.card_fin]
    exact Nat.lt_succ_self _
  obtain ⟨i, j, hne, heq⟩ := Fintype.exists_ne_map_eq_of_card_lt
    (fun i : Fin (Fintype.card α + 1) => f^[i] x) hcard
  rcases Nat.lt_or_gt_of_ne (Fin.val_ne_of_ne hne) with hlt | hlt
  · exact ⟨i, j, hlt, Nat.le_of_lt_succ j.isLt, heq⟩
  · exact ⟨j, i, hlt, Nat.le_of_lt_succ i.isLt, heq.symm⟩

theorem exists_lt_card [Fintype α] {p : α → Prop} {x : α} {k : Nat} (h : p (f^[k] x)) :
    ∃ m < Fintype.card α, p (f^[m] x) := by
  induction k using Nat.strong_induction_on with
  | _ k ih =>
    rcases Nat.lt_or_ge k (Fintype.card α) with hlt | hge
    · exact ⟨k, hlt, h⟩
    · obtain ⟨i, j, hij, hj, heq⟩ := exists_same f x
      rw [← iterate_skip f (Nat.le_trans hj hge) heq] at h
      exact ih (k - j + i) (by omega) h

end Orbits
