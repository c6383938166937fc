import Mathlib.Tactic.Common

/-! # Transition systems and their invariants -/

namespace Transitions
set_option autoImplicit false

universe u
variable {σ : Type u}

structure System (σ : Type u) where
  start : σ → Prop
  step : σ → σ → Prop

inductive System.Reachable (m : System σ) : σ → Prop where
  | start {s : σ} : m.start s → Reachable m s
  | step {s s' : σ} : Reachable m s → m.step s s' → Reachable m s'

namespace System
variable {m : System σ} {p q : σ → Prop}

theorem Reachable.invariant (hstart : ∀ s, m.start s → p s)
    (hstep : ∀ s s', p s → m.step s s' → p s') {s : σ} (h : m.Reachable s) : p s := by
  induction h with
  | start h => exact hstart _ h
  | step _ h ih => exact hstep _ _ ih h

theorem Reachable.invariant_with (hq : ∀ s, m.Reachable s → q s) (hstart : ∀ s, m.start s → p s)
    (hstep : ∀ s s', q s → p s → m.step s s' → p s') {s : σ} (h : m.Reachable s) : p s := by
  induction h with
  | start h => exact hstart _ h
  | step hs h ih => exact hstep _ _ (hq _ hs) ih h

end System

/-- `n` steps of a relation. -/
inductive Steps (r : σ → σ → Prop) : Nat → σ → σ → Prop where
  | refl (s : σ) : Steps r 0 s s
  | step {n : Nat} {s t u : σ} : Steps r n s t → r t u → Steps r (n + 1) s u

section progress
variable {r : σ → σ → Prop} {good finished : σ → Prop} {work : σ → Nat} {n : Nat} {s t : σ}

/-- Steps that use up work are as many as there is work, at most. -/
theorem Steps.bounded (hgood : ∀ s t, good s → r s t → good t)
    (hless : ∀ s t, good s → r s t → work t < work s) (h : Steps r n s t) (hs : good s) :
    good t ∧ n + work t ≤ work s := by
  induction h with
  | refl => exact ⟨hs, Nat.le_of_eq (Nat.zero_add _)⟩
  | step _ hstep ih =>
    obtain ⟨ht, hle⟩ := ih hs
    have hlt := hless _ _ ht hstep
    exact ⟨hgood _ _ ht hstep, by omega⟩

theorem exists_finished (hgood : ∀ s t, good s → r s t → good t)
    (hless : ∀ s t, good s → r s t → work t < work s)
    (hnext : ∀ s, good s → ¬finished s → ∃ t, r s t) (hs : good s) :
    ∃ n t, Steps r n s t ∧ finished t := by
  suffices h : ∀ k n t, Steps r n s t → good t → work t ≤ k → ∃ n t, Steps r n s t ∧ finished t by
    exact h _ _ _ (.refl s) hs (Nat.le_refl _)
  intro k
  induction k with
  | zero =>
    intro n t hrun ht hwork
    by_cases hfinished : finished t
    · exact ⟨n, t, hrun, hfinished⟩
    · obtain ⟨u, hu⟩ := hnext t ht hfinished
      have hlt := hless t u ht hu
      omega
  | succ k ih =>
    intro n t hrun ht hwork
    by_cases hfinished : finished t
    · exact ⟨n, t, hrun, hfinished⟩
    · obtain ⟨u, hu⟩ := hnext t ht hfinished
      have hlt := hless t u ht hu
      exact ih _ _ (.step hrun hu) (hgood t u ht hu) (by omega)

end progress

end Transitions
