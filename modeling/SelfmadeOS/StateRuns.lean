import Mathlib.Tactic.Common

/-!
# Runs of state programs that may stop with an error

A relation between the states before and after (a list that only grows, say) is kept by a
program when it holds between its first and last state, also where the program stops. Then
what is known of the last state can be used in the middle of the run.
-/

namespace StateRuns
set_option autoImplicit false

universe u
variable {ε σ α β : Type u}

/-- The state a run ends in, whether it came back or stopped. -/
def final : EStateM.Result ε σ α → σ
  | .ok _ s => s
  | .error _ s => s

@[simp] theorem final_ok (a : α) (s : σ) : final (.ok a s : EStateM.Result ε σ α) = s := rfl

@[simp] theorem final_error (e : ε) (s : σ) :
    final (.error e s : EStateM.Result ε σ α) = s := rfl

theorem bind_run {x : EStateM ε σ α} {f : α → EStateM ε σ β} {s s' : σ} {a : α}
    (h : x s = .ok a s') : (x >>= f) s = f a s' := by
  simp only [bind, EStateM.bind, h]

theorem bind_stop {x : EStateM ε σ α} {f : α → EStateM ε σ β} {s s' : σ} {e : ε}
    (h : x s = .error e s') : (x >>= f) s = .error e s' := by
  simp only [bind, EStateM.bind, h]

/-- A sequence that came back has come back from its first part. -/
theorem bind_ok {x : EStateM ε σ α} {f : α → EStateM ε σ β} {s s' : σ} {b : β}
    (h : (x >>= f) s = .ok b s') : ∃ a t, x s = .ok a t ∧ f a t = .ok b s' := by
  cases hx : x s with
  | ok a t =>
    rw [bind_run hx] at h
    exact ⟨a, t, rfl, h⟩
  | error e t =>
    rw [bind_stop hx] at h
    cases h

theorem bind_of_eq {x y : EStateM ε σ α} {s t : σ} (h : x s = y t) (f : α → EStateM ε σ β) :
    (x >>= f) s = (y >>= f) t := by
  simp only [bind, EStateM.bind, h]

def Keeps (r : σ → σ → Prop) (x : EStateM ε σ α) : Prop := ∀ s, r s (final (x s))

section Rules
variable {r : σ → σ → Prop} (hrefl : ∀ s, r s s) (htrans : ∀ s t u, r s t → r t u → r s u)
include hrefl

theorem Keeps.pure (a : α) : Keeps r (pure a : EStateM ε σ α) := hrefl

theorem Keeps.throw (e : ε) : Keeps r (throw e : EStateM ε σ α) := hrefl

theorem final_bind {x : EStateM ε σ α} {f : α → EStateM ε σ β} (hf : ∀ a, Keeps r (f a)) (s : σ) :
    r (final (x s)) (final ((x >>= f) s)) := by
  cases hx : x s with
  | ok a s' =>
    rw [bind_run hx]
    exact hf a s'
  | error e s' =>
    rw [bind_stop hx]
    exact hrefl s'

include htrans

theorem Keeps.bind {x : EStateM ε σ α} {f : α → EStateM ε σ β} (hx : Keeps r x)
    (hf : ∀ a, Keeps r (f a)) : Keeps r (x >>= f) :=
  fun s => htrans _ _ _ (hx s) (final_bind hrefl hf s)

end Rules

section Parts
variable {r r' r'' : σ → σ → Prop} (hstop : ∀ s t, r s t → r'' s t)
variable (htrans : ∀ s t u, r s t → r' t u → r'' s u)
include hstop htrans

/-- The parts of a run may keep different relations. -/
theorem seq_final {x : EStateM ε σ α} {f : α → EStateM ε σ β} {s : σ} (hx : r s (final (x s)))
    (hf : ∀ a, Keeps r' (f a)) : r'' s (final ((x >>= f) s)) := by
  cases hrun : x s with
  | ok a t =>
    rw [hrun] at hx
    rw [bind_run hrun]
    exact htrans s t _ hx (hf a t)
  | error e t =>
    rw [hrun] at hx
    rw [bind_stop hrun]
    exact hstop s t hx

theorem Keeps.seq {x : EStateM ε σ α} {f : α → EStateM ε σ β} (hx : Keeps r x)
    (hf : ∀ a, Keeps r' (f a)) : Keeps r'' (x >>= f) :=
  fun s => seq_final hstop htrans (hx s) hf

end Parts

end StateRuns
