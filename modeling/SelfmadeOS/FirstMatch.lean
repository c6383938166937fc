import SelfmadeOS.StateRuns

/-!
# Searches that end with the first match

A loop whose body may return looks at its candidates in order. Nested loops look at the
candidates of the inner ones, one after the other.
-/

namespace FirstMatch
set_option autoImplicit false

universe u
variable {ε R α β ι : Type u}

/-- The candidates up to the first that matches, and that one. -/
def scanned (p : α → Bool) : List α → List α
  | [] => []
  | a :: rest => if p a then [a] else a :: scanned p rest

/-- The program reads the place of each candidate that it looks at and returns for the first that
matches. -/
def Scans (p : α → Bool) (place : α → R) (candidates : List α)
    (x : EStateM ε (List R) (Option α)) : Prop :=
  ∀ reads, x reads = .ok (candidates.find? p) (reads ++ (scanned p candidates).map place)

section lists
variable {p : α → Bool} {first second candidates : List α} {a b : α}

theorem scanned_prefix (p : α → Bool) (candidates : List α) :
    ∃ rest, candidates = scanned p candidates ++ rest := by
  induction candidates with
  | nil => exact ⟨[], rfl⟩
  | cons a candidates ih =>
    obtain ⟨rest, hrest⟩ := ih
    unfold scanned
    split
    · exact ⟨candidates, rfl⟩
    · exact ⟨rest, congrArg (List.cons a) hrest⟩

theorem scanned_pairwise {r : α → α → Prop} (h : candidates.Pairwise r) :
    (scanned p candidates).Pairwise r := by
  obtain ⟨rest, hrest⟩ := scanned_prefix p candidates
  rw [hrest] at h
  exact (List.pairwise_append.mp h).1

theorem scanned_append_some (h : first.find? p = some a) :
    scanned p (first ++ second) = scanned p first := by
  induction first with
  | nil => cases h
  | cons b first ih =>
    rw [List.cons_append]
    unfold scanned
    by_cases hb : p b
    · rw [if_pos hb, if_pos hb]
    · rw [List.find?_cons_of_neg hb] at h
      rw [if_neg hb, if_neg hb, ih h]

theorem scanned_append_none (h : first.find? p = none) :
    scanned p (first ++ second) = scanned p first ++ scanned p second := by
  induction first with
  | nil => rfl
  | cons b first ih =>
    have hb : ¬ p b := List.find?_eq_none.mp h b List.mem_cons_self
    rw [List.find?_cons_of_neg hb] at h
    rw [List.cons_append, scanned, if_neg hb, ih h, scanned, if_neg hb, List.cons_append]

theorem find?_least {r : α → α → Prop} (hsorted : candidates.Pairwise r)
    (h : candidates.find? p = some a) (hb : b ∈ candidates) (hmatch : p b) : b = a ∨ r a b := by
  obtain ⟨-, before, after, rfl, hbefore⟩ := List.find?_eq_some_iff_append.mp h
  rcases List.mem_append.mp hb with hearly | hlate
  · have hnot := hbefore b hearly
    rw [hmatch] at hnot
    cases hnot
  · rcases List.mem_cons.mp hlate with rfl | hlater
    · exact Or.inl rfl
    · have hcons := (List.pairwise_append.mp hsorted).2.1
      exact Or.inr ((List.pairwise_cons.mp hcons).1 b hlater)

end lists

section loops
variable {p : α → Bool} {place : α → R}

theorem Scans.nil : Scans p place [] (pure none : EStateM ε (List R) (Option α)) := by
  intro reads
  rw [scanned, List.map_nil, List.append_nil]
  rfl

theorem Scans.loop {f : ι → EStateM ε (List R) (Option α)} {candidates : ι → List α}
    {xs : List ι} (h : ∀ i ∈ xs, Scans p place (candidates i) (f i)) :
    Scans p place (xs.flatMap candidates) (xs.findSomeM? f) := by
  induction xs with
  | nil => exact Scans.nil
  | cons i xs ih =>
    obtain ⟨hi, hxs⟩ := List.forall_mem_cons.mp h
    intro reads
    rw [List.findSomeM?, StateRuns.bind_run (hi reads), List.flatMap_cons, List.find?_append]
    cases hfind : (candidates i).find? p with
    | some a =>
      rw [scanned_append_some hfind]
      rfl
    | none =>
      rw [scanned_append_none hfind, List.map_append, ← List.append_assoc]
      exact ih hxs _

end loops

end FirstMatch
