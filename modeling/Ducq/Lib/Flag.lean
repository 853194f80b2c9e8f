import Ducq.Lib.Fifo

/-!
# A flag that some steps set and others clear

A state may carry a flag without having a place for it: something else in the state tells
whether it is set.  What that comes to is said of the labels of a run.  `Since set clear es`
is that a label of `es` sets the flag and none behind it clears it; if that is what every
step does to the flag, it is what a run does (`flag_run_iff`).

Where a step that sets the flag is taken only while it is not set, two such steps have one
between them that clears it (`exists_clear_between`).
-/

namespace Flag

open Fifo

variable {σ ε : Type*}

/-- The flag was set, and has not been cleared since. -/
def Since (set clear : ε → Prop) (es : List ε) : Prop :=
  ∃ before e after, es = before ++ e :: after ∧ set e ∧ ∀ e' ∈ after, ¬ clear e'

variable {set clear : ε → Prop} {e : ε} {es : List ε}

theorem not_since_nil : ¬ Since set clear [] := by
  rintro ⟨before, e, after, h, -, -⟩
  exact List.append_ne_nil_of_right_ne_nil before (List.cons_ne_nil e after) h.symm

theorem since_cons_iff :
    Since set clear (e :: es) ↔ (set e ∧ ∀ e' ∈ es, ¬ clear e') ∨ Since set clear es := by
  constructor
  · rintro ⟨before, a, after, h, hset, hclear⟩
    cases before with
    | nil =>
      obtain ⟨rfl, rfl⟩ := List.cons.inj h
      exact .inl ⟨hset, hclear⟩
    | cons b before => exact .inr ⟨before, a, after, (List.cons.inj h).2, hset, hclear⟩
  · rintro (⟨hset, hclear⟩ | ⟨before, a, after, rfl, hset, hclear⟩)
    · exact ⟨[], e, es, rfl, hset, hclear⟩
    · exact ⟨e :: before, a, after, rfl, hset, hclear⟩

section Runs

variable {step : σ → ε → σ → Prop} {flag : σ → Prop} {s s' : σ}

/-- **What every step does to the flag, a run does.** -/
theorem flag_run_iff (h : ∀ s e s', step s e s' → (flag s' ↔ set e ∨ flag s ∧ ¬ clear e))
    (hrun : Run step s es s') :
    flag s' ↔ Since set clear es ∨ flag s ∧ ∀ e ∈ es, ¬ clear e := by
  induction hrun with
  | nil s => simp [not_since_nil]
  | cons hstep _ ih =>
    rw [ih, h _ _ _ hstep, since_cons_iff, List.forall_mem_cons, or_and_right, and_assoc,
      ← or_assoc, or_comm (a := Since set clear _)]

/-- A run that goes on after a first part, with what the flag is in between. -/
theorem exists_flag_between (h : ∀ s e s', step s e s' → (flag s' ↔ set e ∨ flag s ∧ ¬ clear e))
    {before after : List ε} (hs : ¬ flag s) (hrun : Run step s (before ++ e :: after) s') :
    ∃ s₁ s₂, step s₁ e s₂ ∧ (flag s₁ ↔ Since set clear before) := by
  obtain ⟨s₁, hbefore, hafter⟩ := hrun.of_append
  obtain _ | ⟨hstep, -⟩ := hafter
  refine ⟨s₁, _, hstep, ?_⟩
  rw [flag_run_iff h hbefore, or_iff_left fun hc => hs hc.1]

/-- **Between two steps that set the flag** there is one that clears it, if none of them is
taken while it is set. -/
theorem exists_clear_between
    (h : ∀ s e s', step s e s' → (flag s' ↔ set e ∨ flag s ∧ ¬ clear e))
    (hset : ∀ s e s', step s e s' → set e → ¬ flag s) {before mid after : List ε} {e' : ε}
    (hs : ¬ flag s) (hrun : Run step s (before ++ e :: (mid ++ e' :: after)) s')
    (he : set e) (he' : set e') : ∃ x ∈ mid, clear x := by
  rw [← List.cons_append, ← List.append_assoc] at hrun
  obtain ⟨s₁, s₂, hstep, hflag⟩ := exists_flag_between h hs hrun
  by_contra hnone
  push Not at hnone
  exact hset _ _ _ hstep he' (hflag.mpr ⟨before, e, mid, rfl, he, hnone⟩)

end Runs

end Flag
