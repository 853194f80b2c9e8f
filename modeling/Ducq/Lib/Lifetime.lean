import Mathlib.Data.List.Basic
import Mathlib.Tactic.Common

/-!
# Lifetimes in a trace

A trace uses objects and releases them.  Some objects are alive when it starts, none
comes to life while it runs.  `Respects alive es` says that no object is used that is
not alive by then, and `after alive es` is what is alive in the end; a trace that goes
on after another one starts from there (`respects_append`).
-/

namespace Lifetime

variable {κ : Type*}

/-- What a step of the trace does to an object, if anything. -/
inductive Event (κ : Type*) where
  | use (k : κ)
  | release (k : κ)
  | other

/-- What is alive after a trace. -/
def after (alive : κ → Prop) (es : List (Event κ)) (k : κ) : Prop :=
  alive k ∧ Event.release k ∉ es

/-- No object is used after its release, nor one that was not alive to begin with. -/
def Respects : (κ → Prop) → List (Event κ) → Prop
  | _, [] => True
  | alive, e :: es => (∀ k, e = .use k → alive k) ∧ Respects (after alive [e]) es

variable {alive : κ → Prop}

@[simp] theorem after_nil : after alive [] = alive := by
  ext k
  simp [after]

theorem after_append (es es' : List (Event κ)) :
    after alive (es ++ es') = after (after alive es) es' := by
  ext k
  simp [after, and_assoc]

@[simp] theorem respects_nil : Respects alive [] := trivial

theorem respects_cons {e : Event κ} {es : List (Event κ)} :
    Respects alive (e :: es) ↔ (∀ k, e = .use k → alive k) ∧ Respects (after alive [e]) es :=
  Iff.rfl

/-- **A trace that goes on starts from what the one before left alive.** -/
theorem respects_append {es es' : List (Event κ)} :
    Respects alive (es ++ es') ↔ Respects alive es ∧ Respects (after alive es) es' := by
  induction es generalizing alive with
  | nil => simp
  | cons e es ih =>
    rw [List.cons_append, respects_cons, ih, respects_cons, ← after_append, and_assoc]
    rfl

/-- A use, at the end of a trace. -/
theorem respects_use {k : κ} : Respects alive [.use k] ↔ alive k := by
  simp [Respects]

end Lifetime
