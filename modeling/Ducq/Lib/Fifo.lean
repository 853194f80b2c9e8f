import Mathlib.Data.List.Basic

/-!
# Queues along a run

A system that takes labelled steps is a relation `step s e s'`; a `Run` is a finite
sequence of steps with the labels on the way.  Such a system carries a family of
queues when every step takes something from the front of each and puts something at
its back, what it takes and puts being read off the label.

The bookkeeping is one equation, `q ++ put = taken ++ q'`, that holds of a step and
therefore of a run (`Carries.run`).  From empty queues it says that what was taken is
the beginning of what was put in, in the same order (`Carries.from_empty`).
-/

namespace Fifo

variable {σ ε ι α : Type*}

/-- A finite sequence of steps. -/
inductive Run (step : σ → ε → σ → Prop) : σ → List ε → σ → Prop
  | nil (s : σ) : Run step s [] s
  | cons {s s' s'' : σ} {e : ε} {es : List ε} :
      step s e s' → Run step s' es s'' → Run step s (e :: es) s''

/-- A run over a list in two parts comes to a state between them. -/
theorem Run.of_append {step : σ → ε → σ → Prop} {s s'' : σ} {es es' : List ε}
    (hrun : Run step s (es ++ es') s'') : ∃ s', Run step s es s' ∧ Run step s' es' s'' := by
  induction es generalizing s with
  | nil => exact ⟨s, .nil s, hrun⟩
  | cons e es ih =>
    obtain _ | ⟨hstep, hrest⟩ := hrun
    obtain ⟨s', hes, hes'⟩ := ih hrest
    exact ⟨s', .cons hstep hes, hes'⟩

/-- What every step from a state with the invariant shows, the labels of a run show. -/
theorem Run.forall_mem {step : σ → ε → σ → Prop} {I : σ → Prop} {P : ε → Prop}
    (h : ∀ s e s', I s → step s e s' → I s' ∧ P e) {s s' : σ} {es : List ε}
    (hrun : Run step s es s') (hs : I s) : I s' ∧ ∀ e ∈ es, P e := by
  induction hrun with
  | nil s => exact ⟨hs, fun e he => absurd he List.not_mem_nil⟩
  | cons hstep _ ih =>
    obtain ⟨hs', he⟩ := h _ _ _ hs hstep
    obtain ⟨hs'', hes⟩ := ih hs'
    exact ⟨hs'', List.forall_mem_cons.mpr ⟨he, hes⟩⟩

/-- The steps move the queues `holds` gives a state: what a label says it takes from the
front and puts at the back. -/
def Carries (step : σ → ε → σ → Prop) (puts takes : ι → ε → List α)
    (holds : σ → (ι → List α) → Prop) : Prop :=
  ∀ s e s' q, holds s q → step s e s' →
    ∃ q', holds s' q' ∧ ∀ i, q i ++ puts i e = takes i e ++ q' i

variable {step : σ → ε → σ → Prop} {puts takes : ι → ε → List α}
  {holds : σ → (ι → List α) → Prop}

/-- **What holds of a step holds of a run.** -/
theorem Carries.run (h : Carries step puts takes holds) {s s' : σ} {es : List ε}
    (hrun : Run step s es s') {q : ι → List α} (hq : holds s q) :
    ∃ q', holds s' q' ∧ ∀ i, q i ++ es.flatMap (puts i) = es.flatMap (takes i) ++ q' i := by
  induction hrun generalizing q with
  | nil s => exact ⟨q, hq, fun i => by rw [List.flatMap_nil, List.flatMap_nil, List.append_nil,
      List.nil_append]⟩
  | cons hstep _ ih =>
    obtain ⟨q', hq', hmove⟩ := h _ _ _ _ hq hstep
    obtain ⟨q'', hq'', hmoves⟩ := ih hq'
    refine ⟨q'', hq'', fun i => ?_⟩
    rw [List.flatMap_cons, List.flatMap_cons, ← List.append_assoc, hmove i, List.append_assoc,
      hmoves i, List.append_assoc]

/-- **From empty queues, what was taken is the beginning of what was put in.** -/
theorem Carries.from_empty (h : Carries step puts takes holds) {s s' : σ} {es : List ε}
    (hrun : Run step s es s') (hq : holds s fun _ => []) :
    ∃ q', holds s' q' ∧ ∀ i, es.flatMap (takes i) <+: es.flatMap (puts i) ∧
      (q' i = [] → es.flatMap (takes i) = es.flatMap (puts i)) := by
  obtain ⟨q', hq', hmoves⟩ := h.run hrun hq
  refine ⟨q', hq', fun i => ?_⟩
  have hi := hmoves i
  rw [List.nil_append] at hi
  refine ⟨⟨q' i, hi.symm⟩, fun hnil => ?_⟩
  rw [hi, hnil, List.append_nil]

end Fifo
