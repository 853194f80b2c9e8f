import Mathlib.Data.List.Basic
import Mathlib.Data.List.FinRange
import Mathlib.Tactic.Common

/-!
# Sweeping over a table, with early exit

`sweep turn is s` runs one turn at each index of a list, each turn on the state the
turns before it left behind, until a turn says to stop.  It is the loop of a program
that walks a table while the bodies of the loop change the table.

Three rules are enough for everything that is proved about such loops here.  The
invariant rule (`sweep_invariant`) asks nothing of the order of the turns.  The
simulation rule (`sweep_simulates`) compares a sweep over the places of a table with a
sweep over what is in them: some places are passed over, the others do the same turn
as the thing they hold, and the relation between the two states may depend on the
places still to come.  The projection rule (`sweep_map`) forgets a part of the state.

A table is also searched for the first place with some property; `find?_finRange` says
what such a search finds.
-/

namespace Sweep

variable {ι κ S T : Type*}

/-- Run a turn at each index in order, until one says to stop. -/
def sweep (turn : ι → S → Bool × S) : List ι → S → S
  | [], s => s
  | i :: is, s =>
    match turn i s with
    | (true, s) => s
    | (false, s) => sweep turn is s

variable {turn : ι → S → Bool × S} {turn' : κ → T → Bool × T}

@[simp] theorem sweep_nil (s : S) : sweep turn [] s = s := rfl

theorem sweep_cons_stop {i : ι} {s : S} (h : (turn i s).1 = true) (is : List ι) :
    sweep turn (i :: is) s = (turn i s).2 := by
  rw [sweep]
  rcases ht : turn i s with ⟨stop, s'⟩
  rw [ht] at h
  rw [show stop = true from h]

theorem sweep_cons_go {i : ι} {s : S} (h : (turn i s).1 = false) (is : List ι) :
    sweep turn (i :: is) s = sweep turn is (turn i s).2 := by
  rw [sweep]
  rcases ht : turn i s with ⟨stop, s'⟩
  rw [ht] at h
  rw [show stop = false from h]

/-- **The invariant rule.** -/
theorem sweep_invariant {P : S → Prop} {is : List ι}
    (h : ∀ i ∈ is, ∀ s, P s → P (turn i s).2) {s : S} (hs : P s) : P (sweep turn is s) := by
  induction is generalizing s with
  | nil => exact hs
  | cons i is ih =>
    have hi := h i List.mem_cons_self s hs
    cases hstop : (turn i s).1 with
    | true => rwa [sweep_cons_stop hstop]
    | false =>
      rw [sweep_cons_go hstop]
      exact ih (fun j hj => h j (List.mem_cons_of_mem _ hj)) hi

/-- Turns that do nothing do nothing. -/
theorem sweep_idle {is : List ι} {s : S} (h : ∀ i ∈ is, turn i s = (false, s)) :
    sweep turn is s = s := by
  induction is with
  | nil => rfl
  | cons i is ih =>
    have hi := h i List.mem_cons_self
    rw [sweep_cons_go (by rw [hi]), hi]
    exact ih fun j hj => h j (List.mem_cons_of_mem _ hj)

/-- The first turn that does something stops the sweep. -/
theorem sweep_first {pre post : List ι} {i : ι} {s : S}
    (hpre : ∀ j ∈ pre, turn j s = (false, s)) (hi : (turn i s).1 = true) :
    sweep turn (pre ++ i :: post) s = (turn i s).2 := by
  induction pre with
  | nil => exact sweep_cons_stop hi post
  | cons j pre ih =>
    have hj := hpre j List.mem_cons_self
    rw [List.cons_append, sweep_cons_go (by rw [hj]), hj]
    exact ih fun k hk => hpre k (List.mem_cons_of_mem _ hk)

/-- **The simulation rule.** -/
theorem sweep_simulates {R : List ι → S → T → Prop} {f : ι → Option κ}
    (hskip : ∀ i is s t, f i = none → R (i :: is) s t →
      (turn i s).1 = false ∧ R is (turn i s).2 t)
    (hvisit : ∀ i is s t k, f i = some k → R (i :: is) s t →
      (turn i s).1 = (turn' k t).1 ∧ R is (turn i s).2 (turn' k t).2)
    {is : List ι} {s : S} {t : T} (h : R is s t) :
    ∃ rest, R rest (sweep turn is s) (sweep turn' (is.filterMap f) t) := by
  induction is generalizing s t with
  | nil => exact ⟨[], h⟩
  | cons i is ih =>
    cases hf : f i with
    | none =>
      obtain ⟨hgo, hR⟩ := hskip i is s t hf h
      rw [sweep_cons_go hgo, List.filterMap_cons_none hf]
      exact ih hR
    | some k =>
      obtain ⟨hsame, hR⟩ := hvisit i is s t k hf h
      rw [List.filterMap_cons_some hf]
      cases hstop : (turn i s).1 with
      | true =>
        rw [sweep_cons_stop hstop, sweep_cons_stop (hsame.symm.trans hstop)]
        exact ⟨is, hR⟩
      | false =>
        rw [sweep_cons_go hstop, sweep_cons_go (hsame.symm.trans hstop)]
        exact ih hR

/-- **The projection rule.**  If each turn does to a part of the state what another turn does
to it alone, so does the sweep. -/
theorem sweep_map {turn' : ι → T → Bool × T} {f : S → T}
    (h : ∀ i s, turn' i (f s) = ((turn i s).1, f (turn i s).2)) (is : List ι) (s : S) :
    f (sweep turn is s) = sweep turn' is (f s) := by
  induction is generalizing s with
  | nil => rfl
  | cons i is ih =>
    cases hstop : (turn i s).1 with
    | true => rw [sweep_cons_stop hstop, sweep_cons_stop (by rw [h, hstop]), h]
    | false => rw [sweep_cons_go hstop, sweep_cons_go (by rw [h, hstop]), h, ih]

/-! ## What the turns start from -/

/-- Every turn that is taken starts from a state with some property. -/
def EachTurn (turn : ι → S → Bool × S) (P : ι → S → Prop) : List ι → S → Prop
  | [], _ => True
  | i :: is, s => P i s ∧ ((turn i s).1 = false → EachTurn turn P is (turn i s).2)

instance decidableEachTurn (turn : ι → S → Bool × S) (P : ι → S → Prop)
    [∀ i s, Decidable (P i s)] : (is : List ι) → (s : S) → Decidable (EachTurn turn P is s)
  | [], _ => instDecidableTrue
  | i :: is, s =>
    have := decidableEachTurn turn P is (turn i s).2
    inferInstanceAs (Decidable (P i s ∧ ((turn i s).1 = false → EachTurn turn P is (turn i s).2)))

/-- **The invariant rule**, where the turns that are taken start from such states. -/
theorem sweep_invariant_of_eachTurn {P : S → Prop} {Q : ι → S → Prop} {is : List ι}
    (h : ∀ i ∈ is, ∀ s, P s → Q i s → P (turn i s).2) {s : S} (hs : P s)
    (hQ : EachTurn turn Q is s) : P (sweep turn is s) := by
  induction is generalizing s with
  | nil => exact hs
  | cons i is ih =>
    obtain ⟨hfirst, hrest⟩ := hQ
    have hi := h i List.mem_cons_self s hs hfirst
    cases hstop : (turn i s).1 with
    | true => rwa [sweep_cons_stop hstop]
    | false =>
      rw [sweep_cons_go hstop]
      exact ih (fun j hj => h j (List.mem_cons_of_mem _ hj)) hi (hrest hstop)

/-! ## The first place -/

/-- A search from the lowest index on finds the least one. -/
theorem find?_finRange {n : ℕ} {p : Fin n → Bool} {i : Fin n} :
    (List.finRange n).find? p = some i ↔ p i = true ∧ ∀ j < i, p j = false := by
  rw [List.find?_eq_some_iff_getElem]
  refine and_congr_right fun _ => ⟨?_, fun h => ?_⟩
  · rintro ⟨k, hk, rfl, hlt⟩ j hj
    have hjk : j.val < k := by simpa [Fin.lt_def] using hj
    simpa using hlt j.val hjk
  · refine ⟨i.val, by simp, by simp, fun j hj => ?_⟩
    simpa using h ⟨j, hj.trans i.isLt⟩ hj

end Sweep
