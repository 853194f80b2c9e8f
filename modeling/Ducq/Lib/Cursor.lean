import Ducq.Lib.Sweep
import Mathlib.Data.List.Sort

/-!
# A cursor over a table that changes

A cursor is an index.  Asked for the next place it looks from there on for the first
place that is taken, returns it, and moves behind it; the table may have become another
one since it was asked last.  What a cursor meets is therefore a list of snapshots, one
for each time it is asked, and `walk` is what it returns.

Whatever the snapshots are, the places come in ascending order (`pairwise_walk`), each
taken when it is returned (`of_mem_walk`); a cursor that has come to the end
has returned every place that was taken in all of them (`mem_walk_of_taken`); and where
nothing changes it has returned what is taken (`walk_replicate`).
-/

namespace Cursor

open Sweep

variable {n : ℕ}

/-- The first place from an index on that is taken. -/
def nextFrom (taken : Fin n → Bool) (c : ℕ) : Option (Fin n) :=
  (List.finRange n).find? fun i => decide (c ≤ i) && taken i

/-- What a cursor returns that is asked once for each snapshot, and whether it has come to
the end. -/
def walk : ℕ → List (Fin n → Bool) → List (Fin n) × Bool
  | _, [] => ([], false)
  | c, taken :: snapshots =>
    match nextFrom taken c with
    | none => ([], true)
    | some i => (i :: (walk (i + 1) snapshots).1, (walk (i + 1) snapshots).2)

variable {taken : Fin n → Bool} {c : ℕ} {snapshots : List (Fin n → Bool)}

theorem nextFrom_eq_some_iff {i : Fin n} :
    nextFrom taken c = some i ↔
      (c ≤ i ∧ taken i = true) ∧ ∀ j < i, c ≤ j → taken j = false := by
  rw [nextFrom, find?_finRange, Bool.and_eq_true, decide_eq_true_iff]
  refine and_congr_right fun _ => forall₂_congr fun j _ => ?_
  rw [Bool.and_eq_false_imp, decide_eq_true_iff]

theorem nextFrom_eq_none_iff : nextFrom taken c = none ↔ ∀ i : Fin n, c ≤ i → taken i = false := by
  rw [nextFrom, List.find?_eq_none]
  simp

theorem walk_cons_none (h : nextFrom taken c = none) :
    walk c (taken :: snapshots) = ([], true) := by
  rw [walk, h]

theorem walk_cons_some {i : Fin n} (h : nextFrom taken c = some i) :
    walk c (taken :: snapshots) =
      (i :: (walk (i + 1) snapshots).1, (walk (i + 1) snapshots).2) := by
  rw [walk, h]

/-- **A place that is returned** lies ahead of the cursor, and is taken at the time. -/
theorem of_mem_walk {i : Fin n} (hi : i ∈ (walk c snapshots).1) :
    c ≤ i ∧ ∃ taken ∈ snapshots, taken i = true := by
  induction snapshots generalizing c with
  | nil => exact absurd hi List.not_mem_nil
  | cons taken snapshots ih =>
    cases hnext : nextFrom taken c with
    | none =>
      rw [walk_cons_none hnext] at hi
      exact absurd hi List.not_mem_nil
    | some j =>
      obtain ⟨⟨hle, htaken⟩, -⟩ := nextFrom_eq_some_iff.mp hnext
      rw [walk_cons_some hnext] at hi
      rcases List.mem_cons.mp hi with rfl | hi
      · exact ⟨hle, taken, List.mem_cons_self, htaken⟩
      · obtain ⟨hlt, t, ht, hti⟩ := ih hi
        exact ⟨by omega, t, List.mem_cons_of_mem _ ht, hti⟩

/-- **The places come in ascending order**, and none comes twice. -/
theorem pairwise_walk (c : ℕ) (snapshots : List (Fin n → Bool)) :
    (walk c snapshots).1.Pairwise (· < ·) := by
  induction snapshots generalizing c with
  | nil => exact List.Pairwise.nil
  | cons taken snapshots ih =>
    cases hnext : nextFrom taken c with
    | none =>
      rw [walk_cons_none hnext]
      exact List.Pairwise.nil
    | some j =>
      rw [walk_cons_some hnext]
      exact List.Pairwise.cons (fun i hi => Fin.lt_def.mpr (of_mem_walk hi).1) (ih _)

/-- **At the end nothing was missed** that was taken all the time. -/
theorem mem_walk_of_taken (hend : (walk c snapshots).2 = true) {i : Fin n} (hc : c ≤ i)
    (hi : ∀ taken ∈ snapshots, taken i = true) : i ∈ (walk c snapshots).1 := by
  induction snapshots generalizing c with
  | nil => exact absurd hend Bool.false_ne_true
  | cons taken snapshots ih =>
    have htaken := hi taken List.mem_cons_self
    cases hnext : nextFrom taken c with
    | none => exact absurd htaken (by simp [nextFrom_eq_none_iff.mp hnext i hc])
    | some j =>
      rw [walk_cons_some hnext] at hend ⊢
      rcases lt_trichotomy i j with hlt | rfl | hgt
      · exact absurd htaken (by simp [(nextFrom_eq_some_iff.mp hnext).2 i hlt hc])
      · exact List.mem_cons_self
      · exact List.mem_cons_of_mem _
          (ih hend (Fin.lt_def.mp hgt) fun t ht => hi t (List.mem_cons_of_mem _ ht))

/-- A cursor that is asked often enough comes to the end. -/
theorem walk_ends (c : ℕ) (snapshots : List (Fin n → Bool)) (hlen : n < c + snapshots.length)
    (hc : c ≤ n) : (walk c snapshots).2 = true := by
  induction snapshots generalizing c with
  | nil =>
    rw [List.length_nil] at hlen
    omega
  | cons taken snapshots ih =>
    rw [List.length_cons] at hlen
    cases hnext : nextFrom taken c with
    | none => rw [walk_cons_none hnext]
    | some i =>
      have hi := (nextFrom_eq_some_iff.mp hnext).1.1
      rw [walk_cons_some hnext]
      exact ih _ (by omega) i.isLt

/-- **Where nothing changes**, the cursor returns what is taken. -/
theorem walk_replicate (taken : Fin n → Bool) {k : ℕ}
    (hend : (walk 0 (List.replicate k taken)).2 = true) :
    (walk 0 (List.replicate k taken)).1 = (List.finRange n).filter taken := by
  refine (pairwise_walk 0 _).eq_of_mem_iff
    ((List.pairwise_lt_finRange n).sublist List.filter_sublist) fun i => ?_
  rw [List.mem_filter, and_iff_right (List.mem_finRange i)]
  constructor
  · intro hi
    obtain ⟨-, t, ht, hti⟩ := of_mem_walk hi
    rwa [← List.eq_of_mem_replicate ht]
  · intro hi
    refine mem_walk_of_taken hend (Nat.zero_le _) fun t ht => ?_
    rwa [List.eq_of_mem_replicate ht]

end Cursor
