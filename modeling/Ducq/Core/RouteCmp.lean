import Ducq.Core.Parse
import Ducq.Lib.Glob

/-!
# What `ducq_route_cmp` accepts

The claim a subscriber relies on is about a language: `*` stands for any characters,
possibly none, and every other character for itself (`Glob.Matches star`).  The code
is a scan with two pointers that jumps at a star and never goes back.

`routeScan_spec` is the one induction over the scan.  On two terminated strings, with
anything behind the terminators, the scan ends with both pointers inside their
strings, and it has used up both strings exactly when `Glob.firstStop` accepts.
Everything else is read off the language of `firstStop`.

* Soundness: an accepted route is covered by the pattern.
* Completeness fails, and it fails exactly where a star would have to swallow an
  occurrence of the character after it.  The patterns for which this never happens
  are `Glob.Greedy`: no star at all, or single characters between the stars and a
  star at the end.
-/

namespace Ducq

open CMemory Glob

/-! ## The scan over terminated strings -/

/-- `strchrnull` is `Glob.jump`; looking for the terminator finds the end. -/
theorem strchrnull_append {p : List Byte} (hp : (0 : Byte) ∉ p) (s u v : List Byte)
    (hs : (0 : Byte) ∉ s) :
    ((s ++ 0 :: u).head?.bind fun c => strchrnull c (p ++ 0 :: v)) =
      some (jump s.head? p ++ 0 :: v) := by
  have key : ∀ c : Byte, strchrnull c (p ++ 0 :: v) =
      some (p.dropWhile (fun b => b ≠ c) ++ 0 :: v) := by
    intro c
    induction p with
    | nil => simp [strchrnull]
    | cons b p ih =>
      rw [List.mem_cons, not_or] at hp
      by_cases hb : b = c
      · rw [List.cons_append, strchrnull, if_neg (by simp [hb]),
          List.dropWhile_cons_of_neg (by simp [hb]), List.cons_append]
      · rw [List.cons_append, strchrnull, if_pos ⟨Ne.symm hp.1, hb⟩,
          List.dropWhile_cons_of_pos (by simpa using hb), ih hp.2]
  cases s with
  | nil =>
    have hall : p.dropWhile (fun b => b ≠ 0) = [] := by
      rw [List.dropWhile_eq_nil_iff]
      intro b hb
      simpa using fun h0 : b = 0 => hp (h0 ▸ hb)
    rw [List.nil_append, List.head?_cons, Option.bind_some, key, hall]
    rfl
  | cons c s => rw [List.cons_append, List.head?_cons, Option.bind_some, key]; rfl

theorem jump_suffix (c : Option Byte) (p : List Byte) : jump c p <:+ p := by
  cases c with
  | none => exact List.nil_suffix
  | some d => exact List.dropWhile_suffix _

/-- One turn of the loop at a star. -/
theorem routeScan_star {s p : List Byte} {b : Byte} (hs : (0 : Byte) ∉ s)
    (hp : (0 : Byte) ∉ b :: p) (u v : List Byte) :
    routeScan (star :: (s ++ 0 :: u)) (b :: (p ++ 0 :: v)) =
      routeScan (s ++ 0 :: u) (jump s.head? (b :: p) ++ 0 :: v) := by
  have hb : b ≠ 0 := fun h => hp (by simp [h])
  have hloop : routeLoop (star :: (s ++ 0 :: u)) (b :: (p ++ 0 :: v)) =
      routeLoop (s ++ 0 :: u) (jump s.head? (b :: p) ++ 0 :: v) := by
    rw [routeLoop, if_neg (by decide)]
    simp only [if_neg hb, if_true]
    have hjump := strchrnull_append hp s u v hs
    rw [List.cons_append] at hjump
    cases hh : (s ++ 0 :: u).head? with
    | none => simp [hh] at hjump
    | some c =>
      rw [hh, Option.bind_some] at hjump
      simp [hjump]
  rw [routeScan, hloop, routeScan]

/-- One turn of the loop at a character both strings have. -/
theorem routeScan_char {c : Byte} (hc : c ≠ star) (h0 : c ≠ 0) (sub pub : List Byte) :
    routeScan (c :: sub) (c :: pub) = routeScan sub pub := by
  have hloop : routeLoop (c :: sub) (c :: pub) = routeLoop sub pub := by
    rw [routeLoop, if_neg h0]
    simp [h0, hc]
  rw [routeScan, hloop, routeScan]

/-- **The scan never leaves its strings, and `firstStop` says how it ends.**  The
induction is on the pattern: the loop takes one character of it at every turn. -/
theorem routeScan_spec {s p : List Byte} (hs : (0 : Byte) ∉ s) (hp : (0 : Byte) ∉ p)
    (u v : List Byte) :
    ∃ s' p', routeScan (s ++ 0 :: u) (p ++ 0 :: v) = some (s' ++ 0 :: u, p' ++ 0 :: v) ∧
      s' <:+ s ∧ p' <:+ p ∧ ((s' = [] ∧ p' = []) ↔ firstStop star s p = true) := by
  induction s generalizing p with
  | nil =>
    have h0 : (0 : Byte) ≠ star := by decide
    refine ⟨[], p, by simp [routeScan, routeLoop, h0], List.suffix_refl _,
      List.suffix_refl _, ?_⟩
    rw [firstStop_nil, List.isEmpty_iff]
    simp
  | cons c s ih =>
    rw [List.mem_cons, not_or] at hs
    have hc0 : c ≠ 0 := Ne.symm hs.1
    cases p with
    | nil =>
      -- the route is used up: only one star may be left
      by_cases hc : c = star
      · subst hc
        refine ⟨s, [], by simp [routeScan, routeLoop], List.suffix_cons _ _,
          List.suffix_refl _, ?_⟩
        simp
      · refine ⟨c :: s, [], by simp [routeScan, routeLoop, hc0, hc], List.suffix_refl _,
          List.suffix_refl _, ?_⟩
        simp [hc]
    | cons b p =>
      have hb0 : b ≠ 0 := fun h => hp (by simp [h])
      by_cases hc : c = star
      · subst hc
        have hj : (0 : Byte) ∉ jump s.head? (b :: p) :=
          fun h => hp ((jump_suffix _ _).mem h)
        obtain ⟨s', p', h1, h2, h3, h4⟩ := ih hs.2 hj
        refine ⟨s', p', ?_, h2.trans (List.suffix_cons _ _), h3.trans (jump_suffix _ _), ?_⟩
        · rw [List.cons_append, List.cons_append, routeScan_star hs.2 hp, h1]
        · rw [h4, firstStop_star]
      · by_cases hcb : c = b
        · subst hcb
          obtain ⟨s', p', h1, h2, h3, h4⟩ := ih hs.2 (fun h => hp (List.mem_cons_of_mem _ h))
          refine ⟨s', p', ?_, h2.trans (List.suffix_cons _ _),
            h3.trans (List.suffix_cons _ _), ?_⟩
          · rw [List.cons_append, List.cons_append, routeScan_char hc hc0, h1]
          · rw [h4, firstStop_char hc]
            simp
        · refine ⟨c :: s, b :: p, ?_, List.suffix_refl _, List.suffix_refl _, ?_⟩
          · simp [routeScan, routeLoop, hc0, hb0, hc, hcb]
          · simp [firstStop_char hc, hcb]

/-- **`ducq_route_cmp` is `Glob.firstStop`.** -/
theorem ducqRouteCmp_eq {s p : List Byte} (hs : (0 : Byte) ∉ s) (hp : (0 : Byte) ∉ p)
    (u v : List Byte) :
    ducqRouteCmp (some (s ++ 0 :: u)) (some (p ++ 0 :: v)) = some (firstStop star s p) := by
  obtain ⟨s', p', h1, h2, h3, h4⟩ := routeScan_spec hs hp u v
  have hhead : ∀ {w q : List Byte} (x : List Byte), (0 : Byte) ∉ w → q <:+ w →
      ∃ b, (q ++ 0 :: x).head? = some b ∧ (b = 0 ↔ q = []) := by
    intro w q x hw hq
    cases q with
    | nil => exact ⟨0, rfl, by simp⟩
    | cons b q =>
      refine ⟨b, rfl, ?_⟩
      have hb : b ≠ 0 := fun h => hw (hq.mem (by simp [h]))
      simp [hb]
  obtain ⟨b, hb, hb0⟩ := hhead u hs h2
  obtain ⟨c, hc, hc0⟩ := hhead v hp h3
  simp only [ducqRouteCmp, h1, hb, hc, Option.bind_eq_bind, Option.bind_some, Option.pure_def]
  cases hf : firstStop star s p with
  | true =>
    obtain ⟨e1, e2⟩ := h4.mpr hf
    rw [if_pos (hb0.mpr e1), hc0.mpr e2]
    rfl
  | false =>
    have hne : ¬ (s' = [] ∧ p' = []) := fun h => by simp [h4.mp h] at hf
    split_ifs with h0
    · have : c ≠ 0 := fun h => hne ⟨hb0.mp h0, hc0.mp h⟩
      simpa using this
    · rfl

/-- **A route accepts itself**, stars and all. -/
theorem ducqRouteCmp_self {r : List Byte} (hr : (0 : Byte) ∉ r) (u v : List Byte) :
    ducqRouteCmp (some (r ++ 0 :: u)) (some (r ++ 0 :: v)) = some true := by
  rw [ducqRouteCmp_eq hr hr, firstStop_self]

/-! ## Nothing leaks -/

/-- **A subscriber receives nothing outside its pattern**, and the scan that decides
it stays inside both strings: the pointers it ends with are suffixes of them, and
they only ever move forward. -/
theorem ducqRouteCmp_sound {s p : List Byte} (hs : (0 : Byte) ∉ s) (hp : (0 : Byte) ∉ p)
    (u v : List Byte) :
    (ducqRouteCmp (some (s ++ 0 :: u)) (some (p ++ 0 :: v)) = some true → Matches star s p) ∧
      ∃ s' p', routeScan (s ++ 0 :: u) (p ++ 0 :: v) = some (s' ++ 0 :: u, p' ++ 0 :: v) ∧
        s' <:+ s ∧ p' <:+ p := by
  refine ⟨fun h => ?_, ?_⟩
  · rw [ducqRouteCmp_eq hs hp] at h
    exact matches_of_firstStop (Option.some.inj h)
  · obtain ⟨s', p', h1, h2, h3, -⟩ := routeScan_spec hs hp u v
    exact ⟨s', p', h1, h2, h3⟩

/-- `a*/b` against `a1/b`, with bytes behind the first terminator. -/
theorem ducqRouteCmp_sound_slash :
    (ducqRouteCmp (some (ascii "a*/b" ++ 0 :: ascii "x")) (some (ascii "a1/b" ++ 0 :: [])) =
        some true ∧
      Matches star (ascii "a*/b") (ascii "a1/b")) := by
  have h : ducqRouteCmp (some (ascii "a*/b" ++ 0 :: ascii "x")) (some (ascii "a1/b" ++ 0 :: [])) =
      some true := by decide
  exact ⟨h, (ducqRouteCmp_sound (by decide) (by decide) (ascii "x") []).1 h⟩

/-! ## What is missed -/

/-- The matcher does its duty on a pattern and a route: if the pattern covers the
route, it says so. -/
def RouteCovered (s p : List Byte) : Prop :=
  Matches star s p → ∀ u v,
    ducqRouteCmp (some (s ++ 0 :: u)) (some (p ++ 0 :: v)) = some true

theorem routeCovered_iff {s p : List Byte} (hs : (0 : Byte) ∉ s) (hp : (0 : Byte) ∉ p) :
    RouteCovered s p ↔ (Matches star s p → firstStop star s p = true) := by
  refine imp_congr_right fun _ => ?_
  simp [ducqRouteCmp_eq hs hp]

/-- **Exactly the routes in which a star can stop early are found.**  On one route
the matcher misses nothing if and only if every star of the pattern can be taken to
stand for characters other than the one that follows it in the pattern; on a pattern
it misses nothing, whatever the route, if and only if the pattern is greedy. -/
theorem routeCovered_iff_firstStop {s : List Byte} (hs : (0 : Byte) ∉ s) :
    (∀ p : List Byte, (0 : Byte) ∉ p →
      (RouteCovered s p ↔ (Matches star s p → FirstStop star s p))) ∧
    ((∀ p : List Byte, (0 : Byte) ∉ p → RouteCovered s p) ↔ Greedy star s) := by
  refine ⟨fun p hp => ?_, ?_⟩
  · rw [routeCovered_iff hs hp, firstStop_iff]
  · have hne : ∀ {q : List Byte}, (0 : Byte) ∉ q ↔ ∀ b ∈ q, b ≠ 0 := by
      intro q
      exact ⟨fun h b hb h0 => h (h0 ▸ hb), fun h h0 => h 0 h0 rfl⟩
    rw [@greedy_iff _ star _ (· ≠ 0) (by decide) _ (hne.mp hs)]
    constructor
    · intro h p hp
      exact (routeCovered_iff hs (hne.mpr hp)).mp (h p (hne.mpr hp))
    · intro h p hp
      exact (routeCovered_iff hs hp).mpr (h p (hne.mp hp))

/-- The pattern `news/*` finds the route `news/today`: what the star stands for may be
anything, since nothing follows it. -/
theorem routeCovered_news : RouteCovered (ascii "news/*") (ascii "news/today") := by
  refine ((routeCovered_iff_firstStop (by decide)).1 _ (by decide)).mpr fun _ => ?_
  exact firstStop_iff.mp (by decide)

/-- **A covered route can be lost.**  The star of `*ab` stops at the first `a` of
`aab`, where `ab` does not go on. -/
theorem not_routeCovered_aab : ¬ RouteCovered (ascii "*ab") (ascii "aab") := by
  intro h
  have hm : Matches star (ascii "*ab") (ascii "aab") :=
    Matches.star [97] (Matches.char (by decide) (Matches.char (by decide) Matches.nil))
  exact absurd (h hm [] []) (by decide)

end Ducq
