import Mathlib.Data.List.TakeWhile
import Mathlib.Data.List.Basic
import Mathlib.Order.Basic
import Mathlib.Tactic.Common

/-!
# Glob patterns, and a matcher that never goes back

Over any alphabet with one distinguished letter `star`, a pattern is a word in which
`star` stands for any word, the empty one included, and every other letter for
itself.  `Matches` is that language.

`firstStop` is the cheapest matcher one can write for it: at a star it looks at the
next letter of the pattern and jumps to the first place where the text has it, and
it never reconsiders.  It is sound (`matches_of_firstStop`) and it is not complete.
Two statements say what it misses.

* For one text: `firstStop_iff` describes the texts it accepts as a language of its
  own, `FirstStop`, where every star stands for a word that does not contain the
  letter after it.
* For one pattern: `greedy_iff` says which patterns lose nothing.  They are the
  patterns without a star, and those in which the stars are separated by single
  letters and the last letter is a star.
-/

namespace Glob

variable {α : Type*}

section Languages

variable (star : α)

/-- The language of a pattern. -/
inductive Matches : List α → List α → Prop where
  | nil : Matches [] []
  | char {c : α} {sub pub : List α} (hc : c ≠ star) (h : Matches sub pub) :
      Matches (c :: sub) (c :: pub)
  | star (gap : List α) {sub pub : List α} (h : Matches sub pub) :
      Matches (star :: sub) (gap ++ pub)

/-- The part of that language in which a star gives way to the first occurrence of
the letter after it.  A last star takes what is left; two stars at the end need
something to take. -/
inductive FirstStop : List α → List α → Prop where
  | nil : FirstStop [] []
  | char {c : α} {sub pub : List α} (hc : c ≠ star) (h : FirstStop sub pub) :
      FirstStop (c :: sub) (c :: pub)
  | last (pub : List α) : FirstStop [star] pub
  | twice {pub : List α} (hpub : pub ≠ []) : FirstStop [star, star] pub
  | star {gap : List α} {c : α} {sub pub : List α} (hgap : c ∉ gap)
      (h : FirstStop (c :: sub) (c :: pub)) : FirstStop (star :: c :: sub) (gap ++ c :: pub)

/-- What may follow a star in a pattern that loses nothing: single letters, each
followed by a star. -/
inductive Separated : List α → Prop where
  | nil : Separated []
  | char {c : α} {sub : List α} (hc : c ≠ star) (h : Separated sub) :
      Separated (c :: star :: sub)

/-- The patterns that lose nothing. -/
inductive Greedy : List α → Prop where
  | nil : Greedy []
  | char {c : α} {sub : List α} (hc : c ≠ star) (h : Greedy sub) : Greedy (c :: sub)
  | star {sub : List α} (h : Separated star sub) : Greedy (star :: sub)

end Languages

variable {star : α}

/-! ## The language -/

theorem Matches.absorb {sub pub : List α} (g : List α) (h : Matches star (star :: sub) pub) :
    Matches star (star :: sub) (g ++ pub) := by
  generalize hp : star :: sub = p at h
  cases h with
  | nil => simp at hp
  | char hc h => exact absurd (List.cons.inj hp).1.symm hc
  | star gap h =>
    rw [← List.append_assoc]
    exact Matches.star _ h

theorem matches_star_iff {sub pub : List α} :
    Matches star (star :: sub) pub ↔ ∃ gap rest, pub = gap ++ rest ∧ Matches star sub rest := by
  constructor
  · intro h
    generalize hp : star :: sub = p at h
    cases h with
    | nil => simp at hp
    | char hc h => exact absurd (List.cons.inj hp).1.symm hc
    | star gap h => exact ⟨gap, _, rfl, (List.cons.inj hp).2 ▸ h⟩
  · rintro ⟨gap, rest, rfl, h⟩
    exact Matches.star gap h

theorem matches_char_iff {c : α} (hc : c ≠ star) {sub pub : List α} :
    Matches star (c :: sub) pub ↔ ∃ rest, pub = c :: rest ∧ Matches star sub rest := by
  constructor
  · intro h
    cases h with
    | char _ h => exact ⟨_, rfl, h⟩
    | star gap h => exact absurd rfl hc
  · rintro ⟨rest, rfl, h⟩
    exact Matches.char hc h

theorem FirstStop.matches {sub pub : List α} (h : FirstStop star sub pub) :
    Matches star sub pub := by
  induction h with
  | nil => exact Matches.nil
  | char hc _ ih => exact Matches.char hc ih
  | last pub => exact matches_star_iff.mpr ⟨pub, [], (List.append_nil pub).symm, Matches.nil⟩
  | @twice pub _ =>
    exact matches_star_iff.mpr ⟨[], pub, rfl,
      matches_star_iff.mpr ⟨pub, [], (List.append_nil pub).symm, Matches.nil⟩⟩
  | star _ _ ih => exact Matches.star _ ih

/-! ## The matcher -/

variable [DecidableEq α]

/-- The text from the first occurrence of a letter on; without a letter to look for,
the end of the text. -/
def jump : Option α → List α → List α
  | none, _ => []
  | some d, pub => pub.dropWhile (· ≠ d)

/-- The matcher that jumps to the first occurrence of the letter after a star. -/
def firstStop (star : α) : List α → List α → Bool
  | [], pub => pub.isEmpty
  | c :: sub, [] => decide (c = star) && sub.isEmpty
  | c :: sub, b :: pub =>
    if c = star then firstStop star sub (jump sub.head? (b :: pub))
    else decide (c = b) && firstStop star sub pub

@[simp] theorem firstStop_nil (pub : List α) : firstStop star [] pub = pub.isEmpty := by
  cases pub <;> rfl

@[simp] theorem firstStop_cons_nil (c : α) (sub : List α) :
    firstStop star (c :: sub) [] = (decide (c = star) && sub.isEmpty) := rfl

theorem firstStop_star (sub : List α) (b : α) (pub : List α) :
    firstStop star (star :: sub) (b :: pub) = firstStop star sub (jump sub.head? (b :: pub)) := by
  rw [firstStop, if_pos rfl]

theorem firstStop_char {c : α} (hc : c ≠ star) (sub : List α) (b : α) (pub : List α) :
    firstStop star (c :: sub) (b :: pub) = (decide (c = b) && firstStop star sub pub) := by
  rw [firstStop, if_neg hc]

theorem firstStop_star_cons {d : α} (sub : List α) (b : α) (pub : List α) :
    firstStop star (star :: d :: sub) (b :: pub) =
      firstStop star (d :: sub) ((b :: pub).dropWhile (· ≠ d)) := by
  rw [firstStop_star]
  rfl

/-- A last star takes everything. -/
@[simp] theorem firstStop_last (pub : List α) : firstStop star [star] pub = true := by
  cases pub with
  | nil => simp
  | cons b pub => rw [firstStop_star]; rfl

/-- Dropping the letters before the first `d` leaves nothing, or a word that starts
with it. -/
theorem dropWhile_ne_eq (d : α) (l : List α) :
    (l.dropWhile (· ≠ d) = [] ∧ d ∉ l) ∨
      ∃ gap rest, l.dropWhile (· ≠ d) = d :: rest ∧ l = gap ++ d :: rest ∧ d ∉ gap := by
  induction l with
  | nil => exact Or.inl ⟨rfl, by simp⟩
  | cons b l ih =>
    by_cases hb : b = d
    · exact Or.inr ⟨[], l, by simp [hb], by simp [hb], by simp⟩
    · rw [List.dropWhile_cons_of_pos (by simpa using hb)]
      rcases ih with ⟨h1, h2⟩ | ⟨gap, rest, h1, h2, h3⟩
      · exact Or.inl ⟨h1, by simp [h2, Ne.symm hb]⟩
      · exact Or.inr ⟨b :: gap, rest, h1, by rw [h2, List.cons_append],
          by simp [h3, Ne.symm hb]⟩

theorem dropWhile_ne_append {d : α} {gap : List α} (h : d ∉ gap) (rest : List α) :
    (gap ++ d :: rest).dropWhile (· ≠ d) = d :: rest := by
  induction gap with
  | nil => simp
  | cons b gap ih =>
    rw [List.mem_cons, not_or] at h
    rw [List.cons_append, List.dropWhile_cons_of_pos (by simpa using Ne.symm h.1), ih h.2]

theorem firstStop_of_FirstStop {sub pub : List α} (h : FirstStop star sub pub) :
    firstStop star sub pub = true := by
  induction h with
  | nil => rfl
  | char hc _ ih => rw [firstStop_char hc, ih]; simp
  | last pub => exact firstStop_last pub
  | @twice pub hpub =>
    cases pub with
    | nil => exact absurd rfl hpub
    | cons b pub => rw [firstStop_star_cons, firstStop_last]
  | @star gap c sub pub hgap _ ih =>
    obtain ⟨b, l, hl⟩ : ∃ b l, gap ++ c :: pub = b :: l := by
      cases gap with
      | nil => exact ⟨_, _, rfl⟩
      | cons b gap => exact ⟨_, _, rfl⟩
    rw [hl, firstStop_star_cons, ← hl, dropWhile_ne_append hgap, ih]

theorem FirstStop_of_firstStop {sub pub : List α} (h : firstStop star sub pub = true) :
    FirstStop star sub pub := by
  induction sub generalizing pub with
  | nil =>
    rw [firstStop_nil, List.isEmpty_iff] at h
    rw [h]
    exact FirstStop.nil
  | cons c sub ih =>
    cases pub with
    | nil =>
      rw [firstStop_cons_nil, Bool.and_eq_true, decide_eq_true_eq, List.isEmpty_iff] at h
      rw [h.1, h.2]
      exact FirstStop.last []
    | cons b pub =>
      by_cases hc : c = star
      · subst hc
        cases sub with
        | nil => exact FirstStop.last _
        | cons d sub =>
          rw [firstStop_star_cons] at h
          rcases dropWhile_ne_eq d (b :: pub) with ⟨h1, -⟩ | ⟨gap, rest, h1, h2, h3⟩
          · -- nothing left: the pattern can only end in a second star
            rw [h1, firstStop_cons_nil, Bool.and_eq_true, decide_eq_true_eq,
              List.isEmpty_iff] at h
            rw [h.1, h.2]
            exact FirstStop.twice (List.cons_ne_nil _ _)
          · rw [h1] at h
            rw [h2]
            exact FirstStop.star h3 (ih h)
      · rw [firstStop_char hc, Bool.and_eq_true, decide_eq_true_eq] at h
        rw [← h.1]
        exact FirstStop.char hc (ih h.2)

/-- **What the matcher accepts.** -/
theorem firstStop_iff {sub pub : List α} :
    firstStop star sub pub = true ↔ FirstStop star sub pub :=
  ⟨FirstStop_of_firstStop, firstStop_of_FirstStop⟩

/-- **The matcher is sound.** -/
theorem matches_of_firstStop {sub pub : List α} (h : firstStop star sub pub = true) :
    Matches star sub pub :=
  (FirstStop_of_firstStop h).matches

/-- **Every pattern accepts itself.**  Inside a run of stars the matcher falls behind
by some stars; `k` counts them, and the letter after the run catches up. -/
theorem firstStop_replicate_self (sub : List α) (k : ℕ) (hk : sub.head? = some star ∨ k = 0) :
    firstStop star sub (List.replicate k star ++ sub) = true := by
  induction sub generalizing k with
  | nil =>
    rcases hk with hk | rfl
    · simp at hk
    · rfl
  | cons c sub ih =>
    by_cases hc : c = star
    · subst hc
      obtain ⟨b, l, hl⟩ : ∃ b l, List.replicate k c ++ c :: sub = b :: l := by
        cases k with
        | zero => exact ⟨_, _, rfl⟩
        | succ k => exact ⟨_, _, rfl⟩
      cases sub with
      | nil => exact firstStop_last _
      | cons d sub =>
        rw [hl, firstStop_star_cons, ← hl]
        have hsplit : List.replicate k c ++ c :: d :: sub =
            List.replicate (k + 1) c ++ d :: sub := by
          rw [List.replicate_succ', List.append_assoc, List.singleton_append]
        by_cases hd : d = c
        · subst hd
          have hdrop : (List.replicate k d ++ d :: d :: sub).dropWhile (· ≠ d) =
              List.replicate (k + 1) d ++ d :: sub := by
            rw [hsplit, List.replicate_succ, List.cons_append, List.dropWhile_cons_of_neg (by simp)]
          rw [hdrop]
          exact ih (k + 1) (Or.inl rfl)
        · rw [hsplit, dropWhile_ne_append (by simp [hd])]
          exact ih 0 (Or.inr rfl)
    · have hk0 : k = 0 := hk.resolve_left (by simpa using hc)
      subst hk0
      have := ih 0 (Or.inr rfl)
      rw [List.replicate_zero, List.nil_append] at this ⊢
      rw [firstStop_char hc, this]
      simp

theorem firstStop_self (sub : List α) : firstStop star sub sub = true :=
  firstStop_replicate_self sub 0 (Or.inr rfl)

/-! ## Patterns that lose nothing -/

/-- After a star that is followed by a separated pattern, the first stop is as good
as any other: what it skips too little, the next star takes. -/
theorem firstStop_of_separated {sub : List α} (hs : Separated star sub) {pub : List α}
    (h : Matches star (star :: sub) pub) : firstStop star (star :: sub) pub = true := by
  induction hs generalizing pub with
  | nil => exact firstStop_last pub
  | @char c sub hc _ ih =>
    obtain ⟨gap, rest, rfl, h1⟩ := matches_star_iff.mp h
    obtain ⟨rest, rfl, h2⟩ := (matches_char_iff hc).mp h1
    have hmem : c ∈ gap ++ c :: rest := by simp
    rcases dropWhile_ne_eq c (gap ++ c :: rest) with ⟨-, h3⟩ | ⟨gap', rest', h3, h4, h5⟩
    · exact absurd hmem h3
    · -- `rest` is a suffix of what follows the first stop
      have hsuf : ∃ g, rest' = g ++ rest := by
        rcases List.append_eq_append_iff.mp h4 with ⟨w, hw1, hw2⟩ | ⟨w, hw1, hw2⟩
        · cases w with
          | nil => exact ⟨[], (List.cons.inj hw2).2.symm⟩
          | cons x w =>
            refine absurd ?_ h5
            rw [hw1, (List.cons.inj hw2).1]
            simp
        · cases w with
          | nil => exact ⟨[], (List.cons.inj hw2).2⟩
          | cons x w => exact ⟨w ++ [c], by simpa using (List.cons.inj hw2).2⟩
      obtain ⟨g, rfl⟩ := hsuf
      refine firstStop_of_FirstStop ?_
      rw [h4]
      exact FirstStop.star h5 (FirstStop.char hc (FirstStop_of_firstStop (ih (h2.absorb g))))

theorem firstStop_of_greedy {sub : List α} (hs : Greedy star sub) {pub : List α}
    (h : Matches star sub pub) : firstStop star sub pub = true := by
  induction hs generalizing pub with
  | nil =>
    cases h
    rfl
  | char hc _ ih =>
    obtain ⟨rest, rfl, h1⟩ := (matches_char_iff hc).mp h
    rw [firstStop_char hc, ih h1]
    simp
  | star hs => exact firstStop_of_separated hs h

/-- The letters of a pattern that are not stars: the shortest text it covers. -/
theorem matches_filter (sub : List α) : Matches star sub (sub.filter (· ≠ star)) := by
  induction sub with
  | nil => exact Matches.nil
  | cons c sub ih =>
    by_cases hc : c = star
    · subst hc
      rw [List.filter_cons_of_neg (by simp)]
      exact Matches.star [] ih
    · rw [List.filter_cons_of_pos (by simpa using hc)]
      exact Matches.char hc ih

/-- **Two stars in a row lose a text.**  The second one is looked for as a letter. -/
theorem firstStop_star_star_filter (star : α) (sub : List α) :
    firstStop star (star :: star :: sub) (sub.filter (· ≠ star)) = false := by
  cases hp : sub.filter (· ≠ star) with
  | nil => simp
  | cons b pub =>
    have hno : star ∉ b :: pub := by
      rw [← hp]
      simp
    rcases dropWhile_ne_eq star (b :: pub) with ⟨h1, -⟩ | ⟨_, _, -, h2, -⟩
    · rw [firstStop_star_cons, h1]
      cases sub with
      | nil => simp at hp
      | cons d sub => simp
    · exact absurd (h2 ▸ by simp) hno

section Complete

/-! The texts that show a pattern to lose something are spelled with the pattern's own
letters and the star, so it is enough to test a pattern on texts over any set of
letters `P` that has those. -/

variable {P : α → Prop}

/-- **What follows a star in a pattern that loses nothing is separated.** -/
theorem separated_of_complete (hstar : P star) (n : ℕ) {sub : List α} (hn : sub.length ≤ n)
    (hsub : ∀ c ∈ sub, P c)
    (h : ∀ pub, (∀ b ∈ pub, P b) → Matches star (star :: sub) pub →
      firstStop star (star :: sub) pub = true) :
    Separated star sub := by
  have hfilter : ∀ l : List α, l <:+ sub → ∀ b ∈ l.filter (· ≠ star), P b :=
    fun l hl b hb => hsub b (hl.mem (List.mem_filter.mp hb).1)
  induction n generalizing sub with
  | zero =>
    have h0 : sub = [] := List.eq_nil_of_length_eq_zero (by omega)
    rw [h0]
    exact Separated.nil
  | succ n ih =>
    match sub with
    | [] => exact Separated.nil
    | d :: sub =>
      have hPd : P d := hsub d List.mem_cons_self
      by_cases hd : d = star
      · subst hd
        have h1 : Matches d (d :: d :: sub) (sub.filter (· ≠ d)) :=
          Matches.star [] (Matches.star [] (matches_filter sub))
        have h2 := h _ (hfilter sub (List.suffix_cons _ _)) h1
        rw [firstStop_star_star_filter] at h2
        exact absurd h2 (by decide)
      match sub with
      | [] =>
        -- the letter twice: the first one is taken, the second is left over
        have h1 : Matches star [star, d] [d, d] :=
          Matches.star [d] (Matches.char hd Matches.nil)
        have h2 := h _ (by simp [hPd]) h1
        rw [firstStop_star_cons, List.dropWhile_cons_of_neg (by simp), firstStop_char hd] at h2
        simp at h2
      | e :: sub =>
        by_cases he : e = star
        · subst he
          have hsuf : sub <:+ d :: e :: sub :=
            (List.suffix_cons _ _).trans (List.suffix_cons _ _)
          refine Separated.char hd (ih (by simp only [List.length_cons] at hn; omega)
            (fun c hc => hsub c (hsuf.mem hc)) ?_ fun l hl => hfilter l (hl.trans hsuf))
          intro pub hP hpub
          have hP' : ∀ b ∈ d :: pub, P b := by
            intro b hb
            rcases List.mem_cons.mp hb with rfl | hb
            · exact hPd
            · exact hP b hb
          have h2 := h (d :: pub) hP' (Matches.star [] (Matches.char hd hpub))
          rw [firstStop_star_cons, List.dropWhile_cons_of_neg (by simp), firstStop_char hd] at h2
          simpa using h2
        · -- the letter, then something else, then the pattern's own letters
          have h1 : Matches star (star :: d :: e :: sub)
              ([d, star] ++ d :: e :: sub.filter (· ≠ star)) :=
            Matches.star _ (Matches.char hd (Matches.char he (matches_filter sub)))
          have hP : ∀ b ∈ [d, star] ++ d :: e :: sub.filter (· ≠ star), P b := by
            intro b hb
            simp only [List.cons_append, List.nil_append, List.mem_cons] at hb
            rcases hb with rfl | rfl | rfl | rfl | hb
            · exact hPd
            · exact hstar
            · exact hPd
            · exact hsub b (by simp)
            · exact hfilter sub ((List.suffix_cons _ _).trans (List.suffix_cons _ _)) b hb
          have h2 := h _ hP h1
          rw [List.cons_append, firstStop_star_cons, List.dropWhile_cons_of_neg (by simp),
            firstStop_char hd, List.cons_append, firstStop_char he] at h2
          simp [he] at h2

/-- **The patterns that lose nothing are the greedy ones.** -/
theorem greedy_iff (hstar : P star) {sub : List α} (hsub : ∀ c ∈ sub, P c) :
    Greedy star sub ↔ ∀ pub, (∀ b ∈ pub, P b) → Matches star sub pub →
      firstStop star sub pub = true := by
  constructor
  · exact fun h pub _ hpub => firstStop_of_greedy h hpub
  · intro h
    induction sub with
    | nil => exact Greedy.nil
    | cons c sub ih =>
      have hsub' : ∀ b ∈ sub, P b := fun b hb => hsub b (List.mem_cons_of_mem _ hb)
      by_cases hc : c = star
      · subst hc
        exact Greedy.star (separated_of_complete hstar sub.length le_rfl hsub' h)
      · refine Greedy.char hc (ih hsub' fun pub hP hpub => ?_)
        have hP' : ∀ b ∈ c :: pub, P b := by
          intro b hb
          rcases List.mem_cons.mp hb with rfl | hb
          · exact hsub b List.mem_cons_self
          · exact hP b hb
        have h2 := h (c :: pub) hP' (Matches.char hc hpub)
        rw [firstStop_char hc] at h2
        simpa using h2

end Complete

end Glob
