import Ducq.Lib.Memory
import Mathlib.Data.List.Basic

/-!
# The first occurrence of a string in another

`First needle pre q` says that `needle` stands at the start of `q` and at no earlier
place of `pre ++ q`.  A text has at most one such splitting (`First.unique`), and
`strstr` finds it (`strstr_eq_some_iff`).

A search that looks for a word, and goes on behind it when the byte that follows is not
the one it wants, finds the first occurrence of the word with that byte
(`First.skip_iff`), unless occurrences of the word can overlap; a word whose ends are all
different from its beginnings is `Unbordered`.

A search looks at every byte up to the end of what it finds, or up to the terminator.  The
bytes that `Decides` a search are those it does not look beyond (`strstrReach_le_iff`), and
then what stands behind them makes no difference (`strstrIndex_append`).
-/

namespace Occurrence

variable {α : Type*}

/-! ## First occurrences -/

/-- `needle` is at the start of `q`, and nowhere before in `pre ++ q`. -/
def First (needle pre q : List α) : Prop :=
  needle <+: q ∧ ∀ pre' q', pre ++ q = pre' ++ q' → needle <+: q' → pre.length ≤ pre'.length

theorem First.nil {needle q : List α} (h : needle <+: q) : First needle [] q :=
  ⟨h, fun _ _ _ _ => Nat.zero_le _⟩

/-- One more element in front is one more place to look at. -/
theorem first_cons_iff {needle pre q : List α} {b : α} :
    First needle (b :: pre) q ↔ ¬ needle <+: b :: (pre ++ q) ∧ First needle pre q := by
  constructor
  · rintro ⟨hq, hmin⟩
    refine ⟨fun h => ?_, hq, fun pre' q' heq h => ?_⟩
    · exact absurd (hmin [] _ rfl h) (Nat.not_succ_le_zero _)
    · have hle := hmin (b :: pre') q' (by rw [List.cons_append, heq, List.cons_append]) h
      rw [List.length_cons, List.length_cons] at hle
      exact Nat.le_of_succ_le_succ hle
  · rintro ⟨hb, hq, hmin⟩
    refine ⟨hq, fun pre' q' heq h => ?_⟩
    cases pre' with
    | nil =>
      rw [List.nil_append, List.cons_append] at heq
      rw [← heq] at h
      exact absurd h hb
    | cons c pre' =>
      rw [List.cons_append, List.cons_append, List.cons.injEq] at heq
      exact Nat.succ_le_succ (hmin pre' q' heq.2 h)

/-- **There is only one first occurrence.** -/
theorem First.unique {needle pre q pre' q' : List α} (h : First needle pre q)
    (h' : First needle pre' q') (heq : pre ++ q = pre' ++ q') : pre = pre' ∧ q = q' :=
  List.append_inj heq (Nat.le_antisymm (h.2 _ _ heq h'.1) (h'.2 _ _ heq.symm h.1))

/-- A longer word does not occur earlier. -/
theorem First.of_prefix {needle word pre q : List α} (h : First needle pre q)
    (hword : needle <+: word) (hq : word <+: q) : First word pre q :=
  ⟨hq, fun pre' q' heq h' => h.2 pre' q' heq (hword.trans h')⟩

/-- No end of the word is a beginning of it. -/
def Unbordered (needle : List α) : Prop :=
  ∀ d < needle.length, 0 < d → needle.take (needle.length - d) ≠ needle.drop d

instance [DecidableEq α] (needle : List α) : Decidable (Unbordered needle) :=
  inferInstanceAs (Decidable (∀ d < needle.length, 0 < d → _))

/-- Between an occurrence and its end there is no other. -/
theorem Unbordered.length_le {needle : List α} (h : Unbordered needle) {pre q pre' q' : List α}
    (heq : pre ++ (needle ++ q) = pre' ++ q') (hq' : needle <+: q')
    (hlt : pre.length < pre'.length) : pre.length + needle.length ≤ pre'.length := by
  by_contra hcon
  rw [not_le] at hcon
  obtain ⟨d, hd⟩ := Nat.exists_eq_add_of_lt hlt
  have hdrop : (needle ++ q).drop (d + 1) = q' := by
    have hcongr := congrArg (List.drop (pre.length + (d + 1))) heq
    rwa [List.drop_append, List.drop_of_length_le (Nat.le_add_right _ _), List.nil_append,
      Nat.add_sub_cancel_left, ← Nat.add_assoc, ← hd, List.drop_left] at hcongr
  refine h (d + 1) (by omega) (Nat.succ_pos d) ?_
  rw [List.drop_append_of_le_length (by omega)] at hdrop
  obtain ⟨r, hr⟩ := hq'
  have htake := congrArg (List.take (needle.length - (d + 1))) (hdrop.trans hr.symm)
  rw [List.take_append_of_le_length (by rw [List.length_drop]),
    List.take_append_of_le_length (by omega),
    List.take_of_length_le (by rw [List.length_drop])] at htake
  exact htake.symm

/-- What comes first in a text comes first in what is left of it. -/
theorem First.of_append {needle pre pre' q : List α} (h : First needle (pre ++ pre') q) :
    First needle pre' q := by
  induction pre with
  | nil => exact h
  | cons b pre ih => exact ih (first_cons_iff.mp h).2

/-- **Looking on behind a word that is not followed by the right byte.** -/
theorem First.skip_iff {needle pre q : List α} {c : α} (hneedle : Unbordered needle)
    (h : First needle pre (needle ++ q)) (hc : q.head? ≠ some c) {pre'' q'' : List α}
    (heq : pre ++ (needle ++ q) = pre'' ++ q'') :
    First (needle ++ [c]) pre'' q'' ↔
      ∃ pre', pre'' = pre ++ needle ++ pre' ∧ q = pre' ++ q'' ∧
        First (needle ++ [c]) pre' q'' := by
  -- an occurrence anywhere in the text lies behind the word
  have hbehind : ∀ s t, pre ++ (needle ++ q) = s ++ t → needle ++ [c] <+: t →
      ∃ s', s = pre ++ needle ++ s' ∧ q = s' ++ t := by
    intro s t hst ht
    have hword : needle <+: t := (List.prefix_append needle [c]).trans ht
    rcases Nat.eq_or_lt_of_le (h.2 s t hst hword) with hlen | hlt
    · obtain ⟨-, rfl⟩ := List.append_inj hst hlen
      obtain ⟨r, hr⟩ := ht
      rw [List.append_assoc, List.append_cancel_left_eq] at hr
      exact absurd (by rw [← hr]; rfl) hc
    · have hle := hneedle.length_le hst hword hlt
      have htake := congrArg (List.take (pre ++ needle).length) hst
      rw [← List.append_assoc, List.take_left, List.take_append_of_le_length
        (by rw [List.length_append]; exact hle)] at htake
      have hs : s = pre ++ needle ++ s.drop (pre ++ needle).length := by
        conv_lhs => rw [← List.take_append_drop (pre ++ needle).length s, ← htake]
      refine ⟨s.drop (pre ++ needle).length, hs, ?_⟩
      rw [hs, ← List.append_assoc, List.append_assoc (pre ++ needle),
        List.append_cancel_left_eq] at hst
      rw [hst]
  constructor
  · intro hfirst
    obtain ⟨pre', rfl, hq⟩ := hbehind pre'' q'' heq hfirst.1
    exact ⟨pre', rfl, hq, hfirst.of_append⟩
  · rintro ⟨pre', rfl, hq, hfirst⟩
    refine ⟨hfirst.1, fun s t hst ht => ?_⟩
    obtain ⟨s', rfl, hqs⟩ := hbehind s t (heq.trans hst) ht
    rw [@List.length_append _ (pre ++ needle), @List.length_append _ (pre ++ needle)]
    exact Nat.add_le_add_left (hfirst.2 s' t (hq.symm.trans hqs) ht) _

/-- A word with a byte behind it occurs where the word does. -/
theorem First.snoc {needle pre q : List α} {c : α} (h : First needle pre (needle ++ c :: q)) :
    First (needle ++ [c]) pre (needle ++ c :: q) :=
  h.of_prefix (List.prefix_append needle [c]) ⟨q, by rw [List.append_assoc]; rfl⟩

/-! ## A search that goes on behind the word -/

/-- Where a search for the word ends that goes on behind every occurrence that `c` does not
follow. -/
inductive Stops (needle : List α) (c : α) : List α → List α → Prop
  | here {pre q : List α} : First needle pre (needle ++ c :: q) →
      Stops needle c pre (needle ++ c :: q)
  | skip {pre q pre' q' : List α} : First needle pre (needle ++ q) → q.head? ≠ some c →
      Stops needle c pre' q' → q = pre' ++ q' → Stops needle c (pre ++ needle ++ pre') q'

/-- No occurrence of the word reaches from the text before a place into what follows: the text
before is empty, or ends in something that is not in the word. -/
def Separated (needle s : List α) : Prop := s = [] ∨ ∃ d, s.getLast? = some d ∧ d ∉ needle

namespace Separated

variable {needle pre q s t : List α}

theorem of_concat {d : α} (h : Separated needle (s ++ [d])) : d ∉ needle := by
  rcases h with h | ⟨d', hd', hmem⟩
  · exact absurd h (List.append_ne_nil_of_right_ne_nil _ (List.cons_ne_nil _ _))
  · rw [List.getLast?_concat] at hd'
    rwa [Option.some.inj hd']

/-- A later part of the text before is separated as well. -/
theorem of_append (h : Separated needle (pre ++ s)) : Separated needle s := by
  rcases List.eq_nil_or_concat' s with rfl | ⟨s, d, rfl⟩
  · exact .inl rfl
  · rw [← List.append_assoc] at h
    exact .inr ⟨d, List.getLast?_concat, h.of_concat⟩

/-- An occurrence of the word before a separated place lies before it as a whole. -/
theorem exists_eq_append (hsep : Separated needle s) (heq : pre ++ (needle ++ q) = s ++ t)
    (hlt : pre.length < s.length) : ∃ s', s = pre ++ needle ++ s' ∧ q = s' ++ t := by
  rw [← List.append_assoc] at heq
  rcases List.append_eq_append_iff.mp heq with ⟨s', hs, hq⟩ | ⟨r, hr, -⟩
  · exact ⟨s', hs, hq⟩
  · -- the place would be inside the word
    obtain ⟨w, rfl⟩ : pre <+: s :=
      List.prefix_of_prefix_length_le (hr ▸ List.prefix_append pre needle) ⟨r, rfl⟩ hlt.le
    rw [List.append_assoc] at hr
    have hw := List.append_cancel_left hr
    rcases List.eq_nil_or_concat' w with rfl | ⟨w, d, rfl⟩
    · rw [List.append_nil] at hlt
      exact absurd hlt (lt_irrefl _)
    · have hd : d ∈ needle := by
        rw [hw]
        exact List.mem_append_left _ (List.mem_append_right _ List.mem_cons_self)
      rw [← List.append_assoc] at hsep
      exact absurd hd hsep.of_concat

end Separated

/-- A word that occurs in a text occurs there for the first time. -/
theorem exists_first {needle t : List α} (h : needle <+: t) (s : List α) :
    ∃ pre q, s ++ t = pre ++ q ∧ First needle pre q := by
  induction s with
  | nil => exact ⟨[], t, rfl, First.nil h⟩
  | cons b s ih =>
    by_cases hb : needle <+: b :: (s ++ t)
    · exact ⟨[], b :: (s ++ t), rfl, First.nil hb⟩
    · obtain ⟨pre, q, heq, hfirst⟩ := ih
      exact ⟨b :: pre, q, congrArg (List.cons b) heq, first_cons_iff.mpr ⟨heq ▸ hb, hfirst⟩⟩

namespace Stops

variable {needle pre q s t : List α} {c : α}

/-- Behind an occurrence that `c` does not follow. -/
theorem skip_inv (h : Stops needle c s t) {pre q : List α} (hfirst : First needle pre (needle ++ q))
    (hc : q.head? ≠ some c) (heq : pre ++ (needle ++ q) = s ++ t) :
    ∃ s', s = pre ++ needle ++ s' ∧ q = s' ++ t ∧ Stops needle c s' t := by
  cases h with
  | here hfirst' =>
    obtain ⟨rfl, hq⟩ := hfirst.unique hfirst' heq
    rw [List.append_cancel_left hq] at hc
    exact absurd rfl hc
  | @skip pre' q' s' t hfirst' hc' hstops hq =>
    have hall : pre ++ (needle ++ q) = pre' ++ (needle ++ q') := by
      rw [heq, hq]
      simp only [List.append_assoc]
    obtain ⟨rfl, hneedle⟩ := hfirst.unique hfirst' hall
    obtain rfl := List.append_cancel_left hneedle
    exact ⟨s', rfl, hq, hstops⟩

/-- It ends in one place only. -/
theorem unique (h : Stops needle c pre q) (h' : Stops needle c s t) (heq : pre ++ q = s ++ t) :
    pre = s ∧ q = t := by
  induction h generalizing s with
  | @here pre q hfirst =>
    cases h' with
    | here hfirst' => exact hfirst.unique hfirst' heq
    | @skip pre' q' s' t hfirst' hc' hstops hq =>
      have hall : pre' ++ (needle ++ q') = pre ++ (needle ++ c :: q) := by
        rw [heq, hq]
        simp only [List.append_assoc]
      obtain ⟨-, hneedle⟩ := hfirst'.unique hfirst hall
      rw [List.append_cancel_left hneedle] at hc'
      exact absurd rfl hc'
  | @skip pre q pre' q' hfirst hc _ hq ih =>
    have hall : pre ++ (needle ++ q) = s ++ t := by
      rw [← heq, hq]
      simp only [List.append_assoc]
    obtain ⟨s', rfl, hq', hstops⟩ := h'.skip_inv hfirst hc hall
    obtain ⟨rfl, rfl⟩ := ih hstops (hq.symm.trans hq')
    exact ⟨rfl, rfl⟩

/-- **The search does not pass an occurrence that is separated** and that `c` follows. -/
theorem length_le (h : Stops needle c pre q) (heq : pre ++ q = s ++ t)
    (ht : needle ++ [c] <+: t) (hsep : Separated needle s) : pre.length ≤ s.length := by
  have hword : needle <+: t := (List.prefix_append needle [c]).trans ht
  induction h generalizing s with
  | here hfirst => exact hfirst.2 s t heq hword
  | @skip pre q pre' q' hfirst hc _ hq ih =>
    have hall : pre ++ (needle ++ q) = s ++ t := by
      rw [← heq, hq]
      simp only [List.append_assoc]
    rcases Nat.eq_or_lt_of_le (hfirst.2 s t hall hword) with hlen | hlt
    · obtain ⟨-, rfl⟩ := List.append_inj hall hlen
      obtain ⟨r, hr⟩ := ht
      rw [List.append_assoc, List.append_cancel_left_eq] at hr
      exact absurd (by rw [← hr]; rfl) hc
    · obtain ⟨s', rfl, hq'⟩ := hsep.exists_eq_append hall hlt
      have hle := ih (hq.symm.trans hq') hsep.of_append
      rw [List.length_append, @List.length_append _ (pre ++ needle)]
      omega

/-- The search comes to the first occurrence that `c` follows, if every occurrence before it is
passed: what follows that one has the property that says so again. -/
theorem of_first_of_skips {Q : List α → Prop} (hne : needle ≠ [])
    (hskip : ∀ {s pre q}, Q s → First (needle ++ [c]) s t → First needle pre (needle ++ q) →
      q.head? ≠ some c → pre ++ (needle ++ q) = s ++ t →
      ∃ s', s = pre ++ needle ++ s' ∧ q = s' ++ t ∧ Q s' ∧ First (needle ++ [c]) s' t)
    (hs : Q s) (h : First (needle ++ [c]) s t) : Stops needle c s t := by
  have hpos := List.length_pos_iff.mpr hne
  have hword : needle <+: t := (List.prefix_append needle [c]).trans h.1
  induction hn : s.length using Nat.strong_induction_on generalizing s with
  | h n ih =>
    obtain ⟨pre, q, heq, hfirst⟩ := exists_first hword s
    obtain ⟨q, rfl⟩ := hfirst.1
    by_cases hc : q.head? = some c
    · obtain ⟨r, rfl⟩ := List.head?_eq_some_iff.mp hc
      obtain ⟨rfl, rfl⟩ := hfirst.snoc.unique h heq.symm
      exact .here hfirst
    · obtain ⟨s', rfl, rfl, hs', hfirst'⟩ := hskip hs h hfirst hc heq.symm
      refine .skip hfirst hc (ih s'.length ?_ hs' hfirst' rfl) rfl
      rw [List.length_append, List.length_append] at hn
      omega

/-- **The search finds the first occurrence that `c` follows**, if that is separated. -/
theorem of_first (hne : needle ≠ []) (h : First (needle ++ [c]) s t)
    (hsep : Separated needle s) : Stops needle c s t := by
  refine of_first_of_skips hne (fun {s pre q} hsep h hfirst hc heq => ?_) hsep h
  have hword : needle <+: t := (List.prefix_append needle [c]).trans h.1
  have hlt : pre.length < s.length := by
    refine lt_of_le_of_ne (hfirst.2 s t heq hword) fun hlen => ?_
    obtain ⟨-, rfl⟩ := List.append_inj heq hlen
    obtain ⟨r, hr⟩ := h.1
    rw [List.append_assoc, List.append_cancel_left_eq] at hr
    exact hc (by rw [← hr]; rfl)
  obtain ⟨s', rfl, hq⟩ := hsep.exists_eq_append heq hlt
  exact ⟨s', rfl, hq, hsep.of_append, h.of_append⟩

/-- For a word that does not overlap itself it finds the first occurrence that `c`
follows, wherever that is. -/
theorem iff_first (hne : needle ≠ []) (hneedle : Unbordered needle) :
    Stops needle c s t ↔ First (needle ++ [c]) s t := by
  constructor
  · intro h
    induction h with
    | here h => exact h.snoc
    | @skip pre q pre' q' hfirst hc _ hq ih =>
      exact (hfirst.skip_iff hneedle hc (by rw [hq]; simp only [List.append_assoc])).mpr
        ⟨pre', rfl, hq, ih⟩
  · intro h
    refine of_first_of_skips (Q := fun _ => True) hne (fun _ h hfirst hc heq => ?_) trivial h
    obtain ⟨s', hs, hq, hfirst'⟩ := (hfirst.skip_iff hneedle hc heq).mp h
    exact ⟨s', hs, hq, trivial, hfirst'⟩

end Stops

end Occurrence

namespace CMemory

open Occurrence

/-- `strstr(p, needle)`: the pointer to the first occurrence, `none` for NULL.  The needle
is not empty and holds no NUL. -/
def strstr (needle : List Byte) : List Byte → Option (List Byte)
  | [] => none
  | b :: p =>
    if needle <+: b :: p then some (b :: p) else if b = 0 then none else strstr needle p

/-- **`strstr` finds the first occurrence inside the string.** -/
theorem strstr_eq_some_iff {needle : List Byte} (hne : needle ≠ []) {p q : List Byte} :
    strstr needle p = some q ↔ ∃ pre, p = pre ++ q ∧ First needle pre q ∧ (0 : Byte) ∉ pre := by
  induction p with
  | nil =>
    refine ⟨fun h => absurd h (Option.some_ne_none q).symm, ?_⟩
    rintro ⟨pre, heq, ⟨hq, -⟩, -⟩
    obtain ⟨-, rfl⟩ := List.append_eq_nil_iff.mp heq.symm
    exact absurd (List.prefix_nil.mp hq) hne
  | cons b p ih =>
    rw [strstr]
    by_cases hb : needle <+: b :: p
    · rw [if_pos hb, Option.some_inj]
      refine ⟨fun h => ⟨[], h, First.nil (h ▸ hb), List.not_mem_nil⟩, ?_⟩
      rintro ⟨pre, heq, hfirst, -⟩
      exact ((First.nil hb).unique hfirst heq).2
    · rw [if_neg hb]
      have hpre : ∀ pre, b :: p = pre ++ q → First needle pre q →
          ∃ pre', pre = b :: pre' ∧ p = pre' ++ q ∧ First needle pre' q := by
        intro pre heq hfirst
        cases pre with
        | nil => exact absurd (heq ▸ hfirst.1) hb
        | cons c pre =>
          rw [List.cons_append, List.cons.injEq] at heq
          obtain ⟨rfl, rfl⟩ := heq
          exact ⟨pre, rfl, rfl, (first_cons_iff.mp hfirst).2⟩
      by_cases h0 : b = 0
      · rw [if_pos h0]
        refine ⟨fun h => absurd h (Option.some_ne_none q).symm, ?_⟩
        rintro ⟨pre, heq, hfirst, hpre0⟩
        obtain ⟨pre', rfl, -⟩ := hpre pre heq hfirst
        exact absurd (h0 ▸ List.mem_cons_self) hpre0
      · rw [if_neg h0, ih]
        constructor
        · rintro ⟨pre, rfl, hfirst, hpre0⟩
          exact ⟨b :: pre, rfl, first_cons_iff.mpr ⟨hb, hfirst⟩,
            List.not_mem_cons_of_ne_of_not_mem (Ne.symm h0) hpre0⟩
        · rintro ⟨pre, heq, hfirst, hpre0⟩
          obtain ⟨pre', rfl, hp, hfirst'⟩ := hpre pre heq hfirst
          exact ⟨pre', hp, hfirst', List.not_mem_of_not_mem_cons hpre0⟩

/-- An occurrence inside the string is found, or an earlier one. -/
theorem strstr_ne_none {needle pre q : List Byte} (hne : needle ≠ []) (hq : needle <+: q)
    (h0 : (0 : Byte) ∉ pre) : strstr needle (pre ++ q) ≠ none := by
  induction pre with
  | nil =>
    obtain ⟨pre', hpre'⟩ : ∃ pre', q = pre' ++ q ∧ First needle pre' q ∧ (0 : Byte) ∉ pre' :=
      ⟨[], rfl, First.nil hq, List.not_mem_nil⟩
    rw [List.nil_append, (strstr_eq_some_iff hne).mpr ⟨pre', hpre'⟩]
    exact Option.some_ne_none q
  | cons b pre ih =>
    rw [List.cons_append, strstr]
    split_ifs with hb hzero
    · exact Option.some_ne_none _
    · exact absurd (hzero ▸ List.mem_cons_self) h0
    · exact ih (List.not_mem_of_not_mem_cons h0)

/-- Nothing is found exactly if the needle is nowhere in the string. -/
theorem strstr_eq_none_iff {needle p : List Byte} (hne : needle ≠ []) (h0 : (0 : Byte) ∉ needle) :
    strstr needle p = none ↔ ¬ needle <:+: cstr p := by
  rw [← not_iff_not, not_not, ← ne_eq, Option.ne_none_iff_exists']
  constructor
  · rintro ⟨q, hq⟩
    obtain ⟨pre, rfl, ⟨⟨r, rfl⟩, -⟩, hpre⟩ := (strstr_eq_some_iff hne).mp hq
    exact ⟨pre, cstr r, by rw [cstr_append_of_notMem hpre, cstr_append_of_notMem h0,
      List.append_assoc]⟩
  · rintro ⟨pre, r, hr⟩
    obtain ⟨t, ht⟩ := List.takeWhile_prefix (l := p) (· ≠ 0)
    have hsplit : p = pre ++ (needle ++ (r ++ t)) := by
      rw [← ht, ← cstr, ← hr]
      simp only [List.append_assoc]
    have hpre : (0 : Byte) ∉ pre := fun hmem => zero_notMem_cstr p
      (hr ▸ List.mem_append_left _ (List.mem_append_left _ hmem))
    rw [hsplit]
    exact Option.ne_none_iff_exists'.mp (strstr_ne_none hne (List.prefix_append _ _) hpre)

/-! ## How far a search looks -/

/-- How far `strstr(p, needle)` looks: the bytes up to the end of the occurrence it finds,
or up to the terminator.  Where neither is in the memory it looks past the end. -/
def strstrReach (needle : List Byte) : List Byte → ℕ
  | [] => 1
  | b :: p =>
    if needle <+: b :: p then needle.length else if b = 0 then 1 else strstrReach needle p + 1

/-- Where `strstr(p, needle)` finds the needle. -/
def strstrIndex (needle p : List Byte) : Option ℕ :=
  (strstr needle p).map fun q => p.length - q.length

/-- These bytes decide the search, whatever stands behind them. -/
def Decides (needle p : List Byte) : Prop := needle <:+: p ∨ (0 : Byte) ∈ p

instance (needle p : List Byte) : Decidable (Decides needle p) :=
  inferInstanceAs (Decidable (_ ∨ _))

theorem Decides.append {needle p : List Byte} (h : Decides needle p) (q : List Byte) :
    Decides needle (p ++ q) :=
  h.imp (fun h => h.trans (List.prefix_append p q).isInfix) (List.mem_append_left q)

/-- One byte that decides nothing. -/
theorem decides_cons_iff {needle p : List Byte} {b : Byte} (hb : ¬ needle <+: b :: p)
    (h0 : b ≠ 0) : Decides needle (b :: p) ↔ Decides needle p := by
  rw [Decides, Decides, List.infix_cons_iff, or_iff_right hb, List.mem_cons,
    or_iff_right (Ne.symm h0)]

/-- A needle that reaches beyond the bytes is not decided by them. -/
theorem not_decides_of_lt {needle p : List Byte} (h0 : (0 : Byte) ∉ needle) (h : p <+: needle)
    (hlt : p.length < needle.length) : ¬ Decides needle p := by
  rintro (hfound | hzero)
  · exact absurd hfound.length_le (by omega)
  · exact h0 (h.subset hzero)

/-- **A search stays among the bytes that decide it**, and among no others. -/
theorem strstrReach_le_iff {needle : List Byte} (hne : needle ≠ []) (h0 : (0 : Byte) ∉ needle)
    (p rest : List Byte) : strstrReach needle (p ++ rest) ≤ p.length ↔ Decides needle p := by
  have hpos := List.length_pos_iff.mpr hne
  induction p with
  | nil =>
    refine iff_of_false ?_ (not_decides_of_lt h0 List.nil_prefix hpos)
    cases rest with
    | nil => exact Nat.not_succ_le_zero 0
    | cons b rest =>
      rw [List.nil_append, strstrReach, List.length_nil]
      split_ifs <;> omega
  | cons b p ih =>
    rw [List.cons_append, strstrReach, List.length_cons]
    by_cases hfound : needle <+: b :: (p ++ rest)
    · rw [if_pos hfound]
      rcases Nat.lt_or_ge (b :: p).length needle.length with hlt | hge
      · have hp : b :: p <+: needle :=
          List.prefix_of_prefix_length_le (List.prefix_append (b :: p) rest) hfound hlt.le
        exact iff_of_false (by rw [List.length_cons] at hlt; omega) (not_decides_of_lt h0 hp hlt)
      · have hp : needle <+: b :: p :=
          List.prefix_of_prefix_length_le hfound (List.prefix_append (b :: p) rest) hge
        exact iff_of_true (by rw [List.length_cons] at hge; omega) (Or.inl hp.isInfix)
    · have hb : ¬ needle <+: b :: p := fun h => hfound (h.trans (List.prefix_append (b :: p) rest))
      rw [if_neg hfound]
      by_cases hzero : b = 0
      · rw [if_pos hzero]
        exact iff_of_true (by omega) (Or.inr (hzero ▸ List.mem_cons_self))
      · rw [if_neg hzero, decides_cons_iff hb hzero, Nat.add_le_add_iff_right]
        exact ih

theorem strstrIndex_cons {needle : List Byte} (hne : needle ≠ []) (b : Byte) (p : List Byte) :
    strstrIndex needle (b :: p) =
      if needle <+: b :: p then some 0 else if b = 0 then none
      else (strstrIndex needle p).map (· + 1) := by
  rw [strstrIndex, strstr]
  split_ifs
  · rw [Option.map_some, Nat.sub_self]
  · rfl
  · rw [strstrIndex, Option.map_map]
    refine Option.map_congr fun q hq => ?_
    obtain ⟨pre, rfl, -⟩ := (strstr_eq_some_iff hne).mp hq
    simp only [List.length_cons, List.length_append, Function.comp_apply]
    omega

/-- **What is found among the bytes that decide it does not depend on the rest.** -/
theorem strstrIndex_append {needle p : List Byte} (hne : needle ≠ []) (h0 : (0 : Byte) ∉ needle)
    (h : Decides needle p) (rest : List Byte) :
    strstrIndex needle (p ++ rest) = strstrIndex needle p := by
  induction p with
  | nil => exact absurd h (not_decides_of_lt h0 List.nil_prefix (List.length_pos_iff.mpr hne))
  | cons b p ih =>
    rw [List.cons_append, strstrIndex_cons hne, strstrIndex_cons hne]
    by_cases hb : needle <+: b :: p
    · have hrest : needle <+: b :: (p ++ rest) := hb.trans (List.prefix_append (b :: p) rest)
      rw [if_pos hb, if_pos hrest]
    · have hrest : ¬ needle <+: b :: (p ++ rest) := by
        intro hfound
        rcases Nat.lt_or_ge (b :: p).length needle.length with hlt | hge
        · exact not_decides_of_lt h0 (List.prefix_of_prefix_length_le
            (List.prefix_append (b :: p) rest) hfound hlt.le) hlt h
        · exact hb (List.prefix_of_prefix_length_le hfound (List.prefix_append (b :: p) rest) hge)
      rw [if_neg hb, if_neg hrest]
      by_cases hzero : b = 0
      · rw [if_pos hzero, if_pos hzero]
      · rw [if_neg hzero, if_neg hzero, ih ((decides_cons_iff hb hzero).mp h)]

/-- What is found is the first occurrence, before any terminator. -/
theorem strstrIndex_eq_some_iff {needle : List Byte} (hne : needle ≠ []) {p : List Byte} {i : ℕ} :
    strstrIndex needle p = some i ↔
      ∃ pre q, p = pre ++ q ∧ First needle pre q ∧ (0 : Byte) ∉ pre ∧ pre.length = i := by
  rw [strstrIndex, Option.map_eq_some_iff]
  constructor
  · rintro ⟨q, hq, rfl⟩
    obtain ⟨pre, rfl, hfirst, hpre⟩ := (strstr_eq_some_iff hne).mp hq
    exact ⟨pre, q, rfl, hfirst, hpre, by rw [List.length_append, Nat.add_sub_cancel]⟩
  · rintro ⟨pre, q, rfl, hfirst, hpre, rfl⟩
    exact ⟨q, (strstr_eq_some_iff hne).mpr ⟨pre, rfl, hfirst, hpre⟩,
      by rw [List.length_append, Nat.add_sub_cancel]⟩

/-- The first occurrence among the bytes that decide it is the first whatever follows. -/
theorem First.of_decides {needle p rest pre q : List Byte} (hne : needle ≠ [])
    (h0 : (0 : Byte) ∉ needle) (hp : Decides needle p) (hsplit : p ++ rest = pre ++ q)
    (hfirst : First needle pre q) (hpre : (0 : Byte) ∉ pre) (rest' : List Byte) :
    ∃ q', p ++ rest' = pre ++ q' ∧ First needle pre q' := by
  have hindex : strstrIndex needle p = some pre.length := by
    rw [← strstrIndex_append hne h0 hp rest, hsplit]
    exact (strstrIndex_eq_some_iff hne).mpr ⟨pre, q, rfl, hfirst, hpre, rfl⟩
  obtain ⟨pre₁, q₁, rfl, -, -, hlen₁⟩ := (strstrIndex_eq_some_iff hne).mp hindex
  rw [← strstrIndex_append hne h0 hp rest'] at hindex
  obtain ⟨pre₂, q₂, hsplit₂, hfirst₂, -, hlen₂⟩ := (strstrIndex_eq_some_iff hne).mp hindex
  rw [List.append_assoc] at hsplit hsplit₂
  obtain ⟨rfl, -⟩ := List.append_inj hsplit hlen₁
  obtain ⟨rfl, -⟩ := List.append_inj hsplit₂ hlen₂.symm
  exact ⟨q₂, by rw [List.append_assoc, hsplit₂], hfirst₂⟩

end CMemory
