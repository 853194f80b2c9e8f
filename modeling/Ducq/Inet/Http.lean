import Ducq.Lib.Occurrence

/-!
# `inet_http.c`: a line of an HTTP header

`inet_find_http_header` looks for the name of a header with a colon behind it, passes the
blanks after the colon, and returns two pointers: the value, and the end of its line.  The
search for the end of the line is the body of the loop over the blanks, so it is made once
for every blank, and not at all where there is none: a value right behind the colon is not
found.

`inetFindHttpHeader_eq_some_iff` says what is found, for a name that does not overlap
itself.
-/

namespace Ducq

open CMemory Occurrence

/-- `':'`. -/
abbrev colon : Byte := 58

/-- `"\\r\\n"`. -/
def crlf : List Byte := [13, 10]

/-- `while(*(++found) == ' ') *end = strstr(found, "\\r\\n")`, from the byte after the
colon on: where `found` and `end` point at last. -/
def skipBlanks : List Byte → Option (List Byte) → List Byte × Option (List Byte)
  | [], lineEnd => ([], lineEnd)
  | b :: found, lineEnd =>
    if b = space then skipBlanks found (strstr crlf (b :: found)) else (b :: found, lineEnd)

/-- The loop of `inet_find_http_header`: where `found` and `end` point at last. -/
def findHeaderLoop (header : List Byte) : ℕ → List Byte → List Byte × Option (List Byte)
  | 0, found => (found, none)
  | fuel + 1, found =>
    match strstr header found with
    | none => ([], none)
    | some found =>
      let found := found.drop header.length
      if found.head? ≠ some colon then findHeaderLoop header fuel found
      else skipBlanks (found.drop 1) none

/-- `inet_find_http_header(http_header, header, &end)`, with `end` NULL before the call:
the value and the end of its line, `none` for NULL. -/
def inetFindHttpHeader (httpHeader header : List Byte) : Option (List Byte × List Byte) :=
  match findHeaderLoop header (httpHeader.length + 1) httpHeader with
  | (found, some lineEnd) => some (found, lineEnd)
  | (_, none) => none

/-! ## What is found -/

/-- The text has a line for the header with the value `v` and what follows it: the name and
a colon, for the first time; one blank or more; the value; the end of the line. -/
def HasHeader (httpHeader header v rest : List Byte) : Prop :=
  ∃ pre k, httpHeader =
      pre ++ (header ++ colon :: (List.replicate (k + 1) space ++ (v ++ (crlf ++ rest)))) ∧
    First (header ++ [colon]) pre
      (header ++ colon :: (List.replicate (k + 1) space ++ (v ++ (crlf ++ rest)))) ∧
    (0 : Byte) ∉ pre ∧ v.head? ≠ some space ∧ First crlf v (crlf ++ rest) ∧ (0 : Byte) ∉ v

/-- What the loop over the blanks does with some of them. -/
theorem skipBlanks_replicate (k : ℕ) {found : List Byte} (h : found.head? ≠ some space)
    (lineEnd : Option (List Byte)) :
    skipBlanks (List.replicate k space ++ found) lineEnd =
      (found, if k = 0 then lineEnd else strstr crlf found) := by
  have hstr : ∀ k, strstr crlf (List.replicate k space ++ found) = strstr crlf found := by
    intro k
    induction k with
    | zero => rfl
    | succ k ih =>
      rw [List.replicate_succ, List.cons_append, strstr, if_neg, if_neg (by decide), ih]
      rintro ⟨r, hr⟩
      exact absurd (List.cons.inj hr).1 (by decide)
  induction k generalizing lineEnd with
  | zero =>
    cases found with
    | nil => rfl
    | cons b found =>
      have hb : b ≠ space := fun hb => h (congrArg some hb)
      rw [List.replicate_zero, List.nil_append, skipBlanks, if_neg hb, if_pos rfl]
  | succ k ih =>
    rw [List.replicate_succ, List.cons_append, skipBlanks, if_pos rfl, ih, ← List.cons_append,
      ← List.replicate_succ, hstr (k + 1), if_neg (Nat.succ_ne_zero k)]
    split_ifs <;> rfl

/-- A text is some blanks and what starts with no blank. -/
theorem exists_blanks (q : List Byte) :
    ∃ k found, q = List.replicate k space ++ found ∧ found.head? ≠ some space := by
  induction q with
  | nil => exact ⟨0, [], rfl, (Option.some_ne_none space).symm⟩
  | cons b q ih =>
    by_cases hb : b = space
    · obtain ⟨k, found, rfl, h⟩ := ih
      exact ⟨k + 1, found, by rw [hb, List.replicate_succ, List.cons_append], h⟩
    · exact ⟨0, b :: q, rfl, fun h => hb (Option.some.inj h)⟩

/-- **The value and the end of its line**, from the byte after the colon on. -/
theorem skipBlanks_eq_some_iff {q found lineEnd : List Byte} :
    skipBlanks q none = (found, some lineEnd) ↔
      ∃ k v rest, q = List.replicate (k + 1) space ++ (v ++ (crlf ++ rest)) ∧
        v.head? ≠ some space ∧ First crlf v (crlf ++ rest) ∧ (0 : Byte) ∉ v ∧
        found = v ++ (crlf ++ rest) ∧ lineEnd = crlf ++ rest := by
  have hcrlf : crlf ≠ [] := List.cons_ne_nil _ _
  constructor
  · intro h
    obtain ⟨k, found', rfl, hfound⟩ := exists_blanks q
    rw [skipBlanks_replicate k hfound, Prod.mk.injEq] at h
    obtain ⟨rfl, h⟩ := h
    cases k with
    | zero => exact absurd h (Option.some_ne_none _).symm
    | succ k =>
      obtain ⟨v, rfl, hfirst, h0⟩ := (strstr_eq_some_iff hcrlf).mp h
      obtain ⟨rest, rfl⟩ := hfirst.1
      refine ⟨k, v, rest, rfl, fun hv => hfound ?_, hfirst, h0, rfl, rfl⟩
      rw [List.head?_append, hv]
      rfl
  · rintro ⟨k, v, rest, rfl, hv, hfirst, h0, rfl, rfl⟩
    have hfound : (v ++ (crlf ++ rest)).head? ≠ some space := by
      cases v with
      | nil => exact fun h => absurd (Option.some.inj h) (by decide)
      | cons b v => exact hv
    rw [skipBlanks_replicate (k + 1) hfound, if_neg (Nat.succ_ne_zero k),
      (strstr_eq_some_iff hcrlf).mpr ⟨v, rfl, hfirst, h0⟩]

/-- **The loop stops where the search for the name and a colon does.** -/
theorem findHeaderLoop_stops {header : List Byte} (hne : header ≠ []) (h0 : (0 : Byte) ∉ header)
    {fuel : ℕ} {p : List Byte} (hfuel : p.length < fuel) {found lineEnd : List Byte} :
    findHeaderLoop header fuel p = (found, some lineEnd) ↔
      ∃ pre q, p = pre ++ (header ++ colon :: q) ∧
        Stops header colon pre (header ++ colon :: q) ∧ (0 : Byte) ∉ pre ∧
        skipBlanks q none = (found, some lineEnd) := by
  induction fuel generalizing p with
  | zero => exact absurd hfuel (Nat.not_lt_zero _)
  | succ fuel ih =>
    rw [findHeaderLoop]
    cases hs : strstr header p with
    | none =>
      refine ⟨fun h => absurd (Prod.mk.inj h).2 (Option.some_ne_none _).symm, ?_⟩
      rintro ⟨pre, q, rfl, -, hpre, -⟩
      exact absurd hs (strstr_ne_none hne (List.prefix_append _ _) hpre)
    | some found' =>
      obtain ⟨pre, rfl, hfirst, hpre⟩ := (strstr_eq_some_iff hne).mp hs
      obtain ⟨t, rfl⟩ := hfirst.1
      dsimp only
      rw [List.drop_left]
      by_cases hc : t.head? = some colon
      · -- a colon follows: the search ends here
        obtain ⟨q, rfl⟩ := List.head?_eq_some_iff.mp hc
        rw [if_neg (not_not.mpr hc)]
        constructor
        · intro h
          exact ⟨pre, q, rfl, .here hfirst, hpre, h⟩
        · rintro ⟨pre', q', heq, hstops, -, h⟩
          obtain ⟨-, hq⟩ := hstops.unique (.here hfirst) heq.symm
          rw [List.append_cancel_left_eq, List.cons.injEq] at hq
          rw [← hq.2]
          exact h
      · -- another byte follows: it goes on behind the name
        have hlen : t.length < fuel := by
          have := List.length_pos_iff.mpr hne
          rw [List.length_append, List.length_append] at hfuel
          omega
        rw [if_pos hc, ih hlen]
        constructor
        · rintro ⟨pre', q, rfl, hstops, hpre', h⟩
          refine ⟨pre ++ header ++ pre', q, by simp only [List.append_assoc], ?_, ?_, h⟩
          · exact .skip hfirst hc hstops rfl
          · simp only [List.mem_append, hpre, h0, hpre', or_self, not_false_eq_true]
        · rintro ⟨pre', q, heq, hstops, hpre', h⟩
          obtain ⟨pre'', rfl, ht, hstops'⟩ := hstops.skip_inv hfirst hc heq
          exact ⟨pre'', q, ht, hstops', fun hmem => hpre' (List.mem_append_right _ hmem), h⟩

/-- What the search returns is what the loop stops with. -/
theorem inetFindHttpHeader_stops {header : List Byte} (hne : header ≠ [])
    (h0 : (0 : Byte) ∉ header) {p found lineEnd : List Byte} :
    inetFindHttpHeader p header = some (found, lineEnd) ↔
      ∃ pre q, p = pre ++ (header ++ colon :: q) ∧
        Stops header colon pre (header ++ colon :: q) ∧ (0 : Byte) ∉ pre ∧
        skipBlanks q none = (found, some lineEnd) := by
  rw [← findHeaderLoop_stops hne h0 (Nat.lt_succ_self _), inetFindHttpHeader]
  rcases findHeaderLoop header (p.length + 1) p with ⟨found', _ | lineEnd'⟩
  · simp
  · simp

/-- **What `inet_find_http_header` finds**: the value of the header, and the end of its
line. -/
theorem inetFindHttpHeader_eq_some_iff {header : List Byte} (hne : header ≠ [])
    (h0 : (0 : Byte) ∉ header) (hheader : Unbordered header) {p found lineEnd : List Byte} :
    inetFindHttpHeader p header = some (found, lineEnd) ↔
      ∃ v rest, HasHeader p header v rest ∧ found = v ++ (crlf ++ rest) ∧
        lineEnd = crlf ++ rest := by
  rw [inetFindHttpHeader_stops hne h0]
  simp only [Stops.iff_first hne hheader]
  constructor
  · rintro ⟨pre, q, rfl, hfirst, hpre, h⟩
    obtain ⟨k, v, rest, rfl, hv, hcrlf, hv0, hfound, hend⟩ := skipBlanks_eq_some_iff.mp h
    exact ⟨v, rest, ⟨pre, k, rfl, hfirst, hpre, hv, hcrlf, hv0⟩, hfound, hend⟩
  · rintro ⟨v, rest, ⟨pre, k, rfl, hfirst, hpre, hv, hcrlf, hv0⟩, hfound, hend⟩
    exact ⟨pre, _, rfl, hfirst, hpre,
      skipBlanks_eq_some_iff.mpr ⟨k, v, rest, rfl, hv, hcrlf, hv0, hfound, hend⟩⟩

end Ducq
