import Ducq.Inet.Http

/-!
# Which header is looked up

`inet_find_http_header` should return the value of the field that has the name.  Two things
are in the way.  The end of the line is searched for once for each blank behind the colon,
so a value without a blank in front is not returned (`findsValue_iff`).  And the name is
looked for everywhere in the block, so what is returned may be the value of a field whose
name only ends like it, or something inside a value (`onlyOwnLine_iff`).

How the search goes past what looks like the name is `Stops`.  It goes on behind the whole
of an occurrence, and so it can miss a field whose first bytes belong to an earlier
occurrence of the name; a field that starts a line it cannot miss.
-/

namespace Ducq

open CMemory Occurrence

/-! ## Blanks before the value -/

/-- A block with a field: the name and a colon for the first time, `k` blanks, the value
and the end of the line. -/
structure HasField (httpHeader header pre : List Byte) (k : ℕ) (v rest : List Byte) : Prop where
  eq_append : httpHeader =
    pre ++ (header ++ colon :: (List.replicate k space ++ (v ++ (crlf ++ rest))))
  first : First (header ++ [colon]) pre
    (header ++ colon :: (List.replicate k space ++ (v ++ (crlf ++ rest))))
  string_pre : (0 : Byte) ∉ pre
  string_value : (0 : Byte) ∉ v
  head_value : v.head? ≠ some space
  value_one_line : ¬ crlf <:+: v

/-- The field starts a line. -/
def LineStart (pre : List Byte) : Prop := pre = [] ∨ crlf <:+ pre

instance (pre : List Byte) : Decidable (LineStart pre) :=
  inferInstanceAs (Decidable (_ ∨ _))

/-- The search for the header returns the value and the end of its line. -/
def FindsValue (httpHeader header v rest : List Byte) : Prop :=
  inetFindHttpHeader httpHeader header = some (v ++ (crlf ++ rest), crlf ++ rest)

/-- A line ends where it says, for the first time. -/
theorem first_crlf {v : List Byte} (h : ¬ crlf <:+: v) (rest : List Byte) :
    First crlf v (crlf ++ rest) := by
  induction v with
  | nil => exact First.nil (List.prefix_append _ _)
  | cons b v ih =>
    refine first_cons_iff.mpr ⟨fun hb => h ?_, ih fun hv => h (List.infix_cons hv)⟩
    rcases Nat.lt_or_ge (b :: v).length crlf.length with hlt | hge
    · -- the line feed would be the carriage return of the line's end
      have hnil : v.length = 0 := Nat.lt_one_iff.mp (Nat.lt_of_succ_lt_succ hlt)
      obtain rfl := List.length_eq_zero_iff.mp hnil
      obtain ⟨r, hr⟩ := hb
      exact absurd (List.cons.inj (List.cons.inj hr).2).1 (by decide)
    · exact (List.prefix_of_prefix_length_le hb (List.prefix_append (b :: v) _) hge).isInfix

/-- Blanks behind a colon can be counted. -/
theorem append_blanks_inj {s t : List Byte} {j k : ℕ}
    (h : s ++ colon :: List.replicate j space = t ++ colon :: List.replicate k space) :
    s = t ∧ j = k := by
  induction j generalizing k with
  | zero =>
    cases k with
    | zero => exact ⟨(List.append_inj' h rfl).1, rfl⟩
    | succ k =>
      rw [List.replicate_succ', ← List.cons_append, ← List.append_assoc] at h
      exact absurd (List.append_inj' h rfl).2 (by decide)
  | succ j ih =>
    cases k with
    | zero =>
      rw [List.replicate_succ', ← List.cons_append, ← List.append_assoc] at h
      exact absurd (List.append_inj' h rfl).2 (by decide)
    | succ k =>
      rw [List.replicate_succ', ← List.cons_append, ← List.append_assoc, List.replicate_succ',
        ← List.cons_append, ← List.append_assoc] at h
      obtain ⟨hst, hjk⟩ := ih (List.append_inj' h rfl).1
      exact ⟨hst, congrArg Nat.succ hjk⟩

/-- What starts a line is separated from the text before it, for a name without a line
feed. -/
theorem LineStart.separated {header pre : List Byte} (h : LineStart pre)
    (hheader : newline ∉ header) : Separated header pre := by
  rcases h with rfl | ⟨s, rfl⟩
  · exact .inl rfl
  · refine .inr ⟨newline, ?_, hheader⟩
    rw [show crlf = [13] ++ [newline] from rfl, ← List.append_assoc, List.getLast?_concat]

/-- **The value is found** exactly if there is a blank before it, and the search does not
pass the field. -/
theorem findsValue_iff {httpHeader header pre v rest : List Byte} {k : ℕ} (hne : header ≠ [])
    (h0 : (0 : Byte) ∉ header) (h : HasField httpHeader header pre k v rest) :
    (FindsValue httpHeader header v rest ↔ k ≠ 0 ∧
      Stops header colon pre
        (header ++ colon :: (List.replicate k space ++ (v ++ (crlf ++ rest))))) ∧
    (LineStart pre → newline ∉ header → (FindsValue httpHeader header v rest ↔ k ≠ 0)) := by
  have hfinds : FindsValue httpHeader header v rest ↔ k ≠ 0 ∧
      Stops header colon pre
        (header ++ colon :: (List.replicate k space ++ (v ++ (crlf ++ rest)))) := by
    rw [FindsValue, inetFindHttpHeader_stops hne h0]
    constructor
    · rintro ⟨pre', q, heq, hstops, -, hskip⟩
      obtain ⟨j, v', rest', rfl, -, -, -, hfound, -⟩ := skipBlanks_eq_some_iff.mp hskip
      rw [← hfound] at heq hstops
      rw [h.eq_append] at heq
      have hcancel : (pre ++ header) ++ colon :: List.replicate k space =
          (pre' ++ header) ++ colon :: List.replicate (j + 1) space := by
        refine @List.append_cancel_right _ _ (v ++ (crlf ++ rest)) _ ?_
        simpa only [List.append_assoc, List.cons_append] using heq
      obtain ⟨hpre, rfl⟩ := append_blanks_inj hcancel
      rw [List.append_cancel_right hpre]
      exact ⟨Nat.succ_ne_zero j, hstops⟩
    · rintro ⟨hk, hstops⟩
      obtain ⟨j, rfl⟩ := Nat.exists_eq_succ_of_ne_zero hk
      exact ⟨pre, _, h.eq_append, hstops, h.string_pre, skipBlanks_eq_some_iff.mpr
        ⟨j, v, rest, rfl, h.head_value, first_crlf h.value_one_line rest, h.string_value, rfl,
          rfl⟩⟩
  refine ⟨hfinds, fun hstart hnewline => hfinds.trans (and_iff_left ?_)⟩
  exact Stops.of_first hne h.first (hstart.separated hnewline)

/-- A block of one line, whose field is the header's. -/
def upgradeBlock (k : ℕ) : List Byte :=
  ascii "Upgrade" ++ colon :: (List.replicate k space ++ (ascii "websocket" ++
    (crlf ++ (crlf ++ [0]))))

theorem hasField_upgradeBlock (k : ℕ) :
    HasField (upgradeBlock k) (ascii "Upgrade") [] k (ascii "websocket") (crlf ++ [0]) where
  eq_append := rfl
  first := First.nil ((List.prefix_append_right_inj _).mpr ⟨_, rfl⟩)
  string_pre := List.not_mem_nil
  string_value := by decide
  head_value := by decide
  value_one_line h := absurd (h.subset List.mem_cons_self : (13 : Byte) ∈ ascii "websocket")
    (by decide)

theorem findsValue_iff_upgrade :
    (FindsValue (upgradeBlock 1) (ascii "Upgrade") (ascii "websocket") (crlf ++ [0]) ↔
      1 ≠ 0 ∧ Stops (ascii "Upgrade") colon [] (ascii "Upgrade" ++ colon ::
        (List.replicate 1 space ++ (ascii "websocket" ++ (crlf ++ (crlf ++ [0])))))) ∧
    (LineStart [] → newline ∉ ascii "Upgrade" →
      (FindsValue (upgradeBlock 1) (ascii "Upgrade") (ascii "websocket") (crlf ++ [0]) ↔ 1 ≠ 0)) :=
  findsValue_iff (by decide) (by decide) (hasField_upgradeBlock 1)

/-- **Without a blank** the header is not found. -/
theorem not_findsValue_upgrade :
    HasField (upgradeBlock 0) (ascii "Upgrade") [] 0 (ascii "websocket") (crlf ++ [0]) ∧
      inetFindHttpHeader (upgradeBlock 0) (ascii "Upgrade") = none ∧
      ¬ FindsValue (upgradeBlock 0) (ascii "Upgrade") (ascii "websocket") (crlf ++ [0]) := by
  have hnone : inetFindHttpHeader (upgradeBlock 0) (ascii "Upgrade") = none := by decide
  refine ⟨hasField_upgradeBlock 0, hnone, fun h => ?_⟩
  exact Option.some_ne_none _ (h.symm.trans hnone)

/-! ## Whose value it is -/

/-- The name of a header: some bytes, none of them a colon, the end of a line or of the
string. -/
structure IsHeaderName (header : List Byte) : Prop where
  ne_nil : header ≠ []
  colon_notMem : colon ∉ header
  cr_notMem : (13 : Byte) ∉ header
  lf_notMem : newline ∉ header
  zero_notMem : (0 : Byte) ∉ header

/-- The name of the field that a line holds. -/
def fieldName (line : List Byte) : List Byte := line.takeWhile (· ≠ colon)

/-- What was found is in a line of the block, and the name of the field there is that of
the header. -/
def OwnLine (httpHeader header found lineEnd : List Byte) : Prop :=
  ∃ pre line rest v, httpHeader = pre ++ (line ++ (crlf ++ rest)) ∧ LineStart pre ∧
    ¬ crlf <:+: line ∧ colon ∈ line ∧ fieldName line = header ∧ v <:+ line ∧
    found = v ++ (crlf ++ rest) ∧ lineEnd = crlf ++ rest

/-- The search for the header returns nothing from another field. -/
def OnlyOwnLine (httpHeader header : List Byte) : Prop :=
  ∀ found lineEnd, inetFindHttpHeader httpHeader header = some (found, lineEnd) →
    OwnLine httpHeader header found lineEnd

/-- The first name with a colon that the search comes to, with a blank and a value behind
it, does not start a line. -/
def Misplaced (httpHeader header : List Byte) : Prop :=
  ∃ pre k v rest, httpHeader =
      pre ++ (header ++ colon :: (List.replicate (k + 1) space ++ (v ++ (crlf ++ rest)))) ∧
    Stops header colon pre
      (header ++ colon :: (List.replicate (k + 1) space ++ (v ++ (crlf ++ rest)))) ∧
    (0 : Byte) ∉ pre ∧ (0 : Byte) ∉ v ∧ v.head? ≠ some space ∧ ¬ crlf <:+: v ∧ ¬ LineStart pre

variable {httpHeader header pre v rest : List Byte} {k : ℕ}

/-- The search returns the value behind the blanks. -/
theorem findsValue_of_stops (hheader : IsHeaderName header)
    (heq : httpHeader =
      pre ++ (header ++ colon :: (List.replicate (k + 1) space ++ (v ++ (crlf ++ rest)))))
    (hstops : Stops header colon pre
      (header ++ colon :: (List.replicate (k + 1) space ++ (v ++ (crlf ++ rest)))))
    (hpre : (0 : Byte) ∉ pre) (h0 : (0 : Byte) ∉ v) (hv : v.head? ≠ some space)
    (hline : ¬ crlf <:+: v) : FindsValue httpHeader header v rest :=
  (inetFindHttpHeader_stops hheader.ne_nil hheader.zero_notMem).mpr ⟨pre, _, heq, hstops, hpre,
    skipBlanks_eq_some_iff.mpr ⟨k, v, rest, rfl, hv, first_crlf hline rest, h0, rfl, rfl⟩⟩

/-- A line with a colon is the name of its field, the colon, and the rest. -/
theorem exists_eq_fieldName_append {line : List Byte} (h : colon ∈ line) :
    ∃ body, line = fieldName line ++ colon :: body := by
  have hsplit : line = fieldName line ++ line.dropWhile (· ≠ colon) :=
    List.takeWhile_append_dropWhile.symm
  cases hdrop : line.dropWhile (· ≠ colon) with
  | nil =>
    rw [hdrop, List.append_nil] at hsplit
    have hne := List.mem_takeWhile_imp (hsplit ▸ h : colon ∈ fieldName line)
    simp at hne
  | cons b body =>
    have hb := List.head?_dropWhile_not (· ≠ colon) line
    rw [hdrop] at hsplit hb
    obtain rfl : b = colon := by simpa using hb
    exact ⟨body, hsplit⟩

/-- **The line of a value that was found starts where the search stopped**, if the field in
it is the header's. -/
theorem lineStart_of_ownLine (hheader : IsHeaderName header)
    (heq : httpHeader =
      pre ++ (header ++ colon :: (List.replicate (k + 1) space ++ (v ++ (crlf ++ rest)))))
    (hstops : Stops header colon pre
      (header ++ colon :: (List.replicate (k + 1) space ++ (v ++ (crlf ++ rest)))))
    (hown : OwnLine httpHeader header (v ++ (crlf ++ rest)) (crlf ++ rest)) : LineStart pre := by
  obtain ⟨pre', line, rest', v', heq', hstart, -, hcolon, hname, ⟨a, rfl⟩, hfound, -⟩ := hown
  generalize v ++ (crlf ++ rest) = found at heq hstops hfound
  -- the search does not pass the start of that line
  obtain ⟨body, hbody⟩ := exists_eq_fieldName_append hcolon
  rw [hname] at hbody
  have hle := hstops.length_le (heq.symm.trans heq')
    ⟨body ++ (crlf ++ rest'), by rw [hbody]; simp only [List.append_assoc]; rfl⟩
    (hstart.separated hheader.lf_notMem)
  -- and the line starts before what was found
  have hcancel : pre' ++ a = pre ++ (header ++ colon :: List.replicate (k + 1) space) := by
    refine @List.append_cancel_right _ _ found _ ?_
    rw [hfound, List.append_assoc, ← List.append_assoc a, ← heq', heq, hfound]
    simp only [List.append_assoc, List.cons_append]
  rcases List.append_eq_append_iff.mp hcancel with ⟨w, hpre, -⟩ | ⟨w, rfl, hw⟩
  · have hnil : w = [] := by
      rw [hpre, List.length_append] at hle
      exact List.length_eq_zero_iff.mp (by omega)
    rwa [hpre, hnil, List.append_nil]
  · have hlf : newline ∉ header ++ colon :: List.replicate (k + 1) space := by
      rw [List.mem_append, List.mem_cons, List.mem_replicate]
      rintro (h | h | h)
      · exact hheader.lf_notMem h
      · exact absurd h (by decide)
      · exact absurd h.2 (by decide)
    rcases (hstart.separated hlf).of_append with rfl | ⟨d, hd, hnot⟩
    · rwa [List.append_nil] at hstart
    · exact absurd (hw ▸ List.mem_append_left _ (List.mem_of_getLast? hd)) hnot

/-- Only a carriage return starts the end of a line. -/
theorem not_crlf_infix_append {s : List Byte} (hs : (13 : Byte) ∉ s) (hv : ¬ crlf <:+: v) :
    ¬ crlf <:+: s ++ v := by
  induction s with
  | nil => exact hv
  | cons b s ih =>
    rw [List.mem_cons, not_or] at hs
    rw [List.cons_append, List.infix_cons_iff]
    rintro (⟨r, hr⟩ | h)
    · exact hs.1 (List.cons.inj hr).1
    · exact ih hs.2 h

/-- A line that ends for the first time holds no end. -/
theorem not_crlf_infix_of_first (h : First crlf v (crlf ++ rest)) : ¬ crlf <:+: v := by
  rintro ⟨s, t, rfl⟩
  have hle := h.2 s (crlf ++ (t ++ (crlf ++ rest))) (by simp only [List.append_assoc])
    (List.prefix_append _ _)
  rw [List.length_append, List.length_append] at hle
  have hpos : 0 < crlf.length := by decide
  omega

/-- **The search never takes another field for the one asked**, exactly if what it comes to
first, of what can be taken for the field, starts a line. -/
theorem onlyOwnLine_iff (hheader : IsHeaderName header) :
    OnlyOwnLine httpHeader header ↔ ¬ Misplaced httpHeader header := by
  constructor
  · rintro h ⟨pre, k, v, rest, heq, hstops, hpre, h0, hv, hline, hstart⟩
    have hfound := findsValue_of_stops hheader heq hstops hpre h0 hv hline
    exact hstart (lineStart_of_ownLine hheader heq hstops (h _ _ hfound))
  · intro h found lineEnd hfound
    obtain ⟨pre, q, heq, hstops, hpre, hskip⟩ :=
      (inetFindHttpHeader_stops hheader.ne_nil hheader.zero_notMem).mp hfound
    obtain ⟨k, v, rest, rfl, hv, hfirst, h0, rfl, rfl⟩ := skipBlanks_eq_some_iff.mp hskip
    have hline := not_crlf_infix_of_first hfirst
    have hstart : LineStart pre := by
      by_contra hnot
      exact h ⟨pre, k, v, rest, heq, hstops, hpre, h0, hv, hline, hnot⟩
    have hcr : (13 : Byte) ∉ header ++ colon :: List.replicate (k + 1) space := by
      rw [List.mem_append, List.mem_cons, List.mem_replicate]
      rintro (h | h | h)
      · exact hheader.cr_notMem h
      · exact absurd h (by decide)
      · exact absurd h.2 (by decide)
    refine ⟨pre, header ++ colon :: List.replicate (k + 1) space ++ v, rest, v, ?_, hstart,
      not_crlf_infix_append hcr hline, ?_, ?_, List.suffix_append _ _, rfl, rfl⟩
    · rw [heq]
      simp only [List.append_assoc, List.cons_append]
    · simp
    · rw [fieldName, List.append_assoc, List.takeWhile_append_of_pos fun b hb => ?_]
      · simp
      · rw [decide_eq_true_iff]
        exact fun hc => hheader.colon_notMem (hc ▸ hb)

theorem isHeaderName_key : IsHeaderName (ascii "Sec-WebSocket-Key") :=
  ⟨by decide, by decide, by decide, by decide, by decide⟩

/-- A block of one line, whose field may have a longer name than the header. -/
def keyBlock (pre : List Byte) : List Byte :=
  pre ++ (ascii "Sec-WebSocket-Key" ++ colon :: (List.replicate (0 + 1) space ++
    (ascii "evil" ++ (crlf ++ (crlf ++ [0])))))

theorem onlyOwnLine_iff_key :
    OnlyOwnLine (keyBlock []) (ascii "Sec-WebSocket-Key") ↔
      ¬ Misplaced (keyBlock []) (ascii "Sec-WebSocket-Key") :=
  onlyOwnLine_iff isHeaderName_key

/-- **A field with a longer name** is taken for the header. -/
theorem not_onlyOwnLine_longer :
    inetFindHttpHeader (keyBlock (ascii "X-")) (ascii "Sec-WebSocket-Key") =
        some (ascii "evil" ++ (crlf ++ (crlf ++ [0])), crlf ++ (crlf ++ [0])) ∧
      ¬ OnlyOwnLine (keyBlock (ascii "X-")) (ascii "Sec-WebSocket-Key") := by
  have hfirst : First (ascii "Sec-WebSocket-Key") (ascii "X-") (ascii "Sec-WebSocket-Key" ++
      colon :: (List.replicate (0 + 1) space ++ (ascii "evil" ++ (crlf ++ (crlf ++ [0]))))) := by
    refine first_cons_iff.mpr ⟨by decide, first_cons_iff.mpr ⟨by decide, First.nil ?_⟩⟩
    exact List.prefix_append _ _
  have hline : ¬ crlf <:+: ascii "evil" := fun h =>
    absurd (h.subset List.mem_cons_self : (13 : Byte) ∈ ascii "evil") (by decide)
  have hfound : FindsValue (keyBlock (ascii "X-")) (ascii "Sec-WebSocket-Key") (ascii "evil")
      (crlf ++ [0]) :=
    findsValue_of_stops isHeaderName_key rfl (.here hfirst) (by decide) (by decide) (by decide)
      hline
  refine ⟨hfound, fun h => ?_⟩
  have hstart := lineStart_of_ownLine isHeaderName_key rfl (.here hfirst) (h _ _ hfound)
  exact absurd hstart (by decide)

end Ducq
