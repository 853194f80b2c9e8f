import Ducq.Lib.Number

/-!
# Formatted output

What `vsnprintf` makes of a format and its arguments, for the conversions `%s`, `%d`,
`%ld`, `%.*s` and `%%`.  A conversion without an argument, one with an argument of the
wrong kind, and a conversion that is none of these have no meaning: `format` is then
`none`.  Arguments left over are ignored.

`snprintf` writes as much of the text as there is room for, and a terminator, and it
returns the length of the whole text.

Which arguments a format asks for does not depend on what they are.  `specs` reads them
off the format alone, and a format has a meaning exactly if the arguments begin with what
it asks for (`format_isSome_iff`).  Without arguments that leaves the formats in which
every `%` is one of a pair (`specs_eq_nil_iff`).
-/

namespace CPrintf

open CMemory CNumber

/-- `%`. -/
abbrev percent : Byte := 37

/-- An argument: a `char *`, which may be NULL, or an integer. -/
inductive Arg where
  | str (s : Option (List Byte))
  | int (z : ℤ)
  deriving DecidableEq

/-- An integer in decimal. -/
def intText (z : ℤ) : List Byte := if z < 0 then 45 :: decimal z.natAbs else decimal z.natAbs

/-- A string; the library prints NULL as `(null)`. -/
def strText (s : Option (List Byte)) : List Byte := (s.map cstr).getD (ascii "(null)")

/-- How far into a conversion a scan of a format is. -/
inductive Scan where
  | text | percent | long | dot | dotStar

/-- The rest of a format, from inside a conversion or outside, and the arguments that
are left. -/
def formatFrom : Scan → List Byte → List Arg → Option (List Byte)
  | .text, [], _ => some []
  | _, [], _ => none
  | .text, c :: f, args =>
    if c = percent then formatFrom .percent f args
    else (formatFrom .text f args).map (c :: ·)
  | .percent, c :: f, args =>
    if c = percent then (formatFrom .text f args).map (percent :: ·)
    else if c = 115 then
      match args with
      | .str s :: args => (formatFrom .text f args).map (strText s ++ ·)
      | _ => none
    else if c = 100 then
      match args with
      | .int z :: args => (formatFrom .text f args).map (intText z ++ ·)
      | _ => none
    else if c = 108 then formatFrom .long f args
    else if c = 46 then formatFrom .dot f args
    else none
  | .long, c :: f, args =>
    if c = 100 then
      match args with
      | .int z :: args => (formatFrom .text f args).map (intText z ++ ·)
      | _ => none
    else none
  | .dot, c :: f, args => if c = 42 then formatFrom .dotStar f args else none
  | .dotStar, c :: f, args =>
    if c = 115 then
      match args with
      | .int z :: .str s :: args =>
        -- a negative precision is no precision
        (formatFrom .text f args).map
          ((if z < 0 then strText s else (strText s).take z.toNat) ++ ·)
      | _ => none
    else none

/-- The text of a format and its arguments. -/
def format (f : List Byte) (args : List Arg) : Option (List Byte) := formatFrom .text f args

/-! ## What a format asks for -/

/-- The type a conversion asks for. -/
inductive ArgKind where
  | str | int
  deriving DecidableEq

/-- The type of an argument. -/
def Arg.kind : Arg → ArgKind
  | .str _ => .str
  | .int _ => .int

/-- What the rest of a format asks for; nothing if a conversion is not one of those
above. -/
def specsFrom : Scan → List Byte → Option (List ArgKind)
  | .text, [] => some []
  | _, [] => none
  | .text, c :: f => if c = percent then specsFrom .percent f else specsFrom .text f
  | .percent, c :: f =>
    if c = percent then specsFrom .text f
    else if c = 115 then (specsFrom .text f).map (.str :: ·)
    else if c = 100 then (specsFrom .text f).map (.int :: ·)
    else if c = 108 then specsFrom .long f
    else if c = 46 then specsFrom .dot f
    else none
  | .long, c :: f => if c = 100 then (specsFrom .text f).map (.int :: ·) else none
  | .dot, c :: f => if c = 42 then specsFrom .dotStar f else none
  | .dotStar, c :: f =>
    if c = 115 then (specsFrom .text f).map fun kinds => .int :: .str :: kinds else none

/-- The types a format asks for, in order. -/
def specs (f : List Byte) : Option (List ArgKind) := specsFrom .text f

/-- A conversion whose arguments are there. -/
private theorem take_kinds {out : Option (List Byte)} {g : List Byte → List Byte}
    {rest : Option (List ArgKind)} {args : List ArgKind} (ks : List ArgKind)
    (ih : out.isSome ↔ ∃ kinds, rest = some kinds ∧ kinds <+: args) :
    (out.map g).isSome ↔ ∃ kinds, rest.map (ks ++ ·) = some kinds ∧ kinds <+: ks ++ args := by
  rw [Option.isSome_map, ih]
  constructor
  · rintro ⟨kinds, rfl, hkinds⟩
    exact ⟨ks ++ kinds, rfl, (List.prefix_append_right_inj ks).mpr hkinds⟩
  · rintro ⟨_, hrest, hkinds⟩
    obtain ⟨kinds, rfl, rfl⟩ := Option.map_eq_some_iff.mp hrest
    exact ⟨kinds, rfl, (List.prefix_append_right_inj ks).mp hkinds⟩

/-- A conversion one of whose arguments is missing or of another type. -/
private theorem lack_kinds {rest : Option (List ArgKind)} {args : List ArgKind}
    (ks : List ArgKind) (h : ¬ ks <+: args) :
    (none : Option (List Byte)).isSome ↔
      ∃ kinds, rest.map (ks ++ ·) = some kinds ∧ kinds <+: args := by
  refine iff_of_false Bool.false_ne_true ?_
  rintro ⟨_, hrest, hkinds⟩
  obtain ⟨kinds, -, rfl⟩ := Option.map_eq_some_iff.mp hrest
  exact h ((List.prefix_append ks kinds).trans hkinds)

/-- An integer conversion, long or not. -/
private theorem isSome_int {f : List Byte}
    (ih : ∀ args, (formatFrom .text f args).isSome ↔
      ∃ kinds, specsFrom .text f = some kinds ∧ kinds <+: args.map Arg.kind) (args : List Arg) :
    (match args with
      | .int z :: args => (formatFrom .text f args).map (intText z ++ ·)
      | _ => none).isSome ↔
      ∃ kinds, (specsFrom .text f).map (.int :: ·) = some kinds ∧ kinds <+: args.map Arg.kind := by
  rcases args with _ | ⟨s | z, args⟩
  · exact lack_kinds [.int] (by simp)
  · exact lack_kinds [.int] (by simp [Arg.kind])
  · exact take_kinds [.int] (ih args)

/-- The induction is on the format; a conversion looks at the arguments it takes. -/
theorem formatFrom_isSome_iff (f : List Byte) (scan : Scan) (args : List Arg) :
    (formatFrom scan f args).isSome ↔
      ∃ kinds, specsFrom scan f = some kinds ∧ kinds <+: args.map Arg.kind := by
  induction f generalizing scan args with
  | nil => cases scan <;> simp [formatFrom, specsFrom]
  | cons c f ih =>
    cases scan with
    | text =>
      unfold formatFrom specsFrom
      split_ifs
      · exact ih .percent args
      · rw [Option.isSome_map]
        exact ih .text args
    | percent =>
      unfold formatFrom specsFrom
      split_ifs
      · rw [Option.isSome_map]
        exact ih .text args
      · rcases args with _ | ⟨s | z, args⟩
        · exact lack_kinds [.str] (by simp)
        · exact take_kinds [.str] (ih .text args)
        · exact lack_kinds [.str] (by simp [Arg.kind])
      · exact isSome_int (ih .text) args
      · exact ih .long args
      · exact ih .dot args
      · simp
    | long =>
      unfold formatFrom specsFrom
      split_ifs
      · exact isSome_int (ih .text) args
      · simp
    | dot =>
      unfold formatFrom specsFrom
      split_ifs
      · exact ih .dotStar args
      · simp
    | dotStar =>
      unfold formatFrom specsFrom
      split_ifs
      · rcases args with _ | ⟨s | z, _ | ⟨s | z', args⟩⟩
        · exact lack_kinds [.int, .str] (by simp)
        · exact lack_kinds [.int, .str] (by simp [Arg.kind])
        · exact lack_kinds [.int, .str] (by simp [Arg.kind])
        · exact lack_kinds [.int, .str] (by simp [Arg.kind])
        · exact lack_kinds [.int, .str] (by simp [Arg.kind])
        · exact take_kinds [.int, .str] (ih .text args)
        · exact lack_kinds [.int, .str] (by simp [Arg.kind])
      · simp

/-- **A format has a meaning exactly if the arguments begin with what it asks for.** -/
theorem format_isSome_iff (f : List Byte) (args : List Arg) :
    (format f args).isSome ↔ ∃ kinds, specs f = some kinds ∧ kinds <+: args.map Arg.kind :=
  formatFrom_isSome_iff f .text args

/-- Every `%` is one of a pair. -/
def percentsPaired : List Byte → Bool
  | [] => true
  | c :: f =>
    if c = percent then
      match f with
      | [] => false
      | c :: f => c = percent && percentsPaired f
    else percentsPaired f

/-- A conversion that is not `%%` asks for something. -/
private theorem specsFrom_percent_ne {c : Byte} (hc : c ≠ percent) (f : List Byte) :
    specsFrom .percent (c :: f) ≠ some [] := by
  have hlong : specsFrom .long f ≠ some [] := by
    cases f with
    | nil => simp [specsFrom]
    | cons c f =>
      unfold specsFrom
      split_ifs <;> simp
  have hdotStar : ∀ f, specsFrom .dotStar f ≠ some [] := by
    intro f
    cases f with
    | nil => simp [specsFrom]
    | cons c f =>
      unfold specsFrom
      split_ifs <;> simp
  have hdot : specsFrom .dot f ≠ some [] := by
    cases f with
    | nil => simp [specsFrom]
    | cons c f =>
      unfold specsFrom
      split_ifs
      · exact hdotStar f
      · simp
  unfold specsFrom
  rw [if_neg hc]
  split_ifs
  · simp
  · simp
  · exact hlong
  · exact hdot
  · simp

/-- **What asks for nothing**: the formats whose every `%` is one of a pair. -/
theorem specs_eq_nil_iff (f : List Byte) : specs f = some [] ↔ percentsPaired f = true := by
  unfold specs
  fun_induction percentsPaired f with
  | case1 => simp [specsFrom]
  | case2 => simp [specsFrom]
  | case3 c f ih =>
    by_cases hc : c = percent
    · simpa [specsFrom, hc] using ih
    · have hne := specsFrom_percent_ne hc f
      rw [specsFrom, if_pos rfl]
      simp [hne, hc]
  | case4 c f hc ih => simpa [specsFrom, hc] using ih

/-- `snprintf(buf + i, size, ...)` of a text: the buffer. -/
def snprintf (b : Buffer) (i size : ℕ) (text : List Byte) : Buffer :=
  if size = 0 then b else b.store i (text.take (size - 1) ++ [0])

example : format (ascii "%s,%d notified") [.str (some (ascii "news")), .int 3] =
    some (ascii "news,3 notified") := by decide

/-! ## What of a text is formatted -/

/-- How many characters of a text `snprintf` formats into `size` bytes; the last byte is
the terminator's. -/
def printed (size : ℕ) (text : List Byte) : ℕ := min text.length (size - 1)

theorem printed_of_lt {size : ℕ} {text : List Byte} (h : text.length < size) :
    printed size text = text.length := by
  rw [printed, min_eq_left (by omega)]

/-- `snprintf` keeps to its room. -/
theorem within_snprintf {b : Buffer} {i size capacity : ℕ} (hb : b.Within capacity)
    (h : i + size ≤ capacity) (text : List Byte) : (snprintf b i size text).Within capacity := by
  unfold snprintf
  split_ifs with hsize
  · exact hb
  · refine Buffer.within_store hb ?_
    rw [List.length_append, List.length_take, List.length_singleton]
    omega

/-- A text that fits is stored whole, with its terminator. -/
theorem snprintf_of_lt (b : Buffer) (i : ℕ) {size : ℕ} {text : List Byte}
    (h : text.length < size) : snprintf b i size text = b.store i (text ++ [0]) := by
  rw [snprintf, if_neg (by omega), List.take_of_length_le (by omega)]

end CPrintf
