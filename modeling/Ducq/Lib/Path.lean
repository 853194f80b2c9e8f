import Ducq.Lib.Memory
import Mathlib.Data.List.Induction
import Mathlib.Data.Nat.Notation

/-!
# The names of files

A `FileName` is the name of a directory entry: it is not empty and holds neither a slash
nor a NUL.  What a program takes for its extension begins at the last dot (`strrchr`); an
extension with no further dot is the last one exactly if the name ends in it
(`strrchr_eq_some_iff`).

A `Pathname` is what a path says to the system: whether it starts at the root, and the
names between its slashes, however many slashes there are.  A path that goes on behind a
slash names an entry of the directory before it (`components_slash`), and one that goes on
without a slash does not (`length_components_append`).
-/

namespace CPath

open CMemory

/-- `'/'`. -/
abbrev slash : Byte := 47

/-- `'.'`. -/
abbrev dot : Byte := 46

/-- The name of a directory entry. -/
@[ext]
structure FileName where
  bytes : List Byte
  ne_nil : bytes ≠ []
  zero_notMem : (0 : Byte) ∉ bytes
  slash_notMem : slash ∉ bytes
  deriving DecidableEq

/-! ## Extensions -/

/-- `strrchr`: the pointer to the last `c` of a string, `none` for NULL. -/
def strrchr (c : Byte) : List Byte → Option (List Byte)
  | [] => none
  | b :: p =>
    if b = 0 then none
    else match strrchr c p with
      | some q => some q
      | none => if b = c then some (b :: p) else none

/-- There is none exactly if the string does not hold the byte. -/
theorem strrchr_eq_none_iff {c : Byte} {s : List Byte} (h0 : (0 : Byte) ∉ s) :
    strrchr c s = none ↔ c ∉ s := by
  induction s with
  | nil => simp [strrchr]
  | cons b s ih =>
    rw [List.mem_cons, not_or] at h0
    have ih := ih h0.2
    rw [strrchr, if_neg (Ne.symm h0.1), List.mem_cons, not_or]
    cases hs : strrchr c s with
    | none =>
      rw [hs] at ih
      rw [and_iff_left (ih.mp rfl)]
      by_cases hb : b = c
      · simp [hb]
      · simp [hb, Ne.symm hb]
    | some q =>
      rw [hs] at ih
      exact iff_of_false (Option.some_ne_none q) fun h =>
        Option.some_ne_none q (ih.mpr h.2)

/-- **The extension is the end of the name**, for one that holds no further dot. -/
theorem strrchr_eq_some_iff {c : Byte} {s e : List Byte} (h0 : (0 : Byte) ∉ s) (he : c ∉ e) :
    strrchr c s = some (c :: e) ↔ (c :: e) <:+ s := by
  induction s with
  | nil => simp [strrchr]
  | cons b s ih =>
    rw [List.mem_cons, not_or] at h0
    have ih := ih h0.2
    rw [strrchr, if_neg (Ne.symm h0.1), List.suffix_cons_iff]
    cases hs : strrchr c s with
    | none =>
      rw [hs] at ih
      have hmem := (strrchr_eq_none_iff h0.2).mp hs
      have hnot : ¬ (c :: e) <:+ s := fun h => hmem (h.mem List.mem_cons_self)
      rw [or_iff_left hnot]
      by_cases hb : b = c
      · simp [hb, eq_comm]
      · simp [hb, Ne.symm hb]
    | some q =>
      rw [hs] at ih
      rw [← ih, or_iff_right_of_imp]
      intro h
      -- the name would be its own extension, with a dot behind the first
      have hmem : c ∈ s := by
        by_contra hc
        exact Option.some_ne_none q (hs.symm.trans ((strrchr_eq_none_iff h0.2).mpr hc))
      exact absurd ((List.cons.inj h).2 ▸ hmem) he

/-- The extension of a name is `e`, which a name without a dot has not. -/
def FileName.hasExtension (e : List Byte) (name : FileName) : Bool :=
  match strrchr dot name.bytes with
  | none => false
  | some ext => ext = e

/-- **A name has the extension it ends in.** -/
theorem FileName.hasExtension_eq {e : List Byte} (he : dot ∉ e) (name : FileName) :
    name.hasExtension (dot :: e) = decide ((dot :: e) <:+ name.bytes) := by
  have hiff := strrchr_eq_some_iff name.zero_notMem he
  rw [FileName.hasExtension]
  cases hext : strrchr dot name.bytes with
  | none =>
    rw [hext] at hiff
    exact (decide_eq_false fun h => Option.some_ne_none _ (hiff.mpr h).symm).symm
  | some ext =>
    rw [hext, Option.some.injEq] at hiff
    exact decide_eq_decide.mpr hiff

/-! ## Pathnames -/

/-- The names so far, and the one that is being read. -/
def scanName (st : List (List Byte) × List Byte) (b : Byte) : List (List Byte) × List Byte :=
  if b = slash then (if st.2 = [] then st.1 else st.1 ++ [st.2], []) else (st.1, st.2 ++ [b])

/-- The names of a path, and the last one apart if the path does not end in a slash. -/
def scanPath (p : List Byte) : List (List Byte) × List Byte := p.foldl scanName ([], [])

/-- The names between the slashes of a path. -/
def components (p : List Byte) : List (List Byte) :=
  if (scanPath p).2 = [] then (scanPath p).1 else (scanPath p).1 ++ [(scanPath p).2]

/-- What a path says. -/
structure Pathname where
  absolute : Bool
  names : List (List Byte)
  deriving DecidableEq

/-- The pathname of a path. -/
def pathname (p : List Byte) : Pathname := ⟨p.head? = some slash, components p⟩

/-- The entry of a directory. -/
def Pathname.entry (d : Pathname) (name : List Byte) : Pathname := ⟨d.absolute, d.names ++ [name]⟩

theorem scanPath_append (p q : List Byte) :
    scanPath (p ++ q) = q.foldl scanName (scanPath p) := List.foldl_append

/-- Bytes that are no slashes go on with the name. -/
theorem scanPath_append_of_notMem (p : List Byte) {x : List Byte} (hx : slash ∉ x) :
    scanPath (p ++ x) = ((scanPath p).1, (scanPath p).2 ++ x) := by
  induction x generalizing p with
  | nil => simp
  | cons b x ih =>
    rw [List.mem_cons, not_or] at hx
    have hb : scanPath (p ++ [b]) = ((scanPath p).1, (scanPath p).2 ++ [b]) := by
      rw [scanPath_append, List.foldl_cons, List.foldl_nil, scanName, if_neg (Ne.symm hx.1)]
    rw [List.append_cons, ih _ hx.2, hb, ← List.append_cons]

/-- Behind a slash a new name begins. -/
theorem scanPath_slash (p : List Byte) : scanPath (p ++ [slash]) = (components p, []) := by
  rw [scanPath_append, List.foldl_cons, List.foldl_nil, scanName, if_pos rfl, components]

/-- A slash at the end says nothing. -/
theorem components_slash_end (p : List Byte) : components (p ++ [slash]) = components p := by
  rw [components, scanPath_slash, if_pos rfl]

/-- **Behind a slash stands the name of an entry.** -/
theorem components_slash (p : List Byte) {x : List Byte} (hne : x ≠ []) (hx : slash ∉ x) :
    components (p ++ [slash] ++ x) = components p ++ [x] := by
  have hscan : scanPath (p ++ [slash] ++ x) = (components p, x) := by
    rw [scanPath_append_of_notMem _ hx, scanPath_slash, List.nil_append]
  rw [components, hscan, if_neg hne]

/-- The last name is being read unless the path ends in a slash. -/
theorem scanPath_snd_eq_nil_iff (p : List Byte) :
    (scanPath p).2 = [] ↔ p = [] ∨ p.getLast? = some slash := by
  induction p using List.reverseRecOn with
  | nil => exact iff_of_true rfl (Or.inl rfl)
  | append_singleton p b =>
    rw [scanPath_append, List.foldl_cons, List.foldl_nil, scanName, List.getLast?_concat,
      Option.some.injEq]
    by_cases hb : b = slash
    · rw [if_pos hb]
      exact iff_of_true rfl (Or.inr hb)
    · simp [hb]

/-- **Without a slash no name is added.** -/
theorem length_components_append {p x : List Byte} (hp : p ≠ []) (hlast : p.getLast? ≠ some slash)
    (hx : slash ∉ x) : (components (p ++ x)).length = (components p).length := by
  have hsnd : (scanPath p).2 ≠ [] := fun h =>
    ((scanPath_snd_eq_nil_iff p).mp h).elim hp hlast
  have hscan := scanPath_append_of_notMem p hx
  have hsnd' : (scanPath (p ++ x)).2 ≠ [] := by
    rw [hscan]
    exact fun h => hsnd (List.append_eq_nil_iff.mp h).1
  rw [components, components, if_neg hsnd, if_neg hsnd', List.length_append, List.length_append,
    hscan]
  rfl

/-- A slash at the end does not change what a path says. -/
theorem pathname_slash_end {p : List Byte} (hp : p ≠ []) :
    pathname (p ++ [slash]) = pathname p := by
  obtain ⟨b, q, rfl⟩ := List.exists_cons_of_ne_nil hp
  rw [pathname, components_slash_end]
  rfl

/-- **A path with more behind it says an entry of the directory** exactly if it ends in a
slash, and what is behind it is the entry's name. -/
theorem pathname_append_eq_entry_iff {p x y : List Byte} (hp : p ≠ []) (hx : slash ∉ x)
    (hy : y ≠ []) :
    pathname (p ++ x) = (pathname p).entry y ↔ p.getLast? = some slash ∧ x = y := by
  have habsolute : (p ++ x).head? = p.head? := by
    obtain ⟨b, q, rfl⟩ := List.exists_cons_of_ne_nil hp
    rfl
  rw [pathname, pathname, Pathname.entry, habsolute, Pathname.mk.injEq, and_iff_right rfl]
  by_cases hlast : p.getLast? = some slash
  · obtain ⟨q, rfl⟩ := List.getLast?_eq_some_iff.mp hlast
    rw [and_iff_right hlast, components_slash_end]
    by_cases hx0 : x = []
    · rw [hx0, List.append_nil, components_slash_end]
      refine iff_of_false (fun h => ?_) hy.symm
      exact absurd (congrArg List.length h) (by simp)
    · rw [components_slash q hx0 hx, List.append_cancel_left_eq, List.cons.injEq,
        and_iff_left rfl]
  · refine iff_of_false (fun h => ?_) fun h => hlast h.1
    have hlen := congrArg List.length h
    rw [length_components_append hp hlast hx, List.length_append] at hlen
    exact Nat.succ_ne_self _ hlen.symm

end CPath
