import Ducq.Lib.Memory
import Mathlib.Data.Nat.Notation

/-!
# Records that say how long they are

A program is handed memory in which one record follows the other, and walks through it: it
looks at the record the pointer is at, and goes on by the length that stands there, until it
comes to the end or leaves the loop.  Nothing keeps what it does with a record from reading
on into the next one.

A `Format` is what the program and whoever has written the memory agree on.  On memory
written in the format the walk is a recursion over the records (`walk_flatMap`), each of
them looked at together with what lies behind it.
-/

namespace Records

open CMemory

/-- How a record lies in memory, and what is read off its beginning as its length. -/
structure Format (R : Type) where
  encode : R → List Byte
  size : List Byte → ℕ
  size_pos : ∀ p, 0 < size p

variable {R S : Type} (F : Format R)

/-- The walk from an offset to the end, with the state it comes to and the offset it ends at.
A turn says whether the loop goes on; it may have no meaning. -/
def walk (turn : List Byte → S → Option (Bool × S)) (mem : List Byte) (stop ptr : ℕ) (s : S) :
    Option (ℕ × S) :=
  if ptr < stop then
    match turn (mem.drop ptr) s with
    | none => none
    | some (false, s) => some (ptr, s)
    | some (true, s) => walk turn mem stop (ptr + F.size (mem.drop ptr)) s
  else some (ptr, s)
termination_by stop - ptr
decreasing_by
  have hpos := F.size_pos (mem.drop ptr)
  omega

/-- The same, record by record, with `behind` after the last one. -/
def visit (turn : List Byte → S → Option (Bool × S)) (behind : List Byte) :
    List R → ℕ → S → Option (ℕ × S)
  | [], ptr, s => some (ptr, s)
  | r :: rs, ptr, s =>
    match turn (F.encode r ++ (rs.flatMap F.encode ++ behind)) s with
    | none => none
    | some (false, s) => some (ptr, s)
    | some (true, s) => visit turn behind rs (ptr + (F.encode r).length) s

/-- A record of the list carries its length. -/
def Sized (rs : List R) : Prop := ∀ r ∈ rs, ∀ p, F.size (F.encode r ++ p) = (F.encode r).length

variable {F} {turn : List Byte → S → Option (Bool × S)}

/-- **The walk is a recursion over the records**, on memory that holds them one after the
other. -/
theorem walk_flatMap {rs : List R} (h : Sized F rs) (pre behind : List Byte) (s : S) :
    walk F turn (pre ++ (rs.flatMap F.encode ++ behind)) (pre.length + (rs.flatMap F.encode).length)
        pre.length s =
      visit F turn behind rs pre.length s := by
  induction rs generalizing pre s with
  | nil => rw [walk, if_neg (by simp), visit]
  | cons r rs ih =>
    obtain ⟨hr, hrs⟩ := List.forall_mem_cons.mp h
    have hpos : 0 < (F.encode r).length := by
      rw [← hr []]
      exact F.size_pos _
    have hlt : pre.length < pre.length + ((r :: rs).flatMap F.encode).length := by
      rw [List.flatMap_cons, List.length_append]
      omega
    rw [walk, if_pos hlt, List.drop_left, List.flatMap_cons, List.append_assoc, hr, visit]
    rcases hturn : turn (F.encode r ++ (rs.flatMap F.encode ++ behind)) s with _ | ⟨_ | _, s'⟩
    · rfl
    · rfl
    · have hrest := ih hrs (pre ++ F.encode r) s'
      rw [List.length_append, List.append_assoc] at hrest
      dsimp only
      rw [← hrest, List.length_append, Nat.add_assoc]

/-- **The end is reached record by record**: a walk that leaves the loop ends before it. -/
theorem visit_cons_end_iff {r : R} {rs : List R} {behind : List Byte} {ptr : ℕ} {s s' : S}
    (hpos : 0 < (F.encode r).length) :
    visit F turn behind (r :: rs) ptr s =
        some (ptr + ((r :: rs).flatMap F.encode).length, s') ↔
      ∃ t, turn (F.encode r ++ (rs.flatMap F.encode ++ behind)) s = some (true, t) ∧
        visit F turn behind rs (ptr + (F.encode r).length) t =
          some (ptr + (F.encode r).length + (rs.flatMap F.encode).length, s') := by
  have hend : ptr + ((r :: rs).flatMap F.encode).length =
      ptr + (F.encode r).length + (rs.flatMap F.encode).length := by
    rw [List.flatMap_cons, List.length_append, Nat.add_assoc]
  rw [visit, hend]
  constructor
  · intro h
    rcases hturn : turn (F.encode r ++ (rs.flatMap F.encode ++ behind)) s with _ | ⟨_ | _, t⟩
    · rw [hturn] at h
      exact absurd h (Option.some_ne_none _).symm
    · rw [hturn] at h
      have hptr := (Prod.mk.inj (Option.some.inj h)).1
      omega
    · rw [hturn] at h
      exact ⟨t, rfl, h⟩
  · rintro ⟨t, hturn, hrest⟩
    rw [hturn]
    exact hrest

end Records
