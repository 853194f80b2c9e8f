import Mathlib.Data.Finmap
import Mathlib.Tactic.Common

/-!
# Maps of bounded size, and tables searched from the front

A `BoundedMap` is a finite map that holds at most so many keys: setting a key it has
replaces the value, setting a new one is refused once it is full.

A program that keeps such a map in an array searches the array from the front, for the
key or for the first row that is free, and writes what it has to write there.  The rows
in use come first then, so that the array is a list of at most so many entries; `write`
is the write to that list and `find` the search.  What is written need not carry the key
that was searched for, and the table of a program that cuts its keys is a map of
something else.  It is a map of its keys as long as every entry is written under its own
key (`Represents.write`).
-/

namespace FirstFit

variable {K V : Type*} [DecidableEq K]

/-! ## Bounded maps -/

/-- A map with at most `capacity` keys. -/
structure BoundedMap (K V : Type*) [DecidableEq K] (capacity : ℕ) where
  map : Finmap fun _ : K => V
  card_le : map.keys.card ≤ capacity

namespace BoundedMap

variable {capacity : ℕ}

/-- The map without keys. -/
def empty : BoundedMap K V capacity := ⟨∅, Nat.zero_le _⟩

/-- What is stored under a key. -/
def get? (m : BoundedMap K V capacity) (k : K) : Option V := m.map.lookup k

/-- There is no room for another key. -/
def Full (m : BoundedMap K V capacity) : Prop := m.map.keys.card = capacity

instance (m : BoundedMap K V capacity) : Decidable m.Full := inferInstanceAs (Decidable (_ = _))

theorem keys_insert (m : Finmap fun _ : K => V) (k : K) (v : V) :
    (m.insert k v).keys = insert k m.keys := by
  ext a
  rw [Finmap.mem_keys, Finmap.mem_insert, Finset.mem_insert, Finmap.mem_keys]

theorem card_keys_insert_le {m : Finmap fun _ : K => V} {k : K} (v : V)
    (h : m.keys.card ≤ capacity) (hk : k ∈ m ∨ m.keys.card ≠ capacity) :
    (m.insert k v).keys.card ≤ capacity := by
  rw [keys_insert]
  rcases hk with hk | hk
  · rwa [Finset.insert_eq_of_mem (Finmap.mem_keys.mpr hk)]
  · have hcard := Finset.card_insert_le k m.keys
    omega

/-- Set a key; `none` if there is no room for it. -/
def set (m : BoundedMap K V capacity) (k : K) (v : V) : Option (BoundedMap K V capacity) :=
  if h : k ∈ m.map ∨ m.map.keys.card ≠ capacity then
    some ⟨m.map.insert k v, card_keys_insert_le v m.card_le h⟩
  else none

/-- **A set is refused exactly if the key is new and the map is full.** -/
theorem set_eq_none_iff {m : BoundedMap K V capacity} {k : K} {v : V} :
    m.set k v = none ↔ m.get? k = none ∧ m.Full := by
  unfold set
  split_ifs with h
  · refine iff_of_false (fun hc => nomatch hc) fun hc => ?_
    exact h.elim (Finmap.lookup_eq_none.mp hc.1) fun hne => hne hc.2
  · rw [not_or, not_not] at h
    exact iff_of_true rfl ⟨Finmap.lookup_eq_none.mpr h.1, h.2⟩

/-- A set of the key takes the last place. -/
def TakesLast (m : BoundedMap K V capacity) (k : K) : Prop :=
  m.get? k = none ∧ m.map.keys.card + 1 = capacity

instance (m : BoundedMap K V capacity) (k : K) : Decidable (m.TakesLast k) :=
  decidable_of_iff (k ∉ m.map ∧ m.map.keys.card + 1 = capacity)
    (and_congr_left' Finmap.lookup_eq_none.symm)

/-- **After a set the map is full if it was before, or if the set took the last place.** -/
theorem full_getD_set_iff (m : BoundedMap K V capacity) (k : K) (v : V) :
    ((m.set k v).getD m).Full ↔ m.Full ∨ m.TakesLast k := by
  unfold set
  split_ifs with h
  · show (m.map.insert k v).keys.card = capacity ↔ _
    rw [keys_insert, Full, TakesLast, get?, Finmap.lookup_eq_none]
    by_cases hk : k ∈ m.map
    · rw [Finset.insert_eq_of_mem (Finmap.mem_keys.mpr hk)]
      exact (or_iff_left fun hc => hc.1 hk).symm
    · rw [Finset.card_insert_of_notMem (mt Finmap.mem_keys.mp hk), and_iff_right hk,
        or_iff_right (h.resolve_left hk)]
  · exact iff_of_true (of_not_not (not_or.mp h).2) (.inl (of_not_not (not_or.mp h).2))

/-- **A set changes what is stored under its key, and nothing else.** -/
theorem get?_set {m m' : BoundedMap K V capacity} {k : K} {v : V} (h : m.set k v = some m')
    (k' : K) : m'.get? k' = if k' = k then some v else m.get? k' := by
  unfold set at h
  split_ifs at h
  obtain rfl := Option.some.inj h
  split_ifs with hk
  · rw [hk]
    exact Finmap.lookup_insert m.map
  · exact Finmap.lookup_insert_of_ne m.map hk

/-- One set after the other: whether each succeeded, and the map in the end. -/
def run : List (K × V) → BoundedMap K V capacity → List Bool × BoundedMap K V capacity
  | [], m => ([], m)
  | (k, v) :: sets, m =>
    match m.set k v with
    | some m' => ((run sets m').1.cons true, (run sets m').2)
    | none => ((run sets m).1.cons false, (run sets m).2)

/-- The value of the last set of a key that succeeded. -/
def latest (k : K) : List (K × V) → List Bool → Option V → Option V
  | (k', v) :: sets, ok :: oks, last =>
    latest k sets oks (if ok = true ∧ k' = k then some v else last)
  | _, _, last => last

/-- **What is stored is what was set last.** -/
theorem get?_run (k : K) (sets : List (K × V)) (m : BoundedMap K V capacity) :
    (m.run sets).2.get? k = latest k sets (m.run sets).1 (m.get? k) := by
  induction sets generalizing m with
  | nil => rfl
  | cons s sets ih =>
    obtain ⟨k', v⟩ := s
    rw [run]
    cases hset : m.set k' v with
    | none =>
      dsimp only
      rw [latest, if_neg fun hc => nomatch hc.1]
      exact ih m
    | some m' =>
      dsimp only
      rw [latest, ih m', get?_set hset k]
      congr 1
      refine if_congr ?_ rfl rfl
      rw [and_iff_right rfl, eq_comm]

end BoundedMap

/-! ## Tables -/

/-- The first entry of a key. -/
def find (k : K) : List (K × V) → Option V
  | [] => none
  | e :: l => if e.1 = k then some e.2 else find k l

/-- Where the first entry of a key stands, or the first free row. -/
def position (k : K) : List (K × V) → ℕ
  | [] => 0
  | e :: l => if e.1 = k then 0 else position k l + 1

/-- What was found is overwritten with `e`, or the first free row is. -/
def write (k : K) (e : K × V) : List (K × V) → List (K × V)
  | [] => [e]
  | e' :: l => if e'.1 = k then e :: l else e' :: write k e l

variable {k : K} {e : K × V} {l : List (K × V)}

theorem find_eq_none_iff : find k l = none ↔ ∀ e ∈ l, e.1 ≠ k := by
  induction l with
  | nil => simp [find]
  | cons e l ih =>
    rw [find, List.forall_mem_cons, ← ih]
    by_cases he : e.1 = k
    · rw [if_pos he]
      exact iff_of_false (Option.some_ne_none _) fun hc => hc.1 he
    · rw [if_neg he, and_iff_right he]

/-- What is found is in the table. -/
theorem mem_of_find {v : V} (h : find k l = some v) : (k, v) ∈ l := by
  induction l with
  | nil => simp [find] at h
  | cons e l ih =>
    rw [find] at h
    split_ifs at h with he
    · rw [← he, ← Option.some.inj h]
      exact List.mem_cons_self
    · exact List.mem_cons_of_mem _ (ih h)

theorem position_le : position k l ≤ l.length := by
  induction l with
  | nil => exact le_rfl
  | cons e l ih =>
    rw [position, List.length_cons]
    split_ifs
    · omega
    · omega

theorem position_lt_iff : position k l < l.length ↔ find k l ≠ none := by
  induction l with
  | nil => simp [find, position]
  | cons e l ih =>
    rw [position, find, List.length_cons]
    split_ifs
    · simp
    · rw [Nat.succ_lt_succ_iff, ih]

/-- The position of a key holds its first entry. -/
theorem getElem?_position : (l[position k l]?).map Prod.snd = find k l := by
  induction l with
  | nil => rfl
  | cons e l ih =>
    rw [position, find]
    split_ifs
    · rfl
    · rw [List.getElem?_cons_succ, ih]

/-- **What the search stops at.** -/
theorem position_eq_iff {i : ℕ} :
    position k l = i ↔ i ≤ l.length ∧ (∀ e, l[i]? = some e → e.1 = k) ∧
      ∀ j < i, ∃ e, l[j]? = some e ∧ e.1 ≠ k := by
  induction l generalizing i with
  | nil =>
    rw [position, List.length_nil]
    constructor
    · rintro rfl
      simp
    · rintro ⟨hi, -, -⟩
      omega
  | cons e l ih =>
    rw [position, List.length_cons]
    cases i with
    | zero => simp
    | succ i =>
      have htail : (∀ j < i + 1, ∃ a, (e :: l)[j]? = some a ∧ a.1 ≠ k) ↔
          e.1 ≠ k ∧ ∀ j < i, ∃ a, l[j]? = some a ∧ a.1 ≠ k := by
        constructor
        · intro h
          refine ⟨?_, fun j hj => h (j + 1) (by omega)⟩
          obtain ⟨a, ha, hne⟩ := h 0 (by omega)
          rwa [Option.some.inj ha]
        · rintro ⟨he, h⟩ j hj
          cases j with
          | zero => exact ⟨e, rfl, he⟩
          | succ j => exact h j (by omega)
      rw [htail, List.getElem?_cons_succ]
      by_cases he : e.1 = k
      · rw [if_pos he]
        exact iff_of_false (Nat.succ_ne_zero i).symm fun hc => hc.2.2.1 he
      · rw [if_neg he, Nat.succ_inj, ih, Nat.succ_le_succ_iff, and_iff_right he]

/-- A write changes the row the search stops at. -/
theorem getElem?_write (j : ℕ) :
    (write k e l)[j]? = if j = position k l then some e else l[j]? := by
  induction l generalizing j with
  | nil =>
    cases j with
    | zero => rfl
    | succ j => rw [position, if_neg (Nat.succ_ne_zero j)]; rfl
  | cons e' l ih =>
    rw [write, position]
    split_ifs with he hj hj
    · rw [hj]
      rfl
    · cases j with
      | zero => exact absurd rfl hj
      | succ j => rfl
    · rw [hj, List.getElem?_cons_succ, ih, if_pos rfl]
    · cases j with
      | zero => rfl
      | succ j => rw [List.getElem?_cons_succ, ih, if_neg (by omega), List.getElem?_cons_succ]

/-- A write to a free row is an entry more. -/
theorem write_of_find_eq_none (h : find k l = none) : write k e l = l ++ [e] := by
  induction l with
  | nil => rfl
  | cons e' l ih =>
    rw [find] at h
    split_ifs at h with he
    rw [write, if_neg he, ih h, List.cons_append]

theorem length_write :
    (write k e l).length = if find k l = none then l.length + 1 else l.length := by
  induction l with
  | nil => rfl
  | cons e' l ih =>
    rw [write, find]
    by_cases he : e'.1 = k
    · rw [if_pos he, if_pos he, if_neg (Option.some_ne_none _)]
      rfl
    · rw [if_neg he, if_neg he, List.length_cons, ih, List.length_cons]
      split_ifs
      · rfl
      · rfl

/-- An entry of the table that was written to. -/
theorem mem_of_mem_write {a : K × V} (h : a ∈ write k e l) : a = e ∨ a ∈ l := by
  induction l with
  | nil => exact Or.inl (List.mem_singleton.mp h)
  | cons e' l ih =>
    rw [write] at h
    split_ifs at h
    · exact (List.mem_cons.mp h).imp_right (List.mem_cons_of_mem _)
    · rcases List.mem_cons.mp h with h | h
      · exact Or.inr (h ▸ List.mem_cons_self)
      · exact (ih h).imp_right (List.mem_cons_of_mem _)

theorem find_append (l l' : List (K × V)) :
    find k (l ++ l') = (find k l).or (find k l') := by
  induction l with
  | nil => rfl
  | cons e l ih =>
    rw [List.cons_append, find, find, ih]
    split_ifs
    · rfl
    · rfl

/-- **What is found after an entry was written under its own key.** -/
theorem find_write (he : e.1 = k) (k' : K) :
    find k' (write k e l) = if k' = k then some e.2 else find k' l := by
  induction l with
  | nil =>
    rw [write, find, find, he]
    exact if_congr eq_comm rfl rfl
  | cons e' l ih =>
    rw [write]
    by_cases hk : e'.1 = k
    · rw [if_pos hk, find, find, he, hk]
      split_ifs with h1 h2 h2
      · rfl
      · exact absurd h1.symm h2
      · exact absurd h2.symm h1
      · rfl
    · rw [if_neg hk, find, find, ih]
      split_ifs with h1 h2 h2
      · exact absurd (h1.trans h2) hk
      · rfl
      · rfl
      · rfl

/-- What is found under a key that is neither searched for nor written. -/
theorem find_write_of_ne {k' : K} (hk : k' ≠ k) (he : e.1 ≠ k') :
    find k' (write k e l) = find k' l := by
  induction l with
  | nil => rw [write, find, find, if_neg he, find]
  | cons e' l ih =>
    rw [write]
    by_cases hk' : e'.1 = k
    · rw [if_pos hk', find, if_neg he, find, if_neg fun hc => hk (hc.symm.trans hk')]
    · rw [if_neg hk', find, find, ih]

/-! ## A table is a bounded map -/

variable {capacity : ℕ} {m : BoundedMap K V capacity}

/-- The table holds the map: the same values, and no key twice. -/
structure Represents (l : List (K × V)) (m : BoundedMap K V capacity) : Prop where
  find_eq : ∀ k, find k l = m.get? k
  nodup : (l.map Prod.fst).Nodup

theorem Represents.empty :
    Represents ([] : List (K × V)) (BoundedMap.empty : BoundedMap K V capacity) where
  find_eq _ := rfl
  nodup := List.nodup_nil

/-- As many rows are in use as there are keys. -/
theorem Represents.length_eq (h : Represents l m) : l.length = m.map.keys.card := by
  have hkeys : m.map.keys = (l.map Prod.fst).toFinset := by
    ext k
    have hnone : k ∉ m.map ↔ ∀ e ∈ l, e.1 ≠ k := by
      rw [← find_eq_none_iff, h.find_eq]
      exact Finmap.lookup_eq_none.symm
    rw [Finmap.mem_keys, List.mem_toFinset, List.mem_map, ← not_iff_not, hnone]
    push Not
    rfl
  rw [hkeys, List.toFinset_card_of_nodup h.nodup, List.length_map]

/-- **There is a row for a key exactly if there is room for it.** -/
theorem Represents.room_iff (h : Represents l m) (k : K) (v : V) :
    position k l < capacity ↔ m.set k v ≠ none := by
  have hlength := h.length_eq
  have hcard := m.card_le
  rw [ne_eq, BoundedMap.set_eq_none_iff, BoundedMap.Full, ← h.find_eq, not_and_or]
  have hlt := @position_lt_iff K V _ k l
  have hle := @position_le K V _ k l
  by_cases hk : find k l = none
  · have hnot := mt hlt.mp (not_not.mpr hk)
    rw [or_iff_right (not_not.mpr hk)]
    omega
  · have hpos := hlt.mpr hk
    exact iff_of_true (by omega) (Or.inl hk)

/-- **Writing an entry under its own key is setting the key.** -/
theorem Represents.write (h : Represents l m) {k : K} {v : V} {m' : BoundedMap K V capacity}
    (hset : m.set k v = some m') : Represents (write k (k, v) l) m' where
  find_eq k' := by
    have hfind := @find_write K V _ k (k, v) l rfl k'
    rw [hfind, BoundedMap.get?_set hset, h.find_eq]
  nodup := by
    cases hk : find k l with
    | none =>
      rw [write_of_find_eq_none hk, List.map_append, List.nodup_append]
      refine ⟨h.nodup, List.nodup_singleton _, ?_⟩
      rintro a ha b hb rfl
      obtain ⟨e, he, rfl⟩ := List.mem_map.mp ha
      exact find_eq_none_iff.mp hk e he (List.mem_singleton.mp hb)
    | some v' =>
      have hkeys : (FirstFit.write k (k, v) l).map Prod.fst = l.map Prod.fst := by
        clear h
        induction l with
        | nil => simp [find] at hk
        | cons e l ih =>
          rw [find] at hk
          rw [FirstFit.write]
          split_ifs at hk ⊢ with he
          · rw [List.map_cons, List.map_cons, he]
          · rw [List.map_cons, List.map_cons, ih hk]
      rw [hkeys]
      exact h.nodup

end FirstFit
