import Mathlib.Data.List.GetD
import Mathlib.Data.List.TakeWhile
import Mathlib.Order.Basic
import Mathlib.Tactic.Common

/-!
# Bytes, C strings and buffers

The memory a C function sees, in the three shapes this development needs.

* A `char *` is the list of the bytes from the pointer to the end of the array it
  points into, so that advancing the pointer drops a byte and a dereference past
  the array is a read of the empty list.  `cstr` is the string such a pointer
  denotes: the bytes before the first NUL.
* A `char[n]` is a `CharArray n`, a list that carries its length.  `strncpy` is the
  library function on a whole array; it is the only way a string gets into one, and
  it does not always leave a terminator behind.
* A caller's buffer is a `Buffer`: what each index holds, together with the list of
  the indices written so far.  Writing outside the caller's capacity is then a
  statement about that list and not a fault of the model.
-/

namespace CMemory

abbrev Byte := UInt8

/-- The bytes of an ASCII literal. -/
def ascii (s : String) : List Byte := s.toList.map fun c => UInt8.ofNat c.toNat

abbrev newline : Byte := 10
abbrev space : Byte := 32

/-- A property of bytes is one of 256 numbers. -/
theorem forall_byte {P : Byte → Prop} (h : ∀ n < 256, P (UInt8.ofNat n)) (b : Byte) : P b := by
  have hb := h b.toNat b.toNat_lt
  rwa [UInt8.ofNat_toNat] at hb

/-! ## C strings -/

/-- The string a pointer denotes: the bytes before the first NUL. -/
def cstr (p : List Byte) : List Byte := p.takeWhile (· ≠ 0)

@[simp] theorem cstr_nil : cstr [] = [] := rfl

@[simp] theorem cstr_zero_cons (p : List Byte) : cstr (0 :: p) = [] := rfl

theorem cstr_cons_of_ne {b : Byte} (hb : b ≠ 0) (p : List Byte) :
    cstr (b :: p) = b :: cstr p := by
  simp [cstr, hb]

/-- No string holds a NUL. -/
theorem zero_notMem_cstr (p : List Byte) : (0 : Byte) ∉ cstr p := by
  intro h
  simpa using List.mem_takeWhile_imp h

/-- **A terminated string is the bytes before its terminator**, whatever lies
behind it. -/
theorem cstr_append_zero {s : List Byte} (hs : (0 : Byte) ∉ s) (p : List Byte) :
    cstr (s ++ 0 :: p) = s := by
  induction s with
  | nil => rfl
  | cons b s ih =>
    rw [List.mem_cons, not_or] at hs
    rw [List.cons_append, cstr_cons_of_ne (Ne.symm hs.1), ih hs.2]

theorem cstr_of_notMem {s : List Byte} (hs : (0 : Byte) ∉ s) : cstr s = s := by
  induction s with
  | nil => rfl
  | cons b s ih =>
    rw [List.mem_cons, not_or] at hs
    rw [cstr_cons_of_ne (Ne.symm hs.1), ih hs.2]

/-- Memory that holds a NUL splits at the first one. -/
theorem exists_eq_cstr_append {p : List Byte} (h : (0 : Byte) ∈ p) :
    ∃ q, p = cstr p ++ 0 :: q := by
  induction p with
  | nil => simp at h
  | cons b p ih =>
    by_cases hb : b = 0
    · exact ⟨p, by simp [hb]⟩
    · obtain ⟨q, hq⟩ := ih (List.mem_of_ne_of_mem (Ne.symm hb) h)
      exact ⟨q, by rw [cstr_cons_of_ne hb, List.cons_append, ← hq]⟩

/-- What follows the first NUL is not part of the string. -/
theorem cstr_append_of_mem {p : List Byte} (h : (0 : Byte) ∈ p) (q : List Byte) :
    cstr (p ++ q) = cstr p := by
  obtain ⟨r, hr⟩ := exists_eq_cstr_append h
  conv_lhs => rw [hr]
  rw [List.append_assoc, List.cons_append, cstr_append_zero (zero_notMem_cstr p)]

/-- Memory without a NUL is part of the string it starts. -/
theorem cstr_append_of_notMem {p : List Byte} (h : (0 : Byte) ∉ p) (q : List Byte) :
    cstr (p ++ q) = p ++ cstr q := by
  induction p with
  | nil => rfl
  | cons b p ih =>
    rw [List.mem_cons, not_or] at h
    rw [List.cons_append, cstr_cons_of_ne (Ne.symm h.1), ih h.2, List.cons_append]

/-- What follows a NUL is not part of the string, wherever the first NUL is. -/
theorem cstr_append_zero_cons (p q : List Byte) : cstr (p ++ 0 :: q) = cstr p := by
  by_cases h : (0 : Byte) ∈ p
  · exact cstr_append_of_mem h _
  · rw [cstr_append_zero h, cstr_of_notMem h]

theorem length_cstr_le (p : List Byte) : (cstr p).length ≤ p.length :=
  (List.takeWhile_prefix _).length_le

/-- Memory is its own string exactly if it holds no NUL. -/
theorem cstr_eq_self_iff {p : List Byte} : cstr p = p ↔ (0 : Byte) ∉ p :=
  ⟨fun h => h ▸ zero_notMem_cstr p, cstr_of_notMem⟩

/-- `strchr`: the pointer to the first `c`, `none` for NULL.  The terminator counts
as part of the string. -/
def strchr (c : Byte) : List Byte → Option (List Byte)
  | [] => none
  | b :: p => if b = c then some (b :: p) else if b = 0 then none else strchr c p

/-- `strchr` finds the first occurrence inside the string. -/
theorem strchr_append {c : Byte} {s : List Byte} (h0 : (0 : Byte) ∉ s) (hc : c ∉ s)
    (p : List Byte) : strchr c (s ++ c :: p) = some (c :: p) := by
  induction s with
  | nil => simp [strchr]
  | cons b s ih =>
    rw [List.mem_cons, not_or] at h0 hc
    rw [List.cons_append, strchr, if_neg (Ne.symm hc.1), if_neg (Ne.symm h0.1), ih h0.2 hc.2]

/-- What `strchr` returns splits the memory it was given. -/
theorem eq_append_of_strchr {c : Byte} {p q : List Byte} (h : strchr c p = some q) :
    ∃ s q', p = s ++ q ∧ q = c :: q' ∧ c ∉ s ∧ (0 : Byte) ∉ s := by
  induction p with
  | nil => simp [strchr] at h
  | cons b p ih =>
    rw [strchr] at h
    split_ifs at h with hb h0
    · exact ⟨[], p, by simpa using h, by simpa [hb] using h.symm, by simp, by simp⟩
    · obtain ⟨s, q', hp, hq, hcs, h0s⟩ := ih h
      refine ⟨b :: s, q', by rw [List.cons_append, ← hp], hq, ?_, ?_⟩
      · simpa [hcs] using Ne.symm hb
      · simpa [h0s] using Ne.symm h0

/-! ## Arrays of fixed size -/

/-- A `char[n]`. -/
structure CharArray (n : ℕ) where
  bytes : List Byte
  length_eq : bytes.length = n
  deriving DecidableEq

namespace CharArray

variable {n : ℕ}

@[ext] theorem ext {a b : CharArray n} (h : a.bytes = b.bytes) : a = b := by
  cases a; cases b; cases h; rfl

/-- An array filled with NULs. -/
def zeros (n : ℕ) : CharArray n := ⟨List.replicate n 0, List.length_replicate⟩

/-- The array after writing `bs` over its first bytes. -/
def overwrite (a : CharArray n) (bs : List Byte) (h : bs.length ≤ n) : CharArray n :=
  ⟨bs ++ a.bytes.drop bs.length, by
    have := a.length_eq
    rw [List.length_append, List.length_drop]
    omega⟩

/-- `strncpy(a, src, sizeof a)`: the string is cut at `n` bytes and padded with NULs
up to `n`.  A string of `n` bytes or more leaves no terminator. -/
def strncpy (n : ℕ) (src : List Byte) : CharArray n :=
  ⟨(cstr src).take n ++ List.replicate (n - (cstr src).length) 0, by
    rw [List.length_append, List.length_take, List.length_replicate]
    omega⟩

/-- The array holds a NUL, so that a scan from its start ends inside it. -/
def Terminated (a : CharArray n) : Prop := (0 : Byte) ∈ a.bytes

instance (a : CharArray n) : Decidable a.Terminated :=
  inferInstanceAs (Decidable ((0 : Byte) ∈ a.bytes))

/-- **A copied string is terminated exactly when it is shorter than the array.** -/
theorem terminated_strncpy_iff {src : List Byte} :
    (strncpy n src).Terminated ↔ (cstr src).length < n := by
  have h0 : (0 : Byte) ∉ (cstr src).take n := fun h =>
    zero_notMem_cstr src (List.mem_of_mem_take h)
  rw [Terminated, strncpy, List.mem_append, List.mem_replicate]
  constructor
  · rintro (h | ⟨h, -⟩)
    · exact absurd h h0
    · omega
  · intro h
    exact Or.inr ⟨by omega, rfl⟩

/-- A string shorter than the array is copied whole, with its terminator. -/
theorem strncpy_bytes_of_lt {src : List Byte} (h : (cstr src).length < n) :
    ∃ q, (strncpy n src).bytes = cstr src ++ 0 :: q := by
  refine ⟨List.replicate (n - (cstr src).length - 1) 0, ?_⟩
  have hn : n - (cstr src).length = n - (cstr src).length - 1 + 1 := by omega
  show (cstr src).take n ++ List.replicate (n - (cstr src).length) 0 = _
  rw [List.take_of_length_le h.le, hn, List.replicate_succ, Nat.add_sub_cancel]

theorem cstr_strncpy_of_lt {src : List Byte} (h : (cstr src).length < n) :
    cstr (strncpy n src).bytes = cstr src := by
  obtain ⟨q, hq⟩ := strncpy_bytes_of_lt h
  rw [hq, cstr_append_zero (zero_notMem_cstr src)]

/-- A terminated array reads the same whatever follows it in memory. -/
theorem Terminated.cstr_append {a : CharArray n} (h : a.Terminated) (q : List Byte) :
    cstr (a.bytes ++ q) = cstr a.bytes :=
  cstr_append_of_mem h q

end CharArray

/-! ## Buffers -/

/-- A caller's buffer: what each index holds, and the indices written so far. -/
structure Buffer where
  cells : ℕ → Byte
  writes : List ℕ

namespace Buffer

/-- A buffer nothing has been written to yet. -/
def fresh (cells : ℕ → Byte) : Buffer := ⟨cells, []⟩

/-- `buf[i] = x`. -/
def put (b : Buffer) (i : ℕ) (x : Byte) : Buffer :=
  ⟨fun j => if j = i then x else b.cells j, i :: b.writes⟩

/-- Bytes stored from index `i` on. -/
def store (b : Buffer) (i : ℕ) : List Byte → Buffer
  | [] => b
  | x :: xs => (b.put i x).store (i + 1) xs

/-- The `n` bytes from index `i` on. -/
def slice (b : Buffer) (i n : ℕ) : List Byte := (List.range' i n).map b.cells

/-- Every write so far went to an index below `size`. -/
def Within (b : Buffer) (size : ℕ) : Prop := ∀ i ∈ b.writes, i < size

@[simp] theorem writes_fresh (f : ℕ → Byte) : (fresh f).writes = [] := rfl

@[simp] theorem store_nil (b : Buffer) (i : ℕ) : b.store i [] = b := rfl

theorem within_fresh (f : ℕ → Byte) (size : ℕ) : (fresh f).Within size := by
  simp [Within]

theorem mem_writes_put {b : Buffer} {i j : ℕ} {x : Byte} :
    j ∈ (b.put i x).writes ↔ j = i ∨ j ∈ b.writes := by
  simp [put]

theorem within_put {b : Buffer} {i size : ℕ} {x : Byte} :
    (b.put i x).Within size ↔ i < size ∧ b.Within size := by
  simp [Within, put]

theorem mem_writes_store {b : Buffer} {i j : ℕ} {xs : List Byte} :
    j ∈ (b.store i xs).writes ↔ (i ≤ j ∧ j < i + xs.length) ∨ j ∈ b.writes := by
  induction xs generalizing b i with
  | nil =>
    rw [store_nil, List.length_nil]
    exact ⟨Or.inr, fun h => h.resolve_left (by omega)⟩
  | cons x xs ih =>
    rw [store, ih, mem_writes_put, List.length_cons, ← or_assoc]
    refine or_congr ?_ Iff.rfl
    omega

/-- **Storing stays inside as far as the stored bytes do.** -/
theorem within_store {b : Buffer} {i size : ℕ} {xs : List Byte} (h : b.Within size)
    (hi : i + xs.length ≤ size) : (b.store i xs).Within size := by
  intro j hj
  rcases mem_writes_store.mp hj with hj | hj
  · omega
  · exact h j hj

theorem cells_store_of_lt {b : Buffer} {i j : ℕ} {xs : List Byte} (h : j < i) :
    (b.store i xs).cells j = b.cells j := by
  induction xs generalizing b i with
  | nil => rfl
  | cons x xs ih =>
    rw [store, ih (by omega)]
    simp [put, show j ≠ i by omega]

theorem cells_store_of_ge {b : Buffer} {i j : ℕ} {xs : List Byte} (h : i + xs.length ≤ j) :
    (b.store i xs).cells j = b.cells j := by
  induction xs generalizing b i with
  | nil => rfl
  | cons x xs ih =>
    rw [List.length_cons] at h
    rw [store, ih (by omega)]
    simp [put, show j ≠ i by omega]

theorem cells_store_of_mem {b : Buffer} {i j : ℕ} {xs : List Byte} (h : j < xs.length) :
    (b.store i xs).cells (i + j) = xs.getD j 0 := by
  induction xs generalizing b i j with
  | nil => exact absurd h (Nat.not_lt_zero j)
  | cons x xs ih =>
    cases j with
    | zero =>
      show ((b.put i x).store (i + 1) xs).cells i = x
      rw [cells_store_of_lt (Nat.lt_succ_self i)]
      simp [put]
    | succ j =>
      rw [store, show i + (j + 1) = i + 1 + j by omega, ih (by simpa using h)]
      rfl

theorem store_append (b : Buffer) (i : ℕ) (xs ys : List Byte) :
    b.store i (xs ++ ys) = (b.store i xs).store (i + xs.length) ys := by
  induction xs generalizing b i with
  | nil => rfl
  | cons x xs ih =>
    rw [List.cons_append, store, store, ih, List.length_cons]
    congr 1
    omega

theorem store_append_singleton (b : Buffer) (i : ℕ) (xs : List Byte) (x : Byte) :
    b.store i (xs ++ [x]) = (b.store i xs).put (i + xs.length) x := by
  rw [store_append, store, store_nil]

theorem slice_succ (b : Buffer) (i n : ℕ) :
    b.slice i (n + 1) = b.cells i :: b.slice (i + 1) n := by
  simp [slice, List.range'_succ]

theorem slice_concat (b : Buffer) (i n : ℕ) :
    b.slice i (n + 1) = b.slice i n ++ [b.cells (i + n)] := by
  simp [slice, List.range'_concat]

@[simp] theorem length_slice (b : Buffer) (i n : ℕ) : (b.slice i n).length = n := by
  simp [slice]

theorem take_slice (b : Buffer) (i : ℕ) {m n : ℕ} (h : m ≤ n) :
    (b.slice i n).take m = b.slice i m := by
  rw [slice, ← List.map_take, List.take_range'_of_length_ge h, slice]

/-- What was stored can be read back. -/
theorem slice_store (b : Buffer) (i : ℕ) (xs : List Byte) :
    (b.store i xs).slice i xs.length = xs := by
  induction xs generalizing b i with
  | nil => rfl
  | cons x xs ih =>
    rw [List.length_cons, slice_succ, store, ih, cells_store_of_lt (by omega)]
    simp [put]

/-- A part of what was stored can be read back. -/
theorem slice_store_drop (b : Buffer) {xs : List Byte} {i n : ℕ} (h : i + n ≤ xs.length) :
    (b.store 0 xs).slice i n = (xs.drop i).take n := by
  conv_rhs => rw [← slice_store b 0 xs]
  rw [slice, slice, ← List.map_drop, ← List.map_take]
  congr 1
  rw [List.drop_range', List.take_range'_of_length_ge (by omega), Nat.zero_add, Nat.mul_one]

/-- What was stored, with one more byte behind it. -/
theorem slice_store_put (b : Buffer) (i : ℕ) (xs : List Byte) (x : Byte) :
    ((b.store i xs).put (i + xs.length) x).slice i (xs.length + 1) = xs ++ [x] := by
  have h := slice_store b i (xs ++ [x])
  rwa [store_append_singleton, List.length_append, List.length_singleton] at h

/-- A store elsewhere does not change a slice. -/
theorem slice_congr {b b' : Buffer} {i n : ℕ}
    (h : ∀ j, i ≤ j → j < i + n → b.cells j = b'.cells j) : b.slice i n = b'.slice i n := by
  refine List.map_congr_left fun j hj => ?_
  rw [List.mem_range'_1] at hj
  exact h j hj.1 hj.2

/-! ## What memory starts with -/

/-- The memory starts with the bytes `hs`. -/
def StartsWith (b : Buffer) (hs : List Byte) : Prop := b.slice 0 hs.length = hs

instance (b : Buffer) (hs : List Byte) : Decidable (b.StartsWith hs) :=
  inferInstanceAs (Decidable (_ = _))

theorem startsWith_two (b : Buffer) : b.StartsWith [b.cells 0, b.cells 1] := rfl

theorem startsWith_store (b : Buffer) (hs : List Byte) : (b.store 0 hs).StartsWith hs :=
  slice_store b 0 hs

/-- Behind what was stored there are zeros, which no text holds. -/
theorem startsWith_store_iff {f : ℕ → Byte} {hs xs : List Byte} (h0 : (0 : Byte) ∉ hs)
    (hf : ∀ i < hs.length, f i = 0) : ((fresh f).store 0 xs).StartsWith hs ↔ hs <+: xs := by
  rcases Nat.lt_or_ge xs.length hs.length with hlt | hge
  · refine iff_of_false (fun h => h0 ?_) fun h => absurd h.length_le (by omega)
    have hcell : ((fresh f).store 0 xs).cells xs.length = 0 := by
      rw [cells_store_of_ge (by omega)]
      exact hf _ hlt
    rw [← h, slice, List.mem_map]
    exact ⟨xs.length, List.mem_range'_1.mpr (by omega), hcell⟩
  · rw [StartsWith, slice_store_drop _ (by omega), List.drop_zero, List.prefix_iff_eq_take]
    exact eq_comm

/-- What was stored is terminated, and a text is looked for: whether it is there does not
depend on what lies behind. -/
theorem startsWith_store_cstr_iff {b : Buffer} {hs xs : List Byte} (h0 : (0 : Byte) ∉ hs)
    (hx : (0 : Byte) ∈ xs) : (b.store 0 xs).StartsWith hs ↔ hs <+: cstr xs := by
  have hprefix : hs <+: xs ↔ hs <+: cstr xs := by
    obtain ⟨q, hq⟩ := exists_eq_cstr_append hx
    refine ⟨fun h => ?_, fun h => h.trans ⟨0 :: q, hq.symm⟩⟩
    rcases List.prefix_or_prefix_of_prefix h ⟨0 :: q, hq.symm⟩ with hle | ⟨r, hr⟩
    · exact hle
    · -- a longer text would hold the terminator
      cases r with
      | nil => exact ⟨[], by rw [List.append_nil, ← hr, List.append_nil]⟩
      | cons y r =>
        obtain ⟨t, ht⟩ := h
        rw [← hr, List.append_assoc, List.cons_append] at ht
        have hy : y = 0 := (List.cons.inj (List.append_cancel_left (ht.trans hq))).1
        exact absurd (hr ▸ List.mem_append_right _ (hy ▸ List.mem_cons_self)) h0
  rw [← hprefix]
  rcases Nat.lt_or_ge xs.length hs.length with hlt | hge
  · refine iff_of_false (fun h => h0 ?_) fun h => absurd h.length_le (by omega)
    have htake : (b.store 0 xs).slice 0 xs.length = hs.take xs.length := by
      rw [← take_slice _ _ hlt.le, h]
    rw [slice_store] at htake
    exact List.mem_of_mem_take (htake ▸ hx)
  · rw [StartsWith, slice_store_drop _ (by omega), List.drop_zero, List.prefix_iff_eq_take]
    exact eq_comm

theorem startsWith_iff {b : Buffer} {hs : List Byte} :
    b.StartsWith hs ↔ ∀ i < hs.length, b.cells i = hs.getD i 0 := by
  constructor
  · intro h i hi
    have hget : (b.slice 0 hs.length).getD i 0 = b.cells i := by
      rw [List.getD_eq_getElem _ _ (by rw [length_slice]; exact hi)]
      simp [slice]
    rw [← hget, h]
  · intro h
    refine List.ext_getElem (by simp) fun i hi hi' => ?_
    rw [← List.getD_eq_getElem hs 0 hi', ← h i hi']
    simp [slice]

theorem StartsWith.cells {b : Buffer} {hs : List Byte} (h : b.StartsWith hs) {i : ℕ}
    (hi : i < hs.length) : b.cells i = hs.getD i 0 :=
  startsWith_iff.mp h i hi

/-- Memory that agrees as far as the bytes go starts with them as well. -/
theorem StartsWith.congr {b b' : Buffer} {hs : List Byte} (h : b.StartsWith hs)
    (hb : ∀ i < hs.length, b'.cells i = b.cells i) : b'.StartsWith hs :=
  startsWith_iff.mpr fun i hi => by rw [hb i hi, h.cells hi]

theorem StartsWith.of_append {b : Buffer} {hs xs : List Byte} (h : b.StartsWith (hs ++ xs)) :
    b.StartsWith hs := by
  refine startsWith_iff.mpr fun i hi => ?_
  rw [h.cells (by rw [List.length_append]; omega), List.getD_append _ _ _ _ hi]

/-- Storing behind the bytes makes them longer. -/
theorem StartsWith.store {b : Buffer} {hs : List Byte} (h : b.StartsWith hs)
    (xs : List Byte) : (b.store hs.length xs).StartsWith (hs ++ xs) := by
  refine startsWith_iff.mpr fun i hi => ?_
  rcases Nat.lt_or_ge i hs.length with hlt | hge
  · rw [cells_store_of_lt hlt, h.cells hlt, List.getD_append _ _ _ _ hlt]
  · obtain ⟨j, rfl⟩ := Nat.exists_eq_add_of_le hge
    rw [List.length_append] at hi
    rw [cells_store_of_mem (by omega), List.getD_append_right _ _ _ _ hge,
      Nat.add_sub_cancel_left]

/-- Storing further behind changes nothing. -/
theorem StartsWith.store_of_le {b : Buffer} {hs : List Byte} (h : b.StartsWith hs) {i : ℕ}
    (hi : hs.length ≤ i) (xs : List Byte) : (b.store i xs).StartsWith hs :=
  h.congr fun _ hj => cells_store_of_lt (by omega)

/-- Writing the second byte. -/
theorem StartsWith.put_one {b : Buffer} {x y : Byte} {hs : List Byte}
    (h : b.StartsWith (x :: y :: hs)) (z : Byte) : (b.put 1 z).StartsWith (x :: z :: hs) := by
  refine startsWith_iff.mpr fun i hi => ?_
  rcases Nat.lt_trichotomy i 1 with hlt | rfl | hgt
  · obtain rfl : i = 0 := by omega
    exact h.cells (i := 0) (by simp)
  · rfl
  · obtain ⟨j, rfl⟩ := Nat.exists_eq_add_of_le hgt
    have hcell := h.cells (i := 1 + 1 + j) hi
    show (if 1 + 1 + j = 1 then z else b.cells (1 + 1 + j)) = _
    rw [if_neg (by omega), hcell, show 1 + 1 + j = j + 2 by omega]
    rfl

end Buffer

end CMemory
