import Mathlib.Data.List.Basic
import Mathlib.Data.Nat.Notation
import Mathlib.Tactic.Common

/-!
# Hashing a text block by block

A `Scheme` is a block size and a compression of one block into a chaining value.  Its
meaning is on the whole text: the text is padded to whole blocks, and these are compressed
one after the other (`Scheme.hash`).

An implementation sees the text a byte at a time.  It keeps the chaining value and the
bytes of the block that is not full yet (`Scheme.feed`); what it has then come to depends
on the text alone and not on how it was handed over (`Scheme.absorb_eq`).  The padding is a
mark, zeros, and the length.  It ends the block that has been begun, or that one and one
more: `hash_of_fits` and `hash_of_not_fits` are the two ways to finish.
-/

namespace BlockHash

variable {α σ : Type*}

/-! ## Blocks of a text -/

/-- The whole blocks of a text. -/
def blocks (n : ℕ) (xs : List α) : List (List α) :=
  (List.range (xs.length / n)).map fun i => (xs.drop (i * n)).take n

/-- What is left of a text behind its whole blocks. -/
def remainder (n : ℕ) (xs : List α) : List α := xs.drop (xs.length / n * n)

theorem blocks_of_lt {n : ℕ} {xs : List α} (h : xs.length < n) : blocks n xs = [] := by
  rw [blocks, Nat.div_eq_of_lt h]
  rfl

theorem remainder_of_lt {n : ℕ} {xs : List α} (h : xs.length < n) : remainder n xs = xs := by
  rw [remainder, Nat.div_eq_of_lt h, Nat.zero_mul, List.drop_zero]

theorem length_remainder (n : ℕ) (xs : List α) : (remainder n xs).length = xs.length % n := by
  have hdiv := Nat.div_add_mod' xs.length n
  rw [remainder, List.length_drop]
  omega

/-- A block in front of a text is its first block. -/
theorem blocks_append {n : ℕ} (hn : 0 < n) {b : List α} (hb : b.length = n) (xs : List α) :
    blocks n (b ++ xs) = b :: blocks n xs := by
  have hcount : (b ++ xs).length / n = xs.length / n + 1 := by
    rw [List.length_append, hb, Nat.add_comm, Nat.add_div_right _ hn]
  rw [blocks, hcount, List.range_succ_eq_map, List.map_cons, List.map_map, blocks]
  congr 1
  · rw [Nat.zero_mul, List.drop_zero, ← hb, List.take_left]
  · refine List.map_congr_left fun i _ => ?_
    have hshift : (i + 1) * n = b.length + i * n := by
      rw [hb, Nat.succ_mul, Nat.add_comm]
    show ((b ++ xs).drop ((i + 1) * n)).take n = (xs.drop (i * n)).take n
    rw [hshift, ← List.drop_drop, List.drop_left]

theorem remainder_append {n : ℕ} (hn : 0 < n) {b : List α} (hb : b.length = n) (xs : List α) :
    remainder n (b ++ xs) = remainder n xs := by
  have hcount : (b ++ xs).length / n * n = b.length + xs.length / n * n := by
    rw [List.length_append, hb, Nat.add_comm, Nat.add_div_right _ hn, Nat.succ_mul, Nat.add_comm]
  rw [remainder, hcount, ← List.drop_drop, List.drop_left, remainder]

/-! ## Schemes -/

/-- A block size, and what one block does to the chaining value. -/
structure Scheme (α σ : Type*) where
  size : ℕ
  size_pos : 0 < size
  compress : σ → List α → σ

namespace Scheme

variable (H : Scheme α σ)

/-- Whole blocks, one after the other. -/
def compressAll (s : σ) (xs : List α) : σ := (blocks H.size xs).foldl H.compress s

/-- One more element: the block that has been begun is compressed when it is full. -/
def feed : σ × List α → α → σ × List α
  | (s, rest), x =>
    if rest.length + 1 = H.size then (H.compress s (rest ++ [x]), []) else (s, rest ++ [x])

/-- A text, one element after the other. -/
def absorb (p : σ × List α) (xs : List α) : σ × List α := xs.foldl H.feed p

theorem absorb_append (p : σ × List α) (xs ys : List α) :
    H.absorb p (xs ++ ys) = H.absorb (H.absorb p xs) ys := List.foldl_append

theorem compressAll_append {b : List α} (hb : b.length = H.size) (s : σ) (xs : List α) :
    H.compressAll s (b ++ xs) = H.compressAll (H.compress s b) xs := by
  rw [compressAll, blocks_append H.size_pos hb, List.foldl_cons, compressAll]

theorem compressAll_of_lt {xs : List α} (h : xs.length < H.size) (s : σ) :
    H.compressAll s xs = s := by
  rw [compressAll, blocks_of_lt h, List.foldl_nil]

theorem compressAll_block {b : List α} (hb : b.length = H.size) (s : σ) :
    H.compressAll s b = H.compress s b := by
  have happend := H.compressAll_append hb s []
  have hnone := @compressAll_of_lt α σ H [] H.size_pos (H.compress s b)
  rwa [List.append_nil, hnone] at happend

/-- **What has been fed decides what has been come to.** -/
theorem absorb_eq {rest : List α} (h : rest.length < H.size) (s : σ) (xs : List α) :
    H.absorb (s, rest) xs =
      (H.compressAll s (rest ++ xs), remainder H.size (rest ++ xs)) := by
  induction xs generalizing s rest with
  | nil =>
    rw [List.append_nil, H.compressAll_of_lt h, remainder_of_lt h]
    rfl
  | cons x xs ih =>
    have hsplit : rest ++ x :: xs = (rest ++ [x]) ++ xs := by
      rw [List.append_assoc, List.singleton_append]
    have hlen : (rest ++ [x]).length = rest.length + 1 := by
      rw [List.length_append, List.length_singleton]
    rw [absorb, List.foldl_cons, feed, hsplit]
    by_cases hfull : rest.length + 1 = H.size
    · have hnext := @ih [] H.size_pos
      rw [if_pos hfull, ← absorb, hnext, List.nil_append,
        H.compressAll_append (hlen.trans hfull), remainder_append H.size_pos (hlen.trans hfull)]
    · rw [if_neg hfull, ← absorb, ih (by omega)]

/-- The same from the start of a text. -/
theorem absorb_nil (s : σ) (xs : List α) :
    H.absorb (s, []) xs = (H.compressAll s xs, remainder H.size xs) :=
  @absorb_eq α σ H [] H.size_pos s xs

theorem length_of_absorb {s s' : σ} {rest m : List α} (h : H.absorb (s, []) m = (s', rest)) :
    rest.length = m.length % H.size := by
  rw [H.absorb_nil] at h
  rw [← (Prod.mk.inj h).2, length_remainder]

/-! ## Padding -/

/-- How many zeros stand between the mark and the length, which takes `l` elements. -/
def padZeros (l len : ℕ) : ℕ := (H.size - (len + 1 + l) % H.size) % H.size

variable (mark zero : α)

/-- The padded text: a mark, zeros, and the length. -/
def pad (lengthField m : List α) : List α :=
  m ++ mark :: (List.replicate (H.padZeros lengthField.length m.length) zero ++ lengthField)

/-- The hash of a text. -/
def hash (s : σ) (lengthField m : List α) : σ := H.compressAll s (H.pad mark zero lengthField m)

/-- The number of zeros, in terms of the block that has been begun. -/
theorem padZeros_eq {l : ℕ} (hl : l < H.size) (len : ℕ) :
    H.padZeros l len =
      if len % H.size + 1 + l ≤ H.size then H.size - (len % H.size + 1 + l)
      else 2 * H.size - (len % H.size + 1 + l) := by
  have hr := Nat.mod_lt len H.size_pos
  have hmod : (len + 1 + l) % H.size = (len % H.size + 1 + l) % H.size := by
    rw [Nat.add_assoc, Nat.add_assoc, Nat.mod_add_mod]
  rw [padZeros, hmod]
  split_ifs with hfits
  · rcases Nat.eq_or_lt_of_le hfits with heq | hlt
    · rw [heq, Nat.mod_self, Nat.sub_zero, Nat.mod_self, Nat.sub_self]
    · rw [Nat.mod_eq_of_lt hlt, Nat.mod_eq_of_lt (by omega)]
  · have hover : (len % H.size + 1 + l) % H.size = len % H.size + 1 + l - H.size := by
      rw [Nat.mod_eq_sub_mod (by omega), Nat.mod_eq_of_lt (by omega)]
    rw [hover, Nat.mod_eq_of_lt (by omega)]
    omega

variable {mark zero}

/-- The hash from the state that has been come to. -/
theorem hash_eq_compressAll {s s' : σ} {rest m : List α}
    (h : H.absorb (s, []) m = (s', rest)) (lengthField : List α) :
    H.hash mark zero s lengthField m = H.compressAll s' (rest ++ mark ::
      (List.replicate (H.padZeros lengthField.length m.length) zero ++ lengthField)) := by
  have hshort : rest.length < H.size := H.length_of_absorb h ▸ Nat.mod_lt _ H.size_pos
  have habsorb : ∀ ys, H.compressAll s (m ++ ys) = H.compressAll s' (rest ++ ys) := fun ys => by
    have happend := H.absorb_append (s, []) m ys
    rw [h, H.absorb_nil, H.absorb_eq hshort] at happend
    exact (Prod.mk.inj happend).1
  exact habsorb _

/-- **The padding ends the block that has been begun**, if the mark and the length fit
behind it. -/
theorem hash_of_fits {s s' : σ} {rest m lengthField : List α}
    (h : H.absorb (s, []) m = (s', rest)) (hl : lengthField.length < H.size)
    (hfits : rest.length + 1 + lengthField.length ≤ H.size) :
    H.hash mark zero s lengthField m = H.compress s' (rest ++ mark ::
      (List.replicate (H.size - (rest.length + 1 + lengthField.length)) zero ++ lengthField)) := by
  have hrest := H.length_of_absorb h
  rw [H.hash_eq_compressAll h, H.padZeros_eq hl, ← hrest, if_pos hfits, H.compressAll_block]
  rw [List.length_append, List.length_cons, List.length_append, List.length_replicate]
  omega

/-- **Otherwise it ends one more.** -/
theorem hash_of_not_fits {s s' : σ} {rest m lengthField : List α}
    (h : H.absorb (s, []) m = (s', rest)) (hl : lengthField.length < H.size)
    (hfits : ¬ rest.length + 1 + lengthField.length ≤ H.size) :
    H.hash mark zero s lengthField m = H.compress
      (H.compress s' (rest ++ mark :: List.replicate (H.size - (rest.length + 1)) zero))
      (List.replicate (H.size - lengthField.length) zero ++ lengthField) := by
  have hrest := H.length_of_absorb h
  have hshort : rest.length < H.size := hrest ▸ Nat.mod_lt _ H.size_pos
  have hzeros : 2 * H.size - (rest.length + 1 + lengthField.length) =
      (H.size - (rest.length + 1)) + (H.size - lengthField.length) := by omega
  have hcut : rest ++ mark :: (List.replicate (2 * H.size -
        (rest.length + 1 + lengthField.length)) zero ++ lengthField) =
      (rest ++ mark :: List.replicate (H.size - (rest.length + 1)) zero) ++
        (List.replicate (H.size - lengthField.length) zero ++ lengthField) := by
    rw [hzeros, ← List.replicate_append_replicate, List.append_assoc, List.append_assoc,
      List.cons_append]
  rw [H.hash_eq_compressAll h, H.padZeros_eq hl, ← hrest, if_neg hfits, hcut,
    H.compressAll_append, H.compressAll_block]
  · rw [List.length_append, List.length_replicate]
    omega
  · rw [List.length_append, List.length_cons, List.length_replicate]
    omega

end Scheme

end BlockHash
