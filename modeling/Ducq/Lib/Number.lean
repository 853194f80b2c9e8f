import Ducq.Lib.Memory
import Mathlib.Data.Nat.Digits.Lemmas

/-!
# Decimal text and C integers

`value` reads a string of decimal digits and `decimal` writes one, as `%ld` does for
a number that is not negative; `value_decimal` says that reading undoes writing, for
every number.

The conversions are those of a 64-bit host: `strtol` saturates at the bounds of
`long`, an `int` is what remains of a number modulo `2 ^ 32` in two's complement
(`wrap32`), and a signed value compared with a `size_t` is read modulo `2 ^ 64`
(`toSizeT`).

`littleEndian` and `toLittleEndian` are what a load and a store of a whole word do to
the bytes it is made of.
-/

namespace CNumber

open CMemory

/-! ## Decimal text -/

/-- `isdigit`. -/
def isDigit (b : Byte) : Bool := 48 ≤ b.toNat && b.toNat ≤ 57

/-- `isspace`. -/
def isSpace (b : Byte) : Bool := b.toNat == 32 || (9 ≤ b.toNat && b.toNat ≤ 13)

/-- The number a string of digits spells. -/
def value (ds : List Byte) : ℕ := ds.foldl (fun v d => 10 * v + (d.toNat - 48)) 0

/-- The decimal digits of a number, most significant first; zero is written `0`. -/
def decimal (n : ℕ) : List Byte :=
  if n = 0 then [48] else (Nat.digits 10 n).reverse.map fun d => UInt8.ofNat (48 + d)

theorem isDigit_iff {b : Byte} : isDigit b = true ↔ 48 ≤ b.toNat ∧ b.toNat ≤ 57 := by
  simp [isDigit]

/-- A digit is not the end of a string. -/
theorem ne_zero_of_isDigit {b : Byte} (h : isDigit b = true) : b ≠ 0 := by
  rintro rfl
  exact absurd h (by decide)

theorem zero_notMem_of_isDigit {ds : List Byte} (h : ∀ d ∈ ds, isDigit d = true) :
    (0 : Byte) ∉ ds := fun h0 => ne_zero_of_isDigit (h 0 h0) rfl

@[simp] theorem value_nil : value [] = 0 := rfl

theorem value_append_singleton (ds : List Byte) (d : Byte) :
    value (ds ++ [d]) = 10 * value ds + (d.toNat - 48) := by
  simp [value, List.foldl_append]

/-- Reading digits is `Nat.ofDigits`, which starts from the other end. -/
theorem value_eq_ofDigits (ds : List Byte) :
    value ds = Nat.ofDigits 10 (ds.reverse.map fun d => d.toNat - 48) := by
  induction ds using List.reverseRecOn with
  | nil => rfl
  | append_singleton ds d ih =>
    rw [value_append_singleton, ih, List.reverse_append, List.reverse_singleton,
      List.singleton_append, List.map_cons, Nat.ofDigits_cons, Nat.add_comm]

theorem toNat_digit {d : ℕ} (h : d < 10) : (UInt8.ofNat (48 + d)).toNat = 48 + d := by
  rw [UInt8.toNat_ofNat']
  omega

theorem isDigit_of_mem_decimal {n : ℕ} {d : Byte} (h : d ∈ decimal n) : isDigit d = true := by
  rw [decimal] at h
  split_ifs at h with h0
  · rw [List.mem_singleton.mp h]
    rfl
  · obtain ⟨k, hk, rfl⟩ := List.mem_map.mp h
    have hlt : k < 10 := Nat.digits_lt_base (by omega) (List.mem_reverse.mp hk)
    rw [isDigit_iff, toNat_digit hlt]
    omega

/-- **Reading undoes writing.** -/
theorem value_decimal (n : ℕ) : value (decimal n) = n := by
  rw [decimal]
  split_ifs with h0
  · rw [h0]
    rfl
  · rw [value_eq_ofDigits, ← List.map_reverse, List.reverse_reverse, List.map_map]
    have hid : (Nat.digits 10 n).map ((fun d : Byte => d.toNat - 48) ∘
        fun d => UInt8.ofNat (48 + d)) = Nat.digits 10 n := by
      conv_rhs => rw [← List.map_id (Nat.digits 10 n)]
      refine List.map_congr_left fun d hd => ?_
      have hlt : d < 10 := Nat.digits_lt_base (by omega) hd
      rw [Function.comp_apply, toNat_digit hlt, id]
      omega
    rw [hid, Nat.ofDigits_digits]

/-- A number below `10 ^ k` is written with at most `k` digits. -/
theorem length_decimal_le {n k : ℕ} (hk : 0 < k) (h : n < 10 ^ k) :
    (decimal n).length ≤ k := by
  rw [decimal]
  split_ifs with h0
  · exact hk
  · rw [List.length_map, List.length_reverse]
    exact (Nat.digits_length_le_iff (by omega) n).mpr h

/-! ## Conversions -/

/-- The number a `long` keeps of one: the nearest bound when it does not fit. -/
def saturate (z : ℤ) : ℤ := max (-2 ^ 63) (min z (2 ^ 63 - 1))

/-- The number a 32-bit `int` keeps of one. -/
def wrap32 (z : ℤ) : ℤ := if z % 2 ^ 32 < 2 ^ 31 then z % 2 ^ 32 else z % 2 ^ 32 - 2 ^ 32

/-- The number a 64-bit `long` keeps of one. -/
def wrap64 (z : ℤ) : ℤ := if z % 2 ^ 64 < 2 ^ 63 then z % 2 ^ 64 else z % 2 ^ 64 - 2 ^ 64

/-- A signed number read as a `size_t`. -/
def toSizeT (z : ℤ) : ℕ := (z % 2 ^ 64).toNat

/-- `strtol(s, NULL, 10)`: white space, a sign, digits. -/
def strtol (s : List Byte) : ℤ :=
  let t := (cstr s).dropWhile isSpace
  if t.head? = some 45 then saturate (-value ((t.drop 1).takeWhile isDigit))
  else if t.head? = some 43 then saturate (value ((t.drop 1).takeWhile isDigit))
  else saturate (value (t.takeWhile isDigit))

/-- `atoi`: `(int)strtol(s, NULL, 10)`. -/
def atoi (s : List Byte) : ℤ := wrap32 (strtol s)

/-- The number a text spells behind its white space and its sign, however large. -/
def spelled (s : List Byte) : ℤ :=
  let t := (cstr s).dropWhile isSpace
  if t.head? = some 45 then -value ((t.drop 1).takeWhile isDigit)
  else if t.head? = some 43 then value ((t.drop 1).takeWhile isDigit)
  else value (t.takeWhile isDigit)

/-- `strtol` reads the number that is spelled, as far as a `long` holds it. -/
theorem strtol_eq_saturate (s : List Byte) : strtol s = saturate (spelled s) := by
  rw [strtol, spelled]
  split_ifs <;> rfl

/-- A `long` is zero for zero only. -/
theorem saturate_eq_zero_iff {z : ℤ} : saturate z = 0 ↔ z = 0 := by
  unfold saturate
  omega

/-- The low half of a `long`, for any number it stands for. -/
theorem saturate_emod_eq_zero_iff {z : ℤ} :
    saturate z % 2 ^ 32 = 0 ↔ z < -2 ^ 63 ∨ z < 2 ^ 63 ∧ z % 2 ^ 32 = 0 := by
  unfold saturate
  omega

theorem saturate_emod_eq_iff {z r : ℤ} (h0 : 0 < r) (hr : r < 2 ^ 32 - 1) :
    saturate z % 2 ^ 32 = r ↔ -2 ^ 63 ≤ z ∧ z < 2 ^ 63 ∧ z % 2 ^ 32 = r := by
  unfold saturate
  omega

theorem takeWhile_isDigit {ds : List Byte} (h : ∀ d ∈ ds, isDigit d = true) :
    ds.takeWhile isDigit = ds := List.takeWhile_eq_self_iff.mpr h

/-- **A string of digits is read as the number it spells**, saturated. -/
theorem strtol_of_digits {ds : List Byte} (h : ∀ d ∈ ds, isDigit d = true) (p : List Byte) :
    strtol (ds ++ 0 :: p) = saturate (value ds) := by
  have hds : cstr (ds ++ 0 :: p) = ds := cstr_append_zero (zero_notMem_of_isDigit h) p
  have hdrop : ds.dropWhile isSpace = ds := by
    cases ds with
    | nil => rfl
    | cons d ds =>
      have hd := isDigit_iff.mp (h d List.mem_cons_self)
      rw [List.dropWhile_cons_of_neg]
      simp only [isSpace, Bool.or_eq_true, beq_iff_eq, Bool.and_eq_true, decide_eq_true_eq]
      omega
  have hhead : ∀ c : Byte, isDigit c = false → ds.head? ≠ some c := by
    intro c hc hh
    rw [h c (List.mem_of_mem_head? hh)] at hc
    exact absurd hc (by decide)
  simp only [strtol, hds, hdrop, hhead 45 (by decide), hhead 43 (by decide), if_false,
    takeWhile_isDigit h]

theorem wrap32_of_lt {n : ℕ} (h : n < 2 ^ 31) : wrap32 n = n := by
  unfold wrap32
  split_ifs <;> omega

theorem toSizeT_of_lt {n : ℕ} (h : n < 2 ^ 64) : toSizeT n = n := by
  unfold toSizeT
  omega

theorem atoi_of_digits {ds : List Byte} (h : ∀ d ∈ ds, isDigit d = true) (p : List Byte) :
    atoi (ds ++ 0 :: p) = wrap32 (saturate (value ds)) := by
  rw [atoi, strtol_of_digits h]

/-- Below `2 ^ 31` the number is the one that was spelled. -/
theorem wrap32_saturate_of_lt {n : ℕ} (h : n < 2 ^ 31) : wrap32 (saturate n) = n := by
  have hs : saturate n = n := by
    unfold saturate
    omega
  rw [hs, wrap32_of_lt h]

/-! ## Words in memory -/

/-- The word whose bytes stand in memory as listed, the lowest first. -/
def littleEndian (bs : List Byte) : ℕ := Nat.ofDigits 256 (bs.map UInt8.toNat)

/-- The bytes of a word of `w` bytes. -/
def toLittleEndian : ℕ → ℕ → List Byte
  | 0, _ => []
  | w + 1, n => UInt8.ofNat (n % 256) :: toLittleEndian w (n / 256)

theorem length_toLittleEndian (w n : ℕ) : (toLittleEndian w n).length = w := by
  induction w generalizing n with
  | zero => rfl
  | succ w ih => rw [toLittleEndian, List.length_cons, ih]

theorem littleEndian_cons (b : Byte) (bs : List Byte) :
    littleEndian (b :: bs) = b.toNat + 256 * littleEndian bs := by
  rw [littleEndian, List.map_cons, Nat.ofDigits_cons, littleEndian]

/-- **A loaded word is stored as it stood.** -/
theorem toLittleEndian_littleEndian (bs : List Byte) :
    toLittleEndian bs.length (littleEndian bs) = bs := by
  induction bs with
  | nil => rfl
  | cons b bs ih =>
    have hb : b.toNat < 256 := b.toNat_lt
    have hmod : (b.toNat + 256 * littleEndian bs) % 256 = b.toNat := by omega
    have hdiv : (b.toNat + 256 * littleEndian bs) / 256 = littleEndian bs := by omega
    rw [List.length_cons, littleEndian_cons, toLittleEndian, hmod, hdiv, ih, UInt8.ofNat_toNat]

/-- **A stored word is loaded again**, as much of it as there is room for. -/
theorem littleEndian_toLittleEndian (w n : ℕ) :
    littleEndian (toLittleEndian w n) = n % 256 ^ w := by
  induction w generalizing n with
  | zero =>
    rw [pow_zero, Nat.mod_one]
    rfl
  | succ w ih =>
    have hb : (UInt8.ofNat (n % 256)).toNat = n % 256 := by
      rw [UInt8.toNat_ofNat']
      omega
    rw [toLittleEndian, littleEndian_cons, ih, hb, pow_succ', Nat.mod_mul]

/-- A word is its low part and then its high part. -/
theorem toLittleEndian_add (w v n : ℕ) :
    toLittleEndian (w + v) n = toLittleEndian w n ++ toLittleEndian v (n / 256 ^ w) := by
  induction w generalizing n with
  | zero => rw [Nat.zero_add, pow_zero, Nat.div_one, toLittleEndian, List.nil_append]
  | succ w ih =>
    rw [Nat.add_right_comm, toLittleEndian, toLittleEndian, ih, List.cons_append,
      Nat.div_div_eq_div_mul, ← pow_succ']

/-- What does not fit in a word is not stored. -/
theorem toLittleEndian_mod (w n : ℕ) : toLittleEndian w (n % 256 ^ w) = toLittleEndian w n := by
  induction w generalizing n with
  | zero => rfl
  | succ w ih =>
    have hlow : n % 256 ^ (w + 1) % 256 = n % 256 :=
      Nat.mod_mod_of_dvd _ (dvd_pow_self 256 (Nat.succ_ne_zero w))
    have hhigh : n % 256 ^ (w + 1) / 256 = n / 256 % 256 ^ w := by
      rw [pow_succ', Nat.mod_mul_right_div_self]
    rw [toLittleEndian, toLittleEndian, hlow, hhigh, ih]

end CNumber
