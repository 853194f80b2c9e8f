import Mathlib.Data.List.GetD
import Mathlib.Data.List.Nodup
import Mathlib.Data.Nat.Notation
import Mathlib.Tactic.Common

/-!
# Base 64

Three bytes are a number of 24 bits, and such a number is four digits to the base 64.
What is left over at the end, one byte or two, is filled up with zero bits; of its digits
only those are written that hold a bit of it, and the others are padding.

An `Alphabet` is 64 characters and one more for the padding, of any type.  With any
alphabet a decoder reads back what was encoded (`decode_encode`).
-/

namespace Base64

/-- The characters of the 64 digits, and the one that pads. -/
structure Alphabet (α : Type) where
  chars : List α
  pad : α
  length_chars : chars.length = 64
  nodup : chars.Nodup
  pad_notMem : pad ∉ chars

variable {α : Type} (A : Alphabet α)

namespace Alphabet

/-- The character of a digit. -/
def char (v : ℕ) : α := A.chars.getD v A.pad

theorem char_eq_getElem {v : ℕ} (h : v < 64) :
    A.char v = A.chars.get ⟨v, A.length_chars.symm ▸ h⟩ :=
  List.getD_eq_getElem _ _ _

theorem char_mem {v : ℕ} (h : v < 64) : A.char v ∈ A.chars := by
  rw [A.char_eq_getElem h]
  exact List.getElem_mem _

/-- No digit looks like padding. -/
theorem char_ne_pad {v : ℕ} (h : v < 64) : A.char v ≠ A.pad :=
  fun heq => A.pad_notMem (heq ▸ A.char_mem h)

end Alphabet

/-- Three bytes as one number. -/
def group (a b c : UInt8) : ℕ := a.toNat * 65536 + b.toNat * 256 + c.toNat

/-- The digits of a group, the highest first. -/
def digit (v : ℕ) : ℕ → ℕ
  | 0 => v / 262144
  | 1 => v / 4096 % 64
  | 2 => v / 64 % 64
  | _ => v % 64

theorem digit_lt (a b c : UInt8) (i : ℕ) : digit (group a b c) i < 64 := by
  have ha := a.toNat_lt
  have hb := b.toNat_lt
  have hc := c.toNat_lt
  rw [group]
  rcases i with _ | _ | _ | i <;> simp only [digit] <;> omega

/-- The encoding. -/
def encode : List UInt8 → List α
  | [] => []
  | [a] =>
    let v := group a 0 0
    [A.char (digit v 0), A.char (digit v 1), A.pad, A.pad]
  | [a, b] =>
    let v := group a b 0
    [A.char (digit v 0), A.char (digit v 1), A.char (digit v 2), A.pad]
  | a :: b :: c :: bs =>
    let v := group a b c
    A.char (digit v 0) :: A.char (digit v 1) :: A.char (digit v 2) :: A.char (digit v 3) ::
      encode bs

/-- **Three bytes or less take four characters.** -/
theorem length_encode (bs : List UInt8) : (encode A bs).length = 4 * ((bs.length + 2) / 3) := by
  induction bs using encode.induct with
  | case1 => rfl
  | case2 a => simp [encode]
  | case3 a b => simp [encode]
  | case4 a b c bs ih =>
    rw [encode]
    simp only [List.length_cons, ih]
    omega

variable [DecidableEq α]

/-- The digit of a character. -/
def Alphabet.value (x : α) : Option ℕ := if x ∈ A.chars then some (A.chars.idxOf x) else none

/-- The number four digits stand for. -/
def ungroup (w x y z : ℕ) : ℕ := ((w * 64 + x) * 64 + y) * 64 + z

/-- The bytes of a group, the highest first. -/
def byte (v : ℕ) : ℕ → UInt8
  | 0 => UInt8.ofNat (v / 65536)
  | 1 => UInt8.ofNat (v / 256 % 256)
  | _ => UInt8.ofNat (v % 256)

/-- The decoder: groups of four characters, the last of which may be padded. -/
def decode : List α → Option (List UInt8)
  | [] => some []
  | w :: x :: y :: z :: rest =>
    if z = A.pad then
      if rest ≠ [] then none
      else if y = A.pad then do
        let v := ungroup (← A.value w) (← A.value x) 0 0
        return [byte v 0]
      else do
        let v := ungroup (← A.value w) (← A.value x) (← A.value y) 0
        return [byte v 0, byte v 1]
    else do
      let v := ungroup (← A.value w) (← A.value x) (← A.value y) (← A.value z)
      return byte v 0 :: byte v 1 :: byte v 2 :: (← decode rest)
  | _ => none

/-- A digit is known by its character. -/
theorem Alphabet.value_char {v : ℕ} (h : v < 64) : A.value (A.char v) = some v := by
  rw [Alphabet.value, if_pos (A.char_mem h), A.char_eq_getElem h, List.get_eq_getElem,
    A.nodup.idxOf_getElem]

/-- The digits of a group stand for it. -/
theorem ungroup_digit (a b c : UInt8) :
    ungroup (digit (group a b c) 0) (digit (group a b c) 1) (digit (group a b c) 2)
      (digit (group a b c) 3) = group a b c := by
  simp only [ungroup, digit]
  omega

theorem byte_group (a b c : UInt8) :
    byte (group a b c) 0 = a ∧ byte (group a b c) 1 = b ∧ byte (group a b c) 2 = c := by
  have hb := b.toNat_lt
  have hc := c.toNat_lt
  have h0 : group a b c / 65536 = a.toNat := by
    rw [group]
    omega
  have h1 : group a b c / 256 % 256 = b.toNat := by
    rw [group]
    omega
  have h2 : group a b c % 256 = c.toNat := by
    rw [group]
    omega
  simp only [byte, h0, h1, h2, UInt8.ofNat_toNat, and_self]

/-- The digits of the bits that were filled in are zero. -/
theorem digit_of_zero (a b : UInt8) :
    digit (group a 0 0) 2 = 0 ∧ digit (group a 0 0) 3 = 0 ∧ digit (group a b 0) 3 = 0 := by
  have h0 : (0 : UInt8).toNat = 0 := rfl
  simp only [digit, group, h0]
  omega

/-- **What was encoded is decoded.** -/
theorem decode_encode (bs : List UInt8) : decode A (encode A bs) = some bs := by
  induction bs using encode.induct with
  | case1 => rfl
  | case2 a =>
    have hv : ungroup (digit (group a 0 0) 0) (digit (group a 0 0) 1) 0 0 = group a 0 0 := by
      have h := ungroup_digit a 0 0
      rwa [(digit_of_zero a 0).1, (digit_of_zero a 0).2.1] at h
    rw [encode, decode, if_pos rfl, if_neg (by simp), if_pos rfl,
      A.value_char (digit_lt _ _ _ _), A.value_char (digit_lt _ _ _ _)]
    simp only [Option.bind_eq_bind, Option.bind_some, hv, (byte_group a 0 0).1]
    rfl
  | case3 a b =>
    have hv : ungroup (digit (group a b 0) 0) (digit (group a b 0) 1) (digit (group a b 0) 2) 0 =
        group a b 0 := by
      have h := ungroup_digit a b 0
      rwa [(digit_of_zero a b).2.2] at h
    rw [encode, decode, if_pos rfl, if_neg (by simp), if_neg (A.char_ne_pad (digit_lt _ _ _ _)),
      A.value_char (digit_lt _ _ _ _), A.value_char (digit_lt _ _ _ _),
      A.value_char (digit_lt _ _ _ _)]
    simp only [Option.bind_eq_bind, Option.bind_some, hv, (byte_group a b 0).1,
      (byte_group a b 0).2.1]
    rfl
  | case4 a b c bs ih =>
    obtain ⟨h0, h1, h2⟩ := byte_group a b c
    rw [encode, decode, if_neg (A.char_ne_pad (digit_lt _ _ _ _)),
      A.value_char (digit_lt _ _ _ _), A.value_char (digit_lt _ _ _ _),
      A.value_char (digit_lt _ _ _ _), A.value_char (digit_lt _ _ _ _), ih]
    simp only [Option.bind_eq_bind, Option.bind_some, ungroup_digit, h0, h1, h2]
    rfl

end Base64
