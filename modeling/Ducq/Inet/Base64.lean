import Ducq.Lib.Base64
import Ducq.Lib.Memory

/-!
# `base64.c`

Three bytes become four characters of six bits each; what is left over at the end, one
byte or two, is padded with `=`.  The function asks for its room beforehand, by a formula
of its own, and `length_base64Text` says that it is the room it takes.

`base64Encode` is what a caller sees of it: the value, and the string that was written.
`base64EncodeInto` is the function on the memory itself, with the loop, the index into the
source and the pointer into the destination; a byte that is not there cannot be read.  It
writes the same string (`base64EncodeInto_eq`), and that string is the standard encoding
(`base64EncodeInto_spec`).
-/

namespace Ducq

open CMemory Base64

/-- `B64`. -/
def b64 : List Byte := ascii "ABCDEFGHIJKLMNOPQRSTUVWXYZabcdefghijklmnopqrstuvwxyz0123456789+/"

/-- `B64[x]`. -/
def b64At (x : Byte) : Byte := b64.getD x.toNat 0

/-- `'='`. -/
abbrev equalsSign : Byte := 61

/-- `0b111111`: the low six bits. -/
abbrev sixBits : Byte := 0x3F

/-- The first two bits of six, from the end of the byte before. -/
def highTwo (a : Byte) : Byte := (a <<< 4) &&& (0x30 : Byte)

/-- The first four bits of six, from the end of the byte before. -/
def highFour (b : Byte) : Byte := (b <<< 2) &&& (0x3C : Byte)

/-- What `base64_encode` writes, but for the terminator. -/
def base64Text : List Byte → List Byte
  | [] => []
  | [a] => [b64At ((a >>> 2) &&& sixBits), b64At (highTwo a), equalsSign, equalsSign]
  | [a, b] =>
    [b64At ((a >>> 2) &&& sixBits), b64At (highTwo a ||| ((b >>> 4) &&& (0x0F : Byte))),
      b64At (highFour b), equalsSign]
  | a :: b :: c :: src =>
    b64At ((a >>> 2) &&& sixBits) :: b64At (highTwo a ||| ((b >>> 4) &&& (0x0F : Byte))) ::
      b64At (highFour b ||| ((c >>> 6) &&& (0x03 : Byte))) :: b64At (c &&& sixBits) ::
      base64Text src

/-- `needed_space`, for `len` bytes. -/
def neededSpace (len : ℕ) : ℕ :=
  let space := len * 4 / 3
  let pad := space % 4
  (if pad ≠ 0 then space + (4 - pad) else space) + 1

/-- `base64_encode(src, ssize, dst, dsize)`, for arguments that are not NULL: the value,
and the string at `dst` if it was written. -/
def base64Encode (src : List Byte) (dsize : ℕ) : ℤ × List Byte :=
  if dsize < neededSpace src.length then (-2, []) else (0, base64Text src)

/-- **The room that is asked for is the room that is taken.** -/
theorem length_base64Text (src : List Byte) :
    (base64Text src).length + 1 = neededSpace src.length := by
  induction src using base64Text.induct with
  | case1 => rfl
  | case2 a =>
    show 4 + 1 = neededSpace 1
    decide
  | case3 a b =>
    show 4 + 1 = neededSpace 2
    decide
  | case4 a b c src ih =>
    have hdiv : (src.length + 3) * 4 / 3 = src.length * 4 / 3 + 4 := by omega
    have hmod : (src.length * 4 / 3 + 4) % 4 = src.length * 4 / 3 % 4 := by omega
    rw [neededSpace] at ih ⊢
    simp only [base64Text, List.length_cons, hdiv, hmod] at ih ⊢
    split_ifs at ih ⊢ <;> omega

/-- With room enough the text is written, and fits with its terminator. -/
theorem base64Encode_of_le {src : List Byte} {dsize : ℕ} (h : neededSpace src.length ≤ dsize) :
    base64Encode src dsize = (0, base64Text src) := by
  rw [base64Encode, if_neg (not_lt.mpr h)]

/-- The three tails. -/
example : [base64Text (ascii "Man"), base64Text (ascii "Ma"), base64Text (ascii "M")] =
    [ascii "TWFu", ascii "TWE=", ascii "TQ=="] := by decide

/-! ## The standard encoding -/

/-- The alphabet of `B64`. -/
def standard : Base64.Alphabet Byte where
  chars := b64
  pad := equalsSign
  length_chars := by decide
  nodup := by decide
  pad_notMem := by decide

/-- What the bit operations make of a byte. -/
theorem sextet_bits (b : Byte) :
    ((b >>> 2) &&& sixBits).toNat = b.toNat / 4 ∧ (highTwo b).toNat = b.toNat % 4 * 16 ∧
      ((b >>> 4) &&& (0x0F : Byte)).toNat = b.toNat / 16 ∧
      (highFour b).toNat = b.toNat % 16 * 4 ∧
      ((b >>> 6) &&& (0x03 : Byte)).toNat = b.toNat / 64 ∧
      (b &&& sixBits).toNat = b.toNat % 64 := by
  revert b
  exact forall_byte (by decide +kernel)

theorem or_bits : (∀ p < 4, ∀ q < 16, (UInt8.ofNat (p * 16) ||| UInt8.ofNat q).toNat = p * 16 + q) ∧
    ∀ p < 16, ∀ q < 4, (UInt8.ofNat (p * 4) ||| UInt8.ofNat q).toNat = p * 4 + q := by
  decide

/-- **The four characters of a group are its four digits.** -/
theorem sextets (a b c : Byte) :
    ((a >>> 2) &&& sixBits).toNat = digit (group a b c) 0 ∧
      (highTwo a ||| ((b >>> 4) &&& (0x0F : Byte))).toNat = digit (group a b c) 1 ∧
      (highFour b ||| ((c >>> 6) &&& (0x03 : Byte))).toNat = digit (group a b c) 2 ∧
      (c &&& sixBits).toNat = digit (group a b c) 3 := by
  have ha := a.toNat_lt
  have hb := b.toNat_lt
  have hc := c.toNat_lt
  obtain ⟨ha0, ha1, -⟩ := sextet_bits a
  obtain ⟨-, -, hb1, hb2, -⟩ := sextet_bits b
  obtain ⟨-, -, -, -, hc2, hc3⟩ := sextet_bits c
  have hofNat : ∀ {x : Byte} {n : ℕ}, x.toNat = n → x = UInt8.ofNat n := by
    rintro x n rfl
    exact UInt8.ofNat_toNat.symm
  have hone := or_bits.1 (a.toNat % 4) (by omega) (b.toNat / 16) (by omega)
  have htwo := or_bits.2 (b.toNat % 16) (by omega) (c.toNat / 64) (by omega)
  rw [← hofNat ha1, ← hofNat hb1] at hone
  rw [← hofNat hb2, ← hofNat hc2] at htwo
  rw [ha0, hone, htwo, hc3]
  simp only [digit, group]
  omega

/-- A table entry is the character of its index. -/
theorem b64At_eq_char {x : Byte} {v : ℕ} (h : x.toNat = v) (hv : v < 64) :
    b64At x = standard.char v := by
  rw [b64At, h, List.getD_eq_getElem _ _ hv, standard.char_eq_getElem hv]
  rfl

/-- **What is written is the standard encoding.** -/
theorem base64Text_eq_encode (src : List Byte) : base64Text src = Base64.encode standard src := by
  induction src using base64Text.induct with
  | case1 => rfl
  | case2 a =>
    obtain ⟨h0, h1, -⟩ := sextets a 0 0
    have hzero : highTwo a ||| (((0 : Byte) >>> 4) &&& (0x0F : Byte)) = highTwo a := UInt8.or_zero
    rw [hzero] at h1
    rw [base64Text, Base64.encode, b64At_eq_char h0 (digit_lt _ _ _ _),
      b64At_eq_char h1 (digit_lt _ _ _ _)]
    rfl
  | case3 a b =>
    obtain ⟨h0, h1, h2, -⟩ := sextets a b 0
    have hzero : highFour b ||| (((0 : Byte) >>> 6) &&& (0x03 : Byte)) = highFour b :=
      UInt8.or_zero
    rw [hzero] at h2
    rw [base64Text, Base64.encode, b64At_eq_char h0 (digit_lt _ _ _ _),
      b64At_eq_char h1 (digit_lt _ _ _ _), b64At_eq_char h2 (digit_lt _ _ _ _)]
    rfl
  | case4 a b c src ih =>
    obtain ⟨h0, h1, h2, h3⟩ := sextets a b c
    rw [base64Text, Base64.encode, ih, b64At_eq_char h0 (digit_lt _ _ _ _),
      b64At_eq_char h1 (digit_lt _ _ _ _), b64At_eq_char h2 (digit_lt _ _ _ _),
      b64At_eq_char h3 (digit_lt _ _ _ _)]

/-! ## In memory -/

/-- `*dst++ = c`, for `dst` an index into the memory. -/
def base64Put (out : ℕ × Buffer) (c : Byte) : ℕ × Buffer := (out.1 + 1, out.2.put out.1 c)

/-- The loop over whole groups: where `i` ends, and what has been written.  A read outside
the source has no value. -/
def base64Loop (src : List Byte) (len : ℕ) : ℕ → ℕ → ℕ × Buffer → Option (ℕ × ℕ × Buffer)
  | 0, _, _ => none
  | fuel + 1, i, out =>
    if i < len then do
      let a ← src[i]?
      let b ← src[i + 1]?
      let c ← src[i + 2]?
      let out := base64Put out (b64At ((a >>> 2) &&& sixBits))
      let out := base64Put out (b64At (highTwo a ||| ((b >>> 4) &&& (0x0F : Byte))))
      let out := base64Put out (b64At (highFour b ||| ((c >>> 6) &&& (0x03 : Byte))))
      let out := base64Put out (b64At (c &&& sixBits))
      base64Loop src len fuel (i + 3) out
    else some (i, out)

/-- What follows the loop, up to the terminator; `x` is the rest of a sextet. -/
def base64Tail (src : List Byte) (pad i : ℕ) (out : ℕ × Buffer) : Option (ℕ × Buffer) := do
  let (x, out) ←
    if pad ≠ 0 then do
      let a ← src[i]?
      some (highTwo a, base64Put out (b64At ((a >>> 2) &&& sixBits)))
    else some (0, out)
  let (x, out) ←
    if pad = 1 then do
      let b ← src[i + 1]?
      some (highFour b, base64Put out (b64At (x ||| ((b >>> 4) &&& (0x0F : Byte)))))
    else some (x, out)
  let out := if pad ≠ 0 then base64Put out (b64At x) else out
  let out := (List.replicate pad equalsSign).foldl base64Put out
  some (out.1, out.2.put out.1 0)

/-- `base64_encode(src, ssize, dst, dsize)`, for arguments that are not NULL: the value, and
the memory at `dst`.  The sizes are those of an `int`, for which nothing here wraps around. -/
def base64EncodeInto (src : List Byte) (dsize : ℕ) (dst : Buffer) : Option (ℤ × Buffer) :=
  let len := src.length
  if dsize < neededSpace len then some (-2, dst)
  else
    let pad := len % 3
    let (len, pad) := if pad ≠ 0 then (len - pad, 3 - pad) else (len, pad)
    do
      let (i, out) ← base64Loop src len (src.length + 1) 0 (0, dst)
      let (_, dst) ← base64Tail src pad i out
      some (0, dst)

/-- What a group or a rest is padded with. -/
def padOf (n : ℕ) : ℕ := if n % 3 ≠ 0 then 3 - n % 3 else 0

/-- The rest of the source, a byte or two, and the terminator. -/
theorem base64Tail_eq {src rest : List Byte} {i : ℕ} (h : src.drop i = rest)
    (hrest : rest.length < 3) (p : ℕ) (b : Buffer) :
    base64Tail src (padOf rest.length) i (p, b) =
      some (p + (base64Text rest).length, b.store p (base64Text rest ++ [0])) := by
  have hget : ∀ j, src[i + j]? = rest[j]? := by
    intro j
    rw [← h, List.getElem?_drop]
  have h0 := hget 0
  have h1 := hget 1
  rw [Nat.add_zero] at h0
  rcases rest with _ | ⟨x, _ | ⟨y, _ | ⟨z, rest⟩⟩⟩
  · rfl
  · show base64Tail src 2 i (p, b) = _
    rw [base64Tail, h0]
    rfl
  · show base64Tail src 1 i (p, b) = _
    rw [base64Tail, h0, h1]
    rfl
  · simp only [List.length_cons] at hrest
    omega

/-- **From any group on**, the loop and what follows it write the encoding of the rest. -/
theorem base64Loop_tail {src : List Byte} {fuel i : ℕ} (hi : i % 3 = 0)
    (hle : i ≤ src.length) (hfuel : src.length < i + 3 * fuel) (p : ℕ) (b : Buffer) :
    (do
      let (i, out) ← base64Loop src (src.length - src.length % 3) fuel i (p, b)
      base64Tail src (padOf src.length) i out) =
      some (p + (base64Text (src.drop i)).length,
        b.store p (base64Text (src.drop i) ++ [0])) := by
  induction fuel generalizing i p b with
  | zero => omega
  | succ fuel ih =>
    rw [base64Loop]
    have hlen : (src.drop i).length = src.length - i := List.length_drop
    by_cases hlt : i < src.length - src.length % 3
    · rw [if_pos hlt]
      have hget : ∀ j, src[i + j]? = (src.drop i)[j]? := by
        intro j
        rw [List.getElem?_drop]
      have h0 := hget 0
      have h1 := hget 1
      have h2 := hget 2
      have h3 : src.drop (i + 3) = (src.drop i).drop 3 := by rw [List.drop_drop]
      rw [Nat.add_zero] at h0
      rcases hd : src.drop i with _ | ⟨x, _ | ⟨y, _ | ⟨z, rest⟩⟩⟩
      · rw [hd] at hlen
        simp only [List.length_nil] at hlen
        omega
      · rw [hd] at hlen
        simp only [List.length_cons, List.length_nil] at hlen
        omega
      · rw [hd] at hlen
        simp only [List.length_cons, List.length_nil] at hlen
        omega
      · rw [hd] at h0 h1 h2 h3
        have hrest : src.drop (i + 3) = rest := h3
        have hnext := ih (i := i + 3) (by omega) (by omega) (by omega) (p + 1 + 1 + 1 + 1)
        rw [hrest] at hnext
        rw [h0, h1, h2, base64Text]
        refine (hnext _).trans ?_
        congr 2
        simp only [List.length_cons]
        omega
    · -- fewer than three bytes are left
      rw [if_neg hlt]
      have hpad : padOf src.length = padOf (src.drop i).length := by
        rw [padOf, padOf, hlen]
        congr 2 <;> omega
      rw [hpad]
      exact base64Tail_eq rfl (by omega) p b

/-- **`base64_encode` writes what it is said to write**, and reads nothing else. -/
theorem base64EncodeInto_eq (src : List Byte) (dsize : ℕ) (dst : Buffer) :
    base64EncodeInto src dsize dst =
      if dsize < neededSpace src.length then some (-2, dst)
      else some (0, dst.store 0 (base64Text src ++ [0])) := by
  rw [base64EncodeInto]
  split_ifs with h
  · rfl
  · have hloop := @base64Loop_tail src (src.length + 1) 0 rfl (Nat.zero_le _) (by omega) 0 dst
    rw [List.drop_zero, Nat.zero_add] at hloop
    obtain ⟨⟨i, out⟩, hi, htail⟩ := Option.bind_eq_some_iff.mp hloop
    rw [padOf] at htail
    by_cases h3 : src.length % 3 = 0
    · rw [h3, Nat.sub_zero] at hi
      rw [if_neg (not_not.mpr h3)] at htail
      simp only [h3, ne_eq, not_true_eq_false, if_false, hi, Option.bind_eq_bind,
        Option.bind_some, htail]
    · rw [if_pos h3] at htail
      simp only [ne_eq, h3, not_false_eq_true, if_true, hi, Option.bind_eq_bind,
        Option.bind_some, htail]

/-- What a call leaves that has encoded `src` as `text`. -/
structure Encodes (src : List Byte) (dsize : ℕ) (dst dst' : Buffer) (text : List Byte) : Prop where
  text_eq : text = Base64.encode standard src
  length_eq : text.length = 4 * ((src.length + 2) / 3)
  stored : dst' = dst.store 0 (text ++ [0])
  inside : ∀ i ∈ dst'.writes, i < dsize ∨ i ∈ dst.writes
  decoded : Base64.decode standard text = some src

/-- **`base64_encode` is the standard encoding**: it has a value for every source, so that no
byte outside is read; it refuses exactly if there is less room than the encoding and its
terminator take, and then writes nothing; otherwise it writes these two and stays inside. -/
theorem base64EncodeInto_spec (src : List Byte) (dsize : ℕ) (dst : Buffer) :
    (dsize < 4 * ((src.length + 2) / 3) + 1 ∧
        base64EncodeInto src dsize dst = some (-2, dst)) ∨
      (4 * ((src.length + 2) / 3) + 1 ≤ dsize ∧
        ∃ dst' text, base64EncodeInto src dsize dst = some (0, dst') ∧
          Encodes src dsize dst dst' text) := by
  have htext := base64Text_eq_encode src
  have hlen : (base64Text src).length = 4 * ((src.length + 2) / 3) := by
    rw [htext, length_encode]
  rw [base64EncodeInto_eq, ← length_base64Text, hlen]
  rcases Nat.lt_or_ge dsize (4 * ((src.length + 2) / 3) + 1) with h | h
  · exact Or.inl ⟨h, if_pos h⟩
  · refine Or.inr ⟨h, _, base64Text src, if_neg (not_lt.mpr h), htext, hlen, rfl,
      fun i hi => ?_, ?_⟩
    · rcases Buffer.mem_writes_store.mp hi with hnew | hold
      · rw [List.length_append, List.length_singleton] at hnew
        exact Or.inl (by omega)
      · exact Or.inr hold
    · rw [htext, decode_encode]

/-- **A caller sees the value and the string**, whatever the memory held. -/
theorem base64EncodeInto_base64Encode (src : List Byte) (dsize : ℕ) (dst : Buffer) :
    ∃ dst', base64EncodeInto src dsize dst = some ((base64Encode src dsize).1, dst') ∧
      dst'.StartsWith (base64Encode src dsize).2 := by
  rw [base64EncodeInto_eq, base64Encode]
  split_ifs
  · exact ⟨dst, rfl, rfl⟩
  · exact ⟨_, rfl, (dst.startsWith_store (base64Text src ++ [0])).of_append⟩

end Ducq
