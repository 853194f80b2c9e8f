import Ducq.Lib.BlockHash
import Ducq.Lib.Number

/-!
# `sha1.c`: SHA-1

A context hashes a message that comes in pieces: `SHA1Input` puts one byte after the other
into a block of 64 and compresses the block when it is full, `SHA1Result` pads what is left
and writes the digest.  Both keep count of the bits in two words of 32 and refuse a context
that has been used wrongly.

The code is the first half of this module.  The second is the standard the file names,
FIPS 180-1: the words of a block, eighty rounds, and the padding, over whole messages and
with words as bit vectors.  `sha1ProcessMessageBlock_spec` says that one block of the code
is one block of the standard.
-/

namespace Ducq

open CMemory CNumber

/-! ## The context -/

/-- Five words: the array `Intermediate_Hash`, and the variables `A` to `E`. -/
structure Sha1Words (α : Type) where
  a : α
  b : α
  c : α
  d : α
  e : α
  deriving DecidableEq

namespace Sha1Words

variable {α β : Type}

/-- `Intermediate_Hash[i]`. -/
def get (h : Sha1Words α) : ℕ → α
  | 0 => h.a
  | 1 => h.b
  | 2 => h.c
  | 3 => h.d
  | _ => h.e

/-- Word by word. -/
def add [Add α] (h v : Sha1Words α) : Sha1Words α :=
  ⟨h.a + v.a, h.b + v.b, h.c + v.c, h.d + v.d, h.e + v.e⟩

/-- The same words in another form. -/
def map (f : α → β) (h : Sha1Words α) : Sha1Words β := ⟨f h.a, f h.b, f h.c, f h.d, f h.e⟩

end Sha1Words

/-- `struct SHA1Context`. -/
structure Sha1Context where
  intermediateHash : Sha1Words UInt32
  lengthLow : UInt32
  lengthHigh : UInt32
  messageBlockIndex : ℕ
  messageBlock : Buffer
  computed : Bool
  corrupted : ℕ

/-- `shaSuccess`. -/
abbrev shaSuccess : ℕ := 0

/-- `shaStateError`. -/
abbrev shaStateError : ℕ := 3

/-- `SHA1HashSize`. -/
abbrev sha1HashSize : ℕ := 20

/-- `SHA1Reset`. -/
def sha1Reset (context : Sha1Context) : ℕ × Sha1Context :=
  (shaSuccess,
    { context with
      intermediateHash := ⟨0x67452301, 0xEFCDAB89, 0x98BADCFE, 0x10325476, 0xC3D2E1F0⟩
      lengthLow := 0
      lengthHigh := 0
      messageBlockIndex := 0
      computed := false
      corrupted := 0 })

/-! ## One block -/

/-- `SHA1CircularShift`. -/
def sha1CircularShift (bits word : UInt32) : UInt32 := word <<< bits ||| word >>> (32 - bits)

/-- The first loop of `SHA1ProcessMessageBlock`: the words of the block.  The array `W` is
filled from the front, so it is a list. -/
def sha1WordsOfBlock (block : Buffer) : List UInt32 :=
  (List.range 16).map fun t =>
    (block.cells (t * 4)).toUInt32 <<< 24 ||| (block.cells (t * 4 + 1)).toUInt32 <<< 16 |||
      (block.cells (t * 4 + 2)).toUInt32 <<< 8 ||| (block.cells (t * 4 + 3)).toUInt32

/-- The second loop. -/
def sha1ExtendWords (W : List UInt32) : List UInt32 :=
  (List.range' 16 64).foldl
    (fun W t => W ++ [sha1CircularShift 1
      (W.getD (t - 3) 0 ^^^ W.getD (t - 8) 0 ^^^ W.getD (t - 14) 0 ^^^ W.getD (t - 16) 0)]) W

/-- A turn of one of the four loops over the word buffers. -/
def sha1Turn (f : UInt32 → UInt32 → UInt32 → UInt32) (k : UInt32) (W : List UInt32)
    (v : Sha1Words UInt32) (t : ℕ) : Sha1Words UInt32 :=
  let temp := sha1CircularShift 5 v.a + f v.b v.c v.d + v.e + W.getD t 0 + k
  ⟨temp, v.a, sha1CircularShift 30 v.b, v.c, v.d⟩

/-- The four loops. -/
def sha1Rounds (W : List UInt32) (v : Sha1Words UInt32) : Sha1Words UInt32 :=
  let v := (List.range' 0 20).foldl
    (sha1Turn (fun B C D => B &&& C ||| ~~~B &&& D) 0x5A827999 W) v
  let v := (List.range' 20 20).foldl (sha1Turn (fun B C D => B ^^^ C ^^^ D) 0x6ED9EBA1 W) v
  let v := (List.range' 40 20).foldl
    (sha1Turn (fun B C D => B &&& C ||| B &&& D ||| C &&& D) 0x8F1BBCDC W) v
  (List.range' 60 20).foldl (sha1Turn (fun B C D => B ^^^ C ^^^ D) 0xCA62C1D6 W) v

/-- `SHA1ProcessMessageBlock`. -/
def sha1ProcessMessageBlock (context : Sha1Context) : Sha1Context :=
  { context with
    intermediateHash := context.intermediateHash.add
      (sha1Rounds (sha1ExtendWords (sha1WordsOfBlock context.messageBlock))
        context.intermediateHash)
    messageBlockIndex := 0 }

section ProcessMessageBlock

variable (context : Sha1Context)

@[simp] theorem messageBlockIndex_processMessageBlock :
    (sha1ProcessMessageBlock context).messageBlockIndex = 0 := by
  rw [sha1ProcessMessageBlock]

@[simp] theorem messageBlock_processMessageBlock :
    (sha1ProcessMessageBlock context).messageBlock = context.messageBlock := by
  rw [sha1ProcessMessageBlock]

@[simp] theorem lengthLow_processMessageBlock :
    (sha1ProcessMessageBlock context).lengthLow = context.lengthLow := by
  rw [sha1ProcessMessageBlock]

@[simp] theorem lengthHigh_processMessageBlock :
    (sha1ProcessMessageBlock context).lengthHigh = context.lengthHigh := by
  rw [sha1ProcessMessageBlock]

@[simp] theorem computed_processMessageBlock :
    (sha1ProcessMessageBlock context).computed = context.computed := by
  rw [sha1ProcessMessageBlock]

@[simp] theorem corrupted_processMessageBlock :
    (sha1ProcessMessageBlock context).corrupted = context.corrupted := by
  rw [sha1ProcessMessageBlock]

end ProcessMessageBlock

/-! ## A message -/

/-- `Message_Block[Message_Block_Index++] = x`. -/
def Sha1Context.append (context : Sha1Context) (x : Byte) : Sha1Context :=
  { context with
    messageBlock := context.messageBlock.put context.messageBlockIndex x
    messageBlockIndex := context.messageBlockIndex + 1 }

/-- The body of the loop of `SHA1Input`. -/
def sha1InputByte (context : Sha1Context) (x : Byte) : Sha1Context :=
  let context := context.append x
  let context : Sha1Context := { context with lengthLow := context.lengthLow + 8 }
  let context : Sha1Context :=
    if context.lengthLow = 0 then
      let context : Sha1Context := { context with lengthHigh := context.lengthHigh + 1 }
      if context.lengthHigh = 0 then { context with corrupted := 1 } else context
    else context
  if context.messageBlockIndex = 64 then sha1ProcessMessageBlock context else context

/-- The loop of `SHA1Input`. -/
def sha1InputLoop : List Byte → Sha1Context → Sha1Context
  | [], context => context
  | x :: xs, context =>
    if context.corrupted ≠ 0 then context else sha1InputLoop xs (sha1InputByte context x)

/-- `SHA1Input(context, message_array, length)`, for the `length` bytes there. -/
def sha1Input (messageArray : List Byte) (context : Sha1Context) : ℕ × Sha1Context :=
  if messageArray = [] then (shaSuccess, context)
  else if context.computed then (shaStateError, { context with corrupted := shaStateError })
  else if context.corrupted ≠ 0 then (context.corrupted, context)
  else (shaSuccess, sha1InputLoop messageArray context)

/-- A loop that appends zeros, `n` times. -/
def sha1AppendZeros : ℕ → Sha1Context → Sha1Context
  | 0, context => context
  | n + 1, context => sha1AppendZeros n (context.append 0)

/-- `while(Message_Block_Index < limit)`, appending zeros. -/
def sha1ZerosUpTo (limit : ℕ) (context : Sha1Context) : Sha1Context :=
  sha1AppendZeros (limit - context.messageBlockIndex) context

/-- A word as it stands in the block and in the digest. -/
def sha1WordBytes (word : UInt32) : List Byte :=
  [(word >>> 24).toUInt8, (word >>> 16).toUInt8, (word >>> 8).toUInt8, word.toUInt8]

/-- `SHA1PadMessage`. -/
def sha1PadMessage (context : Sha1Context) : Sha1Context :=
  let context :=
    if context.messageBlockIndex > 55 then
      sha1ZerosUpTo 56 (sha1ProcessMessageBlock (sha1ZerosUpTo 64 (context.append 0x80)))
    else sha1ZerosUpTo 56 (context.append 0x80)
  sha1ProcessMessageBlock
    { context with
      messageBlock := context.messageBlock.store 56
        (sha1WordBytes context.lengthHigh ++ sha1WordBytes context.lengthLow) }

/-- The loop that writes the digest. -/
def sha1MessageDigest (hash : Sha1Words UInt32) : List Byte :=
  (List.range sha1HashSize).map fun i =>
    (hash.get (i / 4) >>> (8 * (3 - UInt32.ofNat (i % 4)))).toUInt8

/-- `SHA1Result(context, Message_Digest)`: the digest, if one is written. -/
def sha1Result (context : Sha1Context) : ℕ × Option (List Byte) × Sha1Context :=
  if context.corrupted ≠ 0 then (context.corrupted, none, context)
  else
    let context :=
      if context.computed then context
      else
        let context := sha1PadMessage context
        { context with
          messageBlock := context.messageBlock.store 0 (List.replicate 64 0)
          lengthLow := 0
          lengthHigh := 0
          computed := true }
    (shaSuccess, some (sha1MessageDigest context.intermediateHash), context)

/-! ## The standard -/

namespace Sha1

/-- A word of the standard. -/
abbrev Word := BitVec 32

/-- Four bytes as a word, the highest first. -/
def word (a b c d : Byte) : Word := a.toBitVec ++ b.toBitVec ++ c.toBitVec ++ d.toBitVec

/-- A word as four bytes, the highest first. -/
def wordBytes (x : Word) : List Byte := (toLittleEndian 4 x.toNat).reverse

/-- The function of a round. -/
def f (t : ℕ) (b c d : Word) : Word :=
  if t < 20 then b &&& c ||| ~~~b &&& d
  else if t < 40 then b ^^^ c ^^^ d
  else if t < 60 then b &&& c ||| b &&& d ||| c &&& d
  else b ^^^ c ^^^ d

/-- The constant of a round. -/
def K (t : ℕ) : Word :=
  if t < 20 then 0x5A827999
  else if t < 40 then 0x6ED9EBA1
  else if t < 60 then 0x8F1BBCDC
  else 0xCA62C1D6

/-- The word of a round: those of the block first, and then one made of earlier ones. -/
def W (block : List Byte) (t : ℕ) : Word :=
  if t < 16 then
    word (block.getD (t * 4) 0) (block.getD (t * 4 + 1) 0) (block.getD (t * 4 + 2) 0)
      (block.getD (t * 4 + 3) 0)
  else
    (W block (t - 3) ^^^ W block (t - 8) ^^^ W block (t - 14) ^^^ W block (t - 16)).rotateLeft 1
termination_by t
decreasing_by all_goals omega

/-- A round. -/
def round (block : List Byte) (v : Sha1Words Word) (t : ℕ) : Sha1Words Word :=
  ⟨v.a.rotateLeft 5 + f t v.b v.c v.d + v.e + W block t + K t, v.a, v.b.rotateLeft 30, v.c, v.d⟩

/-- Eighty rounds over a block. -/
def compress (h : Sha1Words Word) (block : List Byte) : Sha1Words Word :=
  h.add ((List.range 80).foldl (round block) h)

/-- Blocks of 64 bytes. -/
def scheme : BlockHash.Scheme Byte (Sha1Words Word) := ⟨64, Nat.succ_pos 63, compress⟩

/-- The words to start with. -/
def start : Sha1Words Word := ⟨0x67452301, 0xEFCDAB89, 0x98BADCFE, 0x10325476, 0xC3D2E1F0⟩

/-- The length in bits, in eight bytes. -/
def lengthField (m : List Byte) : List Byte := (toLittleEndian 8 (8 * m.length)).reverse

/-- The digest of a message. -/
def digest (m : List Byte) : List Byte :=
  let h := scheme.hash 0x80 0 start (lengthField m) m
  wordBytes h.a ++ wordBytes h.b ++ wordBytes h.c ++ wordBytes h.d ++ wordBytes h.e

end Sha1

/-! ## One block is one block -/

open Sha1 in
theorem toBitVec_wordOfBytes (a b c d : Byte) :
    (a.toUInt32 <<< 24 ||| b.toUInt32 <<< 16 ||| c.toUInt32 <<< 8 ||| d.toUInt32).toBitVec =
      word a b c d := by
  apply BitVec.eq_of_getLsbD_eq
  intro i hi
  simp [word]
  grind

theorem toBitVec_rotate_one (x : UInt32) :
    (sha1CircularShift 1 x).toBitVec = x.toBitVec.rotateLeft 1 := by
  rw [sha1CircularShift, BitVec.rotateLeft_def]
  simp

theorem toBitVec_rotate_five (x : UInt32) :
    (sha1CircularShift 5 x).toBitVec = x.toBitVec.rotateLeft 5 := by
  rw [sha1CircularShift, BitVec.rotateLeft_def]
  simp

theorem toBitVec_rotate_thirty (x : UInt32) :
    (sha1CircularShift 30 x).toBitVec = x.toBitVec.rotateLeft 30 := by
  rw [sha1CircularShift, BitVec.rotateLeft_def]
  simp

/-- The words of the standard, as far as they have been computed. -/
def HoldsWords (block : List Byte) (words : List UInt32) : Prop :=
  ∀ t < words.length, (words.getD t 0).toBitVec = Sha1.W block t

theorem holdsWords_block (block : Buffer) :
    HoldsWords (block.slice 0 64) (sha1WordsOfBlock block) := by
  intro t ht
  have ht16 : t < 16 := by simpa [sha1WordsOfBlock] using ht
  have hcell : ∀ i, i < 64 → (block.slice 0 64).getD i 0 = block.cells i := fun i hi => by
    rw [List.getD_eq_getElem _ _ (by simpa using hi)]
    simp [Buffer.slice]
  rw [Sha1.W, if_pos ht16, hcell _ (by omega), hcell _ (by omega), hcell _ (by omega),
    hcell _ (by omega), ← toBitVec_wordOfBytes, sha1WordsOfBlock,
    List.getD_eq_getElem _ _ (by simpa using ht16)]
  simp

/-- One more word. -/
theorem holdsWords_extend {block : List Byte} {words : List UInt32}
    (h : HoldsWords block words) (hlen : 16 ≤ words.length) :
    HoldsWords block (words ++ [sha1CircularShift 1
      (words.getD (words.length - 3) 0 ^^^ words.getD (words.length - 8) 0 ^^^
        words.getD (words.length - 14) 0 ^^^ words.getD (words.length - 16) 0)]) := by
  intro t ht
  rw [List.length_append, List.length_singleton] at ht
  rcases Nat.lt_succ_iff_lt_or_eq.mp ht with hlt | rfl
  · rw [List.getD_append _ _ _ _ hlt]
    exact h t hlt
  · rw [List.getD_append_right _ _ _ _ le_rfl, Nat.sub_self, Sha1.W, if_neg (by omega),
      ← h _ (by omega), ← h _ (by omega), ← h _ (by omega), ← h _ (by omega)]
    exact toBitVec_rotate_one _

/-- **The array `W` holds the words of the standard.** -/
theorem holdsWords_all (block : Buffer) :
    (sha1ExtendWords (sha1WordsOfBlock block)).length = 80 ∧
      HoldsWords (block.slice 0 64) (sha1ExtendWords (sha1WordsOfBlock block)) := by
  -- after the turn for `t` there are `t + 1` words
  have hrun : ∀ n, ∀ words : List UInt32, 16 ≤ words.length →
      HoldsWords (block.slice 0 64) words →
      ((List.range' words.length n).foldl (fun W t => W ++ [sha1CircularShift 1
        (W.getD (t - 3) 0 ^^^ W.getD (t - 8) 0 ^^^ W.getD (t - 14) 0 ^^^ W.getD (t - 16) 0)])
          words).length = words.length + n ∧
      HoldsWords (block.slice 0 64)
        ((List.range' words.length n).foldl (fun W t => W ++ [sha1CircularShift 1
          (W.getD (t - 3) 0 ^^^ W.getD (t - 8) 0 ^^^ W.getD (t - 14) 0 ^^^ W.getD (t - 16) 0)])
            words) := by
    intro n
    induction n with
    | zero => exact fun words _ h => ⟨rfl, h⟩
    | succ n ih =>
      intro words hlen h
      have hnext := ih _ (by rw [List.length_append]; omega) (holdsWords_extend h hlen)
      rw [List.length_append, List.length_singleton] at hnext
      rw [List.range'_succ, List.foldl_cons]
      exact ⟨hnext.1.trans (by omega), hnext.2⟩
  have hlen : (sha1WordsOfBlock block).length = 16 := by simp [sha1WordsOfBlock]
  have hall := hrun 64 (sha1WordsOfBlock block) hlen.ge (holdsWords_block block)
  rw [hlen] at hall
  exact hall

/-- A turn of the code is a round of the standard. -/
theorem map_sha1Turn {block : List Byte} {words : List UInt32} {t : ℕ}
    {f : UInt32 → UInt32 → UInt32 → UInt32} {k : UInt32} (h : HoldsWords block words)
    (ht : t < words.length) (hf : ∀ b c d : UInt32,
      (f b c d).toBitVec = Sha1.f t b.toBitVec c.toBitVec d.toBitVec)
    (hk : k.toBitVec = Sha1.K t) (v : Sha1Words UInt32) :
    (sha1Turn f k words v t).map UInt32.toBitVec =
      Sha1.round block (v.map UInt32.toBitVec) t := by
  rw [sha1Turn, Sha1Words.map, Sha1.round]
  simp only [UInt32.toBitVec_add, toBitVec_rotate_five, toBitVec_rotate_thirty, hf, hk, h t ht,
    Sha1Words.map]

/-- A loop of the code is as many rounds of the standard. -/
theorem map_sha1Loop {block : List Byte} {words : List UInt32} {s n : ℕ}
    {f : UInt32 → UInt32 → UInt32 → UInt32} {k : UInt32} (h : HoldsWords block words)
    (hlen : s + n ≤ words.length) (hf : ∀ t, s ≤ t → t < s + n → ∀ b c d : UInt32,
      (f b c d).toBitVec = Sha1.f t b.toBitVec c.toBitVec d.toBitVec)
    (hk : ∀ t, s ≤ t → t < s + n → k.toBitVec = Sha1.K t) (v : Sha1Words UInt32) :
    ((List.range' s n).foldl (sha1Turn f k words) v).map UInt32.toBitVec =
      (List.range' s n).foldl (Sha1.round block) (v.map UInt32.toBitVec) := by
  induction n generalizing s v with
  | zero => rfl
  | succ n ih =>
    rw [List.range'_succ, List.foldl_cons, List.foldl_cons,
      ih (by omega) (fun t h1 h2 => hf t (by omega) (by omega))
        (fun t h1 h2 => hk t (by omega) (by omega)),
      map_sha1Turn h (by omega) (hf s le_rfl (by omega)) (hk s le_rfl (by omega))]

/-- **One block of the code is one block of the standard.** -/
theorem sha1ProcessMessageBlock_spec (context : Sha1Context) :
    (sha1ProcessMessageBlock context).intermediateHash.map UInt32.toBitVec =
      Sha1.compress (context.intermediateHash.map UInt32.toBitVec)
        (context.messageBlock.slice 0 64) := by
  obtain ⟨hlen, hwords⟩ := holdsWords_all context.messageBlock
  have hrange : List.range 80 =
      List.range' 0 20 ++ List.range' 20 20 ++ List.range' 40 20 ++ List.range' 60 20 := by decide
  have hrounds : (sha1Rounds (sha1ExtendWords (sha1WordsOfBlock context.messageBlock))
        context.intermediateHash).map UInt32.toBitVec =
      (List.range 80).foldl (Sha1.round (context.messageBlock.slice 0 64))
        (context.intermediateHash.map UInt32.toBitVec) := by
    rw [hrange, List.foldl_append, List.foldl_append, List.foldl_append, sha1Rounds,
      map_sha1Loop hwords (by omega)
        (fun t h1 h2 b c d => by
          rw [Sha1.f, if_neg (by omega), if_neg (by omega), if_neg (by omega)]
          rfl)
        (fun t h1 h2 => by
          rw [Sha1.K, if_neg (by omega), if_neg (by omega), if_neg (by omega)]
          rfl),
      map_sha1Loop hwords (by omega)
        (fun t h1 h2 b c d => by
          rw [Sha1.f, if_neg (by omega), if_neg (by omega), if_pos (by omega)]
          rfl)
        (fun t h1 h2 => by
          rw [Sha1.K, if_neg (by omega), if_neg (by omega), if_pos (by omega)]
          rfl),
      map_sha1Loop hwords (by omega)
        (fun t h1 h2 b c d => by
          rw [Sha1.f, if_neg (by omega), if_pos (by omega)]
          rfl)
        (fun t h1 h2 => by
          rw [Sha1.K, if_neg (by omega), if_pos (by omega)]
          rfl),
      map_sha1Loop hwords (by omega)
        (fun t h1 h2 b c d => by
          rw [Sha1.f, if_pos (by omega)]
          rfl)
        (fun t h1 h2 => by
          rw [Sha1.K, if_pos (by omega)]
          rfl)]
  rw [Sha1.compress, ← hrounds]
  rfl

end Ducq
