import Ducq.Inet.Sha1

/-!
# `sha1.c`: a context from call to call

What a context answers depends on the calls since it was reset, and `Sha1Phase` says how: it
is taking in a message, or has been asked for the digest of one, or it fails.  A context
fails that was given more bytes after it had been asked, or so many that the 64 bits of the
length came round to zero; the code of the second failure is that of a null pointer.

`sha1_refines` says that the code answers every sequence of calls as the phases do, so that
the digest is the standard's and does not depend on how the message was cut.
-/

namespace Ducq

open CMemory CNumber

/-! ## Calls -/

/-- A call with a context. -/
inductive Sha1Call where
  | reset
  | input (messageArray : List Byte)
  | result

/-- What a call returns, and the digest if it writes one. -/
abbrev Sha1Answer := ℕ × Option (List Byte)

/-- A call. -/
def Sha1Call.run : Sha1Call → Sha1Context → Sha1Answer × Sha1Context
  | .reset, context =>
    match sha1Reset context with
    | (code, context) => ((code, none), context)
  | .input messageArray, context =>
    match sha1Input messageArray context with
    | (code, context) => ((code, none), context)
  | .result, context =>
    match sha1Result context with
    | (code, digest, context) => ((code, digest), context)

/-- One call after another. -/
def sha1Run : List Sha1Call → Sha1Context → List Sha1Answer × Sha1Context
  | [], context => ([], context)
  | call :: calls, context =>
    match call.run context with
    | (answer, context) =>
      match sha1Run calls context with
      | (answers, context) => (answer :: answers, context)

/-! ## Phases -/

/-- What a context is for. -/
inductive Sha1Phase where
  | absorbing (m : List Byte)
  | finished (m : List Byte)
  | failed (code : ℕ)

namespace Sha1Phase

/-- What a call answers in a phase, and the next phase. -/
def step : Sha1Call → Sha1Phase → Sha1Answer × Sha1Phase
  | .reset, _ => ((shaSuccess, none), absorbing [])
  | .input [], phase => ((shaSuccess, none), phase)
  | .input (x :: xs), absorbing m =>
    ((shaSuccess, none),
      if m.length + (x :: xs).length < 2 ^ 61 then absorbing (m ++ x :: xs) else failed 1)
  | .input (_ :: _), finished _ => ((shaStateError, none), failed shaStateError)
  | .input (_ :: _), failed code => ((code, none), failed code)
  | .result, absorbing m => ((shaSuccess, some (Sha1.digest m)), finished m)
  | .result, finished m => ((shaSuccess, some (Sha1.digest m)), finished m)
  | .result, failed code => ((code, none), failed code)

/-- The answers to a sequence of calls. -/
def answers : List Sha1Call → Sha1Phase → List Sha1Answer
  | [], _ => []
  | call :: calls, phase => (step call phase).1 :: answers calls (step call phase).2

end Sha1Phase

/-! ## What a context holds -/

/-- What the standard has come to after a message: the words, and the block begun. -/
def Sha1.progress (m : List Byte) : Sha1Words Sha1.Word × List Byte :=
  Sha1.scheme.absorb (Sha1.start, []) m

/-- The context has taken in `m`. -/
structure Sha1Absorbing (context : Sha1Context) (m : List Byte) : Prop where
  hash : context.intermediateHash.map UInt32.toBitVec = (Sha1.progress m).1
  index : context.messageBlockIndex = (Sha1.progress m).2.length
  block : context.messageBlock.StartsWith (Sha1.progress m).2
  length : context.lengthHigh.toNat * 2 ^ 32 + context.lengthLow.toNat = 8 * m.length
  computed : context.computed = false
  corrupted : context.corrupted = 0

/-- The context is in a phase. -/
def Sha1Represents (context : Sha1Context) : Sha1Phase → Prop
  | .absorbing m => Sha1Absorbing context m
  | .finished m => context.computed = true ∧ context.corrupted = 0 ∧
      sha1MessageDigest context.intermediateHash = Sha1.digest m
  | .failed code => context.corrupted = code ∧ code ≠ 0 ∧
      (context.computed = true → code = shaStateError)

theorem length_progress (m : List Byte) : (Sha1.progress m).2.length = m.length % 64 :=
  @BlockHash.Scheme.length_of_absorb _ _ Sha1.scheme _ (Sha1.progress m).1 _ m rfl

theorem progress_append_singleton (m : List Byte) (x : Byte) :
    Sha1.progress (m ++ [x]) = Sha1.scheme.feed (Sha1.progress m) x :=
  Sha1.scheme.absorb_append _ _ _

/-! ## Resetting -/

theorem sha1Absorbing_reset (context : Sha1Context) :
    Sha1Absorbing (sha1Reset context).2 [] where
  hash := by
    show Sha1Words.map UInt32.toBitVec
      ⟨0x67452301, 0xEFCDAB89, 0x98BADCFE, 0x10325476, 0xC3D2E1F0⟩ = Sha1.start
    decide
  index := rfl
  block := rfl
  length := by
    show UInt32.toNat 0 * 2 ^ 32 + UInt32.toNat 0 = 8 * 0
    decide
  computed := rfl
  corrupted := rfl

/-! ## A byte -/

/-- The context after the byte has been counted, before the block is looked at. -/
def sha1Count (context : Sha1Context) (x : Byte) : Sha1Context :=
  let context := context.append x
  let context : Sha1Context := { context with lengthLow := context.lengthLow + 8 }
  if context.lengthLow = 0 then
    let context : Sha1Context := { context with lengthHigh := context.lengthHigh + 1 }
    if context.lengthHigh = 0 then { context with corrupted := 1 } else context
  else context

theorem sha1InputByte_eq (context : Sha1Context) (x : Byte) :
    sha1InputByte context x =
      if (sha1Count context x).messageBlockIndex = 64 then
        sha1ProcessMessageBlock (sha1Count context x)
      else sha1Count context x := rfl

/-- Counting leaves the block and the words alone. -/
theorem sha1Count_spec (context : Sha1Context) (x : Byte) :
    (sha1Count context x).intermediateHash = context.intermediateHash ∧
      (sha1Count context x).messageBlockIndex = context.messageBlockIndex + 1 ∧
      (sha1Count context x).messageBlock =
        context.messageBlock.put context.messageBlockIndex x ∧
      (sha1Count context x).lengthLow = context.lengthLow + 8 ∧
      (sha1Count context x).lengthHigh =
        (if context.lengthLow + 8 = 0 then context.lengthHigh + 1 else context.lengthHigh) ∧
      (sha1Count context x).computed = context.computed ∧
      (sha1Count context x).corrupted =
        (if context.lengthLow + 8 = 0 ∧ context.lengthHigh + 1 = 0 then 1
          else context.corrupted) := by
  rw [sha1Count]
  simp only [Sha1Context.append]
  by_cases hlow : context.lengthLow + 8 = 0
  · by_cases hhigh : context.lengthHigh + 1 = 0
    · simp [hlow, hhigh]
    · simp [hlow, hhigh]
  · simp [hlow]

/-- The length is counted on, unless all its bits come round to zero. -/
theorem sha1Count_length {context : Sha1Context} {n : ℕ} (x : Byte)
    (h : context.lengthHigh.toNat * 2 ^ 32 + context.lengthLow.toNat = 8 * n)
    (hcorrupted : context.corrupted = 0) :
    (n + 1 < 2 ^ 61 →
      (sha1Count context x).lengthHigh.toNat * 2 ^ 32 + (sha1Count context x).lengthLow.toNat =
        8 * (n + 1) ∧ (sha1Count context x).corrupted = 0) ∧
      (¬ n + 1 < 2 ^ 61 → (sha1Count context x).corrupted = 1) := by
  obtain ⟨-, -, -, hlow, hhigh, -, hbad⟩ := sha1Count_spec context x
  have hhighLt := context.lengthHigh.toNat_lt
  have hlowLt := context.lengthLow.toNat_lt
  have hlow' : (context.lengthLow + 8).toNat = (context.lengthLow.toNat + 8) % 2 ^ 32 :=
    UInt32.toNat_add _ _
  have hhigh' : (context.lengthHigh + 1).toNat = (context.lengthHigh.toNat + 1) % 2 ^ 32 :=
    UInt32.toNat_add _ _
  have hzero : ∀ y : UInt32, y = 0 ↔ y.toNat = 0 := fun y =>
    ⟨fun hy => hy ▸ rfl, fun hy => UInt32.toNat_inj.mp hy⟩
  rw [hlow, hhigh, hbad, hcorrupted]
  by_cases hcarry : context.lengthLow + 8 = 0
  · by_cases hover : context.lengthHigh + 1 = 0
    · rw [if_pos hcarry, if_pos ⟨hcarry, hover⟩]
      rw [hzero, hlow'] at hcarry
      rw [hzero, hhigh'] at hover
      exact ⟨fun hlt => by omega, fun _ => rfl⟩
    · rw [if_pos hcarry, if_neg fun hboth => hover hboth.2, hlow', hhigh']
      rw [hzero, hlow'] at hcarry
      rw [hzero, hhigh'] at hover
      have hbits : (context.lengthHigh.toNat + 1) % 2 ^ 32 * 2 ^ 32 +
          (context.lengthLow.toNat + 8) % 2 ^ 32 = 8 * (n + 1) :=
        Nat.le_antisymm (by omega) (by omega)
      exact ⟨fun _ => ⟨hbits, rfl⟩, fun hge => by omega⟩
  · rw [if_neg hcarry, if_neg fun hboth => hcarry hboth.1, hlow']
    rw [hzero, hlow'] at hcarry
    exact ⟨fun _ => ⟨by omega, rfl⟩, fun hge => by omega⟩

theorem Sha1.scheme_size : Sha1.scheme.size = 64 := rfl

theorem Sha1.scheme_compress : Sha1.scheme.compress = Sha1.compress := rfl

/-- **A byte that is taken in**, as far as the words and the block go. -/
theorem sha1InputByte_progress {context : Sha1Context} {s : Sha1Words Sha1.Word}
    {rest : List Byte} (hs : context.intermediateHash.map UInt32.toBitVec = s)
    (hindex : context.messageBlockIndex = rest.length)
    (hblock : context.messageBlock.StartsWith rest) (x : Byte) :
    (sha1InputByte context x).intermediateHash.map UInt32.toBitVec =
        (Sha1.scheme.feed (s, rest) x).1 ∧
      (sha1InputByte context x).messageBlockIndex = (Sha1.scheme.feed (s, rest) x).2.length ∧
      (sha1InputByte context x).messageBlock.StartsWith (Sha1.scheme.feed (s, rest) x).2 := by
  obtain ⟨hcHash, hcIndex, hcBlock, -⟩ := sha1Count_spec context x
  have hlen : (rest ++ [x]).length = rest.length + 1 := by
    rw [List.length_append, List.length_singleton]
  have hstart : (sha1Count context x).messageBlock.StartsWith (rest ++ [x]) := by
    rw [hcBlock, hindex]
    exact hblock.store [x]
  rw [hindex] at hcIndex
  rw [sha1InputByte_eq, BlockHash.Scheme.feed, Sha1.scheme_size, Sha1.scheme_compress, hcIndex]
  by_cases hfull : rest.length + 1 = 64
  · rw [if_pos hfull, if_pos hfull]
    have hslice : (sha1Count context x).messageBlock.slice 0 64 = rest ++ [x] := by
      rw [← hfull, ← hlen]
      exact hstart
    refine ⟨?_, rfl, rfl⟩
    rw [sha1ProcessMessageBlock_spec, hcHash, hs, hslice]
  · rw [if_neg hfull, if_neg hfull]
    exact ⟨by rw [hcHash, hs], hcIndex.trans hlen.symm, hstart⟩

/-- The block makes no difference to the counts. -/
theorem sha1InputByte_counts (context : Sha1Context) (x : Byte) :
    (sha1InputByte context x).lengthHigh = (sha1Count context x).lengthHigh ∧
      (sha1InputByte context x).lengthLow = (sha1Count context x).lengthLow ∧
      (sha1InputByte context x).computed = (sha1Count context x).computed ∧
      (sha1InputByte context x).corrupted = (sha1Count context x).corrupted := by
  rw [sha1InputByte_eq]
  split_ifs <;> simp

/-- **A byte that is taken in**, or one too many. -/
theorem Sha1Absorbing.inputByte {context : Sha1Context} {m : List Byte}
    (h : Sha1Absorbing context m) (x : Byte) :
    (m.length + 1 < 2 ^ 61 → Sha1Absorbing (sha1InputByte context x) (m ++ [x])) ∧
      (¬ m.length + 1 < 2 ^ 61 → (sha1InputByte context x).corrupted = 1 ∧
        (sha1InputByte context x).computed = false) := by
  obtain ⟨hhash, hindex, hblock⟩ := sha1InputByte_progress h.hash h.index h.block x
  obtain ⟨hhigh, hlow, hcomputed, hcorrupted⟩ := sha1InputByte_counts context x
  obtain ⟨-, -, -, -, -, hcomputed', -⟩ := sha1Count_spec context x
  obtain ⟨hfits, hover⟩ := sha1Count_length x h.length h.corrupted
  have hcomputed : (sha1InputByte context x).computed = false :=
    hcomputed.trans (hcomputed'.trans h.computed)
  have hfeed : Sha1.scheme.feed ((Sha1.progress m).1, (Sha1.progress m).2) x =
      Sha1.progress (m ++ [x]) := (progress_append_singleton m x).symm
  rw [hfeed] at hhash hindex hblock
  constructor
  · intro hlt
    refine ⟨hhash, hindex, hblock, ?_, hcomputed, hcorrupted.trans (hfits hlt).2⟩
    rw [hhigh, hlow, (hfits hlt).1, List.length_append, List.length_singleton]
  · intro hge
    exact ⟨hcorrupted.trans (hover hge), hcomputed⟩

/-- **A piece that is taken in**, or is too long. -/
theorem Sha1Absorbing.inputLoop {context : Sha1Context} {m : List Byte}
    (h : Sha1Absorbing context m) (xs : List Byte) :
    (m.length + xs.length < 2 ^ 61 → Sha1Absorbing (sha1InputLoop xs context) (m ++ xs)) ∧
      (m.length < 2 ^ 61 → ¬ m.length + xs.length < 2 ^ 61 →
        (sha1InputLoop xs context).corrupted = 1 ∧
          (sha1InputLoop xs context).computed = false) := by
  induction xs generalizing context m with
  | nil =>
    rw [List.append_nil, List.length_nil, Nat.add_zero]
    exact ⟨fun _ => h, fun hlt hge => absurd hlt hge⟩
  | cons x xs ih =>
    have hlen : (m ++ [x]).length = m.length + 1 := by
      rw [List.length_append, List.length_singleton]
    have hsplit : m ++ x :: xs = (m ++ [x]) ++ xs := by
      rw [List.append_assoc, List.singleton_append]
    obtain ⟨hfits, hover⟩ := h.inputByte x
    rw [sha1InputLoop, if_neg (not_not.mpr h.corrupted), hsplit, List.length_cons]
    constructor
    · intro hlt
      exact (ih (hfits (by omega))).1 (by omega)
    · intro _ hge
      by_cases hlast : m.length + 1 < 2 ^ 61
      · exact (ih (hfits hlast)).2 (by omega) (by omega)
      · obtain ⟨hbad, hcomputed⟩ := hover hlast
        have hstop : sha1InputLoop xs (sha1InputByte context x) = sha1InputByte context x := by
          cases xs with
          | nil => rfl
          | cons y ys => rw [sha1InputLoop, if_pos (by rw [hbad]; decide)]
        rw [hstop]
        exact ⟨hbad, hcomputed⟩

/-! ## The end of a message -/

/-- Appended zeros, all at once. -/
theorem sha1AppendZeros_eq (n : ℕ) (context : Sha1Context) :
    sha1AppendZeros n context =
      { context with
        messageBlock :=
          context.messageBlock.store context.messageBlockIndex (List.replicate n 0)
        messageBlockIndex := context.messageBlockIndex + n } := by
  induction n generalizing context with
  | zero => rfl
  | succ n ih =>
    rw [sha1AppendZeros, ih, List.replicate_succ, Buffer.store, Sha1Context.append]
    dsimp only
    rw [Nat.add_right_comm, Nat.add_assoc]

/-- The mark, and zeros up to an index. -/
def sha1MarkUpTo (limit : ℕ) (context : Sha1Context) : Sha1Context :=
  sha1ZerosUpTo limit (context.append 0x80)

theorem sha1MarkUpTo_eq (limit : ℕ) (context : Sha1Context) :
    sha1MarkUpTo limit context =
      { context with
        messageBlock := context.messageBlock.store context.messageBlockIndex
          (0x80 :: List.replicate (limit - (context.messageBlockIndex + 1)) 0)
        messageBlockIndex := context.messageBlockIndex + 1 +
          (limit - (context.messageBlockIndex + 1)) } := by
  rw [sha1MarkUpTo, sha1ZerosUpTo, sha1AppendZeros_eq, Sha1Context.append, Buffer.store]

/-- The word as the standard writes it. -/
theorem sha1WordBytes_eq (word : UInt32) :
    sha1WordBytes word = (toLittleEndian 4 word.toNat).reverse := by
  have hbyte : ∀ x y : Byte, x.toNat = y.toNat → x = y := fun x y h => UInt8.toNat_inj.mp h
  have hlt := word.toNat_lt
  simp only [toLittleEndian, List.reverse_cons, List.reverse_nil, List.nil_append,
    List.cons_append, sha1WordBytes, Nat.div_div_eq_div_mul]
  congr 1
  · apply hbyte
    simp [Nat.shiftRight_eq_div_pow]
  congr 1
  · apply hbyte
    simp [Nat.shiftRight_eq_div_pow]
  congr 1
  · apply hbyte
    simp [Nat.shiftRight_eq_div_pow]
  congr 1
  apply hbyte
  simp

/-- The length as it stands in the last block. -/
theorem Sha1Absorbing.lengthField {context : Sha1Context} {m : List Byte}
    (h : Sha1Absorbing context m) :
    sha1WordBytes context.lengthHigh ++ sha1WordBytes context.lengthLow =
      Sha1.lengthField m := by
  have hlow := context.lengthLow.toNat_lt
  have hmod : (8 * m.length) % 256 ^ 4 = context.lengthLow.toNat := by
    rw [← h.length]
    omega
  have hdiv : 8 * m.length / 256 ^ 4 = context.lengthHigh.toNat := by
    rw [← h.length]
    omega
  rw [Sha1.lengthField, toLittleEndian_add 4 4, hdiv, ← toLittleEndian_mod, hmod,
    List.reverse_append, sha1WordBytes_eq, sha1WordBytes_eq]

/-- The last block: the length behind 56 bytes. -/
def sha1LastBlock (context : Sha1Context) : Sha1Context :=
  sha1ProcessMessageBlock
    { context with
      messageBlock := context.messageBlock.store 56
        (sha1WordBytes context.lengthHigh ++ sha1WordBytes context.lengthLow) }

theorem sha1PadMessage_eq (context : Sha1Context) :
    sha1PadMessage context = sha1LastBlock
      (if context.messageBlockIndex > 55 then
        sha1ZerosUpTo 56 (sha1ProcessMessageBlock (sha1MarkUpTo 64 context))
      else sha1MarkUpTo 56 context) := rfl

theorem length_lengthField (m : List Byte) : (Sha1.lengthField m).length = 8 := by
  rw [Sha1.lengthField, List.length_reverse, length_toLittleEndian]

/-- What the last block comes to. -/
theorem sha1LastBlock_spec {context : Sha1Context} {s : Sha1Words Sha1.Word}
    {front lengthField : List Byte}
    (hs : context.intermediateHash.map UInt32.toBitVec = s)
    (hblock : context.messageBlock.StartsWith front) (hfront : front.length = 56)
    (hlength : sha1WordBytes context.lengthHigh ++ sha1WordBytes context.lengthLow =
      lengthField) :
    (sha1LastBlock context).intermediateHash.map UInt32.toBitVec =
      Sha1.compress s (front ++ lengthField) := by
  have hlen : (front ++ lengthField).length = 64 := by
    rw [List.length_append, hfront, ← hlength, List.length_append, sha1WordBytes, sha1WordBytes]
    rfl
  have hstart := hblock.store lengthField
  rw [hfront] at hstart
  rw [sha1LastBlock, sha1ProcessMessageBlock_spec, hs, hlength, ← hlen]
  congr 1

/-- **Padding comes to the hash of the standard.** -/
theorem Sha1Absorbing.padMessage {context : Sha1Context} {m : List Byte}
    (h : Sha1Absorbing context m) :
    (sha1PadMessage context).intermediateHash.map UInt32.toBitVec =
      Sha1.scheme.hash 0x80 0 Sha1.start (Sha1.lengthField m) m := by
  have hfield := h.lengthField
  have hlen := length_lengthField m
  have hindex := h.index
  have hblock := h.block
  have hshort : (Sha1.progress m).2.length < 64 := by
    rw [length_progress]
    exact Nat.mod_lt _ (Nat.succ_pos 63)
  rcases hp : Sha1.progress m with ⟨s, rest⟩
  have habsorb : Sha1.scheme.absorb (Sha1.start, []) m = (s, rest) := hp
  have hs : context.intermediateHash.map UInt32.toBitVec = s :=
    h.hash.trans (congrArg Prod.fst hp)
  rw [hp] at hindex hblock hshort
  dsimp only at hindex hblock hshort
  have hmarked : ∀ limit, (sha1MarkUpTo limit context).messageBlock.StartsWith
      (rest ++ 0x80 :: List.replicate (limit - (rest.length + 1)) 0) := fun limit => by
    rw [sha1MarkUpTo_eq, hindex]
    exact hblock.store _
  have hcount : ∀ limit, rest.length < limit →
      (rest ++ (0x80 : Byte) :: List.replicate (limit - (rest.length + 1)) 0).length = limit := by
    intro limit hlt
    rw [List.length_append, List.length_cons, List.length_replicate]
    omega
  rw [sha1PadMessage_eq, hindex]
  by_cases hfits : rest.length > 55
  · -- the block that has been begun is filled up, and the length goes into one more
    have hslice : (sha1MarkUpTo 64 context).messageBlock.slice 0 64 =
        rest ++ 0x80 :: List.replicate (64 - (rest.length + 1)) 0 := by
      have hstart := hmarked 64
      rw [Buffer.StartsWith, hcount 64 hshort] at hstart
      exact hstart
    have hfirst : (sha1ProcessMessageBlock (sha1MarkUpTo 64 context)).intermediateHash.map
          UInt32.toBitVec =
        Sha1.compress s (rest ++ 0x80 :: List.replicate (64 - (rest.length + 1)) 0) := by
      rw [sha1ProcessMessageBlock_spec, hslice, sha1MarkUpTo_eq, hs]
    have hzeros : (sha1ZerosUpTo 56 (sha1ProcessMessageBlock
        (sha1MarkUpTo 64 context))).messageBlock.StartsWith (List.replicate 56 0) := by
      rw [sha1ZerosUpTo, sha1AppendZeros_eq]
      exact Buffer.startsWith_store _ _
    rw [if_pos hfits, Sha1.scheme.hash_of_not_fits habsorb (by rw [hlen]; decide)
      (by rw [hlen, Sha1.scheme_size]; omega), hlen, Sha1.scheme_size, Sha1.scheme_compress]
    refine sha1LastBlock_spec ?_ hzeros List.length_replicate ?_
    · rw [sha1ZerosUpTo, sha1AppendZeros_eq, hfirst]
    · rw [sha1ZerosUpTo, sha1AppendZeros_eq, lengthHigh_processMessageBlock,
        lengthLow_processMessageBlock, sha1MarkUpTo_eq, hfield]
  · have hroom : 64 - (rest.length + 1 + 8) = 56 - (rest.length + 1) := by omega
    have hcut : ∀ zeros : List Byte, rest ++ 0x80 :: (zeros ++ Sha1.lengthField m) =
        (rest ++ 0x80 :: zeros) ++ Sha1.lengthField m := fun zeros => by
      rw [List.append_assoc, List.cons_append]
    rw [if_neg hfits, Sha1.scheme.hash_of_fits habsorb (by rw [hlen]; decide)
      (by rw [hlen, Sha1.scheme_size]; omega), hlen, Sha1.scheme_size, Sha1.scheme_compress,
      hroom, hcut]
    refine sha1LastBlock_spec ?_ (hmarked 56) (hcount 56 (by omega)) ?_
    · rw [sha1MarkUpTo_eq, hs]
    · rw [sha1MarkUpTo_eq, hfield]

/-- The digest is the words, each with its highest byte first. -/
theorem sha1MessageDigest_eq (hash : Sha1Words UInt32) :
    sha1MessageDigest hash =
      sha1WordBytes hash.a ++ sha1WordBytes hash.b ++ sha1WordBytes hash.c ++
        sha1WordBytes hash.d ++ sha1WordBytes hash.e := by
  have hshift : ∀ w : UInt32, w >>> (8 * (3 - UInt32.ofNat 3)) = w := fun w => by
    apply UInt32.toBitVec_inj.mp
    simp
  rw [sha1MessageDigest, show List.range sha1HashSize =
    [0, 1, 2, 3, 4, 5, 6, 7, 8, 9, 10, 11, 12, 13, 14, 15, 16, 17, 18, 19] by decide]
  simp only [List.map_cons, List.map_nil, Nat.reduceDiv, Nat.reduceMod, Sha1Words.get, hshift]
  rfl

/-- **Asking for the digest.** -/
theorem Sha1Absorbing.messageDigest {context : Sha1Context} {m : List Byte}
    (h : Sha1Absorbing context m) :
    sha1MessageDigest (sha1PadMessage context).intermediateHash = Sha1.digest m := by
  have hword : ∀ w : UInt32, sha1WordBytes w = Sha1.wordBytes w.toBitVec := sha1WordBytes_eq
  rw [sha1MessageDigest_eq, Sha1.digest, ← h.padMessage]
  simp only [hword, Sha1Words.map]

/-! ## Every sequence of calls -/

/-- A piece that is not empty, and its phase. -/
theorem Sha1Absorbing.input {context : Sha1Context} {m : List Byte}
    (h : Sha1Absorbing context m) (x : Byte) (xs : List Byte) :
    (sha1Input (x :: xs) context).1 = shaSuccess ∧
      Sha1Represents (sha1Input (x :: xs) context).2
        (if m.length + (x :: xs).length < 2 ^ 61 then .absorbing (m ++ x :: xs)
          else .failed 1) := by
  have hbound : m.length < 2 ^ 61 := by
    have hhigh := context.lengthHigh.toNat_lt
    have hlow := context.lengthLow.toNat_lt
    have hlength := h.length
    omega
  obtain ⟨hfits, hover⟩ := h.inputLoop (x :: xs)
  rw [sha1Input, if_neg (List.cons_ne_nil x xs), if_neg (by rw [h.computed]; decide),
    if_neg (not_not.mpr h.corrupted)]
  refine ⟨rfl, ?_⟩
  split_ifs with hlt
  · exact hfits hlt
  · obtain ⟨hbad, hcomputed⟩ := hover hbound hlt
    exact ⟨hbad, by decide, fun hc => absurd (hc.symm.trans hcomputed) (by decide)⟩

/-- **One call of the code is one step of the phases.** -/
theorem sha1Call_refines {context : Sha1Context} {phase : Sha1Phase}
    (h : Sha1Represents context phase) (call : Sha1Call) :
    (call.run context).1 = (Sha1Phase.step call phase).1 ∧
      Sha1Represents (call.run context).2 (Sha1Phase.step call phase).2 := by
  cases call with
  | reset => exact ⟨rfl, sha1Absorbing_reset context⟩
  | input messageArray =>
    cases messageArray with
    | nil => exact ⟨rfl, h⟩
    | cons x xs =>
      cases phase with
      | absorbing m =>
        obtain ⟨hcode, hnext⟩ := Sha1Absorbing.input h x xs
        exact ⟨congrArg (·, none) hcode, hnext⟩
      | finished m =>
        obtain ⟨hcomputed, -, -⟩ := h
        rw [Sha1Call.run, sha1Input, if_neg (List.cons_ne_nil x xs), if_pos hcomputed]
        exact ⟨rfl, rfl, by decide, fun _ => rfl⟩
      | failed code =>
        obtain ⟨rfl, hcode, hcomputed⟩ := h
        rw [Sha1Call.run, sha1Input, if_neg (List.cons_ne_nil x xs)]
        by_cases hc : context.computed = true
        · rw [if_pos hc]
          have hstate := hcomputed hc
          refine ⟨congrArg (·, none) hstate.symm, hstate.symm, hcode, fun _ => hstate⟩
        · rw [if_neg hc, if_pos hcode]
          exact ⟨rfl, rfl, hcode, hcomputed⟩
  | result =>
    cases phase with
    | absorbing m =>
      have h : Sha1Absorbing context m := h
      have hdigest := h.messageDigest
      rw [Sha1Call.run, sha1Result, if_neg (not_not.mpr h.corrupted),
        if_neg (by rw [h.computed]; decide)]
      refine ⟨congrArg (fun digest => (shaSuccess, some digest)) hdigest, rfl, ?_, hdigest⟩
      rw [sha1PadMessage_eq, sha1LastBlock, corrupted_processMessageBlock]
      split_ifs
      · rw [sha1ZerosUpTo, sha1AppendZeros_eq, corrupted_processMessageBlock, sha1MarkUpTo_eq]
        exact h.corrupted
      · rw [sha1MarkUpTo_eq]
        exact h.corrupted
    | finished m =>
      obtain ⟨hcomputed, hcorrupted, hdigest⟩ := h
      rw [Sha1Call.run, sha1Result, if_neg (not_not.mpr hcorrupted), if_pos hcomputed]
      exact ⟨congrArg (fun digest => (shaSuccess, some digest)) hdigest, hcomputed, hcorrupted,
        hdigest⟩
    | failed code =>
      obtain ⟨rfl, hcode, hcomputed⟩ := h
      rw [Sha1Call.run, sha1Result, if_pos hcode]
      exact ⟨rfl, rfl, hcode, hcomputed⟩

theorem sha1Run_answers {context : Sha1Context} {phase : Sha1Phase}
    (h : Sha1Represents context phase) (calls : List Sha1Call) :
    (sha1Run calls context).1 = Sha1Phase.answers calls phase := by
  induction calls generalizing context phase with
  | nil => rfl
  | cons call calls ih =>
    obtain ⟨hanswer, hnext⟩ := sha1Call_refines h call
    rw [sha1Run, Sha1Phase.answers, ← hanswer, ← ih hnext]

/-- **From its reset on a context answers every sequence of calls as the phases do**,
whatever its memory held before. -/
theorem sha1_refines (context : Sha1Context) (calls : List Sha1Call) :
    (sha1Run calls (sha1Reset context).2).1 = Sha1Phase.answers calls (.absorbing []) :=
  @sha1Run_answers _ (.absorbing []) (sha1Absorbing_reset context) calls

/-! ## The block of 64 bytes -/

/-- The index is one of the block, and nothing was written behind the block. -/
structure Sha1Inside (context : Sha1Context) : Prop where
  index : context.messageBlockIndex < 64
  block : context.messageBlock.Within 64

theorem Sha1Inside.processed {context : Sha1Context} (h : context.messageBlock.Within 64) :
    Sha1Inside (sha1ProcessMessageBlock context) :=
  ⟨by rw [messageBlockIndex_processMessageBlock]; decide,
    by rw [messageBlock_processMessageBlock]; exact h⟩

theorem Sha1Inside.inputByte {context : Sha1Context} (h : Sha1Inside context) (x : Byte) :
    Sha1Inside (sha1InputByte context x) := by
  obtain ⟨-, hindex, hblock, -⟩ := sha1Count_spec context x
  have hlt := h.index
  have hwithin : (sha1Count context x).messageBlock.Within 64 := by
    rw [hblock]
    exact Buffer.within_put.mpr ⟨h.index, h.block⟩
  rw [sha1InputByte_eq]
  split_ifs with hfull
  · exact Sha1Inside.processed hwithin
  · exact ⟨by omega, hwithin⟩

theorem Sha1Inside.inputLoop {context : Sha1Context} (h : Sha1Inside context) (xs : List Byte) :
    Sha1Inside (sha1InputLoop xs context) := by
  induction xs generalizing context with
  | nil => exact h
  | cons x xs ih =>
    rw [sha1InputLoop]
    split_ifs
    · exact h
    · exact ih (h.inputByte x)

/-- The mark and the zeros stay inside, up to a limit in the block. -/
theorem Sha1Inside.markUpTo {context : Sha1Context} (h : Sha1Inside context) {limit : ℕ}
    (hlimit : limit ≤ 64) : (sha1MarkUpTo limit context).messageBlock.Within 64 := by
  have hlt := h.index
  rw [sha1MarkUpTo_eq]
  refine Buffer.within_store h.block ?_
  rw [List.length_cons, List.length_replicate]
  omega

theorem Sha1Inside.lastBlock {context : Sha1Context} (h : context.messageBlock.Within 64) :
    Sha1Inside (sha1LastBlock context) :=
  Sha1Inside.processed (Buffer.within_store h (by
    rw [List.length_append, sha1WordBytes, sha1WordBytes]
    exact le_rfl))

theorem Sha1Inside.padMessage {context : Sha1Context} (h : Sha1Inside context) :
    Sha1Inside (sha1PadMessage context) := by
  rw [sha1PadMessage_eq]
  refine Sha1Inside.lastBlock ?_
  split_ifs
  · rw [sha1ZerosUpTo, sha1AppendZeros_eq, messageBlockIndex_processMessageBlock,
      messageBlock_processMessageBlock]
    exact Buffer.within_store (h.markUpTo le_rfl) (by rw [List.length_replicate]; omega)
  · exact h.markUpTo (by omega)

theorem Sha1Inside.run {context : Sha1Context} (h : Sha1Inside context) (call : Sha1Call) :
    Sha1Inside (call.run context).2 := by
  cases call with
  | reset => exact ⟨Nat.succ_pos 63, h.block⟩
  | input messageArray =>
    rw [Sha1Call.run, sha1Input]
    split_ifs
    · exact h
    · exact ⟨h.index, h.block⟩
    · exact h
    · exact h.inputLoop messageArray
  | result =>
    rw [Sha1Call.run, sha1Result]
    split_ifs
    · exact h
    · exact h
    · exact ⟨h.padMessage.index, Buffer.within_store h.padMessage.block (by
        rw [List.length_replicate])⟩

theorem Sha1Inside.runAll {context : Sha1Context} (h : Sha1Inside context)
    (calls : List Sha1Call) : Sha1Inside (sha1Run calls context).2 := by
  induction calls generalizing context with
  | nil => exact h
  | cons call calls ih =>
    rw [sha1Run]
    exact ih (h.run call)

/-- **No sequence of calls writes outside the block**, not with a message that is too long
and not with one that goes on after the digest was asked for. -/
theorem sha1_staysInside (context : Sha1Context) (cells : ℕ → Byte) (calls : List Sha1Call) :
    Sha1Inside (sha1Run calls
      (sha1Reset { context with messageBlock := Buffer.fresh cells }).2).2 :=
  Sha1Inside.runAll ⟨Nat.succ_pos 63, Buffer.within_fresh cells 64⟩ calls

end Ducq
