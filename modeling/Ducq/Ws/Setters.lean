import Ducq.Ws.Frame

/-!
# The setters of a header

A length and a mask are set one after the other, and where the mask stands depends on the
length.  So `ws_set_len` takes the mask up before it writes and puts it down again behind
what it has written, and `ws_set_msk` looks at the length that is there.  Whatever the
memory held, each setter leaves what its getter reads, and what the other getter reads is
unchanged; and set in either order the two leave the same header, which is the shortest
one there is (`wsSetters_spec`).
-/

namespace Ducq

open CMemory CNumber

/-- A number of `w` bytes in network order. -/
def networkOrder (w n : ℕ) : List Byte := (toLittleEndian w n).reverse

/-- The header of a masked frame, as the protocol wants it: the length in seven bits, or
in two bytes behind a 126, or in eight behind a 127, the first of these that holds it;
then the mask. -/
def shortestHeader (first : Byte) (len : ℕ) (mask : WsMask) : List Byte :=
  if len ≤ 125 then first :: UInt8.ofNat (128 + len) :: mask.bytes
  else if len ≤ 65535 then
    first :: UInt8.ofNat (128 + 126) :: (networkOrder 2 len ++ mask.bytes)
  else first :: UInt8.ofNat (128 + 127) :: (networkOrder 8 len ++ mask.bytes)

/-- The bytes of a header, as many as it says it has. -/
def headerBytes (hdr : Buffer) : List Byte := hdr.slice 0 (wsGetHdrLen hdr)

/-- The mask of a header, if its bit is set. -/
def wsMaskSet (hdr : Buffer) : Option WsMask :=
  if hdr.cells 1 &&& wsMask ≠ 0 then some (wsMaskAt hdr) else none

/-! ## What stands in the memory -/

/-- A frame of a length with a header to look at. -/
def frameOf (first : Byte) (mask : Option WsMask) (len : ℕ) : WsFrame :=
  ⟨first, mask, List.replicate len 0⟩

theorem length_payload_frameOf (first : Byte) (mask : Option WsMask) (len : ℕ) :
    (frameOf first mask len).payload.length = len := List.length_replicate

theorem header_frameOf_none (first : Byte) (len : ℕ) :
    (frameOf first none len).header = first :: lengthByte len :: lengthBytes len := by
  show first :: lengthByte (List.replicate len (0 : Byte)).length ::
    lengthBytes (List.replicate len (0 : Byte)).length = _
  rw [List.length_replicate]

theorem header_frameOf_some (first : Byte) (mask : WsMask) (len : ℕ) :
    (frameOf first (some mask) len).header =
      first :: (lengthByte len ||| wsMask) :: (lengthBytes len ++ mask.bytes) := by
  show first :: (lengthByte (List.replicate len (0 : Byte)).length ||| wsMask) ::
    (lengthBytes (List.replicate len (0 : Byte)).length ++ mask.bytes) = _
  rw [List.length_replicate]

/-- The second byte of the shortest header. -/
theorem marked_second_byte : ∀ n < 128, UInt8.ofNat n ||| wsMask = UInt8.ofNat (128 + n) := by
  decide

/-- **The header of a masked frame is the shortest.** -/
theorem header_eq_shortestHeader (first : Byte) (mask : WsMask) (len : ℕ) :
    (frameOf first (some mask) len).header = shortestHeader first len mask := by
  rw [header_frameOf_some, shortestHeader]
  rcases length_cases len with ⟨h, hb, hlt⟩ | ⟨h, hb, hle⟩ | ⟨-, -, hb, h, hle⟩
  · rw [if_neg (by omega), if_neg (by omega), h, hb]
    rfl
  · have hlt : ¬ len ≤ 125 := by
      intro hle'
      rw [lengthByte, if_neg (by omega), if_neg (by omega)] at h
      exact (ofNat_ne_marks len (by omega)).1 h
    rw [if_neg hlt, if_pos hle, h, hb]
    rfl
  · rw [if_pos hle, h, hb, marked_second_byte len (by omega), List.nil_append]

/-- Memory that starts with some bytes is not changed by storing them. -/
theorem cells_store_of_startsWith {b : Buffer} {hs : List Byte} (h : b.StartsWith hs) :
    (b.store 0 hs).cells = b.cells := by
  funext i
  rcases Nat.lt_or_ge i hs.length with hlt | hge
  · have hcell := @Buffer.cells_store_of_mem b 0 i hs hlt
    rw [Nat.zero_add] at hcell
    rw [hcell, h.cells hlt]
  · exact Buffer.cells_store_of_ge (by omega)

/-- The getters read the cells and nothing else. -/
theorem getters_congr {b b' : Buffer} (h : b.cells = b'.cells) :
    wsGetLen b = wsGetLen b' ∧ wsMaskAt b = wsMaskAt b' := by
  have hslice : ∀ i n, b.slice i n = b'.slice i n :=
    fun i n => Buffer.slice_congr fun j _ _ => by rw [h]
  refine ⟨?_, CharArray.ext ?_⟩
  · simp only [wsGetLen, h, hslice]
  · show b.slice (wsGetMsk b) 4 = b'.slice (wsGetMsk b') 4
    rw [hslice]
    simp only [wsGetMsk, h]

/-- **What the getters read** where the header of a frame stands. -/
theorem getters_of_startsWith {b : Buffer} {f : WsFrame} (h : b.StartsWith f.header)
    (hlen : f.payload.length < 2 ^ 64) :
    b.cells 0 = f.opening ∧ wsGetLen b = f.payload.length ∧ wsMaskSet b = f.mask ∧
      headerBytes b = f.header := by
  have h1 : b.cells 1 = f.secondByte := by
    rw [h.cells (Nat.lt_of_succ_le f.two_le_length_header), f.getD_one_header]
  obtain ⟨hgetLen, hmaskAt⟩ := getters_congr (cells_store_of_startsWith h)
  have hbit := f.secondByte_and.2
  refine ⟨?_, ?_, ?_, ?_⟩
  · rw [h.cells (Nat.zero_lt_of_lt f.two_le_length_header), WsFrame.header]
    split <;> rfl
  · rw [← hgetLen, wsGetLen_store b f.length_header.ge, f.wireLength_header hlen]
  · rw [wsMaskSet, h1]
    cases hf : f.mask with
    | none => rw [if_neg fun hne => hbit.mp hne hf]
    | some mask =>
      rw [if_pos (hbit.mpr (by rw [hf]; exact Option.some_ne_none mask)), ← hmaskAt,
        wsMaskAt_store_header b hf]
  · have hget : wsGetHdrLen b = f.header.length := by
      rw [wsGetHdrLen, h1, f.length_header, f.getD_one_header]
    rw [headerBytes, hget]
    exact h

/-! ## The setters -/

/-- After `ws_set_len` the header of the length stands there, with the mask there was. -/
theorem wsSetLen_startsWith (h : Buffer) (len : ℕ) :
    (wsSetLen h len).StartsWith (frameOf (h.cells 0) (wsMaskSet h) len).header := by
  rw [wsMaskSet]
  split_ifs with hm
  · rw [header_frameOf_some]
    exact startsWith_wsSetLen_of_masked hm len
  · rw [header_frameOf_none]
    exact startsWith_wsSetLen_of_not_masked (not_not.mp hm) len

/-- A mask set behind a length that is there. -/
theorem wsSetMsk_startsWith {b : Buffer} {first : Byte} {old : Option WsMask} {len : ℕ}
    (h : b.StartsWith (frameOf first old len).header) (mask : WsMask) :
    (wsSetMsk b mask).StartsWith (frameOf first (some mask) len).header := by
  rw [header_frameOf_some]
  cases old with
  | none =>
    rw [header_frameOf_none] at h
    exact startsWith_wsSetMsk (Or.inl rfl) h mask
  | some m =>
    rw [header_frameOf_some] at h
    exact startsWith_wsSetMsk (Or.inr rfl) (@Buffer.StartsWith.of_append b (_ :: _ :: _) _ h) mask

/-- The bit of the mask does not change the length. -/
theorem or_wsMask (c : Byte) :
    (c ||| wsMask) &&& wsLen = c &&& wsLen ∧ (c ||| wsMask) &&& wsMask ≠ 0 := by
  revert c
  exact forall_byte (by decide +kernel)

/-- **After `ws_set_msk`** the mask is the one that was set, and nothing in front of it but
its bit has changed. -/
theorem wsSetMsk_getters (h : Buffer) (mask : WsMask) :
    wsMaskSet (wsSetMsk h mask) = some mask ∧ wsGetLen (wsSetMsk h mask) = wsGetLen h ∧
      (wsSetMsk h mask).cells 0 = h.cells 0 := by
  set p := wsGetMsk (h.put 1 (h.cells 1 ||| wsMask)) with hp
  obtain ⟨hlen, hbit⟩ := or_wsMask (h.cells 1)
  have hp1 : p = wsGetMsk h := by
    show (if (h.cells 1 ||| wsMask) &&& wsLen = 127 then 2 + 8
      else if (h.cells 1 ||| wsMask) &&& wsLen = 126 then 2 + 2 else 2) = wsGetMsk h
    rw [hlen]
    rfl
  have hset : wsSetMsk h mask = (h.put 1 (h.cells 1 ||| wsMask)).store p mask.bytes := rfl
  have hlow : ∀ i < p, (wsSetMsk h mask).cells i = if i = 1 then h.cells 1 ||| wsMask
      else h.cells i := by
    intro i hi
    rw [hset, Buffer.cells_store_of_lt hi]
    rfl
  have hp2 : 2 ≤ p := by
    rw [hp1, wsGetMsk]
    split_ifs <;> omega
  have h1 : (wsSetMsk h mask).cells 1 = h.cells 1 ||| wsMask := hlow 1 (by omega)
  have hget : wsGetMsk (wsSetMsk h mask) = p := by
    rw [hp1, wsGetMsk, h1, hlen]
    rfl
  have hslice : ∀ w, 2 + w ≤ p → (wsSetMsk h mask).slice 2 w = h.slice 2 w := by
    intro w hw
    refine Buffer.slice_congr fun j hj hj' => ?_
    rw [hlow j (by omega), if_neg (by omega)]
  refine ⟨?_, ?_, hlow 0 (by omega)⟩
  · rw [wsMaskSet, h1, if_pos hbit]
    refine congrArg some (CharArray.ext ?_)
    show (wsSetMsk h mask).slice (wsGetMsk (wsSetMsk h mask)) 4 = mask.bytes
    have hstored := Buffer.slice_store (h.put 1 (h.cells 1 ||| wsMask)) p mask.bytes
    rw [mask.length_eq] at hstored
    rw [hget, hset, hstored]
  · simp only [wsGetLen, h1, hlen]
    rw [wsGetMsk] at hp1
    by_cases h126 : h.cells 1 &&& wsLen = 126
    · have h127 : h.cells 1 &&& wsLen ≠ 127 := by
        rw [h126]
        decide
      simp only [if_neg h127, if_pos h126] at hp1
      rw [if_pos h126, if_pos h126, hslice 2 (by omega)]
    · by_cases h127 : h.cells 1 &&& wsLen = 127
      · simp only [if_pos h127] at hp1
        rw [if_neg h126, if_neg h126, if_pos h127, if_pos h127, hslice 8 (by omega)]
      · rw [if_neg h126, if_neg h126, if_neg h127, if_neg h127]

/-- The setters write inside the header. -/
theorem within_wsSetMsk {h : Buffer} (hw : h.Within wsHeaderSize) (mask : WsMask) :
    (wsSetMsk h mask).Within wsHeaderSize := by
  have hle := wsGetMsk_le (h.put 1 (h.cells 1 ||| wsMask))
  refine Buffer.within_store (Buffer.within_put.mpr ⟨by decide, hw⟩) ?_
  rw [mask.length_eq]
  show _ ≤ 14
  omega

theorem within_wsSetLen {h : Buffer} (hw : h.Within wsHeaderSize) (len : ℕ) :
    (wsSetLen h len).Within wsHeaderSize := by
  have hset : ((h.put 1 (lengthByte len)).store 2 (lengthBytes len)).Within wsHeaderSize := by
    refine Buffer.within_store (Buffer.within_put.mpr ⟨by decide, hw⟩) ?_
    rw [length_lengthBytes]
    show _ ≤ 14
    split_ifs <;> omega
  rw [wsSetLen_eq]
  split_ifs
  · exact within_wsSetMsk hset _
  · exact hset

/-- **The setters and getters of a header agree, and the setters commute.** -/
theorem wsSetters_spec (h : Buffer) (len : UInt64) (mask : WsMask) :
    (wsGetLen (wsSetLen h len.toNat) = len.toNat ∧
        (wsSetLen h len.toNat).cells 0 = h.cells 0 ∧
        wsMaskSet (wsSetLen h len.toNat) = wsMaskSet h) ∧
      (wsMaskSet (wsSetMsk h mask) = some mask ∧
        wsGetLen (wsSetMsk h mask) = wsGetLen h) ∧
      headerBytes (wsSetMsk (wsSetLen h len.toNat) mask) =
        shortestHeader (h.cells 0) len.toNat mask ∧
      headerBytes (wsSetLen (wsSetMsk h mask) len.toNat) =
        shortestHeader (h.cells 0) len.toNat mask := by
  have hpayload : ∀ old : Option WsMask,
      (frameOf (h.cells 0) old len.toNat).payload.length < 2 ^ 64 := by
    intro old
    rw [length_payload_frameOf]
    exact len.toNat_lt
  have hset := wsSetLen_startsWith h len.toNat
  obtain ⟨hfirst, hget, hmask, -⟩ := getters_of_startsWith hset (hpayload _)
  obtain ⟨hmsk, hlen, h0⟩ := wsSetMsk_getters h mask
  rw [length_payload_frameOf] at hget
  refine ⟨⟨hget, hfirst, hmask⟩, ⟨hmsk, hlen⟩, ?_, ?_⟩
  · -- the length first
    rw [(getters_of_startsWith (wsSetMsk_startsWith hset mask) (hpayload _)).2.2.2,
      header_eq_shortestHeader]
  · -- the mask first
    have hset' := wsSetLen_startsWith (wsSetMsk h mask) len.toNat
    rw [h0, hmsk] at hset'
    rw [(getters_of_startsWith hset' (hpayload _)).2.2.2, header_eq_shortestHeader]

end Ducq
