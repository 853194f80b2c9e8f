import Ducq.Lib.Number

/-!
# `inet_ws.c`: the header of a WebSocket frame

A header is at most 14 bytes of memory, and the functions here read and write it in
place.  The second byte says everything about its shape: whether a mask is present,
and whether the length is that byte's own low seven bits, or the two or the eight
bytes behind it.  Those are in network order, and the host is little-endian, so every
load and store of a length turns the word around (`wsReorder`).

`wireLength` is the length a header announces, read off its bytes as they come over
the wire; `wsGetLen_store` says that the getter computes it, whatever else the memory
holds.
-/

namespace Ducq

open CMemory CNumber

/-! ## Fields -/

/-- `WS_FIN`. -/
abbrev wsFin : Byte := 0x80

/-- `WS_OPCODE`. -/
abbrev wsOpcode : Byte := 0x0F

/-- `WS_MASK`. -/
abbrev wsMask : Byte := 0x80

/-- `WS_LEN`. -/
abbrev wsLen : Byte := 0x7F

/-- `WS_TEXT`. -/
abbrev wsText : Byte := 1

/-- `WS_CLOSE`. -/
abbrev wsClose : Byte := 8

/-- `WS_PING`. -/
abbrev wsPing : Byte := 9

/-- `WS_PONG`. -/
abbrev wsPong : Byte := 10

/-- `WS_HEADER_SIZE`. -/
abbrev wsHeaderSize : ℕ := 14

/-- `ws_mask_t`. -/
abbrev WsMask := CharArray 4

/-! ## Byte order -/

/-- A word of `w` bytes with its bytes in the other order. -/
def wsReorder (w x : ℕ) : ℕ := littleEndian (toLittleEndian w x).reverse

/-- `ws_reorder_16`. -/
def wsReorder16 (x : ℕ) : ℕ := wsReorder 2 x

/-- `ws_reorder_64`. -/
def wsReorder64 (x : ℕ) : ℕ := wsReorder 8 x

theorem wsReorder_littleEndian (bs : List Byte) :
    wsReorder bs.length (littleEndian bs) = littleEndian bs.reverse := by
  rw [wsReorder, toLittleEndian_littleEndian]

/-! ## Getters and setters -/

/-- `ws_get_msk`: the index of the mask. -/
def wsGetMsk (hdr : Buffer) : ℕ :=
  let len := hdr.cells 1 &&& wsLen
  if len = 127 then 2 + 8 else if len = 126 then 2 + 2 else 2

/-- The mask that stands there. -/
def wsMaskAt (hdr : Buffer) : WsMask := ⟨hdr.slice (wsGetMsk hdr) 4, hdr.length_slice _ _⟩

/-- `ws_set_msk`. -/
def wsSetMsk (hdr : Buffer) (mask : WsMask) : Buffer :=
  let hdr := hdr.put 1 (hdr.cells 1 ||| wsMask)
  hdr.store (wsGetMsk hdr) mask.bytes

/-- `ws_get_len`. -/
def wsGetLen (hdr : Buffer) : ℕ :=
  let len := hdr.cells 1 &&& wsLen
  if len = 126 then wsReorder16 (littleEndian (hdr.slice 2 2))
  else if len = 127 then wsReorder64 (littleEndian (hdr.slice 2 8))
  else len.toNat

/-- `ws_set_len`. -/
def wsSetLen (hdr : Buffer) (len : ℕ) : Buffer :=
  let isMasked := hdr.cells 1 &&& wsMask ≠ 0
  let mask := wsMaskAt hdr
  let hdr :=
    if len > 65535 then (hdr.put 1 127).store 2 (toLittleEndian 8 (wsReorder64 len))
    else if len > 125 then (hdr.put 1 126).store 2 (toLittleEndian 2 (wsReorder16 len))
    else hdr.put 1 (UInt8.ofNat len)
  if isMasked then wsSetMsk hdr mask else hdr

/-- What `ws_get_hdr_len` makes of the second byte. -/
def headerLength (b : Byte) : ℕ :=
  let len := if b &&& wsLen = 126 then 2 + 2 else if b &&& wsLen = 127 then 2 + 8 else 2
  if b &&& wsMask ≠ 0 then len + 4 else len

/-- `ws_get_hdr_len`. -/
def wsGetHdrLen (hdr : Buffer) : ℕ := headerLength (hdr.cells 1)

/-- `ws_mask_message(mask, buf, len)`, for `buf` an index into the memory. -/
def wsMaskMessage (mask : WsMask) (buf : ℕ) (b : Buffer) : ℕ → Buffer
  | 0 => b
  | i + 1 =>
    let b := wsMaskMessage mask buf b i
    b.put (buf + i) (b.cells (buf + i) ^^^ mask.bytes.getD (i % 4) 0)

/-! ## What a header announces -/

/-- The length in the bytes `hs` of a header: the low seven bits of the second one, or
the two or eight bytes behind it in network order. -/
def wireLength (hs : List Byte) : ℕ :=
  let len := hs.getD 1 0 &&& wsLen
  if len = 126 then littleEndian ((hs.drop 2).take 2).reverse
  else if len = 127 then littleEndian ((hs.drop 2).take 8).reverse
  else len.toNat

theorem two_le_headerLength (b : Byte) : 2 ≤ headerLength b := by
  unfold headerLength
  dsimp only
  split_ifs <;> omega

theorem le_headerLength_126 {b : Byte} (h : b &&& wsLen = 126) : 2 + 2 ≤ headerLength b := by
  unfold headerLength
  dsimp only
  rw [if_pos h]
  split_ifs <;> omega

theorem le_headerLength_127 {b : Byte} (h : b &&& wsLen = 127) : 2 + 8 ≤ headerLength b := by
  have h126 : b &&& wsLen ≠ 126 := by
    rw [h]
    decide
  unfold headerLength
  dsimp only
  rw [if_neg h126, if_pos h]
  split_ifs <;> omega

/-- **The getter computes the length the header announces.** -/
theorem wsGetLen_store (b : Buffer) {hs : List Byte} (h : headerLength (hs.getD 1 0) ≤ hs.length) :
    wsGetLen (b.store 0 hs) = wireLength hs := by
  have h2 := two_le_headerLength (hs.getD 1 0)
  have h1 : (b.store 0 hs).cells 1 = hs.getD 1 0 := by
    have hcell := @Buffer.cells_store_of_mem b 0 1 hs (by omega)
    rwa [Nat.zero_add] at hcell
  have hword : ∀ w, 2 + w ≤ hs.length → wsReorder w (littleEndian ((b.store 0 hs).slice 2 w)) =
      littleEndian ((hs.drop 2).take w).reverse := by
    intro w hw
    have hlen : ((hs.drop 2).take w).length = w := by
      rw [List.length_take, List.length_drop]
      omega
    have hreorder := wsReorder_littleEndian ((hs.drop 2).take w)
    rw [Buffer.slice_store_drop b hw]
    rwa [hlen] at hreorder
  simp only [wsGetLen, wireLength, h1, wsReorder16, wsReorder64]
  by_cases h126 : hs.getD 1 0 &&& wsLen = 126
  · rw [if_pos h126, if_pos h126, hword 2 ((le_headerLength_126 h126).trans h)]
  · by_cases h127 : hs.getD 1 0 &&& wsLen = 127
    · rw [if_neg h126, if_neg h126, if_pos h127, if_pos h127,
        hword 8 ((le_headerLength_127 h127).trans h)]
    · rw [if_neg h126, if_neg h126, if_neg h127, if_neg h127]

end Ducq
