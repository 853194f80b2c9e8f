import Ducq.Ws.Capacity

/-!
# Frames on the wire

A `WsFrame` is what a frame says: its first byte, its mask if it has one, and its
payload.  `WsFrame.bytes` is how it stands on the wire, with the length in the shortest
of its three forms and the payload masked.

`wsSend` builds a header in memory that another frame has used before.  What it sends
is the bytes of a frame all the same (`wsSend_frame`): the setters leave the first bytes
of the memory right whatever stood there, and a mask bit that was left over is cleared
again.  `wsRecv_wire` is the other direction, for any header at all: it says which
payload the caller finds, and the mask it was unmasked with is the one that stands in
the endpoint's memory, not one that the frame has brought.
-/

namespace Ducq

open CMemory CNumber ByteStream

/-! ## Masks -/

/-- A payload with a mask laid over it, four bytes at a time. -/
def masked (mask : WsMask) (p : List Byte) : List Byte :=
  p.mapIdx fun i x => x ^^^ mask.bytes.getD (i % 4) 0

@[simp] theorem length_masked (mask : WsMask) (p : List Byte) :
    (masked mask p).length = p.length := List.length_mapIdx

/-- **Masking twice is not masking.** -/
@[simp] theorem masked_masked (mask : WsMask) (p : List Byte) :
    masked mask (masked mask p) = p := by
  refine List.ext_getElem (by simp) fun i hi hi' => ?_
  simp only [masked, List.getElem_mapIdx]
  rw [UInt8.xor_assoc, UInt8.xor_self, UInt8.xor_zero]

/-- What the loop leaves at each index. -/
theorem cells_wsMaskMessage (mask : WsMask) (buf : ℕ) (b : Buffer) (len j : ℕ) :
    (wsMaskMessage mask buf b len).cells j =
      if buf ≤ j ∧ j < buf + len then b.cells j ^^^ mask.bytes.getD ((j - buf) % 4) 0
      else b.cells j := by
  induction len with
  | zero => rw [wsMaskMessage, if_neg (by omega)]
  | succ len ih =>
    have hself : (wsMaskMessage mask buf b (len + 1)).cells j =
        if j = buf + len then
          (wsMaskMessage mask buf b len).cells (buf + len) ^^^ mask.bytes.getD (len % 4) 0
        else (wsMaskMessage mask buf b len).cells j := rfl
    rw [hself]
    by_cases hj : j = buf + len
    · subst hj
      rw [if_pos rfl, ih, if_neg (by omega), if_pos (by omega), Nat.add_sub_cancel_left]
    · rw [if_neg hj, ih]
      refine if_congr ?_ rfl rfl
      omega

/-- **The loop lays the mask over the bytes it is given.** -/
theorem slice_wsMaskMessage (mask : WsMask) (buf : ℕ) (b : Buffer) (len : ℕ) :
    (wsMaskMessage mask buf b len).slice buf len = masked mask (b.slice buf len) := by
  refine List.ext_getElem (by simp) fun i hi hi' => ?_
  rw [Buffer.length_slice] at hi
  simp only [masked, Buffer.slice, List.getElem_map, List.getElem_range', List.getElem_mapIdx,
    Nat.one_mul, cells_wsMaskMessage]
  rw [if_pos (by omega), Nat.add_sub_cancel_left]

/-! ## Headers -/

/-- The length a header has in its second byte. -/
def lengthByte (len : ℕ) : Byte :=
  if len > 65535 then 127 else if len > 125 then 126 else UInt8.ofNat len

/-- The bytes of the length behind the second byte, in network order. -/
def lengthBytes (len : ℕ) : List Byte :=
  if len > 65535 then (toLittleEndian 8 len).reverse
  else if len > 125 then (toLittleEndian 2 len).reverse
  else []

theorem toLittleEndian_wsReorder (w x : ℕ) :
    toLittleEndian w (wsReorder w x) = (toLittleEndian w x).reverse := by
  have h := toLittleEndian_littleEndian (toLittleEndian w x).reverse
  rwa [List.length_reverse, length_toLittleEndian] at h

/-- The setter writes these two, and then a mask where one was left over. -/
theorem wsSetLen_eq (b : Buffer) (len : ℕ) :
    wsSetLen b len =
      if b.cells 1 &&& wsMask ≠ 0 then
        wsSetMsk ((b.put 1 (lengthByte len)).store 2 (lengthBytes len)) (wsMaskAt b)
      else (b.put 1 (lengthByte len)).store 2 (lengthBytes len) := by
  have hlen : (if len > 65535 then (b.put 1 127).store 2 (toLittleEndian 8 (wsReorder64 len))
      else if len > 125 then (b.put 1 126).store 2 (toLittleEndian 2 (wsReorder16 len))
      else b.put 1 (UInt8.ofNat len)) =
        (b.put 1 (lengthByte len)).store 2 (lengthBytes len) := by
    rw [wsReorder64, wsReorder16, toLittleEndian_wsReorder, toLittleEndian_wsReorder, lengthByte,
      lengthBytes]
    split_ifs <;> rfl
  rw [wsSetLen, hlen]

/-- What the bit operations on a second byte make of a number of seven bits. -/
theorem second_byte : ∀ n < 128,
    UInt8.ofNat n &&& wsMask = 0 ∧ UInt8.ofNat n &&& wsLen = UInt8.ofNat n ∧
      UInt8.ofNat n &&& ~~~wsMask = UInt8.ofNat n ∧
      (UInt8.ofNat n ||| wsMask) &&& wsMask ≠ 0 ∧
      (UInt8.ofNat n ||| wsMask) &&& wsLen = UInt8.ofNat n ∧
      (UInt8.ofNat n ||| wsMask) &&& ~~~wsMask = UInt8.ofNat n := by
  decide

theorem lengthByte_eq_ofNat (len : ℕ) : ∃ n < 128, lengthByte len = UInt8.ofNat n := by
  rw [lengthByte]
  split_ifs
  · exact ⟨127, by decide, rfl⟩
  · exact ⟨126, by decide, rfl⟩
  · exact ⟨len, by omega, rfl⟩

/-- A length that is its own second byte is neither of the two marks. -/
theorem ofNat_ne_marks : ∀ n < 126, UInt8.ofNat n ≠ 126 ∧ UInt8.ofNat n ≠ 127 := by
  decide

/-- The three forms of a length. -/
theorem length_cases (len : ℕ) :
    (lengthByte len = 127 ∧ lengthBytes len = (toLittleEndian 8 len).reverse ∧ 65535 < len) ∨
    (lengthByte len = 126 ∧ lengthBytes len = (toLittleEndian 2 len).reverse ∧ len ≤ 65535) ∨
    (lengthByte len ≠ 126 ∧ lengthByte len ≠ 127 ∧ lengthBytes len = [] ∧
      lengthByte len = UInt8.ofNat len ∧ len ≤ 125) := by
  rw [lengthByte, lengthBytes]
  split_ifs with h h'
  · exact Or.inl ⟨rfl, rfl, h⟩
  · exact Or.inr (Or.inl ⟨rfl, rfl, by omega⟩)
  · obtain ⟨h126, h127⟩ := ofNat_ne_marks len (by omega)
    exact Or.inr (Or.inr ⟨h126, h127, rfl, rfl, by omega⟩)

theorem length_lengthBytes (len : ℕ) :
    (lengthBytes len).length =
      if lengthByte len = 127 then 8 else if lengthByte len = 126 then 2 else 0 := by
  rcases length_cases len with ⟨h, hb, -⟩ | ⟨h, hb, -⟩ | ⟨h126, h127, hb, -⟩
  · rw [h, hb, List.length_reverse, length_toLittleEndian, if_pos rfl]
  · rw [h, hb, List.length_reverse, length_toLittleEndian, if_neg (by decide), if_pos rfl]
  · rw [hb, if_neg h127, if_neg h126, List.length_nil]

/-- The mask stands behind the length, masked or not. -/
theorem wsGetMsk_eq {hdr : Buffer} {len : ℕ} (h : hdr.cells 1 &&& wsLen = lengthByte len) :
    wsGetMsk hdr = 2 + (lengthBytes len).length := by
  rw [length_lengthBytes, wsGetMsk, h]
  split_ifs <;> rfl

theorem wsGetMsk_le (hdr : Buffer) : wsGetMsk hdr ≤ 10 := by
  rw [wsGetMsk]
  split_ifs <;> omega

/-- A mask is written where it belongs, and its bit is set, if it was not before. -/
theorem startsWith_wsSetMsk {b : Buffer} {x c : Byte} {len : ℕ}
    (hc : c = lengthByte len ∨ c = lengthByte len ||| wsMask)
    (h : b.StartsWith (x :: c :: lengthBytes len)) (mask : WsMask) :
    (wsSetMsk b mask).StartsWith
      (x :: (lengthByte len ||| wsMask) :: (lengthBytes len ++ mask.bytes)) := by
  have h1 : b.cells 1 = c := h.cells (i := 1) (by simp)
  have hput := h.put_one (lengthByte len ||| wsMask)
  obtain ⟨n, hn, hlen⟩ := lengthByte_eq_ofNat len
  have hor : c ||| wsMask = lengthByte len ||| wsMask := by
    rcases hc with rfl | rfl
    · rfl
    · rw [UInt8.or_assoc, UInt8.or_self]
  have hmsk : wsGetMsk (b.put 1 (lengthByte len ||| wsMask)) = 2 + (lengthBytes len).length :=
    wsGetMsk_eq (by
      show (lengthByte len ||| wsMask) &&& wsLen = lengthByte len
      rw [hlen]
      exact (second_byte n hn).2.2.2.2.1)
  have hstore := hput.store mask.bytes
  rw [List.length_cons, List.length_cons, Nat.add_comm, Nat.add_comm _ 1, ← Nat.add_assoc] at hstore
  rw [wsSetMsk]
  rw [h1, hor, hmsk]
  exact hstore

/-- Setting a mask leaves the room for the payload alone. -/
theorem cells_wsSetMsk {b : Buffer} {mask : WsMask} {j : ℕ} (hj : wsHeaderSize ≤ j) :
    (wsSetMsk b mask).cells j = b.cells j := by
  have hle := wsGetMsk_le (b.put 1 (b.cells 1 ||| wsMask))
  have hj14 : 14 ≤ j := hj
  rw [wsSetMsk]
  rw [Buffer.cells_store_of_ge (by rw [mask.length_eq]; omega)]
  show (if j = 1 then _ else b.cells j) = b.cells j
  rw [if_neg (by omega)]

/-- A length is written, with no mask if there was none. -/
theorem startsWith_wsSetLen_of_not_masked {b : Buffer} (h : b.cells 1 &&& wsMask = 0) (len : ℕ) :
    (wsSetLen b len).StartsWith (b.cells 0 :: lengthByte len :: lengthBytes len) := by
  rw [wsSetLen_eq, if_neg (not_not.mpr h)]
  exact (b.startsWith_two.put_one (lengthByte len)).store (lengthBytes len)

/-- A length is written, and a mask that was there goes behind it. -/
theorem startsWith_wsSetLen_of_masked {b : Buffer} (h : b.cells 1 &&& wsMask ≠ 0) (len : ℕ) :
    (wsSetLen b len).StartsWith
      (b.cells 0 :: (lengthByte len ||| wsMask) :: (lengthBytes len ++ (wsMaskAt b).bytes)) := by
  rw [wsSetLen_eq, if_pos h]
  exact startsWith_wsSetMsk (Or.inl rfl)
    ((b.startsWith_two.put_one (lengthByte len)).store (lengthBytes len)) (wsMaskAt b)

/-- **What `ws_send` makes of a header**, whatever the memory held before. -/
theorem startsWith_wsSetLen (b : Buffer) (len : ℕ) :
    ((wsSetLen b len).put 1 ((wsSetLen b len).cells 1 &&& ~~~wsMask)).StartsWith
      (b.cells 0 :: lengthByte len :: lengthBytes len) := by
  obtain ⟨n, hn, hlen⟩ := lengthByte_eq_ofNat len
  obtain ⟨-, -, hclear, -, -, hclear'⟩ := second_byte n hn
  rw [← hlen] at hclear hclear'
  by_cases hm : b.cells 1 &&& wsMask = 0
  · have hset := startsWith_wsSetLen_of_not_masked hm len
    rw [hset.cells (i := 1) (by simp)]
    show Buffer.StartsWith (Buffer.put _ 1 (lengthByte len &&& ~~~wsMask)) _
    rw [hclear]
    exact hset.put_one (lengthByte len)
  · -- the bit of the mask that was left over is cleared
    have hset := startsWith_wsSetLen_of_masked hm len
    rw [hset.cells (i := 1) (by simp)]
    show Buffer.StartsWith (Buffer.put _ 1 ((lengthByte len ||| wsMask) &&& ~~~wsMask)) _
    rw [hclear']
    have happend : Buffer.StartsWith _ ((b.cells 0 :: lengthByte len :: lengthBytes len) ++
        (wsMaskAt b).bytes) := hset.put_one (lengthByte len)
    exact happend.of_append

/-! ## Frames -/

/-- What a frame says. -/
structure WsFrame where
  opening : Byte
  mask : Option WsMask
  payload : List Byte

namespace WsFrame

/-- The length, with the bit that announces a mask. -/
def secondByte (f : WsFrame) : Byte :=
  match f.mask with
  | none => lengthByte f.payload.length
  | some _ => lengthByte f.payload.length ||| wsMask

/-- The header as it stands on the wire. -/
def header (f : WsFrame) : List Byte :=
  match f.mask with
  | none => f.opening :: f.secondByte :: lengthBytes f.payload.length
  | some mask => f.opening :: f.secondByte :: (lengthBytes f.payload.length ++ mask.bytes)

/-- The payload as it stands on the wire. -/
def body (f : WsFrame) : List Byte :=
  match f.mask with
  | none => f.payload
  | some mask => masked mask f.payload

/-- The frame as it stands on the wire. -/
def bytes (f : WsFrame) : List Byte := f.header ++ f.body

/-- A stream of frames. -/
def stream (fs : List WsFrame) : List Byte := (fs.map bytes).flatten

@[simp] theorem stream_nil : stream [] = [] := rfl

@[simp] theorem stream_cons (f : WsFrame) (fs : List WsFrame) :
    stream (f :: fs) = f.bytes ++ stream fs := by
  rw [stream, List.map_cons, List.flatten_cons, stream]

theorem stream_append (fs gs : List WsFrame) : stream (fs ++ gs) = stream fs ++ stream gs := by
  rw [stream, List.map_append, List.flatten_append, stream, stream]

@[simp] theorem length_body (f : WsFrame) : f.body.length = f.payload.length := by
  rw [body]
  split
  · rfl
  · exact length_masked _ _

theorem getD_one_header (f : WsFrame) : f.header.getD 1 0 = f.secondByte := by
  rw [header]
  split <;> rfl

theorem two_le_length_header (f : WsFrame) : 2 ≤ f.header.length := by
  rw [header]
  split <;> simp

/-- The second byte says the length, and whether a mask follows. -/
theorem secondByte_and (f : WsFrame) :
    f.secondByte &&& wsLen = lengthByte f.payload.length ∧
      (f.secondByte &&& wsMask ≠ 0 ↔ f.mask ≠ none) := by
  obtain ⟨n, hn, hlen⟩ := lengthByte_eq_ofNat f.payload.length
  obtain ⟨hclear, hbits, -, hset, hbits', -⟩ := second_byte n hn
  rw [← hlen] at hclear hbits hset hbits'
  rw [secondByte]
  cases f.mask with
  | none => exact ⟨hbits, by simpa using hclear⟩
  | some mask => exact ⟨hbits', by simpa using hset⟩

/-- **The header is as long as its second byte says.** -/
theorem length_header (f : WsFrame) : f.header.length = headerLength (f.header.getD 1 0) := by
  obtain ⟨hbits, hmask⟩ := f.secondByte_and
  have h126 : lengthByte f.payload.length = 127 → lengthByte f.payload.length ≠ 126 := by
    intro h
    rw [h]
    decide
  rw [getD_one_header, headerLength, hbits]
  cases hf : f.mask with
  | none =>
    rw [hf] at hmask
    rw [if_neg (by simpa using hmask), header, hf, List.length_cons, List.length_cons,
      length_lengthBytes]
    split_ifs with h127 h126' <;> first | rfl | exact absurd h126' (h126 h127)
  | some mask =>
    rw [hf] at hmask
    rw [if_pos (by simpa using hmask), header, hf, List.length_cons, List.length_cons,
      List.length_append, length_lengthBytes, mask.length_eq]
    split_ifs with h127 h126' <;> first | rfl | exact absurd h126' (h126 h127)

/-- **The header announces the payload.** -/
theorem wireLength_header (f : WsFrame) (hlen : f.payload.length < 2 ^ 64) :
    wireLength f.header = f.payload.length := by
  have hdrop : ∀ w, (lengthBytes f.payload.length).length = w →
      (f.header.drop 2).take w = lengthBytes f.payload.length := by
    rintro w rfl
    rw [header]
    split
    · exact List.take_length
    · exact List.take_left
  rw [wireLength, getD_one_header, f.secondByte_and.1]
  rcases length_cases f.payload.length with ⟨h, hb, -⟩ | ⟨h, hb, hle⟩ | ⟨h126, h127, -, h, hle⟩
  · rw [hdrop 8 (by rw [hb, List.length_reverse, length_toLittleEndian]), h, if_neg (by decide),
      if_pos rfl, hb, List.reverse_reverse, littleEndian_toLittleEndian]
    omega
  · rw [hdrop 2 (by rw [hb, List.length_reverse, length_toLittleEndian]), h, if_pos rfl, hb,
      List.reverse_reverse, littleEndian_toLittleEndian]
    omega
  · rw [if_neg h126, if_neg h127, h, UInt8.toNat_ofNat']
    omega

end WsFrame

/-! ## Sending -/

/-- The two writes of a frame whose header stands at the start of the memory. -/
theorem writen_frame {hdr : Buffer} {f : WsFrame} {fd : Socket} (hf : hdr.StartsWith f.header)
    (hw : Writable fd.wx) :
    ∃ fd₁ fd₂, writen (hdr.slice 0 (wsGetHdrLen hdr)) fd = ((wsGetHdrLen hdr : ℤ), fd₁) ∧
      writen f.body fd₁ = ((f.payload.length : ℤ), fd₂) ∧
      fd₂.rx = fd.rx ∧ fd₂.tx = fd.tx ++ f.bytes := by
  have hlen : wsGetHdrLen hdr = f.header.length := by
    rw [wsGetHdrLen, hf.cells (Nat.lt_of_succ_le f.two_le_length_header), f.length_header]
  have hslice : hdr.slice 0 f.header.length = f.header := hf
  obtain ⟨fd₁, h1, h2, h3, h4⟩ := writen_of_writable f.header hw
  obtain ⟨fd₂, h5, h6, -, h7⟩ := writen_of_writable f.body h3
  refine ⟨fd₁, fd₂, by rw [hlen, hslice, h1], by rw [h5, f.length_body], h7.trans h4, ?_⟩
  rw [h6, h2, WsFrame.bytes, List.append_assoc]

/-- **`ws_send` writes one frame**: the first byte is the one that stands in the memory,
and a client's is masked. -/
theorem wsSend_frame {mask : WsMask} {payload : List Byte} {ws : DucqWs}
    (hlen : ws.isClient = true → payload.length ≤ ducqMsgsz) (hw : Writable ws.fd.wx) :
    ∃ ws', wsSend mask payload ws = (.ok, ws') ∧ ws'.isClient = ws.isClient ∧
      ws'.fd.rx = ws.fd.rx ∧
      ws'.fd.tx = ws.fd.tx ++
        (WsFrame.mk (ws.buf.cells 0) (if ws.isClient then some mask else none) payload).bytes := by
  set hdr := (wsSetLen ws.buf payload.length).put 1
    ((wsSetLen ws.buf payload.length).cells 1 &&& ~~~wsMask) with hhdr
  have hstart : hdr.StartsWith (ws.buf.cells 0 :: lengthByte payload.length ::
      lengthBytes payload.length) := startsWith_wsSetLen ws.buf payload.length
  have hshort : (lengthBytes payload.length).length ≤ 8 := by
    rw [length_lengthBytes]
    split_ifs <;> omega
  cases hc : ws.isClient with
  | false =>
    obtain ⟨fd₁, fd₂, h1, h2, h3, h4⟩ :=
      @writen_frame hdr ⟨ws.buf.cells 0, none, payload⟩ ws.fd hstart hw
    refine ⟨{ ws with fd := fd₂, buf := hdr }, ?_, hc, h3, h4⟩
    have hbody : (WsFrame.mk (ws.buf.cells 0) none payload).body = payload := rfl
    rw [hbody] at h2
    simp only [wsSend, ← hhdr, hc, Bool.false_eq_true, false_and, if_false, h1, h2, ne_eq,
      not_true_eq_false]
  | true =>
    -- the payload is copied behind the header, and masked there
    have hcopy := hstart.store_of_le (i := wsHeaderSize)
      (by rw [List.length_cons, List.length_cons]; show _ ≤ 14; omega) payload
    have hmask := startsWith_wsSetMsk (Or.inl rfl) hcopy mask
    set hdr' := wsMaskMessage mask wsHeaderSize
      (wsSetMsk (hdr.store wsHeaderSize payload) mask) payload.length with hhdr'
    have hstart' : hdr'.StartsWith
        (WsFrame.mk (ws.buf.cells 0) (some mask) payload).header := by
      refine hmask.congr fun i hi => ?_
      have hi14 : i < 14 := by
        rw [List.length_cons, List.length_cons, List.length_append, mask.length_eq] at hi
        omega
      rw [hhdr', cells_wsMaskMessage, if_neg (by show ¬ (14 ≤ i ∧ _); omega)]
    have hbody : hdr'.slice wsHeaderSize payload.length =
        (WsFrame.mk (ws.buf.cells 0) (some mask) payload).body := by
      have hslice : (wsSetMsk (hdr.store wsHeaderSize payload) mask).slice wsHeaderSize
          payload.length = payload :=
        (Buffer.slice_congr fun j hj _ => cells_wsSetMsk hj).trans
          (Buffer.slice_store hdr wsHeaderSize payload)
      rw [hhdr', slice_wsMaskMessage, hslice]
      rfl
    obtain ⟨fd₁, fd₂, h1, h2, h3, h4⟩ := writen_frame hstart' hw
    refine ⟨{ ws with fd := fd₂, buf := hdr' }, ?_, hc, h3, h4⟩
    have hle : ¬ payload.length > ducqMsgsz := not_lt.mpr (hlen hc)
    rw [← hbody] at h2
    simp only [wsSend, ← hhdr, ← hhdr', hc, hle, and_false, if_false, if_true, h1, h2, ne_eq,
      Buffer.length_slice, not_true_eq_false]

/-! ## Receiving -/

/-- A payload that arrives is read, unmasked by a server, and terminated. -/
theorem wsRecvPayload_arrives {mask : WsMask} {ws : DucqWs} {b : Buffer} {body c : List Byte}
    (hclean : clean ws.fd.rx = body ++ c) (hlen : body.length < 2 ^ 64) :
    ∃ fd b', wsRecvPayload mask body.length ws b =
        ((wsRecvOpcode mask body.length { ws with fd := fd } b').1, body.length,
          (wsRecvOpcode mask body.length { ws with fd := fd } b').2, b') ∧
      fd.rx = advance ws.fd.rx body.length ∧ SameWrites ws.fd fd ∧
      b'.slice 0 (body.length + 1) =
        (if ws.isClient then body else masked (wsMaskAt ws.buf) body) ++ [0] := by
  obtain ⟨fd, h1, h2, h3⟩ := @readn_of_le body.length 0 ws.fd b
    (by rw [hclean, List.length_append]; omega)
  rw [hclean, List.take_left] at h1
  set p := if ws.isClient then body else masked (wsMaskAt ws.buf) body with hp
  set b₁ := if ws.isClient then b.store 0 body
    else wsMaskMessage (wsMaskAt ws.buf) 0 (b.store 0 body) body.length with hb₁
  have hslice : b₁.slice 0 body.length = p := by
    rw [hb₁, hp]
    split_ifs
    · exact Buffer.slice_store b 0 body
    · rw [slice_wsMaskMessage, Buffer.slice_store]
  have hplen : p.length = body.length := by rw [← hslice, Buffer.length_slice]
  have hend : (b₁.put body.length 0).slice 0 (body.length + 1) = p ++ [0] := by
    have hstart : b₁.StartsWith p := by
      rw [Buffer.StartsWith, hplen, hslice]
    have hput := hstart.store [0]
    rw [hplen] at hput
    rw [Buffer.StartsWith, List.length_append, List.length_singleton, hplen] at hput
    exact hput
  refine ⟨fd, b₁.put body.length 0, ?_, h2, h3, hend⟩
  rw [wsRecvPayload, h1]
  simp only [toSizeT_of_lt hlen, ne_eq, not_true_eq_false, if_false, ← hb₁]

/-- **What the caller of `_recv` finds**, for a frame of any shape that arrives and is not
refused. -/
theorem wsRecv_wire {mask : WsMask} {count : ℕ} {ws : DucqWs} {b : Buffer}
    {hs body c : List Byte} (hhs : WsHeaderArrives ws.fd.rx hs)
    (hclean : clean ws.fd.rx = hs ++ (body ++ c)) (hbody : body.length = wireLength hs)
    (hfits : body.length ≤ (count + 1) % 2 ^ 64) :
    ∃ fd b', wsRecv mask count ws b =
        ((wsRecvOpcode mask body.length
            { ws with fd := fd, buf := ws.buf.store 0 hs } b').1, body.length,
          (wsRecvOpcode mask body.length
            { ws with fd := fd, buf := ws.buf.store 0 hs } b').2, b') ∧
      fd.rx = advance ws.fd.rx (hs.length + body.length) ∧ SameWrites ws.fd fd ∧
      b'.slice 0 (body.length + 1) =
        (if ws.isClient then body else masked (wsMaskAt (ws.buf.store 0 hs)) body) ++ [0] := by
  obtain ⟨fd₁, h1, h2, hw₁⟩ := wsRecvHeader_of_arrives hhs
  have hclean₁ : clean fd₁.rx = body ++ c := by
    rw [h2, clean_advance (by rw [hclean, List.length_append]; omega), hclean, List.drop_left]
  obtain ⟨fd₂, b', h3, h4, hw₂, h5⟩ := @wsRecvPayload_arrives mask
    { ws with fd := fd₁, buf := ws.buf.store 0 hs } b body c hclean₁ (by omega)
  refine ⟨fd₂, b', ?_, ?_, hw₁.trans hw₂, h5⟩
  · rw [wsRecv, h1]
    simp only [wsGetLen_store ws.buf hhs.2.2.ge, ← hbody]
    rw [if_neg (by omega), h3]
  · rw [h4, h2]
    rcases Nat.eq_zero_or_pos body.length with h0 | hpos
    · rw [h0, advance_zero, Nat.add_zero]
    · rw [advance_advance hpos]

theorem wsHeaderArrives_header {rx : List Arrival} {f : WsFrame} {c : List Byte}
    (hclean : clean rx = f.bytes ++ c) : WsHeaderArrives rx f.header := by
  refine ⟨⟨f.body ++ c, ?_⟩, f.two_le_length_header, f.length_header⟩
  rw [hclean, WsFrame.bytes, List.append_assoc]

/-- Once a masked header is in the memory, its mask is the one that stands there. -/
theorem wsMaskAt_store_header (b : Buffer) {f : WsFrame} {mask : WsMask}
    (hf : f.mask = some mask) : wsMaskAt (b.store 0 f.header) = mask := by
  have hheader : f.header =
      (f.opening :: f.secondByte :: lengthBytes f.payload.length) ++ mask.bytes := by
    rw [WsFrame.header, hf]
    rfl
  have h1 : (b.store 0 f.header).cells 1 = f.secondByte := by
    rw [(b.startsWith_store f.header).cells (Nat.lt_of_succ_le f.two_le_length_header),
      f.getD_one_header]
  have hmsk : wsGetMsk (b.store 0 f.header) = 2 + (lengthBytes f.payload.length).length :=
    wsGetMsk_eq (by rw [h1]; exact f.secondByte_and.1)
  have hdrop : f.header.drop (2 + (lengthBytes f.payload.length).length) = mask.bytes := by
    rw [hheader]
    refine List.drop_left' ?_
    rw [List.length_cons, List.length_cons]
    omega
  have hlen : f.header.length = 2 + (lengthBytes f.payload.length).length + 4 := by
    rw [hheader, List.length_append, mask.length_eq, List.length_cons, List.length_cons]
    omega
  refine CharArray.ext ?_
  show (b.store 0 f.header).slice (wsGetMsk (b.store 0 f.header)) 4 = mask.bytes
  rw [hmsk, Buffer.slice_store_drop b hlen.ge, hdrop]
  exact List.take_of_length_le mask.length_eq.le

/-- **A frame from the other role is received with the payload that was sent**, whatever the
endpoint's memory held before. -/
theorem wsRecv_frame {mask : WsMask} {count : ℕ} {ws : DucqWs} {b : Buffer} {f : WsFrame}
    {c : List Byte} (hclean : clean ws.fd.rx = f.bytes ++ c)
    (hrole : ws.isClient = true ↔ f.mask = none)
    (hfits : f.payload.length ≤ (count + 1) % 2 ^ 64) :
    ∃ fd b', wsRecv mask count ws b =
        ((wsRecvOpcode mask f.payload.length
            { ws with fd := fd, buf := ws.buf.store 0 f.header } b').1, f.payload.length,
          (wsRecvOpcode mask f.payload.length
            { ws with fd := fd, buf := ws.buf.store 0 f.header } b').2, b') ∧
      fd.rx = advance ws.fd.rx f.bytes.length ∧ SameWrites ws.fd fd ∧
      b'.slice 0 (f.payload.length + 1) = f.payload ++ [0] := by
  have hclean' : clean ws.fd.rx = f.header ++ (f.body ++ c) := by
    rw [hclean, WsFrame.bytes, List.append_assoc]
  obtain ⟨fd, b', h1, h2, h3, h4⟩ := @wsRecv_wire mask count ws b f.header f.body c
    (wsHeaderArrives_header hclean) hclean'
    (by rw [f.length_body, f.wireLength_header (by omega)])
    (by rw [f.length_body]; exact hfits)
  rw [f.length_body] at h1 h2 h4
  refine ⟨fd, b', h1, ?_, h3, ?_⟩
  · rw [h2, WsFrame.bytes, List.length_append, f.length_body]
  · rw [h4]
    congr 1
    cases hf : f.mask with
    | none => rw [if_pos (hrole.mpr hf), WsFrame.body, hf]
    | some m =>
      rw [if_neg (by rw [hrole, hf]; exact Option.some_ne_none m),
        wsMaskAt_store_header ws.buf hf, WsFrame.body, hf]
      exact masked_masked m f.payload

end Ducq
