import Ducq.Ws.Frame

/-!
# Is a frame decoded from its own bytes?

Two servers' endpoints with different pasts read the same frame.  Their memory holds
whatever earlier frames, received and sent, have left there, and a frame that has no mask
leaves the bytes where a mask would stand as they were.  `_recv` unmasks on a server
without a look at the mask bit, so these bytes go into the payload.

`decodedFromOwnBytes_iff` says that this is all: a frame is decoded alike on all
endpoints exactly if it brings a mask, or has nothing to unmask, or is refused for its
length.  The endpoints are those a server can have (`ServerState`): new ones, and what
receiving and sending makes of them, whatever arrives and however the writes end.
-/

namespace Ducq

open CMemory CNumber ByteStream

/-! ## The property -/

/-- A server's endpoint after any history of frames received and sent. -/
inductive ServerState : DucqWs → Prop
  | new (fd : Socket) (state : WsState) : ServerState { ducqNewWsConnection fd with state := state }
  | recv {ws : DucqWs} (h : ServerState ws) (mask : WsMask) (count : ℕ) (cells : ℕ → Byte)
      (rx : List Arrival) (wx : List Acceptance) :
      ServerState (wsRecv mask count (ws.over rx wx) (Buffer.fresh cells)).2.2.1
  | send {ws : DucqWs} (h : ServerState ws) (mask : WsMask) (m : List Byte)
      (rx : List Arrival) (wx : List Acceptance) :
      ServerState (wsTextSend mask m (ws.over rx wx)).2

/-- A complete frame, as bytes: a header as long as its second byte says, and as much
behind it as the header announces. -/
structure WireFrame where
  header : List Byte
  body : List Byte
  length_header : header.length = headerLength (header.getD 1 0)
  length_body : body.length = wireLength header

namespace WireFrame

/-- The header has its mask bit set. -/
def IsMasked (f : WireFrame) : Prop := f.header.getD 1 0 &&& wsMask ≠ 0

instance (f : WireFrame) : Decidable f.IsMasked :=
  inferInstanceAs (Decidable (f.header.getD 1 0 &&& wsMask ≠ 0))

/-- The frame arrives, whatever comes after it. -/
def Arrives (f : WireFrame) (rx : List Arrival) : Prop :=
  ∃ c, clean rx = f.header ++ (f.body ++ c)

/-- The length check refuses the frame. -/
def Refused (f : WireFrame) (count : ℕ) : Prop := (count + 1) % 2 ^ 64 < f.body.length

end WireFrame

/-- What the caller of `_recv` finds: the state, `*count`, and that many bytes. -/
def decoded (mask : WsMask) (count : ℕ) (cells : ℕ → Byte) (ws : DucqWs) :
    DucqState × ℕ × List Byte :=
  match wsRecv mask count ws (Buffer.fresh cells) with
  | (state, count, _, b) => (state, count, b.slice 0 count)

/-- Any two servers that read the frame find the same. -/
def DecodedFromOwnBytes (f : WireFrame) (count : ℕ) : Prop :=
  ∀ ws₁ ws₂, ServerState ws₁ → ServerState ws₂ → ∀ mask cells wx rx₁ rx₂,
    f.Arrives rx₁ → f.Arrives rx₂ →
      decoded mask count cells (ws₁.over rx₁ wx) = decoded mask count cells (ws₂.over rx₂ wx)

/-! ## What a server's state keeps -/

theorem wsSend_isClient (mask : WsMask) (payload : List Byte) (ws : DucqWs) :
    (wsSend mask payload ws).2.isClient = ws.isClient := by
  rw [wsSend]
  dsimp only
  split_ifs <;> rfl

theorem wsRecvOpcode_isClient (mask : WsMask) (count : ℕ) (ws : DucqWs) (b : Buffer) :
    (wsRecvOpcode mask count ws b).2.isClient = ws.isClient := by
  rw [wsRecvOpcode]
  split_ifs
  · rfl
  · exact wsSend_isClient _ _ _
  · rfl
  · rfl

theorem wsRecv_isClient (mask : WsMask) (count : ℕ) (ws : DucqWs) (b : Buffer) :
    (wsRecv mask count ws b).2.2.1.isClient = ws.isClient := by
  have hheader : (wsRecvHeader ws).2.isClient = ws.isClient := by
    rw [wsRecvHeader]
    dsimp only
    split_ifs <;> rfl
  rw [wsRecv]
  rcases hr : wsRecvHeader ws with ⟨ok, ws'⟩
  rw [hr] at hheader
  cases ok with
  | false => exact hheader
  | true =>
    dsimp only
    split_ifs
    · exact hheader
    · rw [wsRecvPayload]
      dsimp only
      split_ifs <;> first | exact hheader | exact (wsRecvOpcode_isClient _ _ _ _).trans hheader

/-- No step makes a client of a server's endpoint. -/
theorem ServerState.isClient {ws : DucqWs} (h : ServerState ws) : ws.isClient = false := by
  induction h with
  | new fd state => rfl
  | recv h mask count cells rx wx ih => exact (wsRecv_isClient _ _ _ _).trans ih
  | send h mask m rx wx ih => exact (wsSend_isClient _ _ _).trans ih

/-! ## What the answer depends on -/

/-- How a server's send ends: nothing in it depends on what the memory held. -/
theorem wsSend_server {mask : WsMask} {payload : List Byte} {ws : DucqWs} {f : WsFrame}
    (hf : f = ⟨ws.buf.cells 0, none, payload⟩) (hserver : ws.isClient = false) :
    (wsSend mask payload ws).1 =
      if (writen f.header ws.fd).1 ≠ f.header.length then .ewrite
      else if (writen payload (writen f.header ws.fd).2).1 ≠ payload.length then .ewrite
      else .ok := by
  set hdr := (wsSetLen ws.buf payload.length).put 1
    ((wsSetLen ws.buf payload.length).cells 1 &&& ~~~wsMask) with hhdr
  have hstart : hdr.StartsWith f.header := by
    rw [hf]
    exact startsWith_wsSetLen ws.buf payload.length
  have hlen : wsGetHdrLen hdr = f.header.length := by
    rw [wsGetHdrLen, hstart.cells (Nat.lt_of_succ_le f.two_le_length_header), f.length_header]
  have hslice : hdr.slice 0 f.header.length = f.header := hstart
  simp only [wsSend, hserver, Bool.false_eq_true, false_and, if_false, ← hhdr, hlen, hslice]
  split_ifs <;> rfl

theorem wsSend_congr {mask : WsMask} {payload : List Byte} {ws₁ ws₂ : DucqWs}
    (h₁ : ws₁.isClient = false) (h₂ : ws₂.isClient = false)
    (h0 : ws₁.buf.cells 0 = ws₂.buf.cells 0) (hwx : ws₁.fd.wx = ws₂.fd.wx) :
    (wsSend mask payload ws₁).1 = (wsSend mask payload ws₂).1 := by
  obtain ⟨hheader, hwx'⟩ :=
    @writen_congr (WsFrame.mk (ws₁.buf.cells 0) none payload).header _ _ hwx
  obtain ⟨hpayload, -⟩ := @writen_congr payload _ _ hwx'
  rw [wsSend_server rfl h₁, hheader, hpayload,
    @wsSend_server mask payload ws₂ ⟨ws₁.buf.cells 0, none, payload⟩ (by rw [h0]) h₂]

/-- The answer to the opcode depends on the first byte, the payload and the kernel. -/
theorem wsRecvOpcode_congr {mask : WsMask} {count : ℕ} {ws₁ ws₂ : DucqWs} {b₁ b₂ : Buffer}
    (h₁ : ws₁.isClient = false) (h₂ : ws₂.isClient = false)
    (h0 : ws₁.buf.cells 0 = ws₂.buf.cells 0) (hwx : ws₁.fd.wx = ws₂.fd.wx)
    (hb : b₁.slice 0 count = b₂.slice 0 count) :
    (wsRecvOpcode mask count ws₁ b₁).1 = (wsRecvOpcode mask count ws₂ b₂).1 := by
  have hsend := @wsSend_congr mask (b₂.slice 0 count)
    { ws₁ with buf := ws₁.buf.put 0 (wsFin ||| wsPong) }
    { ws₂ with buf := ws₂.buf.put 0 (wsFin ||| wsPong) } h₁ h₂ rfl hwx
  rcases hr₁ : wsSend mask (b₂.slice 0 count)
    { ws₁ with buf := ws₁.buf.put 0 (wsFin ||| wsPong) } with ⟨st₁, ws₁'⟩
  rcases hr₂ : wsSend mask (b₂.slice 0 count)
    { ws₂ with buf := ws₂.buf.put 0 (wsFin ||| wsPong) } with ⟨st₂, ws₂'⟩
  rw [hr₁, hr₂] at hsend
  obtain rfl : st₁ = st₂ := hsend
  simp only [wsRecvOpcode, h0, hb, hr₁, hr₂]
  split_ifs <;> rfl

/-! ## One frame -/

/-- A header is the part before the mask, and the mask if there is one. -/
theorem wsGetHdrLen_eq (hdr : Buffer) :
    wsGetHdrLen hdr = wsGetMsk hdr + if hdr.cells 1 &&& wsMask ≠ 0 then 4 else 0 := by
  simp only [wsGetHdrLen, headerLength, wsGetMsk]
  by_cases h127 : hdr.cells 1 &&& wsLen = 127
  · have h126 : hdr.cells 1 &&& wsLen ≠ 126 := by
      rw [h127]
      decide
    rw [if_neg h126, if_pos h127, if_pos h127]
    split_ifs <;> rfl
  · rw [if_neg h127, if_neg h127]
    split_ifs <;> rfl

namespace WireFrame

variable {f : WireFrame}

theorem two_le_length_header (f : WireFrame) : 2 ≤ f.header.length := by
  rw [f.length_header]
  exact two_le_headerLength _

theorem Arrives.headerArrives {rx : List Arrival} (h : f.Arrives rx) :
    WsHeaderArrives rx f.header := by
  obtain ⟨c, hc⟩ := h
  exact ⟨⟨f.body ++ c, hc.symm⟩, f.two_le_length_header, f.length_header⟩

theorem cells_store_header (f : WireFrame) (b : Buffer) {i : ℕ} (hi : i < 2) :
    (b.store 0 f.header).cells i = f.header.getD i 0 :=
  (b.startsWith_store f.header).cells (Nat.lt_of_lt_of_le hi f.two_le_length_header)

/-- The mask stands behind the length, and a header that has none ends there. -/
theorem length_header_eq (f : WireFrame) (b : Buffer) :
    f.header.length = wsGetMsk (b.store 0 f.header) + if f.IsMasked then 4 else 0 := by
  have hlen := wsGetHdrLen_eq (b.store 0 f.header)
  rw [wsGetHdrLen, f.cells_store_header b Nat.one_lt_two, ← f.length_header] at hlen
  exact hlen

/-- **A mask that the frame has brought is its own.** -/
theorem wsMaskAt_store_of_masked (hf : f.IsMasked) (b : Buffer) :
    (wsMaskAt (b.store 0 f.header)).bytes = (f.header.drop (f.header.length - 4)).take 4 := by
  have hlen := f.length_header_eq b
  rw [if_pos hf] at hlen
  show (b.store 0 f.header).slice (wsGetMsk (b.store 0 f.header)) 4 = _
  rw [Buffer.slice_store_drop b hlen.ge]
  congr 2
  omega

/-- **A mask that it has not brought is what was left in the memory.** -/
theorem wsMaskAt_store_of_not_masked (hf : ¬ f.IsMasked) (b : Buffer) :
    (wsMaskAt (b.store 0 f.header)).bytes = b.slice f.header.length 4 := by
  have hlen := f.length_header_eq b
  rw [if_neg hf, Nat.add_zero] at hlen
  show (b.store 0 f.header).slice (wsGetMsk (b.store 0 f.header)) 4 = _
  rw [← hlen]
  exact Buffer.slice_congr fun j hj _ => Buffer.cells_store_of_ge (by omega)

/-- What a server's caller finds, by the three ways the call can end. -/
theorem decoded_of_arrives {mask : WsMask} {count : ℕ} {cells : ℕ → Byte} {ws : DucqWs}
    {rx : List Arrival} (wx : List Acceptance) (hserver : ws.isClient = false)
    (h : f.Arrives rx) :
    (f.Refused count ∧ decoded mask count cells (ws.over rx wx) =
      (.emsgsize, count, (Buffer.fresh cells).slice 0 count)) ∨
    (¬ f.Refused count ∧ ∃ fd b', fd.wx = wx ∧
      decoded mask count cells (ws.over rx wx) =
        ((wsRecvOpcode mask f.body.length
          ⟨fd, ws.buf.store 0 f.header, ws.state, false⟩ b').1, f.body.length,
          masked (wsMaskAt (ws.buf.store 0 f.header)) f.body) ∧
      b'.slice 0 f.body.length = masked (wsMaskAt (ws.buf.store 0 f.header)) f.body) := by
  by_cases hfits : f.Refused count
  · refine Or.inl ⟨hfits, ?_⟩
    obtain ⟨ws', -, h1⟩ := @wsRecv_of_arrives mask count (ws.over rx wx) (Buffer.fresh cells)
      f.header h.headerArrives
    rw [decoded, h1, if_pos (by rw [← f.length_body]; exact hfits)]
  · obtain ⟨c, hc⟩ := h
    obtain ⟨fd, b', h1, -, h2, h3⟩ := @wsRecv_wire mask count (ws.over rx wx)
      (Buffer.fresh cells) f.header f.body c (Arrives.headerArrives ⟨c, hc⟩) hc f.length_body
      (not_lt.mp hfits)
    have hover : (ws.over rx wx).isClient = false := hserver
    rw [hover] at h1 h3
    have hslice : b'.slice 0 f.body.length =
        masked (wsMaskAt (ws.buf.store 0 f.header)) f.body := by
      rw [← Buffer.take_slice b' 0 (Nat.le_succ f.body.length), h3]
      exact List.take_left' (length_masked _ _)
    refine Or.inr ⟨hfits, fd, b', h2.wx, ?_, hslice⟩
    rw [decoded, h1]
    exact Prod.ext rfl (Prod.ext rfl hslice)

end WireFrame

/-! ## Two pasts -/

/-- An endpoint that has received two frames with a mask of four times `x`: one whose
length takes eight bytes, and a short one. -/
def leftOver (x : Byte) : DucqWs :=
  let ws := ducqNewWsConnection (Socket.receiving [])
  let ws := (wsRecv (CharArray.zeros 4) ducqMsgsz
    (ws.over [.chunk 0x81 [0xff, 0, 0, 0, 0, 0, 0, 0, 1, x, x, x, x, 97 ^^^ x]] [])
    (Buffer.fresh fun _ => 0)).2.2.1
  (wsRecv (CharArray.zeros 4) ducqMsgsz
    (ws.over [.chunk 0x81 [0x81, x, x, x, x, 97 ^^^ x]] []) (Buffer.fresh fun _ => 0)).2.2.1

theorem serverState_leftOver (x : Byte) : ServerState (leftOver x) :=
  .recv (.recv (.new (Socket.receiving []) .closed) _ _ _ _ _) _ _ _ _ _

/-- What is left where the mask of a frame without one would begin. -/
theorem cells_leftOver {x : Byte} (hx : x = 0 ∨ x = 1) {i : ℕ} (hi : i = 2 ∨ i = 4 ∨ i = 10) :
    (leftOver x).buf.cells i = x := by
  rcases hx with rfl | rfl <;> rcases hi with rfl | rfl | rfl <;> decide

/-- **The same frame, two payloads.** -/
theorem masked_leftOver_ne {f : WireFrame} (hf : ¬ f.IsMasked) (hbody : f.body ≠ []) :
    masked (wsMaskAt ((leftOver 0).buf.store 0 f.header)) f.body ≠
      masked (wsMaskAt ((leftOver 1).buf.store 0 f.header)) f.body := by
  obtain ⟨y, ys, hys⟩ := List.exists_cons_of_ne_nil hbody
  have hlen : f.header.length = 2 ∨ f.header.length = 4 ∨ f.header.length = 10 := by
    rw [f.length_header_eq (leftOver 0).buf, if_neg hf, wsGetMsk]
    split_ifs <;> simp
  have hhead : ∀ x, x = 0 ∨ x = 1 →
      (masked (wsMaskAt ((leftOver x).buf.store 0 f.header)) f.body).head? = some (y ^^^ x) := by
    intro x hx
    have hmask := f.wsMaskAt_store_of_not_masked hf (leftOver x).buf
    rw [masked, hmask, hys, Buffer.slice_succ, cells_leftOver hx hlen, List.mapIdx_cons]
    rfl
  intro h
  have h01 := hhead 0 (Or.inl rfl)
  rw [h, hhead 1 (Or.inr rfl), Option.some_inj, UInt8.xor_right_inj] at h01
  exact absurd h01 (by decide)

/-! ## The condition -/

/-- Frames whose mask does not depend on the memory are decoded alike. -/
theorem decodedFromOwnBytes_of_masked_eq {f : WireFrame} {count : ℕ}
    (h : f.Refused count ∨ ∀ b₁ b₂ : Buffer, masked (wsMaskAt (b₁.store 0 f.header)) f.body =
      masked (wsMaskAt (b₂.store 0 f.header)) f.body) :
    DecodedFromOwnBytes f count := by
  intro ws₁ ws₂ hws₁ hws₂ mask cells wx rx₁ rx₂ hrx₁ hrx₂
  rcases @WireFrame.decoded_of_arrives f mask count cells ws₁ rx₁ wx hws₁.isClient hrx₁ with
    ⟨hr, h₁⟩ | ⟨hr, fd₁, b₁, hw₁, h₁, hb₁⟩
  · rcases @WireFrame.decoded_of_arrives f mask count cells ws₂ rx₂ wx hws₂.isClient hrx₂ with
      ⟨-, h₂⟩ | ⟨hr₂, -⟩
    · rw [h₁, h₂]
    · exact absurd hr hr₂
  · rcases @WireFrame.decoded_of_arrives f mask count cells ws₂ rx₂ wx hws₂.isClient hrx₂ with
      ⟨hr₂, -⟩ | ⟨-, fd₂, b₂, hw₂, h₂, hb₂⟩
    · exact absurd hr₂ hr
    · have heq := h.resolve_left hr ws₁.buf ws₂.buf
      rw [h₁, h₂, heq]
      refine congrArg (fun st => (st, _)) ?_
      exact wsRecvOpcode_congr rfl rfl
        ((f.cells_store_header _ Nat.two_pos).trans (f.cells_store_header _ Nat.two_pos).symm)
        (hw₁.trans hw₂.symm) (by rw [hb₁, hb₂, heq])

/-- Frames that are unmasked with what was left in the memory are not. -/
theorem not_decodedFromOwnBytes {f : WireFrame} {count : ℕ} (hmask : ¬ f.IsMasked)
    (hbody : f.body ≠ []) (hr : ¬ f.Refused count) : ¬ DecodedFromOwnBytes f count := by
  intro h
  have harrives : f.Arrives (push (f.header ++ f.body) []) :=
    ⟨[], by rw [clean_push, List.append_assoc]; rfl⟩
  have hserver : ∀ x, (leftOver x).isClient = false := fun x => (serverState_leftOver x).isClient
  have heq := h _ _ (serverState_leftOver 0) (serverState_leftOver 1) (CharArray.zeros 4)
    (fun _ => 0) [] _ _ harrives harrives
  obtain ⟨_, _, _, _, h₀, _⟩ := ((f.decoded_of_arrives [] (hserver 0) harrives).resolve_left
    fun hcon => hr hcon.1)
  obtain ⟨_, _, _, _, h₁, _⟩ := ((f.decoded_of_arrives [] (hserver 1) harrives).resolve_left
    fun hcon => hr hcon.1)
  rw [h₀, h₁, Prod.mk.injEq, Prod.mk.injEq] at heq
  exact masked_leftOver_ne hmask hbody heq.2.2

/-- **A frame is decoded from its own bytes exactly if it brings a mask, has no payload, or
is refused.** -/
theorem decodedFromOwnBytes_iff (f : WireFrame) (count : ℕ) :
    DecodedFromOwnBytes f count ↔ f.IsMasked ∨ f.body = [] ∨ f.Refused count := by
  constructor
  · intro h
    by_contra hcon
    rw [not_or, not_or] at hcon
    exact not_decodedFromOwnBytes hcon.1 hcon.2.1 hcon.2.2 h
  · rintro (hmask | hbody | hr)
    · refine decodedFromOwnBytes_of_masked_eq (Or.inr fun b₁ b₂ => ?_)
      rw [CharArray.ext ((f.wsMaskAt_store_of_masked hmask b₁).trans
        (f.wsMaskAt_store_of_masked hmask b₂).symm)]
    · refine decodedFromOwnBytes_of_masked_eq (Or.inr fun b₁ b₂ => ?_)
      rw [hbody]
      rfl
    · exact decodedFromOwnBytes_of_masked_eq (Or.inl hr)

/-- **An unmasked `Hello` is not what every server finds.**  After a frame with another mask
than zero the five bytes are unmasked with that. -/
theorem not_decodedFromOwnBytes_hello :
    ¬ DecodedFromOwnBytes ⟨[0x81, 5], ascii "Hello", by decide, by decide⟩ ducqMsgsz :=
  not_decodedFromOwnBytes (by decide) (by decide)
    (not_lt.mpr (by show 5 ≤ (256 + 1) % 2 ^ 64; decide))

end Ducq
