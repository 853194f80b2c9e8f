import Ducq.Ws.Endpoint

/-!
# Does the WebSocket `_recv` stay inside the caller's buffer?

The caller's buffer has to hold the payload and a terminator, so a frame of `L` bytes
fits when `L + 1` does not exceed the capacity.  The check lets a frame through when
`L` does not exceed the capacity plus one.  Two lengths are therefore accepted that do
not fit, and `wsRecv_staysInside_iff` says that these two are all that goes wrong.

The header comes first and is the endpoint's own memory: it is all there
(`wsRecvHeader_of_arrives`) or the call ends with nothing written to the caller
(`wsRecvHeader_of_not_arrives`).
-/

namespace Ducq

open CMemory CNumber ByteStream

/-! ## The header -/

/-- The bytes `hs` arrive cleanly and are one whole header. -/
def WsHeaderArrives (rx : List Arrival) (hs : List Byte) : Prop :=
  hs <+: clean rx ∧ 2 ≤ hs.length ∧ hs.length = headerLength (hs.getD 1 0)

theorem getD_one_take (bs : List Byte) {k : ℕ} (h : 2 ≤ k) :
    (bs.take k).getD 1 0 = bs.getD 1 0 := by
  rw [List.getD_eq_getElem?_getD, List.getD_eq_getElem?_getD,
    List.getElem?_take_of_lt (by omega)]

theorem headerLength_store_take (b : Buffer) {bs : List Byte} (h : 2 ≤ bs.length) :
    wsGetHdrLen (b.store 0 (bs.take 2)) = headerLength (bs.getD 1 0) := by
  have hlen : 1 < (bs.take 2).length := by
    rw [List.length_take]
    omega
  have hcell := @Buffer.cells_store_of_mem b 0 1 (bs.take 2) hlen
  rw [Nat.zero_add] at hcell
  rw [wsGetHdrLen, hcell, getD_one_take bs (le_refl 2)]

/-- **A header that arrives is read whole**, to the start of the endpoint's memory. -/
theorem wsRecvHeader_of_arrives {ws : DucqWs} {hs : List Byte}
    (h : WsHeaderArrives ws.fd.rx hs) :
    ∃ fd, wsRecvHeader ws = (true, { ws with fd := fd, buf := ws.buf.store 0 hs }) ∧
      fd.rx = advance ws.fd.rx hs.length ∧ SameWrites ws.fd fd := by
  obtain ⟨⟨c, hc⟩, h2, hlen⟩ := h
  have hle : hs.length ≤ (clean ws.fd.rx).length := by
    rw [← hc, List.length_append]
    omega
  obtain ⟨fd₁, h3, h4, hw₁⟩ := @readn_of_le 2 0 ws.fd ws.buf (by omega)
  have htake : (clean ws.fd.rx).take 2 = hs.take 2 := by
    rw [← hc, List.take_append_of_le_length h2]
  rw [htake] at h3
  have hhdr : wsGetHdrLen (ws.buf.store 0 (hs.take 2)) = hs.length := by
    rw [headerLength_store_take _ h2, hlen]
  rcases Nat.eq_or_lt_of_le h2 with h2' | h2'
  · refine ⟨fd₁, ?_, by rw [h4, h2'], hw₁⟩
    have hwhole : hs.take 2 = hs := List.take_of_length_le (by omega)
    rw [hwhole] at hhdr h3
    simp only [wsRecvHeader, h3, hhdr]
    rw [if_neg (by omega), if_neg (by omega)]
  · have hclean : clean fd₁.rx = hs.drop 2 ++ c := by
      rw [h4, clean_advance (by omega), ← hc, List.drop_append_of_le_length h2]
    obtain ⟨fd₂, h5, h6, hw₂⟩ := @readn_of_le (hs.length - 2) 2 fd₁
      (ws.buf.store 0 (hs.take 2)) (by
        rw [hclean, List.length_append, List.length_drop]
        omega)
    have hrest : (clean fd₁.rx).take (hs.length - 2) = hs.drop 2 := by
      rw [hclean]
      exact List.take_left' (by rw [List.length_drop])
    have hstore : (ws.buf.store 0 (hs.take 2)).store 2 (hs.drop 2) = ws.buf.store 0 hs := by
      have happend := Buffer.store_append ws.buf 0 (hs.take 2) (hs.drop 2)
      rw [List.take_append_drop, List.length_take, Nat.min_eq_left h2] at happend
      exact happend.symm
    rw [hrest, hstore] at h5
    refine ⟨fd₂, ?_, ?_, hw₁.trans hw₂⟩
    · simp only [wsRecvHeader, h3, hhdr]
      rw [if_neg (by omega), if_pos (by omega), h5]
      simp only [Prod.mk.injEq, and_true]
      rw [decide_eq_true_eq]
      omega
    · rw [h6, h4, advance_advance (by omega)]
      congr 1
      omega

/-- **A header that does not arrive ends the call.** -/
theorem wsRecvHeader_of_not_arrives {ws : DucqWs} (h : ¬ ∃ hs, WsHeaderArrives ws.fd.rx hs) :
    (wsRecvHeader ws).1 = false := by
  rcases Nat.lt_or_ge (clean ws.fd.rx).length 2 with h2 | h2
  · obtain ⟨rc, fd, h3, -, h4⟩ := @readn_of_lt 2 0 ws.fd ws.buf h2
    simp only [wsRecvHeader, h3]
    rw [if_pos (by omega)]
  · obtain ⟨fd, h3, h4, -⟩ := @readn_of_le 2 0 ws.fd ws.buf h2
    have hhdr := headerLength_store_take ws.buf h2
    set k := headerLength ((clean ws.fd.rx).getD 1 0) with hk
    have hk2 : 2 ≤ k := two_le_headerLength _
    have hshort : (clean ws.fd.rx).length < k := by
      by_contra hle
      rw [not_lt] at hle
      refine h ⟨(clean ws.fd.rx).take k, List.take_prefix _ _, ?_, ?_⟩
      · rw [List.length_take]
        omega
      · rw [List.length_take, Nat.min_eq_left hle, getD_one_take _ hk2]
    have hclean : (clean fd.rx).length < k - 2 := by
      rw [h4, clean_advance h2, List.length_drop]
      omega
    obtain ⟨rc, fd', h5, -, h6⟩ := @readn_of_lt (k - 2) 2 fd
      (ws.buf.store 0 ((clean ws.fd.rx).take 2)) hclean
    simp only [wsRecvHeader, h3, hhdr]
    rw [if_neg (by omega), if_pos (by omega), h5]
    simp only [decide_eq_false_iff_not, not_not]
    omega

/-! ## The payload -/

theorem mem_writes_wsMaskMessage {mask : WsMask} {buf len i : ℕ} {b : Buffer} :
    i ∈ (wsMaskMessage mask buf b len).writes ↔
      (buf ≤ i ∧ i < buf + len) ∨ i ∈ b.writes := by
  induction len with
  | zero =>
    rw [wsMaskMessage]
    exact ⟨Or.inr, fun h => h.resolve_left (by omega)⟩
  | succ len ih =>
    rw [wsMaskMessage]
    simp only [Buffer.mem_writes_put, ih, ← or_assoc]
    refine or_congr ?_ Iff.rfl
    omega

theorem within_wsMaskMessage {mask : WsMask} {buf len size : ℕ} {b : Buffer}
    (hb : b.Within size) (h : buf + len ≤ size) :
    (wsMaskMessage mask buf b len).Within size := by
  intro i hi
  rcases mem_writes_wsMaskMessage.mp hi with hi | hi
  · omega
  · exact hb i hi

/-- **A payload that fits with its terminator is written inside.** -/
theorem within_wsRecvPayload {mask : WsMask} {msgLen size : ℕ} {ws : DucqWs} {b : Buffer}
    (hb : b.Within size) (h : msgLen < size) :
    (wsRecvPayload mask msgLen ws b).2.2.2.Within size := by
  have hread := @within_readn msgLen 0 size ws.fd b hb (by omega)
  rw [wsRecvPayload]
  rcases hr : readn msgLen 0 ws.fd b with ⟨n, fd, b'⟩
  rw [hr] at hread
  dsimp only
  split_ifs with hn hclient
  · exact hread
  · exact Buffer.within_put.mpr ⟨by omega, hread⟩
  · exact Buffer.within_put.mpr ⟨by omega, within_wsMaskMessage hread (by omega)⟩

/-- Once the payload is being read the call fails to, or writes a terminator. -/
theorem wsRecvPayload_eread_or {mask : WsMask} {msgLen : ℕ} {ws : DucqWs} {b : Buffer} :
    (wsRecvPayload mask msgLen ws b).1 = .eread ∨
      msgLen ∈ (wsRecvPayload mask msgLen ws b).2.2.2.writes := by
  rw [wsRecvPayload]
  rcases hr : readn msgLen 0 ws.fd b with ⟨n, fd, b'⟩
  dsimp only
  split_ifs with hn hclient
  · exact Or.inl rfl
  · rw [not_not] at hn
    exact Or.inr (Buffer.mem_writes_put.mpr (Or.inl hn.symm))
  · rw [not_not] at hn
    exact Or.inr (Buffer.mem_writes_put.mpr (Or.inl hn.symm))

/-! ## The property -/

/-- What the limit check is there for: nothing is written at or past the capacity, and
a frame that does not fit with its terminator is refused with nothing read but its
header and nothing written at all. -/
def WsRecvStaysInside (mask : WsMask) (count : ℕ) (ws : DucqWs) (cells : ℕ → Byte) : Prop :=
  (wsRecv mask count ws (Buffer.fresh cells)).2.2.2.Within count ∧
  ∀ hs, WsHeaderArrives ws.fd.rx hs → count < wireLength hs + 1 →
    (wsRecv mask count ws (Buffer.fresh cells)).1 = .emsgsize ∧
    (wsRecv mask count ws (Buffer.fresh cells)).2.2.1.fd.rx = advance ws.fd.rx hs.length ∧
    (wsRecv mask count ws (Buffer.fresh cells)).2.2.2 = Buffer.fresh cells

/-- What the call does once the header is there. -/
theorem wsRecv_of_arrives {mask : WsMask} {count : ℕ} {ws : DucqWs} {b : Buffer}
    {hs : List Byte} (h : WsHeaderArrives ws.fd.rx hs) :
    ∃ ws', ws'.fd.rx = advance ws.fd.rx hs.length ∧
      wsRecv mask count ws b =
        if wireLength hs > (count + 1) % 2 ^ 64 then (.emsgsize, count, ws', b)
        else wsRecvPayload mask (wireLength hs) ws' b := by
  obtain ⟨fd, h1, h2, -⟩ := wsRecvHeader_of_arrives h
  refine ⟨{ ws with fd := fd, buf := ws.buf.store 0 hs }, h2, ?_⟩
  rw [wsRecv, h1]
  simp only [wsGetLen_store ws.buf h.2.2.ge]

/-- A length of the capacity or one more gets past the check. -/
theorem fits_or_refused {mask : WsMask} {count : ℕ} {ws : DucqWs} {cells : ℕ → Byte}
    {hs : List Byte} (h : WsRecvStaysInside mask count ws cells)
    (hhs : WsHeaderArrives ws.fd.rx hs) :
    wireLength hs < count ∨ (count + 1) % 2 ^ 64 < wireLength hs := by
  by_contra hcon
  rw [not_or, not_lt, not_lt] at hcon
  obtain ⟨hstate, -, hbuf⟩ := h.2 hs hhs (by omega)
  obtain ⟨ws', -, h1⟩ := @wsRecv_of_arrives mask count ws (Buffer.fresh cells) hs hhs
  rw [if_neg (not_lt.mpr hcon.2)] at h1
  rw [h1] at hstate hbuf
  rcases @wsRecvPayload_eread_or mask (wireLength hs) ws' (Buffer.fresh cells) with h2 | h2
  · rw [h2] at hstate
    exact absurd hstate (by decide)
  · rw [hbuf] at h2
    exact absurd h2 (by simp)

/-- **The buffer is safe exactly when the header announces less than the capacity or
more than the capacity plus one.** -/
theorem wsRecv_staysInside_iff (mask : WsMask) (count : ℕ) (ws : DucqWs) (cells : ℕ → Byte) :
    WsRecvStaysInside mask count ws cells ↔
      ∀ hs, WsHeaderArrives ws.fd.rx hs →
        wireLength hs < count ∨ (count + 1) % 2 ^ 64 < wireLength hs := by
  have hfresh : (Buffer.fresh cells).Within count := Buffer.within_fresh _ _
  refine ⟨fun h hs hhs => fits_or_refused h hhs, fun h => ⟨?_, fun hs hhs hlen => ?_⟩⟩
  · by_cases hex : ∃ hs, WsHeaderArrives ws.fd.rx hs
    · obtain ⟨hs, hhs⟩ := hex
      obtain ⟨ws', -, h1⟩ := @wsRecv_of_arrives mask count ws (Buffer.fresh cells) hs hhs
      rw [h1]
      split_ifs with hcheck
      · exact hfresh
      · exact within_wsRecvPayload hfresh ((h hs hhs).resolve_right hcheck)
    · have h1 := wsRecvHeader_of_not_arrives hex
      rw [wsRecv]
      rcases hr : wsRecvHeader ws with ⟨ok, ws'⟩
      rw [hr] at h1
      rw [show ok = false from h1]
      exact hfresh
  · obtain ⟨ws', hrx, h1⟩ := @wsRecv_of_arrives mask count ws (Buffer.fresh cells) hs hhs
    rw [if_pos ((h hs hhs).resolve_left (by omega))] at h1
    rw [h1]
    exact ⟨rfl, hrx, rfl⟩

/-- **A frame of exactly the capacity is accepted.**  Four bytes of payload fill a buffer
of four, and the terminator goes to index 4. -/
theorem not_wsRecvStaysInside_four :
    ¬ WsRecvStaysInside (CharArray.zeros 4) 4
      ⟨Socket.receiving [.chunk 0x81 [0x84, 0, 0, 0, 0, 97, 98, 99, 100]],
        Buffer.fresh fun _ => 0, .open, false⟩ (fun _ => 0) := by
  intro h
  have harrives : WsHeaderArrives [.chunk 0x81 [0x84, 0, 0, 0, 0, 97, 98, 99, 100]]
      [0x81, 0x84, 0, 0, 0, 0] := ⟨by decide, by decide, by decide⟩
  exact absurd (fits_or_refused h harrives) (by decide)

end Ducq
