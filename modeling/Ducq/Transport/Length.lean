import Ducq.Tcp.Frame
import Ducq.Ws.Capacity

/-!
# The length `ducq_recv` reports

`size` goes in as the capacity and comes out as a length, and both callers use it
whatever the state is: the main loop logs that many bytes of a message it could not
receive, and the Lua binding makes a string of them.  It has to be within the capacity
after an error too.

Over TCP it always is (`count_tcpRecv_le`): an error leaves it alone.  The WebSocket's
`_recv` reads the payload with `*count = readn(..)` and compares afterwards, so a read
that fails leaves `-1` there as a `size_t`, and a frame one byte larger than the capacity
leaves its length.  These two are all (`ducqRecv_lengthUsable_iff`).
-/

namespace Ducq

open CMemory CNumber ByteStream

/-- The connection behind a `ducq_i`. -/
inductive Transport where
  | tcp (fd : Socket)
  | ws (endpoint : DucqWs)

/-- `ducq_recv`: the state, `*size`, and what is left. -/
def Transport.ducqRecv (mask : WsMask) (size : ℕ) (b : Buffer) :
    Transport → DucqState × ℕ × Transport × Buffer
  | .tcp fd =>
    match tcpRecv size fd b with
    | (state, size, fd, b) => (state, size, .tcp fd, b)
  | .ws endpoint =>
    match wsRecv mask size endpoint b with
    | (state, size, endpoint, b) => (state, size, .ws endpoint, b)

/-- The length that is reported is within the capacity, whatever the state is. -/
def LengthUsable (mask : WsMask) (size : ℕ) (transport : Transport) (b : Buffer) : Prop :=
  (transport.ducqRecv mask size b).2.1 ≤ size

/-- The payload of the next frame, if its header arrives and the check lets it through,
is within the capacity, or the stream ends before it without a failure. -/
def PayloadEnds (size : ℕ) (rx : List Arrival) : Prop :=
  ∀ hs, WsHeaderArrives rx hs → wireLength hs ≤ (size + 1) % 2 ^ 64 →
    if hs.length + wireLength hs ≤ (clean rx).length then wireLength hs ≤ size
    else hardFailure rx = none

/-! ## TCP -/

/-- The first part returns an error, or an `int` that passed the check. -/
theorem tcpRecvLength_eq (size : ℕ) (s : Socket) (b : Buffer) :
    (∃ state, state ≠ .ok ∧ (tcpRecvLength size s b).1 = .error (negated state)) ∨
      ∃ v, (tcpRecvLength size s b).1 = .ok (wrap32 v) ∧
        toSizeT (wrap32 (wrap32 v + 1)) ≤ size := by
  rw [tcpRecvLength]
  rcases headerLoop (size - 2) 0 s b with ⟨_ | ⟨n, ptr⟩, s, b⟩
  · exact .inl ⟨.emsgsize, DucqState.noConfusion, rfl⟩
  · dsimp only
    split_ifs with hneg hzero hline hcheck
    · exact .inl ⟨.eread, DucqState.noConfusion, rfl⟩
    · exact .inl ⟨.econnclosed, DucqState.noConfusion, rfl⟩
    · exact .inl ⟨.emsginv, DucqState.noConfusion, rfl⟩
    · exact .inl ⟨.emsgsize, DucqState.noConfusion, rfl⟩
    · exact .inr ⟨_, rfl, not_lt.mp hcheck⟩

/-- An `int` that passed the check is a length within the capacity. -/
theorem toSizeT_le_of_checked {v : ℤ} {size : ℕ} (hpos : 0 ≤ wrap32 v)
    (hcheck : toSizeT (wrap32 (wrap32 v + 1)) ≤ size) :
    toSizeT (wrap32 (wrap32 v)) ≤ size := by
  unfold toSizeT wrap32 at *
  split_ifs at * <;> omega

/-- What `ducq_tcp_recv` returns, if it is no error, is a length within the capacity. -/
theorem ducqTcpRecv_le {size : ℕ} {s : Socket} {b : Buffer}
    (hrc : 0 ≤ (ducqTcpRecv size s b).1) : toSizeT (ducqTcpRecv size s b).1 ≤ size := by
  rw [ducqTcpRecv] at hrc ⊢
  have hfirst := tcpRecvLength_eq size s b
  rcases hr : tcpRecvLength size s b with ⟨rc | len, s', b'⟩
  · rw [hr] at hfirst hrc
    obtain ⟨state, hstate, heq⟩ | ⟨v, heq, -⟩ := hfirst
    · obtain rfl : rc = negated state := Except.error.inj heq
      exact absurd hrc (not_le.mpr (negated_neg hstate))
    · exact nomatch heq
  · rw [hr] at hfirst hrc
    obtain ⟨state, -, heq⟩ | ⟨v, heq, hcheck⟩ := hfirst
    · exact nomatch heq
    obtain rfl : len = wrap32 v := Except.ok.inj heq
    dsimp only at hrc ⊢
    rcases hn : readn (toSizeT (wrap32 v)) 0 s' b' with ⟨n, s'', b''⟩
    rw [hn] at hrc
    dsimp only at hrc ⊢
    split_ifs at hrc ⊢ with hneg hzero hlen
    · exact absurd hrc (not_le.mpr (negated_neg DucqState.noConfusion))
    · exact absurd hrc (not_le.mpr (negated_neg DucqState.noConfusion))
    · exact absurd hrc (not_le.mpr (negated_neg DucqState.noConfusion))
    · rw [not_not] at hlen
      rw [hlen] at hneg ⊢
      exact toSizeT_le_of_checked (not_lt.mp hneg) hcheck

/-- **Over TCP the length is within the capacity.** -/
theorem count_tcpRecv_le (size : ℕ) (s : Socket) (b : Buffer) :
    (tcpRecv size s b).2.1 ≤ size := by
  have hreturned := @ducqTcpRecv_le size s b
  rw [tcpRecv]
  rcases hr : ducqTcpRecv size s b with ⟨rc, s', b'⟩
  rw [hr] at hreturned
  dsimp only at hreturned ⊢
  split_ifs with hrc herrno
  · exact hreturned hrc
  · exact le_rfl
  · exact le_rfl

/-! ## WebSocket -/

theorem getD_one_append {hs : List Byte} (h : 2 ≤ hs.length) (c : List Byte) :
    (hs ++ c).getD 1 0 = hs.getD 1 0 := List.getD_append _ _ _ _ h

/-- One header arrives. -/
theorem WsHeaderArrives.unique {rx : List Arrival} {hs hs' : List Byte}
    (h : WsHeaderArrives rx hs) (h' : WsHeaderArrives rx hs') : hs = hs' := by
  obtain ⟨⟨c, hc⟩, h2, hlen⟩ := h
  obtain ⟨⟨c', hc'⟩, h2', hlen'⟩ := h'
  have hlength : hs.length = hs'.length := by
    rw [hlen, hlen', ← getD_one_append h2 c, hc, ← hc', getD_one_append h2' c']
  exact (List.append_inj (hc.trans hc'.symm) hlength).1

/-- What `*count` is after the payload. -/
theorem count_wsRecvPayload (mask : WsMask) (msgLen : ℕ) (ws : DucqWs) (b : Buffer) :
    (wsRecvPayload mask msgLen ws b).2.1 = toSizeT (readn msgLen 0 ws.fd b).1 := by
  rw [wsRecvPayload]
  rcases readn msgLen 0 ws.fd b with ⟨n, fd, b⟩
  dsimp only
  split_ifs <;> rfl

/-- **Which payload leaves a usable length**: one that arrives whole within the capacity,
or one that the end of the stream cuts short. -/
theorem count_wsRecvPayload_le_iff (mask : WsMask) {msgLen size : ℕ} (ws : DucqWs) (b : Buffer)
    (hsize : size < 2 ^ 64) (hcheck : msgLen ≤ (size + 1) % 2 ^ 64) :
    (wsRecvPayload mask msgLen ws b).2.1 ≤ size ↔
      if msgLen ≤ (clean ws.fd.rx).length then msgLen ≤ size
      else hardFailure ws.fd.rx = none := by
  rw [count_wsRecvPayload]
  split_ifs with hwhole
  · obtain ⟨s, hread, -⟩ := @readn_of_le msgLen 0 ws.fd b hwhole
    rw [hread, toSizeT_of_lt (by omega)]
  · rw [not_le] at hwhole
    rcases hf : hardFailure ws.fd.rx with _ | e
    · obtain ⟨s, hread, -⟩ := readn_of_eof b hwhole hf
      rw [hread, toSizeT_of_lt (by omega)]
      exact iff_of_true (by omega) rfl
    · obtain ⟨s, hread, -⟩ := readn_of_failure b hwhole hf
      rw [hread]
      exact iff_of_false (show ¬ 2 ^ 64 - 1 ≤ size by omega) (Option.some_ne_none e)

/-- **Over a WebSocket** the length is usable exactly if the payload ends as it should. -/
theorem count_wsRecv_le_iff (mask : WsMask) {size : ℕ} (hsize : size < 2 ^ 64) (ws : DucqWs)
    (b : Buffer) : (wsRecv mask size ws b).2.1 ≤ size ↔ PayloadEnds size ws.fd.rx := by
  by_cases hex : ∃ hs, WsHeaderArrives ws.fd.rx hs
  · obtain ⟨hs, hhs⟩ := hex
    obtain ⟨ws', hrx, hrecv⟩ := @wsRecv_of_arrives mask size ws b hs hhs
    have hlength : hs.length ≤ (clean ws.fd.rx).length := hhs.1.length_le
    have hclean : (clean ws'.fd.rx).length = (clean ws.fd.rx).length - hs.length := by
      rw [hrx, clean_advance hlength, List.length_drop]
    have hfail : hardFailure ws'.fd.rx = hardFailure ws.fd.rx := by
      rw [hrx, hardFailure_advance hlength]
    have honly : PayloadEnds size ws.fd.rx ↔ (wireLength hs ≤ (size + 1) % 2 ^ 64 →
        if hs.length + wireLength hs ≤ (clean ws.fd.rx).length then wireLength hs ≤ size
        else hardFailure ws.fd.rx = none) := by
      refine ⟨fun h => h hs hhs, fun h hs' hhs' => ?_⟩
      rw [hhs'.unique hhs]
      exact h
    rw [hrecv, honly]
    split_ifs with hrefused hwhole hwhole
    · exact iff_of_true le_rfl fun hle => absurd hrefused (not_lt.mpr hle)
    · exact iff_of_true le_rfl fun hle => absurd hrefused (not_lt.mpr hle)
    · rw [count_wsRecvPayload_le_iff mask ws' b hsize (not_lt.mp hrefused),
        if_pos (by omega), forall_prop_of_true (not_lt.mp hrefused)]
    · rw [count_wsRecvPayload_le_iff mask ws' b hsize (not_lt.mp hrefused),
        if_neg (by omega), hfail, forall_prop_of_true (not_lt.mp hrefused)]
  · have hcount : (wsRecv mask size ws b).2.1 = size := by
      have hheader := wsRecvHeader_of_not_arrives hex
      rw [wsRecv]
      rcases hr : wsRecvHeader ws with ⟨ok, ws'⟩
      rw [hr] at hheader
      rw [show ok = false from hheader]
    exact iff_of_true hcount.le fun hs hhs => absurd ⟨hs, hhs⟩ hex

/-! ## The property -/

/-- **The length is usable over TCP, and over a WebSocket exactly if the payload ends as
it should.** -/
theorem ducqRecv_lengthUsable_iff (mask : WsMask) {size : ℕ} (hsize : size < 2 ^ 64)
    (transport : Transport) (b : Buffer) :
    LengthUsable mask size transport b ↔
      ∀ endpoint, transport = .ws endpoint → PayloadEnds size endpoint.fd.rx := by
  rcases transport with fd | endpoint
  · exact iff_of_true (count_tcpRecv_le size fd b) fun _ h => Transport.noConfusion h
  · refine (count_wsRecv_le_iff mask hsize endpoint b).trans ⟨fun h _ heq => ?_, fun h => h _ rfl⟩
    rw [← Transport.ws.inj heq]
    exact h

/-- A frame of five bytes, of which two arrive before a receive timeout. -/
def wsTimedOut : DucqWs :=
  ⟨Socket.receiving [.chunk 0x81 [0x85, 0, 0, 0, 0, 104, 101], .fail .ewouldblock],
    Buffer.fresh fun _ => 0, .open, false⟩

/-- **A message over TCP that the connection loses** leaves the length alone. -/
theorem ducqRecv_lengthUsable_tcp :
    LengthUsable (CharArray.zeros 4) 256
      (.tcp (Socket.receiving [.chunk 53 (newline :: ascii "he"), .fail .ewouldblock]))
      (Buffer.fresh fun _ => 0) :=
  (ducqRecv_lengthUsable_iff (CharArray.zeros 4) (by decide) _ _).mpr
    fun _ h => Transport.noConfusion h

/-- **A read that times out inside a payload** leaves `-1` for a length. -/
theorem not_lengthUsable_timedOut :
    ¬ LengthUsable (CharArray.zeros 4) 256 (.ws wsTimedOut) (Buffer.fresh fun _ => 0) := by
  have harrives : WsHeaderArrives wsTimedOut.fd.rx [0x81, 0x85, 0, 0, 0, 0] :=
    ⟨by decide, by decide, by decide⟩
  intro h
  have hends := (@count_wsRecv_le_iff (CharArray.zeros 4) 256 (by decide) wsTimedOut
    (Buffer.fresh fun _ => 0)).mp h _
    harrives (by decide)
  rw [if_neg (by decide)] at hends
  exact absurd hends (by decide)

end Ducq
