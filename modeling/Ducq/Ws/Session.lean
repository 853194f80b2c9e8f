import Ducq.Lib.Fifo
import Ducq.Ws.Frame

/-!
# Two WebSocket endpoints on one connection

A `Link` is a client, a server, and the bytes on their way to each of them.  A step is
one call at one end (`LinkStep.send`, `LinkStep.recv`), with whatever the kernel makes of it,
or a Ping that the client's side puts on the wire; the ends take turns in any order.
An end has only the one piece of memory for its headers, and what a call leaves there
is what the next one finds.

The specification is a pair of queues.  A frame that is written goes to the back of the
other end's queue as the outcome it must have there (`Event.sentTo`), and every call of
`_recv` takes the front one (`Event.readBy`).  That the bytes in flight are the frames of
a queue is the invariant (`Link.Carrying`), and `session_roundTrip` is what follows for
whole runs.
-/

namespace Ducq

open CMemory CNumber ByteStream Fifo

/-! ## The system -/

/-- The two ends. -/
inductive Role where
  | client | server
  deriving DecidableEq

namespace Role

/-- The other end. -/
def peer : Role → Role
  | client => server
  | server => client

/-- `is_client`. -/
def isClient : Role → Bool
  | client => true
  | server => false

@[simp] theorem peer_ne (r : Role) : r.peer ≠ r := by
  cases r <;> exact Role.noConfusion

@[simp] theorem ne_peer (r : Role) : r ≠ r.peer := (peer_ne r).symm

theorem eq_or_eq_peer (r r' : Role) : r' = r ∨ r' = r.peer := by
  cases r <;> cases r' <;> decide

end Role

/-- The two ends, and the bytes on their way to each. -/
structure Link where
  ends : Role → DucqWs
  flight : Role → List Byte

/-- What a call of `_recv` shows: its state, the bytes up to and including the one at
`*count`, and what it wrote to the wire. -/
structure Outcome where
  state : DucqState
  text : List Byte
  reply : List Byte
  deriving DecidableEq

/-- What can be seen of a step. -/
inductive Event where
  | sent (r : Role) (m : List Byte) (state : DucqState)
  | pinged (m : List Byte)
  | received (r : Role) (o : Outcome)
  deriving DecidableEq

/-- The link with some more bytes on their way to the end `r`. -/
def Link.write (l : Link) (r : Role) (bs : List Byte) : Link where
  ends := l.ends
  flight := Function.update l.flight r (l.flight r ++ bs)

/-- The link after a call at the end `r` that leaves the endpoint as `ws`. -/
def Link.after (l : Link) (r : Role) (ws : DucqWs) : Link where
  ends := Function.update l.ends r ws
  flight := Function.update (Function.update l.flight r (bytes ws.fd.rx)) r.peer
    (l.flight r.peer ++ ws.fd.tx)

namespace Link

variable (l : Link) (r : Role) (ws : DucqWs)

@[simp] theorem after_ends_self : (l.after r ws).ends r = ws := by
  show Function.update l.ends r ws r = ws
  rw [Function.update_self]

@[simp] theorem after_ends_peer : (l.after r ws).ends r.peer = l.ends r.peer := by
  show Function.update l.ends r ws r.peer = l.ends r.peer
  rw [Function.update_of_ne (Role.peer_ne r)]

@[simp] theorem after_flight_self : (l.after r ws).flight r = bytes ws.fd.rx := by
  show Function.update (Function.update l.flight r (bytes ws.fd.rx)) r.peer _ r = _
  rw [Function.update_of_ne (Role.ne_peer r), Function.update_self]

@[simp] theorem after_flight_peer :
    (l.after r ws).flight r.peer = l.flight r.peer ++ ws.fd.tx := by
  show Function.update (Function.update l.flight r _) r.peer _ r.peer = _
  rw [Function.update_self]

end Link

/-- A masked Ping. -/
def pingFrame (mask : WsMask) (m : List Byte) : WsFrame := ⟨wsFin ||| wsPing, some mask, m⟩

/-- An unmasked Pong. -/
def pongFrame (m : List Byte) : WsFrame := ⟨wsFin ||| wsPong, none, m⟩

/-- One step.  A call of `_recv` is not made, or does not come back, before there is
something to read. -/
inductive LinkStep : Link → Event → Link → Prop
  | send {l : Link} (r : Role) (mask : WsMask) {m : List Byte} {rx : List Arrival}
      {wx : List Acceptance} (hm : m.length < ducqMsgsz) (ho : Offers (l.flight r) rx wx) :
      LinkStep l (.sent r m (wsTextSend mask m ((l.ends r).over rx wx)).1)
        (l.after r (wsTextSend mask m ((l.ends r).over rx wx)).2)
  | ping {l : Link} (mask : WsMask) {m : List Byte} (hm : m.length < ducqMsgsz) :
      LinkStep l (.pinged m) (l.write .server (pingFrame mask m).bytes)
  | recv {l : Link} (r : Role) (mask : WsMask) (cells : ℕ → Byte) {rx : List Arrival}
      {wx : List Acceptance} (hne : l.flight r ≠ []) (ho : Offers (l.flight r) rx wx) :
      LinkStep l
        (.received r
          ⟨(wsRecv mask ducqMsgsz ((l.ends r).over rx wx) (Buffer.fresh cells)).1,
            (wsRecv mask ducqMsgsz ((l.ends r).over rx wx) (Buffer.fresh cells)).2.2.2.slice 0
              ((wsRecv mask ducqMsgsz ((l.ends r).over rx wx) (Buffer.fresh cells)).2.1 + 1),
            (wsRecv mask ducqMsgsz ((l.ends r).over rx wx)
              (Buffer.fresh cells)).2.2.1.fd.tx⟩)
        (l.after r (wsRecv mask ducqMsgsz ((l.ends r).over rx wx) (Buffer.fresh cells)).2.2.1)

/-- The start of a session: nothing is in flight, and the memory of the two ends holds
anything. -/
structure Link.Fresh (l : Link) : Prop where
  roles : ∀ r, (l.ends r).isClient = r.isClient
  flight : ∀ r, l.flight r = []

/-! ## The specification -/

namespace Event

/-- What the end `r` is to find of what was written to it: a message with its terminator;
a Ping, which it answers; or the answer to one, for which there is no command. -/
def sentTo (r : Role) : Event → List Outcome
  | sent r' m _ => if r' = r.peer then [⟨.ok, m ++ [0], []⟩] else []
  | pinged m => if r = .server then [⟨.protocol, m ++ [0], (pongFrame m).bytes⟩] else []
  | received r' o => if r' = r.peer ∧ o.reply ≠ [] then [⟨.enoimpl, o.text, []⟩] else []

/-- What the end `r` finds. -/
def readBy (r : Role) : Event → List Outcome
  | received r' o => if r' = r then [o] else []
  | _ => []

end Event

/-- What the other end finds of a frame. -/
def WsFrame.outcome (f : WsFrame) : Outcome :=
  if f.opening = wsFin ||| wsText then ⟨.ok, f.payload ++ [0], []⟩
  else if f.opening = wsFin ||| wsPing then
    ⟨.protocol, f.payload ++ [0], (pongFrame f.payload).bytes⟩
  else ⟨.enoimpl, f.payload ++ [0], []⟩

namespace WsFrame

variable {f : WsFrame}

theorem outcome_text (h : f.opening = wsFin ||| wsText) :
    f.outcome = ⟨.ok, f.payload ++ [0], []⟩ := if_pos h

theorem outcome_ping (h : f.opening = wsFin ||| wsPing) :
    f.outcome = ⟨.protocol, f.payload ++ [0], (pongFrame f.payload).bytes⟩ := by
  rw [outcome, h, if_neg (by decide), if_pos rfl]

theorem outcome_pong (h : f.opening = wsFin ||| wsPong) :
    f.outcome = ⟨.enoimpl, f.payload ++ [0], []⟩ := by
  rw [outcome, h, if_neg (by decide), if_neg (by decide)]

end WsFrame

/-- The frames that are written to the end `r`: masked if they come from the client, and
no Ping goes to the client. -/
structure WrittenTo (r : Role) (f : WsFrame) : Prop where
  mask_eq_none_iff : r.isClient = true ↔ f.mask = none
  length_payload : f.payload.length < ducqMsgsz
  opening : f.opening = wsFin ||| wsText ∨ (f.opening = wsFin ||| wsPing ∧ r = .server) ∨
    f.opening = wsFin ||| wsPong

/-- The invariant: what is in flight to each end is a stream of frames, and these are the
outcomes in its queue. -/
structure Link.Carrying (l : Link) (q : Role → List Outcome) : Prop where
  roles : ∀ r, (l.ends r).isClient = r.isClient
  frames : ∀ r, ∃ fs, l.flight r = WsFrame.stream fs ∧ (∀ f ∈ fs, WrittenTo r f) ∧
    q r = fs.map WsFrame.outcome

theorem Link.Fresh.carrying {l : Link} (h : l.Fresh) : l.Carrying fun _ => [] :=
  ⟨h.roles, fun r => ⟨[], h.flight r, fun _ hf => absurd hf List.not_mem_nil, rfl⟩⟩

/-! ## One call -/

/-- **A message is written as one frame**, whatever was in the endpoint's memory. -/
theorem wsTextSend_over {ws : DucqWs} {r : Role} (hr : ws.isClient = r.isClient)
    (mask : WsMask) {m : List Byte} (hm : m.length < ducqMsgsz) {flight : List Byte}
    {rx : List Arrival} {wx : List Acceptance} (ho : Offers flight rx wx) :
    ∃ ws' f, wsTextSend mask m (ws.over rx wx) = (.ok, ws') ∧ ws'.isClient = r.isClient ∧
      bytes ws'.fd.rx = flight ∧ ws'.fd.tx = f.bytes ∧ WrittenTo r.peer f ∧
      f.outcome = ⟨.ok, m ++ [0], []⟩ := by
  obtain ⟨ws', h1, h2, h3, h4⟩ := @wsSend_frame mask m
    { ws.over rx wx with buf := ws.buf.put 0 (wsFin ||| wsText) } (fun _ => hm.le) ho.writable
  refine ⟨ws', ⟨wsFin ||| wsText, if r.isClient then some mask else none, m⟩, h1, h2.trans hr,
    ?_, ?_, ⟨?_, hm, Or.inl rfl⟩, if_pos rfl⟩
  · rw [h3]
    exact ho.bytes_eq
  · rw [h4, ← hr]
    rfl
  · cases r
    · exact ⟨fun h => absurd h (by decide), fun h => absurd h (Option.some_ne_none mask)⟩
    · exact ⟨fun _ => rfl, fun _ => rfl⟩

theorem wsRecvOpcode_text {mask : WsMask} {count : ℕ} {ws : DucqWs} {b : Buffer}
    (h : ws.buf.cells 0 = wsFin ||| wsText) : wsRecvOpcode mask count ws b = (.ok, ws) := by
  rw [wsRecvOpcode, h, if_neg (by decide), if_neg (by decide), if_neg (by decide)]

theorem wsRecvOpcode_pong {mask : WsMask} {count : ℕ} {ws : DucqWs} {b : Buffer}
    (h : ws.buf.cells 0 = wsFin ||| wsPong) : wsRecvOpcode mask count ws b = (.enoimpl, ws) := by
  rw [wsRecvOpcode, h, if_neg (by decide), if_neg (by decide), if_pos (by decide)]

/-- A server answers a Ping with an unmasked Pong. -/
theorem wsRecvOpcode_ping {mask : WsMask} {count : ℕ} {ws : DucqWs} {b : Buffer}
    (h : ws.buf.cells 0 = wsFin ||| wsPing) (hserver : ws.isClient = false)
    (hw : Writable ws.fd.wx) :
    ∃ ws', wsRecvOpcode mask count ws b = (.protocol, ws') ∧ ws'.isClient = false ∧
      ws'.fd.rx = ws.fd.rx ∧ ws'.fd.tx = ws.fd.tx ++ (pongFrame (b.slice 0 count)).bytes := by
  obtain ⟨ws', h1, h2, h3, h4⟩ := @wsSend_frame mask (b.slice 0 count)
    { ws with buf := ws.buf.put 0 (wsFin ||| wsPong) }
    (fun hclient => absurd (hserver.symm.trans hclient) (by decide)) hw
  refine ⟨ws', ?_, h2.trans hserver, h3, ?_⟩
  · rw [wsRecvOpcode, h, if_neg (by decide), if_pos (by decide), h1]
    rfl
  · rw [h4]
    simp only [hserver]
    rfl

/-- The first byte of a frame whose header is in the memory. -/
theorem cells_zero_store_header (b : Buffer) (f : WsFrame) :
    (b.store 0 f.header).cells 0 = f.opening := by
  rw [(b.startsWith_store f.header).cells (Nat.lt_of_lt_of_le Nat.two_pos f.two_le_length_header),
    WsFrame.header]
  split <;> rfl

section Arriving

variable {rx rx' : List Arrival} {f : WsFrame} {fs : List WsFrame}

theorem clean_of_stream_cons (hbytes : bytes rx = WsFrame.stream (f :: fs))
    (hfailure : hardFailure rx = none) : clean rx = f.bytes ++ WsFrame.stream fs := by
  rw [clean_eq_bytes hfailure, hbytes, WsFrame.stream_cons]

/-- What is left of a stream of frames once the first has been read. -/
theorem stream_of_advance (hbytes : bytes rx = WsFrame.stream (f :: fs))
    (hfailure : hardFailure rx = none) (hrx : rx' = advance rx f.bytes.length) :
    bytes rx' = WsFrame.stream fs ∧ hardFailure rx' = none := by
  have hclean := clean_of_stream_cons hbytes hfailure
  have hle : f.bytes.length ≤ (clean rx).length := by
    rw [hclean, List.length_append]
    exact Nat.le_add_right _ _
  have hfailure' : hardFailure rx' = none := by
    rw [hrx, hardFailure_advance hle]
    exact hfailure
  refine ⟨?_, hfailure'⟩
  rw [← clean_eq_bytes hfailure', hrx, clean_advance hle, hclean, List.drop_left]

end Arriving

/-- **The first frame in flight is received.** -/
theorem wsRecv_over {ws : DucqWs} {r : Role} (hr : ws.isClient = r.isClient) (mask : WsMask)
    (cells : ℕ → Byte) {f : WsFrame} {fs : List WsFrame} (hf : WrittenTo r f)
    {rx : List Arrival} {wx : List Acceptance}
    (ho : Offers (WsFrame.stream (f :: fs)) rx wx) :
    ∃ ws' b', wsRecv mask ducqMsgsz (ws.over rx wx) (Buffer.fresh cells) =
        (f.outcome.state, f.payload.length, ws', b') ∧
      b'.slice 0 (f.payload.length + 1) = f.outcome.text ∧ ws'.fd.tx = f.outcome.reply ∧
      ws'.isClient = r.isClient ∧ bytes ws'.fd.rx = WsFrame.stream fs := by
  have hclean := clean_of_stream_cons ho.bytes_eq ho.no_failure
  have hlen : f.payload.length < 256 := hf.length_payload
  obtain ⟨fd, b', h1, h2, h3, h4⟩ := @wsRecv_frame mask ducqMsgsz (ws.over rx wx)
    (Buffer.fresh cells) f _ hclean (by rw [← hf.mask_eq_none_iff, ← hr]; rfl)
    (by show _ ≤ (256 + 1) % 2 ^ 64; omega)
  have hrest := (stream_of_advance ho.bytes_eq ho.no_failure h2).1
  have htx : fd.tx = [] := h3.tx
  have h0 := cells_zero_store_header ws.buf f
  -- what is left is the answer to the opcode
  have hpayload : b'.slice 0 f.payload.length = f.payload := by
    rw [← Buffer.take_slice b' 0 (Nat.le_succ f.payload.length), h4]
    exact List.take_left
  rw [h1]
  set ws₁ : DucqWs := ⟨fd, (ws.over rx wx).buf.store 0 f.header, (ws.over rx wx).state,
    (ws.over rx wx).isClient⟩
  rcases hf.opening with hop | ⟨hop, rfl⟩ | hop
  · rw [@wsRecvOpcode_text mask f.payload.length ws₁ b' (h0.trans hop),
      WsFrame.outcome_text hop]
    exact ⟨ws₁, b', rfl, h4, htx, hr, hrest⟩
  · obtain ⟨ws₂, h5, h6, h7, h8⟩ := @wsRecvOpcode_ping mask f.payload.length ws₁ b'
      (h0.trans hop) hr (by rw [show ws₁.fd.wx = wx from h3.wx]; exact ho.writable)
    rw [h5, WsFrame.outcome_ping hop]
    refine ⟨ws₂, b', rfl, h4, ?_, h6, ?_⟩
    · rw [h8, show ws₁.fd.tx = [] from htx, List.nil_append, hpayload]
    · rw [h7]
      exact hrest
  · rw [@wsRecvOpcode_pong mask f.payload.length ws₁ b' (h0.trans hop),
      WsFrame.outcome_pong hop]
    exact ⟨ws₁, b', rfl, h4, htx, hr, hrest⟩

/-! ## One step -/

/-- A call that leaves the frames `fs` unread and writes the frames `gs`. -/
theorem Link.Carrying.after {l : Link} {q : Role → List Outcome} (hl : l.Carrying q) {r : Role}
    {ws : DucqWs} {fs gs : List WsFrame} (hr : ws.isClient = r.isClient)
    (hfs : bytes ws.fd.rx = WsFrame.stream fs) (hgs : ws.fd.tx = WsFrame.stream gs)
    (hfs' : ∀ f ∈ fs, WrittenTo r f) (hgs' : ∀ f ∈ gs, WrittenTo r.peer f) :
    ∃ q', (l.after r ws).Carrying q' ∧ q' r = fs.map WsFrame.outcome ∧
      q' r.peer = q r.peer ++ gs.map WsFrame.outcome := by
  set q' := Function.update (Function.update q r (fs.map WsFrame.outcome)) r.peer
    (q r.peer ++ gs.map WsFrame.outcome) with hq'
  have hself : q' r = fs.map WsFrame.outcome := by
    rw [hq', Function.update_of_ne (Role.ne_peer r), Function.update_self]
  have hpeer : q' r.peer = q r.peer ++ gs.map WsFrame.outcome := by
    rw [hq', Function.update_self]
  refine ⟨q', ⟨fun i => ?_, fun i => ?_⟩, hself, hpeer⟩
  · rcases r.eq_or_eq_peer i with rfl | rfl
    · rw [Link.after_ends_self, hr]
    · rw [Link.after_ends_peer, hl.roles]
  · rcases r.eq_or_eq_peer i with rfl | rfl
    · exact ⟨fs, by rw [Link.after_flight_self, hfs], hfs', hself⟩
    · obtain ⟨hs, h1, h2, h3⟩ := hl.frames r.peer
      refine ⟨hs ++ gs, ?_, List.forall_mem_append.mpr ⟨h2, hgs'⟩, ?_⟩
      · rw [Link.after_flight_peer, h1, hgs, WsFrame.stream_append]
      · rw [hpeer, h3, List.map_append]

/-- Frames that are put on the wire. -/
theorem Link.Carrying.write {l : Link} {q : Role → List Outcome} (hl : l.Carrying q) {r : Role}
    {g : WsFrame} (hg : WrittenTo r g) :
    (l.write r g.bytes).Carrying (Function.update q r (q r ++ [g.outcome])) := by
  refine ⟨hl.roles, fun i => ?_⟩
  obtain ⟨hs, h1, h2, h3⟩ := hl.frames i
  by_cases hi : i = r
  · subst hi
    refine ⟨hs ++ [g], ?_, List.forall_mem_append.mpr ⟨h2, List.forall_mem_singleton.mpr hg⟩, ?_⟩
    · show Function.update l.flight i _ i = _
      rw [Function.update_self, h1, WsFrame.stream_append, WsFrame.stream_cons,
        WsFrame.stream_nil, List.append_nil]
    · rw [Function.update_self, h3, List.map_append, List.map_singleton]
  · refine ⟨hs, ?_, h2, ?_⟩
    · show Function.update l.flight r _ i = _
      rw [Function.update_of_ne hi, h1]
    · rw [Function.update_of_ne hi, h3]

/-- What a frame makes the receiver write is a frame, or nothing. -/
theorem WrittenTo.reply {r : Role} {f : WsFrame} (hf : WrittenTo r f) :
    ∃ gs, f.outcome.reply = WsFrame.stream gs ∧ (∀ g ∈ gs, WrittenTo r.peer g) ∧
      gs.map WsFrame.outcome = (Event.received r f.outcome).sentTo r.peer := by
  have hno : ∀ o : Outcome, o.reply = [] → (Event.received r o).sentTo r.peer = [] := by
    intro o ho
    rw [Event.sentTo, if_neg (fun h => h.2 ho)]
  rcases hf.opening with hop | ⟨hop, rfl⟩ | hop
  · rw [WsFrame.outcome_text hop, hno _ rfl]
    exact ⟨[], rfl, fun g hg => absurd hg List.not_mem_nil, rfl⟩
  · have hbytes : (pongFrame f.payload).bytes ≠ [] := by
      rw [WsFrame.bytes, WsFrame.header]
      exact List.cons_ne_nil _ _
    rw [WsFrame.outcome_ping hop]
    refine ⟨[pongFrame f.payload], (List.append_nil _).symm,
      List.forall_mem_singleton.mpr ⟨?_, hf.length_payload, Or.inr (Or.inr rfl)⟩, ?_⟩
    · exact ⟨fun _ => rfl, fun _ => rfl⟩
    · rw [Event.sentTo, if_pos ⟨rfl, hbytes⟩, List.map_singleton, WsFrame.outcome_pong rfl]
      rfl
  · rw [WsFrame.outcome_pong hop, hno _ rfl]
    exact ⟨[], rfl, fun g hg => absurd hg List.not_mem_nil, rfl⟩

/-- **One step**: it keeps the invariant, takes from the queues what is seen of it and
adds to them what was written; and a message that is sent is sent. -/
theorem step_carrying {l l' : Link} {e : Event} {q : Role → List Outcome} (hl : l.Carrying q)
    (h : LinkStep l e l') :
    (∃ q', l'.Carrying q' ∧ ∀ r, q r ++ e.sentTo r = e.readBy r ++ q' r) ∧
      ∀ r m st, e = .sent r m st → st = .ok := by
  cases h with
  | send r mask hm ho =>
    obtain ⟨ws', f, h1, h2, h3, h4, h5, h6⟩ := wsTextSend_over (hl.roles r) mask hm ho
    rw [h1]
    obtain ⟨fs, h7, h8, h9⟩ := hl.frames r
    obtain ⟨q', h10, h11, h12⟩ := @Link.Carrying.after l q hl r ws' fs [f] h2 (h3.trans h7)
      (h4.trans (List.append_nil _).symm) h8 (List.forall_mem_singleton.mpr h5)
    refine ⟨⟨q', h10, fun i => ?_⟩, fun r' m' st he => by cases he; rfl⟩
    rcases r.eq_or_eq_peer i with rfl | rfl
    · rw [h11, ← h9]
      simp [Event.sentTo, Event.readBy]
    · rw [h12]
      cases r <;> simp [Event.sentTo, Event.readBy, Role.peer, h6]
  | @ping mask m hm =>
    have hping : WrittenTo .server (pingFrame mask m) :=
      ⟨⟨fun h => absurd h (by decide), fun h => absurd h (Option.some_ne_none mask)⟩, hm,
        Or.inr (Or.inl ⟨rfl, rfl⟩)⟩
    have hout : (pingFrame mask m).outcome = ⟨.protocol, m ++ [0], (pongFrame m).bytes⟩ :=
      WsFrame.outcome_ping rfl
    refine ⟨⟨_, hl.write hping, fun i => ?_⟩, fun r m st he => by cases he⟩
    cases i with
    | client => simp [Event.sentTo, Event.readBy]
    | server => simp [Event.sentTo, Event.readBy, hout]
  | recv r mask cells hne ho =>
    obtain ⟨fs, h1, h2, h3⟩ := hl.frames r
    rw [h1] at hne ho
    cases fs with
    | nil => exact absurd rfl hne
    | cons f fs =>
      have hf := h2 f List.mem_cons_self
      obtain ⟨ws', b', h4, h5, h6, h7, h8⟩ := wsRecv_over (hl.roles r) mask cells hf ho
      rw [h4]
      obtain ⟨gs, h9, h10, h11⟩ := hf.reply
      obtain ⟨q', h12, h13, h14⟩ := @Link.Carrying.after l q hl r ws' fs gs h7 h8
        (h6.trans h9) (fun g hg => h2 g (List.mem_cons_of_mem _ hg)) h10
      have hevent : Event.received r ⟨f.outcome.state, b'.slice 0 (f.payload.length + 1),
          ws'.fd.tx⟩ = .received r f.outcome := by rw [h5, h6]
      rw [hevent]
      refine ⟨⟨q', h12, fun i => ?_⟩, fun r m st he => by cases he⟩
      rcases r.eq_or_eq_peer i with rfl | rfl
      · rw [h13, h3]
        simp [Event.sentTo, Event.readBy]
      · rw [h14, h11]
        simp [Event.readBy]

/-! ## Whole sessions -/

/-- **What one end sends the other end receives**, in order and each with its terminator:
for all messages of less than `DUCQ_MSGSZ` bytes, with any masks, whatever the memory of
the two ends held before, however their calls take turns and however the bytes are cut.
A Ping that comes in between is answered with a Pong that has its payload, and is no
message.  Once nothing is in flight, everything has been received. -/
theorem session_roundTrip {l l' : Link} {es : List Event} (hl : l.Fresh)
    (hrun : Run LinkStep l es l') :
    (∀ r m st, Event.sent r m st ∈ es → st = .ok) ∧
      ∀ r, es.flatMap (Event.readBy r) <+: es.flatMap (Event.sentTo r) ∧
        (l'.flight r = [] → es.flatMap (Event.readBy r) = es.flatMap (Event.sentTo r)) := by
  have hcarries : Carries LinkStep Event.sentTo Event.readBy Link.Carrying :=
    fun _ _ _ _ hl h => (step_carrying hl h).1
  obtain ⟨q', hq', htaken⟩ := hcarries.from_empty hrun hl.carrying
  have hsent := @Run.forall_mem _ _ LinkStep (fun l => ∃ q, l.Carrying q)
    (fun e => ∀ r m st, e = .sent r m st → st = .ok) (fun l e l' ⟨q, hq⟩ h =>
      ⟨(step_carrying hq h).1.imp fun _ h => h.1, (step_carrying hq h).2⟩) l l' es hrun
    ⟨_, hl.carrying⟩
  refine ⟨fun r m st he => hsent.2 _ he r m st rfl, fun r => ⟨(htaken r).1, fun hnil => ?_⟩⟩
  obtain ⟨fs, h1, -, h2⟩ := hq'.frames r
  refine (htaken r).2 ?_
  cases fs with
  | nil => exact h2
  | cons f fs =>
    rw [hnil, WsFrame.stream_cons] at h1
    have h3 := congrArg List.length h1
    have h4 := f.two_le_length_header
    rw [WsFrame.bytes, List.length_nil, List.length_append, List.length_append] at h3
    omega

/-- Two ends whose memory holds left-over bytes, with nothing in flight. -/
def Link.idle : Link :=
  ⟨fun r => ⟨Socket.receiving [], Buffer.fresh fun _ => 0xff, .open, r.isClient⟩, fun _ => []⟩

/-- A message and a Ping, both in flight before the server reads. -/
theorem session_roundTrip_ping : ∃ l' es, Link.idle.Fresh ∧ Run LinkStep Link.idle es l' ∧
    es.flatMap (Event.readBy .server) =
      [⟨.ok, ascii "hi" ++ [0], []⟩, ⟨.protocol, ascii "?" ++ [0], [0x8a, 1, 63]⟩] ∧
    es.flatMap (Event.readBy .server) <+: es.flatMap (Event.sentTo .server) := by
  have hfresh : Link.idle.Fresh := ⟨fun _ => rfl, fun _ => rfl⟩
  have hwx : Writable [] := fun _ h => absurd h List.not_mem_nil
  obtain ⟨l', es, hrun, hread⟩ : ∃ l' es, Run LinkStep Link.idle es l' ∧
      es.flatMap (Event.readBy .server) =
        [⟨.ok, ascii "hi" ++ [0], []⟩, ⟨.protocol, ascii "?" ++ [0], [0x8a, 1, 63]⟩] := by
    refine ⟨_, _,
      .cons (@LinkStep.send _ .client ⟨[1, 2, 3, 4], rfl⟩ (ascii "hi") [] [] ?_ ⟨?_, rfl, hwx⟩)
      (.cons (@LinkStep.ping _ ⟨[1, 2, 3, 4], rfl⟩ (ascii "?") ?_)
      (.cons (@LinkStep.recv _ .server ⟨[1, 2, 3, 4], rfl⟩ (fun _ => 0)
        [.chunk 0x81 [0x82, 1, 2, 3, 4, 105, 107, 0x89, 0x81, 1, 2, 3, 4, 62]] [] ?_
        ⟨?_, rfl, hwx⟩)
      (.cons (@LinkStep.recv _ .server ⟨[1, 2, 3, 4], rfl⟩ (fun _ => 0)
        [.chunk 0x89 [0x81, 1], .fail .eintr, .chunk 2 [3, 4, 62]] [] ?_ ⟨?_, rfl, hwx⟩)
      (.nil _)))), ?_⟩
    all_goals decide
  exact ⟨l', es, hfresh, hrun, hread, ((session_roundTrip hfresh hrun).2 .server).1⟩

end Ducq
