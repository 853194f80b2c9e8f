import Ducq.Inet.Reads
import Ducq.Ws.Session

/-!
# `ducq_ws.c`: the closing handshake

`_close` writes a Close frame with a status code, and an end that has not read one from the
other end then waits for it: it reads and throws away what arrives, five times at most.
The descriptor is closed after that.

`ClosingStep` is a step of a session in which either end may close at any time.  The sessions
are those of `LinkStep`: messages are shorter than `DUCQ_MSGSZ`, reads and writes may be cut and
interrupted and do not fail, and Pings come from the client.  That an end takes no part in the
session any more once it has closed is assumed: its descriptor is `-1` then, which is not in
the model.  `closingHandshake` is about whole runs: what an end finds is still what was written
to it, in order, the other end's Close is the last of it, and the status codes are settled by
who closed first.
-/

namespace Ducq

open CMemory CNumber ByteStream Fifo

/-! ## `_close` -/

/-- `WS_CLOSE_NORMAL`. -/
abbrev wsCloseNormal : ℕ := 1000

/-- `WS_CLOSE_GOING_AWAY`. -/
abbrev wsCloseGoingAway : ℕ := 1001

/-- `we_inited_close`. -/
def DucqWs.weInitedClose (ws : DucqWs) : Bool := ws.state ≠ .closing

/-- `status_code`. -/
def DucqWs.statusCode (ws : DucqWs) : ℕ :=
  if ¬ ws.isClient ∧ ws.weInitedClose then wsCloseGoingAway else wsCloseNormal

/-- The loop that waits, for `maxRead` one more than `max_read`: it ends at a `readn` that
returns nothing or fails, and at the latest when `max_read` is negative. -/
def wsCloseWait (maxRead : ℕ) (ws : DucqWs) : DucqWs :=
  match readn ducqMsgsz wsHeaderSize ws.fd ws.buf with
  | (n, fd, buf) =>
    let ws : DucqWs := { ws with fd := fd, buf := buf }
    if n > 0 then
      match maxRead with
      | 0 => ws
      | maxRead + 1 => wsCloseWait maxRead ws
    else ws

/-- The frame's opening and its payload, in the endpoint's memory. -/
def DucqWs.withCloseBody (ws : DucqWs) : DucqWs :=
  { ws with
    buf := (ws.buf.put 0 (wsFin ||| wsClose)).store wsHeaderSize
      (toLittleEndian 2 (wsReorder16 ws.statusCode)) }

/-- `_close` of the WebSocket table, up to `inet_close`. -/
def wsCloseCall (mask : WsMask) (ws : DucqWs) : DucqState × DucqWs :=
  match wsSend mask (ws.withCloseBody.buf.slice wsHeaderSize 2) ws.withCloseBody with
  -- whether it could be sent makes no difference
  | (_, ws') => (.ok, if ws.weInitedClose then wsCloseWait 4 ws' else ws')

/-! ## What the calls do to an endpoint's state -/

theorem wsSend_state (mask : WsMask) (payload : List Byte) (ws : DucqWs) :
    (wsSend mask payload ws).2.state = ws.state := by
  rw [wsSend]
  dsimp only
  split_ifs <;> rfl

theorem wsSend_ne_econnclosed (mask : WsMask) (payload : List Byte) (ws : DucqWs) :
    (wsSend mask payload ws).1 ≠ .econnclosed := by
  rw [wsSend]
  dsimp only
  split_ifs <;> exact DucqState.noConfusion

/-- What becomes of an endpoint's state in a call of `_recv` that returns `st`. -/
def StateAfter (ws : DucqWs) (st : DucqState) (ws' : DucqWs) : Prop :=
  ws'.state = if st = .econnclosed then .closing else ws.state

theorem StateAfter.kept {ws ws' : DucqWs} {st : DucqState} (hst : st ≠ .econnclosed)
    (h : ws'.state = ws.state) : StateAfter ws st ws' := h.trans (if_neg hst).symm

theorem wsRecvOpcode_state (mask : WsMask) (count : ℕ) (ws : DucqWs) (b : Buffer) :
    StateAfter ws (wsRecvOpcode mask count ws b).1 (wsRecvOpcode mask count ws b).2 := by
  rw [wsRecvOpcode]
  by_cases hclose : ws.buf.cells 0 &&& wsOpcode = wsClose
  · rw [if_pos hclose]
    exact (if_pos rfl).symm
  rw [if_neg hclose]
  by_cases hping : ws.buf.cells 0 &&& wsOpcode = wsPing
  · rw [if_pos hping]
    have hstate := wsSend_state mask (b.slice 0 count)
      { ws with buf := ws.buf.put 0 (wsFin ||| wsPong) }
    have hne := wsSend_ne_econnclosed mask (b.slice 0 count)
      { ws with buf := ws.buf.put 0 (wsFin ||| wsPong) }
    refine StateAfter.kept ?_ hstate
    dsimp only
    split_ifs
    · exact hne
    · exact DucqState.noConfusion
  · rw [if_neg hping]
    split_ifs
    all_goals exact StateAfter.kept DucqState.noConfusion rfl

theorem wsRecvPayload_state (mask : WsMask) (msgLen : ℕ) (ws : DucqWs) (b : Buffer) :
    StateAfter ws (wsRecvPayload mask msgLen ws b).1 (wsRecvPayload mask msgLen ws b).2.2.1 := by
  rw [wsRecvPayload]
  dsimp only
  split_ifs
  · exact StateAfter.kept DucqState.noConfusion rfl
  all_goals exact wsRecvOpcode_state _ _ _ _

/-- **An endpoint is closing exactly from when it has read a Close.** -/
theorem wsRecv_state (mask : WsMask) (count : ℕ) (ws : DucqWs) (b : Buffer) :
    StateAfter ws (wsRecv mask count ws b).1 (wsRecv mask count ws b).2.2.1 := by
  have hheader : (wsRecvHeader ws).2.state = ws.state := by
    rw [wsRecvHeader]
    dsimp only
    split_ifs <;> rfl
  rw [wsRecv]
  rcases hr : wsRecvHeader ws with ⟨ok, ws'⟩
  rw [hr] at hheader
  cases ok with
  | false => exact StateAfter.kept DucqState.noConfusion hheader
  | true =>
    dsimp only
    split_ifs
    · exact StateAfter.kept DucqState.noConfusion hheader
    · have hpayload := wsRecvPayload_state mask (wsGetLen ws'.buf) ws' b
      rwa [StateAfter, hheader] at hpayload

/-! ## What a Close says -/

/-- The payload of a Close: its status code, in network order. -/
def statusBytes (statusCode : ℕ) : List Byte := (toLittleEndian 2 statusCode).reverse

/-- What the other end finds of a Close. -/
def closeOutcome (statusCode : ℕ) : Outcome := ⟨.econnclosed, statusBytes statusCode ++ [0], []⟩

/-- What the other end finds of a frame, which may be a Close. -/
def WsFrame.found (f : WsFrame) : Outcome :=
  if f.opening = wsFin ||| wsClose then ⟨.econnclosed, f.payload ++ [0], []⟩ else f.outcome

/-- A Close to the end `r`. -/
structure CloseTo (r : Role) (f : WsFrame) : Prop where
  mask_eq_none_iff : r.isClient = true ↔ f.mask = none
  length_payload : f.payload.length < ducqMsgsz
  opening : f.opening = wsFin ||| wsClose

theorem WrittenTo.found {r : Role} {f : WsFrame} (hf : WrittenTo r f) : f.found = f.outcome := by
  refine if_neg fun hclose => ?_
  rcases hf.opening with hop | ⟨hop, -⟩ | hop
  all_goals
    rw [hop] at hclose
    exact absurd hclose (by decide)

theorem CloseTo.found {r : Role} {f : WsFrame} (hf : CloseTo r f) :
    f.found = ⟨.econnclosed, f.payload ++ [0], []⟩ := if_pos hf.opening

/-! ## One call -/

theorem writen_reads (bs : List Byte) (s : Socket) : (writen bs s).2.reads = s.reads := by
  have hwrite : ∀ (bs : List Byte) (s : Socket), (s.write bs).2.reads = s.reads := by
    rintro bs ⟨rx, tx, wx, errno, reads⟩
    rcases wx with _ | ⟨a, wx⟩
    · rfl
    · cases a <;> rfl
  have hloop : ∀ (fuel : ℕ) (bs : List Byte) (s : Socket),
      (writenLoop fuel bs s).2.reads = s.reads := by
    intro fuel
    induction fuel with
    | zero => exact fun _ _ => rfl
    | succ fuel ih =>
      intro bs s
      rw [writenLoop]
      have hs := hwrite bs s
      rcases hw : s.write bs with ⟨k | e, t⟩
      all_goals
        rw [hw] at hs
        dsimp only
        split_ifs
      · rfl
      · exact hs
      · exact (ih _ t).trans hs
      · rfl
      · exact (ih _ t).trans hs
      · exact hs
  have h := hloop (s.wx.length + 2) bs s
  rw [writen]
  rcases hl : writenLoop (s.wx.length + 2) bs s with ⟨_ | _, t⟩ <;> rw [hl] at h <;> exact h

/-- Sending reads nothing. -/
theorem wsSend_reads (mask : WsMask) (payload : List Byte) (ws : DucqWs) :
    (wsSend mask payload ws).2.fd.reads = ws.fd.reads := by
  rw [wsSend]
  dsimp only
  split_ifs
  · rfl
  all_goals simp only [writen_reads]

/-- One more `read` is in the notes. -/
theorem read_reads (s : Socket) (n : ℕ) : ∃ r, (s.read n).2.reads = s.reads ++ [r] := by
  obtain ⟨rx, tx, wx, errno, reads⟩ := s
  rcases rx with _ | ⟨a, rx⟩
  · exact ⟨_, rfl⟩
  · cases a <;> exact ⟨_, rfl⟩

theorem readnLoop_keepsReads (fuel ptr n : ℕ) (s : Socket) (b : Buffer) :
    s.reads <+: (readnLoop fuel ptr n s b).2.1.reads := by
  induction fuel generalizing ptr n s b with
  | zero => exact List.prefix_rfl
  | succ fuel ih =>
    rw [readnLoop]
    split_ifs with hn
    · exact List.prefix_rfl
    obtain ⟨r, hr⟩ := read_reads s n
    have hnotes : s.reads <+: (s.read n).2.reads := ⟨[r], hr.symm⟩
    rcases hread : s.read n with ⟨(_ | ⟨x, xs⟩) | e, t⟩
    all_goals
      rw [hread] at hnotes
      dsimp only
    · exact hnotes
    · exact hnotes.trans (ih _ _ t _)
    · split_ifs
      · exact hnotes.trans (ih _ _ t _)
      · exact hnotes

/-- A `readn` reads something, or finds the end. -/
theorem reads_lt_readn {n ptr : ℕ} (hn : n ≠ 0) (s : Socket) (b : Buffer) :
    s.reads.length < (readn n ptr s b).2.1.reads.length := by
  have hloop : s.reads.length < (readnLoop (s.rx.length + 1) ptr n s b).2.1.reads.length := by
    rw [readnLoop, if_neg hn]
    obtain ⟨r, hr⟩ := read_reads s n
    have hnotes : s.reads.length < (s.read n).2.reads.length := by
      rw [hr, List.length_append]
      exact Nat.lt_succ_self _
    rcases hread : s.read n with ⟨(_ | ⟨x, xs⟩) | e, t⟩
    all_goals
      rw [hread] at hnotes
      dsimp only
    · exact hnotes
    · exact hnotes.trans_le (readnLoop_keepsReads _ _ _ t _).length_le
    · split_ifs
      · exact hnotes.trans_le (readnLoop_keepsReads _ _ _ t _).length_le
      · exact hnotes
  rw [readn]
  rcases hl : readnLoop (s.rx.length + 1) ptr n s b with ⟨_ | _, s', b'⟩ <;> rw [hl] at hloop <;>
    exact hloop

/-- An end that waits reads. -/
theorem reads_lt_wsCloseWait (maxRead : ℕ) (ws : DucqWs) :
    ws.fd.reads.length < (wsCloseWait maxRead ws).fd.reads.length := by
  induction maxRead generalizing ws with
  | zero =>
    rw [wsCloseWait]
    dsimp only
    split_ifs <;> exact reads_lt_readn (by decide) ws.fd ws.buf
  | succ maxRead ih =>
    have hfirst := @reads_lt_readn ducqMsgsz wsHeaderSize (by decide) ws.fd ws.buf
    rw [wsCloseWait]
    dsimp only
    split_ifs
    · exact hfirst.trans (ih ⟨_, _, ws.state, ws.isClient⟩)
    · exact hfirst

theorem readn_sameWrites (n ptr : ℕ) (s : Socket) (b : Buffer) :
    SameWrites s (readn n ptr s b).2.1 := by
  rcases Nat.lt_or_ge (clean s.rx).length n with hlt | hge
  · cases hf : hardFailure s.rx with
    | none =>
      obtain ⟨s', h1, -, h2⟩ := @readn_of_eof n ptr s b hlt hf
      rwa [h1]
    | some e =>
      obtain ⟨s', h1, -, -, h2⟩ := @readn_of_failure n ptr s b e hlt hf
      rwa [h1]
  · obtain ⟨s', h1, -, h2⟩ := @readn_of_le n ptr s b hge
    rwa [h1]

/-- Waiting writes nothing. -/
theorem wsCloseWait_keeps (maxRead : ℕ) (ws : DucqWs) :
    (wsCloseWait maxRead ws).fd.tx = ws.fd.tx ∧
      (wsCloseWait maxRead ws).isClient = ws.isClient := by
  induction maxRead generalizing ws with
  | zero =>
    have htx := (readn_sameWrites ducqMsgsz wsHeaderSize ws.fd ws.buf).tx
    rw [wsCloseWait]
    dsimp only
    split_ifs <;> exact ⟨htx, rfl⟩
  | succ maxRead ih =>
    have htx := (readn_sameWrites ducqMsgsz wsHeaderSize ws.fd ws.buf).tx
    rw [wsCloseWait]
    dsimp only
    split_ifs
    · obtain ⟨htx', hclient⟩ := ih ⟨(readn ducqMsgsz wsHeaderSize ws.fd ws.buf).2.1,
        (readn ducqMsgsz wsHeaderSize ws.fd ws.buf).2.2, ws.state, ws.isClient⟩
      exact ⟨htx'.trans htx, hclient⟩
    · exact ⟨htx, rfl⟩

/-- The memory that `_close` sends from. -/
theorem slice_withCloseBody (ws : DucqWs) :
    ws.withCloseBody.buf.slice wsHeaderSize 2 = statusBytes ws.statusCode ∧
      ws.withCloseBody.buf.cells 0 = wsFin ||| wsClose := by
  have hstatus : toLittleEndian 2 (wsReorder16 ws.statusCode) = statusBytes ws.statusCode :=
    toLittleEndian_wsReorder 2 ws.statusCode
  have hlen : (statusBytes ws.statusCode).length = 2 := by
    rw [statusBytes, List.length_reverse, length_toLittleEndian]
  rw [DucqWs.withCloseBody, hstatus]
  refine ⟨?_, ?_⟩
  · have hslice := (ws.buf.put 0 (wsFin ||| wsClose)).slice_store wsHeaderSize
      (statusBytes ws.statusCode)
    rwa [hlen] at hslice
  · show ((ws.buf.put 0 (wsFin ||| wsClose)).store wsHeaderSize _).cells 0 = _
    rw [Buffer.cells_store_of_lt (by decide)]
    rfl

/-- **Closing writes one Close**, whatever was in the endpoint's memory, and reads exactly if
no Close has been read before. -/
theorem wsCloseCall_over {ws : DucqWs} {r : Role} (hr : ws.isClient = r.isClient) (mask : WsMask)
    (rx : List Arrival) {wx : List Acceptance} (hw : Writable wx) :
    ∃ f, (wsCloseCall mask (ws.over rx wx)).2.fd.tx = f.bytes ∧ CloseTo r.peer f ∧
      f.payload = statusBytes ws.statusCode ∧
      (wsCloseCall mask (ws.over rx wx)).2.isClient = r.isClient ∧
      (readsDuring ws.fd (wsCloseCall mask (ws.over rx wx)).2.fd = [] ↔ ws.state = .closing) := by
  obtain ⟨hslice, hopening⟩ := slice_withCloseBody (ws.over rx wx)
  have hlen : (statusBytes ws.statusCode).length = 2 := by
    rw [statusBytes, List.length_reverse, length_toLittleEndian]
  obtain ⟨ws', hsend, hclient, -, htx⟩ := @wsSend_frame mask (statusBytes ws.statusCode)
    (ws.over rx wx).withCloseBody (fun _ => by rw [hlen]; decide) hw
  have hreads := wsSend_reads mask (statusBytes ws.statusCode) (ws.over rx wx).withCloseBody
  rw [hsend] at hreads
  have hreads : ws'.fd.reads = ws.fd.reads := hreads
  rw [hopening] at htx
  set f : WsFrame := ⟨wsFin ||| wsClose, if ws.isClient then some mask else none,
    statusBytes ws.statusCode⟩
  have htx : ws'.fd.tx = f.bytes := htx
  have hclient : ws'.isClient = r.isClient := hclient.trans hr
  have hcall : (wsCloseCall mask (ws.over rx wx)).2 =
      if ws.weInitedClose then wsCloseWait 4 ws' else ws' := by
    have hstatus : (ws.over rx wx).statusCode = ws.statusCode := rfl
    rw [wsCloseCall, hslice, hstatus, hsend]
    rfl
  have hclose : CloseTo r.peer f := by
    refine ⟨?_, (by rw [hlen]; decide : (statusBytes ws.statusCode).length < ducqMsgsz), rfl⟩
    show _ ↔ (if ws.isClient then some mask else none) = none
    rw [hr]
    cases r
    · exact ⟨fun h => absurd h (by decide), fun h => absurd h (Option.some_ne_none mask)⟩
    · exact ⟨fun _ => rfl, fun _ => rfl⟩
  refine ⟨f, ?_, hclose, rfl, ?_, ?_⟩
  all_goals rw [hcall]
  · split_ifs
    · exact (wsCloseWait_keeps 4 ws').1.trans htx
    · exact htx
  · split_ifs
    · exact (wsCloseWait_keeps 4 ws').2.trans hclient
    · exact hclient
  · have hinited : ws.weInitedClose = true ↔ ws.state ≠ .closing := decide_eq_true_iff
    rw [readsDuring]
    split_ifs with hwe
    · have hlt := reads_lt_wsCloseWait 4 ws'
      rw [hreads] at hlt
      refine iff_of_false (fun hnil => ?_) (hinited.mp hwe)
      exact absurd (List.drop_eq_nil_iff.mp hnil) (by omega)
    · rw [hreads, List.drop_length]
      exact iff_of_true rfl (not_not.mp fun hne => hwe (hinited.mpr hne))

/-- **A Close that is in flight is received as one**, and nothing is written for it. -/
theorem wsRecv_close {ws : DucqWs} {r : Role} (hr : ws.isClient = r.isClient) (mask : WsMask)
    (cells : ℕ → Byte) {f : WsFrame} {fs : List WsFrame} (hf : CloseTo r f)
    {rx : List Arrival} {wx : List Acceptance}
    (ho : Offers (WsFrame.stream (f :: fs)) rx wx) :
    ∃ ws' b', wsRecv mask ducqMsgsz (ws.over rx wx) (Buffer.fresh cells) =
        (.econnclosed, f.payload.length, ws', b') ∧
      b'.slice 0 (f.payload.length + 1) = f.payload ++ [0] ∧ ws'.fd.tx = [] ∧
      ws'.isClient = r.isClient ∧ bytes ws'.fd.rx = WsFrame.stream fs := by
  have hclean := clean_of_stream_cons ho.bytes_eq ho.no_failure
  have hlen : f.payload.length < 256 := hf.length_payload
  obtain ⟨fd, b', h1, h2, h3, h4⟩ := @wsRecv_frame mask ducqMsgsz (ws.over rx wx)
    (Buffer.fresh cells) f _ hclean (by rw [← hf.mask_eq_none_iff, ← hr]; rfl)
    (by show _ ≤ (256 + 1) % 2 ^ 64; omega)
  have h0 : ((ws.over rx wx).buf.store 0 f.header).cells 0 = wsFin ||| wsClose :=
    (cells_zero_store_header ws.buf f).trans hf.opening
  refine ⟨⟨fd, (ws.over rx wx).buf.store 0 f.header, .closing, (ws.over rx wx).isClient⟩, b', ?_,
    h4, h3.tx, hr, (stream_of_advance ho.bytes_eq ho.no_failure h2).1⟩
  rw [h1, wsRecvOpcode, if_pos (by rw [h0]; decide)]

/-! ## The system -/

/-- A link, and which of its ends have closed. -/
structure ClosingLink where
  link : Link
  closed : Role → Bool

/-- What can be seen of a step: a call as before, or a Close with its status code and what
the end has read while it waited. -/
inductive ClosingEvent where
  | call (e : Event)
  | closed (r : Role) (statusCode : ℕ) (reads : List ReadResult)
  deriving DecidableEq

/-- Who makes the step. -/
def Event.actor : Event → Role
  | sent r _ _ => r
  | pinged _ => .client
  | received r _ => r

/-- One step.  An end that has not closed makes a call, or closes: then anything may arrive,
or fail, while it waits.  An end that has closed makes no step, which is an assumption and not
something the code sees to. -/
inductive ClosingStep : ClosingLink → ClosingEvent → ClosingLink → Prop
  | call {c : ClosingLink} {e : Event} {l' : Link} (hopen : c.closed e.actor = false)
      (h : LinkStep c.link e l') : ClosingStep c (.call e) ⟨l', c.closed⟩
  | close {c : ClosingLink} (r : Role) (mask : WsMask) (rx : List Arrival)
      {wx : List Acceptance} (hopen : c.closed r = false) (hw : Writable wx) :
      ClosingStep c
        (.closed r (c.link.ends r).statusCode (readsDuring (c.link.ends r).fd
          (wsCloseCall mask ((c.link.ends r).over rx wx)).2.fd))
        ⟨c.link.after r (wsCloseCall mask ((c.link.ends r).over rx wx)).2,
          Function.update c.closed r true⟩

/-- The start of a session: neither end has closed, or read a Close. -/
structure ClosingLink.Fresh (c : ClosingLink) : Prop where
  link : c.link.Fresh
  closed : ∀ r, c.closed r = false
  state : ∀ r, (c.link.ends r).state ≠ .closing

/-! ## The specification -/

namespace ClosingEvent

/-- Who makes the step. -/
def actor : ClosingEvent → Role
  | call e => e.actor
  | closed r _ _ => r

/-- What the end `r` is to find of what was written to it. -/
def sentTo (r : Role) : ClosingEvent → List Outcome
  | call e => e.sentTo r
  | closed r' statusCode _ => if r' = r.peer then [closeOutcome statusCode] else []

/-- What the end `r` finds. -/
def readBy (r : Role) : ClosingEvent → List Outcome
  | call e => e.readBy r
  | closed _ _ _ => []

end ClosingEvent

/-- The invariant: what is in flight to an end that has not closed is a stream of frames, and
these are what it is to find. -/
structure ClosingLink.Carrying (c : ClosingLink) (q : Role → List Outcome) : Prop where
  roles : ∀ r, (c.link.ends r).isClient = r.isClient
  frames : ∀ r, c.closed r = false → ∃ fs, c.link.flight r = WsFrame.stream fs ∧
    (∀ f ∈ fs, WrittenTo r f ∨ CloseTo r f) ∧ q r = fs.map WsFrame.found

theorem ClosingLink.Fresh.carrying {c : ClosingLink} (h : c.Fresh) : c.Carrying fun _ => [] :=
  ⟨h.link.roles, fun r _ => ⟨[], h.link.flight r, fun _ hf => absurd hf List.not_mem_nil, rfl⟩⟩

/-! ## One step -/

/-- A call that writes the frames `gs`, and leaves frames unread if the end has not closed. -/
theorem ClosingLink.Carrying.after {c : ClosingLink} {q : Role → List Outcome}
    (hc : c.Carrying q) {r : Role} {ws : DucqWs} {gs : List WsFrame} {closed : Role → Bool}
    {qr : List Outcome} (hpeer : closed r.peer = c.closed r.peer)
    (hr : ws.isClient = r.isClient) (hgs : ws.fd.tx = WsFrame.stream gs)
    (hgs' : ∀ g ∈ gs, WrittenTo r.peer g ∨ CloseTo r.peer g)
    (hself : closed r = false → ∃ fs, bytes ws.fd.rx = WsFrame.stream fs ∧
      (∀ f ∈ fs, WrittenTo r f ∨ CloseTo r f) ∧ qr = fs.map WsFrame.found) :
    ∃ q', ClosingLink.Carrying ⟨c.link.after r ws, closed⟩ q' ∧ q' r = qr ∧
      q' r.peer = q r.peer ++ gs.map WsFrame.found := by
  set q' := Function.update (Function.update q r qr) r.peer
    (q r.peer ++ gs.map WsFrame.found) with hq'
  have hqself : q' r = qr := by
    rw [hq', Function.update_of_ne (Role.ne_peer r), Function.update_self]
  have hqpeer : q' r.peer = q r.peer ++ gs.map WsFrame.found := by
    rw [hq', Function.update_self]
  refine ⟨q', ⟨fun i => ?_, fun i hi => ?_⟩, hqself, hqpeer⟩
  · rcases r.eq_or_eq_peer i with rfl | rfl
    · show ((c.link.after i ws).ends i).isClient = _
      rw [Link.after_ends_self, hr]
    · show ((c.link.after r ws).ends r.peer).isClient = _
      rw [Link.after_ends_peer, hc.roles]
  · rcases r.eq_or_eq_peer i with rfl | rfl
    · obtain ⟨fs, hfs, hfs', hqr⟩ := hself hi
      exact ⟨fs, (Link.after_flight_self _ _ _).trans hfs, hfs', hqself.trans hqr⟩
    · obtain ⟨hs, h1, h2, h3⟩ := hc.frames r.peer (hpeer ▸ hi)
      refine ⟨hs ++ gs, ?_, List.forall_mem_append.mpr ⟨h2, hgs'⟩, ?_⟩
      · show (c.link.after r ws).flight r.peer = _
        rw [Link.after_flight_peer, h1, hgs, WsFrame.stream_append]
      · rw [hqpeer, h3, List.map_append]

/-- Frames that are put on the wire. -/
theorem ClosingLink.Carrying.write {c : ClosingLink} {q : Role → List Outcome}
    (hc : c.Carrying q) {r : Role} {g : WsFrame} (hg : WrittenTo r g) :
    ClosingLink.Carrying ⟨c.link.write r g.bytes, c.closed⟩
      (Function.update q r (q r ++ [g.outcome])) := by
  refine ⟨hc.roles, fun i hi => ?_⟩
  obtain ⟨hs, h1, h2, h3⟩ := hc.frames i hi
  by_cases hir : i = r
  · subst hir
    refine ⟨hs ++ [g], ?_,
      List.forall_mem_append.mpr ⟨h2, List.forall_mem_singleton.mpr (.inl hg)⟩, ?_⟩
    · show Function.update c.link.flight i _ i = _
      rw [Function.update_self, h1, WsFrame.stream_append, WsFrame.stream_cons,
        WsFrame.stream_nil, List.append_nil]
    · rw [Function.update_self, h3, List.map_append, List.map_singleton, hg.found]
  · refine ⟨hs, ?_, h2, ?_⟩
    · show Function.update c.link.flight r _ i = _
      rw [Function.update_of_ne hir, h1]
    · rw [Function.update_of_ne hir, h3]

/-- **One step** keeps the invariant, takes from the queues what is seen of it, and adds to
them what was written. -/
theorem closingStep_carrying {c c' : ClosingLink} {e : ClosingEvent} {q : Role → List Outcome}
    (hc : c.Carrying q) (h : ClosingStep c e c') :
    ∃ q', c'.Carrying q' ∧ ∀ r, q r ++ e.sentTo r = e.readBy r ++ q' r := by
  cases h with
  | call hopen h =>
    cases h with
    | send r mask hm ho =>
      obtain ⟨fs, h7, h8, h9⟩ := hc.frames r hopen
      obtain ⟨ws', f, h1, h2, h3, h4, h5, h6⟩ := wsTextSend_over (hc.roles r) mask hm ho
      rw [h1]
      obtain ⟨q', h10, h11, h12⟩ := @ClosingLink.Carrying.after c q hc r ws' [f] c.closed (q r)
        rfl h2 (h4.trans (List.append_nil _).symm) (List.forall_mem_singleton.mpr (.inl h5))
        fun _ => ⟨fs, h3.trans h7, h8, h9⟩
      refine ⟨q', h10, fun i => ?_⟩
      rcases r.eq_or_eq_peer i with rfl | rfl
      · rw [h11]
        simp [ClosingEvent.sentTo, ClosingEvent.readBy, Event.sentTo, Event.readBy]
      · rw [h12, List.map_singleton, h5.found, h6]
        cases r <;> simp [ClosingEvent.sentTo, ClosingEvent.readBy, Event.sentTo, Event.readBy,
          Role.peer]
    | @ping mask m hm =>
      have hping : WrittenTo .server (pingFrame mask m) :=
        ⟨⟨fun h => absurd h (by decide), fun h => absurd h (Option.some_ne_none mask)⟩, hm,
          Or.inr (Or.inl ⟨rfl, rfl⟩)⟩
      have hout : (pingFrame mask m).outcome = ⟨.protocol, m ++ [0], (pongFrame m).bytes⟩ :=
        WsFrame.outcome_ping rfl
      refine ⟨_, hc.write hping, fun i => ?_⟩
      cases i with
      | client => simp [ClosingEvent.sentTo, ClosingEvent.readBy, Event.sentTo, Event.readBy]
      | server =>
        simp [ClosingEvent.sentTo, ClosingEvent.readBy, Event.sentTo, Event.readBy, hout]
    | recv r mask cells hne ho =>
      obtain ⟨fs, h1, h2, h3⟩ := hc.frames r hopen
      rw [h1] at hne ho
      cases fs with
      | nil => exact absurd rfl hne
      | cons f fs =>
        have hrest : ∀ g ∈ fs, WrittenTo r g ∨ CloseTo r g :=
          fun g hg => h2 g (List.mem_cons_of_mem _ hg)
        rcases h2 f List.mem_cons_self with hf | hf
        · obtain ⟨ws', b', h4, h5, h6, h7, h8⟩ := wsRecv_over (hc.roles r) mask cells hf ho
          rw [h4]
          obtain ⟨gs, h9, h10, h11⟩ := hf.reply
          obtain ⟨q', h12, h13, h14⟩ := @ClosingLink.Carrying.after c q hc r ws' gs c.closed
            (fs.map WsFrame.found) rfl h7 (h6.trans h9) (fun g hg => .inl (h10 g hg))
            fun _ => ⟨fs, h8, hrest, rfl⟩
          have hevent : Event.received r ⟨f.outcome.state, b'.slice 0 (f.payload.length + 1),
              ws'.fd.tx⟩ = .received r f.outcome := by rw [h5, h6]
          have hfound : gs.map WsFrame.found = gs.map WsFrame.outcome :=
            List.map_congr_left fun g hg => (h10 g hg).found
          rw [hevent]
          refine ⟨q', h12, fun i => ?_⟩
          rcases r.eq_or_eq_peer i with rfl | rfl
          · rw [h13, h3, List.map_cons, hf.found]
            simp [ClosingEvent.sentTo, ClosingEvent.readBy, Event.sentTo, Event.readBy]
          · rw [h14, hfound, h11]
            simp [ClosingEvent.sentTo, ClosingEvent.readBy, Event.readBy]
        · -- a Close, for which nothing is written
          obtain ⟨ws', b', h4, h5, h6, h7, h8⟩ := wsRecv_close (hc.roles r) mask cells hf ho
          rw [h4]
          obtain ⟨q', h12, h13, h14⟩ := @ClosingLink.Carrying.after c q hc r ws' [] c.closed
            (fs.map WsFrame.found) rfl h7 h6 (fun g hg => absurd hg List.not_mem_nil)
            fun _ => ⟨fs, h8, hrest, rfl⟩
          have hevent : Event.received r ⟨.econnclosed, b'.slice 0 (f.payload.length + 1),
              ws'.fd.tx⟩ = .received r f.found := by rw [h5, h6, hf.found]
          have hreply : f.found.reply = [] := by rw [hf.found]
          rw [hevent]
          refine ⟨q', h12, fun i => ?_⟩
          rcases r.eq_or_eq_peer i with rfl | rfl
          · rw [h13, h3, List.map_cons]
            simp [ClosingEvent.sentTo, ClosingEvent.readBy, Event.sentTo, Event.readBy]
          · rw [h14]
            simp [ClosingEvent.sentTo, ClosingEvent.readBy, Event.sentTo, Event.readBy, hreply]
  | close r mask rx hopen hw =>
    obtain ⟨f, h1, h2, h3, h4, -⟩ := wsCloseCall_over (hc.roles r) mask rx hw
    obtain ⟨q', h5, h6, h7⟩ := @ClosingLink.Carrying.after c q hc r _ [f]
      (Function.update c.closed r true) (q r) (Function.update_of_ne (Role.peer_ne r) _ _) h4
      (h1.trans (List.append_nil _).symm) (List.forall_mem_singleton.mpr (.inr h2))
      fun hself => absurd hself (by rw [Function.update_self]; decide)
    refine ⟨q', h5, fun i => ?_⟩
    rcases r.eq_or_eq_peer i with rfl | rfl
    · rw [h6]
      simp [ClosingEvent.sentTo, ClosingEvent.readBy]
    · rw [h7, List.map_singleton, h2.found, h3]
      cases r <;> simp [ClosingEvent.sentTo, ClosingEvent.readBy, Role.peer, closeOutcome]

/-! ## Who has closed, and who has read a Close -/

theorem ClosingStep.actor_open {c c' : ClosingLink} {e : ClosingEvent} (h : ClosingStep c e c') :
    c.closed e.actor = false := by
  cases h with
  | call hopen _ => exact hopen
  | close _ _ _ hopen _ => exact hopen

theorem ClosingStep.closed {c c' : ClosingLink} {e : ClosingEvent} (h : ClosingStep c e c')
    {r : Role} (hr : c.closed r = true ∨ ∃ statusCode reads, e = .closed r statusCode reads) :
    c'.closed r = true := by
  cases h with
  | call hopen _ =>
    rcases hr with hr | ⟨_, _, he⟩
    · exact hr
    · cases he
  | close r' _ _ _ _ =>
    by_cases hrr : r = r'
    · rw [hrr]
      exact Function.update_self _ _ _
    · rcases hr with hr | ⟨_, _, he⟩
      · exact (Function.update_of_ne hrr _ _).trans hr
      · cases he
        exact absurd rfl hrr

theorem closed_of_run {c c' : ClosingLink} {es : List ClosingEvent}
    (hrun : Run ClosingStep c es c') {r : Role} (hr : c.closed r = true) : c'.closed r = true := by
  induction hrun with
  | nil c => exact hr
  | cons hstep _ ih => exact ih (hstep.closed (.inl hr))

/-- **An end that has closed does nothing any more.** -/
theorem actor_ne_of_closed {c c' : ClosingLink} {es : List ClosingEvent}
    (hrun : Run ClosingStep c es c') {r : Role} (hr : c.closed r = true) :
    ∀ e ∈ es, e.actor ≠ r := by
  induction hrun with
  | nil c => exact fun e he => absurd he List.not_mem_nil
  | cons hstep _ ih =>
    refine List.forall_mem_cons.mpr ⟨?_, ih (hstep.closed (.inl hr))⟩
    rintro rfl
    exact absurd (hstep.actor_open.symm.trans hr) (by decide)

/-- What is seen of an end that closes. -/
theorem ClosingStep.of_closed {c c' : ClosingLink} {r : Role} {statusCode : ℕ}
    {reads : List ReadResult} (h : ClosingStep c (.closed r statusCode reads) c')
    (hr : (c.link.ends r).isClient = r.isClient) :
    statusCode = (c.link.ends r).statusCode ∧
      (reads = [] ↔ (c.link.ends r).state = .closing) := by
  cases h with
  | close _ mask rx _ hw =>
    obtain ⟨-, -, -, -, -, hreads⟩ := wsCloseCall_over hr mask rx hw
    exact ⟨rfl, hreads⟩

/-- Whether a Close is among what was found. -/
def HasClose (os : List Outcome) : Prop := ∃ o ∈ os, o.state = .econnclosed

instance (os : List Outcome) : Decidable (HasClose os) :=
  inferInstanceAs (Decidable (∃ o ∈ os, o.state = .econnclosed))

theorem hasClose_append {os os' : List Outcome} :
    HasClose (os ++ os') ↔ HasClose os ∨ HasClose os' := by
  constructor
  · rintro ⟨o, ho, hstate⟩
    exact (List.mem_append.mp ho).imp (fun h => ⟨o, h, hstate⟩) fun h => ⟨o, h, hstate⟩
  · rintro (⟨o, ho, hstate⟩ | ⟨o, ho, hstate⟩)
    · exact ⟨o, List.mem_append_left _ ho, hstate⟩
    · exact ⟨o, List.mem_append_right _ ho, hstate⟩

theorem not_hasClose_nil : ¬ HasClose [] := fun ⟨_, ho, _⟩ => List.not_mem_nil ho

/-- One step of an end that has not closed after it. -/
theorem ClosingStep.state_iff {c c' : ClosingLink} {e : ClosingEvent} (h : ClosingStep c e c')
    {r : Role} (hr : c'.closed r = false) :
    (c'.link.ends r).state = .closing ↔
      (c.link.ends r).state = .closing ∨ HasClose (e.readBy r) := by
  have hquiet : ∀ {ws : DucqWs}, ws.state = (c.link.ends r).state →
      (ws.state = .closing ↔ (c.link.ends r).state = .closing ∨ HasClose []) := fun hws => by
    rw [hws, or_iff_left not_hasClose_nil]
  cases h with
  | call hopen h =>
    cases h with
    | send r' mask hm ho =>
      rcases r'.eq_or_eq_peer r with rfl | rfl
      · refine hquiet ?_
        rw [Link.after_ends_self, wsTextSend, wsSend_state]
        rfl
      · refine hquiet ?_
        rw [Link.after_ends_peer]
    | ping mask hm => exact hquiet rfl
    | @recv r' mask cells rx wx hne ho =>
      rcases r'.eq_or_eq_peer r with rfl | rfl
      · have hafter := wsRecv_state mask ducqMsgsz ((c.link.ends r).over rx wx)
          (Buffer.fresh cells)
        show ((c.link.after r _).ends r).state = _ ↔ _
        rw [Link.after_ends_self, hafter]
        simp only [ClosingEvent.readBy, Event.readBy, if_true, HasClose, List.mem_singleton,
          exists_eq_left]
        split_ifs with hstate
        · exact iff_of_true rfl (.inr hstate)
        · exact (or_iff_left hstate).symm
      · have hreadBy : ∀ o, (ClosingEvent.call (.received r' o)).readBy r'.peer = [] :=
          fun o => if_neg (Role.ne_peer r')
        rw [hreadBy]
        refine hquiet ?_
        rw [Link.after_ends_peer]
  | close r' mask rx hopen hw =>
    rcases r'.eq_or_eq_peer r with rfl | rfl
    · exact absurd hr (by show ¬ Function.update c.closed r true r = false; simp)
    · refine hquiet ?_
      show ((c.link.after r' _).ends r'.peer).state = _
      rw [Link.after_ends_peer]

/-- **A whole run**: an end is closing exactly if it has read a Close. -/
theorem state_iff_hasClose {c c' : ClosingLink} {es : List ClosingEvent}
    (hrun : Run ClosingStep c es c') {r : Role} (hr : c'.closed r = false) :
    (c'.link.ends r).state = .closing ↔
      (c.link.ends r).state = .closing ∨ HasClose (es.flatMap (ClosingEvent.readBy r)) := by
  induction hrun with
  | nil c => exact (or_iff_left not_hasClose_nil).symm
  | @cons c c' c'' e es hstep hrest ih =>
    have hr' : c'.closed r = false := by
      refine Bool.eq_false_iff.mpr fun hclosed => ?_
      exact absurd (hr.symm.trans (closed_of_run hrest hclosed)) (by decide)
    rw [ih hr, hstep.state_iff hr', List.flatMap_cons, hasClose_append, or_assoc]

/-! ## Whole sessions -/

namespace ClosingEvent

variable {r : Role} {e : ClosingEvent}

/-- Only the other end writes to an end. -/
theorem sentTo_eq_nil (h : e.actor ≠ r.peer) : e.sentTo r = [] := by
  rcases e with (⟨r', m, st⟩ | m | ⟨r', o⟩) | ⟨r', statusCode, reads⟩
  · exact if_neg h
  · refine if_neg ?_
    rintro rfl
    exact h rfl
  · exact if_neg fun hr => h hr.1
  · exact if_neg h

/-- Only closing writes a Close. -/
theorem eq_closed_of_hasClose (h : HasClose (e.sentTo r)) :
    ∃ statusCode reads, e = .closed r.peer statusCode reads := by
  obtain ⟨o, ho, hstate⟩ := h
  cases e with
  | closed r' statusCode reads =>
    simp only [sentTo] at ho
    split_ifs at ho with hr
    · exact ⟨statusCode, reads, by rw [hr]⟩
    · exact absurd ho List.not_mem_nil
  | call e =>
    cases e
    all_goals
      simp only [sentTo, Event.sentTo] at ho
      split_ifs at ho
      · rw [List.mem_singleton.mp ho] at hstate
        cases hstate
      · exact absurd ho List.not_mem_nil

end ClosingEvent

theorem hasClose_flatMap {f : ClosingEvent → List Outcome} {es : List ClosingEvent} :
    HasClose (es.flatMap f) ↔ ∃ e ∈ es, HasClose (f e) := by
  constructor
  · rintro ⟨o, ho, hstate⟩
    obtain ⟨e, he, hoe⟩ := List.mem_flatMap.mp ho
    exact ⟨e, he, o, hoe, hstate⟩
  · rintro ⟨e, he, o, hoe, hstate⟩
    exact ⟨o, List.mem_flatMap.mpr ⟨e, he, hoe⟩, hstate⟩

/-- **The last thing that is written to an end is the Close**, once one is written. -/
theorem sentTo_eq_of_hasClose {c c' : ClosingLink} {es : List ClosingEvent}
    (hrun : Run ClosingStep c es c') {r : Role}
    (h : HasClose (es.flatMap (ClosingEvent.sentTo r))) :
    ∃ os o, es.flatMap (ClosingEvent.sentTo r) = os ++ [o] ∧ ¬ HasClose os := by
  obtain ⟨e, he, hclose⟩ := hasClose_flatMap.mp h
  obtain ⟨statusCode, reads, rfl⟩ := ClosingEvent.eq_closed_of_hasClose hclose
  obtain ⟨es₁, es₂, rfl⟩ := List.append_of_mem he
  obtain ⟨c₁, hrun₁, hrun₂⟩ := hrun.of_append
  obtain _ | ⟨hstep, hrest⟩ := hrun₂
  have hafter : es₂.flatMap (ClosingEvent.sentTo r) = [] := by
    refine List.flatMap_eq_nil_iff.mpr fun e he => ClosingEvent.sentTo_eq_nil ?_
    exact actor_ne_of_closed hrest (hstep.closed (.inr ⟨_, _, rfl⟩)) e he
  refine ⟨es₁.flatMap (ClosingEvent.sentTo r), closeOutcome statusCode, ?_, fun hbefore => ?_⟩
  · rw [List.flatMap_append, List.flatMap_cons, hafter, List.append_nil]
    exact congrArg _ (if_pos rfl)
  · obtain ⟨e, he, hclose⟩ := hasClose_flatMap.mp hbefore
    obtain ⟨statusCode', reads', rfl⟩ := ClosingEvent.eq_closed_of_hasClose hclose
    obtain ⟨es₃, es₄, rfl⟩ := List.append_of_mem he
    obtain ⟨c₃, -, hrun₃⟩ := hrun₁.of_append
    obtain _ | ⟨hstep₃, hrest₃⟩ := hrun₃
    have hclosed := closed_of_run hrest₃ (hstep₃.closed (.inr ⟨_, _, rfl⟩))
    exact absurd (hstep.actor_open.symm.trans hclosed) (by decide)

/-- **The closing handshake**, over any session of two ends that close when they like: messages
are shorter than `DUCQ_MSGSZ`, no call fails for its descriptor, Pings come from the client, and
an end makes no call once it has closed.  An end finds what was written to it, in order; a Close
is the last of it, and whoever finds one has found everything.  Whoever closes says 1001 if it
is the server and has not read a Close, and 1000 if not, and waits exactly if it has not read
one. -/
theorem closingHandshake {c c' : ClosingLink} {es : List ClosingEvent} (hc : c.Fresh)
    (hrun : Run ClosingStep c es c') (r : Role) :
    (es.flatMap (ClosingEvent.readBy r) <+: es.flatMap (ClosingEvent.sentTo r) ∧
      (c'.closed r = false → c'.link.flight r = [] →
        es.flatMap (ClosingEvent.readBy r) = es.flatMap (ClosingEvent.sentTo r)) ∧
      (HasClose (es.flatMap (ClosingEvent.readBy r)) →
        es.flatMap (ClosingEvent.readBy r) = es.flatMap (ClosingEvent.sentTo r))) ∧
    ∀ es₁ es₂ statusCode reads, es = es₁ ++ .closed r statusCode reads :: es₂ →
      (∀ e ∈ es₂, e.actor ≠ r) ∧
      (statusCode = if r = .server ∧ ¬ HasClose (es₁.flatMap (ClosingEvent.readBy r)) then 1001
        else 1000) ∧
      (reads = [] ↔ HasClose (es₁.flatMap (ClosingEvent.readBy r))) := by
  have hcarries : Carries ClosingStep ClosingEvent.sentTo ClosingEvent.readBy
      ClosingLink.Carrying := fun _ _ _ _ hc h => closingStep_carrying hc h
  obtain ⟨q', hq', htaken⟩ := hcarries.from_empty hrun hc.carrying
  refine ⟨⟨(htaken r).1, fun hopen hnil => (htaken r).2 ?_, fun hclose => ?_⟩, ?_⟩
  · obtain ⟨fs, h1, -, h2⟩ := hq'.frames r hopen
    cases fs with
    | nil => exact h2
    | cons f fs =>
      rw [hnil, WsFrame.stream_cons] at h1
      have h3 := congrArg List.length h1
      have h4 := f.two_le_length_header
      rw [WsFrame.bytes, List.length_nil, List.length_append, List.length_append] at h3
      omega
  · -- a Close that was found is the last of what was written
    obtain ⟨rest, hrest⟩ := (htaken r).1
    have hsent : HasClose (es.flatMap (ClosingEvent.sentTo r)) := by
      rw [← hrest]
      exact hasClose_append.mpr (.inl hclose)
    obtain ⟨os, o, hos, hnone⟩ := sentTo_eq_of_hasClose hrun hsent
    rcases List.eq_nil_or_concat' rest with rfl | ⟨rest', x, rfl⟩
    · rw [← hrest, List.append_nil]
    · rw [hos, ← List.append_assoc] at hrest
      have hos' := (List.append_inj' hrest rfl).1
      rw [← hos'] at hnone
      exact absurd (hasClose_append.mpr (.inl hclose)) hnone
  · rintro es₁ es₂ statusCode reads rfl
    obtain ⟨c₁, hrun₁, hrun₂⟩ := hrun.of_append
    obtain ⟨q₁, hq₁, -⟩ := hcarries.from_empty hrun₁ hc.carrying
    obtain _ | ⟨hstep, hrest⟩ := hrun₂
    have hiff := state_iff_hasClose hrun₁ hstep.actor_open
    rw [or_iff_right (hc.state _)] at hiff
    obtain ⟨hstatus, hreads⟩ := hstep.of_closed (hq₁.roles r)
    refine ⟨actor_ne_of_closed hrest (hstep.closed (.inr ⟨_, _, rfl⟩)), ?_, hreads.trans hiff⟩
    rw [hstatus, DucqWs.statusCode, hq₁.roles r]
    refine if_congr (and_congr ?_ ?_) rfl rfl
    · cases r <;> decide
    · exact decide_eq_true_iff.trans (not_congr hiff)

/-- Two ends that are open. -/
def ClosingLink.idle : ClosingLink := ⟨Link.idle, fun _ => false⟩

/-- The server goes away with a message to it still in flight, and the client answers. -/
theorem closingHandshake_goingAway : ∃ c' es, ClosingLink.idle.Fresh ∧
    Run ClosingStep ClosingLink.idle es c' ∧
    es.drop 1 = [.closed .server 1001 [.data [0x81, 0x82, 1, 2, 3, 4, 105, 107], .data [],
        .data []],
      .call (.received .client ⟨.econnclosed, [3, 233, 0], []⟩), .closed .client 1000 []] ∧
    es.flatMap (ClosingEvent.readBy .client) <+: es.flatMap (ClosingEvent.sentTo .client) := by
  have hfresh : ClosingLink.idle.Fresh :=
    ⟨⟨fun _ => rfl, fun _ => rfl⟩, fun _ => rfl, fun _ => WsState.noConfusion⟩
  have hwx : Writable [] := fun _ h => absurd h List.not_mem_nil
  obtain ⟨c', es, hrun, hes⟩ : ∃ c' es, Run ClosingStep ClosingLink.idle es c' ∧
      es.drop 1 = [.closed .server 1001 [.data [0x81, 0x82, 1, 2, 3, 4, 105, 107], .data [],
          .data []],
        .call (.received .client ⟨.econnclosed, [3, 233, 0], []⟩), .closed .client 1000 []] := by
    refine ⟨_, _,
      .cons (@ClosingStep.call _ _ _ ?_
        (@LinkStep.send _ .client ⟨[1, 2, 3, 4], rfl⟩ (ascii "hi") [] [] ?_ ⟨?_, rfl, hwx⟩))
      (.cons (@ClosingStep.close _ .server ⟨[1, 2, 3, 4], rfl⟩
        [.chunk 0x81 [0x82, 1, 2, 3, 4, 105, 107]] [] ?_ hwx)
      (.cons (@ClosingStep.call _ _ _ ?_
        (@LinkStep.recv _ .client ⟨[1, 2, 3, 4], rfl⟩ (fun _ => 0)
          [.chunk 0x88 [2, 3], .chunk 233 []] [] ?_ ⟨?_, rfl, hwx⟩))
      (.cons (@ClosingStep.close _ .client ⟨[1, 2, 3, 4], rfl⟩ [] [] ?_ hwx)
      (.nil _)))), ?_⟩
    all_goals decide
  exact ⟨c', es, hfresh, hrun, hes, (closingHandshake hfresh hrun .client).1.1⟩

end Ducq
