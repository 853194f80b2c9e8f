import Ducq.System.Pass
import Ducq.Ws.Session

/-!
# Pongs that nobody has asked for

A peer may put a Pong on the wire whenever it likes, and what it says otherwise should be
served as if the Pong had not been there.  Here a client sends text frames with Pongs in
between, and `round_table` comes to it once for each frame (`serveClient`); the same client
without the Pongs is a second run, and the two are compared in the messages that are
dispatched and in whether the client stays registered (`PongsTransparent`).

`_recv` knows one opcode that is ignored, and it is not this one: a Pong is not
implemented, and `round_table` deletes a client for that.  Only a client that was to be
deleted at its next text anyway does not notice (`pongsTransparent_iff`).
-/

namespace Ducq

open CMemory CNumber ByteStream

/-! ## Rounds -/

/-- A round in which `round_table` comes to the client: the table, the client's slot and what
`select` has said, what surrounds the call of `_recv`, and what the handler of a message
makes of the table and of the endpoint, of which it does not read. -/
structure Round where
  table : World
  slot : Fin ducqMaxConnections
  ctx : RoundTableCtx
  mask : WsMask
  stack : ℕ → Byte
  strerror : List Byte
  env : Env
  acts : List Byte → List Act
  after : List Byte → DucqWs → DucqWs
  client : (table.conn slot).type = .client
  ready : (table.conn slot).fd ∈ ctx.fds
  rx_after : ∀ message ws, (after message ws).fd.rx = ws.fd.rx
  isClient_after : ∀ message ws, (after message ws).isClient = ws.isClient

namespace Round

variable (r : Round)

/-- The call of `_recv`, into a buffer that has been cleared. -/
def recv (ws : DucqWs) : DucqState × ℕ × DucqWs × Buffer :=
  wsRecv r.mask ducqMsgsz ws (Buffer.fresh fun i => if i < ducqMsgsz then 0 else r.stack i)

/-- What `round_table` returns when `_recv` has returned the state and left the message. -/
def control (state : DucqState) (message : List Byte) : ℕ :=
  (roundTable (fun _ => ⟨state, message.length, message, r.strerror, r.env, r.acts message⟩)
    r.slot r.ctx r.table).1

end Round

/-- The messages for which `_recv` returns `DUCQ_OK`, and whether `round_table` keeps the
client, in round after round until it does not. -/
def serveClient : List Round → DucqWs → List (List Byte) × Bool
  | [], _ => ([], true)
  | r :: rs, ws =>
    match r.recv ws with
    | (state, count, ws, b) =>
      let message := b.slice 0 count
      let got := if state = .ok then [message] else []
      if r.control state message &&& ducqLoopDelete = 0 then
        match serveClient rs (r.after message ws) with
        | (more, kept) => (got ++ more, kept)
      else (got, false)

/-! ## Texts and Pongs -/

namespace WsFrame

/-- A text frame, whole or not. -/
def IsText (f : WsFrame) : Prop := f.opening &&& wsOpcode = wsText

/-- A Pong. -/
def IsPong (f : WsFrame) : Prop := f.opening &&& wsOpcode = wsPong

/-- A text for which `_recv` returns `DUCQ_OK`: the whole of a message, not too long. -/
def Accepted (f : WsFrame) : Prop :=
  f.opening = wsFin ||| wsText ∧ f.payload.length ≤ ducqMsgsz + 1

instance (f : WsFrame) : Decidable f.IsText := inferInstanceAs (Decidable (_ = _))

instance (f : WsFrame) : Decidable f.IsPong := inferInstanceAs (Decidable (_ = _))

instance (f : WsFrame) : Decidable f.Accepted := inferInstanceAs (Decidable (_ ∧ _))

/-- Masked, a text or a Pong, and with a length that a header can say. -/
structure TextOrPong (f : WsFrame) : Prop where
  isText_or_isPong : f.IsText ∨ f.IsPong
  masked : f.mask ≠ none
  length_payload : f.payload.length < 2 ^ 64

variable {f : WsFrame}

theorem Accepted.isText (h : f.Accepted) : f.IsText := by
  rw [IsText, h.1]
  decide

theorem IsPong.not_isText (h : f.IsPong) : ¬ f.IsText := by
  intro htext
  rw [IsText, h] at htext
  exact absurd htext (by decide)

theorem IsPong.not_accepted (h : f.IsPong) : ¬ f.Accepted :=
  fun haccepted => h.not_isText haccepted.isText

end WsFrame

/-- The endpoint of a server to which the frames are coming, cut in any way and with nothing
worse than interruptions in between. -/
structure Brings (ws : DucqWs) (fs : List WsFrame) : Prop where
  server : ws.isClient = false
  bytes_eq : bytes ws.fd.rx = WsFrame.stream fs
  no_failure : hardFailure ws.fd.rx = none

/-- A client with Pongs and one without them: the same messages in the same order, and both
stay or neither does. -/
def PongsTransparent (rs : List Round) (ws : DucqWs) (rs' : List Round) (ws' : DucqWs) : Prop :=
  serveClient rs ws = serveClient rs' ws'

/-- The texts among the frames. -/
def texts (fs : List WsFrame) : List WsFrame := fs.filter fun f => f.IsText

/-- What frames come to: the messages up to the first frame that is refused, and whether
there is none. -/
def served : List WsFrame → List (List Byte) × Bool
  | [] => ([], true)
  | f :: fs => if f.Accepted then (f.payload :: (served fs).1, (served fs).2) else ([], false)

/-- Behind texts that were accepted, no Pong comes but before a text that is refused. -/
def PongsHarmless (fs : List WsFrame) : Prop :=
  ∀ before p after, fs = before ++ p :: after → (∀ f ∈ before, f.Accepted) → p.IsPong →
    ∃ g ∈ (texts after).head?, ¬ g.Accepted

/-! ## One round -/

/-- **Two states are not the end of a client.** -/
theorem Round.control_and_eq_zero_iff (r : Round) (state : DucqState) (message : List Byte) :
    r.control state message &&& ducqLoopDelete = 0 ↔ state = .ok ∨ state = .protocol := by
  have hcontrol : ∀ c : ℕ, (c ||| ducqLoopDelete) &&& ducqLoopDelete ≠ 0 := by
    intro c
    rw [Nat.and_or_distrib_right, Nat.and_self]
    exact fun h => absurd (Nat.or_eq_zero_iff.mp h).2 (by decide)
  have hgo : (if r.ctx.nready - 1 ≤ 0 then ducqLoopBreak else ducqLoopContinue) &&&
      ducqLoopDelete = 0 := by
    split_ifs <;> decide
  rw [Round.control, roundTable, if_neg (not_not.mpr r.ready)]
  dsimp only
  rw [serve, if_neg (by rw [r.client]; exact ConnectionType.noConfusion)]
  cases state with
  | ok => exact iff_of_true hgo (.inl rfl)
  | protocol => exact iff_of_true hgo (.inr rfl)
  | _ => exact iff_of_false (hcontrol _) (by decide)

/-- The last round of a client. -/
theorem serveClient_refused {r : Round} (rs : List Round) {ws ws' : DucqWs} {state : DucqState}
    {count : ℕ} {b : Buffer} (hrecv : r.recv ws = (state, count, ws', b))
    (hstate : state ≠ .ok ∧ state ≠ .protocol) : serveClient (r :: rs) ws = ([], false) := by
  rw [serveClient, hrecv]
  dsimp only
  rw [if_neg hstate.1, if_neg]
  rw [r.control_and_eq_zero_iff]
  exact not_or.mpr hstate

/-- A round with a message. -/
theorem serveClient_ok {r : Round} (rs : List Round) {ws ws' : DucqWs} {count : ℕ} {b : Buffer}
    (hrecv : r.recv ws = (.ok, count, ws', b)) :
    serveClient (r :: rs) ws = (b.slice 0 count ::
      (serveClient rs (r.after (b.slice 0 count) ws')).1,
      (serveClient rs (r.after (b.slice 0 count) ws')).2) := by
  rw [serveClient, hrecv]
  dsimp only
  rw [if_pos rfl, if_pos ((r.control_and_eq_zero_iff _ _).mpr (.inl rfl))]
  rfl

section Frames

variable {ws : DucqWs} {f : WsFrame} {fs : List WsFrame}

/-- What is left once the first frame has been read. -/
theorem Brings.tail {ws' : DucqWs} (h : Brings ws (f :: fs)) (hserver : ws'.isClient = false)
    (hrx : ws'.fd.rx = advance ws.fd.rx f.bytes.length) : Brings ws' fs := by
  obtain ⟨hbytes, hfailure⟩ := stream_of_advance h.bytes_eq h.no_failure hrx
  exact ⟨hserver, hbytes, hfailure⟩

/-- **A whole text that is not too long is a message.** -/
theorem Round.recv_accepted (r : Round) (hws : Brings ws (f :: fs)) (hf : f.TextOrPong)
    (haccepted : f.Accepted) :
    ∃ ws' b, r.recv ws = (.ok, f.payload.length, ws', b) ∧
      b.slice 0 f.payload.length = f.payload ∧ Brings ws' fs := by
  have hclean := clean_of_stream_cons hws.bytes_eq hws.no_failure
  obtain ⟨fd, b, hrecv, hrx, -, hslice⟩ := @wsRecv_frame r.mask ducqMsgsz ws _ f _ hclean
    (iff_of_false (by rw [hws.server]; exact Bool.noConfusion) hf.masked) haccepted.2
  rw [wsRecvOpcode_text ((cells_zero_store_header ws.buf f).trans haccepted.1)] at hrecv
  refine ⟨_, b, hrecv, ?_, hws.tail hws.server hrx⟩
  rw [← Buffer.take_slice b 0 (Nat.le_succ f.payload.length), hslice]
  exact List.take_left

/-- **Any other text, and any Pong, ends the client.** -/
theorem Round.recv_refused (r : Round) (hws : Brings ws (f :: fs)) (hf : f.TextOrPong)
    (hrefused : ¬ f.Accepted) :
    ∃ state count ws' b, r.recv ws = (state, count, ws', b) ∧ state ≠ .ok ∧
      state ≠ .protocol := by
  have hclean := clean_of_stream_cons hws.bytes_eq hws.no_failure
  by_cases hfits : f.payload.length ≤ (ducqMsgsz + 1) % 2 ^ 64
  · obtain ⟨fd, b, hrecv, -, -, -⟩ := @wsRecv_frame r.mask ducqMsgsz ws _ f _ hclean
      (iff_of_false (by rw [hws.server]; exact Bool.noConfusion) hf.masked) hfits
    have hopening : f.opening ≠ wsFin ||| wsText := fun h => hrefused ⟨h, hfits⟩
    have hopcode : f.opening &&& wsOpcode ≠ wsClose ∧ f.opening &&& wsOpcode ≠ wsPing := by
      rcases hf.isText_or_isPong with h | h
      · rw [show f.opening &&& wsOpcode = wsText from h]
        decide
      · rw [show f.opening &&& wsOpcode = wsPong from h]
        decide
    refine ⟨_, _, _, b, hrecv, ?_⟩
    rw [wsRecvOpcode, cells_zero_store_header, if_neg hopcode.1, if_neg hopcode.2, if_pos hopening]
    exact show DucqState.enoimpl ≠ .ok ∧ DucqState.enoimpl ≠ .protocol by decide
  · obtain ⟨ws', -, hrecv⟩ := wsRecv_of_arrives (wsHeaderArrives_header hclean)
    rw [f.wireLength_header hf.length_payload, if_pos (not_le.mp hfits)] at hrecv
    exact ⟨_, _, ws', _, hrecv, by decide⟩

end Frames

/-! ## Whole runs -/

/-- **A run comes to what its frames do**, whatever else happens in its rounds. -/
theorem serveClient_eq {fs : List WsFrame} (hfs : ∀ f ∈ fs, f.TextOrPong) {rs : List Round}
    (hrs : rs.length = fs.length) {ws : DucqWs} (hws : Brings ws fs) :
    serveClient rs ws = served fs := by
  induction fs generalizing rs ws with
  | nil =>
    rw [List.length_eq_zero_iff.mp hrs]
    rfl
  | cons f fs ih =>
    obtain ⟨r, rs, rfl⟩ := List.exists_cons_of_length_eq_add_one hrs
    have hf := hfs f List.mem_cons_self
    rw [served]
    split_ifs with haccepted
    · obtain ⟨ws', b, hrecv, hslice, hws'⟩ := r.recv_accepted hws hf haccepted
      rw [serveClient_ok rs hrecv, hslice]
      have hafter : Brings (r.after f.payload ws') fs := by
        refine ⟨(r.isClient_after _ _).trans hws'.server, ?_, ?_⟩
        · rw [r.rx_after]
          exact hws'.bytes_eq
        · rw [r.rx_after]
          exact hws'.no_failure
      rw [ih (fun f hf => hfs f (List.mem_cons_of_mem _ hf)) (Nat.succ.inj hrs) hafter]
    · obtain ⟨state, count, ws', b, hrecv, hstate⟩ := r.recv_refused hws hf haccepted
      exact serveClient_refused rs hrecv hstate

theorem texts_cons_of_isText {f : WsFrame} (h : f.IsText) (fs : List WsFrame) :
    texts (f :: fs) = f :: texts fs := List.filter_cons_of_pos (decide_eq_true h)

theorem texts_cons_of_isPong {f : WsFrame} (h : f.IsPong) (fs : List WsFrame) :
    texts (f :: fs) = texts fs :=
  List.filter_cons_of_neg (by rw [decide_eq_true_eq]; exact h.not_isText)

/-- Nothing is served if and only if the first frame is refused. -/
theorem served_eq_refused_iff {fs : List WsFrame} :
    served fs = ([], false) ↔ ∃ g ∈ fs.head?, ¬ g.Accepted := by
  cases fs with
  | nil => simp [served]
  | cons f fs =>
    rw [served]
    split_ifs with h <;> simp [h]

theorem pongsHarmless_cons_of_accepted {f : WsFrame} (h : f.Accepted) (fs : List WsFrame) :
    PongsHarmless (f :: fs) ↔ PongsHarmless fs := by
  constructor
  · rintro hharmless before p after rfl hbefore hp
    exact hharmless (f :: before) p after rfl (List.forall_mem_cons.mpr ⟨h, hbefore⟩) hp
  · intro hharmless before p after heq hbefore hp
    cases before with
    | nil =>
      obtain ⟨rfl, rfl⟩ := List.cons.inj heq
      exact absurd h hp.not_accepted
    | cons g before =>
      obtain ⟨rfl, rfl⟩ := List.cons.inj heq
      exact hharmless before p after rfl (List.forall_mem_cons.mp hbefore).2 hp

theorem pongsHarmless_cons_of_not_accepted {f : WsFrame} (h : ¬ f.Accepted) (fs : List WsFrame) :
    PongsHarmless (f :: fs) ↔ (f.IsPong → ∃ g ∈ (texts fs).head?, ¬ g.Accepted) := by
  constructor
  · intro hharmless hp
    exact hharmless [] f fs rfl (fun g hg => absurd hg List.not_mem_nil) hp
  · intro hharmless before p after heq hbefore hp
    cases before with
    | nil =>
      obtain ⟨rfl, rfl⟩ := List.cons.inj heq
      exact hharmless hp
    | cons g before =>
      obtain ⟨rfl, -⟩ := List.cons.inj heq
      exact absurd (hbefore f List.mem_cons_self) h

/-- The Pongs make no difference to what is served if and only if they are harmless. -/
theorem served_eq_served_texts_iff {fs : List WsFrame} (hfs : ∀ f ∈ fs, f.IsText ∨ f.IsPong) :
    served fs = served (texts fs) ↔ PongsHarmless fs := by
  induction fs with
  | nil =>
    refine iff_of_true rfl fun before p after h => ?_
    exact absurd h.symm (List.append_ne_nil_of_right_ne_nil _ (List.cons_ne_nil _ _))
  | cons f fs ih =>
    have ih := ih fun f hf => hfs f (List.mem_cons_of_mem _ hf)
    rcases hfs f List.mem_cons_self with htext | hpong
    · rw [texts_cons_of_isText htext, served, served]
      split_ifs with haccepted
      · rw [pongsHarmless_cons_of_accepted haccepted, ← ih, Prod.ext_iff, Prod.ext_iff,
          List.cons_inj_right]
      · rw [pongsHarmless_cons_of_not_accepted haccepted]
        exact iff_of_true rfl fun hpong => absurd htext hpong.not_isText
    · rw [texts_cons_of_isPong hpong, served, if_neg hpong.not_accepted, eq_comm,
        served_eq_refused_iff, pongsHarmless_cons_of_not_accepted hpong.not_accepted]
      exact ⟨fun h _ => h, fun h => h hpong⟩

/-- **The Pongs are transparent** if and only if none is reached, behind texts that were all
accepted, but before a text that is refused. -/
theorem pongsTransparent_iff {fs : List WsFrame} {rs rs' : List Round} {ws ws' : DucqWs}
    (hfs : ∀ f ∈ fs, f.TextOrPong) (hrs : rs.length = fs.length) (hws : Brings ws fs)
    (hrs' : rs'.length = (texts fs).length) (hws' : Brings ws' (texts fs)) :
    PongsTransparent rs ws rs' ws' ↔ PongsHarmless fs := by
  have htexts : ∀ f ∈ texts fs, f.TextOrPong := fun f hf => hfs f (List.mem_of_mem_filter hf)
  rw [PongsTransparent, serveClient_eq hfs hrs hws, serveClient_eq htexts hrs' hws']
  exact served_eq_served_texts_iff fun f hf => (hfs f hf).isText_or_isPong

theorem ducqMaxConnections_pos : 0 < ducqMaxConnections := Nat.zero_lt_succ _

/-- A table with one client, in its first slot. -/
def clientAlone : World := runOps [(Env.naming, .addClient 5 100)] World.init

theorem type_clientAlone : (clientAlone.conn ⟨0, ducqMaxConnections_pos⟩).type = .client := by
  decide +kernel

theorem fd_clientAlone : (clientAlone.conn ⟨0, ducqMaxConnections_pos⟩).fd ∈ ({5} : Finset ℤ) := by
  decide +kernel

/-- A round in which the handler of a message does nothing. -/
def Round.idle : Round where
  table := clientAlone
  slot := ⟨0, ducqMaxConnections_pos⟩
  ctx := ⟨{5}, 1, []⟩
  mask := CharArray.zeros 4
  stack := fun _ => 0
  strerror := []
  env := Env.naming
  acts := fun _ => []
  after := fun _ ws => ws
  client := type_clientAlone
  ready := fd_clientAlone
  rx_after := fun _ _ => rfl
  isClient_after := fun _ _ => rfl

/-- A frame from a client. -/
def maskedFrame (opening : Byte) (payload : List Byte) : WsFrame :=
  ⟨opening, some ⟨[1, 2, 3, 4], rfl⟩, payload⟩

/-- The server's end of a new connection. -/
def arriving (rx : List Arrival) : DucqWs := ducqNewWsConnection (Socket.receiving rx)

/-- **Before a text that is refused** no difference is made: here it is the first fragment of a
message that is sent in more than one frame. -/
theorem pongsTransparent_iff_fragment :
    PongsTransparent [.idle, .idle, .idle]
      (arriving [.chunk 0x81 [0x82, 1, 2, 3, 4, 105, 107, 0x8a], .fail .eintr,
        .chunk 0x80 [1, 2, 3, 4, 0x01, 0x82, 1, 2, 3, 4, 120, 109]])
      [.idle, .idle]
      (arriving [.chunk 0x81 [0x82, 1, 2, 3, 4, 105, 107],
        .chunk 0x01 [0x82, 1, 2, 3, 4, 120, 109]]) := by
  refine (@pongsTransparent_iff [maskedFrame (wsFin ||| wsText) (ascii "hi"),
    maskedFrame (wsFin ||| wsPong) [], maskedFrame wsText (ascii "yo")] _ _ _ _ ?_ rfl
    ⟨rfl, by decide, by decide⟩ (by decide) ⟨rfl, by decide, by decide⟩).mpr ?_
  · refine List.forall_mem_cons.mpr ⟨⟨.inl (by decide), by decide, by decide⟩, ?_⟩
    refine List.forall_mem_cons.mpr ⟨⟨.inr (by decide), by decide, by decide⟩, ?_⟩
    exact List.forall_mem_singleton.mpr ⟨.inl (by decide), by decide, by decide⟩
  · rw [pongsHarmless_cons_of_accepted (by decide),
      pongsHarmless_cons_of_not_accepted (by decide)]
    exact fun _ => ⟨_, rfl, by decide⟩

/-- **A Pong between two texts ends the client**: the second is not received any more. -/
theorem not_pongsTransparent_between :
    ¬ PongsTransparent [.idle, .idle, .idle]
      (arriving [.chunk 0x81 [0x82, 1, 2, 3, 4, 105, 107], .chunk 0x8a [0x80, 1, 2, 3, 4],
        .chunk 0x81 [0x82, 1, 2, 3, 4, 120, 109]])
      [.idle, .idle]
      (arriving [.chunk 0x81 [0x82, 1, 2, 3, 4, 105, 107],
        .chunk 0x81 [0x82, 1, 2, 3, 4, 120, 109]]) := by
  have hhi : (maskedFrame (wsFin ||| wsText) (ascii "hi")).TextOrPong :=
    ⟨.inl (by decide), by decide, by decide⟩
  have hpong : (maskedFrame (wsFin ||| wsPong) []).TextOrPong :=
    ⟨.inr (by decide), by decide, by decide⟩
  have hyo : (maskedFrame (wsFin ||| wsText) (ascii "yo")).TextOrPong :=
    ⟨.inl (by decide), by decide, by decide⟩
  have hwith := @serveClient_eq [_, _, _] (List.forall_mem_cons.mpr ⟨hhi,
    List.forall_mem_cons.mpr ⟨hpong, List.forall_mem_singleton.mpr hyo⟩⟩)
    [.idle, .idle, .idle] rfl
    (arriving [.chunk 0x81 [0x82, 1, 2, 3, 4, 105, 107], .chunk 0x8a [0x80, 1, 2, 3, 4],
      .chunk 0x81 [0x82, 1, 2, 3, 4, 120, 109]]) ⟨rfl, by decide, by decide⟩
  have hwithout := @serveClient_eq [_, _] (List.forall_mem_cons.mpr
    ⟨hhi, List.forall_mem_singleton.mpr hyo⟩) [.idle, .idle] rfl
    (arriving [.chunk 0x81 [0x82, 1, 2, 3, 4, 105, 107],
      .chunk 0x81 [0x82, 1, 2, 3, 4, 120, 109]]) ⟨rfl, by decide, by decide⟩
  rw [PongsTransparent, hwith, hwithout]
  decide

end Ducq
