import Ducq.Core.Listen
import Ducq.Lib.Flag

/-!
# The keep-alive ping

A client that listens and hears nothing sends a ping; if it hears nothing again, its
connection has timed out.  That a ping is out is nowhere noted: the ping is put together in
the buffer that messages are received into, and a buffer that begins with `PING` says it.

It says it rightly.  A message that begins with `PING` is answered in place and begins
with `PONG` from then on, and any other message does not begin with `PING`; what is
received without a message leaves the buffer alone.  So the buffer is a flag that a ping
sets and a message clears (`pingOut_listens`), and a run of the loop knows what it has sent
(`keepsAlive`).
-/

namespace Ducq

namespace Client

open CMemory CNumber CPrintf Fifo Flag

/-! ## What a turn was -/

/-- The receive of the turn timed out. -/
def Turn.TimedOut (t : Turn) : Prop := ∃ m, Exchange.received .etimeout m ∈ t.exchanges

/-- A message came. -/
def Turn.GotMessage (t : Turn) : Prop := ∃ m, Exchange.received .ok m ∈ t.exchanges

/-- A keep-alive ping was sent, however that ended. -/
def Turn.Pinged (t : Turn) : Prop := .sent keepAlive ∈ t.exchanges

/-- A ping was sent and no message came since. -/
def PingOut : List Turn → Prop := Since Turn.Pinged Turn.GotMessage

variable {σ : Type}

/-- The keep-alive protocol, of the turns of a run: on a timeout a ping is sent exactly if
none is out, and else the timeout is reported and nothing is sent; only timeouts send
pings, one each; between two pings a message comes. -/
structure KeepsAlive (ctx : ListenCtx σ) (turns : List Turn) : Prop where
  pinged_iff : ∀ before t after, turns = before ++ t :: after → t.TimedOut →
    (t.Pinged ↔ ¬ PingOut before)
  reported : ∀ before t after, turns = before ++ t :: after → t.TimedOut → PingOut before →
    t.exchanges = [.received .etimeout []] ∧ t.state = .etimeout ∧
      t.called = ctx.onError.map fun _ => .error
  exchanges_pinged : ∀ t ∈ turns, t.Pinged →
    t.exchanges = [.received .etimeout [], .sent keepAlive]
  between : ∀ before t mid u after, turns = before ++ t :: (mid ++ u :: after) →
    t.Pinged → u.Pinged → ∃ v ∈ mid, v.GotMessage

/-- What comes without a message leaves the buffer alone. -/
def Untouched (wire : Wire) : Prop :=
  ∀ past, (wire.recv past).state ≠ .ok → (wire.recv past).msg = []

/-! ## One receive -/

/-- What a receive can do, to a buffer of which one wants to know whether a ping is out. -/
inductive Received (msg : Buffer) : DucqState → Buffer → List Exchange → Prop
  | silence : msg.StartsWith (ascii "PING") →
      Received msg .etimeout msg [.received .etimeout []]
  | ping {state : DucqState} {msg' : Buffer} : ¬ msg.StartsWith (ascii "PING") →
      msg'.StartsWith (ascii "PING") →
      Received msg state msg' [.received .etimeout [], .sent keepAlive]
  | unconnected : Received msg .enull msg []
  | failure {state : DucqState} : state ≠ .ok → state ≠ .etimeout →
      Received msg state msg [.received state []]
  | message {state : DucqState} {msg' : Buffer} {m : List Byte} {rest : List Exchange} :
      ¬ msg'.StartsWith (ascii "PING") → (∀ e ∈ rest, ∃ buf, e = .sent buf) →
      .sent keepAlive ∉ rest → Received msg state msg' (.received .ok m :: rest)

variable {msg : Buffer} {past : List Exchange} {wire : Wire}

/-- The answer to a ping is none. -/
theorem slice_pong_ne_keepAlive (msg : Buffer) (size : ℕ) :
    (msg.put 1 79).slice 0 size ≠ keepAlive := by
  intro h
  have hsize := congrArg List.length h
  rw [Buffer.length_slice] at hsize
  have hstarts : (msg.put 1 79).StartsWith keepAlive := by
    rw [Buffer.StartsWith, ← hsize]
    exact h
  have hcell := hstarts.cells (i := 1) (by decide)
  exact absurd (show (79 : Byte) = 73 from hcell) (by decide)

theorem keepAlive_notMem_pong (msg : Buffer) (size : ℕ) :
    .sent keepAlive ∉ [Exchange.sent ((msg.put 1 79).slice 0 size)] := by
  rw [List.mem_singleton, Exchange.sent.injEq]
  exact (slice_pong_ne_keepAlive _ _).symm

theorem not_startsWith_pong (msg : Buffer) : ¬ (msg.put 1 79).StartsWith (ascii "PING") := by
  intro h
  have hcell := h.cells (i := 1) (by decide)
  exact absurd (show (79 : Byte) = 73 from hcell) (by decide)

/-- Memory that begins with one of two words begins with the other only if one of these
begins the other. -/
theorem not_startsWith_of_startsWith {a b : List Byte} (ha : msg.StartsWith a)
    (hlen : a.length ≤ b.length) (hab : ¬ a <+: b) : ¬ msg.StartsWith b := by
  intro hb
  have htake : b.take a.length = a := by
    rw [← hb, Buffer.take_slice _ _ hlen]
    exact ha
  exact hab (htake ▸ List.take_prefix _ _)

/-- **A message leaves no ping behind**, whatever it contains. -/
theorem received_message (hok : (wire.recv past).state = .ok) : ∃ es,
    (ducqReceive (some wire) msg ducqMsgsz past).2.2.2 = past ++ es ∧
      Received msg (ducqReceive (some wire) msg ducqMsgsz past).1
        (ducqReceive (some wire) msg ducqMsgsz past).2.1 es := by
  have htimeout : (wire.recv past).state ≠ .etimeout := hok ▸ DucqState.noConfusion
  have hnone : ∀ e ∈ ([] : List Exchange), ∃ buf, e = Exchange.sent buf := fun e he =>
    absurd he List.not_mem_nil
  unfold ducqReceive ducqRecv ducqSend
  dsimp only
  rw [if_neg htimeout, if_neg (not_not.mpr hok), hok]
  split_ifs with hAck hParts hEnd hNack hPing hsent hPong
  · exact ⟨_, rfl, .message (not_startsWith_of_startsWith hAck (by decide) (by decide)) hnone
      List.not_mem_nil⟩
  · refine ⟨_, rfl, .message (fun h => ?_) hnone List.not_mem_nil⟩
    exact not_startsWith_of_startsWith h (by decide) (by decide) hParts
  · exact ⟨_, rfl, .message (not_startsWith_of_startsWith hEnd (by decide) (by decide)) hnone
      List.not_mem_nil⟩
  · exact ⟨_, rfl, .message (not_startsWith_of_startsWith hNack (by decide) (by decide)) hnone
      List.not_mem_nil⟩
  · -- answered in place, and that failed
    exact ⟨_, List.append_assoc _ _ _, .message (not_startsWith_pong _)
      (fun e he => ⟨_, List.mem_singleton.mp he⟩) (keepAlive_notMem_pong _ _)⟩
  · exact ⟨_, List.append_assoc _ _ _, .message (not_startsWith_pong _)
      (fun e he => ⟨_, List.mem_singleton.mp he⟩) (keepAlive_notMem_pong _ _)⟩
  · exact ⟨_, rfl, .message hPing hnone List.not_mem_nil⟩
  · exact ⟨_, rfl, .message hPing hnone List.not_mem_nil⟩

/-- The ping is put together in the buffer. -/
theorem startsWith_snprintf_keepAlive (msg : Buffer) :
    (snprintf msg 0 ducqMsgsz keepAlive).StartsWith (ascii "PING") := by
  rw [snprintf_of_lt _ _ (by decide)]
  have hall : (msg.store 0 (keepAlive ++ [0])).StartsWith (keepAlive ++ [0]) :=
    Buffer.startsWith_store _ _
  have happ : keepAlive ++ [0] = ascii "PING" ++ (ascii " _\nping" ++ [0]) := by decide
  rw [happ] at hall ⊢
  exact hall.of_append

/-- **What a receive does.** -/
theorem received_of_untouched (ducq : Option Wire) (h : ∀ wire ∈ ducq, Untouched wire)
    (msg : Buffer) (past : List Exchange) : ∃ es,
    (ducqReceive ducq msg ducqMsgsz past).2.2.2 = past ++ es ∧
      Received msg (ducqReceive ducq msg ducqMsgsz past).1
        (ducqReceive ducq msg ducqMsgsz past).2.1 es := by
  cases ducq with
  | none => exact ⟨[], (List.append_nil _).symm, .unconnected⟩
  | some wire =>
    by_cases hok : (wire.recv past).state = .ok
    · exact received_message hok
    have hmsg := h wire rfl past hok
    by_cases htimeout : (wire.recv past).state = .etimeout
    · unfold ducqReceive ducqRecv
      dsimp only
      rw [if_pos htimeout, hmsg, Buffer.store_nil, htimeout]
      by_cases hping : msg.StartsWith (ascii "PING")
      · rw [if_pos ⟨by decide, hping⟩]
        exact ⟨_, rfl, .silence hping⟩
      · rw [if_neg fun hc => hping hc.2, slice_keepAlive]
        exact ⟨_, List.append_assoc _ _ _, .ping hping (startsWith_snprintf_keepAlive msg)⟩
    · unfold ducqReceive ducqRecv
      dsimp only
      rw [if_neg htimeout, if_pos hok, hmsg, Buffer.store_nil]
      exact ⟨_, rfl, .failure hok htimeout⟩

/-! ## What a receive means for the flag -/

namespace Received

variable {t : Turn} {msg' : Buffer}

/-- A ping sets it and a message clears it. -/
theorem flag_iff (h : Received msg t.state msg' t.exchanges) :
    msg'.StartsWith (ascii "PING") ↔
      t.Pinged ∨ msg.StartsWith (ascii "PING") ∧ ¬ t.GotMessage := by
  unfold Turn.Pinged Turn.GotMessage
  generalize t.exchanges = exchanges, t.state = state at h ⊢
  cases h with
  | silence hping => simp [hping]
  | ping hping hping' => simp [hping']
  | unconnected => simp
  | failure hok htimeout => simp [hok.symm]
  | message hping hrest hnot => simp [hping, hnot]

/-- No ping is sent while one is out. -/
theorem not_flag_of_pinged (h : Received msg t.state msg' t.exchanges) (hpinged : t.Pinged) :
    ¬ msg.StartsWith (ascii "PING") ∧
      t.exchanges = [.received .etimeout [], .sent keepAlive] := by
  unfold Turn.Pinged at hpinged
  generalize t.exchanges = exchanges, t.state = state at h hpinged ⊢
  cases h with
  | silence hping => simp at hpinged
  | ping hping hping' => exact ⟨hping, rfl⟩
  | unconnected => simp at hpinged
  | failure hok htimeout => simp at hpinged
  | message hping hrest hnot => simp [hnot] at hpinged

/-- A receive that timed out. -/
theorem timedOut (h : Received msg t.state msg' t.exchanges) (htimeout : t.TimedOut) :
    (t.Pinged ↔ ¬ msg.StartsWith (ascii "PING")) ∧
      (msg.StartsWith (ascii "PING") →
        t.exchanges = [.received .etimeout []] ∧ t.state = .etimeout) := by
  unfold Turn.TimedOut at htimeout
  unfold Turn.Pinged
  generalize t.exchanges = exchanges, t.state = state at h htimeout ⊢
  cases h with
  | silence hping => exact ⟨by simp [hping], fun _ => ⟨rfl, rfl⟩⟩
  | ping hping hping' => exact ⟨by simp [hping], fun hc => absurd hc hping⟩
  | unconnected => simp at htimeout
  | failure hok hnot => simp [hnot.symm] at htimeout
  | @message _ _ m rest hping hrest hnot =>
    obtain ⟨m', hm'⟩ := htimeout
    rcases List.mem_cons.mp hm' with heq | hmem
    · exact absurd (Exchange.received.inj heq).1 (by decide)
    · obtain ⟨buf, hbuf⟩ := hrest _ hmem
      exact absurd hbuf Exchange.noConfusion

end Received

/-! ## The loop -/

variable {ducq : Option Wire} {ctx : ListenCtx σ} {s s' : Listening σ} {t : Turn}
  {turns : List Turn}

/-- A timeout is an error to a listener. -/
theorem callback_etimeout (ctx : ListenCtx σ) :
    (ctx.callback .etimeout).map Prod.fst = ctx.onError.map fun _ => .error := by
  have hcallback : ctx.callback .etimeout =
      ctx.onError.map fun f => (.error, fun _ _ => f .etimeout) := if_pos (by decide)
  rw [hcallback, Option.map_map]
  rfl

/-- **What a turn does**, in managed mode. -/
theorem Listens.received (hducq : ∀ wire ∈ ducq, Untouched wire) (hraw : ctx.recvRaw = false)
    (h : Listens ducq ctx s t s') :
    Received s.msg t.state s'.msg t.exchanges ∧
      t.called = (ctx.callback t.state).map Prod.fst := by
  obtain ⟨-, hturn⟩ := h
  obtain ⟨es, hpast, hreceived⟩ := received_of_untouched ducq hducq s.msg s.past
  have hrecv : ctx.recv ducq s.msg ducqMsgsz s.past = _ := if_neg (hraw ▸ Bool.false_ne_true)
  rw [listenTurn] at hturn
  dsimp only at hturn
  rw [hrecv, hpast, List.drop_left] at hturn
  rcases hcallback : ctx.callback (ducqReceive ducq s.msg ducqMsgsz s.past).1 with _ | ⟨kind, f⟩
  · rw [hcallback] at hturn
    obtain ⟨rfl, rfl⟩ := Prod.mk.inj hturn
    exact ⟨hreceived, by rw [hcallback]; rfl⟩
  · rw [hcallback] at hturn
    obtain ⟨rfl, rfl⟩ := Prod.mk.inj hturn
    exact ⟨hreceived, by rw [hcallback]; rfl⟩

/-- **The buffer says whether a ping is out**: a ping sets the flag, a message clears it. -/
theorem pingOut_listens (hducq : ∀ wire ∈ ducq, Untouched wire) (hraw : ctx.recvRaw = false)
    (s : Listening σ) (t : Turn) (s' : Listening σ) (h : Listens ducq ctx s t s') :
    s'.msg.StartsWith (ascii "PING") ↔
      t.Pinged ∨ s.msg.StartsWith (ascii "PING") ∧ ¬ t.GotMessage :=
  (h.received hducq hraw).1.flag_iff

theorem not_startsWith_startListening (stack : ℕ → Byte) (c : σ) (past : List Exchange) :
    ¬ (startListening stack c past).msg.StartsWith (ascii "PING") := by
  intro h
  have hcell := h.cells (i := 0) (by decide)
  exact absurd (show (0 : Byte) = 80 from hcell) (by decide)

/-- **The keep-alive protocol** of `ducq_listen` in managed mode, over every run of it. -/
theorem keepsAlive (ducq : Option Wire) (ctx : ListenCtx σ)
    (hducq : ∀ wire ∈ ducq, Untouched wire) (hraw : ctx.recvRaw = false) (stack : ℕ → Byte)
    (c : σ) (past : List Exchange)
    (hrun : Run (Listens ducq ctx) (startListening stack c past) turns s') :
    KeepsAlive ctx turns := by
  have hflag := @pingOut_listens _ ducq ctx hducq hraw
  have hstart := not_startsWith_startListening stack c past
  refine ⟨?_, ?_, ?_, ?_⟩
  · rintro before t after rfl htimeout
    obtain ⟨s₁, s₂, hstep, hout⟩ := exists_flag_between hflag hstart hrun
    rw [((hstep.received hducq hraw).1.timedOut htimeout).1, not_iff_not]
    exact hout
  · rintro before t after rfl htimeout hpingOut
    obtain ⟨s₁, s₂, hstep, hout⟩ := exists_flag_between hflag hstart hrun
    obtain ⟨hreceived, hcalled⟩ := hstep.received hducq hraw
    obtain ⟨hexchanges, hstate⟩ := (hreceived.timedOut htimeout).2 (hout.mpr hpingOut)
    exact ⟨hexchanges, hstate, by rw [hcalled, hstate, callback_etimeout]⟩
  · intro t ht hpinged
    obtain ⟨before, after, rfl⟩ := List.append_of_mem ht
    obtain ⟨s₁, s₂, hstep, -⟩ := exists_flag_between hflag hstart hrun
    exact ((hstep.received hducq hraw).1.not_flag_of_pinged hpinged).2
  · rintro before t mid u after rfl ht hu
    refine exists_clear_between hflag (fun s t s' hstep hpinged => ?_) hstart hrun ht hu
    exact ((hstep.received hducq hraw).1.not_flag_of_pinged hpinged).1

/-- Nothing comes, but for a ping after the first two timeouts. -/
def Wire.pingAtThree : Wire where
  send _ _ := .ok
  recv past := if past.length = 3 then ⟨.ok, ascii "PING a\nb" ++ [0], 8⟩ else ⟨.etimeout, [], 0⟩

/-- A listener that is told of errors and goes on. -/
def quietListener : ListenCtx Unit := ⟨none, none, none, some fun _ c _ => (0, c, []), false⟩

/-- A ping is sent, a timeout reported, a ping answered, and the next one sent. -/
theorem keepsAlive_pingAtThree : ∃ turns s',
    Run (Listens (some Wire.pingAtThree) quietListener) (startListening (fun _ => 0) () [])
      turns s' ∧
    turns.map Turn.exchanges =
      [[.received .etimeout [], .sent keepAlive], [.received .etimeout []],
        [.received .ok (ascii "PING a\nb" ++ [0]), .sent (ascii "PONG a\nb")],
        [.received .etimeout [], .sent keepAlive]] ∧
    KeepsAlive quietListener turns := by
  have huntouched : ∀ wire ∈ some Wire.pingAtThree, Untouched wire := by
    rintro wire hwire past hstate
    obtain rfl := Option.some.inj hwire
    unfold Wire.pingAtThree at hstate ⊢
    dsimp only at hstate ⊢
    split_ifs at hstate ⊢
    · exact absurd rfl hstate
    · rfl
  have hrun : Run (Listens (some Wire.pingAtThree) quietListener)
      (startListening (fun _ => 0) () []) _ _ :=
    .cons ⟨rfl, rfl⟩ (.cons ⟨rfl, rfl⟩ (.cons ⟨rfl, rfl⟩ (.cons ⟨rfl, rfl⟩ (.nil _))))
  exact ⟨_, _, hrun, by decide +kernel,
    keepsAlive (some Wire.pingAtThree) quietListener huntouched rfl (fun _ => 0) () [] hrun⟩

end Client

end Ducq
