import Ducq.Core.Listen
import Ducq.Tcp.Session

/-!
# A client that listens over TCP

`ducq_listen` receives through the table of its transport.  Over TCP a receive is a call of
`ducq_tcp_recv` on the client's socket, one after the other (`OverTcp`), and what one end has
framed the other end receives.  So a listener over TCP is handed what was sent to it, message
by message, however the stream is cut, as long as no message begins like the protocol does.
-/

namespace Ducq

namespace Client

open CMemory CNumber ByteStream Fifo

/-- How many times something was received. -/
def receives (past : List Exchange) : ℕ :=
  past.countP fun e => match e with
    | .received _ _ => true
    | .sent _ => false

/-- The connection is over the socket: the receive after `k` others is the call of
`ducq_tcp_recv` after `k` others, and where that succeeds, whatever its buffers held, what it
has stored is delivered. -/
def OverTcp (wire : Wire) (s : Socket) : Prop :=
  ∀ (past : List Exchange) (n : ℕ) (text : List Byte),
    (∀ bufs : List (ℕ → Byte), receives past < bufs.length →
      ((recvCalls ducqMsgsz bufs s).map received)[receives past]? = some ((n : ℤ), some text)) →
    wire.recv past = ⟨.ok, text, n⟩

/-- A connection over the socket; its sends succeed. -/
def Wire.overTcp (s : Socket) : Wire where
  send _ _ := .ok
  recv past :=
    match (recvCalls ducqMsgsz (List.replicate (receives past + 1) fun _ => 0) s)[receives past]?
      |>.map received with
    | some (n, some text) => ⟨.ok, text, n.toNat⟩
    | _ => ⟨.etimeout, [], 0⟩

/-- The listener lets the protocol to `ducq_receive` and gives a function for messages that
goes on after each; none of its functions receives anything itself. -/
structure Steady {σ : Type} (ctx : ListenCtx σ) : Prop where
  managed : ctx.recvRaw = false
  onMessage : ctx.onMessage ≠ none
  goesOn : ∀ f : OnMsg σ, ctx.onMessage = some f → ∀ (msg : Buffer) (size : ℕ) (c : σ)
    (past : List Exchange), (f msg size c past).1 = 0
  receivesNothing : ∀ (state : DucqState) (callback : Callback) (f : OnMsg σ),
    ctx.callback state = some (callback, f) → ∀ (msg : Buffer) (size : ℕ) (c : σ)
      (past : List Exchange), receives (f msg size c past).2.2 = 0

/-- No word of the protocol begins the message. -/
def Plain (m : List Byte) : Prop := ∀ word ∈ keywords, ¬ word <+: cstr (m ++ [0])

instance (m : List Byte) : Decidable (Plain m) :=
  inferInstanceAs (Decidable (∀ word ∈ keywords, ¬ word <+: cstr (m ++ [0])))

/-- What the listener was handed as messages. -/
def handed (turns : List Turn) : List (List Byte) :=
  (turns.filter fun t => t.called = some .message).map fun t => t.msg.slice 0 t.size

variable {wire : Wire} {s : Socket} {past : List Exchange}

theorem receives_append (past past' : List Exchange) :
    receives (past ++ past') = receives past + receives past' := List.countP_append

/-! ## What the wire delivers -/

/-- Calls with more buffers begin with the same calls. -/
theorem recvCalls_take {size : ℕ} (bufs : List (ℕ → Byte)) (k : ℕ) (s : Socket) :
    recvCalls size (bufs.take k) s = (recvCalls size bufs s).take k := by
  induction bufs generalizing k s with
  | nil =>
    rw [List.take_nil, recvCalls, List.take_nil]
  | cons cells bufs ih =>
    cases k with
    | zero => rfl
    | succ k =>
      rw [List.take_succ_cons, recvCalls, recvCalls]
      rcases ducqTcpRecv size s (Buffer.fresh cells) with ⟨rc, s', b⟩
      dsimp only
      rw [ih, List.take_succ_cons]

/-- **Every frame is delivered**, in its turn. -/
theorem recv_of_stream (hwire : OverTcp wire s) {fs : List (Frame ducqMsgsz)}
    (hbytes : bytes s.rx = Frame.stream fs) (hf : hardFailure s.rx = none)
    (hpast : receives past < fs.length) :
    wire.recv past =
      ⟨.ok, fs[receives past].payload ++ [0], fs[receives past].payload.length⟩ := by
  refine hwire past _ _ fun bufs hbufs => ?_
  -- as many buffers as there are calls in the whole conversation
  set more := bufs.take (receives past + 1) ++
    List.replicate (fs.length + 1 - (receives past + 1)) fun _ => (0 : Byte)
  have hmore : more.length = fs.length + 1 := by
    rw [List.length_append, List.length_take, List.length_replicate]
    omega
  have hall := @recvCalls_of_stream ducqMsgsz (by norm_num) fs s hbytes hf more hmore
  have htake : more.take (receives past + 1) = bufs.take (receives past + 1) := by
    rw [List.take_append_of_le_length (by rw [List.length_take]; omega), List.take_take, min_self]
  have hsame : ((recvCalls ducqMsgsz bufs s).map received)[receives past]? =
      ((recvCalls ducqMsgsz more s).map received)[receives past]? := by
    have hcalls := (recvCalls_take more (receives past + 1) s).symm.trans
      ((congrArg (recvCalls ducqMsgsz · s) htake).trans (recvCalls_take bufs _ s))
    have hget := congrArg (fun l => (l.map received)[receives past]?) hcalls
    simp only [List.map_take, List.getElem?_take, Nat.lt_succ_self, if_true] at hget
    exact hget.symm
  rw [hsame, hall, List.getElem?_append_left (by rwa [List.length_map]), List.getElem?_map,
    List.getElem?_eq_getElem hpast]
  rfl

theorem overTcp_overTcp (s : Socket) : OverTcp (Wire.overTcp s) s := by
  intro past n text h
  have hcall := h (List.replicate (receives past + 1) fun _ => 0) (by simp)
  rw [List.getElem?_map] at hcall
  rw [Wire.overTcp]
  dsimp only
  rw [hcall]
  rfl

/-! ## What the listener is handed -/

variable {σ : Type} {ctx : ListenCtx σ}

/-- A receive receives once. -/
theorem receives_ducqReceive (wire : Wire) (msg : Buffer) (size : ℕ) (past : List Exchange) :
    receives (ducqReceive (some wire) msg size past).2.2.2 = receives past + 1 := by
  obtain ⟨rest, hpast, hrest⟩ := past_ducqReceive wire msg size past
  have hsent : receives rest = 0 := List.countP_eq_zero.mpr fun e he => by
    obtain ⟨buf, rfl⟩ := hrest e he
    exact Bool.false_ne_true
  have hone : receives (.received (wire.recv past).state (wire.recv past).msg :: rest) =
      receives rest + 1 := List.countP_cons
  rw [hpast, receives_append, hone, hsent]

/-- The function for messages gets what is in order, and nothing else. -/
theorem eq_ok_of_callback {state : DucqState} {f : OnMsg σ}
    (h : ctx.callback state = some (.message, f)) : state = .ok := by
  have hother : ∀ {callback : Callback} {g : Option (OnMsg σ)}, callback ≠ .message →
      ¬ g.map (callback, ·) = some (.message, f) := fun hne hg => by
    obtain ⟨g, -, hg⟩ := Option.map_eq_some_iff.mp hg
    exact hne (congrArg Prod.fst hg)
  unfold ListenCtx.callback at h
  split at h
  · obtain ⟨g, -, hg⟩ := Option.map_eq_some_iff.mp h
    exact absurd (congrArg Prod.fst hg) Callback.noConfusion
  · split at h
    · rfl
    · exact absurd h (hother Callback.noConfusion)
    · exact absurd h (hother Callback.noConfusion)
    · exact absurd h (Option.some_ne_none _).symm

/-- The protocol is managed. -/
theorem Steady.recv_eq (hctx : Steady ctx) (wire : Wire) (msg : Buffer) (size : ℕ)
    (past : List Exchange) :
    ctx.recv (some wire) msg size past = ducqReceive (some wire) msg size past :=
  if_neg (hctx.managed ▸ Bool.false_ne_true)

/-- The turn received once. -/
theorem receives_listenTurn (hctx : Steady ctx) (l : Listening σ) :
    receives (listenTurn (some wire) ctx l).2.past = receives l.past + 1 := by
  rw [listenTurn, hctx.recv_eq, ← receives_ducqReceive wire l.msg ducqMsgsz l.past]
  rcases ducqReceive (some wire) l.msg ducqMsgsz l.past with ⟨state, msg, size, past⟩
  dsimp only
  rcases hcallback : ctx.callback state with - | ⟨callback, f⟩
  · rfl
  · dsimp only
    rw [receives_append, hctx.receivesNothing state callback f hcallback, Nat.add_zero]

/-- Whether a word of the protocol begins what was received. -/
theorem startsWith_received {m : List Byte} (hrecv : wire.recv past = ⟨.ok, m ++ [0], m.length⟩)
    (msg : Buffer) {word : List Byte} (hword : word ∈ keywords) :
    (msg.store 0 (wire.recv past).msg).StartsWith word ↔ word <+: cstr (m ++ [0]) := by
  rw [hrecv]
  exact Buffer.startsWith_store_cstr_iff (by revert word; decide) (by simp)

/-- **A message that no word of the protocol begins** is handed on, and the loop goes on. -/
theorem listenTurn_plain (hctx : Steady ctx) {l : Listening σ} {m : List Byte}
    (hrecv : wire.recv l.past = ⟨.ok, m ++ [0], m.length⟩) (hplain : Plain m) :
    handed [(listenTurn (some wire) ctx l).1] = [m] ∧
      (listenTurn (some wire) ctx l).2.returned = none := by
  have hok : (wire.recv l.past).state = .ok := by rw [hrecv]
  obtain ⟨f, hf⟩ := Option.ne_none_iff_exists'.mp hctx.onMessage
  have hcallback : ctx.callback .ok = some (.message, f) := by
    rw [ListenCtx.callback, if_neg (by decide), hf]
    rfl
  have hslice : (l.msg.store 0 (m ++ [0])).slice 0 m.length = m := by
    rw [Buffer.slice_store_drop _ (by simp), List.drop_zero, List.take_left]
  rw [listenTurn, hctx.recv_eq, ducqReceive_plain hok fun word hword =>
    mt (startsWith_received hrecv l.msg hword).mp (hplain word hword)]
  dsimp only
  rw [hcallback, hrecv]
  exact ⟨by simp [handed, hslice], if_neg (not_not.mpr (hctx.goesOn f hf _ _ _ _))⟩

/-- One that a word of the protocol begins is not handed on as a message. -/
theorem handed_listenTurn_keyword (hctx : Steady ctx) {l : Listening σ} {m : List Byte}
    (hrecv : wire.recv l.past = ⟨.ok, m ++ [0], m.length⟩) (hplain : ¬ Plain m) :
    handed [(listenTurn (some wire) ctx l).1] = [] := by
  have hok : (wire.recv l.past).state = .ok := by rw [hrecv]
  obtain ⟨word, hword, hbegins⟩ := not_forall₂.mp hplain
  have hne := @ducqReceive_keyword wire l.msg ducqMsgsz l.past hok word hword
    ((startsWith_received hrecv l.msg hword).mpr (not_not.mp hbegins))
  rw [listenTurn, hctx.recv_eq]
  generalize ducqReceive (some wire) l.msg ducqMsgsz l.past = r at hne ⊢
  obtain ⟨state, msg, size, past⟩ := r
  dsimp only at hne ⊢
  rcases hcallback : ctx.callback state with - | ⟨callback, f⟩
  · simp [handed]
  · have hcalled : callback ≠ .message := by
      rintro rfl
      exact hne (eq_ok_of_callback hcallback)
    simp [handed, hcalled]

/-- What frames a message of several parts is left to the function for the protocol. -/
theorem returned_listenTurn_frame (hctx : Steady ctx)
    (hprotocol : ∀ f : OnMsg σ, ctx.onProtocol = some f → ∀ (msg : Buffer) (size : ℕ) (c : σ)
      (past : List Exchange), (f msg size c past).1 = 0)
    {l : Listening σ} {m : List Byte} (hm : m = ascii "PARTS" ∨ m = ascii "END")
    (hrecv : wire.recv l.past = ⟨.ok, m ++ [0], m.length⟩) :
    (listenTurn (some wire) ctx l).2.returned = none := by
  have hstate : (ducqReceive (some wire) l.msg ducqMsgsz l.past).1 = .protocol := by
    have hok : (wire.recv l.past).state = .ok := by rw [hrecv]
    have htimeout : (wire.recv l.past).state ≠ .etimeout := hok ▸ DucqState.noConfusion
    have hstarts := fun word hword => @startsWith_received wire l.past m hrecv l.msg word hword
    have hAck : ¬ (l.msg.store 0 (wire.recv l.past).msg).StartsWith (ascii "ACK") := by
      rw [hstarts _ (by decide)]
      rcases hm with rfl | rfl
      · decide
      · decide
    unfold ducqReceive ducqRecv
    dsimp only
    rw [if_neg htimeout, if_neg (not_not.mpr hok), if_neg hAck]
    rcases hm with rfl | rfl
    · rw [if_pos ((hstarts _ (by decide)).mpr (by decide))]
    · rw [if_neg (mt (hstarts _ (by decide)).mp (by decide)),
        if_pos ((hstarts _ (by decide)).mpr (by decide))]
  rw [listenTurn, hctx.recv_eq]
  generalize ducqReceive (some wire) l.msg ducqMsgsz l.past = r at hstate ⊢
  obtain ⟨state, msg, size, past⟩ := r
  dsimp only at hstate ⊢
  have hcallback : ctx.callback state = ctx.onProtocol.map (.protocol, ·) := by
    rw [hstate, ListenCtx.callback, if_neg (by decide)]
  rw [hcallback]
  rcases hf : ctx.onProtocol with - | f
  · rfl
  · exact if_neg (not_not.mpr (hprotocol f hf _ _ _ _))

/-- **What a listener over TCP is handed** in any run of its loop: of the frames it has
received by then, those that do not begin like the protocol. -/
theorem handed_of_stream (hwire : OverTcp wire s) (hctx : Steady ctx)
    {fs : List (Frame ducqMsgsz)} (hbytes : bytes s.rx = Frame.stream fs)
    (hf : hardFailure s.rx = none) {l l' : Listening σ} {turns : List Turn}
    (hrun : Run (Listens (some wire) ctx) l turns l')
    (hn : receives l.past + turns.length ≤ fs.length) :
    handed turns =
      (((fs.map Frame.payload).drop (receives l.past)).take turns.length).filter Plain := by
  induction hrun with
  | nil l => rw [List.length_nil, List.take_zero]; rfl
  | @cons l l' l'' t turns hstep hrest ih =>
    obtain ⟨-, hturn⟩ := hstep
    rw [List.length_cons] at hn
    have hlt : receives l.past < fs.length := by omega
    have hrecv := recv_of_stream hwire hbytes hf hlt
    have hone : handed [(listenTurn (some wire) ctx l).1] =
        [fs[receives l.past].payload].filter Plain := by
      by_cases hplain : Plain fs[receives l.past].payload
      · rw [(listenTurn_plain hctx hrecv hplain).1]
        simp [hplain]
      · rw [handed_listenTurn_keyword hctx hrecv hplain]
        simp [hplain]
    have hpast := @receives_listenTurn wire σ ctx hctx l
    rw [hturn] at hone hpast
    have happ : handed (t :: turns) = handed [t] ++ handed turns := by
      rw [← List.singleton_append, handed, List.filter_append, List.map_append]
      rfl
    rw [happ, hone, ih (by rw [hpast]; omega), hpast, List.length_cons, ← List.filter_append]
    congr 1
    have hlt' : receives l.past < (fs.map Frame.payload).length := by rwa [List.length_map]
    rw [List.drop_eq_getElem_cons hlt', List.take_succ_cons, List.getElem_map,
      List.singleton_append]

/-- **The loop receives on** as long as it goes on after each of the first frames. -/
theorem listens_of_stream (hwire : OverTcp wire s) (hctx : Steady ctx)
    {fs : List (Frame ducqMsgsz)} (hbytes : bytes s.rx = Frame.stream fs)
    (hf : hardFailure s.rx = none) {k : ℕ} (hk : k ≤ fs.length)
    (hgoesOn : ∀ f ∈ fs.take k, ∀ l : Listening σ,
      wire.recv l.past = ⟨.ok, f.payload ++ [0], f.payload.length⟩ →
        (listenTurn (some wire) ctx l).2.returned = none)
    {l : Listening σ} (hl : l.returned = none) {n : ℕ} (hn : receives l.past + n ≤ k) :
    ∃ turns l', Run (Listens (some wire) ctx) l turns l' ∧ turns.length = n := by
  induction n generalizing l with
  | zero => exact ⟨[], l, .nil l, rfl⟩
  | succ n ih =>
    have hlt : receives l.past < fs.length := by omega
    have hmem : fs[receives l.past] ∈ fs.take k :=
      List.mem_take_iff_getElem.mpr ⟨receives l.past, by omega, rfl⟩
    have hreturned := hgoesOn _ hmem l (recv_of_stream hwire hbytes hf hlt)
    have hpast := @receives_listenTurn wire σ ctx hctx l
    obtain ⟨turns, l', hrun, hturns⟩ := ih hreturned (by rw [hpast]; omega)
    exact ⟨_ :: turns, l', .cons ⟨hl, rfl⟩ hrun, by rw [List.length_cons, hturns]⟩

end Client

end Ducq
