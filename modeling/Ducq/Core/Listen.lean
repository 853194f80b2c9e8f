import Ducq.Core.Client
import Ducq.Lib.Fifo

/-!
# `ducq_listen`

A client that listens receives over and over and hands each message to one of the
functions its caller gave: those for messages, for the protocol, for refusals and for
errors.  One that does not answer with zero ends the loop.

In managed mode the protocol is `ducq_receive`'s business.  It knows what belongs to the
protocol by how the text begins, and a text may begin with `END` because its first word is
`ENDPOINT`: such a message does not reach its listener (`leftAlone_iff`).
-/

namespace Ducq

namespace Client

open CMemory CNumber CPrintf Fifo

/-! ## The loop -/

/-- Which of the functions of a listener. -/
inductive Callback where
  | message | protocol | nack | error
  deriving DecidableEq

/-- `ducq_on_msg_f`: from the message, its size and the caller's context, after what went
over the connection before, the answer, the context and what the function sends and
receives itself.  The message is not changed. -/
abbrev OnMsg (σ : Type) := Buffer → ℕ → σ → List Exchange → ℤ × σ × List Exchange

/-- `struct ducq_listen_ctx`, without the context that is handed through. -/
structure ListenCtx (σ : Type) where
  onMessage : Option (OnMsg σ)
  onProtocol : Option (OnMsg σ)
  onNack : Option (OnMsg σ)
  onError : Option (DucqState → σ → List Exchange → ℤ × σ × List Exchange)
  recvRaw : Bool

/-- The variables of `ducq_listen`, with what it has returned, once it has. -/
structure Listening (σ : Type) where
  msg : Buffer
  ctx : σ
  past : List Exchange
  returned : Option DucqState

/-- What one turn of the loop was: what `recv` exchanged, the state it came to with the
buffer and the size it left, and which function was called with these. -/
structure Turn where
  exchanges : List Exchange
  state : DucqState
  msg : Buffer
  size : ℕ
  called : Option Callback

variable {σ : Type}

/-- `recv`, of the two there are. -/
def ListenCtx.recv (ctx : ListenCtx σ) (ducq : Option Wire) (msg : Buffer) (size : ℕ)
    (past : List Exchange) : DucqState × Buffer × ℕ × List Exchange :=
  if ctx.recvRaw then ducqRecv ducq msg size past else ducqReceive ducq msg size past

/-- The function for what was received, if the caller gave one. -/
def ListenCtx.callback (ctx : ListenCtx σ) (state : DucqState) : Option (Callback × OnMsg σ) :=
  if DucqState.error.code ≤ state.code then
    ctx.onError.map fun f => (.error, fun _ _ => f state)
  else match state with
    | .ok => ctx.onMessage.map (.message, ·)
    | .protocol => ctx.onProtocol.map (.protocol, ·)
    | .nack => ctx.onNack.map (.nack, ·)
    | _ => none

/-- The body of the loop. -/
def listenTurn (ducq : Option Wire) (ctx : ListenCtx σ) (s : Listening σ) : Turn × Listening σ :=
  let (state, msg, size, past) := ctx.recv ducq s.msg ducqMsgsz s.past
  let exchanges := past.drop s.past.length
  match ctx.callback state with
  | none => (⟨exchanges, state, msg, size, none⟩, ⟨msg, s.ctx, past, none⟩)
  | some (callback, f) =>
    let (answer, c, more) := f msg size s.ctx past
    (⟨exchanges, state, msg, size, some callback⟩,
      ⟨msg, c, past ++ more, if answer ≠ 0 then some state else none⟩)

/-- A step of `ducq_listen`, as long as it has not returned. -/
def Listens (ducq : Option Wire) (ctx : ListenCtx σ) (s : Listening σ) (t : Turn)
    (s' : Listening σ) : Prop :=
  s.returned = none ∧ listenTurn ducq ctx s = (t, s')

/-- `ducq_listen` before its loop: the buffer is all zero. -/
def startListening (stack : ℕ → Byte) (c : σ) (past : List Exchange) : Listening σ :=
  ⟨Buffer.fresh fun i => if i < ducqMsgsz then 0 else stack i, c, past, none⟩

/-! ## What belongs to the protocol -/

/-- The words of the protocol. -/
def keywords : List (List Byte) :=
  [ascii "ACK", ascii "NACK", ascii "PARTS", ascii "END", ascii "PING", ascii "PONG"]

/-- The first word of a message. -/
def firstToken (msg : List Byte) : List Byte :=
  (cstr msg).takeWhile fun b => b ≠ space ∧ b ≠ newline

/-- The next message is received as it is and nothing is sent for it, and who listens gets
it. -/
structure LeftAlone (wire : Wire) (msg : Buffer) (size : ℕ) (past : List Exchange) : Prop where
  received : ducqReceive (some wire) msg size past =
    (.ok, msg.store 0 (wire.recv past).msg, (wire.recv past).size,
      past ++ [.received .ok (wire.recv past).msg])
  handed : ∀ (σ : Type) (ctx : ListenCtx σ) (f : OnMsg σ) (c : σ),
    ctx.recvRaw = false → ctx.onMessage = some f →
      (listenTurn (some wire) ctx ⟨msg, c, past, none⟩).1 =
        ⟨[.received .ok (wire.recv past).msg], .ok, msg.store 0 (wire.recv past).msg,
          (wire.recv past).size, some .message⟩

variable {wire : Wire} {msg : Buffer} {size : ℕ} {past : List Exchange}

/-- **A message none of the words begins** is received as it is. -/
theorem ducqReceive_plain (hok : (wire.recv past).state = .ok)
    (h : ∀ word ∈ keywords, ¬ (msg.store 0 (wire.recv past).msg).StartsWith word) :
    ducqReceive (some wire) msg size past =
      (.ok, msg.store 0 (wire.recv past).msg, (wire.recv past).size,
        past ++ [.received .ok (wire.recv past).msg]) := by
  simp only [keywords, List.forall_mem_cons, List.not_mem_nil, false_imp_iff, implies_true,
    and_true] at h
  obtain ⟨hAck, hNack, hParts, hEnd, hPing, hPong⟩ := h
  have htimeout : (wire.recv past).state ≠ .etimeout := hok ▸ DucqState.noConfusion
  unfold ducqReceive ducqRecv
  dsimp only
  rw [if_neg htimeout, if_neg (not_not.mpr hok), if_neg hAck, if_neg hParts, if_neg hEnd,
    if_neg hNack, if_neg hPing, if_neg hPong, hok]

/-- **A message one of the words begins** is not received as a message. -/
theorem ducqReceive_keyword (hok : (wire.recv past).state = .ok) {word : List Byte}
    (hword : word ∈ keywords) (h : (msg.store 0 (wire.recv past).msg).StartsWith word) :
    (ducqReceive (some wire) msg size past).1 ≠ .ok := by
  have htimeout : (wire.recv past).state ≠ .etimeout := hok ▸ DucqState.noConfusion
  unfold ducqReceive ducqRecv ducqSend
  dsimp only
  rw [if_neg htimeout, if_neg (not_not.mpr hok)]
  split_ifs with hAck hParts hEnd hNack hPing hsent hPong
  · exact DucqState.noConfusion
  · exact DucqState.noConfusion
  · exact DucqState.noConfusion
  · exact DucqState.noConfusion
  · exact hsent
  · exact DucqState.noConfusion
  · exact DucqState.noConfusion
  · -- none of them is left
    simp only [keywords, List.mem_cons, List.not_mem_nil, or_false] at hword
    rcases hword with rfl | rfl | rfl | rfl | rfl | rfl
    · exact absurd h hAck
    · exact absurd h hNack
    · exact absurd h hParts
    · exact absurd h hEnd
    · exact absurd h hPing
    · exact absurd h hPong

/-- What is received as it is, is handed on. -/
theorem LeftAlone.of_received (h : ducqReceive (some wire) msg ducqMsgsz past =
    (.ok, msg.store 0 (wire.recv past).msg, (wire.recv past).size,
      past ++ [.received .ok (wire.recv past).msg])) {σ : Type} {ctx : ListenCtx σ} {f : OnMsg σ}
    (hraw : ctx.recvRaw = false) (hf : ctx.onMessage = some f) (c : σ) :
    (listenTurn (some wire) ctx ⟨msg, c, past, none⟩).1 =
      ⟨[.received .ok (wire.recv past).msg], .ok, msg.store 0 (wire.recv past).msg,
        (wire.recv past).size, some .message⟩ := by
  have hrecv : ctx.recv (some wire) msg ducqMsgsz past = _ :=
    (if_neg (hraw ▸ Bool.false_ne_true)).trans h
  have hcallback : ctx.callback .ok = some (.message, f) := by
    rw [ListenCtx.callback, if_neg (by decide), hf]
    rfl
  rw [listenTurn]
  dsimp only
  rw [hrecv]
  dsimp only
  rw [hcallback, List.drop_left]

/-- **An ordinary message is never taken for the protocol**, exactly if none of the words of
the protocol begins it. -/
theorem leftAlone_iff (wire : Wire) (msg : Buffer) (size : ℕ) (past : List Exchange)
    (hok : (wire.recv past).state = .ok) (hterm : (0 : Byte) ∈ (wire.recv past).msg) :
    (firstToken (wire.recv past).msg ∉ keywords → LeftAlone wire msg size past) ↔
      (firstToken (wire.recv past).msg ∈ keywords ∨
        ∀ word ∈ keywords, ¬ word <+: cstr (wire.recv past).msg) := by
  have hwords : ∀ word ∈ keywords, ((msg.store 0 (wire.recv past).msg).StartsWith word ↔
      word <+: cstr (wire.recv past).msg) := fun word hword =>
    Buffer.startsWith_store_cstr_iff (by revert word; decide) hterm
  constructor
  · intro h
    by_contra hnot
    push Not at hnot
    obtain ⟨htoken, word, hword, hbegins⟩ := hnot
    have hreceived := (h htoken).received
    exact ducqReceive_keyword hok hword ((hwords word hword).mpr hbegins)
      (congrArg Prod.fst hreceived)
  · rintro (htoken | hplain) hnot
    · exact absurd htoken hnot
    · have hstarts : ∀ word ∈ keywords,
          ¬ (msg.store 0 (wire.recv past).msg).StartsWith word := fun word hword =>
        mt (hwords word hword).mp (hplain word hword)
      exact ⟨ducqReceive_plain hok hstarts, fun σ ctx f c hraw hf =>
        LeftAlone.of_received (ducqReceive_plain hok hstarts) hraw hf c⟩

/-- A connection over which every receive delivers a text, terminated. -/
def Wire.ofText (text : List Byte) : Wire where
  send _ _ := .ok
  recv _ := ⟨.ok, text ++ [0], text.length⟩

theorem leftAlone_iff_pub :
    (firstToken ((Wire.ofText (ascii "pub news\nhi")).recv []).msg ∉ keywords →
        LeftAlone (Wire.ofText (ascii "pub news\nhi")) (Buffer.fresh fun _ => 0) ducqMsgsz []) ↔
      (firstToken ((Wire.ofText (ascii "pub news\nhi")).recv []).msg ∈ keywords ∨
        ∀ word ∈ keywords, ¬ word <+: cstr ((Wire.ofText (ascii "pub news\nhi")).recv []).msg) :=
  leftAlone_iff (Wire.ofText (ascii "pub news\nhi")) (Buffer.fresh fun _ => 0) ducqMsgsz [] rfl
    (by decide)

/-- **An item of a list** that begins with `END` ends up as protocol. -/
theorem not_leftAlone_endpoint :
    firstToken (ascii "ENDPOINT api\nup" ++ [0]) = ascii "ENDPOINT" ∧
      ascii "ENDPOINT" ∉ keywords ∧
      (ducqReceive (some (Wire.ofText (ascii "ENDPOINT api\nup"))) (Buffer.fresh fun _ => 0)
        ducqMsgsz []).1 = .protocol ∧
      ¬ LeftAlone (Wire.ofText (ascii "ENDPOINT api\nup")) (Buffer.fresh fun _ => 0)
        ducqMsgsz [] := by
  have hprotocol : (ducqReceive (some (Wire.ofText (ascii "ENDPOINT api\nup")))
      (Buffer.fresh fun _ => 0) ducqMsgsz []).1 = .protocol := by decide
  refine ⟨by decide, by decide, hprotocol, fun h => ?_⟩
  have hok := congrArg Prod.fst h.received
  exact absurd (hprotocol.symm.trans hok) (by decide)

end Client

end Ducq
