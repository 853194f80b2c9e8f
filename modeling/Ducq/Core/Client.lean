import Ducq.Core.Parse
import Ducq.Lib.Printf

/-!
# `ducq.c`: the client's side

A client puts a message together with `ducq_emit` and takes the next one with
`ducq_receive`, which answers what belongs to the protocol itself.  `ducq_pub` is one of
each: it publishes, takes one message, and calls it a success unless that message says
otherwise.

What comes from outside is in `Wire`: how each send ends and what each receive delivers,
whatever went over the connection before.  What went over it is the list of the exchanges
so far, so that a statement can be about their order.

A receive that delivers nothing, or something that is no answer, is also not a refusal.
`Misled` is every way this can happen, and `ducqPub_iff` says that there is no other.
-/

namespace Ducq

namespace Client

open CMemory CNumber CPrintf

/-! ## The connection -/

/-- One call of `send`, or one of `recv`. -/
inductive Exchange where
  | sent (buf : List Byte)
  | received (state : DucqState) (msg : List Byte)
  deriving DecidableEq

/-- What a `recv` comes to: its state, the bytes it stores, and the size it reports. -/
structure Delivery where
  state : DucqState
  msg : List Byte
  size : ℕ

/-- How a send ends and what a receive delivers, after what went over the connection
before. -/
structure Wire where
  send : List Exchange → List Byte → DucqState
  recv : List Exchange → Delivery

/-- `ducq_send(ducq, buf, &size)`, for `buf` the `size` bytes at `buf`; a client without a
connection is NULL. -/
def ducqSend (ducq : Option Wire) (buf : List Byte) (past : List Exchange) :
    DucqState × List Exchange :=
  match ducq with
  | none => (.enull, past)
  | some wire => (wire.send past buf, past ++ [.sent buf])

/-- `ducq_recv`: the state, the buffer and the size. -/
def ducqRecv (ducq : Option Wire) (msg : Buffer) (size : ℕ) (past : List Exchange) :
    DucqState × Buffer × ℕ × List Exchange :=
  match ducq with
  | none => (.enull, msg, size, past)
  | some wire =>
    let delivery := wire.recv past
    (delivery.state, msg.store 0 delivery.msg, delivery.size,
      past ++ [.received delivery.state delivery.msg])

/-! ## Sending -/

/-- The text of a message: a payload is taken up to its size, unless that is negative as
an `int`. -/
def emitText (command route payload : List Byte) (size : ℕ) : List Byte :=
  cstr command ++ ascii " " ++ cstr route ++ ascii "\n" ++
    if wrap32 size < 0 then cstr payload else (cstr payload).take (wrap32 size).toNat

/-- It is what the format of `ducq_emit` makes of them. -/
theorem format_emitText (command route payload : List Byte) (size : ℕ) :
    format (ascii "%s %s\n%.*s")
      [.str (some command), .str (some route), .int (wrap32 size), .str (some payload)] =
      some (emitText command route payload size) := by
  have hformat : format (ascii "%s %s\n%.*s")
      [.str (some command), .str (some route), .int (wrap32 size), .str (some payload)] =
      some (cstr command ++ space :: (cstr route ++ newline ::
        ((if wrap32 size < 0 then cstr payload else (cstr payload).take (wrap32 size).toNat) ++
          []))) := rfl
  rw [hformat, emitText, List.append_nil, show ascii " " = [space] from rfl,
    show ascii "\n" = [newline] from rfl]
  simp only [List.append_assoc, List.cons_append, List.nil_append]

/-- `ducq_emit`; `stack` is what its buffer holds before. -/
def ducqEmit (ducq : Option Wire) (stack : ℕ → Byte) (command route payload : List Byte)
    (size : ℕ) (past : List Exchange) : DucqState × List Exchange :=
  let text := emitText command route payload size
  let msg := snprintf (Buffer.fresh stack) 0 ducqMsgsz text
  if text.length ≥ ducqMsgsz then (.emsgsize, past)
  else ducqSend ducq (msg.slice 0 text.length) past

/-- **A message that fits is sent as it is**, and no other is. -/
theorem ducqEmit_eq (ducq : Option Wire) (stack : ℕ → Byte) (command route payload : List Byte)
    (size : ℕ) (past : List Exchange) :
    ducqEmit ducq stack command route payload size past =
      if (emitText command route payload size).length < ducqMsgsz then
        ducqSend ducq (emitText command route payload size) past
      else (.emsgsize, past) := by
  unfold ducqEmit
  dsimp only
  rcases Nat.lt_or_ge (emitText command route payload size).length ducqMsgsz with hlt | hge
  · rw [if_neg (Nat.not_le.mpr hlt), if_pos hlt, snprintf_of_lt _ _ hlt,
      Buffer.slice_store_drop _ (by simp), List.drop_zero, List.take_left]
  · rw [if_pos hge, if_neg (Nat.not_lt.mpr hge)]

/-! ## Receiving -/

/-- The ping a client sends when nothing comes. -/
def keepAlive : List Byte := ascii "PING _\nping"

/-- `ducq_receive`. -/
def ducqReceive (ducq : Option Wire) (msg : Buffer) (size : ℕ) (past : List Exchange) :
    DucqState × Buffer × ℕ × List Exchange :=
  let (state, msg, size', past) := ducqRecv ducq msg size past
  if state = .etimeout then
    if size ≥ 4 ∧ msg.StartsWith (ascii "PING") then (.etimeout, msg, size', past)
    else
      let msg := snprintf msg 0 size keepAlive
      let (sent, past) := ducqSend ducq (msg.slice 0 keepAlive.length) past
      (if sent ≠ .ok then sent else .protocol, msg, keepAlive.length, past)
  else if state ≠ .ok then (state, msg, size', past)
  else if msg.StartsWith (ascii "ACK") then (.protocol, msg, size', past)
  else if msg.StartsWith (ascii "PARTS") then (.protocol, msg, size', past)
  else if msg.StartsWith (ascii "END") then (.protocol, msg, size', past)
  else if msg.StartsWith (ascii "NACK") then (.nack, msg, size', past)
  else if msg.StartsWith (ascii "PING") then
    let msg := msg.put 1 79
    let (sent, past) := ducqSend ducq (msg.slice 0 size') past
    (if sent ≠ .ok then sent else .protocol, msg, size', past)
  else if msg.StartsWith (ascii "PONG") then (.protocol, msg, size', past)
  else (.ok, msg, size', past)

/-- `ducq_pub`. -/
def ducqPub (ducq : Option Wire) (stack : ℕ → Byte) (route payload : List Byte) (size : ℕ)
    (past : List Exchange) : DucqState × List Exchange :=
  let (state, past) := ducqEmit ducq stack (ascii "pub") route payload size past
  if state ≠ .ok then (state, past)
  else
    let msg := Buffer.fresh fun i => if i < ducqMsgsz then 0 else stack i
    let (state, _, _, past) := ducqReceive ducq msg ducqMsgsz past
    (if state.code ≤ DucqState.protocol.code then .ok else state, past)

/-! ## What a success means -/

/-- During the call the message was sent, and after that an acknowledgement received. -/
def Acknowledged (message : List Byte) (past past' : List Exchange) : Prop :=
  ∃ between ack rest, past' =
      past ++ .sent message :: (between ++ .received .ok ack :: rest) ∧ ascii "ACK" <+: ack

/-- The answer to a ping: the message with its second byte replaced. -/
def pongText (stack : ℕ → Byte) (delivery : Delivery) : List Byte :=
  (((Buffer.fresh fun i => if i < ducqMsgsz then 0 else stack i).store 0 delivery.msg).put 1
    79).slice 0 delivery.size

/-- What comes next is no acknowledgement and is taken for a success all the same: a
message the transport keeps to itself, nothing at all, or any message but a refusal.  A
ping that is due must be sent for it. -/
def Misled (wire : Wire) (stack : ℕ → Byte) (past : List Exchange) : Prop :=
  let delivery := wire.recv past
  let past := past ++ [.received delivery.state delivery.msg]
  delivery.state = .protocol ∨
  (delivery.state = .etimeout ∧ ¬ ascii "PING" <+: delivery.msg ∧
    (wire.send past keepAlive).code ≤ DucqState.protocol.code) ∨
  (delivery.state = .ok ∧ ¬ ascii "ACK" <+: delivery.msg ∧ ¬ ascii "NACK" <+: delivery.msg ∧
    (ascii "PING" <+: delivery.msg →
      (wire.send past (pongText stack delivery)).code ≤ DucqState.protocol.code))

variable {wire : Wire} {stack : ℕ → Byte} {msg : Buffer} {past : List Exchange}

/-- Two words, neither the beginning of the other, do not begin the same message. -/
theorem not_starts_of_starts {a b m : List Byte} (h : a <+: m) (hab : ¬ (a <+: b ∨ b <+: a)) :
    ¬ b <+: m := fun hb => hab (List.prefix_or_prefix_of_prefix h hb)

/-- A message of several parts is neither a refusal nor a ping. -/
theorem more_not_nack_ping {m : List Byte} (h : ascii "PARTS" <+: m ∨ ascii "END" <+: m) :
    ¬ ascii "NACK" <+: m ∧ ¬ ascii "PING" <+: m := by
  rcases h with h | h
  · exact ⟨not_starts_of_starts h (by decide), not_starts_of_starts h (by decide)⟩
  · exact ⟨not_starts_of_starts h (by decide), not_starts_of_starts h (by decide)⟩

/-- The state after a send that is checked. -/
theorem checked_code_le (s : DucqState) :
    (if s ≠ .ok then s else DucqState.protocol).code ≤ DucqState.protocol.code ↔
      s.code ≤ DucqState.protocol.code := by
  cases s <;> decide

/-- What a receive adds to the past: the delivery, and then only what is sent. -/
theorem past_ducqReceive (wire : Wire) (msg : Buffer) (size : ℕ) (past : List Exchange) :
    ∃ rest, (ducqReceive (some wire) msg size past).2.2.2 =
        past ++ .received (wire.recv past).state (wire.recv past).msg :: rest ∧
      ∀ e ∈ rest, ∃ buf, e = .sent buf := by
  have hnone : ∀ e ∈ ([] : List Exchange), ∃ buf, e = Exchange.sent buf := fun e he =>
    absurd he List.not_mem_nil
  have hone : ∀ buf', ∀ e ∈ [Exchange.sent buf'], ∃ buf, e = Exchange.sent buf := fun buf' e he =>
    ⟨buf', List.mem_singleton.mp he⟩
  unfold ducqReceive ducqRecv ducqSend
  dsimp only
  by_cases htimeout : (wire.recv past).state = .etimeout
  · rw [if_pos htimeout]
    split_ifs
    · exact ⟨[], rfl, hnone⟩
    · exact ⟨[.sent _], List.append_assoc _ _ _, hone _⟩
    · exact ⟨[.sent _], List.append_assoc _ _ _, hone _⟩
  · rw [if_neg htimeout]
    -- only the answer to a ping sends anything
    by_cases hping : (msg.store 0 (wire.recv past).msg).StartsWith (ascii "PING")
    · rw [if_pos hping]
      split_ifs
      · exact ⟨[], rfl, hnone⟩
      · exact ⟨[], rfl, hnone⟩
      · exact ⟨[], rfl, hnone⟩
      · exact ⟨[], rfl, hnone⟩
      · exact ⟨[], rfl, hnone⟩
      · exact ⟨[.sent _], List.append_assoc _ _ _, hone _⟩
      · exact ⟨[.sent _], List.append_assoc _ _ _, hone _⟩
    · rw [if_neg hping]
      split_ifs
      · exact ⟨[], rfl, hnone⟩
      · exact ⟨[], rfl, hnone⟩
      · exact ⟨[], rfl, hnone⟩
      · exact ⟨[], rfl, hnone⟩
      · exact ⟨[], rfl, hnone⟩
      · exact ⟨[], rfl, hnone⟩
      · exact ⟨[], rfl, hnone⟩

/-- In the buffer of `ducq_pub`, which is all zero, a message begins with what it began with
when it was sent. -/
theorem startsWith_delivered (stack : ℕ → Byte) (m word : List Byte) (h0 : (0 : Byte) ∉ word)
    (hlt : word.length < ducqMsgsz) :
    ((Buffer.fresh fun i => if i < ducqMsgsz then 0 else stack i).store 0 m).StartsWith word ↔
      word <+: m :=
  Buffer.startsWith_store_iff h0 fun i hi => if_pos (by omega)

theorem slice_keepAlive (b : Buffer) :
    (snprintf b 0 ducqMsgsz keepAlive).slice 0 keepAlive.length = keepAlive := by
  rw [snprintf_of_lt _ _ (by decide), Buffer.slice_store_drop _ (by simp), List.drop_zero,
    List.take_left]

/-- Nothing came: a success if the keep-alive ping is sent. -/
theorem code_ducqReceive_timeout (htimeout : (wire.recv past).state = .etimeout) :
    (ducqReceive (some wire) (Buffer.fresh fun i => if i < ducqMsgsz then 0 else stack i)
        ducqMsgsz past).1.code ≤ DucqState.protocol.code ↔
      ¬ ascii "PING" <+: (wire.recv past).msg ∧
        (wire.send (past ++ [.received (wire.recv past).state (wire.recv past).msg])
          keepAlive).code ≤ DucqState.protocol.code := by
  have hPing := startsWith_delivered stack (wire.recv past).msg (ascii "PING") (by decide)
    (by decide)
  unfold ducqReceive ducqRecv
  dsimp only
  rw [if_pos htimeout]
  by_cases hping : ascii "PING" <+: (wire.recv past).msg
  · rw [if_pos ⟨by decide, hPing.mpr hping⟩]
    exact iff_of_false (show ¬ DucqState.etimeout.code ≤ DucqState.protocol.code by decide)
      fun h => h.1 hping
  · rw [if_neg fun hc => hping (hPing.mp hc.2), slice_keepAlive, checked_code_le,
      and_iff_right hping]
    rfl

/-- A message came: a success unless it refuses, or is a ping that cannot be answered. -/
theorem code_ducqReceive_ok (hok : (wire.recv past).state = .ok) :
    (ducqReceive (some wire) (Buffer.fresh fun i => if i < ducqMsgsz then 0 else stack i)
        ducqMsgsz past).1.code ≤ DucqState.protocol.code ↔
      ascii "ACK" <+: (wire.recv past).msg ∨
      (¬ ascii "NACK" <+: (wire.recv past).msg ∧
        (ascii "PING" <+: (wire.recv past).msg →
          (wire.send (past ++ [.received (wire.recv past).state (wire.recv past).msg])
            (pongText stack (wire.recv past))).code ≤ DucqState.protocol.code)) := by
  have hword := startsWith_delivered stack (wire.recv past).msg
  have hAck := hword (ascii "ACK") (by decide) (by decide)
  have hParts := hword (ascii "PARTS") (by decide) (by decide)
  have hEnd := hword (ascii "END") (by decide) (by decide)
  have hNack := hword (ascii "NACK") (by decide) (by decide)
  have hPing := hword (ascii "PING") (by decide) (by decide)
  have htimeout : (wire.recv past).state ≠ .etimeout := hok ▸ DucqState.noConfusion
  unfold ducqReceive ducqRecv pongText
  dsimp only
  rw [if_neg htimeout, if_neg (not_not.mpr hok)]
  -- the words are tried in the order of the source
  by_cases hack : ascii "ACK" <+: (wire.recv past).msg
  · rw [if_pos (hAck.mpr hack)]
    exact iff_of_true le_rfl (Or.inl hack)
  rw [if_neg (mt hAck.mp hack), or_iff_right hack]
  by_cases hparts : ascii "PARTS" <+: (wire.recv past).msg
  · obtain ⟨hnack, hping⟩ := more_not_nack_ping (.inl hparts)
    rw [if_pos (hParts.mpr hparts)]
    exact iff_of_true le_rfl ⟨hnack, fun h => absurd h hping⟩
  rw [if_neg (mt hParts.mp hparts)]
  by_cases hend : ascii "END" <+: (wire.recv past).msg
  · obtain ⟨hnack, hping⟩ := more_not_nack_ping (.inr hend)
    rw [if_pos (hEnd.mpr hend)]
    exact iff_of_true le_rfl ⟨hnack, fun h => absurd h hping⟩
  rw [if_neg (mt hEnd.mp hend)]
  by_cases hnack : ascii "NACK" <+: (wire.recv past).msg
  · rw [if_pos (hNack.mpr hnack)]
    exact iff_of_false (show ¬ DucqState.nack.code ≤ DucqState.protocol.code by decide)
      fun h => h.1 hnack
  rw [if_neg (mt hNack.mp hnack), and_iff_right hnack]
  by_cases hping : ascii "PING" <+: (wire.recv past).msg
  · rw [if_pos (hPing.mpr hping), checked_code_le]
    exact ⟨fun h _ => h, fun h => h hping⟩
  rw [if_neg (mt hPing.mp hping)]
  refine iff_of_true ?_ fun h => absurd h hping
  split_ifs
  · exact le_rfl
  · exact Nat.zero_le _

/-- The receive failed otherwise: its state is passed on. -/
theorem code_ducqReceive_failed (htimeout : (wire.recv past).state ≠ .etimeout)
    (hok : (wire.recv past).state ≠ .ok) :
    (ducqReceive (some wire) msg ducqMsgsz past).1.code ≤ DucqState.protocol.code ↔
      (wire.recv past).state = .protocol := by
  have hstate : ∀ s : DucqState, s ≠ .ok →
      (s.code ≤ DucqState.protocol.code ↔ s = .protocol) := fun s hs => by
    cases s <;> first | exact absurd rfl hs | decide
  unfold ducqReceive ducqRecv
  dsimp only
  rw [if_neg htimeout, if_pos hok]
  exact hstate _ hok

/-- **What a publisher takes for a success**: an acknowledgement, or what misleads it. -/
theorem code_ducqReceive_le_iff (wire : Wire) (stack : ℕ → Byte) (past : List Exchange) :
    (ducqReceive (some wire) (Buffer.fresh fun i => if i < ducqMsgsz then 0 else stack i)
        ducqMsgsz past).1.code ≤ DucqState.protocol.code ↔
      Misled wire stack past ∨
        (wire.recv past).state = .ok ∧ ascii "ACK" <+: (wire.recv past).msg := by
  unfold Misled
  dsimp only
  by_cases htimeout : (wire.recv past).state = .etimeout
  · have hok : (wire.recv past).state ≠ .ok := htimeout ▸ DucqState.noConfusion
    have hprotocol : (wire.recv past).state ≠ .protocol := htimeout ▸ DucqState.noConfusion
    rw [code_ducqReceive_timeout htimeout, or_iff_left fun h => hok h.1, or_iff_right hprotocol,
      or_iff_left fun h => hok h.1, and_iff_right htimeout]
  by_cases hok : (wire.recv past).state = .ok
  · have hprotocol : (wire.recv past).state ≠ .protocol := hok ▸ DucqState.noConfusion
    rw [or_assoc, or_assoc, or_iff_right hprotocol, or_iff_right fun h => htimeout h.1,
      and_iff_right hok, and_iff_right hok, code_ducqReceive_ok hok]
    by_cases hack : ascii "ACK" <+: (wire.recv past).msg
    · exact iff_of_true (Or.inl hack) (Or.inr hack)
    · rw [or_iff_right hack, or_iff_left hack, and_iff_right hack]
  · rw [code_ducqReceive_failed htimeout hok, or_iff_left fun h => hok h.1]
    constructor
    · exact fun h => Or.inl h
    · rintro (h | ⟨h, -⟩ | ⟨h, -⟩)
      · exact h
      · exact absurd h htimeout
      · exact absurd h hok

/-- What a publisher was acknowledged is what the first receive after its message
delivered. -/
theorem acknowledged_iff {message : List Byte} {past rest : List Exchange} {state : DucqState}
    {msg : List Byte} (hrest : ∀ e ∈ rest, ∃ buf, e = Exchange.sent buf) :
    Acknowledged message past ((past ++ [.sent message]) ++ .received state msg :: rest) ↔
      state = .ok ∧ ascii "ACK" <+: msg := by
  rw [List.append_assoc, List.singleton_append]
  constructor
  · rintro ⟨between, ack, rest', heq, hack⟩
    have hmem : Exchange.received .ok ack ∈ Exchange.received state msg :: rest := by
      rw [(List.cons.inj (List.append_cancel_left heq)).2]
      exact List.mem_append_right _ List.mem_cons_self
    rcases List.mem_cons.mp hmem with heq | hmem
    · obtain ⟨rfl, rfl⟩ := Exchange.received.inj heq
      exact ⟨rfl, hack⟩
    · obtain ⟨buf, hbuf⟩ := hrest _ hmem
      exact nomatch hbuf
  · rintro ⟨rfl, hack⟩
    exact ⟨[], msg, rest, rfl, hack⟩

/-- **A publisher is told `ok` only when acknowledged**, exactly as far as nothing misleads
it. -/
theorem ducqPub_ok_iff (ducq : Option Wire) (stack : ℕ → Byte) (route payload : List Byte)
    (size : ℕ) (past : List Exchange) :
    ((ducqPub ducq stack route payload size past).1 = .ok →
      Acknowledged (emitText (ascii "pub") route payload size) past
        (ducqPub ducq stack route payload size past).2) ↔
    ∀ wire, ducq = some wire → (emitText (ascii "pub") route payload size).length < ducqMsgsz →
      wire.send past (emitText (ascii "pub") route payload size) = .ok →
        ¬ Misled wire stack (past ++ [.sent (emitText (ascii "pub") route payload size)]) := by
  set text := emitText (ascii "pub") route payload size with htext
  unfold ducqPub
  rw [ducqEmit_eq, ← htext]
  dsimp only
  by_cases hlt : text.length < ducqMsgsz
  · rw [if_pos hlt]
    cases ducq with
    | none => exact iff_of_true (fun h => nomatch h) fun wire h => nomatch h
    | some wire =>
      by_cases hsent : wire.send past text = .ok
      · have hstate : (ducqSend (some wire) text past).1 = .ok := hsent
        have hle : ∀ s : DucqState, (if s.code ≤ DucqState.protocol.code then .ok else s) = .ok ↔
            s.code ≤ DucqState.protocol.code := fun s => by cases s <;> decide
        obtain ⟨rest, hpast, hrest⟩ := past_ducqReceive wire
          (Buffer.fresh fun i => if i < ducqMsgsz then 0 else stack i) ducqMsgsz
          (past ++ [.sent text])
        rw [if_neg (not_not.mpr hstate), show (ducqSend (some wire) text past).2 =
          past ++ [.sent text] from rfl]
        dsimp only
        rw [hle, code_ducqReceive_le_iff, hpast, acknowledged_iff hrest]
        constructor
        · rintro h wire' hwire - - hmisled
          obtain rfl := Option.some.inj hwire
          obtain ⟨hok, hack⟩ := h (Or.inl hmisled)
          rcases hmisled with h | ⟨h, -⟩ | ⟨-, h, -⟩
          · exact absurd (h.symm.trans hok) (by decide)
          · exact absurd (h.symm.trans hok) (by decide)
          · exact h hack
        · intro h hor
          exact hor.resolve_left (h wire rfl hlt hsent)
      · have hstate : (ducqSend (some wire) text past).1 ≠ .ok := hsent
        rw [if_pos hstate]
        exact iff_of_true (fun h => absurd h hstate) fun wire' hwire _ h =>
          absurd (Option.some.inj hwire ▸ h) hsent
  · rw [if_neg hlt]
    exact iff_of_true (fun h => nomatch h) fun _ _ h => absurd h hlt

/-- A connection over which every receive delivers a message. -/
def Wire.ofMessage (msg : List Byte) : Wire where
  send _ _ := .ok
  recv _ := ⟨.ok, msg, msg.length⟩

/-- **A client that is subscribed** publishes, and takes a message published to it for an
acknowledgement. -/
theorem not_acknowledged_message :
    (ducqPub (some (Wire.ofMessage (ascii "pub news\nhi"))) (fun _ => 0) (ascii "news")
      (ascii "hello") 5 []).1 = .ok ∧
    ¬ Acknowledged (emitText (ascii "pub") (ascii "news") (ascii "hello") 5) []
      (ducqPub (some (Wire.ofMessage (ascii "pub news\nhi"))) (fun _ => 0) (ascii "news")
        (ascii "hello") 5 []).2 := by
  have hrun : ducqPub (some (Wire.ofMessage (ascii "pub news\nhi"))) (fun _ => 0)
      (ascii "news") (ascii "hello") 5 [] =
      (.ok, ([] ++ [.sent (emitText (ascii "pub") (ascii "news") (ascii "hello") 5)]) ++
        .received .ok (ascii "pub news\nhi") :: []) := by
    decide +kernel
  rw [hrun, acknowledged_iff fun e he => absurd he List.not_mem_nil]
  exact ⟨rfl, fun h => absurd h.2 (by decide)⟩

end Client

end Ducq
