import Ducq.Core.State
import Ducq.Lib.Sweep
import Mathlib.Data.Fintype.Basic
import Mathlib.Data.List.FinRange

/-!
# `ducq_reactor.c`: the connection table

Twenty-five slots, a slot being free when its descriptor is `-1`.  A client or a server
goes into the first free slot; freeing a slot sets the descriptor and leaves everything
else where it is, so that a free slot still holds the pointer of its last client.

A slot is a union: the word that is a client's pointer is also a server's callback, and
a server's context lies over the first bytes of a client's route.  Both are kept as
they lie in memory, because `ducq_reactor_subscribe` looks at neither descriptor nor
type.

What the reactor does to the outside (sending, asking for an id, closing, freeing) is
recorded in `World.calls`, in order; what comes back is in `Env`.  A hook of a loop acts
on the whole world, so a loop inside a hook is a hook that loops.
-/

namespace Ducq

open CMemory CNumber Sweep

/-! ## State -/

/-- The address of a client object; 0 is NULL. -/
abbrev DucqI := ℕ

/-- `enum connection_type`. -/
inductive ConnectionType where
  | client | server
  deriving DecidableEq

/-- `connection_t`: `word` is `as.client.ducq` and `as.server.accept_f`, `bytes` is
`as.client.route`, and `as.server.ctx` is its first eight bytes. -/
structure Connection where
  fd : ℤ
  type : ConnectionType
  word : ℕ
  bytes : CharArray ducqMaxRouteLen
  deriving DecidableEq

/-- `struct last_msg`. -/
structure LastMsg where
  route : CharArray ducqMaxRouteLen
  msg : CharArray ducqMsgsz

/-- `struct ducq_reactor`. -/
structure DucqReactor where
  connections : Fin ducqMaxConnections → Connection
  allowLogRoute : Bool
  lastMsgs : Fin ducqMaxChannels → LastMsg

/-- What the reactor asks of a client object; `undefined` is a call the language gives
no meaning to. -/
inductive Call where
  | send (ducq : DucqI) (buf : List Byte)
  | id (ducq : DucqI)
  | close (ducq : DucqI)
  | free (ducq : DucqI)
  | undefined
  deriving DecidableEq

/-- The reactor and every call it has made. -/
structure World where
  reactor : DucqReactor
  calls : List Call

/-- What the reactor does not decide: how the `n`-th send to a client ends, what a
client's id is, whether `strndup` finds memory, the padding between a slot's route and
the next NUL, which nothing writes, and what lies on the stack behind a local buffer. -/
structure Env where
  sendResult : DucqI → ℕ → DucqState
  id : DucqI → List Byte
  strndup : List Byte → Bool
  behindRoute : Fin ducqMaxConnections → List Byte
  stack : ℕ → Byte

namespace Connection

/-- The slot is in use. -/
def Live (c : Connection) : Prop := c.fd ≠ -1

/-- The slot holds a client. -/
def IsClient (c : Connection) : Prop := c.Live ∧ c.type = .client

/-- The slot holds a server. -/
def IsServer (c : Connection) : Prop := c.Live ∧ c.type = .server

instance (c : Connection) : Decidable c.Live := inferInstanceAs (Decidable (_ ≠ _))

instance (c : Connection) : Decidable c.IsClient := inferInstanceAs (Decidable (_ ∧ _))

instance (c : Connection) : Decidable c.IsServer := inferInstanceAs (Decidable (_ ∧ _))

theorem IsClient.not_isServer {c : Connection} (h : c.IsClient) : ¬ c.IsServer := fun hs =>
  absurd (h.2.symm.trans hs.2) (by decide)

/-- The slot given up: everything but the descriptor stays. -/
def freed (c : Connection) : Connection := { c with fd := -1 }

@[simp] theorem freed_word (c : Connection) : c.freed.word = c.word := rfl

@[simp] theorem freed_bytes (c : Connection) : c.freed.bytes = c.bytes := rfl

theorem not_live_freed (c : Connection) : ¬ c.freed.Live := fun h => h rfl

theorem not_isClient_freed (c : Connection) : ¬ c.freed.IsClient := fun h => c.not_live_freed h.1

theorem not_isServer_freed (c : Connection) : ¬ c.freed.IsServer := fun h => c.not_live_freed h.1

end Connection

namespace World

/-- A slot. -/
def conn (w : World) (i : Fin ducqMaxConnections) : Connection := w.reactor.connections i

/-- A slot overwritten. -/
def setConn (w : World) (i : Fin ducqMaxConnections) (c : Connection) : World :=
  { w with reactor := { w.reactor with connections := Function.update w.reactor.connections i c } }

/-- Calls made. -/
def record (w : World) (cs : List Call) : World := { w with calls := w.calls ++ cs }

@[simp] theorem conn_setConn_self (w : World) (i : Fin ducqMaxConnections) (c : Connection) :
    (w.setConn i c).conn i = c := by
  simp [conn, setConn]

theorem conn_setConn_of_ne (w : World) {i j : Fin ducqMaxConnections} (h : j ≠ i)
    (c : Connection) : (w.setConn i c).conn j = w.conn j := by
  simp [conn, setConn, h]

@[simp] theorem calls_setConn (w : World) (i : Fin ducqMaxConnections) (c : Connection) :
    (w.setConn i c).calls = w.calls := rfl

@[simp] theorem conn_record (w : World) (cs : List Call) (i : Fin ducqMaxConnections) :
    (w.record cs).conn i = w.conn i := rfl

@[simp] theorem reactor_record (w : World) (cs : List Call) :
    (w.record cs).reactor = w.reactor := rfl

@[simp] theorem calls_record (w : World) (cs : List Call) :
    (w.record cs).calls = w.calls ++ cs := rfl

/-- The reactor as `ducq_reactor_new_with_log` leaves it. -/
def init : World where
  reactor :=
    { connections := fun _ => ⟨-1, .client, 0, CharArray.zeros _⟩
      allowLogRoute := true
      lastMsgs := fun _ => ⟨CharArray.zeros _, CharArray.zeros _⟩ }
  calls := []

end World

/-! ## Calls -/

/-- How many sends to a client there were. -/
def sendCount (d : DucqI) (cs : List Call) : ℕ :=
  cs.countP fun c => match c with
    | .send d' _ => d' = d
    | _ => false

/-- `ducq_send(ducq, buf, &size)`, for `buf` the `size` bytes at `buf`. -/
def ducqSend (env : Env) (d : DucqI) (buf : List Byte) (w : World) : DucqState × World :=
  if d = 0 then (.enull, w)
  else (env.sendResult d (sendCount d w.calls), w.record [.send d buf])

/-- `ducq_id`. -/
def ducqId (env : Env) (d : DucqI) (w : World) : Option (List Byte) × World :=
  if d = 0 then (none, w) else (some (env.id d), w.record [.id d])

theorem reactor_ducqSend (env : Env) (d : DucqI) (buf : List Byte) (w : World) :
    (ducqSend env d buf w).2.reactor = w.reactor := by
  unfold ducqSend
  split_ifs
  · rfl
  · rfl

theorem reactor_ducqId (env : Env) (d : DucqI) (w : World) :
    (ducqId env d w).2.reactor = w.reactor := by
  unfold ducqId
  split_ifs
  · rfl
  · rfl

/-- `ducq_close`, then `ducq_free`. -/
def ducqCloseFree (d : DucqI) (w : World) : World :=
  if d = 0 then w else w.record [.close d, .free d]

/-! ## Operations -/

/-- `connection_free`. -/
def connectionFree (i : Fin ducqMaxConnections) (w : World) : World :=
  if (w.conn i).fd = -1 then w
  else
    let c := w.conn i
    let w := w.setConn i { c with fd := -1 }
    if c.type = .client then ducqCloseFree c.word w else w

/-- The first free slot. -/
def firstFree (w : World) : Option (Fin ducqMaxConnections) :=
  (List.finRange ducqMaxConnections).find? fun i => (w.conn i).fd = -1

/-- `ducq_reactor_add_server`. -/
def ducqReactorAddServer (fd : ℤ) (acceptF ctx : ℕ) (w : World) : DucqState × World :=
  match firstFree w with
  | none => (.emax, w)
  | some i => (.ok, w.setConn i
      { fd := fd
        type := .server
        word := acceptF
        bytes := (w.conn i).bytes.overwrite (toLittleEndian 8 ctx)
          (by rw [length_toLittleEndian]; decide) })

/-- `ducq_reactor_add_client`. -/
def ducqReactorAddClient (fd : ℤ) (d : DucqI) (w : World) : DucqState × World :=
  match firstFree w with
  | none => (.emax, w)
  | some i => (.ok, w.setConn i
      { fd := fd
        type := .client
        word := d
        bytes := (w.conn i).bytes.overwrite [0] (by decide) })

/-- `ducq_reactor_subscribe`. -/
def ducqReactorSubscribe (d : DucqI) (route : List Byte) (w : World) : DucqState × World :=
  match (List.finRange ducqMaxConnections).find? fun i => d = (w.conn i).word with
  | none => (.enotfound, w)
  | some i => (.ok, w.setConn i { w.conn i with bytes := CharArray.strncpy _ route })

/-! ## Loops -/

/-- `DUCQ_LOOP_CONTINUE`. -/
abbrev ducqLoopContinue : ℕ := 0

/-- `DUCQ_LOOP_BREAK`. -/
abbrev ducqLoopBreak : ℕ := 1

/-- `DUCQ_LOOP_DELETE`. -/
abbrev ducqLoopDelete : ℕ := 2

/-- `ducq_loop_f`, with the `void *ctx` it is called with: the control it returns, the
context and the world. -/
abbrev DucqLoopF (σ : Type*) := DucqI → List Byte → σ → World → ℕ × σ × World

/-- One turn of `connection_loop_template`: whether it breaks, the control, the context
and the world. -/
def loopTurn {σ : Type*} (hook : Fin ducqMaxConnections → σ → World → ℕ × σ × World)
    (i : Fin ducqMaxConnections) : ℕ × σ × World → Bool × ℕ × σ × World
  | (control, ctx, w) =>
    if (w.conn i).fd = -1 then (false, control, ctx, w)
    else match hook i ctx w with
      | (control, ctx, w) =>
        let w := if control &&& ducqLoopDelete ≠ 0 then connectionFree i w else w
        (control &&& ducqLoopBreak ≠ 0, control, ctx, w)

/-- `connection_loop_template`. -/
def connectionLoopTemplate {σ : Type*}
    (hook : Fin ducqMaxConnections → σ → World → ℕ × σ × World) (ctx : σ) (w : World) :
    ℕ × σ × World :=
  sweep (loopTurn hook) (List.finRange ducqMaxConnections) (ducqLoopContinue, ctx, w)

/-- The memory a slot's route pointer points into. -/
def routePtr (env : Env) (w : World) (i : Fin ducqMaxConnections) : List Byte :=
  (w.conn i).bytes.bytes ++ (env.behindRoute i ++ [0])

/-- `loop_through_client`. -/
def loopThroughClient {σ : Type*} (env : Env) (apply : DucqLoopF σ)
    (i : Fin ducqMaxConnections) (ctx : σ) (w : World) : ℕ × σ × World :=
  if (w.conn i).type = .client then apply (w.conn i).word (routePtr env w i) ctx w
  else (ducqLoopContinue, ctx, w)

/-- `ducq_reactor_loop`. -/
def ducqReactorLoop {σ : Type*} (env : Env) (apply : DucqLoopF σ) (ctx : σ) (w : World) :
    ℕ × σ × World :=
  connectionLoopTemplate (loopThroughClient env apply) ctx w

/-- `_delete`. -/
def deleteHook : DucqLoopF DucqI := fun d _ ctx w =>
  (if d = ctx then ducqLoopDelete ||| ducqLoopBreak else ducqLoopContinue, ctx, w)

/-- `ducq_reactor_delete`. -/
def ducqReactorDelete (env : Env) (d : DucqI) (w : World) : Bool × World :=
  if d = 0 then (false, w)
  else match ducqReactorLoop env deleteHook d w with
    | (control, _, w) => (control &&& ducqLoopDelete ≠ 0, w)

end Ducq
