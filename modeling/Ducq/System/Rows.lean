import Ducq.Commands.Storage
import Ducq.System.Run

/-!
# What becomes of the last messages in a run

Only two commands write the rows, and both write them before they send anything.
Whatever a step does besides, it makes calls and changes slots (`LeavesRows`).

The messages that commands work on have been received into a buffer of `DUCQ_MSGSZ` bytes
that ends in a NUL, so their strings are shorter than that; and no code but the two
commands calls `ducq_set_last_msg`.  In the states this leads to (`Served`) the rows hold
a list of entries, and what is too long for a route was cut.
-/

namespace Ducq

open CMemory CPrintf FirstFit

/-- Calls were made, and no row was written. -/
structure LeavesRows (w w' : World) : Prop where
  rows : w'.reactor.lastMsgs = w.reactor.lastMsgs
  calls : w.calls <+: w'.calls

namespace LeavesRows

variable {env : Env} {functionName : List Byte} {w w' w'' : World}

theorem refl (w : World) : LeavesRows w w := ⟨rfl, List.prefix_refl _⟩

theorem trans (h : LeavesRows w w') (h' : LeavesRows w' w'') : LeavesRows w w'' :=
  ⟨h'.rows.trans h.rows, h.calls.trans h'.calls⟩

theorem record (w : World) (cs : List Call) : LeavesRows w (w.record cs) :=
  ⟨rfl, List.prefix_append _ _⟩

theorem ducqSend (d : DucqI) (buf : List Byte) (w : World) :
    LeavesRows w (ducqSend env d buf w).2 := by
  unfold Ducq.ducqSend
  split_ifs
  · exact refl w
  · exact record w _

theorem ducqId (d : DucqI) (w : World) : LeavesRows w (ducqId env d w).2 := by
  unfold Ducq.ducqId
  split_ifs
  · exact refl w
  · exact record w _

theorem connectionFree (i : Fin ducqMaxConnections) (w : World) :
    LeavesRows w (connectionFree i w) := by
  refine ⟨by rw [reactor_connectionFree], ?_⟩
  unfold Ducq.connectionFree ducqCloseFree
  dsimp only
  split_ifs
  · exact List.prefix_refl _
  · exact List.prefix_refl _
  · exact List.prefix_append _ _
  · exact List.prefix_refl _

theorem ducqReactorLoop {σ : Type*} {apply : DucqLoopF σ}
    (happly : ∀ d r c w, LeavesRows w (apply d r c w).2.2) (ctx : σ) (w : World) :
    LeavesRows w (ducqReactorLoop env apply ctx w).2.2 :=
  ducqReactorLoop_invariant (fun i w' hw' => hw'.trans (connectionFree i w'))
    (fun d r c w' hw' => hw'.trans (happly d r c w')) ctx (refl w)

theorem ducqReactorDelete (d : DucqI) (w : World) :
    LeavesRows w (ducqReactorDelete env d w).2 := by
  unfold Ducq.ducqReactorDelete
  split_ifs
  · exact refl w
  · exact ducqReactorLoop (fun _ _ _ w => refl w) d w

theorem sendToMatching {σ : Type*} {selects : σ → List Byte → Bool} {message : σ → List Byte}
    {sent : σ → σ} (d : DucqI) (route : List Byte) (ctx : σ) (w : World) :
    LeavesRows w (sendToMatching env selects message sent d route ctx w).2.2 := by
  have hsend := @ducqSend env d (message ctx) w
  unfold Ducq.sendToMatching
  rcases hr : Ducq.ducqSend env d (message ctx) w with ⟨state, w'⟩
  rw [hr] at hsend
  dsimp only
  split_ifs
  · exact hsend
  · exact hsend
  · exact refl w

theorem ducqReactorLog (level : DucqLogLevel) (functionName : List Byte)
    (senderId fmt : Option (List Byte)) (args : List Arg) (w : World) :
    LeavesRows w (ducqReactorLog env level functionName senderId fmt args w) := by
  unfold Ducq.ducqReactorLog
  split
  · exact record w _
  · split_ifs
    · exact refl w
    · exact ducqReactorLoop (fun d r c w => sendToMatching d r c w) _ w

theorem ducqLog (d : DucqI) (level : DucqLogLevel) (functionName : List Byte)
    (fmt : Option (List Byte)) (args : List Arg) (w : World) :
    LeavesRows w (ducqLog env d level functionName fmt args w) :=
  (ducqId d w).trans (ducqReactorLog _ _ _ _ _ _)

theorem ducqSendAck (d : DucqI) (state : DucqState) (w : World) :
    LeavesRows w (ducqSendAck env d state w).2 := ducqSend _ _ w

theorem setConn (w : World) (i : Fin ducqMaxConnections) (c : Connection) :
    LeavesRows w (w.setConn i c) := ⟨rfl, List.prefix_refl _⟩

theorem ducqReactorAddServer (fd : ℤ) (acceptF ctx : ℕ) (w : World) :
    LeavesRows w (ducqReactorAddServer fd acceptF ctx w).2 := by
  unfold Ducq.ducqReactorAddServer
  split
  · exact refl w
  · exact setConn w _ _

theorem ducqReactorAddClient (fd : ℤ) (d : DucqI) (w : World) :
    LeavesRows w (ducqReactorAddClient fd d w).2 := by
  unfold Ducq.ducqReactorAddClient
  split
  · exact refl w
  · exact setConn w _ _

theorem ducqReactorSubscribe (d : DucqI) (route : List Byte) (w : World) :
    LeavesRows w (ducqReactorSubscribe d route w).2 := by
  unfold Ducq.ducqReactorSubscribe
  split
  · exact refl w
  · exact setConn w _ _

/-! ## Commands -/

theorem subConclude (d : DucqI) (route : List Byte) (ackState : DucqState) (w : World) :
    LeavesRows w (subConclude env functionName d route ackState w) := by
  unfold Ducq.subConclude
  split_ifs
  · exact (ducqLog _ _ _ _ _ _).trans (ducqReactorDelete _ _)
  · exact ducqLog _ _ _ _ _ _

theorem subAcknowledge (d : DucqI) (route : List Byte) (payload : Option (List Byte))
    (addState : DucqState) (w : World) :
    LeavesRows w (subAcknowledge env d route payload addState w).2 := by
  unfold Ducq.subAcknowledge
  split_ifs
  · exact ducqSendAck _ _ _
  · exact ducqSend _ _ _
  · exact ducqSendAck _ _ _

theorem subCommand (d : DucqI) (buffer : List Byte) (w : World) :
    LeavesRows w (subCommand env functionName d buffer w).2 := by
  unfold Ducq.subCommand
  split
  · rename_i route end_ _
    have hsubscribe := ducqReactorSubscribe d (cutAt buffer end_ route) w
    rw [subRoute]
    rcases hr : Ducq.ducqReactorSubscribe d (cutAt buffer end_ route) w with ⟨addState, w₁⟩
    rw [hr] at hsubscribe
    have hlog : LeavesRows w₁ (if addState ≠ .ok then
        Ducq.ducqLog env d .error functionName (some (ascii "%s"))
          [.str (some (ducqStateTostr addState.code))] w₁
        else w₁) := by
      split_ifs
      · exact ducqLog _ _ _ _ _ _
      · exact refl w₁
    exact hsubscribe.trans ((hlog.trans (subAcknowledge _ _ _ _ _)).trans (subConclude _ _ _ _))
  · have hack := @ducqSendAck env d .emsginv w
    rcases hr : Ducq.ducqSendAck env d .emsginv w with ⟨state, w'⟩
    rw [hr] at hack
    have hlog := @ducqLog env d .warning functionName (some (ascii "%s"))
      [.str (some (ducqStateTostr DucqState.emsginv.code))] w'
    exact hack.trans hlog

theorem unsubAnswer (d : DucqI) (level : DucqLogLevel) (id : Option (List Byte)) (count : ℤ)
    (state : DucqState) (w : World) :
    LeavesRows w (unsubAnswer env d level id count state w).2 :=
  (ducqLog _ _ _ _ _ _).trans (ducqSendAck _ _ _)

theorem unsubscribeHook (d : DucqI) (route : List Byte) (ctx : UnsubCtx) (w : World) :
    LeavesRows w (unsubscribeHook env d route ctx w).2.2 := by
  have hid := @ducqId env d w
  rw [Ducq.unsubscribeHook]
  rcases hr : Ducq.ducqId env d w with ⟨_ | id, w'⟩
  · rw [hr] at hid
    exact hid.trans (record w' _)
  · rw [hr] at hid
    dsimp only
    split_ifs
    · exact hid
    · exact hid

theorem unsub (d : DucqI) (buffer : List Byte) (w : World) :
    LeavesRows w (unsub env d buffer w).2 := by
  rw [Ducq.unsub]
  cases ducqParsePayload buffer with
  | none => exact unsubAnswer _ _ _ _ _ _
  | some id =>
    have hloop : LeavesRows w (Ducq.ducqReactorLoop env (Ducq.unsubscribeHook env) ⟨id, 0⟩ w).2.2 :=
      ducqReactorLoop (fun d r c w => unsubscribeHook d r c w) _ w
    dsimp only
    split_ifs
    · exact unsubAnswer _ _ _ _ _ _
    · exact hloop.trans (unsubAnswer _ _ _ _ _ _)
    · exact hloop.trans (unsubAnswer _ _ _ _ _ _)

/-- Once the message is stored. -/
theorem pubAcknowledge (d : DucqI) (buffer : List Byte) (w : World) :
    LeavesRows (pubStore env buffer w) (pubAcknowledge env functionName d buffer w).2.2 := by
  obtain ⟨level, id, args, hlog⟩ := @pubAcknowledge_world env functionName d buffer w
  rw [hlog, pubAcknowledged]
  exact (ducqSendAck _ _ _).trans ((ducqId _ _).trans (ducqReactorLog _ _ _ _ _ _))

theorem pubBroadcast (d : DucqI) (route : Option (List Byte)) (buffer : List Byte) (size : ℕ)
    (w : World) : LeavesRows w (pubBroadcast env functionName d route buffer size w) := by
  rw [Ducq.pubBroadcast]
  have hloop : LeavesRows w
      (Ducq.ducqReactorLoop env (publishHook env) ⟨route, buffer, size, 0⟩ w).2.2 :=
    ducqReactorLoop (fun d r c w => sendToMatching d r c w) _ w
  rcases hr : Ducq.ducqReactorLoop env (publishHook env) ⟨route, buffer, size, 0⟩ w with
    ⟨control, msg, w'⟩
  rw [hr] at hloop
  exact hloop.trans (ducqLog d _ _ _ _ w')

/-- **A publication writes the rows once.** -/
theorem pubCommand (d : DucqI) (buffer : List Byte) (size : ℕ) (w : World) :
    LeavesRows (pubStore env buffer w) (pubCommand env functionName d buffer size w).2 := by
  have hack := @pubAcknowledge env functionName d buffer w
  rw [Ducq.pubCommand]
  rcases hr : Ducq.pubAcknowledge env functionName d buffer w with ⟨returned, route, w'⟩
  rw [hr] at hack
  dsimp only at hack ⊢
  split_ifs
  · exact hack.trans (ducqReactorDelete _ _)
  · exact hack.trans (pubBroadcast d route buffer size w')

end LeavesRows

/-! ## Runs -/

namespace Op

/-- What a step stores. -/
def store (env : Env) : Op → World → World
  | setLastMsg route msg, w => (ducqSetLastMsg route msg w).2
  | pub _ buffer _, w | publish _ buffer _, w => pubStore env buffer w
  | _, w => w

/-- **What a step does to the rows is what it stores.** -/
theorem leavesRows_run (env : Env) (op : Op) (w : World) :
    LeavesRows (op.store env w) (op.run env w) := by
  cases op with
  | addServer fd acceptF ctx => exact LeavesRows.ducqReactorAddServer fd acceptF ctx w
  | addClient fd d => exact LeavesRows.ducqReactorAddClient fd d w
  | subscribeTo d route => exact LeavesRows.ducqReactorSubscribe d route w
  | delete d => exact LeavesRows.ducqReactorDelete d w
  | loop control => exact LeavesRows.ducqReactorLoop (fun _ _ _ w => LeavesRows.refl w) _ w
  | allowLogRoute allowed => exact ⟨rfl, List.prefix_refl _⟩
  | setLastMsg route msg => exact LeavesRows.refl _
  | send d buf => exact LeavesRows.ducqSend d buf w
  | id d => exact LeavesRows.ducqId d w
  | log level functionName senderId fmt args => exact LeavesRows.ducqReactorLog _ _ _ _ _ w
  | pub d buffer size => exact LeavesRows.pubCommand d buffer size w
  | publish d buffer size => exact LeavesRows.pubCommand d buffer size w
  | sub d buffer => exact LeavesRows.subCommand d buffer w
  | subscribe d buffer => exact LeavesRows.subCommand d buffer w
  | unsub d buffer => exact LeavesRows.unsub d buffer w

/-- The step works on a message as it is received, and does not set a last message other
than by publishing. -/
def Delivered : Op → Prop
  | pub _ buffer _ | publish _ buffer _ => (cstr buffer).length < ducqMsgsz
  | setLastMsg _ _ => False
  | _ => True

instance (op : Op) : Decidable op.Delivered :=
  match op with
  | pub _ buffer _ | publish _ buffer _ =>
    inferInstanceAs (Decidable ((cstr buffer).length < ducqMsgsz))
  | setLastMsg _ _ => instDecidableFalse
  | addServer _ _ _ | addClient _ _ | subscribeTo _ _ | delete _ | loop _ | allowLogRoute _
  | send _ _ | id _ | log _ _ _ _ _ | sub _ _ | subscribe _ _ | unsub _ _ => instDecidableTrue

end Op

/-- A step on a message as it is received. -/
def ServedStep (isCode : ℕ → Prop) (w w' : World) : Prop :=
  ∃ env op, Op.Valid isCode w op ∧ op.Delivered ∧ op.run env w = w'

/-- A state that such steps lead to. -/
def Served (isCode : ℕ → Prop) : World → Prop :=
  Relation.ReflTransGen (ServedStep isCode) World.init

/-- The rows hold entries, and the long ones were cut. -/
def HoldsCut (w : World) : Prop := ∃ l, Holds w l ∧ CutKeys l

section Served

variable {isCode : ℕ → Prop} {env : Env} {w w' : World}

theorem Served.reachable (h : Served isCode w) : Reachable isCode w := by
  induction h with
  | refl => exact Relation.ReflTransGen.refl
  | tail _ hstep ih =>
    obtain ⟨env, op, hvalid, -, rfl⟩ := hstep
    exact ih.tail ⟨env, op, hvalid, rfl⟩

/-- What a valid run on messages as they are received leads to. -/
theorem Served.runOps {steps : List (Env × Op)} (h : Served isCode w)
    (hvalid : ValidOps isCode steps w) (hdelivered : steps.all fun step => step.2.Delivered) :
    Served isCode (runOps steps w) := by
  induction steps generalizing w with
  | nil => exact h
  | cons step steps ih =>
    rw [List.all_cons, Bool.and_eq_true, decide_eq_true_iff] at hdelivered
    exact ih (h.tail ⟨step.1, step.2, hvalid.1, hdelivered.1, rfl⟩) hvalid.2 hdelivered.2

/-- What a publication stores. -/
theorem Holds.pubStore {l : List (List Byte × List Byte)} (h : Holds w l) {buffer r : List Byte}
    (hr : HasRoute buffer r) (hmem : env.strndup r = true)
    (hbuffer : (cstr buffer).length < ducqMsgsz) :
    Holds (pubStore env buffer w) (setEntries r (cstr buffer) l) := by
  have hstring : cstr (r ++ [0]) = r := cstr_append_zero hr.zero_notMem []
  obtain ⟨-, hset⟩ := h.set_spec (r ++ [0]) hbuffer
  rw [hstring] at hset
  rw [Ducq.pubStore, pubRoute_of_hasRoute hr hmem, if_pos rfl]
  exact hset

/-- A publication that has no route stores nothing. -/
theorem pubStore_eq_self {buffer : List Byte}
    (h : ¬ ∃ r, HasRoute buffer r ∧ env.strndup r = true) : pubStore env buffer w = w := by
  rw [pubStore, if_neg]
  intro hok
  obtain ⟨r, hr, hmem, -⟩ := hasRoute_of_pubRoute (Prod.ext hok rfl)
  exact h ⟨r, hr, hmem⟩

theorem CutKeys.setEntries {l : List (List Byte × List Byte)} (h : CutKeys l)
    {buffer r : List Byte} (hr : HasRoute buffer r) (hbuffer : (cstr buffer).length < ducqMsgsz) :
    CutKeys (setEntries r (cstr buffer) l) := by
  have hcut := (Publication.mk buffer r hr hbuffer).cut_storedEntry
  rw [Ducq.setEntries]
  split_ifs
  · intro e he
    rcases mem_of_mem_write he with rfl | he
    · exact hcut
    · exact h e he
  · exact h

theorem HoldsCut.pubStore (h : HoldsCut w) {buffer : List Byte}
    (hbuffer : (cstr buffer).length < ducqMsgsz) : HoldsCut (pubStore env buffer w) := by
  obtain ⟨l, hw, hcut⟩ := h
  by_cases hroute : ∃ r, HasRoute buffer r ∧ env.strndup r = true
  · obtain ⟨r, hr, hmem⟩ := hroute
    exact ⟨_, hw.pubStore hr hmem hbuffer, hcut.setEntries hr hbuffer⟩
  · rw [pubStore_eq_self hroute]
    exact ⟨l, hw, hcut⟩

/-- **What a step leaves of the rows.** -/
theorem HoldsCut.run (h : HoldsCut w) {op : Op} (hop : op.Delivered) :
    HoldsCut (op.run env w) := by
  have hstore : HoldsCut (op.store env w) := by
    cases op with
    | setLastMsg route msg => exact hop.elim
    | pub d buffer size => exact h.pubStore hop
    | publish d buffer size => exact h.pubStore hop
    | _ => exact h
  obtain ⟨l, hw, hcut⟩ := hstore
  exact ⟨l, hw.congr (op.leavesRows_run env w).rows, hcut⟩

/-- **The rows of a state that was served hold entries.** -/
theorem Served.holdsCut (h : Served isCode w) : HoldsCut w := by
  induction h with
  | refl => exact ⟨[], holds_init, fun e he => absurd he List.not_mem_nil⟩
  | tail _ hstep ih =>
    obtain ⟨env, op, -, hop, rfl⟩ := hstep
    exact ih.run hop

end Served

end Ducq
