import Ducq.System.Pass

/-!
# Whole runs of the server

A server is the program that makes a reactor, calls its interface, and then leaves everything
to `ducq_loop`.  A step of it is a call, loops inside hooks, or one time round the main loop,
in which any number of clients is served and each of them makes any number of calls
(`ServerStep`).

What holds of the reactor through all of this is what giving up a slot, calling a client and
writing a route keep (`Kept`); these three are all that the commands, the log, the loops and
the main loop itself are made of.  Registering is the exception, and a run says which
registrations it allows (`ServerAllows`).  So an invariant is proved of the three once, of
a registration once, and holds of every run (`Kept.runServer`).
-/

namespace Ducq

open CMemory CPrintf Sweep

/-! ## What keeps an invariant -/

/-- The call uses a client, and does not end it. -/
def Call.IsUse : Call → Prop
  | .close _ | .free _ => False
  | _ => True

/-- What the reactor is made of keeps it, but for registering. -/
structure Kept (P : World → Prop) : Prop where
  free : ∀ i w, P w → P (connectionFree i w)
  record : ∀ (c : Call) w, c.IsUse → P w → P (w.record [c])
  reactor : ∀ r w, r.connections = w.reactor.connections → P w → P { w with reactor := r }
  route : ∀ i bytes w, P w → P (w.setConn i { w.conn i with bytes := bytes })

namespace Kept

variable {P : World → Prop} {env : Env} {w : World}

theorem ducqSend (hP : Kept P) (d : DucqI) (buf : List Byte) (hw : P w) :
    P (ducqSend env d buf w).2 := by
  unfold Ducq.ducqSend
  split_ifs
  · exact hw
  · exact hP.record _ w trivial hw

theorem ducqId (hP : Kept P) (d : DucqI) (hw : P w) : P (ducqId env d w).2 := by
  unfold Ducq.ducqId
  split_ifs
  · exact hw
  · exact hP.record _ w trivial hw

theorem ducqReactorLoop (hP : Kept P) {σ : Type*} {apply : DucqLoopF σ}
    (happly : ∀ d r c w, P w → P (apply d r c w).2.2) (ctx : σ) (hw : P w) :
    P (ducqReactorLoop env apply ctx w).2.2 :=
  ducqReactorLoop_invariant (fun i w => hP.free i w) happly ctx hw

theorem ducqReactorDelete (hP : Kept P) (d : DucqI) (hw : P w) :
    P (ducqReactorDelete env d w).2 := by
  unfold Ducq.ducqReactorDelete
  split_ifs
  · exact hw
  · exact hP.ducqReactorLoop (fun _ _ _ _ hw => hw) d hw

theorem sendToMatching (hP : Kept P) {σ : Type*} {selects : σ → List Byte → Bool}
    {message : σ → List Byte} {sent : σ → σ} (d : DucqI) (route : List Byte) (ctx : σ)
    (hw : P w) : P (sendToMatching env selects message sent d route ctx w).2.2 := by
  have hsend := @ducqSend P env w hP d (message ctx) hw
  rw [Ducq.sendToMatching]
  split_ifs
  · dsimp only
    split_ifs
    · exact hsend
    · exact hsend
  · exact hw

theorem ducqReactorLog (hP : Kept P) (level : DucqLogLevel) (functionName : List Byte)
    (senderId fmt : Option (List Byte)) (args : List Arg) (hw : P w) :
    P (ducqReactorLog env level functionName senderId fmt args w) := by
  unfold Ducq.ducqReactorLog
  split
  · exact hP.record _ w trivial hw
  · split_ifs
    · exact hw
    · exact hP.ducqReactorLoop (fun d r c w hw => hP.sendToMatching d r c hw) _ hw

theorem ducqLog (hP : Kept P) (d : DucqI) (level : DucqLogLevel) (functionName : List Byte)
    (fmt : Option (List Byte)) (args : List Arg) (hw : P w) :
    P (ducqLog env d level functionName fmt args w) :=
  hP.ducqReactorLog _ _ _ _ _ (hP.ducqId d hw)

theorem ducqSendAck (hP : Kept P) (d : DucqI) (state : DucqState) (hw : P w) :
    P (ducqSendAck env d state w).2 := by
  rw [ducqSendAck_eq]
  exact hP.ducqSend d _ hw

theorem ducqSetLastMsg (hP : Kept P) (route msg : List Byte) (hw : P w) :
    P (ducqSetLastMsg route msg w).2 := by
  unfold Ducq.ducqSetLastMsg
  split
  · exact hw
  · exact hP.reactor _ w rfl hw

theorem ducqReactorSubscribe (hP : Kept P) (d : DucqI) (route : List Byte) (hw : P w) :
    P (ducqReactorSubscribe d route w).2 := by
  unfold Ducq.ducqReactorSubscribe
  split
  · exact hw
  · exact hP.route _ _ w hw

/-! ## The commands -/

theorem pubCommand (hP : Kept P) (functionName : List Byte) (d : DucqI) (buffer : List Byte)
    (size : ℕ) (hw : P w) : P (pubCommand env functionName d buffer size w).2 := by
  have hack : P (pubAcknowledge env functionName d buffer w).2.2 := by
    obtain ⟨level, id, args, hlog⟩ := @pubAcknowledge_world env functionName d buffer w
    have hstore : P (pubStore env buffer w) := by
      unfold pubStore
      split_ifs
      · exact hP.ducqSetLastMsg _ _ hw
      · exact hw
    rw [hlog, pubAcknowledged]
    exact hP.ducqReactorLog _ _ _ _ _ (hP.ducqId d (hP.ducqSendAck d _ hstore))
  rw [Ducq.pubCommand]
  rcases hr : pubAcknowledge env functionName d buffer w with ⟨returned, route, w'⟩
  rw [hr] at hack
  dsimp only
  split_ifs
  · exact hP.ducqReactorDelete d hack
  · have hloop := @ducqReactorLoop P env w' hP _ (publishHook env)
      (fun d r c w hw => hP.sendToMatching d r c hw) ⟨route, buffer, size, 0⟩ hack
    rcases hl : Ducq.ducqReactorLoop env (publishHook env) ⟨route, buffer, size, 0⟩ w' with
      ⟨control, msg, w''⟩
    rw [hl] at hloop
    rw [pubBroadcast, hl]
    exact @ducqLog P env w'' hP d .info functionName (some (ascii "%s,%d notified"))
      [.str msg.route, .int msg.count] hloop

theorem subCommand (hP : Kept P) (functionName : List Byte) (d : DucqI) (buffer : List Byte)
    (hw : P w) : P (subCommand env functionName d buffer w).2 := by
  have hroute : ∀ route payload, P (subRoute env functionName d route payload w).2 := by
    intro route payload
    have hsub := hP.ducqReactorSubscribe d route hw
    rw [subRoute]
    rcases hr : Ducq.ducqReactorSubscribe d route w with ⟨addState, w₁⟩
    rw [hr] at hsub
    dsimp only
    have hlog : P (if addState ≠ .ok then
        Ducq.ducqLog env d .error functionName (some (ascii "%s"))
          [.str (some (ducqStateTostr addState.code))] w₁ else w₁) := by
      split_ifs
      · exact hP.ducqLog _ _ _ _ _ hsub
      · exact hsub
    generalize hw₂ : (if addState ≠ .ok then
        Ducq.ducqLog env d .error functionName (some (ascii "%s"))
          [.str (some (ducqStateTostr addState.code))] w₁ else w₁) = w₂
    rw [hw₂] at hlog
    have hack : P (subAcknowledge env d route payload addState w₂).2 := by
      unfold subAcknowledge
      split_ifs
      · exact hP.ducqSendAck _ _ hlog
      · exact hP.ducqSend _ _ hlog
      · exact hP.ducqSendAck _ _ hlog
    unfold subConclude
    split_ifs
    · exact hP.ducqReactorDelete _ (hP.ducqLog _ _ _ _ _ hack)
    · exact hP.ducqLog _ _ _ _ _ hack
  have hinvalid : P (Ducq.ducqLog env d .warning functionName (some (ascii "%s"))
      [.str (some (ducqStateTostr DucqState.emsginv.code))]
      (Ducq.ducqSendAck env d .emsginv w).2) := hP.ducqLog _ _ _ _ _ (hP.ducqSendAck _ _ hw)
  rw [Ducq.subCommand]
  rcases ducqParseRoute buffer none with ⟨_ | route, _ | end_⟩
  · exact hinvalid
  · exact hinvalid
  · exact hinvalid
  · exact hroute _ _

theorem unsub (hP : Kept P) (d : DucqI) (buffer : List Byte) (hw : P w) :
    P (unsub env d buffer w).2 := by
  have hanswer : ∀ level id count state {w : World}, P w →
      P (unsubAnswer env d level id count state w).2 := fun _ _ _ _ _ hw =>
    hP.ducqSendAck _ _ (hP.ducqLog _ _ _ _ _ hw)
  have hhook : ∀ client route (ctx : UnsubCtx) w, P w →
      P (unsubscribeHook env client route ctx w).2.2 := by
    intro client route ctx w hw
    have hid := @ducqId P env w hP client hw
    rw [unsubscribeHook]
    rcases hr : Ducq.ducqId env client w with ⟨_ | id, w'⟩
    · rw [hr] at hid
      exact hP.record _ w' trivial hid
    · rw [hr] at hid
      dsimp only
      split_ifs <;> exact hid
  rw [Ducq.unsub]
  cases ducqParsePayload buffer with
  | none => exact hanswer _ _ _ _ hw
  | some id =>
    have hloop := @ducqReactorLoop P env w hP _ _ hhook ⟨id, 0⟩ hw
    dsimp only
    split_ifs
    · exact hanswer _ _ _ _ hw
    · exact hanswer _ _ _ _ hloop
    · exact hanswer _ _ _ _ hloop

end Kept

/-- The step registers a connection. -/
def Op.Registers : Op → Prop
  | .addServer _ _ _ | .addClient _ _ => True
  | _ => False

instance (op : Op) : Decidable op.Registers :=
  match op with
  | .addServer _ _ _ | .addClient _ _ => instDecidableTrue
  | .subscribeTo _ _ | .delete _ | .loop _ | .allowLogRoute _ | .setLastMsg _ _ | .send _ _ | .id _
  | .log _ _ _ _ _ | .pub _ _ _ | .publish _ _ _ | .sub _ _ | .subscribe _ _ | .unsub _ _ =>
    instDecidableFalse

namespace Kept

variable {P : World → Prop} {env : Env} {w : World}

/-- **Every call and every command** keeps it. -/
theorem op (hP : Kept P) {op : Op} (hadd : op.Registers → P (op.run env w)) (hw : P w) :
    P (op.run env w) := by
  cases op with
  | addServer fd acceptF ctx => exact hadd trivial
  | addClient fd d => exact hadd trivial
  | subscribeTo d route => exact hP.ducqReactorSubscribe d route hw
  | delete d => exact hP.ducqReactorDelete d hw
  | loop control => exact hP.ducqReactorLoop (fun _ _ _ _ hw => hw) _ hw
  | allowLogRoute allowed => exact hP.reactor _ w rfl hw
  | setLastMsg route msg => exact hP.ducqSetLastMsg route msg hw
  | send d buf => exact hP.ducqSend d buf hw
  | id d => exact hP.ducqId d hw
  | log level functionName senderId fmt args => exact hP.ducqReactorLog _ _ _ _ _ hw
  | pub d buffer size => exact hP.pubCommand _ d buffer size hw
  | publish d buffer size => exact hP.pubCommand _ d buffer size hw
  | sub d buffer => exact hP.subCommand _ d buffer hw
  | subscribe d buffer => exact hP.subCommand _ d buffer hw
  | unsub d buffer => exact hP.unsub d buffer hw

/-- **So does whatever a hook does**, loops inside loops. -/
theorem nest (hP : Kept P) {σ : Type} (hook : Nest σ) (memory : σ) (hw : P w) :
    P (hook.run env memory w).2.2 := by
  induction hook generalizing memory w with
  | done control => exact hw
  | read rest ih => exact ih _ memory hw
  | write stored rest ih => exact ih stored hw
  | send d buf rest ih => exact ih _ memory (hP.ducqSend d buf hw)
  | id d rest ih => exact ih _ memory (hP.ducqId d hw)
  | delete d rest ih => exact ih _ memory (hP.ducqReactorDelete d hw)
  | log level functionName senderId fmt args rest ih =>
    exact ih memory (hP.ducqReactorLog _ _ _ _ _ hw)
  | loop hook rest ihhook ih =>
    exact ih _ _ (hP.ducqReactorLoop (fun d route c w hw => ihhook d route c hw) memory hw)

theorem disconnect (hP : Kept P) (h : Handling) (d : DucqI) (hw : P w) :
    P (disconnect h d w) := by
  have hack := @ducqSendAck P h.env w hP d h.state hw
  have hid := @ducqId P h.env _ hP d hack
  rw [Ducq.disconnect]
  rcases hsend : Ducq.ducqSendAck h.env d h.state w with ⟨ackState, w₁⟩
  rw [hsend] at hid
  dsimp only
  rcases hname : Ducq.ducqId h.env d w₁ with ⟨id, w₂⟩
  rw [hname] at hid
  exact @ducqReactorLog P h.env w₂ hP _ _ _ _ _ hid

end Kept

/-! ## The server -/

/-- A step of the server: a call or loops inside hooks, or `ducq_loop` once round. -/
inductive ServerStep where
  | act (act : Act)
  | turn (env : Env) (select : Finset ℤ → SelectResult)
    (outside : Fin ducqMaxConnections → Handling)

/-- The state after it. -/
def ServerStep.run : ServerStep → World → World
  | act a, w => a.run w
  | turn env select outside, w => (ducqLoopOnce env select outside w).2

/-- One step after the other. -/
def runServer : List ServerStep → World → World
  | [], w => w
  | step :: steps, w => runServer steps (step.run w)

section Allows

variable (Q : Op → World → Prop)

/-- The call is one of those that are allowed. -/
def Act.Allows (w : World) : Act → Prop
  | call _ op => Q op w
  | nest _ _ _ => True

/-- Each call is, where it is made. -/
def ActsAllow : List Act → World → Prop
  | [], _ => True
  | act :: acts, w => act.Allows Q w ∧ ActsAllow acts (act.run w)

/-- The connection of the slot is ready, and served by making calls. -/
def Serves (outside : Fin ducqMaxConnections → Handling) (i : Fin ducqMaxConnections)
    (s : ℕ × RoundTableCtx × World) : Prop :=
  (s.2.2.conn i).Live ∧ (s.2.2.conn i).fd ∈ s.2.1.fds ∧
    ((s.2.2.conn i).type = .server ∨ (outside i).state = .ok)

/-- All calls of a step are allowed where they are made. -/
def ServerStep.Allows (w : World) : ServerStep → Prop
  | act a => a.Allows Q w
  | turn _ select outside =>
    match select (readfds w) with
    | .failed _ => True
    | .ready fds =>
      EachTurn (loopTurn (roundTable outside))
        (fun i s => Serves outside i s → ActsAllow Q (outside i).acts s.2.2)
        (List.finRange ducqMaxConnections) (ducqLoopContinue, ⟨fds, fds.card, []⟩, w)

/-- All calls of a run are. -/
def ServerAllows : List ServerStep → World → Prop
  | [], _ => True
  | step :: steps, w => step.Allows Q w ∧ ServerAllows steps (step.run w)

variable [∀ op w, Decidable (Q op w)]

instance (w : World) (act : Act) : Decidable (act.Allows Q w) :=
  match act with
  | .call _ op => inferInstanceAs (Decidable (Q op w))
  | .nest _ _ _ => instDecidableTrue

instance decidableActsAllow : (acts : List Act) → (w : World) → Decidable (ActsAllow Q acts w)
  | [], _ => instDecidableTrue
  | act :: acts, w =>
    have := decidableActsAllow acts (act.run w)
    inferInstanceAs (Decidable (act.Allows Q w ∧ ActsAllow Q acts (act.run w)))

instance (outside : Fin ducqMaxConnections → Handling) (i : Fin ducqMaxConnections)
    (s : ℕ × RoundTableCtx × World) : Decidable (Serves outside i s) :=
  inferInstanceAs (Decidable (_ ∧ _ ∧ (_ ∨ _)))

instance (w : World) (step : ServerStep) : Decidable (step.Allows Q w) :=
  match step with
  | .act a => inferInstanceAs (Decidable (a.Allows Q w))
  | .turn env select outside =>
    match hselect : select (readfds w) with
    | .failed _ => .isTrue (by rw [ServerStep.Allows, hselect]; trivial)
    | .ready fds =>
      decidable_of_iff (EachTurn (loopTurn (roundTable outside))
        (fun i s => Serves outside i s → ActsAllow Q (outside i).acts s.2.2)
        (List.finRange ducqMaxConnections) (ducqLoopContinue, ⟨fds, fds.card, []⟩, w))
        (by rw [ServerStep.Allows, hselect])

instance decidableServerAllows :
    (steps : List ServerStep) → (w : World) → Decidable (ServerAllows Q steps w)
  | [], _ => instDecidableTrue
  | step :: steps, w =>
    have := decidableServerAllows steps (step.run w)
    inferInstanceAs (Decidable (step.Allows Q w ∧ ServerAllows Q steps (step.run w)))

end Allows

namespace Kept

variable {P : World → Prop} {Q : Op → World → Prop} {w : World}

theorem runActs (hP : Kept P)
    (hadd : ∀ (env : Env) op w, op.Registers → Q op w → P w → P (op.run env w))
    {acts : List Act} (hQ : ActsAllow Q acts w) (hw : P w) : P (runActs acts w).2 := by
  induction acts generalizing w with
  | nil => exact hw
  | cons act acts ih =>
    refine ih hQ.2 ?_
    cases act with
    | call env op => exact hP.op (fun hop => hadd env op w hop hQ.1 hw) hw
    | nest env hook memory => exact hP.nest hook memory hw

/-- A turn of the main loop. -/
theorem roundTable (hP : Kept P)
    (hadd : ∀ (env : Env) op w, op.Registers → Q op w → P w → P (op.run env w))
    (outside : Fin ducqMaxConnections → Handling) (i : Fin ducqMaxConnections)
    (s : ℕ × RoundTableCtx × World) (hlive : (s.2.2.conn i).Live)
    (hQ : Serves outside i s → ActsAllow Q (outside i).acts s.2.2) (hw : P s.2.2) :
    P (Ducq.roundTable outside i s.2.1 s.2.2).2.2 := by
  obtain ⟨control, ctx, w⟩ := s
  rw [Ducq.roundTable]
  by_cases hready : (w.conn i).fd ∉ ctx.fds
  · rw [if_pos hready]
    exact hw
  · rw [if_neg hready]
    have hserve : ∀ control, P (serve (outside i) (w.conn i) control w).2.2 := by
      intro control
      rw [serve]
      by_cases hserver : (w.conn i).type = .server
      · rw [if_pos hserver]
        exact hP.runActs hadd (hQ ⟨hlive, not_not.mp hready, .inl hserver⟩) hw
      · rw [if_neg hserver]
        cases hstate : (outside i).state with
        | ok => exact hP.runActs hadd (hQ ⟨hlive, not_not.mp hready, .inr hstate⟩) hw
        | protocol => exact hw
        | _ => exact hP.disconnect _ _ hw
    exact hserve _

/-- `ducq_loop`, once round. -/
theorem ducqLoopOnce (hP : Kept P)
    (hadd : ∀ (env : Env) op w, op.Registers → Q op w → P w → P (op.run env w))
    {env : Env} {select : Finset ℤ → SelectResult} {outside : Fin ducqMaxConnections → Handling}
    (hQ : (ServerStep.turn env select outside).Allows Q w) (hw : P w) :
    P (ducqLoopOnce env select outside w).2 := by
  rw [Ducq.ducqLoopOnce]
  rw [ServerStep.Allows] at hQ
  cases hselect : select (readfds w) with
  | failed strerror =>
    exact hP.ducqReactorLog .error (ascii "ducq_loop") (some (ascii "n\\a"))
      (some (ascii "select() failed: %s\n")) [.str (some strerror)] hw
  | ready fds =>
    rw [hselect] at hQ
    refine @sweep_invariant_of_eachTurn _ _ (loopTurn (Ducq.roundTable outside))
      (fun s => P s.2.2) _ _ ?_ _ hw hQ
    rintro i - ⟨control, ctx, w'⟩ hw' hallow
    rw [loopTurn]
    by_cases hfd : (w'.conn i).fd = -1
    · rw [if_pos hfd]
      exact hw'
    · have hturn := hP.roundTable hadd outside i (control, ctx, w') hfd hallow hw'
      rw [if_neg hfd]
      rcases hr : Ducq.roundTable outside i ctx w' with ⟨control', ctx', w''⟩
      dsimp only at hturn
      rw [hr] at hturn
      dsimp only
      split_ifs
      · exact hP.free i w'' hturn
      · exact hturn

/-- **What holds through every registration that a run allows holds through the run.** -/
theorem runServer (hP : Kept P)
    (hadd : ∀ (env : Env) op w, op.Registers → Q op w → P w → P (op.run env w))
    {steps : List ServerStep} (hQ : ServerAllows Q steps w) (hw : P w) :
    P (runServer steps w) := by
  induction steps generalizing w with
  | nil => exact hw
  | cons step steps ih =>
    refine ih hQ.2 ?_
    cases step with
    | act a => exact @runActs P Q w hP hadd [a] ⟨hQ.1, trivial⟩ hw
    | turn env select outside => exact hP.ducqLoopOnce hadd hQ.1 hw

end Kept

end Ducq
