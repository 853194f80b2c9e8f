import Ducq.Commands.Pub
import Ducq.Commands.Sub
import Ducq.Commands.Unsub
import Ducq.Reactor.Logged

/-!
# The commands that log, with what they log

`pub`, `sub` and `unsub` once more, over the world with its log calls.  They are the same
functions: without the list of calls each is the command of its own module
(`world_pubCommand`, `world_subCommand`, `world_unsub`), so that everything shown of that
one holds here.

Every format in them is a constant, and what is shown beyond that is that the arguments
are the ones the constant asks for.
-/

namespace Ducq

open CMemory CPrintf

namespace Logged

variable (env : Env) (functionName : List Byte) (d : DucqI)

/-! ## `pub` and `publish` -/

/-- `pub` up to its broadcast. -/
def pubAcknowledge (buffer : List Byte) (s : Logged) :
    DucqState × Option (List Byte) × Logged :=
  let (routeState, route) := pubRoute env buffer
  let (ackState, s) := s.act fun w => ducqSendAck env d routeState (pubStore env buffer w)
  let returned := if routeState ≠ .ok then routeState else ackState
  let level := if returned ≠ .ok then DucqLogLevel.warning else .info
  let (id, s) := s.act (ducqId env d)
  (returned, route, s.ducqReactorLog env level functionName id (some (ascii "%s,send: %s"))
    [.str route, .str (some (ducqStateTostr ackState.code))])

/-- The rest of `pub`. -/
def pubBroadcast (route : Option (List Byte)) (buffer : List Byte) (size : ℕ) (s : Logged) :
    Logged :=
  let (msg, s) := s.act fun w =>
    (ducqReactorLoop env (publishHook env) ⟨route, buffer, size, 0⟩ w).2
  s.ducqLog env d .info functionName (some (ascii "%s,%d notified"))
    [.str msg.route, .int msg.count]

/-- What `pub` and `publish` both do. -/
def pubCommand (buffer : List Byte) (size : ℕ) (s : Logged) : DucqState × Logged :=
  let (returned, route, s) := pubAcknowledge env functionName d buffer s
  if returned ≠ .ok then (returned, (s.act (ducqReactorDelete env d)).2)
  else (returned, pubBroadcast env functionName d route buffer size s)

theorem world_pubAcknowledge (buffer : List Byte) (s : Logged) :
    ((pubAcknowledge env functionName d buffer s).1,
      (pubAcknowledge env functionName d buffer s).2.1,
      (pubAcknowledge env functionName d buffer s).2.2.world) =
      Ducq.pubAcknowledge env functionName d buffer s.world := rfl

theorem world_pubBroadcast (route : Option (List Byte)) (buffer : List Byte) (size : ℕ)
    (s : Logged) : (pubBroadcast env functionName d route buffer size s).world =
      Ducq.pubBroadcast env functionName d route buffer size s.world := rfl

/-- **Without its log calls**, this is `pub`. -/
theorem world_pubCommand (buffer : List Byte) (size : ℕ) (s : Logged) :
    ((pubCommand env functionName d buffer size s).1,
      (pubCommand env functionName d buffer size s).2.world) =
      Ducq.pubCommand env functionName d buffer size s.world := by
  have hack := world_pubAcknowledge env functionName d buffer s
  rw [pubCommand, Ducq.pubCommand, ← hack]
  dsimp only
  split_ifs
  · rfl
  · rw [world_pubBroadcast]

/-! ## `sub` and `subscribe` -/

/-- What follows the answer. -/
def subConclude (route : List Byte) (ackState : DucqState) (s : Logged) : Logged :=
  if ackState ≠ .ok then
    ((s.ducqLog env d .warning functionName (some (ascii "%s"))
      [.str (some (ducqStateTostr ackState.code))]).act (ducqReactorDelete env d)).2
  else s.ducqLog env d .info functionName (some (ascii "%s")) [.str (some route)]

/-- What `sub` and `subscribe` both do once there is a route. -/
def subRoute (route : List Byte) (payload : Option (List Byte)) (s : Logged) :
    DucqState × Logged :=
  let (addState, s) := s.act (ducqReactorSubscribe d route)
  let s :=
    if addState ≠ .ok then
      s.ducqLog env d .error functionName (some (ascii "%s"))
        [.str (some (ducqStateTostr addState.code))]
    else s
  let (ackState, s) := s.act (subAcknowledge env d route payload addState)
  (if addState ≠ .ok then addState else ackState, subConclude env functionName d route ackState s)

/-- What `sub` and `subscribe` both do. -/
def subCommand (buffer : List Byte) (s : Logged) : DucqState × Logged :=
  match ducqParseRoute buffer none with
  | (some route, some end_) =>
    subRoute env functionName d (cutAt buffer end_ route)
      ((ducqParsePayload buffer).map (cutAt buffer end_)) s
  | _ =>
    let (_, s) := s.act (ducqSendAck env d .emsginv)
    (.emsginv, s.ducqLog env d .warning functionName (some (ascii "%s"))
      [.str (some (ducqStateTostr DucqState.emsginv.code))])

theorem world_subConclude (route : List Byte) (ackState : DucqState) (s : Logged) :
    (subConclude env functionName d route ackState s).world =
      Ducq.subConclude env functionName d route ackState s.world := by
  rw [subConclude, Ducq.subConclude]
  split_ifs
  · rfl
  · rfl

theorem world_subRoute (route : List Byte) (payload : Option (List Byte)) (s : Logged) :
    ((subRoute env functionName d route payload s).1,
      (subRoute env functionName d route payload s).2.world) =
      Ducq.subRoute env functionName d route payload s.world := by
  rw [subRoute, Ducq.subRoute]
  dsimp only
  rw [world_subConclude, act_fst]
  by_cases hadd : (ducqReactorSubscribe d route s.world).1 = .ok
  · simp only [hadd, ne_eq, not_true_eq_false, if_false]
    rfl
  · simp only [hadd, ne_eq, not_false_eq_true, if_true]
    rfl

/-- **Without its log calls**, this is `sub`. -/
theorem world_subCommand (buffer : List Byte) (s : Logged) :
    ((subCommand env functionName d buffer s).1,
      (subCommand env functionName d buffer s).2.world) =
      Ducq.subCommand env functionName d buffer s.world := by
  rw [subCommand, Ducq.subCommand]
  rcases ducqParseRoute buffer none with ⟨_ | route, _ | end_⟩
  · rfl
  · rfl
  · rfl
  · exact world_subRoute env functionName d _ _ s

/-! ## `unsub` -/

/-- How `unsub` ends. -/
def unsubAnswer (level : DucqLogLevel) (id : Option (List Byte)) (count : ℤ)
    (state : DucqState) (s : Logged) : DucqState × Logged :=
  (s.ducqLog env d level (ascii "unsub") (some (ascii "%s,%d unsubscribed"))
    [.str id, .int count]).act (ducqSendAck env d state)

/-- `unsub`. -/
def unsub (buffer : List Byte) (s : Logged) : DucqState × Logged :=
  match ducqParsePayload buffer with
  | none => unsubAnswer env d .warning none 0 .emsginv s
  | some id =>
    if cstr id = [] then unsubAnswer env d .warning (some id) 0 .emsginv s
    else
      let (unsub, s) := s.act fun w => (ducqReactorLoop env (unsubscribeHook env) ⟨id, 0⟩ w).2
      if unsub.count ≤ 0 then unsubAnswer env d .warning (some id) unsub.count .enotfound s
      else unsubAnswer env d .info (some id) unsub.count .ok s

theorem world_unsubAnswer (level : DucqLogLevel) (id : Option (List Byte)) (count : ℤ)
    (state : DucqState) (s : Logged) :
    ((unsubAnswer env d level id count state s).1,
      (unsubAnswer env d level id count state s).2.world) =
      Ducq.unsubAnswer env d level id count state s.world := rfl

/-- **Without its log calls**, this is `unsub`. -/
theorem world_unsub (buffer : List Byte) (s : Logged) :
    ((unsub env d buffer s).1, (unsub env d buffer s).2.world) =
      Ducq.unsub env d buffer s.world := by
  rw [unsub, Ducq.unsub]
  cases ducqParsePayload buffer with
  | none => exact world_unsubAnswer env d _ _ _ _ s
  | some id =>
    dsimp only
    rw [act_fst]
    split_ifs
    · exact world_unsubAnswer env d _ _ _ _ s
    · exact world_unsubAnswer env d _ _ _ _ _
    · exact world_unsubAnswer env d _ _ _ _ _

/-! ## What they log -/

variable {env functionName d}

theorem logs_pubBroadcast {s t : Logged} (h : Logs LogCall.Fits s t)
    (route : Option (List Byte)) (buffer : List Byte) (size : ℕ) :
    Logs LogCall.Fits s (pubBroadcast env functionName d route buffer size t) := by
  rw [pubBroadcast]
  dsimp only [act]
  refine Logs.fits (h.trans (Logs.of_eq ?_)) env d _ functionName ?_
  · rfl
  · rfl

theorem logs_pubCommand (buffer : List Byte) (size : ℕ) (s : Logged) :
    Logs LogCall.Fits s (pubCommand env functionName d buffer size s).2 := by
  have hack : Logs LogCall.Fits s (pubAcknowledge env functionName d buffer s).2.2 := by
    rw [pubAcknowledge]
    rcases pubRoute env buffer with ⟨routeState, route⟩
    exact Logs.ducqReactorLog (((Logs.refl s).act _).act _) ⟨_, rfl, rfl⟩
  rw [pubCommand]
  rcases hr : pubAcknowledge env functionName d buffer s with ⟨returned, route, t⟩
  rw [hr] at hack
  dsimp only at hack ⊢
  split_ifs
  · exact hack.act _
  · exact logs_pubBroadcast hack route buffer size

theorem logs_subConclude {s t : Logged} (h : Logs LogCall.Fits s t) (route : List Byte)
    (ackState : DucqState) :
    Logs LogCall.Fits s (subConclude env functionName d route ackState t) := by
  rw [subConclude]
  split_ifs
  · exact (h.fits env d _ functionName rfl).act _
  · exact h.fits env d _ functionName rfl

theorem logs_subCommand (buffer : List Byte) (s : Logged) :
    Logs LogCall.Fits s (subCommand env functionName d buffer s).2 := by
  have hinvalid : Logs LogCall.Fits s ((s.act (ducqSendAck env d .emsginv)).2.ducqLog env d
      .warning functionName (some (ascii "%s"))
      [.str (some (ducqStateTostr DucqState.emsginv.code))]) :=
    ((Logs.refl s).act _).fits env d _ functionName rfl
  rw [subCommand]
  rcases ducqParseRoute buffer none with ⟨_ | route, _ | end_⟩
  · exact hinvalid
  · exact hinvalid
  · exact hinvalid
  · refine logs_subConclude (Logs.act ?_ _) _ _
    split_ifs
    · exact ((Logs.refl s).act _).fits env d _ functionName rfl
    · exact (Logs.refl s).act _

theorem logs_unsubAnswer {s t : Logged} (h : Logs LogCall.Fits s t) (level : DucqLogLevel)
    (id : Option (List Byte)) (count : ℤ) (state : DucqState) :
    Logs LogCall.Fits s (unsubAnswer env d level id count state t).2 :=
  (h.fits env d level _ rfl).act _

theorem logs_unsub (buffer : List Byte) (s : Logged) :
    Logs LogCall.Fits s (unsub env d buffer s).2 := by
  rw [unsub]
  cases ducqParsePayload buffer with
  | none => exact logs_unsubAnswer (Logs.refl s) _ _ _ _
  | some id =>
    dsimp only
    split_ifs
    · exact logs_unsubAnswer (Logs.refl s) _ _ _ _
    · exact logs_unsubAnswer ((Logs.refl s).act _) _ _ _ _
    · exact logs_unsubAnswer ((Logs.refl s).act _) _ _ _ _

end Logged

end Ducq
