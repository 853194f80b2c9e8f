import Ducq.Commands.Pub
import Ducq.Commands.Sub
import Ducq.Commands.Unsub
import Ducq.Reactor.Registry
import Mathlib.Logic.Relation

/-!
# Runs of the whole reactor

A step of the system is one call of the reactor's interface or one command, in a
surrounding that may be another one at every step: whatever a send returned last time,
it may return something else now.  The loops whose hooks do more than answer (those of
the commands and of the log) are steps of their own, and a loop that calls the
interface from inside its hook changes the table as the calls one after the other do.
So `Reachable` is every state between two calls.

One lemma says what a step can do to the table (`Op.run_spec`): it fills a free slot or
writes the route of one client, or neither, and from there on it only gives slots up.
The invariant of the table and the fate of a slot are read off it.
-/

namespace Ducq

open CMemory CPrintf

/-- A call of the interface, or a command. -/
inductive Op where
  | addServer (fd : ℤ) (acceptF ctx : ℕ)
  | addClient (fd : ℤ) (d : DucqI)
  | subscribeTo (d : DucqI) (route : List Byte)
  | delete (d : DucqI)
  | loop (control : List (DucqI × List Byte) → ℕ)
  | allowLogRoute (allowed : Bool)
  | setLastMsg (route msg : List Byte)
  | send (d : DucqI) (buf : List Byte)
  | id (d : DucqI)
  | log (level : DucqLogLevel) (functionName : List Byte) (senderId fmt : Option (List Byte))
    (args : List Arg)
  | pub (d : DucqI) (buffer : List Byte) (size : ℕ)
  | publish (d : DucqI) (buffer : List Byte) (size : ℕ)
  | sub (d : DucqI) (buffer : List Byte)
  | subscribe (d : DucqI) (buffer : List Byte)
  | unsub (d : DucqI) (buffer : List Byte)

namespace Op

/-- The state after a step. -/
def run (env : Env) : Op → World → World
  | addServer fd acceptF ctx, w => (ducqReactorAddServer fd acceptF ctx w).2
  | addClient fd d, w => (ducqReactorAddClient fd d w).2
  | subscribeTo d route, w => (ducqReactorSubscribe d route w).2
  | delete d, w => (ducqReactorDelete env d w).2
  | loop control, w => (ducqReactorLoop env (visitHook control) [] w).2.2
  | allowLogRoute allowed, w => { w with reactor := { w.reactor with allowLogRoute := allowed } }
  | setLastMsg route msg, w => (ducqSetLastMsg route msg w).2
  | send d buf, w => (ducqSend env d buf w).2
  | id d, w => (ducqId env d w).2
  | log level functionName senderId fmt args, w =>
    ducqReactorLog env level functionName senderId fmt args w
  | pub d buffer size, w => (Ducq.pub env d buffer size w).2
  | publish d buffer size, w => (Ducq.publish env d buffer size w).2
  | sub d buffer, w => (Ducq.sub env d buffer w).2
  | subscribe d buffer, w => (Ducq.subscribe env d buffer w).2
  | unsub d buffer, w => (Ducq.unsub env d buffer w).2

/-- What the callers see to: descriptors are not negative, a callback is code and a new
client is not, nor NULL, nor registered, and commands come from registered clients. -/
def Valid (isCode : ℕ → Prop) (w : World) : Op → Prop
  | addServer fd acceptF _ => 0 ≤ fd ∧ isCode acceptF
  | addClient fd d => 0 ≤ fd ∧ d ≠ 0 ∧ ¬ isCode d ∧ ¬ Registered w d
  | pub d _ _ => Registered w d
  | publish d _ _ => Registered w d
  | sub d _ => Registered w d
  | subscribe d _ => Registered w d
  | unsub d _ => Registered w d
  | _ => True

instance (isCode : ℕ → Prop) [DecidablePred isCode] (w : World) (op : Op) :
    Decidable (op.Valid isCode w) :=
  match op with
  | addServer fd acceptF _ => inferInstanceAs (Decidable (0 ≤ fd ∧ isCode acceptF))
  | addClient fd d => inferInstanceAs (Decidable (0 ≤ fd ∧ d ≠ 0 ∧ ¬ isCode d ∧ ¬ Registered w d))
  | pub d _ _ | publish d _ _ | sub d _ | subscribe d _ | unsub d _ =>
    inferInstanceAs (Decidable (Registered w d))
  | subscribeTo _ _ | delete _ | loop _ | allowLogRoute _ | setLastMsg _ _ | send _ _ | id _
  | log _ _ _ _ _ => instDecidableTrue

/-- The step writes a route for the client. -/
def Subscribes (d : DucqI) : Op → Prop
  | subscribeTo d' _ => d' = d
  | sub d' buffer => d' = d ∧ (ducqParseRoute buffer none).1 ≠ none
  | subscribe d' buffer => d' = d ∧ (ducqParseRoute buffer none).1 ≠ none
  | _ => False

variable {isCode : ℕ → Prop} {env : Env} {w : World}

/-- The step registers a connection or writes a route. -/
def WritesSlot : Op → Prop
  | addServer _ _ _ | addClient _ _ | subscribeTo _ _ | sub _ _ | subscribe _ _ => True
  | _ => False

/-- **Any other step only gives slots up.** -/
theorem onlyFrees_run {op : Op} (h : ¬ op.WritesSlot) (w : World) :
    OnlyFrees w (op.run env w) := by
  cases op with
  | delete d => exact OnlyFrees.ducqReactorDelete env d w
  | loop control => exact OnlyFrees.ducqReactorLoop (fun _ _ _ w => OnlyFrees.refl w) _ w
  | allowLogRoute allowed => exact OnlyFrees.refl w
  | setLastMsg route msg => exact fun i => Or.inl (conn_ducqSetLastMsg route msg w i)
  | send d buf => exact OnlyFrees.ducqSend env d buf w
  | id d => exact OnlyFrees.ducqId env d w
  | log level functionName senderId fmt args => exact onlyFrees_ducqReactorLog _ _ _ _ _ w
  | pub d buffer size => exact onlyFrees_pubCommand d buffer size w
  | publish d buffer size => exact onlyFrees_pubCommand d buffer size w
  | unsub d buffer => exact onlyFrees_unsub d buffer w
  | _ => exact absurd trivial h

/-- What `sub` and `subscribe` do, as `run_spec` wants it. -/
theorem subCommand_spec (h : TableInv isCode w) (functionName : List Byte) (d : DucqI)
    (buffer : List Byte) :
    ∃ w₁, TableInv isCode w₁ ∧
      OnlyFrees w₁ (subCommand env functionName d buffer w).2 ∧
      ∀ i, (w.conn i).IsClient →
        ¬ (d = (w.conn i).word ∧ (ducqParseRoute buffer none).1 ≠ none) →
        w₁.conn i = w.conn i := by
  rcases onlyFrees_subCommand d buffer w with ⟨hparse, route, hsub⟩ | hfrees
  · exact ⟨_, h.subscribe d route, hsub, fun i _ hi =>
      conn_ducqReactorSubscribe (fun hd => hi ⟨hd, hparse⟩) route⟩
  · exact ⟨w, h, hfrees, fun _ _ _ => rfl⟩

/-- **What a step can do to the table.** -/
theorem run_spec (h : TableInv isCode w) {op : Op} (hvalid : op.Valid isCode w) :
    ∃ w₁, TableInv isCode w₁ ∧ OnlyFrees w₁ (op.run env w) ∧
      ∀ i, (w.conn i).IsClient → ¬ op.Subscribes (w.conn i).word → w₁.conn i = w.conn i := by
  by_cases hop : op.WritesSlot
  · cases op with
    | addServer fd acceptF ctx =>
      exact ⟨_, h.addServer hvalid.2, OnlyFrees.refl _, fun i hi _ =>
        conn_ducqReactorAddServer hi.1 fd acceptF ctx⟩
    | addClient fd d =>
      exact ⟨_, h.addClient hvalid.2.1 hvalid.2.2.1 hvalid.2.2.2, OnlyFrees.refl _,
        fun i hi _ => conn_ducqReactorAddClient hi.1 fd d⟩
    | subscribeTo d route =>
      exact ⟨_, h.subscribe d route, OnlyFrees.refl _, fun i _ hi =>
        conn_ducqReactorSubscribe hi route⟩
    | sub d buffer => exact subCommand_spec h _ d buffer
    | subscribe d buffer => exact subCommand_spec h _ d buffer
    | _ => exact hop.elim
  · exact ⟨w, h, onlyFrees_run hop w, fun _ _ _ => rfl⟩

theorem run_tableInv (h : TableInv isCode w) {op : Op} (hvalid : op.Valid isCode w) :
    TableInv isCode (op.run env w) := by
  obtain ⟨w₁, h₁, hfrees, -⟩ := @run_spec isCode env w h op hvalid
  exact h₁.onlyFrees hfrees

end Op

/-! ## Runs -/

/-- One step, in any surrounding. -/
def Step (isCode : ℕ → Prop) (w w' : World) : Prop :=
  ∃ env op, Op.Valid isCode w op ∧ op.run env w = w'

/-- A state between two calls. -/
def Reachable (isCode : ℕ → Prop) : World → Prop :=
  Relation.ReflTransGen (Step isCode) World.init

variable {isCode : ℕ → Prop} {w w' : World}

/-- A run step by step, each step with what surrounds it. -/
def runOps : List (Env × Op) → World → World
  | [], w => w
  | (env, op) :: steps, w => runOps steps (op.run env w)

/-- Every step is one its caller may take. -/
def ValidOps (isCode : ℕ → Prop) : List (Env × Op) → World → Prop
  | [], _ => True
  | (env, op) :: steps, w => op.Valid isCode w ∧ ValidOps isCode steps (op.run env w)

instance decidableValidOps (isCode : ℕ → Prop) [DecidablePred isCode] :
    (steps : List (Env × Op)) → (w : World) → Decidable (ValidOps isCode steps w)
  | [], _ => instDecidableTrue
  | (env, op) :: steps, w =>
    have := decidableValidOps isCode steps (op.run env w)
    inferInstanceAs (Decidable (op.Valid isCode w ∧ ValidOps isCode steps (op.run env w)))

/-- What a valid run reaches. -/
theorem Reachable.runOps {steps : List (Env × Op)} (h : Reachable isCode w)
    (hvalid : ValidOps isCode steps w) : Reachable isCode (runOps steps w) := by
  induction steps generalizing w with
  | nil => exact h
  | cons step steps ih =>
    exact ih (h.tail ⟨step.1, step.2, hvalid.1, rfl⟩) hvalid.2

/-- **The invariant of the table holds in every reachable state.** -/
theorem Reachable.tableInv (h : Reachable isCode w) : TableInv isCode w := by
  induction h with
  | refl => exact tableInv_init
  | tail _ hstep ih =>
    obtain ⟨env, op, hvalid, rfl⟩ := hstep
    exact Op.run_tableInv ih hvalid

/-- A step through which a client stays registered and does not subscribe. -/
def StepKeeping (isCode : ℕ → Prop) (d : DucqI) (w w' : World) : Prop :=
  ∃ env op, Op.Valid isCode w op ∧ ¬ op.Subscribes d ∧ op.run env w = w' ∧ Registered w' d

/-- **A client that stays registered keeps its slot**, and its route unless it
subscribes. -/
theorem conn_of_stepKeeping (h : TableInv isCode w) {i : Fin ducqMaxConnections}
    (hi : (w.conn i).IsClient) (hstep : StepKeeping isCode (w.conn i).word w w') :
    w'.conn i = w.conn i := by
  obtain ⟨env, op, hvalid, hsub, rfl, hregistered⟩ := hstep
  obtain ⟨w₁, h₁, hfrees, hkept⟩ := @Op.run_spec isCode env w h op hvalid
  have hsame := hkept i hi hsub
  rw [← hsame] at hi hregistered ⊢
  exact h₁.conn_eq_of_registered hfrees hi hregistered

/-- The same along a run. -/
theorem conn_of_keeping (h : TableInv isCode w) {i : Fin ducqMaxConnections}
    (hi : (w.conn i).IsClient)
    (hrun : Relation.ReflTransGen (StepKeeping isCode (w.conn i).word) w w') :
    TableInv isCode w' ∧ w'.conn i = w.conn i := by
  induction hrun with
  | refl => exact ⟨h, rfl⟩
  | tail _ hstep ih =>
    obtain ⟨h', hsame⟩ := ih
    rw [← hsame] at hi hstep ⊢
    refine ⟨?_, conn_of_stepKeeping h' hi hstep⟩
    obtain ⟨env, op, hvalid, -, rfl, -⟩ := hstep
    exact Op.run_tableInv h' hvalid

end Ducq
