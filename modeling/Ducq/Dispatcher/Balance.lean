import Ducq.Dispatcher.Dispatch
import Ducq.Reactor.Registry

/-!
# The Lua stack across a dispatch

What each function of the dispatcher does to the height of the stack, from the functions
of the API up.  The functions that run a command keep to their own values; the lookup in
the Lua table does not, and neither does the listing.

* `_find_lua_command` leaves the table, the entry and what it found in the entry, as far
  as it came, and only the function is used up by `lua_command`.
* `lscmd` leaves the table `commands` when it ends, and, when the line of a script cannot
  be sent, the key, the entry and `doc` on top of it.

So a dispatch never takes the height down, and it keeps it exactly where it never came to
look at the table: the message names no command, or it names a native one, or it asks for
the listing and the client cannot be sent the part before the scripts (`StackKept`).
`StackKept` speaks of the message, the commands loaded and the sends to come; what the
scripts do has no part in it.

A run is any sequence of dispatches.  Between two of them anything else may happen to the
world, to what the scripts can reach and to the commands loaded; only the stack is as the
last dispatch left it.
-/

namespace Ducq

open CMemory CNumber CPrintf Effect Lua Fifo

variable {σ α : Type} {rt : Runtime (σ × World)} {env : CommandEnv} {cmds : List DucqCmd}
  {d : DucqI}

/-! ## The height, function by function -/

theorem effect_reactor (f : Logged → α × Logged) :
    Moves (State.height (H := (σ × World) × List LogCall)) (reactor f) fun _ δ => δ = 0 :=
  effect_outside _

theorem effect_logs (level : DucqLogLevel) (functionName fmt : List Byte) (args : List Arg) :
    Moves (State.height (H := (σ × World) × List LogCall))
      (logs env d level functionName fmt args) fun _ δ => δ = 0 :=
  effect_reactor _

theorem effect_unknown (buffer : List Byte) :
    Moves (State.height (H := (σ × World) × List LogCall)) (unknown env d buffer)
      fun _ δ => δ = 0 := by
  refine (effect_logs _ _ _ _).bind ?_
  rintro - _ rfl
  refine (effect_reactor _).bind ?_
  rintro state _ rfl
  exact Moves.pure rfl

theorem effect_ducqPushDucq : Moves State.height (ducqPushDucq rt d) fun _ δ => δ = 1 := by
  refine (effect_newuserdata _).bind ?_
  rintro - _ rfl
  refine (effect_getmetatable _).bind ?_
  rintro - _ rfl
  exact (effect_setmetatable _).mono fun _ δ hδ => by rw [hδ]; rfl

theorem effect_ducqPushMsg (msg : DucqMsg) :
    Moves State.height (ducqPushMsg rt msg) fun _ δ => δ = 1 := by
  refine effect_createtable.bind ?_
  rintro - _ rfl
  refine (effect_pushstring _).bind ?_
  rintro - _ rfl
  refine (effect_setfield _ _).bind ?_
  rintro - _ rfl
  refine (effect_pushstring _).bind ?_
  rintro - _ rfl
  refine (effect_setfield _ _).bind ?_
  rintro - _ rfl
  refine (effect_pushstring _).bind ?_
  rintro - _ rfl
  refine (effect_setfield _ _).bind ?_
  rintro - _ rfl
  refine (effect_getmetatable _).bind ?_
  rintro - _ rfl
  exact (effect_setmetatable _).mono fun _ δ hδ => by rw [hδ]; rfl

theorem effect_luaState (msg : DucqMsg) (ok : Bool) :
    Moves State.height (luaState rt env d msg ok) fun _ δ => δ = 0 := by
  refine Moves.ite (fun _ => ?_) fun _ => ?_
  · refine (effect_integer 1).bind ?_
    rintro (_ | i) _ rfl
    · refine (effect_logs _ _ _ _).bind ?_
      rintro - _ rfl
      exact Moves.pure rfl
    · exact Moves.pure rfl
  · refine (effect_tostring 1).bind ?_
    rintro text _ rfl
    refine (effect_logs _ _ _ _).bind ?_
    rintro - _ rfl
    exact Moves.pure rfl

/-- The call takes the function, and its result is popped. -/
theorem effect_luaCommand (buffer : List Byte) :
    Moves State.height (luaCommand rt env d buffer) fun _ δ => δ = -1 := by
  refine (effect_logs _ _ _ _).bind ?_
  rintro - _ rfl
  refine effect_ducqPushDucq.bind ?_
  rintro - _ rfl
  refine (effect_ducqPushMsg _).bind ?_
  rintro - _ rfl
  refine (effect_pcall 2 1).bind ?_
  rintro ok _ rfl
  refine (effect_luaState _ ok).bind ?_
  rintro state _ rfl
  refine (effect_pop 1).bind ?_
  rintro - _ rfl
  refine Moves.pure ?_
  cases ok <;> rfl

/-- What has been found stays on the stack. -/
theorem effect_findLuaCommand (name : List Byte) :
    Moves State.height (findLuaCommand rt name) fun command δ =>
      command = .unknown ∧ 1 ≤ δ ∨ command = .luaCommand ∧ δ = 3 := by
  refine (effect_getglobal _).bind ?_
  rintro commands _ rfl
  refine Moves.ite (fun _ => Moves.pure (Or.inl ⟨rfl, le_rfl⟩)) fun _ => ?_
  refine (effect_pushstring _).bind ?_
  rintro - _ rfl
  refine (effect_gettable 2).bind ?_
  rintro command _ rfl
  refine Moves.ite (fun _ => Moves.pure (Or.inl ⟨rfl, by decide⟩)) fun _ => ?_
  refine (effect_pushstring _).bind ?_
  rintro - _ rfl
  refine (effect_gettable 2).bind ?_
  rintro exec _ rfl
  refine Moves.ite (fun _ => Moves.pure (Or.inl ⟨rfl, by decide⟩)) fun _ => ?_
  exact Moves.pure (Or.inr ⟨rfl, rfl⟩)

theorem effect_lscmdScript (kind : Kind) :
    Moves State.height (lscmdScript rt env d kind) fun _ δ => δ = 0 := by
  refine Moves.ite (fun _ => ?_) fun _ => Moves.pure rfl
  refine (effect_tostring 3).bind ?_
  rintro name _ rfl
  refine (effect_tostring 1).bind ?_
  rintro doc _ rfl
  exact (effect_reactor _).mono fun _ δ hδ => by rw [hδ]; rfl

theorem effect_lscmdDoc :
    Moves State.height (lscmdDoc rt env d) fun state δ => δ = if state = .ok then 0 else 1 := by
  refine (effect_getfield 1 _).bind ?_
  rintro kind _ rfl
  refine (effect_lscmdScript kind).bind ?_
  rintro state _ rfl
  refine Moves.ite (fun hstate => ?_) fun _ => ?_
  · exact Moves.pure (if_neg hstate).symm
  · refine (effect_pop 1).bind ?_
    rintro - _ rfl
    exact Moves.pure rfl

theorem effect_lscmdEntry :
    Moves State.height (lscmdEntry rt env d) fun state δ =>
      δ = if state = .ok then 0 else 1 := by
  refine (effect_isstring 2).bind ?_
  rintro isString _ rfl
  refine (effect_istable 1).bind ?_
  rintro isTable _ rfl
  refine Moves.ite (fun _ => ?_) fun _ => Moves.pure rfl
  exact effect_lscmdDoc.mono fun state δ hδ => by rw [hδ, zero_add, zero_add]

/-- The traversal begins with a key on the stack.  It uses the last key up when it comes to
its end, and otherwise leaves key, entry and `doc`. -/
theorem effect_lscmdScripts (fuel : ℕ) :
    Moves State.height (lscmdScripts rt env d fuel) fun state δ =>
      δ = if state = .ok then -1 else 2 := by
  induction fuel with
  | zero => exact fun s a t ht => absurd (Prod.mk.inj ht).1.symm (Option.some_ne_none a)
  | succ fuel ih =>
    refine (effect_next 2).bind ?_
    rintro more _ rfl
    refine Moves.ite (fun hmore => ?_) fun hmore => ?_
    · refine effect_lscmdEntry.bind ?_
      rintro state _ rfl
      refine Moves.ite (fun hstate => ?_) fun hstate => ?_
      · refine Moves.pure ?_
        rw [if_pos hmore, if_neg hstate, if_neg hstate]
        rfl
      · refine (effect_pop 1).bind ?_
        rintro - _ rfl
        refine ih.mono fun state' δ hδ => ?_
        rw [if_pos hmore, if_pos (not_not.mp hstate), hδ]
        omega
    · refine Moves.pure ?_
      rw [if_neg hmore]
      rfl

theorem effect_lscmdEnd :
    Moves (State.height (H := (σ × World) × List LogCall)) (lscmdEnd env d) fun _ δ => δ = 0 := by
  refine (effect_reactor _).bind ?_
  rintro state _ rfl
  exact Moves.pure rfl

/-- **The listing of the scripts** leaves the table at least. -/
theorem effect_lscmdLua (fuel : ℕ) :
    Moves State.height (lscmdLua rt env d fuel) fun _ δ => 1 ≤ δ := by
  refine (effect_getglobal _).bind ?_
  rintro kind _ rfl
  refine Moves.ite (fun _ => ?_) fun _ => ?_
  · exact effect_lscmdEnd.mono fun _ δ hδ => by rw [hδ]; decide
  · refine effect_pushnil.bind ?_
    rintro - _ rfl
    refine (effect_lscmdScripts fuel).bind ?_
    rintro state _ rfl
    refine Moves.ite (fun hstate => ?_) fun hstate => ?_
    · refine Moves.pure ?_
      rw [if_neg hstate]
      decide
    · refine effect_lscmdEnd.mono fun _ δ hδ => ?_
      rw [if_pos (not_not.mp hstate), hδ]
      decide

/-! ## When the height is kept -/

/-- The client of a listing cannot be sent the part before the scripts: one of the sends
that follow to it fails. -/
def ListingFails (env : CommandEnv) (cmds : List DucqCmd) (d : DucqI) (s : Logged) : Prop :=
  d = 0 ∨ ∃ k ≤ cmds.length,
    env.sendResult d (sendCount d (lscmdStart env d s).world.calls + k) ≠ .ok

/-- A dispatch that does not come to look at the Lua table: the message names no command,
it names a native one, or it asks for a listing that fails before the scripts. -/
def StackKept (env : CommandEnv) (cmds : List DucqCmd) (d : DucqI) (msg : List Byte)
    (s : Logged) : Prop :=
  ∀ name ∈ commandName msg,
    if IsListing name then ListingFails env cmds d s else (findNative cmds name).isSome

instance (env : CommandEnv) (cmds : List DucqCmd) (d : DucqI) (s : Logged) :
    Decidable (ListingFails env cmds d s) :=
  inferInstanceAs (Decidable (_ ∨ ∃ k ≤ _, _))

instance (env : CommandEnv) (cmds : List DucqCmd) (d : DucqI) (msg : List Byte) (s : Logged) :
    Decidable (StackKept env cmds d msg s) :=
  inferInstanceAs (Decidable (∀ name ∈ commandName msg, _))

/-- The sends of a listing fail if one of them does. -/
theorem lscmdSends_ne_ok_iff (h0 : d ≠ 0) (lines : List (List Byte)) (w : World) :
    (lscmdSends env d lines w).1 ≠ .ok ↔
      ∃ k < lines.length, env.sendResult d (sendCount d w.calls + k) ≠ .ok := by
  induction lines generalizing w with
  | nil =>
    refine iff_of_false (not_not.mpr rfl) ?_
    rintro ⟨k, hk, -⟩
    exact absurd hk (Nat.not_lt_zero k)
  | cons line lines ih =>
    have hcount : sendCount d (w.record [.send d line]).calls = sendCount d w.calls + 1 := by
      rw [World.calls_record, sendCount_append]
      simp [sendCount]
    rw [lscmdSends, ducqSend, if_neg h0]
    dsimp only
    split_ifs with hfirst
    · exact iff_of_true hfirst ⟨0, Nat.zero_lt_succ _, hfirst⟩
    · rw [ih, hcount]
      constructor
      · rintro ⟨k, hk, hfail⟩
        exact ⟨k + 1, Nat.succ_lt_succ hk, by rwa [Nat.add_right_comm] at hfail⟩
      · rintro ⟨k, hk, hfail⟩
        cases k with
        | zero => exact absurd hfail hfirst
        | succ k => exact ⟨k, Nat.lt_of_succ_lt_succ hk, by rwa [Nat.add_right_comm]⟩

/-- What `lscmd` has done before the scripts. -/
def lscmdSent (env : CommandEnv) (cmds : List DucqCmd) (d : DucqI) (s : Logged) :
    DucqState × Logged :=
  (lscmdStart env d s).act (lscmdSends env d (lscmdLines env cmds))

theorem listingFails_iff (s : Logged) :
    ListingFails env cmds d s ↔ (lscmdSent env cmds d s).1 ≠ .ok := by
  rw [lscmdSent, Logged.act_fst]
  by_cases h0 : d = 0
  · refine iff_of_true (Or.inl h0) ?_
    rw [lscmdLines, lscmdSends, ducqSend, if_pos h0]
    exact DucqState.noConfusion
  · rw [lscmdSends_ne_ok_iff h0, ListingFails, or_iff_right h0, lscmdLines, List.length_cons,
      List.length_map]
    simp only [Nat.lt_succ_iff]

/-- A listing that fails before the scripts. -/
theorem lscmd_of_listingFails {s : Server σ} (h : ListingFails env cmds d s.logged) (fuel : ℕ) :
    lscmd rt env cmds d fuel s =
      (some ((lscmdSent env cmds d s.logged).1.code : ℤ),
        s.withLogged (lscmdSent env cmds d s.logged).2) := by
  refine bind_eq_some.mpr ⟨_, _, reactor_apply _ s, ?_⟩
  have hstate := (listingFails_iff s.logged).mp h
  rw [lscmdSent] at hstate
  rw [if_pos hstate]
  rfl

/-- A listing that comes to the scripts. -/
theorem height_lt_lscmd {s t : Server σ} {fuel : ℕ} {a : ℤ}
    (h : lscmd rt env cmds d fuel s = (some a, t)) (hsent : ¬ ListingFails env cmds d s.logged) :
    s.height + 1 ≤ t.height := by
  rw [lscmd, bind_of_some (reactor_apply _ s)] at h
  rw [listingFails_iff, lscmdSent] at hsent
  rw [if_neg hsent] at h
  obtain ⟨δ, hδ, hle⟩ := effect_lscmdLua fuel _ _ _ h
  rw [hδ, Server.height_withLogged]
  omega

/-! ## One dispatch -/

/-- **A dispatch that leaves the table alone** returns, with the height it found. -/
theorem ducqDispatch_of_stackKept {msg : List Byte} {s : Server σ}
    (h : StackKept env cmds d msg s.logged) (fuel size : ℕ) :
    ∃ a t, ducqDispatch rt env cmds d fuel msg size s = (some a, t) ∧ t.height = s.height := by
  cases hname : commandName msg with
  | none =>
    rw [ducqDispatch_of_pure (findCommand_eq_none hname)]
    exact ⟨_, s.withLogged _, rfl, rfl⟩
  | some name =>
    have hfound := h name hname
    split_ifs at hfound with hlist
    · rw [ducqDispatch_of_pure (findCommand_listing hname hlist)]
      exact ⟨_, _, lscmd_of_listingFails hfound fuel, Server.height_withLogged _ _⟩
    · obtain ⟨cmd, hcmd⟩ := Option.isSome_iff_exists.mp hfound
      have hfind := @findCommand_of_not_listing σ rt cmds msg name hname hlist
      rw [hcmd] at hfind
      rw [ducqDispatch_of_pure hfind]
      exact ⟨_, s.withLogged _, rfl, rfl⟩

/-- **Every other dispatch** adds to the height, if it returns. -/
theorem height_lt_of_not_stackKept {msg : List Byte} {s t : Server σ} {fuel size : ℕ} {a : ℤ}
    (h : ducqDispatch rt env cmds d fuel msg size s = (some a, t))
    (hkept : ¬ StackKept env cmds d msg s.logged) : s.height + 1 ≤ t.height := by
  rw [StackKept] at hkept
  push Not at hkept
  obtain ⟨name, hname, hnot⟩ := hkept
  split_ifs at hnot with hlist
  · rw [ducqDispatch_of_pure (findCommand_listing hname hlist)] at h
    exact height_lt_lscmd h hnot
  · have hfind := @findCommand_of_not_listing σ rt cmds msg name hname hlist
    rw [Option.not_isSome_iff_eq_none.mp hnot] at hfind
    rw [ducqDispatch, hfind] at h
    -- what the lookup has left is more than the call takes
    obtain ⟨δ, hδ, hle⟩ := ((effect_findLuaCommand name).bind (Q := fun _ δ => 1 ≤ δ) (by
      rintro command δ (⟨rfl, hδ⟩ | ⟨rfl, rfl⟩)
      · exact (effect_unknown msg).mono fun _ ε hε => by rw [hε]; omega
      · exact (effect_luaCommand msg).mono fun _ ε hε => by rw [hε]; decide)) _ _ _ h
    omega

/-- The height after a dispatch that returned. -/
theorem height_ducqDispatch {msg : List Byte} {s t : Server σ} {fuel size : ℕ} {a : ℤ}
    (h : ducqDispatch rt env cmds d fuel msg size s = (some a, t)) :
    s.height ≤ t.height ∧ (t.height = s.height ↔ StackKept env cmds d msg s.logged) ∧
      (¬ StackKept env cmds d msg s.logged → s.height + 1 ≤ t.height) := by
  by_cases hkept : StackKept env cmds d msg s.logged
  · obtain ⟨a', t', h', hheight⟩ := @ducqDispatch_of_stackKept σ rt env cmds d msg s hkept fuel size
    obtain ⟨-, rfl⟩ := Prod.mk.inj (h.symm.trans h')
    exact ⟨hheight.ge, iff_of_true hheight hkept, fun hc => absurd hkept hc⟩
  · have hlt := height_lt_of_not_stackKept h hkept
    exact ⟨by omega, iff_of_false (by omega) hkept, fun _ => hlt⟩

/-! ## Runs -/

/-- A dispatch on the way: the commands loaded by then, the client and its message, and
the server before and after. -/
structure Dispatched (σ : Type) where
  cmds : List DucqCmd
  client : DucqI
  msg : List Byte
  size : ℕ
  before : Server σ
  after : Server σ

/-- The dispatch leaves the table alone. -/
def Dispatched.Kept (env : CommandEnv) (e : Dispatched σ) : Prop :=
  StackKept env e.cmds e.client e.msg e.before.logged

instance (env : CommandEnv) : DecidablePred (Dispatched.Kept env (σ := σ)) := fun _ =>
  inferInstanceAs (Decidable (StackKept _ _ _ _ _))

/-- From one dispatch to the next: whatever happened since the last one, it left the stack
alone. -/
def Dispatches (rt : Runtime (σ × World)) (env : CommandEnv) (s : Server σ) (e : Dispatched σ)
    (t : Server σ) : Prop :=
  e.before.stack = s.stack ∧ e.after = t ∧
    ∃ fuel a, ducqDispatch rt env e.cmds e.client fuel e.msg e.size e.before = (some a, e.after)

/-- What a step of a run does to the height. -/
theorem height_dispatches {s t : Server σ} {e : Dispatched σ} (h : Dispatches rt env s e t) :
    s.height ≤ t.height ∧ (t.height = s.height ↔ e.Kept env) ∧
      (¬ e.Kept env → s.height + 1 ≤ t.height) := by
  obtain ⟨hstack, rfl, fuel, a, hrun⟩ := h
  have hheight : s.height = e.before.height := congrArg (fun l => (l.length : ℤ)) hstack.symm
  rw [hheight]
  exact height_ducqDispatch hrun

/-- **A run adds one at least for every dispatch that looks at the table**, so that it
goes past any bound. -/
theorem height_run_ge {s t : Server σ} {es : List (Dispatched σ)}
    (h : Run (Dispatches rt env) s es t) :
    s.height + es.countP (fun e => ¬ e.Kept env) ≤ t.height :=
  @measure_run_ge (Server σ) _ (Dispatches rt env) State.height (Dispatched.Kept env) _
    (fun _ _ _ hstep => ⟨(height_dispatches hstep).1, (height_dispatches hstep).2.2⟩) _ _ _ h

/-- **When the stack is balanced.**  A dispatch returns with the height it found exactly if
it leaves the Lua table alone; and a run keeps the height it started with exactly if every
dispatch in it does. -/
theorem ducqDispatch_balanced_iff (rt : Runtime (σ × World)) (env : CommandEnv) :
    (∀ (cmds : List DucqCmd) (d : DucqI) (msg : List Byte) (size : ℕ) (s : Server σ),
      (∃ fuel a t, ducqDispatch rt env cmds d fuel msg size s = (some a, t) ∧
        t.height = s.height) ↔ StackKept env cmds d msg s.logged) ∧
    ∀ (s t : Server σ) (es : List (Dispatched σ)), Run (Dispatches rt env) s es t →
      ((∀ e ∈ es, e.after.height = s.height) ↔ ∀ e ∈ es, e.Kept env) := by
  refine ⟨fun cmds d msg size s => ⟨?_, fun h => ?_⟩, fun s t es hrun => ?_⟩
  · rintro ⟨fuel, a, t, h, hheight⟩
    exact (height_ducqDispatch h).2.1.mp hheight
  · exact ⟨0, ducqDispatch_of_stackKept h 0 size⟩
  · have hstep : ∀ s e t, Dispatches rt env s e t → Dispatched.after e = t ∧
        State.height s ≤ State.height t ∧ (State.height t = State.height s ↔ e.Kept env) :=
      fun s e t h => ⟨h.2.1, (height_dispatches h).1, (height_dispatches h).2.1⟩
    exact (measure_run_eq_iff hstep hrun).2

/-! ## A new server -/

/-- Everything succeeds, and every transport frames. -/
def CommandEnv.quiet : CommandEnv where
  toEnv := Env.quiet
  frames _ := true
  timestamp := CharArray.zeros 20
  time := 0

/-- Lua as `_make_lua` leaves it, as far as a dispatch sees it: the global `commands` is a
table without entries, and nothing else can be called. -/
def newLua : Runtime (Unit × World) where
  globals := .table 0
  registry := .table 1
  index t k h := some (if t = .table 0 ∧ k = .string (ascii "commands") then .table 2 else .nil, h)
  setIndex _ _ _ h := some h
  next _ _ _ := some none
  newTable h := (3, h)
  newUserdata _ h := (4, h)
  setMetatable _ _ h := h
  numberText _ := []
  call _ _ h := some (.error (.string (ascii "attempt to call a value")), h)

/-- The server before its first client, with nothing on the Lua stack. -/
def newServer : Server Unit := ⟨[], (((), World.init), [])⟩

/-- `PING`, as it is loaded. -/
def pingCmd : DucqCmd :=
  ⟨ascii "PING", ascii "Reply with a PONG command with unchanged payload.",
    Logged.ping CommandEnv.quiet⟩

/-- A run of one dispatch, of a native command. -/
theorem ducqDispatch_balanced_ping :
    ∃ e t, Run (Dispatches newLua CommandEnv.quiet) newServer [e] t ∧ e.msg = ascii "PING *\nhi" ∧
      e.after.height = newServer.height := by
  have hkept : StackKept CommandEnv.quiet [pingCmd] 100 (ascii "PING *\nhi") newServer.logged := by
    decide
  obtain ⟨a, t, hrun, -⟩ := @ducqDispatch_of_stackKept Unit newLua _ _ _ _ _ hkept 0 9
  have hdispatches : Run (Dispatches newLua CommandEnv.quiet) newServer
      [⟨[pingCmd], 100, ascii "PING *\nhi", 9, newServer, t⟩] t :=
    Run.cons ⟨rfl, rfl, 0, a, hrun⟩ (Run.nil t)
  refine ⟨_, t, hdispatches, rfl, ?_⟩
  exact ((ducqDispatch_balanced_iff newLua CommandEnv.quiet).2 _ _ _ hdispatches).mpr
    (List.forall_mem_singleton.mpr hkept) _ List.mem_cons_self

/-- **A message nobody answers** leaves two values on the stack. -/
theorem not_balanced_unknown :
    (∃ a t, ducqDispatch newLua CommandEnv.quiet [pingCmd] 100 0 (ascii "foo *\n") 6 newServer =
      (some a, t) ∧ t.height = newServer.height + 2) ∧
    ¬ ∃ fuel a t, ducqDispatch newLua CommandEnv.quiet [pingCmd] 100 fuel (ascii "foo *\n") 6
      newServer = (some a, t) ∧ t.height = newServer.height := by
  refine ⟨⟨_, _, rfl, rfl⟩, ?_⟩
  rintro ⟨fuel, a, t, h, hheight⟩
  have hkept := (height_ducqDispatch h).2.1.mp hheight
  exact absurd hkept (by decide)

end Ducq
