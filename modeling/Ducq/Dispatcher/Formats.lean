import Ducq.Dispatcher.Balance

/-!
# What a dispatch logs

Every call of `ducq_reactor_log` that a dispatch makes, whichever command it finds, among
the commands of `src/commands`, those of the dispatcher itself and the scripts of
`commands`.  The bindings of `ducq_lua.c` do not log, so a script is only surrounded by
log calls and makes none.

All formats but one are constants with the arguments they ask for.  The exception is the
log line of `PING` and `PONG`, and so the calls of a dispatch fit exactly if the message
is none that either of the two gets, or its payload makes a format without conversions
(`ducqDispatch_logs_iff`).  A message without a newline has no payload, and then the
format is NULL.

The statement is about every call a dispatch makes, whether it returns or not: a Lua
error outside the protected call, or a script that never ends, takes nothing back.
-/

namespace Ducq

open CMemory CPrintf Effect Lua Logged

/-! ## The native commands -/

/-- The files of `src/commands`. -/
inductive NativeCommand where
  | ping | pong | epoch | listSubscriptions | lsconn | pub | publish | sub | subscribe | time
  | unsub
  deriving DecidableEq

namespace NativeCommand

/-- `command.name`. -/
def name : NativeCommand → List Byte
  | ping => ascii "PING"
  | pong => ascii "PONG"
  | epoch => ascii "epoch"
  | listSubscriptions => ascii "list_subscriptions"
  | lsconn => ascii "lsconn"
  | pub => ascii "pub"
  | publish => ascii "publish"
  | sub => ascii "sub"
  | subscribe => ascii "subscribe"
  | time => ascii "time"
  | unsub => ascii "unsub"

/-- `command.doc`. -/
def doc : NativeCommand → List Byte
  | ping => ascii "Reply with a PONG command with unchanged payload."
  | pong => ascii "Trap PONG command."
  | epoch => ascii "Reply with current time in epoch format"
  | listSubscriptions => ascii "list all current subscriptions as csv: <id>,<route>\\n."
  | lsconn => ascii "list all current connections as csv: <id>,<route>\\n."
  | pub | publish => ascii "publish a message to a queue."
  | sub | subscribe =>
    ascii "subscribe to a message queue. " ++
      ascii "send 'last' as payload to received last published message " ++
      ascii "on this route (if any)."
  | time => ascii "Reply with current time in YYYY-MM-DDTHH:MM:SS format"
  | unsub => ascii "close a client's connection. set payload as id to unsubscribe."

/-- `command.exec`. -/
def exec (env : CommandEnv) : NativeCommand → DucqI → List Byte → ℕ → Logged → DucqState × Logged
  | ping => Logged.ping env
  | pong => Logged.pong env
  | epoch => Logged.epoch env
  | listSubscriptions => Logged.listSubscriptions env
  | lsconn => Logged.lsconn env
  | pub => Logged.pubCommand env.toEnv (ascii "pub")
  | publish => Logged.pubCommand env.toEnv (ascii "publish")
  | sub => fun d buffer _ => Logged.subCommand env.toEnv (ascii "sub") d buffer
  | subscribe => fun d buffer _ => Logged.subCommand env.toEnv (ascii "subscribe") d buffer
  | time => Logged.gettime env
  | unsub => fun d buffer _ => Logged.unsub env.toEnv d buffer

/-- `command`. -/
def command (env : CommandEnv) (cmd : NativeCommand) : DucqCmd := ⟨cmd.name, cmd.doc, cmd.exec env⟩

/-- The files in order. -/
def all : List NativeCommand :=
  [ping, pong, epoch, listSubscriptions, lsconn, pub, publish, sub, subscribe, time, unsub]

theorem mem_all (cmd : NativeCommand) : cmd ∈ all := by
  cases cmd <;> decide

/-- No two files have a name in common. -/
theorem name_injective : Function.Injective name := fun cmd cmd' =>
  List.inj_on_of_nodup_map (by decide : (all.map name).Nodup) (mem_all cmd) (mem_all cmd')

/-- `lscmd` and `help` are no names of files. -/
theorem not_isListing_name (cmd : NativeCommand) : ¬ IsListing cmd.name := by
  cases cmd <;> decide

end NativeCommand

variable {σ α : Type} {rt : Runtime (σ × World)} {env : CommandEnv} {cmds : List DucqCmd}
  {d : DucqI}

/-- What a native command logs fits, unless it is `PING` or `PONG`. -/
theorem logs_exec_iff (cmd : NativeCommand) (msg : List Byte) (size : ℕ) (s : Logged) :
    Logs LogCall.Fits s (cmd.exec env d msg size s).2 ↔
      (cmd = .ping ∨ cmd = .pong → QuietPayload msg) := by
  cases cmd with
  | ping => exact (logs_ping_iff msg size s).trans (by simp)
  | pong => exact (logs_pong_iff msg size s).trans (by simp)
  | epoch => exact iff_of_true (logs_epoch msg size s) (by simp)
  | listSubscriptions => exact iff_of_true (logs_listSubscriptions msg size s) (by simp)
  | lsconn => exact iff_of_true (logs_lsconn msg size s) (by simp)
  | pub => exact iff_of_true (logs_pubCommand msg size s) (by simp)
  | publish => exact iff_of_true (logs_pubCommand msg size s) (by simp)
  | sub => exact iff_of_true (logs_subCommand msg s) (by simp)
  | subscribe => exact iff_of_true (logs_subCommand msg s) (by simp)
  | time => exact iff_of_true (logs_gettime msg size s) (by simp)
  | unsub => exact iff_of_true (logs_unsub msg s) (by simp)

/-! ## What the dispatcher logs -/

/-- The log calls from one server to another fit. -/
def LogsFit (s t : Server σ) : Prop := Logs LogCall.Fits s.logged t.logged

instance : IsPreorder (Server σ) LogsFit where
  refl s := Logs.refl s.logged
  trans _ _ _ := Logs.trans

/-- What Lua does, it does beside the log calls. -/
theorem logsFit_of_sameBeside {p : Prog (Server σ) α} (h : Stays SameBeside p) :
    Stays LogsFit p := h.mono fun _ _ hst => Logs.of_eq hst

theorem stays_act (f : Logged → World → α × World) :
    Stays (LogsFit (σ := σ)) (reactor fun s => s.act (f s)) := fun _ => Logs.of_eq rfl

/-- A log call with a constant format. -/
theorem stays_logs (level : DucqLogLevel) (functionName : List Byte) {f : List Byte}
    {args : List Arg} (hf : specs f = some (args.map Arg.kind)) :
    Stays (LogsFit (σ := σ)) (logs env d level functionName f args) := fun s =>
  (Logs.refl s.logged).fits env.toEnv d level functionName hf

theorem stays_unknown (buffer : List Byte) : Stays (LogsFit (σ := σ)) (unknown env d buffer) :=
  (stays_logs _ _ rfl).bind fun _ => (stays_act _).bind fun _ => Stays.pure _

theorem stays_ducqPushDucq : Stays LogsFit (ducqPushDucq rt d) :=
  logsFit_of_sameBeside ((stays_newuserdata _).bind fun _ =>
    (stays_getmetatable _).bind fun _ => stays_setmetatable _)

theorem stays_ducqPushMsg (msg : DucqMsg) : Stays LogsFit (ducqPushMsg rt msg) :=
  logsFit_of_sameBeside (stays_createtable.bind fun _ =>
    (stays_push _).bind fun _ => (stays_setfield _ _).bind fun _ =>
    (stays_push _).bind fun _ => (stays_setfield _ _).bind fun _ =>
    (stays_push _).bind fun _ => (stays_setfield _ _).bind fun _ =>
    (stays_getmetatable _).bind fun _ => stays_setmetatable _)

theorem stays_luaState (msg : DucqMsg) (ok : Bool) :
    Stays LogsFit (luaState rt env d msg ok) := by
  refine Stays.ite (fun _ => ?_) fun _ => ?_
  · refine (logsFit_of_sameBeside (stays_integer 1)).bind fun i => ?_
    cases i with
    | none => exact (stays_logs _ _ rfl).bind fun _ => Stays.pure _
    | some i => exact Stays.pure _
  · refine (logsFit_of_sameBeside (stays_tostring 1)).bind fun text => ?_
    exact (stays_logs _ _ rfl).bind fun _ => Stays.pure _

theorem stays_luaCommand (buffer : List Byte) : Stays LogsFit (luaCommand rt env d buffer) :=
  (stays_logs _ _ rfl).bind fun _ => stays_ducqPushDucq.bind fun _ =>
    (stays_ducqPushMsg _).bind fun _ =>
    (logsFit_of_sameBeside (stays_pcall 2 1)).bind fun _ => (stays_luaState _ _).bind fun _ =>
    (logsFit_of_sameBeside (stays_pop 1)).bind fun _ => Stays.pure _

theorem stays_findLuaCommand (name : List Byte) : Stays LogsFit (findLuaCommand rt name) :=
  logsFit_of_sameBeside ((stays_getglobal _).bind fun _ =>
    Stays.ite (fun _ => Stays.pure _) fun _ => (stays_push _).bind fun _ =>
    (stays_gettable 2).bind fun _ =>
    Stays.ite (fun _ => Stays.pure _) fun _ => (stays_push _).bind fun _ =>
    (stays_gettable 2).bind fun _ => Stays.ite (fun _ => Stays.pure _) fun _ => Stays.pure _)

theorem stays_lscmdScript (kind : Kind) : Stays LogsFit (lscmdScript rt env d kind) :=
  Stays.ite (fun _ => (logsFit_of_sameBeside (stays_tostring 3)).bind fun _ =>
    (logsFit_of_sameBeside (stays_tostring 1)).bind fun _ => stays_act _) fun _ => Stays.pure _

theorem stays_lscmdDoc : Stays LogsFit (lscmdDoc rt env d) :=
  (logsFit_of_sameBeside (stays_getfield 1 _)).bind fun kind =>
    (stays_lscmdScript kind).bind fun _ => Stays.ite (fun _ => Stays.pure _) fun _ =>
      (logsFit_of_sameBeside (stays_pop 1)).bind fun _ => Stays.pure _

theorem stays_lscmdEntry : Stays LogsFit (lscmdEntry rt env d) :=
  (logsFit_of_sameBeside (stays_isstring 2)).bind fun _ =>
    (logsFit_of_sameBeside (stays_istable 1)).bind fun _ =>
      Stays.ite (fun _ => stays_lscmdDoc) fun _ => Stays.pure _

/-- The traversal, for as long as it is followed. -/
theorem stays_lscmdScripts (fuel : ℕ) : Stays LogsFit (lscmdScripts rt env d fuel) := by
  induction fuel with
  | zero => exact fun s => Logs.refl s.logged
  | succ fuel ih =>
    refine (logsFit_of_sameBeside (stays_next 2)).bind fun more => ?_
    refine Stays.ite (fun _ => ?_) fun _ => Stays.pure _
    refine stays_lscmdEntry.bind fun state => ?_
    refine Stays.ite (fun _ => Stays.pure _) fun _ => ?_
    exact (logsFit_of_sameBeside (stays_pop 1)).bind fun _ => ih

theorem stays_lscmdEnd : Stays (LogsFit (σ := σ)) (lscmdEnd env d) :=
  (stays_act _).bind fun _ => Stays.pure _

theorem stays_lscmd (fuel : ℕ) : Stays LogsFit (lscmd rt env cmds d fuel) := by
  refine Stays.bind (fun s => ?_) fun state => Stays.ite (fun _ => Stays.pure _) fun _ => ?_
  · have hlog := @Logs.fits _ _ (Logs.refl s.logged) env.toEnv d .info (ascii "lscmd") [] [] rfl
    exact (hlog.act _).act _
  · refine (logsFit_of_sameBeside (stays_getglobal _)).bind fun kind => ?_
    refine Stays.ite (fun _ => stays_lscmdEnd) fun _ => ?_
    refine (logsFit_of_sameBeside (stays_push _)).bind fun _ => ?_
    refine (stays_lscmdScripts fuel).bind fun state => ?_
    exact Stays.ite (fun _ => Stays.pure _) fun _ => stays_lscmdEnd

/-! ## What a dispatch logs -/

/-- The payload of the message, if it goes to `PING` or `PONG`, is a format without
conversions. -/
def FormatSafe (loaded : List NativeCommand) (msg : List Byte) : Prop :=
  ∀ cmd ∈ loaded, commandName msg = some cmd.name → cmd = .ping ∨ cmd = .pong → QuietPayload msg

/-- The native command a name finds is the file of that name. -/
theorem findNative_eq_some {loaded : List NativeCommand} {name : List Byte} {cmd : DucqCmd}
    (h : findNative (loaded.map (NativeCommand.command env)) name = some cmd) :
    ∃ native ∈ loaded, cmd = native.command env ∧ name = native.name := by
  obtain ⟨native, hnative, rfl⟩ := List.mem_map.mp (List.mem_of_find?_eq_some h)
  have hname : name = (native.command env).name := by simpa using List.find?_some h
  exact ⟨native, hnative, rfl, hname⟩

/-- A name that finds no native command is the name of no file loaded. -/
theorem findNative_eq_none {loaded : List NativeCommand} {name : List Byte}
    (h : findNative (loaded.map (NativeCommand.command env)) name = none) :
    ∀ native ∈ loaded, name ≠ native.name := by
  intro native hnative hname
  have hnot := List.find?_eq_none.mp h _ (List.mem_map_of_mem hnative)
  exact hnot (decide_eq_true hname)

/-- **Client text as a format.**  Every call of `ducq_reactor_log` that a dispatch makes
has a format that is there and is exactly matched by its arguments, if and only if the
message is not one for `PING` or `PONG` whose payload is missing or holds a conversion. -/
theorem ducqDispatch_logs_iff (rt : Runtime (σ × World)) (env : CommandEnv)
    (loaded : List NativeCommand) (d : DucqI) (fuel : ℕ) (msg : List Byte) (size : ℕ)
    (s : Server σ) :
    Logs LogCall.Fits s.logged (ducqDispatch rt env (loaded.map (NativeCommand.command env)) d
      fuel msg size s).2.logged ↔ FormatSafe loaded msg := by
  cases hname : commandName msg with
  | none =>
    rw [ducqDispatch_of_pure (findCommand_eq_none hname)]
    refine iff_of_true (stays_unknown msg s) fun cmd _ hcmd => ?_
    exact absurd (hname.symm.trans hcmd) (Option.some_ne_none _).symm
  | some name =>
    by_cases hlist : IsListing name
    · rw [ducqDispatch_of_pure (findCommand_listing hname hlist)]
      refine iff_of_true (stays_lscmd fuel s) fun cmd _ hcmd => ?_
      rw [hname] at hcmd
      exact absurd (Option.some.inj hcmd ▸ hlist) cmd.not_isListing_name
    · have hfind := @findCommand_of_not_listing σ rt (loaded.map (NativeCommand.command env))
        msg name hname hlist
      cases hnative : findNative (loaded.map (NativeCommand.command env)) name with
      | none =>
        rw [hnative] at hfind
        have hstays : Stays LogsFit (ducqDispatch rt env
            (loaded.map (NativeCommand.command env)) d fuel msg size) := by
          rw [ducqDispatch, hfind]
          refine (stays_findLuaCommand name).bind_of fun s command t h => ?_
          obtain ⟨-, -, ⟨rfl, -⟩ | ⟨rfl, -⟩⟩ := effect_findLuaCommand name s command t h
          · exact stays_unknown msg
          · exact stays_luaCommand msg
        refine iff_of_true (hstays s) fun cmd hcmd hcmdname => ?_
        rw [hname] at hcmdname
        exact absurd (Option.some.inj hcmdname) (findNative_eq_none hnative cmd hcmd)
      | some cmd =>
        rw [hnative] at hfind
        obtain ⟨native, hmem, rfl, rfl⟩ := findNative_eq_some hnative
        rw [ducqDispatch_of_pure hfind]
        refine (logs_exec_iff native msg size s.logged).trans ⟨fun h cmd _ hcmd => ?_, fun h => ?_⟩
        · rw [hname] at hcmd
          rwa [← NativeCommand.name_injective (Option.some.inj hcmd)]
        · exact h native hmem hname

/-- **A ping with a conversion in its payload, and one without a payload.** -/
theorem not_logs_fit_ping :
    ¬ Logs LogCall.Fits newServer.logged (ducqDispatch newLua CommandEnv.quiet
      [NativeCommand.ping.command CommandEnv.quiet] 100 0 (ascii "PING *\n%s") 9
      newServer).2.logged ∧
    ¬ Logs LogCall.Fits newServer.logged (ducqDispatch newLua CommandEnv.quiet
      [NativeCommand.ping.command CommandEnv.quiet] 100 0 (ascii "PING *") 6
      newServer).2.logged := by
  have hping : ∀ msg, commandName msg = some (ascii "PING") → ∀ size,
      (ducqDispatch newLua CommandEnv.quiet [NativeCommand.ping.command CommandEnv.quiet] 100 0
        msg size newServer).2.logged =
      (Logged.ping CommandEnv.quiet 100 msg size newServer.logged).2 := by
    intro msg hname size
    rw [ducqDispatch_of_pure (findCommand_of_not_listing hname (by decide))]
    rfl
  refine ⟨?_, ?_⟩
  · rw [hping _ (by decide), logs_ping_iff]
    rintro ⟨payload, hpayload, hpaired⟩
    have hparse : ducqParsePayload (ascii "PING *\n%s") = some (ascii "%s") := by decide
    rw [← Option.some.inj (hparse.symm.trans hpayload)] at hpaired
    exact absurd hpaired (by decide)
  · rw [hping _ (by decide), logs_ping_iff]
    rintro ⟨payload, hpayload, -⟩
    exact absurd hpayload.symm (Option.some_ne_none payload)

end Ducq
