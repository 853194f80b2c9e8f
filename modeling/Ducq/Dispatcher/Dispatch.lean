import Ducq.Commands.Reply
import Ducq.Lib.LuaStack

/-!
# `ducq_dispatcher.c`: finding a command and running it

A message names its command before the first space.  `lscmd` and `help` come first, then
the native commands in the order they were loaded, then the Lua table `commands`; whatever
is none of these is answered by `unknown`.

The lookup and the commands of this file work on the Lua stack, and a native command does
not reach it, so a `Server` is a Lua state whose outside is everything else: what the
scripts can reach, the world among it, and beside that the log calls, which they cannot.
A native command acts on the world and the log calls.  With no command loaded yet the
source counts `-1` of them, which no loop tells from none.

The functions follow the source line by line, every push and pop included.  The traversal
of `commands` in `lscmd` is given fuel, since a script can make it run forever: with more
fuel it returns the same, if it returned at all (`ducqDispatch_mono`).
-/

namespace Ducq

open CMemory CNumber CPrintf Effect Lua

/-- `struct ducq_cmd_t`. -/
structure DucqCmd where
  name : List Byte
  doc : List Byte
  exec : DucqI → List Byte → ℕ → Logged → DucqState × Logged

/-- The Lua state, with the world and the log calls outside its stack. -/
abbrev Server (σ : Type) := Lua.State ((σ × World) × List LogCall)

/-- The world and its log calls. -/
def Server.logged {σ : Type} (s : Server σ) : Logged := ⟨s.outside.1.2, s.outside.2⟩

/-- The world and its log calls changed. -/
def Server.withLogged {σ : Type} (s : Server σ) (t : Logged) : Server σ :=
  ⟨s.stack, ((s.outside.1.1, t.world), t.logs)⟩

@[simp] theorem Server.logged_withLogged {σ : Type} (s : Server σ) (t : Logged) :
    (s.withLogged t).logged = t := rfl

@[simp] theorem Server.height_withLogged {σ : Type} (s : Server σ) (t : Logged) :
    (s.withLogged t).height = s.height := rfl

/-- What `_find_command` finds. -/
inductive Command where
  | unknown
  | luaCommand
  | lscmd
  | native (cmd : DucqCmd)

section

variable {σ α : Type}

/-- An operation of the reactor or of a client. -/
def reactor (f : Logged → α × Logged) : Prog (Server σ) α :=
  outside fun o =>
    match f ⟨o.1.2, o.2⟩ with
    | (a, s) => some (a, ((o.1.1, s.world), s.logs))

theorem reactor_apply (f : Logged → α × Logged) (s : Server σ) :
    reactor f s = (some (f s.logged).1, s.withLogged (f s.logged).2) := rfl

/-- A call of `ducq_log`. -/
def logs (env : CommandEnv) (d : DucqI) (level : DucqLogLevel) (functionName fmt : List Byte)
    (args : List Arg) : Prog (Server σ) Unit :=
  reactor fun s => ((), s.ducqLog env.toEnv d level functionName (some fmt) args)

/-- `DUCQ_METATABLE`. -/
def ducqMetatable : List Byte := ascii "Ducq.Ducq"

/-- `DUCQ_MSG_METATABLE`. -/
def ducqMsgMetatable : List Byte := ascii "Ducq.Msg"

variable (rt : Runtime (σ × World)) (env : CommandEnv) (cmds : List DucqCmd) (d : DucqI)

/-- Lua, beside the log calls. -/
abbrev lua : Runtime ((σ × World) × List LogCall) := rt.beside (List LogCall)

/-! ## What is run -/

/-- `unknown`. -/
def unknown (buffer : List Byte) : Prog (Server σ) ℤ := do
  let msg := ducqParseMsg buffer
  logs env d .warning (ascii "unknown") (ascii "%s,%s") [.str msg.command, .str msg.route]
  let _ ← reactor fun s => s.act (ducqSendAck env.toEnv d .enocmd)
  return DucqState.enocmd.code

/-- `ducq_push_ducq`. -/
def ducqPushDucq : Prog (Server σ) Unit := do
  newuserdata (lua rt) d
  getmetatable (lua rt) ducqMetatable
  setmetatable (lua rt) 2

/-- `ducq_push_msg`. -/
def ducqPushMsg (msg : DucqMsg) : Prog (Server σ) Unit := do
  createtable (lua rt)
  pushstring msg.command
  setfield (lua rt) 2 (ascii "command")
  pushstring msg.route
  setfield (lua rt) 2 (ascii "route")
  pushstring msg.payload
  setfield (lua rt) 2 (ascii "payload")
  getmetatable (lua rt) ducqMsgMetatable
  setmetatable (lua rt) 2

/-- What `lua_command` makes of the end of its call. -/
def luaState (msg : DucqMsg) (ok : Bool) : Prog (Server σ) ℤ :=
  if ok then do
    match ← integer 1 with
    | some i => return wrap32 i
    | none => do
      logs env d .error (ascii "lua_command") (ascii "'%s' did not returned a state")
        [.str msg.command]
      return DucqState.elua.code
  else do
    let text ← tostring (lua rt) 1
    logs env d .error (ascii "lua_command") (ascii "'%s': %s") [.str msg.command, .str text]
    return DucqState.elua.code

/-- `lua_command`.  The function is on top of the stack. -/
def luaCommand (buffer : List Byte) : Prog (Server σ) ℤ := do
  let msg := ducqParseMsg buffer
  logs env d .info (ascii "lua_command") (ascii "runnning command '%s'") [.str msg.command]
  ducqPushDucq rt d
  ducqPushMsg rt msg
  let ok ← pcall (lua rt) 2 1
  let state ← luaState rt env d msg ok
  pop 1
  return state

/-! ## `lscmd` -/

/-- The first line of the listing. -/
def lscmdHeader : List Byte :=
  ascii "\"lscmd\",\"list all loaded commands as csv: <name>,<doc>\"\n"

/-- The line of a command. -/
def commandLine (name doc : Option (List Byte)) : List Byte :=
  ascii "\"" ++ strText name ++ ascii "\",\"" ++ strText doc ++ ascii "\"\n"

/-- Sends, up to the first that fails. -/
def lscmdSends : List (List Byte) → World → DucqState × World
  | [], w => (.ok, w)
  | line :: lines, w =>
    match ducqSend env.toEnv d line w with
    | (state, w) => if state ≠ .ok then (state, w) else lscmdSends lines w

/-- What `lscmd` sends before it looks at the scripts. -/
def lscmdLines : List (List Byte) :=
  lscmdHeader :: cmds.map fun cmd =>
    formatted env.toEnv ducqMsgsz (commandLine (some cmd.name) (some cmd.doc))

/-- `lscmd` up to its own first line. -/
def lscmdStart (s : Logged) : Logged :=
  ((s.ducqLog env.toEnv d .info (ascii "lscmd") (some []) []).act (ducqParts env d)).2

/-- The line of a script, if its `doc`, on top of the stack, is a string. -/
def lscmdScript (kind : Kind) : Prog (Server σ) DucqState :=
  if kind = .string then do
    let name ← tostring (lua rt) 3
    let doc ← tostring (lua rt) 1
    reactor fun s => s.act
      (ducqSend env.toEnv d (formatted env.toEnv ducqMsgsz (commandLine name doc)))
  else return .ok

/-- An entry of `commands` that is a table under a string; `doc` stays on the stack if
the line cannot be sent. -/
def lscmdDoc : Prog (Server σ) DucqState := do
  let kind ← getfield (lua rt) 1 (ascii "doc")
  let state ← lscmdScript rt env d kind
  if state ≠ .ok then return state
  else do
    pop 1
    return .ok

/-- An entry of `commands`. -/
def lscmdEntry : Prog (Server σ) DucqState := do
  let isString ← isstring 2
  let isTable ← istable 1
  if isString && isTable then lscmdDoc rt env d else return .ok

/-- The traversal: how it ended. -/
def lscmdScripts : ℕ → Prog (Server σ) DucqState
  | 0 => fun s => (none, s)
  | fuel + 1 => do
    let more ← next (lua rt) 2
    if more then do
      let state ← lscmdEntry rt env d
      if state ≠ .ok then return state
      else do
        pop 1
        lscmdScripts fuel
    else return .ok

/-- `ducq_end`, as a command returns it. -/
def lscmdEnd : Prog (Server σ) ℤ := do
  let state ← reactor fun s => s.act (ducqEnd env d)
  return state.code

/-- The part of `lscmd` that works on the stack. -/
def lscmdLua (fuel : ℕ) : Prog (Server σ) ℤ := do
  let kind ← getglobal (lua rt) (ascii "commands")
  if kind ≠ .table then lscmdEnd env d
  else do
    pushnil
    let state ← lscmdScripts rt env d fuel
    if state ≠ .ok then return state.code else lscmdEnd env d

/-- `lscmd`. -/
def lscmd (fuel : ℕ) : Prog (Server σ) ℤ := do
  let state ← reactor fun s => (lscmdStart env d s).act (lscmdSends env d (lscmdLines env cmds))
  if state ≠ .ok then return state.code else lscmdLua rt env d fuel

/-! ## Dispatch -/

/-- `_find_lua_command`. -/
def findLuaCommand (name : List Byte) : Prog (Server σ) Command := do
  let commands ← getglobal (lua rt) (ascii "commands")
  if commands ≠ .table then return .unknown
  else do
    pushstring (some name)
    let command ← gettable (lua rt) 2
    if command ≠ .table then return .unknown
    else do
      pushstring (some (ascii "exec"))
      let exec ← gettable (lua rt) 2
      if exec ≠ .function then return .unknown else return .luaCommand

/-- The name a message asks for: the string before the first space, where `_find_command`
writes a NUL for as long as it compares. -/
def commandName (msg : List Byte) : Option (List Byte) :=
  match ducqParseCommand msg with
  | (some name, some end_) => some (cstr (name.take (name.length - end_.length)))
  | _ => none

/-- The native command of a name. -/
def findNative (name : List Byte) : Option DucqCmd := cmds.find? fun cmd => name = cmd.name

/-- The name is one of those `lscmd` answers to. -/
def IsListing (name : List Byte) : Prop := name = ascii "lscmd" ∨ name = ascii "help"

instance (name : List Byte) : Decidable (IsListing name) :=
  inferInstanceAs (Decidable (_ ∨ _))

/-- `_find_command`. -/
def findCommand (msg : List Byte) : Prog (Server σ) Command :=
  match commandName msg with
  | none => return .unknown
  | some name =>
    if IsListing name then return .lscmd
    else match findNative cmds name with
      | some cmd => return .native cmd
      | none => findLuaCommand rt name

/-- A command called. -/
def runCommand (fuel : ℕ) (msg : List Byte) (size : ℕ) : Command → Prog (Server σ) ℤ
  | .unknown => unknown env d msg
  | .luaCommand => luaCommand rt env d msg
  | .lscmd => lscmd rt env cmds d fuel
  | .native cmd => do
    let state ← reactor (cmd.exec d msg size)
    return state.code

/-- `ducq_dispatch`. -/
def ducqDispatch (fuel : ℕ) (msg : List Byte) (size : ℕ) : Prog (Server σ) ℤ := do
  let command ← findCommand rt cmds msg
  runCommand rt env cmds d fuel msg size command

/-! ## What is found without the stack -/

variable {rt env cmds d}

theorem findCommand_eq_none {msg : List Byte} (h : commandName msg = none) :
    (findCommand rt cmds msg : Prog (Server σ) Command) = pure .unknown := by
  rw [findCommand, h]

theorem findCommand_listing {msg name : List Byte} (h : commandName msg = some name)
    (hname : IsListing name) :
    (findCommand rt cmds msg : Prog (Server σ) Command) = pure .lscmd := by
  rw [findCommand, h]
  exact if_pos hname

theorem findCommand_of_not_listing {msg name : List Byte} (h : commandName msg = some name)
    (hname : ¬ IsListing name) :
    (findCommand rt cmds msg : Prog (Server σ) Command) =
      match findNative cmds name with
      | some cmd => pure (.native cmd)
      | none => findLuaCommand rt name := by
  rw [findCommand, h]
  exact if_neg hname

/-- A command that has been found without the stack. -/
theorem ducqDispatch_of_pure {msg : List Byte} {command : Command}
    (h : (findCommand rt cmds msg : Prog (Server σ) Command) = pure command) (fuel size : ℕ) :
    ducqDispatch rt env cmds d fuel msg size =
      runCommand rt env cmds d fuel msg size command := by
  rw [ducqDispatch, h]
  rfl

/-! ## More fuel -/

theorem lscmdScripts_mono {fuel fuel' : ℕ} (hle : fuel ≤ fuel') {s t : Server σ}
    {a : DucqState} (h : lscmdScripts rt env d fuel s = (some a, t)) :
    lscmdScripts rt env d fuel' s = (some a, t) := by
  induction fuel generalizing fuel' s with
  | zero => exact absurd (Prod.mk.inj h).1.symm (Option.some_ne_none a)
  | succ fuel ih =>
    obtain ⟨fuel', rfl⟩ := Nat.exists_eq_add_of_lt (Nat.lt_of_succ_le hle)
    obtain ⟨more, r, hmore, h⟩ := bind_eq_some.mp h
    refine bind_eq_some.mpr ⟨more, r, hmore, ?_⟩
    cases more with
    | false => exact h
    | true =>
      obtain ⟨state, r', hstate, h⟩ := bind_eq_some.mp h
      refine bind_eq_some.mpr ⟨state, r', hstate, ?_⟩
      split_ifs at h ⊢
      · exact h
      · obtain ⟨u, r'', hpop, h⟩ := bind_eq_some.mp h
        exact bind_eq_some.mpr ⟨u, r'', hpop, ih (by omega) h⟩

/-- **With more fuel a dispatch returns the same**, if it returned at all. -/
theorem ducqDispatch_mono {fuel fuel' : ℕ} (hle : fuel ≤ fuel') {msg : List Byte} {size : ℕ}
    {s t : Server σ} {a : ℤ} (h : ducqDispatch rt env cmds d fuel msg size s = (some a, t)) :
    ducqDispatch rt env cmds d fuel' msg size s = (some a, t) := by
  obtain ⟨command, r, hcommand, h⟩ := bind_eq_some.mp h
  refine bind_eq_some.mpr ⟨command, r, hcommand, ?_⟩
  cases command with
  | unknown => exact h
  | luaCommand => exact h
  | native cmd => exact h
  | lscmd =>
    obtain ⟨state, r', hstate, h⟩ := bind_eq_some.mp h
    refine bind_eq_some.mpr ⟨state, r', hstate, ?_⟩
    split_ifs at h ⊢
    · exact h
    · obtain ⟨kind, q, hkind, h⟩ := bind_eq_some.mp h
      refine bind_eq_some.mpr ⟨kind, q, hkind, ?_⟩
      split_ifs at h ⊢
      · exact h
      · obtain ⟨u, q', hpush, h⟩ := bind_eq_some.mp h
        obtain ⟨state, q'', hscripts, h⟩ := bind_eq_some.mp h
        exact bind_eq_some.mpr ⟨u, q', hpush, bind_eq_some.mpr
          ⟨state, q'', lscmdScripts_mono hle hscripts, h⟩⟩

end

end Ducq
