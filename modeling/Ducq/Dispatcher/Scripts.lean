import Ducq.Dispatcher.Load
import Ducq.Lib.Records

/-!
# `ducq_dispatcher.c`: the Lua scripts

A path that is added is watched, and the scripts it stands for are loaded: the file itself,
or the entries of the directory that end in `.lua`.  When something changes, the system says
which watch it was and, for a directory, which entry, and what is loaded is the path that
was added with the entry's name behind it.  The watches that were added are in a table of
ten, a row being free when its descriptor is `-1`.

The events of one read lie one behind the other in one buffer.  The name of an entry is a
string in it, read from behind the fields of its event to the first NUL.  An event without a
name has nothing there, and what is read is the event behind it.

A read behind the buffer has no value.  Beside the state the functions keep what a statement
is about: the paths `_load_lua` is called for, and the files that are given to Lua.
-/

namespace Ducq

open CMemory CNumber CPrintf CPath Records

/-- `MAX_EXTENSIONS`. -/
abbrev maxExtensions : ℕ := 10

/-- `NOTIFY_BUFFER_SIZE`: the fields of an event, the longest name and its NUL. -/
abbrev notifyBufferSize : ℕ := 16 + 255 + 1

/-- `".lua"`. -/
def luaSuffix : List Byte := ascii ".lua"

/-- What `stat` says a file is. -/
inductive FileType where
  | regular
  | directory
  | other
  deriving DecidableEq

/-- What the system and Lua answer.  `load` is `luaL_loadfile` and `lua_pcall`: it fails with
the text on the stack, which is NULL if the error is no string.  A path that can be watched
is not empty and fits `PATH_MAX`, and a watch is not `-1`. -/
structure Host (σ : Type) where
  stat : Pathname → Except (List Byte) FileType
  opendir : Pathname → Option (List FileName)
  closedir : Pathname → Bool
  inotifyAddWatch : List Byte → Except (List Byte) Int32
  load : Pathname → σ × World → Except (Option (List Byte)) Unit × (σ × World)
  watchable : ∀ {path wd}, inotifyAddWatch path = .ok wd →
    path ≠ [] ∧ path.length < pathMax ∧ wd ≠ -1

/-- A row of the table. -/
structure Extension where
  wd : Int32
  path : List Byte
  length_lt : path.length < pathMax

/-- `extensions`. -/
abbrev Extensions := Fin maxExtensions → Extension

/-- The row the source finds for a descriptor. -/
def Extensions.find (exts : Extensions) (wd : Int32) : Option (Fin maxExtensions) :=
  (List.finRange maxExtensions).find? fun i => (exts i).wd = wd

/-- What the scripts can reach, and the log calls; beside them the paths `_load_lua` was
called for and the files that were given to Lua. -/
structure Scripting (σ : Type) where
  scripts : σ
  logged : Logged
  attempts : List (List Byte)
  ran : List Pathname

section

variable {σ : Type} (env : Env) (host : Host σ)

/-- A call of `log`, in the function `functionName`. -/
def Scripting.log (level : DucqLogLevel) (functionName fmt : List Byte) (args : List Arg)
    (st : Scripting σ) : Scripting σ :=
  { st with
    logged := st.logged.ducqReactorLog env level functionName (some (ascii "dispatcher"))
      (some fmt) args }

/-! ## Loading -/

/-- `_is_dir`. -/
def isDir (path : List Byte) : ℤ :=
  match host.stat (pathname path) with
  | .error _ => -1
  | .ok type => if type = .directory then 1 else 0

/-- `_load_lua_file`. -/
def loadLuaFile (path : List Byte) (st : Scripting σ) : DucqState × Scripting σ :=
  let st := st.log env .info (ascii "_load_lua_file") (ascii "loading '%s'") [.str (some path)]
  let (result, scripts, world) := host.load (pathname path) (st.scripts, st.logged.world)
  let st := ⟨scripts, ⟨world, st.logged.logs⟩, st.attempts, st.ran ++ [pathname path]⟩
  match result with
  | .ok _ => (.ok, st)
  | .error text => (.elua, st.log env .error (ascii "_load_lua_file") (ascii "%s") [.str text])

/-- The entries of a directory that are loaded. -/
def isScript (name : FileName) : Bool := name.hasExtension luaSuffix

/-- The loop of `_load_lua`; it ends at the first script that fails. -/
def loadLuaEntries (path : List Byte) :
    List FileName → Scripting σ → DucqState × Scripting σ
  | [], st => (.ok, st)
  | name :: names, st =>
    if isScript name then
      let (state, st) := loadLuaFile env host (entryPath path name) st
      if state = .ok then loadLuaEntries path names st else (state, st)
    else loadLuaEntries path names st

/-- `_load_lua`. -/
def loadLua (path : List Byte) (st : Scripting σ) : DucqState × Scripting σ :=
  let st := { st with attempts := st.attempts ++ [path] }
  match host.stat (pathname path) with
  | .error text =>
    (.efile, st.log env .error (ascii "_load_lua") (ascii "stat() failed: %s") [.str (some text)])
  | .ok type =>
    if type = .regular then loadLuaFile env host path st
    else
      let st := st.log env .info (ascii "_load_lua") (ascii "loading '%s'") [.str (some path)]
      match host.opendir (pathname path) with
      | none => (.efile, st)
      | some listing =>
        let (state, st) := loadLuaEntries env host path listing st
        (if state = .ok ∧ host.closedir (pathname path) = false then .efile else state, st)

/-! ## Adding -/

/-- What stands in the table for a path: a directory gets a slash, if there is room. -/
def extensionPath (path : List Byte) : List Byte :=
  if path.length + 2 < pathMax ∧ isDir host path = 1 ∧ path.getLast? ≠ some slash then
    path ++ [slash]
  else path

theorem length_extensionPath_lt {path : List Byte} (h : path.length < pathMax) :
    (extensionPath host path).length < pathMax := by
  rw [extensionPath]
  split_ifs with hroom
  · rw [List.length_append, List.length_singleton]
    omega
  · exact h

/-- The row `ducq_dispatcher_add` writes. -/
def Extension.of {path : List Byte} {wd : Int32} (h : host.inotifyAddWatch path = .ok wd) :
    Extension :=
  ⟨wd, extensionPath host path, length_extensionPath_lt host (host.watchable h).2.1⟩

/-- `ducq_dispatcher_add`. -/
def ducqDispatcherAdd (path : List Byte) (exts : Extensions) (st : Scripting σ) :
    DucqState × Extensions × Scripting σ :=
  let st := st.log env .info (ascii "ducq_dispatcher_add") (ascii "request to add '%s'")
    [.str (some path)]
  match exts.find (-1) with
  | none => (.emax, exts, st)
  | some i =>
    match hwatch : host.inotifyAddWatch path with
    | .error text =>
      (.efile, exts, st.log env .error (ascii "ducq_dispatcher_add")
        (ascii "inotify_add_watch() failed: %s") [.str (some text)])
    | .ok _ =>
      let ext := Extension.of host hwatch
      let st := st.log env .info (ascii "ducq_dispatcher_add") (ascii "adding '%s' (%s)")
        [.str (some ext.path), .str (some
          (if isDir host ext.path ≠ 0 then ascii "dir" else ascii "file"))]
      let (state, st) := loadLua env host ext.path st
      (state, Function.update exts i ext, st)

/-! ## Notifications -/

/-- `struct inotify_event`, with the name of the entry, if there is one, and the number of
NULs that stand behind its terminator. -/
structure InotifyEvent where
  wd : Int32
  mask : UInt32
  cookie : UInt32
  entry : Option (FileName × ℕ)

namespace InotifyEvent

/-- The name; nothing if there is none. -/
def name (e : InotifyEvent) : List Byte :=
  match e.entry with
  | none => []
  | some (name, _) => name.bytes

/-- The bytes behind the fields. -/
def nameField (e : InotifyEvent) : List Byte :=
  match e.entry with
  | none => []
  | some (name, more) => name.bytes ++ 0 :: List.replicate more 0

/-- An event as it lies in memory. -/
def encode (e : InotifyEvent) : List Byte :=
  toLittleEndian 4 e.wd.toUInt32.toNat ++ toLittleEndian 4 e.mask.toNat ++
    toLittleEndian 4 e.cookie.toNat ++ toLittleEndian 4 e.nameField.length ++ e.nameField

end InotifyEvent

/-- `event->wd`. -/
def eventWd (p : List Byte) : Int32 := (UInt32.ofNat (littleEndian (p.take 4))).toInt32

/-- `event->len`. -/
def eventLen (p : List Byte) : ℕ := littleEndian ((p.drop 12).take 4)

/-- `event->name`, a string that has to end inside the buffer. -/
def eventName (p : List Byte) : Option (List Byte) :=
  if (0 : Byte) ∈ p.drop 16 then some (cstr (p.drop 16)) else none

/-- Events, as the source walks through them. -/
def inotifyFormat : Format InotifyEvent where
  encode := InotifyEvent.encode
  size p := 16 + eventLen p
  size_pos p := by omega

/-- One turn of the loop of `ducq_dispatcher_accept_notify`. -/
def notifyTurn (exts : Extensions) (p : List Byte) (st : Scripting σ) :
    Option (Bool × Scripting σ) :=
  if p.length < 16 then none
  else do
    let name ← eventName p
    match exts.find (eventWd p) with
    | none =>
      some (false, st.log env .error (ascii "ducq_dispatcher_accept_notify")
        (ascii "wd not found for '%s'\n") [.str (some name)])
    | some i =>
      let path := fitPath ((exts i).path ++ name)
      let st := st.log env .info (ascii "ducq_dispatcher_accept_notify")
        (ascii "reloading: '%s'") [.str (some path)]
      some (true, (loadLua env host path st).2)

/-- `ducq_dispatcher_accept_notify`, from what `read` brings, or the text and the number of its
error.  Beside the state stands the offset the walk ends at. -/
def ducqDispatcherAcceptNotify (exts : Extensions) (read : Except (List Byte × ℤ) (List Byte))
    (st : Scripting σ) : Option (ℕ × Scripting σ) :=
  match read with
  | .error (text, errno) =>
    some (0, st.log env .error (ascii "ducq_dispatcher_accept_notify")
      (ascii "read() for inotify failed: %s (%d)") [.str (some text), .int errno])
  | .ok bytes =>
    walk inotifyFormat (notifyTurn env host exts)
      (bytes ++ List.replicate (notifyBufferSize - bytes.length) 0) bytes.length 0 st

end

end Ducq
