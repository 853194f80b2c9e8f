import Ducq.Dispatcher.Notify

/-!
# Loading again what has been loaded

When a directory is added its entries are looked through, and those that end in `.lua` are
given to Lua, one after the other, until one of them fails.  When one of its entries changes,
the path that stands in the table is put before the entry's name, and what is at that path is
a file and is given to Lua whatever it is called.

So a file is loaded on both ways if its name ends in `.lua`, and only on the second if it
does not (`loadsAlike_iff`).  Near `PATH_MAX` there is more to it, since neither path is
looked at once it has been cut: the scan puts one byte more between the directory and the
name, and a directory whose path is too long has no slash put behind it.
-/

namespace Ducq

open CMemory CNumber CPrintf CPath Records Sweep

section

variable {σ : Type} (env : Env) (host : Host σ)

/-! ## What a call gives to Lua -/

/-- A file has been given to Lua between two states. -/
def Runs (st st' : Scripting σ) (file : Pathname) : Prop :=
  ∃ files, st'.ran = st.ran ++ files ∧ file ∈ files

theorem runs_iff {st st' : Scripting σ} {files : List Pathname} {file : Pathname}
    (h : st'.ran = st.ran ++ files) : Runs st st' file ↔ file ∈ files := by
  refine ⟨?_, fun hmem => ⟨files, h, hmem⟩⟩
  rintro ⟨files', h', hmem⟩
  rw [h, List.append_cancel_left_eq] at h'
  rwa [h']

/-- The name ends in `.lua`, which has no further dot. -/
def IsScript (name : FileName) : Prop := luaSuffix <:+ name.bytes

instance (name : FileName) : Decidable (IsScript name) :=
  inferInstanceAs (Decidable (_ <:+ _))

theorem isScript_eq (name : FileName) : isScript name = decide (IsScript name) :=
  name.hasExtension_eq (by decide)

theorem isScript_iff {name : FileName} : isScript name = true ↔ IsScript name := by
  rw [isScript_eq, decide_eq_true_eq]

/-- The scan of a directory comes to an entry: it is a script, and those before it load. -/
def ComesTo (path : List Byte) (names : List FileName) (st : Scripting σ) (name : FileName) :
    Prop :=
  ∃ pre post, names = pre ++ name :: post ∧ IsScript name ∧
    (loadLuaEntries env host path pre st).1 = .ok

theorem ran_loadLuaFile (path : List Byte) (st : Scripting σ) :
    (loadLuaFile env host path st).2.ran = st.ran ++ [pathname path] := by
  rw [loadLuaFile]
  dsimp only
  split <;> rfl

variable {path : List Byte} {name e : FileName} {names : List FileName} {st : Scripting σ}

theorem loadLuaEntries_of_not_isScript (h : isScript name = false) (st : Scripting σ) :
    loadLuaEntries env host path (name :: names) st = loadLuaEntries env host path names st := by
  rw [loadLuaEntries, if_neg (by rw [h]; exact Bool.false_ne_true)]

theorem loadLuaEntries_of_ok (h : isScript name = true)
    (hok : (loadLuaFile env host (entryPath path name) st).1 = .ok) :
    loadLuaEntries env host path (name :: names) st =
      loadLuaEntries env host path names (loadLuaFile env host (entryPath path name) st).2 := by
  rw [loadLuaEntries, if_pos h]
  exact if_pos hok

theorem loadLuaEntries_of_ne_ok (h : isScript name = true)
    (hok : (loadLuaFile env host (entryPath path name) st).1 ≠ .ok) :
    loadLuaEntries env host path (name :: names) st =
      loadLuaFile env host (entryPath path name) st := by
  rw [loadLuaEntries, if_pos h]
  exact if_neg hok

variable {env host} in
theorem ComesTo.mem (h : ComesTo env host path names st e) : e ∈ names := by
  obtain ⟨pre, post, rfl, -⟩ := h
  exact List.mem_append_right _ List.mem_cons_self

/-- An entry that is no script is passed over. -/
theorem comesTo_cons_of_not_isScript (h : isScript name = false) :
    ComesTo env host path (name :: names) st e ↔ ComesTo env host path names st e := by
  constructor
  · rintro ⟨pre, post, heq, he, hok⟩
    rcases List.cons_eq_append_iff.mp heq with ⟨rfl, hcons⟩ | ⟨pre', rfl, hnames⟩
    · obtain rfl := (List.cons.inj hcons).1
      exact absurd (h.symm.trans (isScript_iff.mpr he)) Bool.false_ne_true
    · rw [loadLuaEntries_of_not_isScript env host h] at hok
      exact ⟨pre', post, hnames, he, hok⟩
  · rintro ⟨pre, post, rfl, he, hok⟩
    refine ⟨name :: pre, post, rfl, he, ?_⟩
    rwa [loadLuaEntries_of_not_isScript env host h]

/-- A script is come to, and what is behind it if it loads. -/
theorem comesTo_cons_of_isScript (h : isScript name = true) :
    ComesTo env host path (name :: names) st e ↔
      e = name ∨ ((loadLuaFile env host (entryPath path name) st).1 = .ok ∧
        ComesTo env host path names (loadLuaFile env host (entryPath path name) st).2 e) := by
  constructor
  · rintro ⟨pre, post, heq, he, hok⟩
    rcases List.cons_eq_append_iff.mp heq with ⟨rfl, hcons⟩ | ⟨pre', rfl, hnames⟩
    · exact Or.inl (List.cons.inj hcons).1
    · by_cases hfile : (loadLuaFile env host (entryPath path name) st).1 = .ok
      · rw [loadLuaEntries_of_ok env host h hfile] at hok
        exact Or.inr ⟨hfile, pre', post, hnames, he, hok⟩
      · rw [loadLuaEntries_of_ne_ok env host h hfile] at hok
        exact absurd hok hfile
  · rintro (rfl | ⟨hfile, pre, post, rfl, he, hok⟩)
    · exact ⟨[], names, rfl, isScript_iff.mp h, rfl⟩
    · refine ⟨name :: pre, post, rfl, he, ?_⟩
      rwa [loadLuaEntries_of_ok env host h hfile]

/-- **The scan gives to Lua what it comes to.** -/
theorem ran_loadLuaEntries (path : List Byte) (names : List FileName) (st : Scripting σ) :
    ∃ files, (loadLuaEntries env host path names st).2.ran = st.ran ++ files ∧
      ∀ file, file ∈ files ↔
        ∃ e, ComesTo env host path names st e ∧ pathname (entryPath path e) = file := by
  induction names generalizing st with
  | nil =>
    refine ⟨[], (List.append_nil _).symm, fun file => iff_of_false List.not_mem_nil ?_⟩
    rintro ⟨e, ⟨pre, post, heq, -⟩, -⟩
    exact List.cons_ne_nil _ _ (List.append_eq_nil_iff.mp heq.symm).2
  | cons name names ih =>
    cases hscript : isScript name with
    | false =>
      simp only [loadLuaEntries_of_not_isScript env host hscript,
        comesTo_cons_of_not_isScript env host hscript]
      exact ih st
    | true =>
      have hran := ran_loadLuaFile env host (entryPath path name) st
      simp only [comesTo_cons_of_isScript env host hscript]
      by_cases hfile : (loadLuaFile env host (entryPath path name) st).1 = .ok
      · obtain ⟨files, hfiles, hmem⟩ := ih (loadLuaFile env host (entryPath path name) st).2
        rw [loadLuaEntries_of_ok env host hscript hfile]
        refine ⟨pathname (entryPath path name) :: files, ?_, fun file => ?_⟩
        · rw [hfiles, hran, List.append_assoc]
          rfl
        · rw [List.mem_cons, hmem, @eq_comm _ file]
          simp only [hfile, true_and, or_and_right, exists_or, exists_eq_left]
      · rw [loadLuaEntries_of_ne_ok env host hscript hfile]
        refine ⟨[pathname (entryPath path name)], hran, fun file => ?_⟩
        rw [List.mem_singleton, @eq_comm _ file]
        simp only [hfile, false_and, or_false, exists_eq_left]

/-! ## The paths -/

variable {host} in
/-- A directory has a slash behind its path, or no room for it. -/
theorem getLast?_extensionPath (hdir : host.stat (pathname path) = .ok .directory) :
    (extensionPath host path).getLast? = some slash ∨
      pathMax ≤ (extensionPath host path).length + 2 := by
  have hone : isDir host path = 1 := by
    rw [isDir, hdir]
    rfl
  rw [extensionPath]
  split_ifs with h
  · exact Or.inl List.getLast?_concat
  · rw [not_and_or, not_and_or, not_not] at h
    rcases h with h | h | h
    · exact Or.inr (not_lt.mp h)
    · exact absurd hone h
    · exact Or.inl h

/-- The slash does not change what the path says. -/
theorem pathname_extensionPath (hpath : path ≠ []) :
    pathname (extensionPath host path) = pathname path := by
  rw [extensionPath]
  split_ifs
  · exact pathname_slash_end hpath
  · rfl

theorem extensionPath_ne_nil (hpath : path ≠ []) : extensionPath host path ≠ [] := by
  rw [extensionPath]
  split_ifs
  · exact List.append_ne_nil_of_left_ne_nil hpath _
  · exact hpath

/-- The path of an event, and the path of an entry, cut to `PATH_MAX`. -/
theorem fitPath_append {p : List Byte} (h : p.length < pathMax) (x : List Byte) :
    fitPath (p ++ x) = p ++ x.take (pathMax - 1 - p.length) := by
  rw [fitPath, List.take_append, List.take_of_length_le (Nat.le_sub_one_of_lt h)]

/-- **The path of an event is the file's** exactly if there is a slash and it is not cut. -/
theorem pathname_event_iff {p : List Byte} (hp : p ≠ []) (h : p.length < pathMax)
    (name : FileName) :
    pathname (fitPath (p ++ name.bytes)) = (pathname p).entry name.bytes ↔
      p.getLast? = some slash ∧ p.length + name.bytes.length < pathMax := by
  rw [fitPath_append h, pathname_append_eq_entry_iff hp
    (fun hmem => name.slash_notMem (List.mem_of_mem_take hmem)) name.ne_nil, List.take_eq_self_iff]
  refine and_congr_right fun _ => ?_
  omega

/-- **The path of a scanned entry is the file's** exactly if what is left of the entry's name
is the file's. -/
theorem pathname_entryPath_iff {p : List Byte} (hp : p ≠ []) (h : p.length < pathMax)
    (e name : FileName) :
    pathname (entryPath p e) = (pathname p).entry name.bytes ↔
      e.bytes.take (pathMax - 2 - p.length) = name.bytes := by
  rw [entryPath, fitPath_append h]
  by_cases hfull : p.length = pathMax - 1
  · -- not even the slash is left
    have hslash : pathMax - 1 - p.length = 0 := by omega
    have hnone : pathMax - 2 - p.length = 0 := by omega
    rw [hslash, hnone, List.take_zero, List.take_zero,
      pathname_append_eq_entry_iff hp List.not_mem_nil name.ne_nil]
    exact iff_of_false (fun h => name.ne_nil h.2.symm) name.ne_nil.symm
  · have hroom : pathMax - 1 - p.length = pathMax - 2 - p.length + 1 := by omega
    rw [hroom, List.take_succ_cons, List.append_cons, ← pathname_slash_end hp,
      pathname_append_eq_entry_iff (List.append_ne_nil_of_left_ne_nil hp _)
        (fun hmem => e.slash_notMem (List.mem_of_mem_take hmem)) name.ne_nil,
      List.getLast?_concat, and_iff_right rfl]

/-! ## One call of `_load_lua` -/

/-- The state in which the entries of a directory are looked through. -/
def Scripting.scanning (path : List Byte) (st : Scripting σ) : Scripting σ :=
  Scripting.log env .info (ascii "_load_lua") (ascii "loading '%s'") [.str (some path)]
    { st with attempts := st.attempts ++ [path] }

theorem ran_loadLua_of_regular (h : host.stat (pathname path) = .ok .regular) (st : Scripting σ) :
    (loadLua env host path st).2.ran = st.ran ++ [pathname path] := by
  rw [loadLua, h]
  exact ran_loadLuaFile env host path _

theorem ran_loadLua_of_directory {listing : List FileName}
    (h : host.stat (pathname path) = .ok .directory)
    (hopen : host.opendir (pathname path) = some listing) (st : Scripting σ) :
    (loadLua env host path st).2.ran =
      (loadLuaEntries env host path listing (st.scanning env path)).2.ran := by
  rw [loadLua, h]
  dsimp only
  rw [if_neg (by decide), hopen]
  rfl

/-- A path that fills its array is given to Lua itself, or nothing is. -/
theorem ran_loadLua_of_full (hfull : path.length = pathMax - 1) (st : Scripting σ) :
    ∃ files, (loadLua env host path st).2.ran = st.ran ++ files ∧
      ∀ file ∈ files, file = pathname path := by
  obtain ⟨st₀, -, hran, hload | hload | ⟨listing, hload⟩⟩ := loadLua_cases env host path st
  · refine ⟨[], ?_, fun file hfile => absurd hfile List.not_mem_nil⟩
    rw [hload, hran, List.append_nil]
  · refine ⟨[pathname path], ?_, fun _ => List.mem_singleton.mp⟩
    rw [hload, ran_loadLuaFile, hran]
  · obtain ⟨files, hfiles, hmem⟩ := ran_loadLuaEntries env host path listing st₀
    refine ⟨files, ?_, fun file hfile => ?_⟩
    · rw [hload, hfiles, hran]
    · -- the path of every entry is cut to the path itself
      obtain ⟨e, -, rfl⟩ := (hmem file).mp hfile
      rw [entryPath, fitPath, List.take_left' hfull]

/-! ## Both ways -/

/-- A directory that can be watched, and a regular file in it. -/
structure Watched (path : List Byte) (wd : Int32) (listing : List FileName) (name : FileName) :
    Prop where
  watch : host.inotifyAddWatch path = .ok wd
  directory : host.stat (pathname path) = .ok .directory
  entries : host.opendir (pathname path) = some listing
  mem : name ∈ listing
  regular : host.stat ((pathname path).entry name.bytes) = .ok .regular

/-- One event is read, and it is for an entry of the directory, whose row is the one
`ducq_dispatcher_add` writes for it. -/
structure Changed (exts : Extensions) (path : List Byte) (wd : Int32) (name : FileName)
    (b : Batch) : Prop where
  alone : ∃ e : InotifyEvent, b.events = [e] ∧ e.wd = wd ∧ ∃ more, e.entry = some (name, more)
  row : ∃ i, exts.find wd = some i ∧ (exts i).path = extensionPath host path

/-- The path of an event is the file's: there is a slash before the name, and it is not cut. -/
def EventFits (dir : List Byte) (name : FileName) : Prop :=
  dir.getLast? = some slash ∧ dir.length + name.bytes.length < pathMax

/-- The scan comes to an entry of whose name, as far as its path is not cut, the file's is
left. -/
def ScanFinds (dir : List Byte) (listing : List FileName) (st : Scripting σ) (name : FileName) :
    Prop :=
  ∃ e, ComesTo env host dir listing st e ∧
    e.bytes.take (pathMax - 2 - dir.length) = name.bytes

/-- The file is given to Lua when the event is read. -/
def EventRuns (exts : Extensions) (b : Batch) (st : Scripting σ) (file : Pathname) : Prop :=
  ∃ n st', ducqDispatcherAcceptNotify env host exts (.ok b.bytes) st = some (n, st') ∧
    Runs st st' file

/-- The file is given to Lua when the directory is added. -/
def ScanRuns (exts : Extensions) (path : List Byte) (st : Scripting σ) (file : Pathname) : Prop :=
  Runs st (ducqDispatcherAdd env host path exts st).2.2 file

/-- The state in which an added directory is looked through. -/
def scanStart (path : List Byte) (st : Scripting σ) : Scripting σ :=
  let ext := extensionPath host path
  Scripting.scanning env ext
    ((st.log env .info (ascii "ducq_dispatcher_add") (ascii "request to add '%s'")
      [.str (some path)]).log env .info (ascii "ducq_dispatcher_add") (ascii "adding '%s' (%s)")
        [.str (some ext), .str (some (if isDir host ext ≠ 0 then ascii "dir" else ascii "file"))])

/-- What `ducq_dispatcher_add` does once the path is watched. -/
theorem ducqDispatcherAdd_of_watch {exts : Extensions} {i : Fin maxExtensions} {wd : Int32}
    (hfree : exts.find (-1) = some i) (hwatch : host.inotifyAddWatch path = .ok wd)
    (st : Scripting σ) :
    ∃ st', (ducqDispatcherAdd env host path exts st).2 =
        (Function.update exts i (Extension.of host hwatch),
          (loadLua env host (extensionPath host path) st').2) ∧
      st'.ran = st.ran ∧ st'.scanning env (extensionPath host path) = scanStart env host path st := by
  rw [ducqDispatcherAdd]
  dsimp only
  rw [hfree]
  dsimp only
  split
  · rename_i hfailed
    exact absurd (hwatch.symm.trans hfailed) (by simp)
  · rename_i hok
    obtain rfl := Except.ok.inj (hwatch.symm.trans hok)
    exact ⟨_, rfl, rfl, rfl⟩

/-- The row for a directory that was not watched before is the one the source finds. -/
theorem find_ducqDispatcherAdd {exts : Extensions} {i : Fin maxExtensions} {wd : Int32}
    (hfree : exts.find (-1) = some i) (hwatch : host.inotifyAddWatch path = .ok wd)
    (hnew : ∀ j, (exts j).wd ≠ wd) (st : Scripting σ) :
    (ducqDispatcherAdd env host path exts st).2.1.find wd = some i ∧
      ((ducqDispatcherAdd env host path exts st).2.1 i).path = extensionPath host path := by
  obtain ⟨st', hadd, -⟩ := ducqDispatcherAdd_of_watch env host hfree hwatch st
  rw [hadd]
  refine ⟨find?_finRange.mpr ⟨?_, fun j hj => ?_⟩, ?_⟩
  · simp only [Function.update_self, decide_eq_true_eq]
    rfl
  · simp only [Function.update_of_ne hj.ne, decide_eq_false_iff_not]
    exact hnew j
  · simp only [Function.update_self]
    rfl

/-- What one event has loaded. -/
theorem ducqDispatcherAcceptNotify_alone {exts : Extensions} {b : Batch} {f : InotifyEvent}
    {i : Fin maxExtensions} {more : ℕ} (hb : b.events = [f]) (hfind : exts.find f.wd = some i)
    (hentry : f.entry = some (name, more)) (st : Scripting σ) :
    ∃ st', st'.ran = st.ran ∧ ducqDispatcherAcceptNotify env host exts (.ok b.bytes) st =
      some (b.bytes.length,
        (loadLua env host (fitPath ((exts i).path ++ name.bytes)) st').2) := by
  let st' := st.log env .info (ascii "ducq_dispatcher_accept_notify") (ascii "reloading: '%s'")
    [.str (some (fitPath ((exts i).path ++ name.bytes)))]
  have hturn : ∀ rest, notifyTurn env host exts (f.encode ++ rest) st =
      some (true, (loadLua env host (fitPath ((exts i).path ++ name.bytes)) st').2) := by
    intro rest
    rw [notifyTurn_encode, eventName_of_some hentry, Option.bind_some, hfind]
  refine ⟨st', rfl, ?_⟩
  rw [ducqDispatcherAcceptNotify_bytes, Batch.bytes, hb,
    ← Nat.zero_add ([f].flatMap InotifyEvent.encode).length]
  exact (visit_cons_end_iff (length_encode_pos f)).mpr ⟨_, hturn _, rfl⟩

variable {exts exts' : Extensions} {wd : Int32} {listing : List FileName} {b : Batch}

/-- **The event has the file given to Lua** exactly if the path is a directory's with its
slash, and is not cut. -/
theorem eventRuns_iff (h : Watched host path wd listing name) (hb : Changed host exts path wd name b)
    (st : Scripting σ) :
    EventRuns env host exts b st ((pathname path).entry name.bytes) ↔
      EventFits (extensionPath host path) name := by
  obtain ⟨hpath, hlt, -⟩ := host.watchable h.watch
  obtain ⟨⟨f, hevents, rfl, more, hentry⟩, i, hfind, hrow⟩ := hb
  obtain ⟨st', hran, haccept⟩ :=
    ducqDispatcherAcceptNotify_alone env host hevents hfind hentry st
  have hname := pathname_event_iff (extensionPath_ne_nil host hpath)
    (length_extensionPath_lt host hlt) name
  rw [pathname_extensionPath host hpath] at hname
  rw [hrow] at haccept
  have hruns : EventRuns env host exts b st ((pathname path).entry name.bytes) ↔
      Runs st' (loadLua env host (fitPath (extensionPath host path ++ name.bytes)) st').2
        ((pathname path).entry name.bytes) := by
    rw [EventRuns, haccept, Runs, hran]
    constructor
    · rintro ⟨_, st'', heq, hfiles⟩
      obtain ⟨-, rfl⟩ := Prod.mk.inj (Option.some.inj heq)
      exact hfiles
    · exact fun hfiles => ⟨_, _, rfl, hfiles⟩
  rw [hruns]
  by_cases hfits : EventFits (extensionPath host path) name
  · refine iff_of_true ?_ hfits
    have hfile := hname.mpr hfits
    have hregular : host.stat (pathname (fitPath (extensionPath host path ++ name.bytes))) =
        .ok .regular := by
      rw [hfile]
      exact h.regular
    rw [runs_iff (ran_loadLua_of_regular env host hregular st'), hfile]
    exact List.mem_singleton_self _
  · refine iff_of_false ?_ hfits
    have hfull : (fitPath (extensionPath host path ++ name.bytes)).length = pathMax - 1 := by
      have hslash := getLast?_extensionPath h.directory
      have hpos := List.length_pos_iff.mpr name.ne_nil
      have hlong : pathMax ≤ (extensionPath host path).length + name.bytes.length + 1 := by
        rcases hslash with hslash | hlong
        · exact (not_lt.mp fun hlt => hfits ⟨hslash, hlt⟩).trans (Nat.le_succ _)
        · omega
      rw [fitPath, List.length_take, List.length_append]
      omega
    obtain ⟨files, hfiles, hall⟩ := ran_loadLua_of_full env host hfull st'
    rw [runs_iff hfiles]
    exact fun hmem => hfits (hname.mp (hall _ hmem).symm)

/-- **The scan gives the file to Lua** exactly if it comes to an entry of whose name the file's
is left. -/
theorem scanRuns_iff (h : Watched host path wd listing name) (hfree : exts.find (-1) ≠ none)
    (st : Scripting σ) :
    ScanRuns env host exts path st ((pathname path).entry name.bytes) ↔
      ScanFinds env host (extensionPath host path) listing (scanStart env host path st) name := by
  obtain ⟨hpath, hlt, -⟩ := host.watchable h.watch
  obtain ⟨i, hi⟩ := Option.ne_none_iff_exists'.mp hfree
  obtain ⟨st', hadd, hran, hscan⟩ := ducqDispatcherAdd_of_watch env host hi h.watch st
  have hext := pathname_extensionPath host hpath
  have hload := ran_loadLua_of_directory env host (by rw [hext]; exact h.directory)
    (by rw [hext]; exact h.entries) st'
  obtain ⟨files, hfiles, hmem⟩ := ran_loadLuaEntries env host (extensionPath host path) listing
    (st'.scanning env (extensionPath host path))
  have hall : (ducqDispatcherAdd env host path exts st).2.2.ran = st.ran ++ files := by
    rw [hadd, hload, hfiles, ← hran]
    rfl
  rw [ScanRuns, runs_iff hall, hmem, hscan, ← hext]
  refine exists_congr fun e => and_congr_right fun _ => ?_
  exact pathname_entryPath_iff (extensionPath_ne_nil host hpath)
    (length_extensionPath_lt host hlt) e name

/-- The file is given to Lua on a change of it exactly if it is when the directory is added. -/
def LoadsAlike (exts : Extensions) (path : List Byte) (st : Scripting σ) (exts' : Extensions)
    (b : Batch) (st' : Scripting σ) (name : FileName) : Prop :=
  EventRuns env host exts' b st' ((pathname path).entry name.bytes) ↔
    ScanRuns env host exts path st ((pathname path).entry name.bytes)

/-- **A file is loaded alike on both ways exactly if the scan comes to it**, if the directory's
path leaves room for the names: its own ends in `.lua`, and no script before it fails.  Where
there is less room, what is loaded depends on where the paths are cut. -/
theorem loadsAlike_iff (h : Watched host path wd listing name) (hfree : exts.find (-1) ≠ none)
    (hb : Changed host exts' path wd name b) (st st' : Scripting σ) :
    (LoadsAlike env host exts path st exts' b st' name ↔
      (EventFits (extensionPath host path) name ↔
        ScanFinds env host (extensionPath host path) listing (scanStart env host path st)
          name)) ∧
    ((∀ e ∈ listing, (extensionPath host path).length + 1 + e.bytes.length < pathMax) →
      (LoadsAlike env host exts path st exts' b st' name ↔
        ComesTo env host (extensionPath host path) listing (scanStart env host path st) name)) := by
  rw [LoadsAlike, eventRuns_iff env host h hb st', scanRuns_iff env host h hfree st]
  refine ⟨Iff.rfl, fun hroom => ?_⟩
  have hname := hroom name h.mem
  have hpos := List.length_pos_iff.mpr name.ne_nil
  have hfits : EventFits (extensionPath host path) name :=
    ⟨(getLast?_extensionPath h.directory).resolve_right (by omega), by omega⟩
  rw [iff_true_left hfits]
  constructor
  · rintro ⟨e, he, hcut⟩
    have hfull := hroom e he.mem
    rw [List.take_of_length_le (by omega)] at hcut
    obtain rfl := FileName.ext hcut
    exact he
  · intro he
    exact ⟨name, he, List.take_of_length_le (by omega)⟩

end

/-! ## A directory of two files -/

/-- A script. -/
def initLua : FileName where
  bytes := ascii "init.lua"
  ne_nil := by decide
  zero_notMem := by decide
  slash_notMem := by decide

/-- A file that is none. -/
def notes : FileName where
  bytes := ascii "notes.txt"
  ne_nil := by decide
  zero_notMem := by decide
  slash_notMem := by decide

/-- The directory `ext` can be watched and holds both; Lua loads everything. -/
def Host.ext : Host Unit where
  stat p := .ok (if p.names.length = 1 then .directory else .regular)
  opendir _ := some [initLua, notes]
  closedir _ := true
  inotifyAddWatch path := if path = ascii "ext" then .ok 1 else .error []
  load _ s := (.ok (), s)
  watchable h := by
    split_ifs at h with hpath
    obtain rfl := Except.ok.inj h
    rw [hpath]
    decide

/-- Nothing is watched. -/
def unwatched : Extensions := fun _ => .free

theorem length_encode_written (name : FileName) :
    ([⟨1, 8, 0, some (name, 0)⟩].flatMap InotifyEvent.encode).length = 17 + name.bytes.length := by
  rw [List.flatMap_cons, List.flatMap_nil, List.append_nil, InotifyEvent.length_encode]
  simp only [InotifyEvent.nameField, List.length_append, List.length_cons, List.replicate_zero,
    List.length_nil]
  omega

/-- An entry has been written. -/
def written (name : FileName) (h : 17 + name.bytes.length ≤ notifyBufferSize) : Batch where
  events := [⟨1, 8, 0, some (name, 0)⟩]
  fits := (length_encode_written name).trans_le h

/-- Nothing has happened. -/
def Scripting.new : Scripting Unit := ⟨(), ⟨World.init, []⟩, [], []⟩

/-- `ext` has been added. -/
def added : Extensions := (ducqDispatcherAdd Env.quiet .ext (ascii "ext") unwatched .new).2.1

theorem watched_ext {name : FileName} (h : name ∈ [initLua, notes]) :
    Watched Host.ext (ascii "ext") 1 [initLua, notes] name := by
  refine ⟨rfl, rfl, rfl, h, ?_⟩
  rcases List.mem_pair.mp h with rfl | rfl
  · rfl
  · rfl

theorem changed_added (name : FileName) (h : 17 + name.bytes.length ≤ notifyBufferSize) :
    Changed Host.ext added (ascii "ext") 1 name (written name h) :=
  ⟨⟨_, rfl, rfl, 0, rfl⟩, _, find_ducqDispatcherAdd Env.quiet Host.ext (i := ⟨0, by decide⟩)
    (by decide) rfl (by decide) _⟩

/-- `init.lua` is loaded alike on both ways. -/
theorem loadsAlike_iff_init :
    LoadsAlike Env.quiet Host.ext unwatched (ascii "ext") .new added
      (written initLua (by decide)) .new initLua :=
  ((loadsAlike_iff Env.quiet Host.ext (watched_ext List.mem_cons_self) (by decide)
    (changed_added initLua (by decide)) .new .new).2 (by decide)).mpr
      ⟨[], [notes], rfl, by decide, rfl⟩

/-- `notes.txt` is not. -/
theorem not_loadsAlike_notes :
    ¬ LoadsAlike Env.quiet Host.ext unwatched (ascii "ext") .new added
      (written notes (by decide)) .new notes := by
  have hmem : notes ∈ [initLua, notes] := by decide
  intro h
  have hevent := (eventRuns_iff Env.quiet Host.ext (watched_ext hmem)
    (changed_added notes (by decide)) .new).mpr ⟨by decide, by decide⟩
  obtain ⟨e, he, hcut⟩ := (scanRuns_iff Env.quiet Host.ext (watched_ext hmem) (by decide) .new).mp
    (h.mp hevent)
  rcases List.mem_pair.mp he.mem with rfl | rfl
  · exact absurd hcut (by decide)
  · obtain ⟨pre, post, -, hscript, -⟩ := he
    exact absurd hscript (by decide)

end Ducq
