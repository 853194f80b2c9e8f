import Ducq.Dispatcher.Scripts

/-!
# What one read of events has loaded

The events of one read are handled one after the other, and each is to be handled as if it
were alone: what is loaded is the path of the row its descriptor belongs to, with the name of
the event behind it.  `handlesEach_iff` says for which reads that is so.

Two things go wrong.  A descriptor that is not in the table ends the function and not the
turn, so that the events behind are not looked at; and a free row is found for the descriptor
`-1`, which no watch has.  And an event without a name is followed by the next one: the
string that is read as its name is what that one begins with, the lowest byte of its
descriptor first.
-/

namespace Ducq

open CMemory CNumber CPrintf CPath Records

/-! ## Events in memory -/

namespace InotifyEvent

variable (e : InotifyEvent) (rest : List Byte)

theorem encode_append :
    e.encode ++ rest = toLittleEndian 4 e.wd.toUInt32.toNat ++ (toLittleEndian 4 e.mask.toNat ++
      (toLittleEndian 4 e.cookie.toNat ++ (toLittleEndian 4 e.nameField.length ++
        (e.nameField ++ rest)))) := by
  simp only [encode, List.append_assoc]

theorem length_encode : e.encode.length = 16 + e.nameField.length := by
  simp only [encode, List.length_append, length_toLittleEndian]

/-- The descriptor is read as it was written. -/
theorem eventWd_encode : eventWd (e.encode ++ rest) = e.wd := by
  have hlt : e.wd.toUInt32.toNat < 256 ^ 4 := e.wd.toUInt32.toNat_lt
  rw [eventWd, encode_append, List.take_left' (length_toLittleEndian 4 _),
    littleEndian_toLittleEndian, Nat.mod_eq_of_lt hlt, UInt32.ofNat_toNat,
    Int32.toInt32_toUInt32]

/-- So is the length, if it fits its field. -/
theorem eventLen_encode (h : e.nameField.length < 256 ^ 4) :
    eventLen (e.encode ++ rest) = e.nameField.length := by
  have hdrop : (e.encode ++ rest).drop 12 =
      toLittleEndian 4 e.nameField.length ++ (e.nameField ++ rest) := by
    rw [encode_append, ← List.append_assoc, ← List.append_assoc]
    exact List.drop_left' (by simp only [List.length_append, length_toLittleEndian])
  rw [eventLen, hdrop, List.take_left' (length_toLittleEndian 4 _),
    littleEndian_toLittleEndian, Nat.mod_eq_of_lt h]

/-- Behind the fields stands the name, or what comes next. -/
theorem drop_encode : (e.encode ++ rest).drop 16 = e.nameField ++ rest := by
  rw [encode_append, ← List.append_assoc, ← List.append_assoc, ← List.append_assoc]
  exact List.drop_left' (by simp only [List.length_append, length_toLittleEndian])

/-- An event begins with the lowest byte of its descriptor. -/
theorem encode_eq_cons :
    ∃ q, e.encode = UInt8.ofNat (e.wd.toUInt32.toNat % 256) :: q := by
  refine ⟨toLittleEndian 3 (e.wd.toUInt32.toNat / 256) ++ (toLittleEndian 4 e.mask.toNat ++
    (toLittleEndian 4 e.cookie.toNat ++ (toLittleEndian 4 e.nameField.length ++
      e.nameField))), ?_⟩
  simp only [encode, toLittleEndian, List.append_assoc, List.cons_append]

/-- A NUL is in every event, as the highest byte of its length. -/
theorem zero_mem_encode (h : e.nameField.length < 2 ^ 24) : (0 : Byte) ∈ e.encode := by
  have hlen : e.nameField.length / 256 / 256 / 256 % 256 = 0 := by omega
  have hmem : (0 : Byte) ∈ toLittleEndian 4 e.nameField.length := by
    simp only [toLittleEndian, hlen, List.mem_cons]
    exact Or.inr (Or.inr (Or.inr (Or.inl rfl)))
  rw [encode]
  exact List.mem_append_left _ (List.mem_append_right _ hmem)

end InotifyEvent

/-- What one read brings: whole events, as many as the buffer holds. -/
structure Batch where
  events : List InotifyEvent
  fits : (events.flatMap InotifyEvent.encode).length ≤ notifyBufferSize

/-- The bytes that are read. -/
def Batch.bytes (b : Batch) : List Byte := b.events.flatMap InotifyEvent.encode

/-- The part of the buffer that is not written. -/
def Batch.room (b : Batch) : ℕ := notifyBufferSize - b.bytes.length

/-! ## What is to be loaded -/

/-- The extension a descriptor belongs to. -/
def Extensions.registered (exts : Extensions) (wd : Int32) : Option Extension :=
  if wd = -1 then none else (exts.find wd).map exts

/-- The paths that are to be loaded. -/
def Extensions.expected (exts : Extensions) (events : List InotifyEvent) : List (List Byte) :=
  events.filterMap fun e => (exts.registered e.wd).map fun ext => ext.path ++ e.name

/-- The name that is read for an event is its own: the path fits with it; or there is no name
and the event is the last one in a buffer that is not full, or the next one begins with a
NUL, or the path leaves no room for what is read. -/
def NameIsOwn (ext : Extension) (e : InotifyEvent) (next : List InotifyEvent) (room : ℕ) : Prop :=
  match e.entry, next with
  | some (name, _), _ => ext.path.length + name.bytes.length < pathMax
  | none, [] => 0 < room
  | none, f :: _ => f.wd.toUInt32.toNat % 256 = 0 ∨ ext.path.length = pathMax - 1

/-- Every event belongs to an extension, and the name that is read is its own. -/
def Separate (exts : Extensions) (room : ℕ) : List InotifyEvent → Prop
  | [] => True
  | e :: es =>
    (∃ ext, exts.registered e.wd = some ext ∧ NameIsOwn ext e es room) ∧ Separate exts room es

section

variable {σ : Type} (env : Env) (host : Host σ)

/-- Each event has its own path loaded, in order and nothing else, and the walk ends behind
the last one. -/
def HandlesEach (exts : Extensions) (b : Batch) (st : Scripting σ) : Prop :=
  ∃ st', ducqDispatcherAcceptNotify env host exts (.ok b.bytes) st =
      some (b.bytes.length, st') ∧
    st'.attempts = st.attempts ++ exts.expected b.events

end

/-! ## The name that is read -/

theorem fitPath_eq_self_iff {p : List Byte} : fitPath p = p ↔ p.length < pathMax := by
  rw [fitPath, List.take_eq_self_iff]
  show p.length ≤ 4095 ↔ p.length < 4096
  omega

/-- What is appended to a path does not show exactly if it is nothing or there is no room. -/
theorem fitPath_append_eq_left_iff {p x : List Byte} (h : p.length < pathMax) :
    fitPath (p ++ x) = p ↔ x = [] ∨ p.length = pathMax - 1 := by
  have hp : p.length ≤ pathMax - 1 := by omega
  rw [fitPath, List.take_append, List.take_of_length_le hp, List.append_right_eq_self,
    List.take_eq_nil_iff, or_comm]
  exact or_congr_right (by omega)

/-- The string that begins with an event is empty exactly if its first byte is NUL. -/
theorem cstr_encode_eq_nil_iff (e : InotifyEvent) (rest : List Byte) :
    cstr (e.encode ++ rest) = [] ↔ e.wd.toUInt32.toNat % 256 = 0 := by
  obtain ⟨q, hq⟩ := e.encode_eq_cons
  have hbyte : UInt8.ofNat (e.wd.toUInt32.toNat % 256) = 0 ↔ e.wd.toUInt32.toNat % 256 = 0 := by
    rw [← UInt8.toNat_inj, UInt8.toNat_ofNat']
    show _ % 256 = 0 ↔ _
    omega
  rw [hq, List.cons_append, ← hbyte]
  constructor
  · intro h
    by_contra hne
    rw [cstr_cons_of_ne hne] at h
    exact List.cons_ne_nil _ _ h
  · intro h
    rw [h, cstr_zero_cons]

/-- An event with a name has it read. -/
theorem eventName_of_some {e : InotifyEvent} {name : FileName} {more : ℕ}
    (h : e.entry = some (name, more)) (rest : List Byte) :
    eventName (e.encode ++ rest) = some name.bytes := by
  have hfield : e.nameField ++ rest = name.bytes ++ 0 :: (List.replicate more 0 ++ rest) := by
    simp only [InotifyEvent.nameField, h, List.append_assoc, List.cons_append]
  rw [eventName, e.drop_encode, hfield, if_pos (by simp), cstr_append_zero name.zero_notMem]

/-- An event without a name has the memory behind it read. -/
theorem eventName_of_none {e : InotifyEvent} (h : e.entry = none) (rest : List Byte) :
    eventName (e.encode ++ rest) = if (0 : Byte) ∈ rest then some (cstr rest) else none := by
  have hfield : e.nameField ++ rest = rest := by
    simp only [InotifyEvent.nameField, h, List.nil_append]
  rw [eventName, e.drop_encode, hfield]

/-- **The path that is loaded for an event is its own exactly if its name is.** -/
theorem nameIsOwn_iff {ext : Extension} {e : InotifyEvent} {es : List InotifyEvent} {room : ℕ}
    (h : ∀ f ∈ es, f.nameField.length < 2 ^ 24) :
    (∃ name, eventName (e.encode ++ (es.flatMap InotifyEvent.encode ++ List.replicate room 0)) =
        some name ∧ fitPath (ext.path ++ name) = ext.path ++ e.name) ↔
      NameIsOwn ext e es room := by
  cases hentry : e.entry with
  | some both =>
    obtain ⟨name, more⟩ := both
    have hname : e.name = name.bytes := by simp only [InotifyEvent.name, hentry]
    simp only [eventName_of_some hentry, Option.some.injEq, exists_eq_left', hname,
      NameIsOwn, hentry, fitPath_eq_self_iff, List.length_append]
  | none =>
    have hname : e.name = [] := by simp only [InotifyEvent.name, hentry]
    rw [eventName_of_none hentry, hname, List.append_nil]
    cases es with
    | nil =>
      simp only [NameIsOwn, hentry, List.flatMap_nil, List.nil_append]
      cases room with
      | zero => exact iff_of_false (by simp) (lt_irrefl 0)
      | succ room =>
        refine iff_of_true ⟨[], if_pos List.mem_cons_self, ?_⟩ room.succ_pos
        rw [List.append_nil]
        exact fitPath_eq_self_iff.mpr ext.length_lt
    | cons f es =>
      have hzero : (0 : Byte) ∈
          (f :: es).flatMap InotifyEvent.encode ++ List.replicate room 0 := by
        rw [List.flatMap_cons]
        exact List.mem_append_left _ (List.mem_append_left _
          (f.zero_mem_encode (h f List.mem_cons_self)))
      simp only [NameIsOwn, hentry, if_pos hzero, Option.some.injEq, exists_eq_left',
        fitPath_append_eq_left_iff ext.length_lt]
      rw [List.flatMap_cons, List.append_assoc, cstr_encode_eq_nil_iff]

/-! ## The walk -/

section

variable {σ : Type} (env : Env) (host : Host σ)

@[simp] theorem attempts_loadLuaFile (path : List Byte) (st : Scripting σ) :
    (loadLuaFile env host path st).2.attempts = st.attempts := by
  rw [loadLuaFile]
  dsimp only
  split <;> rfl

theorem attempts_loadLuaEntries (path : List Byte) (names : List FileName) (st : Scripting σ) :
    (loadLuaEntries env host path names st).2.attempts = st.attempts := by
  induction names generalizing st with
  | nil => rfl
  | cons name names ih =>
    have hfile := attempts_loadLuaFile env host (entryPath path name) st
    rw [loadLuaEntries]
    dsimp only
    split_ifs
    · exact (ih _).trans hfile
    · exact hfile
    · exact ih st

/-- **What `_load_lua` can come to**: nothing is loaded, or the file is, or the entries of the
directory are looked through. -/
theorem loadLua_cases (path : List Byte) (st : Scripting σ) :
    ∃ st₀ : Scripting σ, st₀.attempts = st.attempts ++ [path] ∧ st₀.ran = st.ran ∧
      ((loadLua env host path st).2 = st₀ ∨
        (loadLua env host path st).2 = (loadLuaFile env host path st₀).2 ∨
        ∃ listing, (loadLua env host path st).2 = (loadLuaEntries env host path listing st₀).2) := by
  rw [loadLua]
  dsimp only
  rcases host.stat (pathname path) with text | type
  · exact ⟨_, by rfl, by rfl, Or.inl rfl⟩
  · dsimp only
    by_cases hregular : type = .regular
    · rw [if_pos hregular]
      exact ⟨_, by rfl, by rfl, Or.inr (Or.inl rfl)⟩
    · rw [if_neg hregular]
      rcases host.opendir (pathname path) with _ | listing
      · exact ⟨_, by rfl, by rfl, Or.inl rfl⟩
      · exact ⟨_, by rfl, by rfl, Or.inr (Or.inr ⟨listing, rfl⟩)⟩

/-- A call of `_load_lua` is one attempt. -/
theorem attempts_loadLua (path : List Byte) (st : Scripting σ) :
    (loadLua env host path st).2.attempts = st.attempts ++ [path] := by
  obtain ⟨st₀, hst₀, -, hload | hload | ⟨listing, hload⟩⟩ := loadLua_cases env host path st
  · rw [hload, hst₀]
  · rw [hload, attempts_loadLuaFile, hst₀]
  · rw [hload, attempts_loadLuaEntries, hst₀]

variable (exts : Extensions)

theorem notifyTurn_encode (e : InotifyEvent) (rest : List Byte) (st : Scripting σ) :
    notifyTurn env host exts (e.encode ++ rest) st =
      (eventName (e.encode ++ rest)).bind fun name =>
        match exts.find e.wd with
        | none =>
          some (false, st.log env .error (ascii "ducq_dispatcher_accept_notify")
            (ascii "wd not found for '%s'\n") [.str (some name)])
        | some i =>
          some (true, (loadLua env host (fitPath ((exts i).path ++ name))
            (st.log env .info (ascii "ducq_dispatcher_accept_notify")
              (ascii "reloading: '%s'") [.str (some (fitPath ((exts i).path ++ name)))])).2) := by
  have hlen : ¬ (e.encode ++ rest).length < 16 := by
    rw [List.length_append, e.length_encode]
    omega
  rw [notifyTurn, if_neg hlen, e.eventWd_encode]
  rfl

variable {exts} {e : InotifyEvent} {rest : List Byte} {st st' : Scripting σ}

/-- A turn goes on if there is a row and a name, and has loaded one path. -/
theorem notifyTurn_of_find {i : Fin maxExtensions} {name : List Byte}
    (hfind : exts.find e.wd = some i) (hname : eventName (e.encode ++ rest) = some name)
    (st : Scripting σ) :
    ∃ st', notifyTurn env host exts (e.encode ++ rest) st = some (true, st') ∧
      st'.attempts = st.attempts ++ [fitPath ((exts i).path ++ name)] := by
  rw [notifyTurn_encode, hname, Option.bind_some, hfind]
  exact ⟨_, rfl, attempts_loadLua env host _ _⟩

variable {env host}

/-- No other turn goes on. -/
theorem find_of_notifyTurn
    (h : notifyTurn env host exts (e.encode ++ rest) st = some (true, st')) :
    ∃ i name, exts.find e.wd = some i ∧ eventName (e.encode ++ rest) = some name := by
  rw [notifyTurn_encode] at h
  obtain ⟨name, hname, hturn⟩ := Option.bind_eq_some_iff.mp h
  cases hfind : exts.find e.wd with
  | none =>
    rw [hfind] at hturn
    exact absurd (Prod.mk.inj (Option.some.inj hturn)).1 Bool.false_ne_true
  | some i => exact ⟨i, name, rfl, hname⟩

/-- **One turn**: what has been loaded by a turn that goes on. -/
theorem attempts_of_notifyTurn
    (h : notifyTurn env host exts (e.encode ++ rest) st = some (true, st')) :
    ∃ i name, exts.find e.wd = some i ∧ eventName (e.encode ++ rest) = some name ∧
      st'.attempts = st.attempts ++ [fitPath ((exts i).path ++ name)] := by
  obtain ⟨i, name, hfind, hname⟩ := find_of_notifyTurn h
  obtain ⟨t, hturn, ht⟩ := notifyTurn_of_find env host hfind hname st
  obtain rfl : st' = t := (Prod.mk.inj (Option.some.inj (h.symm.trans hturn))).2
  exact ⟨i, name, hfind, hname, ht⟩

theorem length_encode_pos (e : InotifyEvent) : 0 < (inotifyFormat.encode e).length := by
  show 0 < e.encode.length
  rw [e.length_encode]
  omega

/-- A walk to the end has loaded one path for each event. -/
theorem attempts_visit {behind : List Byte} {es : List InotifyEvent} {ptr : ℕ}
    (h : visit inotifyFormat (notifyTurn env host exts) behind es ptr st =
      some (ptr + (es.flatMap inotifyFormat.encode).length, st')) :
    ∃ paths : List (List Byte), paths.length = es.length ∧
      st'.attempts = st.attempts ++ paths := by
  induction es generalizing ptr st with
  | nil =>
    obtain ⟨-, rfl⟩ := Prod.mk.inj (Option.some.inj h)
    exact ⟨[], rfl, (List.append_nil _).symm⟩
  | cons e es ih =>
    obtain ⟨t, hturn, hrest⟩ := (visit_cons_end_iff (length_encode_pos e)).mp h
    obtain ⟨i, name, -, -, ht⟩ := attempts_of_notifyTurn hturn
    obtain ⟨paths, hlen, hpaths⟩ := ih hrest
    refine ⟨fitPath ((exts i).path ++ name) :: paths, congrArg (· + 1) hlen, ?_⟩
    rw [hpaths, ht, List.append_assoc]
    rfl

theorem registered_eq_some_iff {wd : Int32} {ext : Extension} :
    exts.registered wd = some ext ↔ wd ≠ -1 ∧ ∃ i, exts.find wd = some i ∧ exts i = ext := by
  rw [Extensions.registered]
  by_cases h : wd = -1
  · rw [if_pos h]
    exact iff_of_false (Option.some_ne_none ext).symm fun hc => hc.1 h
  · rw [if_neg h, Option.map_eq_some_iff, and_iff_right h]

theorem length_expected_le (exts : Extensions) (es : List InotifyEvent) :
    (exts.expected es).length ≤ es.length := List.length_filterMap_le ..

theorem expected_cons_of_none (h : exts.registered e.wd = none) (es : List InotifyEvent) :
    exts.expected (e :: es) = exts.expected es :=
  List.filterMap_cons_none (by rw [h, Option.map_none])

theorem expected_cons_of_some {ext : Extension} (h : exts.registered e.wd = some ext)
    (es : List InotifyEvent) :
    exts.expected (e :: es) = (ext.path ++ e.name) :: exts.expected es :=
  List.filterMap_cons_some (by rw [h, Option.map_some])

/-- If as many paths have been loaded as there are events, the first event belongs to an
extension. -/
theorem expected_cons_eq_cons {i : Fin maxExtensions} {path : List Byte}
    {paths : List (List Byte)} {es : List InotifyEvent} (hfind : exts.find e.wd = some i)
    (hlen : paths.length = es.length) (h : exts.expected (e :: es) = path :: paths) :
    exts.registered e.wd = some (exts i) ∧ path = (exts i).path ++ e.name ∧
      exts.expected es = paths := by
  cases hreg : exts.registered e.wd with
  | none =>
    have hle := length_expected_le exts es
    rw [← expected_cons_of_none hreg, h, List.length_cons, hlen] at hle
    omega
  | some ext =>
    obtain ⟨-, j, hj, rfl⟩ := registered_eq_some_iff.mp hreg
    obtain rfl : i = j := Option.some.inj (hfind.symm.trans hj)
    rw [expected_cons_of_some hreg] at h
    obtain ⟨hpath, hrest⟩ := List.cons.inj h
    exact ⟨rfl, hpath.symm, hrest⟩

/-- The name of an event is no longer than the buffer. -/
theorem Batch.length_nameField_le (b : Batch) {f : InotifyEvent} (hf : f ∈ b.events) :
    f.nameField.length ≤ notifyBufferSize := by
  obtain ⟨pre, post, heq⟩ := List.append_of_mem hf
  have hfits := b.fits
  rw [heq, List.flatMap_append, List.flatMap_cons, List.length_append, List.length_append,
    f.length_encode] at hfits
  omega

variable (env host exts)

/-- **A walk to the end that has loaded what is expected**, from wherever it starts, is one
over separate events. -/
theorem visit_iff_separate {es : List InotifyEvent} (h : ∀ f ∈ es, f.nameField.length < 2 ^ 24)
    (room ptr : ℕ) (st : Scripting σ) :
    (∃ st', visit inotifyFormat (notifyTurn env host exts) (List.replicate room 0) es ptr st =
        some (ptr + (es.flatMap inotifyFormat.encode).length, st') ∧
      st'.attempts = st.attempts ++ exts.expected es) ↔ Separate exts room es := by
  induction es generalizing ptr st with
  | nil => exact iff_of_true ⟨st, rfl, (List.append_nil _).symm⟩ trivial
  | cons e es ih =>
    obtain ⟨-, hsmall⟩ := List.forall_mem_cons.mp h
    constructor
    · rintro ⟨st', hvisit, hattempts⟩
      obtain ⟨t, hturn, hrest⟩ := (visit_cons_end_iff (length_encode_pos e)).mp hvisit
      obtain ⟨i, name, hfind, hname, ht⟩ := attempts_of_notifyTurn hturn
      obtain ⟨paths, hlen, hpaths⟩ := attempts_visit hrest
      have hall := hattempts.symm.trans hpaths
      rw [ht, List.append_assoc, List.append_cancel_left_eq] at hall
      obtain ⟨hreg, hpath, rfl⟩ := expected_cons_eq_cons hfind hlen hall
      exact ⟨⟨exts i, hreg, (nameIsOwn_iff hsmall).mp ⟨name, hname, hpath⟩⟩,
        (ih hsmall _ t).mp ⟨st', hrest, hpaths⟩⟩
    · rintro ⟨⟨ext, hreg, hown⟩, hseparate⟩
      obtain ⟨-, i, hfind, rfl⟩ := registered_eq_some_iff.mp hreg
      obtain ⟨name, hname, hpath⟩ := (nameIsOwn_iff hsmall).mpr hown
      obtain ⟨t, hturn, ht⟩ := notifyTurn_of_find env host hfind hname st
      obtain ⟨st', hrest, hst'⟩ := (ih hsmall (ptr + (inotifyFormat.encode e).length) t).mpr hseparate
      refine ⟨st', (visit_cons_end_iff (length_encode_pos e)).mpr ⟨t, hturn, hrest⟩, ?_⟩
      rw [hst', ht, hpath, List.append_assoc, expected_cons_of_some hreg]
      rfl

/-- The walk over what was read is one over the events. -/
theorem ducqDispatcherAcceptNotify_bytes (b : Batch) (st : Scripting σ) :
    ducqDispatcherAcceptNotify env host exts (.ok b.bytes) st =
      visit inotifyFormat (notifyTurn env host exts) (List.replicate b.room 0) b.events 0 st := by
  have hsized : Sized inotifyFormat b.events := by
    intro f hf p
    have hle := b.length_nameField_le hf
    show 16 + eventLen (f.encode ++ p) = f.encode.length
    rw [f.eventLen_encode p (hle.trans_lt (by decide)), f.length_encode]
  have hwalk := @walk_flatMap _ _ _ (notifyTurn env host exts) _ hsized []
    (List.replicate b.room 0) st
  rw [List.nil_append, List.length_nil, Nat.zero_add] at hwalk
  exact hwalk

/-- **The events of one read are handled each on its own exactly if they are separate**: every
one belongs to an extension, and the name that is read for it is its own. -/
theorem handlesEach_iff (b : Batch) (st : Scripting σ) :
    HandlesEach env host exts b st ↔ Separate exts b.room b.events := by
  have hsmall : ∀ f ∈ b.events, f.nameField.length < 2 ^ 24 := fun f hf =>
    (b.length_nameField_le hf).trans_lt (by decide)
  have hvisit := visit_iff_separate env host exts hsmall b.room 0 st
  rw [Nat.zero_add] at hvisit
  rw [HandlesEach, ducqDispatcherAcceptNotify_bytes]
  exact hvisit

end

/-! ## Two watched files -/

/-- A row that is free. -/
def Extension.free : Extension := ⟨-1, [], by decide⟩

/-- Two files are watched. -/
def twoFiles : Extensions := fun i =>
  if i.val = 0 then ⟨1, ascii "a.lua", by decide⟩
  else if i.val = 1 then ⟨2, ascii "b.lua", by decide⟩
  else .free

/-- Both of them have been written. -/
def bothWritten : Batch where
  events := [⟨1, 8, 0, none⟩, ⟨2, 8, 0, none⟩]
  fits := by decide

/-- Nothing can be reached. -/
def Host.unreachable : Host Unit where
  stat _ := .error []
  opendir _ := none
  closedir _ := true
  inotifyAddWatch _ := .error []
  load _ s := (.ok (), s)
  watchable h := absurd h (by simp)

/-- The first file is looked for under its path and the descriptor of the second. -/
theorem not_handlesEach_bothWritten :
    ¬ HandlesEach Env.quiet Host.unreachable twoFiles bothWritten
      ⟨(), ⟨World.init, []⟩, [], []⟩ := by
  rintro ⟨st', hwalk, hattempts⟩
  rw [ducqDispatcherAcceptNotify_bytes, ← Nat.zero_add bothWritten.bytes.length] at hwalk
  obtain ⟨⟨ext, hreg, hown⟩, -⟩ := (visit_iff_separate Env.quiet Host.unreachable twoFiles
    (by decide) bothWritten.room 0 _).mp ⟨st', hwalk, hattempts⟩
  obtain ⟨-, i, -, rfl⟩ := registered_eq_some_iff.mp hreg
  have hshort : ∀ i, (twoFiles i).path.length ≠ pathMax - 1 := by decide
  exact hown.elim (by decide) (hshort i)

end Ducq
