import Ducq.Dispatcher.Dispatch
import Ducq.Lib.Path
import Ducq.Reactor.Registry

/-!
# `ducq_dispatcher.c`: loading the native commands

A directory is read twice.  The first pass counts the entries that end in `.so`, and two
arrays of that many places are allocated; the second opens these entries one after the
other and stores what it finds at the next free place.  Each pass has its own test of a
name, and the first one does not ask whether there is a dot at all, so that it compares a
NULL pointer where there is none.

What must not happen has no value here: a comparison with NULL, a place outside an array,
a counter that is no `int` any more.  `loadsExactly_iff` says for which directories there
is a value, and that the arrays then hold what could be loaded, in the order of the
directory.
-/

namespace Ducq

open CMemory CPrintf CPath

/-- `PATH_MAX`. -/
abbrev pathMax : ℕ := 4096

/-- `".so"`. -/
def soSuffix : List Byte := ascii ".so"

/-- Where commands are looked for when no path is given. -/
def ducqCommandsPath : List Byte := ascii "/usr/local/lib/ducq_commands"

/-- A path as `snprintf` leaves it in a `char[PATH_MAX]`. -/
def fitPath (path : List Byte) : List Byte := path.take (pathMax - 1)

/-- What the dynamic linker answers: `dlopen` a handle, or NULL and the text of `dlerror`;
`dlsym` the symbol `command` and that text, either of which may be NULL. -/
structure Linker (κ : Type) where
  dlopen : List Byte → Except (Option (List Byte)) κ
  dlsym : κ → Option DucqCmd × Option (List Byte)

/-- What the system answers when a directory is read twice: the entries, and whether each
of the other calls succeeds. -/
structure Readings where
  listing : List FileName
  opens : Bool
  closes : Bool
  allocates : Bool
  reopens : Bool
  recloses : Bool

/-- A directory that can be read. -/
def Readings.of (listing : List FileName) : Readings := ⟨listing, true, true, true, true, true⟩

/-- The native commands of a dispatcher. -/
structure Commands (κ : Type) where
  cmds : List (Option DucqCmd)
  hdls : List (Option κ)
  ncmd : ℤ

/-- The commands while they are loaded: beside them the entries `dlopen` was called for, the
handles that were closed again, and the world. -/
structure LoadState (κ : Type) where
  commands : Commands κ
  tried : List FileName
  closed : List κ
  logged : Logged

/-- `*(xs + i) = x`, inside the array. -/
def storeAt {α : Type} (xs : List (Option α)) (i : ℤ) (x : α) : Option (List (Option α)) :=
  if 0 ≤ i ∧ i < xs.length then some (xs.set i.toNat (some x)) else none

/-! ## The two passes -/

/-- The test of `_count_commands`; without a dot it compares NULL. -/
def countsCommand (name : FileName) : Option Bool :=
  (strrchr dot name.bytes).map fun ext => ext = soSuffix

/-- `_count_commands`, from the first entry on.  The counter is an `int`. -/
def countCommands : List FileName → ℕ → Option ℕ
  | [], count => some count
  | name :: names, count => do
    if ← countsCommand name then
      if count + 1 < 2 ^ 31 then countCommands names (count + 1) else none
    else countCommands names count

/-- The test of `_load_command`. -/
def loadsCommand (name : FileName) : Bool := name.hasExtension soSuffix

/-- The path of an entry. -/
def entryPath (path : List Byte) (name : FileName) : List Byte :=
  fitPath (path ++ slash :: name.bytes)

section

variable {κ : Type} (env : Env) (ld : Linker κ)

/-- A call of `ducq_reactor_log` in `_load_command`. -/
def logLoad (fmt : List Byte) (args : List Arg) (st : LoadState κ) : LoadState κ :=
  { st with
    logged := st.logged.ducqReactorLog env .error (ascii "_load_command")
      (some (ascii "server")) (some fmt) args }

/-- `_load_command`. -/
def loadCommand (path : List Byte) (name : FileName) (st : LoadState κ) :
    Option (LoadState κ) :=
  if loadsCommand name then
    let st := { st with tried := st.tried ++ [name] }
    match ld.dlopen (entryPath path name) with
    | .error text => some (logLoad env (ascii "dlopen() failed for: %s") [.str text] st)
    | .ok handle =>
      match ld.dlsym handle with
      | (some cmd, none) => do
        let cmds ← storeAt st.commands.cmds st.commands.ncmd cmd
        let hdls ← storeAt st.commands.hdls st.commands.ncmd handle
        some { st with commands := ⟨cmds, hdls, st.commands.ncmd + 1⟩ }
      | (_, err) =>
        let st := logLoad env (ascii "dlsym() failed for %s: %s\n")
          [.str (some name.bytes), .str err] st
        some { st with closed := st.closed ++ [handle] }
  else some st

/-- The second pass. -/
def loadCommands (path : List Byte) (ncmd : ℕ) :
    List FileName → LoadState κ → Option (LoadState κ)
  | [], st => some st
  | name :: names, st =>
    if st.commands.ncmd < ncmd then do
      let st ← loadCommand env ld path name st
      loadCommands path ncmd names st
    else some st

/-- `ducq_dispatcher_load_commands_path`. -/
def ducqDispatcherLoadCommandsPath (path : Option (List Byte)) (os : Readings)
    (st : LoadState κ) : Option (DucqState × LoadState κ) :=
  let path := path.getD ducqCommandsPath
  if os.opens = false then some (.efile, st)
  else do
    let ncmd ← countCommands os.listing 0
    if os.closes = false then some (.efile, st)
    else if os.allocates = false then some (.ememfail, st)
    else
      let st := { st with
        commands := ⟨List.replicate ncmd none, List.replicate ncmd none, 0⟩ }
      if os.reopens = false then some (.efile, st)
      else do
        let st ← loadCommands env ld path ncmd os.listing st
        some (if os.recloses = false then .efile else .ok, st)

end

/-! ## The tests -/

/-- The name ends in `.so`, which has no further dot. -/
def IsCommand (name : FileName) : Prop := soSuffix <:+ name.bytes

instance (name : FileName) : Decidable (IsCommand name) :=
  inferInstanceAs (Decidable (_ <:+ _))

theorem loadsCommand_eq (name : FileName) : loadsCommand name = decide (IsCommand name) :=
  name.hasExtension_eq (by decide)

/-- **The tests agree on a name with a dot**, and on no other is the first one defined. -/
theorem countsCommand_eq (name : FileName) :
    countsCommand name = if dot ∈ name.bytes then some (loadsCommand name) else none := by
  have hnone := strrchr_eq_none_iff (c := dot) name.zero_notMem
  rw [countsCommand, loadsCommand, FileName.hasExtension]
  cases hext : strrchr dot name.bytes with
  | none => rw [if_neg (hnone.mp hext), Option.map_none]
  | some ext =>
    have hmem : dot ∈ name.bytes := by
      by_contra h
      exact Option.some_ne_none ext (hext.symm.trans (hnone.mpr h))
    rw [if_pos hmem, Option.map_some]

/-- The entries that are loaded. -/
def selected (listing : List FileName) : List FileName := listing.filter loadsCommand

/-- The first pass has a value: every entry has a dot, and the counter holds the number. -/
def Countable (listing : List FileName) : Prop :=
  (∀ name ∈ listing, dot ∈ name.bytes) ∧ (selected listing).length < 2 ^ 31

/-- **The first pass counts what the second selects**, where it has a value. -/
theorem countCommands_eq_some_iff {listing : List FileName} {count n : ℕ} (h : count < 2 ^ 31) :
    countCommands listing count = some n ↔
      (∀ name ∈ listing, dot ∈ name.bytes) ∧ count + (selected listing).length < 2 ^ 31 ∧
        n = count + (selected listing).length := by
  induction listing generalizing count with
  | nil =>
    simp only [countCommands, selected, List.filter_nil, List.length_nil, Nat.add_zero,
      Option.some.injEq, List.not_mem_nil, false_implies, implies_true, true_and, h]
    exact eq_comm
  | cons name names ih =>
    rw [countCommands, countsCommand_eq, List.forall_mem_cons]
    by_cases hdot : dot ∈ name.bytes
    · rw [if_pos hdot, and_iff_right hdot]
      show (if loadsCommand name = true then
        (if count + 1 < 2 ^ 31 then countCommands names (count + 1) else none)
        else countCommands names count) = some n ↔ _
      rw [selected, List.filter_cons]
      by_cases hload : loadsCommand name = true
      · rw [if_pos hload, if_pos hload, List.length_cons]
        by_cases hlt : count + 1 < 2 ^ 31
        · rw [if_pos hlt, ih hlt, selected]
          refine and_congr_right fun _ => ?_
          rw [Nat.add_assoc, Nat.add_comm 1]
        · rw [if_neg hlt]
          exact iff_of_false (Option.some_ne_none n).symm fun h => by omega
      · rw [if_neg hload, if_neg hload, ih h, selected]
    · rw [if_neg hdot]
      exact iff_of_false (Option.some_ne_none n).symm fun h => hdot h.1.1

theorem selected_append (pre names : List FileName) :
    selected (pre ++ names) = selected pre ++ selected names := List.filter_append ..

theorem selected_eq (listing : List FileName) :
    selected listing = listing.filter fun name => IsCommand name := by
  rw [selected]
  exact List.filter_congr fun name _ => loadsCommand_eq name

/-! ## What is stored -/

/-- An array of `n` places with `xs` at the front. -/
def filled {α : Type} (n : ℕ) (xs : List α) : List (Option α) :=
  xs.map some ++ List.replicate (n - xs.length) none

/-- Storing behind the front makes it longer. -/
theorem storeAt_filled {α : Type} {n : ℕ} {xs : List α} (h : xs.length < n) (x : α) :
    storeAt (filled n xs) xs.length x = some (filled n (xs ++ [x])) := by
  have hlen : (filled n xs).length = n := by
    rw [filled, List.length_append, List.length_map, List.length_replicate]
    omega
  have hrest : n - xs.length = n - (xs ++ [x]).length + 1 := by
    rw [List.length_append, List.length_singleton]
    omega
  rw [storeAt, hlen, if_pos ⟨by omega, by omega⟩, filled, filled, hrest, Int.toNat_natCast,
    List.set_append_right _ _ (by rw [List.length_map]), List.length_map, Nat.sub_self,
    List.replicate_succ, List.set_cons_zero, List.map_append, List.append_assoc]
  rfl

theorem storeAt_filled_map {α β : Type} (f : β → α) {n : ℕ} {xs : List β} (h : xs.length < n)
    (x : β) :
    storeAt (filled n (xs.map f)) xs.length (f x) = some (filled n ((xs ++ [x]).map f)) := by
  have hmap : (xs.map f).length < n := (List.length_map f).trans_lt h
  have hstore := storeAt_filled hmap (f x)
  rw [List.length_map] at hstore
  rw [hstore, List.map_append]
  rfl

section

variable {κ : Type} (ld : Linker κ) (path : List Byte)

/-- What comes of an entry: the handle and the command, if both calls succeed. -/
def loaded (name : FileName) : Option (κ × DucqCmd) :=
  match ld.dlopen (entryPath path name) with
  | .error _ => none
  | .ok handle =>
    match ld.dlsym handle with
    | (some cmd, none) => some (handle, cmd)
    | _ => none

/-- What comes of the entries that are selected. -/
def loadedFrom (names : List FileName) : List (κ × DucqCmd) :=
  (selected names).filterMap (loaded ld path)

theorem loadedFrom_append (pre names : List FileName) :
    loadedFrom ld path (pre ++ names) = loadedFrom ld path pre ++ loadedFrom ld path names := by
  rw [loadedFrom, selected_append, List.filterMap_append, loadedFrom, loadedFrom]

theorem length_loadedFrom_le (names : List FileName) :
    (loadedFrom ld path names).length ≤ (selected names).length := List.length_filterMap_le ..

/-- The state when the entries `pre` have been seen. -/
structure Loads (n : ℕ) (tried : List FileName) (pre : List FileName) (st : LoadState κ) :
    Prop where
  cmds : st.commands.cmds = filled n ((loadedFrom ld path pre).map Prod.snd)
  hdls : st.commands.hdls = filled n ((loadedFrom ld path pre).map Prod.fst)
  ncmd : st.commands.ncmd = (loadedFrom ld path pre).length
  tried : st.tried = tried ++ selected pre

variable {ld path} {n : ℕ} {tried pre names : List FileName} {name : FileName}
  {st : LoadState κ}

/-- An entry that cannot be loaded changes no array. -/
theorem loadCommand_of_not_loaded (env : Env) (st : LoadState κ)
    (hload : loadsCommand name = true) (hnone : loaded ld path name = none) :
    ∃ st', loadCommand env ld path name st = some st' ∧ st'.commands = st.commands ∧
      st'.tried = st.tried ++ [name] := by
  rw [loaded] at hnone
  rw [loadCommand, if_pos hload]
  rcases hopen : ld.dlopen (entryPath path name) with text | handle
  · exact ⟨_, rfl, rfl, rfl⟩
  · rw [hopen] at hnone
    rcases hsym : ld.dlsym handle with ⟨_ | cmd, _ | err⟩
    all_goals simp only [hsym] at hnone ⊢
    · exact ⟨_, rfl, rfl, rfl⟩
    · exact ⟨_, rfl, rfl, rfl⟩
    · exact absurd hnone (Option.some_ne_none _)
    · exact ⟨_, rfl, rfl, rfl⟩

/-- An entry that is loaded is stored in both arrays. -/
theorem loadCommand_of_loaded (env : Env) {handle : κ} {cmd : DucqCmd}
    {cmds : List (Option DucqCmd)} {hdls : List (Option κ)} (hload : loadsCommand name = true)
    (hsome : loaded ld path name = some (handle, cmd))
    (hcmds : storeAt st.commands.cmds st.commands.ncmd cmd = some cmds)
    (hhdls : storeAt st.commands.hdls st.commands.ncmd handle = some hdls) :
    loadCommand env ld path name st =
      some ⟨⟨cmds, hdls, st.commands.ncmd + 1⟩, st.tried ++ [name], st.closed, st.logged⟩ := by
  rw [loaded] at hsome
  rw [loadCommand, if_pos hload]
  rcases hopen : ld.dlopen (entryPath path name) with text | handle'
  · rw [hopen] at hsome
    exact absurd hsome (Option.some_ne_none _).symm
  · rw [hopen] at hsome
    rcases hsym : ld.dlsym handle' with ⟨_ | cmd', _ | err⟩
    all_goals simp only [hsym, Option.some.injEq, Prod.mk.injEq, reduceCtorEq] at hsome ⊢
    obtain ⟨rfl, rfl⟩ := hsome
    rw [hcmds, hhdls]
    rfl

/-- **One entry**, with a place for every entry that has been selected. -/
theorem Loads.step (h : Loads ld path n tried pre st) (env : Env)
    (hroom : (selected (pre ++ [name])).length ≤ n) :
    ∃ st', loadCommand env ld path name st = some st' ∧
      Loads ld path n tried (pre ++ [name]) st' := by
  rw [selected_append, List.length_append] at hroom
  by_cases hload : loadsCommand name = true
  · have hone : selected [name] = [name] := List.filter_cons_of_pos hload
    have hfrom : loadedFrom ld path [name] = (loaded ld path name).toList := by
      rw [loadedFrom, hone]
      cases hl : loaded ld path name <;> simp [hl]
    have htried : st.tried ++ [name] = tried ++ selected (pre ++ [name]) := by
      rw [h.tried, selected_append, hone, List.append_assoc]
    cases hl : loaded ld path name with
    | none =>
      have hsame : loadedFrom ld path (pre ++ [name]) = loadedFrom ld path pre := by
        rw [loadedFrom_append, hfrom, hl]
        exact List.append_nil _
      obtain ⟨st', hstep, hcommands, htried'⟩ := loadCommand_of_not_loaded env st hload hl
      exact ⟨st', hstep, by rw [hcommands, hsame, h.cmds], by rw [hcommands, hsame, h.hdls],
        by rw [hcommands, hsame, h.ncmd], htried'.trans htried⟩
    | some both =>
      obtain ⟨handle, cmd⟩ := both
      have happend : loadedFrom ld path (pre ++ [name]) =
          loadedFrom ld path pre ++ [(handle, cmd)] := by
        rw [loadedFrom_append, hfrom, hl]
        rfl
      have hlt : (loadedFrom ld path pre).length < n := by
        have hle := length_loadedFrom_le ld path pre
        rw [hone, List.length_singleton] at hroom
        omega
      have hcmds : storeAt st.commands.cmds st.commands.ncmd cmd =
          some (filled n ((loadedFrom ld path (pre ++ [name])).map Prod.snd)) := by
        rw [h.cmds, h.ncmd, happend]
        exact storeAt_filled_map Prod.snd hlt (handle, cmd)
      have hhdls : storeAt st.commands.hdls st.commands.ncmd handle =
          some (filled n ((loadedFrom ld path (pre ++ [name])).map Prod.fst)) := by
        rw [h.hdls, h.ncmd, happend]
        exact storeAt_filled_map Prod.fst hlt (handle, cmd)
      refine ⟨_, loadCommand_of_loaded env hload hl hcmds hhdls, rfl, rfl, ?_, htried⟩
      show st.commands.ncmd + 1 = ((loadedFrom ld path (pre ++ [name])).length : ℤ)
      rw [h.ncmd, happend, List.length_append, List.length_singleton]
      rfl
  · have hnone : selected [name] = [] := List.filter_cons_of_neg hload
    refine ⟨st, by rw [loadCommand, if_neg hload], ?_⟩
    have hsame : loadedFrom ld path (pre ++ [name]) = loadedFrom ld path pre := by
      rw [loadedFrom_append, loadedFrom, loadedFrom, hnone]
      exact List.append_nil _
    exact ⟨by rw [hsame, h.cmds], by rw [hsame, h.hdls], by rw [hsame, h.ncmd],
      by rw [selected_append, hnone, List.append_nil, h.tried]⟩

/-- **The second pass**, with a place for every entry that is selected.  It stops early only
when there is nothing more to select. -/
theorem Loads.run (h : Loads ld path n tried pre st) (env : Env)
    (hroom : (selected (pre ++ names)).length ≤ n) :
    ∃ st', loadCommands env ld path n names st = some st' ∧
      Loads ld path n tried (pre ++ names) st' := by
  induction names generalizing pre st with
  | nil => exact ⟨st, rfl, by rw [List.append_nil]; exact h⟩
  | cons name names ih =>
    rw [List.append_cons] at hroom ⊢
    rw [loadCommands]
    by_cases hlt : st.commands.ncmd < n
    · have hle : (selected (pre ++ [name])).length ≤ n := by
        rw [selected_append, List.length_append] at hroom
        omega
      obtain ⟨st₁, hstep, hst₁⟩ := h.step env hle
      obtain ⟨st₂, hrun, hst₂⟩ := ih hst₁ hroom
      exact ⟨st₂, by rw [if_pos hlt, hstep]; exact hrun, hst₂⟩
    · refine ⟨st, if_neg hlt, ?_⟩
      rw [← List.append_cons] at hroom ⊢
      have hnone : selected (name :: names) = [] := by
        have hle := length_loadedFrom_le ld path pre
        have hncmd := h.ncmd
        rw [selected_append, List.length_append] at hroom
        exact List.length_eq_zero_iff.mp (by omega)
      have hsame : loadedFrom ld path (pre ++ name :: names) = loadedFrom ld path pre := by
        rw [loadedFrom_append, loadedFrom, loadedFrom, hnone]
        exact List.append_nil _
      exact ⟨by rw [hsame, h.cmds], by rw [hsame, h.hdls], by rw [hsame, h.ncmd],
        by rw [selected_append, hnone, List.append_nil, h.tried]⟩

end

/-! ## The whole of it -/

theorem countCommands_eq_of_countable {listing : List FileName} (h : Countable listing) :
    countCommands listing 0 = some (selected listing).length :=
  (countCommands_eq_some_iff (by decide)).mpr
    ⟨h.1, by rw [Nat.zero_add]; exact h.2, (Nat.zero_add _).symm⟩

theorem countCommands_eq_none_of_not_countable {listing : List FileName} (h : ¬ Countable listing) :
    countCommands listing 0 = none := by
  refine Option.eq_none_iff_forall_ne_some.mpr fun n hn => h ?_
  have hn := (countCommands_eq_some_iff (by decide)).mp hn
  exact ⟨hn.1, by rw [← Nat.zero_add (List.length _)]; exact hn.2.1⟩

section

variable {κ : Type} (env : Env) (ld : Linker κ)

/-- The state the second pass begins with. -/
def allocated (n : ℕ) (st : LoadState κ) : LoadState κ :=
  { st with commands := ⟨List.replicate n none, List.replicate n none, 0⟩ }

/-- The second pass from its beginning. -/
theorem loadCommands_allocated (path : List Byte) (listing : List FileName) (st : LoadState κ) :
    ∃ st', loadCommands env ld path (selected listing).length listing
        (allocated (selected listing).length st) = some st' ∧
      Loads ld path (selected listing).length st.tried listing st' := by
  have hstart : Loads ld path (selected listing).length st.tried []
      (allocated (selected listing).length st) :=
    ⟨rfl, rfl, rfl, (List.append_nil _).symm⟩
  exact hstart.run env le_rfl

variable (path : Option (List Byte))

/-- **Whatever else fails**, there is a value exactly if the directory cannot be opened or its
entries can be counted. -/
theorem ducqDispatcherLoadCommandsPath_isSome_iff (os : Readings) (st : LoadState κ) :
    (ducqDispatcherLoadCommandsPath env ld path os st).isSome ↔
      os.opens = false ∨ Countable os.listing := by
  rw [ducqDispatcherLoadCommandsPath]
  by_cases hopen : os.opens = false
  · rw [if_pos hopen]
    exact iff_of_true rfl (Or.inl hopen)
  · rw [if_neg hopen, or_iff_right hopen]
    by_cases hcount : Countable os.listing
    · refine iff_of_true ?_ hcount
      obtain ⟨st', hrun, -⟩ :=
        loadCommands_allocated env ld (path.getD ducqCommandsPath) os.listing st
      rw [allocated] at hrun
      simp only [countCommands_eq_of_countable hcount, Option.bind_eq_bind, Option.bind_some,
        hrun]
      split_ifs <;> rfl
    · refine iff_of_false ?_ hcount
      rw [countCommands_eq_none_of_not_countable hcount]
      exact Bool.false_ne_true

/-- Nothing goes wrong and everything that can be loaded is: both passes select the entries
that end in `.so`, each of them is opened once, in the order of the directory, and the two
arrays hold at the front what came of them, and `ncmd` says how much. -/
def LoadsExactly (listing : List FileName) (st : LoadState κ) : Prop :=
  (∀ name ∈ listing, countsCommand name = some (decide (IsCommand name)) ∧
    loadsCommand name = decide (IsCommand name)) ∧
  ∃ (n : ℕ) (st' : LoadState κ), countCommands listing 0 = some n ∧
    n = (listing.filter fun name => IsCommand name).length ∧
    ducqDispatcherLoadCommandsPath env ld path (.of listing) st = some (.ok, st') ∧
    st'.tried = st.tried ++ listing.filter (fun name => IsCommand name) ∧
    st'.commands =
      ⟨filled n ((loadedFrom ld (path.getD ducqCommandsPath) listing).map Prod.snd),
        filled n ((loadedFrom ld (path.getD ducqCommandsPath) listing).map Prod.fst),
        (loadedFrom ld (path.getD ducqCommandsPath) listing).length⟩

/-- **Loading is exact exactly if every entry of the directory has a dot**, and not too many
end in `.so` for an `int`. -/
theorem loadsExactly_iff (listing : List FileName) (st : LoadState κ) :
    LoadsExactly env ld path listing st ↔ Countable listing := by
  constructor
  · rintro ⟨-, n, st', -, -, hload, -⟩
    have hsome := (ducqDispatcherLoadCommandsPath_isSome_iff env ld path (.of listing) st).mp
      (by rw [hload]; rfl)
    exact hsome.resolve_left Bool.noConfusion
  · intro h
    obtain ⟨st', hrun, hst'⟩ :=
      loadCommands_allocated env ld (path.getD ducqCommandsPath) listing st
    have hcount := countCommands_eq_of_countable h
    refine ⟨fun name hname => ⟨?_, loadsCommand_eq name⟩, _, st', hcount, ?_, ?_, ?_, ?_⟩
    · rw [countsCommand_eq, if_pos (h.1 name hname), loadsCommand_eq]
    · rw [selected_eq]
    · rw [allocated] at hrun
      simp only [ducqDispatcherLoadCommandsPath, Readings.of, hcount, Option.bind_eq_bind,
        Option.bind_some, hrun]
      rfl
    · rw [hst'.tried, selected_eq]
    · obtain ⟨⟨cmds, hdls, ncmd⟩, tried, closed, logged⟩ := st'
      obtain ⟨rfl, rfl, rfl, -⟩ := hst'
      rfl

end

/-- A file without a dot in its name. -/
def readme : FileName where
  bytes := ascii "README"
  ne_nil := by decide
  zero_notMem := by decide
  slash_notMem := by decide

/-- A single `README` in the directory is enough. -/
theorem not_loadsExactly_readme :
    ¬ LoadsExactly Env.quiet (⟨fun _ => .ok (), fun _ => (none, none)⟩ : Linker Unit) none
      [readme] ⟨⟨[], [], -1⟩, [], [], ⟨World.init, []⟩⟩ := by
  rintro ⟨htest, -⟩
  obtain ⟨hcounts, -⟩ := htest readme List.mem_cons_self
  rw [countsCommand_eq, if_neg (by decide)] at hcounts
  exact Option.some_ne_none _ hcounts.symm

end Ducq
