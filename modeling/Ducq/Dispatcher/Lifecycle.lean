import Ducq.Dispatcher.Load
import Ducq.Lib.Ledger

/-!
# The life of a dispatcher

A reactor makes its dispatcher when it is made itself, and frees it when it is freed.  Between
these, native commands are loaded, once or several times: each load allocates its own arrays
and forgets those of the load before it, with the handles in them.  `ducq_dispatcher_free`
knows the last arrays only.

What else is done to a reactor is taken to acquire nothing for good.  That leaves out the
directory that `_load_lua` has opened when a script in it fails, which stays open, and what
scripts acquire themselves.  `luaL_newstate` does not fail, nor is its result looked at.

So what a reactor leaves behind when it is freed is, for every load but the last that came as
far as its arrays, the arrays and the handles that were stored in them, and nothing else; and
nothing is released twice (`lifecycle_exact`).
-/

namespace Ducq

open CMemory CPrintf CPath Ledger

/-! ## The constructors -/

/-- What is acquired and released: the memory of the reactor and of its dispatcher, the
descriptor of `inotify`, the Lua state, a stream of a directory, the arrays of the `n`-th
allocation, and a handle of the dynamic linker. -/
inductive Resource (κ : Type) where
  | reactor | dispatcher | notifyfd | lua | directory
  | arrays (n : ℕ)
  | handle (h : κ)
  deriving DecidableEq

/-- `struct ducq_dispatcher`, without the table of extensions: `L` and `notifyfd` say whether
there is one, and `arrays` which allocation `cmds` and `hdls` point into.  Beside it, how many
allocations there have been. -/
structure Dispatcher (κ : Type) where
  load : LoadState κ
  arrays : Option ℕ
  allocations : ℕ
  L : Bool
  notifyfd : Bool

/-- What the system and Lua answer when a reactor is made: whether `SIGPIPE` can be ignored and
the two allocations succeed, the descriptor, and how loading the package ends.  There is always
a Lua state. -/
structure Birth where
  signal : Bool
  reactor : Bool
  notifyfd : Option ℤ
  dispatcher : Bool
  package : Except (Option (List Byte)) Unit

/-- `LUA_DUCQ_PACKAGE_NAME`. -/
def luaPackage : List Byte := ascii "LuaDucq"

section

variable {κ : Type} (env : Env)

/-- `_make_lua`: whether there is a state, and the calls. -/
def makeLua (package : Except (Option (List Byte)) Unit) (s : Logged) :
    Bool × List (Entry (Resource κ)) × Logged :=
  let s := s.ducqReactorLog env .info (ascii "_make_lua") (some (ascii "dispatcher"))
    (some (ascii "loading: '%s'\n")) [.str (some luaPackage)]
  match package with
  | .ok _ => (true, [.acquire .lua], s)
  | .error text =>
    (false, [.acquire .lua, .release .lua],
      s.ducqReactorLog env .error (ascii "_make_lua") (some (ascii "dispatcher"))
        (some (ascii "%s failed: %s"))
        [.str (some (ascii "Ducq = require('" ++ luaPackage ++ ascii "')")), .str text])

/-- `ducq_dispatcher_new`; `acceptF` and `ctx` are the addresses of
`ducq_dispatcher_accept_notify` and of the dispatcher. -/
def ducqDispatcherNew (os : Birth) (acceptF ctx : ℕ) (s : Logged) :
    Option (Dispatcher κ) × List (Entry (Resource κ)) × Logged :=
  match os.notifyfd with
  | none => (none, [], s)
  | some fd =>
    if os.dispatcher = false then (none, [.acquire .notifyfd], s)
    else
      let (L, calls, s) := makeLua env os.package s
      let calls := .acquire .notifyfd :: .acquire .dispatcher :: calls
      if L then
        let (_, s) := s.act (ducqReactorAddServer fd acceptF ctx)
        (some ⟨⟨⟨[], [], -1⟩, [], [], s⟩, none, 0, true, true⟩, calls, s)
      else
        (some ⟨⟨⟨[], [], -1⟩, [], [], s⟩, none, 0, false, false⟩,
          calls ++ [.release .notifyfd], s)

/-- `ducq_reactor_new_with_log`: the reactor, as its dispatcher with what it has done. -/
def ducqReactorNewWithLog (os : Birth) (acceptF ctx : ℕ) :
    Option (Dispatcher κ) × List (Entry (Resource κ)) :=
  if os.signal = false then (none, [])
  else if os.reactor = false then (none, [])
  else
    match ducqDispatcherNew env os acceptF ctx ⟨World.init, []⟩ with
    | (none, calls, _) => (none, .acquire .reactor :: (calls ++ [.release .reactor]))
    | (some dispatcher, calls, _) => (some dispatcher, .acquire .reactor :: calls)

/-! ## Loading -/

variable (ld : Linker κ)

/-- The calls of `_load_command` for an entry it calls `dlopen` for. -/
def entryCalls (path : List Byte) (name : FileName) : List (Entry (Resource κ)) :=
  match ld.dlopen (entryPath path name) with
  | .error _ => []
  | .ok handle =>
    match ld.dlsym handle with
    | (some _, none) => [.acquire (.handle handle)]
    | _ => [.acquire (.handle handle), .release (.handle handle)]

/-- The calls of `ducq_dispatcher_load_commands_path`, where `dlopen` was called for these
entries. -/
def loadCalls (path : Option (List Byte)) (os : Readings) (n : ℕ) (entries : List FileName) :
    List (Entry (Resource κ)) :=
  if os.opens = false then []
  else [.acquire .directory, .release .directory] ++
    if os.closes = false ∨ os.allocates = false then []
    else .acquire (.arrays n) ::
      if os.reopens = false then []
      else .acquire .directory ::
        (entries.flatMap (entryCalls ld (path.getD ducqCommandsPath)) ++ [.release .directory])

/-- The load came as far as its arrays. -/
def Readings.Allocates (os : Readings) : Prop :=
  os.opens = true ∧ os.closes = true ∧ os.allocates = true

instance (os : Readings) : Decidable os.Allocates := inferInstanceAs (Decidable (_ ∧ _))

/-- `ducq_dispatcher_load_commands_path`, with its calls. -/
def Dispatcher.loadCommandsPath (path : Option (List Byte)) (os : Readings) (x : Dispatcher κ) :
    Option (Dispatcher κ × List (Entry (Resource κ))) := do
  let (_, load) ← ducqDispatcherLoadCommandsPath env ld path os x.load
  let entries := load.tried.drop x.load.tried.length
  let calls := loadCalls ld path os x.allocations entries
  if os.Allocates then
    some ({ x with load := load, arrays := some x.allocations, allocations := x.allocations + 1 },
      calls)
  else some ({ x with load := load }, calls)

end

/-! ## The destructors -/

section

variable {κ : Type}

/-- The loop of `ducq_dispatcher_free`; a place that was never written has no value. -/
def closeHandles (hdls : List (Option κ)) : List ℕ → Option (List (Entry (Resource κ)))
  | [] => some []
  | i :: is => do
    let h ← (← hdls[i]?)
    let calls ← closeHandles hdls is
    some (.release (.handle h) :: calls)

/-- `ducq_dispatcher_free`. -/
def ducqDispatcherFree (x : Dispatcher κ) : Option (List (Entry (Resource κ))) := do
  let handles ← match x.arrays with
    | none => some []
    | some _ => closeHandles x.load.commands.hdls (List.range x.load.commands.ncmd.toNat)
  let arrays := match x.arrays with
    | none => []
    | some n => [.release (.arrays n)]
  some (handles ++ arrays ++ (if x.L then [.release .lua] else []) ++
    (if x.notifyfd then [.release .notifyfd] else []) ++ [.release .dispatcher])

/-- `ducq_reactor_free`, behind the connections. -/
def freeReactor (x : Dispatcher κ) : Option (List (Entry (Resource κ))) := do
  let calls ← ducqDispatcherFree x
  some (calls ++ [.release .reactor])

/-! ## A whole life -/

/-- What a reactor with its dispatcher goes through: native commands are loaded, or something
else is done that leaves nothing acquired. -/
inductive Deed (κ : Type) where
  | load (env : Env) (ld : Linker κ) (path : Option (List Byte)) (os : Readings)
  | other (f : Logged → Logged)

/-- What is done to it, with the calls. -/
def Dispatcher.deed (x : Dispatcher κ) : Deed κ → Option (Dispatcher κ × List (Entry (Resource κ)))
  | .load env ld path os => x.loadCommandsPath env ld path os
  | .other f => some ({ x with load := { x.load with logged := f x.load.logged } }, [])

/-- All that is done to it. -/
def Dispatcher.deeds : List (Deed κ) → Dispatcher κ →
    Option (Dispatcher κ × List (Entry (Resource κ)))
  | [], x => some (x, [])
  | deed :: deeds, x => do
    let (x, calls) ← x.deed deed
    let (x, calls') ← x.deeds deeds
    some (x, calls ++ calls')

/-- From the making of a reactor to its end: all calls. -/
def lifetime (env : Env) (os : Birth) (acceptF ctx : ℕ) (deeds : List (Deed κ)) :
    Option (List (Entry (Resource κ))) :=
  match ducqReactorNewWithLog env os acceptF ctx with
  | (none, calls) => some calls
  | (some x, calls) => do
    let (x, calls') ← x.deeds deeds
    let calls'' ← freeReactor x
    some (calls ++ (calls' ++ calls''))

/-! ## What is left behind -/

/-- The handles a load stores. -/
def storedBy (ld : Linker κ) (path : Option (List Byte)) (os : Readings) : List κ :=
  if os.reopens then (loadedFrom ld (path.getD ducqCommandsPath) os.listing).map Prod.fst else []

/-- What is held with arrays that have these handles in them. -/
def holding : Option (ℕ × List κ) → Multiset (Resource κ)
  | none => 0
  | some (n, handles) => .arrays n ::ₘ Multiset.ofList (handles.map .handle)

/-- The arrays of the loads that have some, from the `n`-th allocation on, each with the handles
stored in them. -/
def allocatedBy : List (Deed κ) → ℕ → List (ℕ × List κ)
  | [], _ => []
  | .load _ ld path os :: deeds, n =>
    if os.Allocates then (n, storedBy ld path os) :: allocatedBy deeds (n + 1)
    else allocatedBy deeds n
  | .other _ :: deeds, n => allocatedBy deeds n

/-- All that these hold. -/
def holdings (arrays : List (ℕ × List κ)) : Multiset (Resource κ) :=
  (arrays.map fun a => holding (some a)).sum

/-- A reactor is made. -/
def Birth.Succeeds (os : Birth) : Prop :=
  os.signal = true ∧ os.reactor = true ∧ os.notifyfd.isSome ∧ os.dispatcher = true

/-- The descriptor of `inotify` is all there is. -/
def Birth.LosesNotifyfd (os : Birth) : Prop :=
  os.signal = true ∧ os.reactor = true ∧ os.notifyfd.isSome ∧ os.dispatcher = false

instance (os : Birth) : Decidable os.Succeeds := inferInstanceAs (Decidable (_ ∧ _ ∧ _ ∧ _))

instance (os : Birth) : Decidable os.LosesNotifyfd := inferInstanceAs (Decidable (_ ∧ _ ∧ _ ∧ _))

/-- What is left behind in the end. -/
def leftBehind (os : Birth) (deeds : List (Deed κ)) : Multiset (Resource κ) :=
  if os.Succeeds then holdings (allocatedBy deeds 0).dropLast
  else if os.LosesNotifyfd then {.notifyfd} else 0

/-- A load has a value: the directory cannot be opened, or its entries can be counted. -/
def Deed.Defined : Deed κ → Prop
  | .load _ _ _ os => os.opens = false ∨ Countable os.listing
  | .other _ => True

/-! ## Loads -/

/-- The dispatcher has arrays, if any, with these handles in them. -/
structure Dispatcher.Stores (x : Dispatcher κ) (stored : Option (ℕ × List κ)) : Prop where
  arrays : x.arrays = stored.map Prod.fst
  filled : ∀ n handles, stored = some (n, handles) →
    (∃ m, x.load.commands.hdls = filled m handles) ∧ x.load.commands.ncmd = handles.length

variable {env : Env} {ld : Linker κ} {path : Option (List Byte)} {os : Readings}
  {x x' : Dispatcher κ} {stored : Option (ℕ × List κ)}

/-- **What `_load_command` does for an entry**: the handle is kept if the command is stored. -/
theorem leads_entryCalls (ld : Linker κ) (path : List Byte) (name : FileName) :
    Leads 0 (entryCalls ld path name)
      (Multiset.ofList (((loaded ld path name).toList.map Prod.fst).map Resource.handle)) := by
  rw [entryCalls, loaded]
  rcases ld.dlopen (entryPath path name) with text | handle
  · exact .nil 0
  · dsimp only
    rcases ld.dlsym handle with ⟨_ | cmd, _ | err⟩
    · exact leads_acquire_release _ 0
    · exact leads_acquire_release _ 0
    · exact .acquire (.nil _)
    · exact leads_acquire_release _ 0

/-- **What the second pass does.** -/
theorem leads_entries (ld : Linker κ) (path : List Byte) (names : List FileName) :
    Leads 0 (names.flatMap (entryCalls ld path))
      (Multiset.ofList (((names.filterMap (loaded ld path)).map Prod.fst).map
        Resource.handle)) := by
  induction names with
  | nil => exact .nil 0
  | cons name names ih =>
    have hboth := (leads_entryCalls ld path name).append_add ih
    rw [Multiset.coe_add, ← List.map_append, ← List.map_append] at hboth
    rw [List.flatMap_cons, ← List.singleton_append, List.filterMap_append]
    have hfirst : [name].filterMap (loaded ld path) = (loaded ld path name).toList := by
      cases hl : loaded ld path name <;> simp [hl]
    rw [hfirst]
    exact hboth

/-- A load that does not come as far as its arrays changes nothing. -/
theorem load_of_not_allocates (hnot : ¬ os.Allocates)
    (hdefined : os.opens = false ∨ Countable os.listing) (env : Env) (ld : Linker κ)
    (path : Option (List Byte)) (st : LoadState κ) :
    ∃ rc, ducqDispatcherLoadCommandsPath env ld path os st = some (rc, st) := by
  rw [ducqDispatcherLoadCommandsPath]
  by_cases hopens : os.opens = false
  · exact ⟨_, if_pos hopens⟩
  · rw [if_neg hopens, countCommands_eq_of_countable (hdefined.resolve_left hopens)]
    simp only [Option.bind_eq_bind, Option.bind_some]
    by_cases hcloses : os.closes = false
    · exact ⟨_, if_pos hcloses⟩
    · have hallocates : os.allocates = false := by
        by_contra ha
        exact hnot ⟨Bool.eq_true_of_not_eq_false hopens, Bool.eq_true_of_not_eq_false hcloses,
          Bool.eq_true_of_not_eq_false ha⟩
      exact ⟨_, by rw [if_neg hcloses, if_pos hallocates]⟩

/-- One that does leaves in them what it has stored. -/
theorem load_of_allocates (ha : os.Allocates) (hcount : Countable os.listing) (env : Env)
    (ld : Linker κ) (path : Option (List Byte)) (st : LoadState κ) :
    ∃ rc st', ducqDispatcherLoadCommandsPath env ld path os st = some (rc, st') ∧
      st'.tried = st.tried ++ (if os.reopens then selected os.listing else []) ∧
      (∃ m, st'.commands.hdls = filled m (storedBy ld path os)) ∧
      st'.commands.ncmd = (storedBy ld path os).length := by
  obtain ⟨hopens, hcloses, hallocates⟩ := ha
  rw [ducqDispatcherLoadCommandsPath, if_neg (by rw [hopens]; decide),
    countCommands_eq_of_countable hcount]
  simp only [Option.bind_eq_bind, Option.bind_some]
  rw [if_neg (by rw [hcloses]; decide), if_neg (by rw [hallocates]; decide)]
  by_cases hreopens : os.reopens = false
  · have hnone : storedBy ld path os = [] := if_neg (by rw [hreopens]; decide)
    refine ⟨_, _, if_pos hreopens, ?_, ⟨(selected os.listing).length, ?_⟩, ?_⟩
    · rw [if_neg (by rw [hreopens]; decide), List.append_nil]
    · rw [hnone]
      simp [filled]
    · rw [hnone]
      rfl
  · have htrue := Bool.eq_true_of_not_eq_false hreopens
    have hall : storedBy ld path os =
        (loadedFrom ld (path.getD ducqCommandsPath) os.listing).map Prod.fst := if_pos htrue
    obtain ⟨st', hrun, hst'⟩ :=
      loadCommands_allocated env ld (path.getD ducqCommandsPath) os.listing st
    rw [allocated] at hrun
    rw [if_neg hreopens, hrun]
    refine ⟨_, st', rfl, ?_, ⟨_, by rw [hall]; exact hst'.hdls⟩, ?_⟩
    · rw [if_pos htrue]
      exact hst'.tried
    · rw [hall, List.length_map]
      exact hst'.ncmd

/-- The calls of a load that comes as far as its arrays. -/
theorem leads_loadCalls (ha : os.Allocates) (ld : Linker κ) (path : Option (List Byte)) (n : ℕ) :
    Leads 0 (loadCalls ld path os n (if os.reopens then selected os.listing else []))
      (holding (some (n, storedBy ld path os))) := by
  obtain ⟨hopens, hcloses, hallocates⟩ := ha
  rw [loadCalls, if_neg (by rw [hopens]; decide), if_neg (by simp [hcloses, hallocates])]
  refine (leads_acquire_release _ 0).append (.acquire ?_)
  by_cases hreopens : os.reopens = false
  · have hnone : storedBy ld path os = [] := if_neg (by rw [hreopens]; decide)
    rw [if_pos hreopens, hnone]
    exact .nil _
  · have htrue := Bool.eq_true_of_not_eq_false hreopens
    rw [if_neg hreopens, if_pos htrue, storedBy, if_pos htrue, holding]
    have hentries := leads_entries ld (path.getD ducqCommandsPath) (selected os.listing)
    -- the stream is open meanwhile
    have hall := hentries.add (.directory ::ₘ .arrays n ::ₘ 0)
    rw [zero_add, Multiset.add_cons, Multiset.add_cons, add_zero] at hall
    exact .acquire (hall.append (.release (.nil _)))

/-- **What a load does**: it has arrays of its own afterwards, with what it has stored in them,
or nothing has changed. -/
theorem Dispatcher.Stores.load (h : x.Stores stored)
    (hdefined : os.opens = false ∨ Countable os.listing) (env : Env) (ld : Linker κ)
    (path : Option (List Byte)) :
    ∃ x' calls, x.loadCommandsPath env ld path os = some (x', calls) ∧
      x'.L = x.L ∧ x'.notifyfd = x.notifyfd ∧
      if os.Allocates then
        x'.Stores (some (x.allocations, storedBy ld path os)) ∧
          x'.allocations = x.allocations + 1 ∧
          Leads 0 calls (holding (some (x.allocations, storedBy ld path os)))
      else x'.Stores stored ∧ x'.allocations = x.allocations ∧ Leads 0 calls 0 := by
  rw [Dispatcher.loadCommandsPath]
  by_cases ha : os.Allocates
  · have hcount : Countable os.listing :=
      hdefined.resolve_left fun hopens => Bool.false_ne_true (hopens.symm.trans ha.1)
    obtain ⟨rc, st', hload, htried, hhdls, hncmd⟩ := load_of_allocates ha hcount env ld path x.load
    rw [hload]
    simp only [Option.bind_eq_bind, Option.bind_some, if_pos ha]
    refine ⟨_, _, rfl, rfl, rfl, ⟨rfl, ?_⟩, rfl, ?_⟩
    · rintro n handles hsome
      obtain ⟨rfl, rfl⟩ := Prod.mk.inj (Option.some.inj hsome)
      exact ⟨hhdls, hncmd⟩
    · rw [htried, List.drop_left]
      exact leads_loadCalls ha ld path x.allocations
  · obtain ⟨rc, hload⟩ := load_of_not_allocates ha hdefined env ld path x.load
    rw [hload]
    simp only [Option.bind_eq_bind, Option.bind_some, if_neg ha]
    refine ⟨_, _, rfl, rfl, rfl, ⟨h.arrays, h.filled⟩, rfl, ?_⟩
    rw [loadCalls]
    split_ifs with hopens hrest
    · exact .nil 0
    · exact leads_acquire_release _ 0
    · refine absurd ⟨Bool.eq_true_of_not_eq_false hopens, ?_, ?_⟩ ha
      · exact Bool.eq_true_of_not_eq_false fun hc => hrest (.inl hc)
      · exact Bool.eq_true_of_not_eq_false fun hc => hrest (.inr hc)
    · refine absurd ⟨Bool.eq_true_of_not_eq_false hopens, ?_, ?_⟩ ha
      · exact Bool.eq_true_of_not_eq_false fun hc => hrest (.inl hc)
      · exact Bool.eq_true_of_not_eq_false fun hc => hrest (.inr hc)

/-- What the arrays that were there before and those of further deeds come to. -/
theorem holdings_cons (a : ℕ × List κ) (arrays : List (ℕ × List κ)) :
    holdings (a :: arrays) = holding (some a) + holdings arrays := by
  rw [holdings, List.map_cons, List.sum_cons, holdings]

theorem holdings_eq_zero_iff {arrays : List (ℕ × List κ)} : holdings arrays = 0 ↔ arrays = [] := by
  cases arrays with
  | nil => exact iff_of_true rfl rfl
  | cons a arrays =>
    refine iff_of_false (fun h => ?_) (List.cons_ne_nil _ _)
    rw [holdings_cons, holding, Multiset.cons_add] at h
    exact Multiset.cons_ne_zero h

/-- All of them are those but the last, and the last. -/
theorem holdings_eq_add (arrays : List (ℕ × List κ)) :
    holdings arrays = holdings arrays.dropLast + holding arrays.getLast? := by
  induction arrays using List.reverseRecOn with
  | nil => rfl
  | append_singleton arrays a _ =>
    rw [List.dropLast_concat, List.getLast?_concat, holdings, List.map_append, List.sum_append,
      holdings, List.map_singleton, List.sum_singleton]

/-- **What a run of deeds does**: all the arrays that were allocated are held, and the
dispatcher has the last of them. -/
theorem Dispatcher.Stores.deeds {deeds : List (Deed κ)} (h : x.Stores stored)
    (hdefined : ∀ deed ∈ deeds, deed.Defined) :
    ∃ x' calls, x.deeds deeds = some (x', calls) ∧ x'.L = x.L ∧ x'.notifyfd = x.notifyfd ∧
      x'.Stores ((allocatedBy deeds x.allocations).getLast?.or stored) ∧
      Leads 0 calls (holdings (allocatedBy deeds x.allocations)) := by
  induction deeds generalizing x stored with
  | nil => exact ⟨x, [], rfl, rfl, rfl, h, .nil 0⟩
  | cons deed deeds ih =>
    have hrest := fun d hd => hdefined d (List.mem_cons_of_mem _ hd)
    cases deed with
    | load env ld path os =>
      obtain ⟨x₁, calls₁, hstep, hL, hfd, hspec⟩ :=
        h.load (hdefined _ List.mem_cons_self) env ld path
      rw [Dispatcher.deeds, Dispatcher.deed, hstep]
      by_cases ha : os.Allocates
      · rw [if_pos ha] at hspec
        obtain ⟨hstores, hallocations, hleads⟩ := hspec
        obtain ⟨x', calls, hrun, hL', hfd', hstores', hleads'⟩ := ih hstores hrest
        rw [hallocations] at hstores' hleads'
        simp only [Option.bind_eq_bind, Option.bind_some, hrun]
        refine ⟨_, _, rfl, hL'.trans hL, hfd'.trans hfd, ?_, ?_⟩
        · rw [allocatedBy, if_pos ha, List.getLast?_cons]
          cases hl : (allocatedBy deeds (x.allocations + 1)).getLast? with
          | none =>
            rw [hl] at hstores'
            exact hstores'
          | some a =>
            rw [hl] at hstores'
            exact hstores'
        · rw [allocatedBy, if_pos ha, holdings_cons]
          exact hleads.append_add hleads'
      · rw [if_neg ha] at hspec
        obtain ⟨hstores, hallocations, hleads⟩ := hspec
        obtain ⟨x', calls, hrun, hL', hfd', hstores', hleads'⟩ := ih hstores hrest
        rw [hallocations] at hstores' hleads'
        simp only [Option.bind_eq_bind, Option.bind_some, hrun]
        refine ⟨_, _, rfl, hL'.trans hL, hfd'.trans hfd, ?_, ?_⟩
        · rw [allocatedBy, if_neg ha]
          exact hstores'
        · rw [allocatedBy, if_neg ha]
          exact hleads.append hleads'
    | other f =>
      have hstores : Dispatcher.Stores
          { x with load := { x.load with logged := f x.load.logged } } stored :=
        ⟨h.arrays, h.filled⟩
      obtain ⟨x', calls, hrun, hL', hfd', hstores', hleads'⟩ := ih hstores hrest
      rw [Dispatcher.deeds, Dispatcher.deed]
      simp only [Option.bind_eq_bind, Option.bind_some, hrun]
      exact ⟨_, _, rfl, hL', hfd', hstores', hleads'⟩

/-! ## The end -/

/-- The places that were written are read. -/
theorem closeHandles_range' {m : ℕ} {handles pre rest : List κ} (h : handles = pre ++ rest) :
    closeHandles (filled m handles) (List.range' pre.length rest.length) =
      some ((rest.map Resource.handle).map .release) := by
  induction rest generalizing pre with
  | nil => rfl
  | cons handle rest ih =>
    have hget : (filled m handles)[pre.length]? = some (some handle) := by
      rw [filled, h, List.map_append, List.append_assoc,
        List.getElem?_append_right (by rw [List.length_map]), List.length_map, Nat.sub_self]
      rfl
    have hrest := @ih (pre ++ [handle]) (by rw [h, List.append_assoc]; rfl)
    rw [List.length_append, List.length_singleton] at hrest
    rw [List.length_cons, List.range'_succ, closeHandles, hget]
    simp only [Option.bind_eq_bind, Option.bind_some, hrest]
    rfl

/-- **What freeing does**: it releases what the dispatcher has. -/
theorem Dispatcher.Stores.free (h : x.Stores stored) :
    ∃ calls, freeReactor x = some calls ∧
      Leads (holding stored + ((if x.L then {.lua} else 0) +
        ((if x.notifyfd then {.notifyfd} else 0) + {.dispatcher, .reactor}))) calls 0 := by
  have hrest : Leads ((if x.L then {.lua} else 0) +
      ((if x.notifyfd then {.notifyfd} else 0) + {.dispatcher, .reactor}))
      ((if x.L then [.release .lua] else []) ++
        ((if x.notifyfd then [.release .notifyfd] else []) ++
          [.release .dispatcher, .release .reactor])) (0 : Multiset (Resource κ)) :=
    (leads_release_if x.L _ _).append ((leads_release_if x.notifyfd _ _).append
      (.release (.release (.nil 0))))
  rw [freeReactor, ducqDispatcherFree, h.arrays]
  rcases stored with - | ⟨n, handles⟩
  · refine ⟨_, rfl, ?_⟩
    rw [holding, zero_add]
    simpa using hrest
  · obtain ⟨⟨m, hhdls⟩, hncmd⟩ := h.filled n handles rfl
    have hclose := @closeHandles_range' κ m handles [] handles rfl
    rw [List.length_nil, ← List.range_eq_range'] at hclose
    have harrays : Leads (holding (some (n, handles)) + ((if x.L then {.lua} else 0) +
        ((if x.notifyfd then {.notifyfd} else 0) + {.dispatcher, .reactor})))
        ((handles.map Resource.handle).map .release ++ [.release (.arrays n)])
        ((if x.L then {.lua} else 0) +
          ((if x.notifyfd then {.notifyfd} else 0) + {.dispatcher, .reactor})) := by
      rw [holding, Multiset.cons_add, ← Multiset.add_cons]
      exact (leads_release _ _).append (.release (.nil _))
    rw [hhdls, hncmd, Int.toNat_natCast]
    simp only [Option.map_some, hclose, Option.bind_eq_bind, Option.bind_some]
    refine ⟨_, rfl, ?_⟩
    have hall := harrays.append hrest
    simpa using hall

/-! ## The beginning -/

/-- What is held when a reactor has been made. -/
theorem ducqReactorNewWithLog_spec (env : Env) (os : Birth) (acceptF ctx : ℕ) :
    ∃ made calls, ducqReactorNewWithLog (κ := κ) env os acceptF ctx = (made, calls) ∧
      if os.Succeeds then ∃ x, made = some x ∧ x.Stores none ∧ x.allocations = 0 ∧
        Leads 0 calls ((if x.L then {.lua} else 0) +
          ((if x.notifyfd then {.notifyfd} else 0) + {.dispatcher, .reactor}))
      else made = none ∧ Leads 0 calls (if os.LosesNotifyfd then {.notifyfd} else 0) := by
  obtain ⟨signal, reactor, notifyfd, dispatcher, package⟩ := os
  rw [ducqReactorNewWithLog]
  cases signal with
  | false => exact ⟨_, _, rfl, rfl, .nil 0⟩
  | true =>
    cases reactor with
    | false => exact ⟨_, _, rfl, rfl, .nil 0⟩
    | true =>
      cases notifyfd with
      | none => exact ⟨_, _, rfl, rfl, leads_acquire_release _ 0⟩
      | some fd =>
        cases dispatcher with
        | false =>
          refine ⟨_, _, rfl, rfl, .acquire (.acquire ?_)⟩
          rw [Multiset.cons_swap]
          exact .release (.nil _)
        | true =>
          cases package with
          | ok u =>
            refine ⟨_, _, rfl, _, rfl, ⟨rfl, fun _ _ h => absurd h (Option.some_ne_none _).symm⟩,
              rfl, .acquire (.acquire (.acquire (.acquire ?_)))⟩
            rw [Multiset.cons_swap Resource.dispatcher Resource.notifyfd]
            exact .nil _
          | error text =>
            refine ⟨_, _, rfl, _, rfl, ⟨rfl, fun _ _ h => absurd h (Option.some_ne_none _).symm⟩,
              rfl, .acquire (.acquire (.acquire (.acquire (.release ?_))))⟩
            rw [Multiset.cons_swap]
            exact .release (.nil _)

/-- **What a reactor leaves behind.**  A reactor is made, whatever the system answers to that;
native commands are loaded any number of times, from directories whose entries can be counted
or which cannot be opened, and other things are done to it which leave nothing acquired; it is
freed.  Nothing is released that is not held, and what is held in the end is exactly this: the
arrays of every load but the last that came as far as having some, with the handles stored in
them; and the descriptor of `inotify`, if it was for want of memory that there was no
dispatcher. -/
theorem lifecycle_exact (env : Env) (os : Birth) (acceptF ctx : ℕ) {deeds : List (Deed κ)}
    (hdefined : ∀ deed ∈ deeds, deed.Defined) :
    ∃ calls, lifetime env os acceptF ctx deeds = some calls ∧
      (∀ held, Leads 0 calls held ↔ held = leftBehind os deeds) ∧
      (leftBehind os deeds = 0 ↔
        ¬ os.LosesNotifyfd ∧ (os.Succeeds → (allocatedBy deeds 0).length ≤ 1)) := by
  obtain ⟨made, calls, hmade, hspec⟩ := ducqReactorNewWithLog_spec (κ := κ) env os acceptF ctx
  have hempty : leftBehind os deeds = 0 ↔
      ¬ os.LosesNotifyfd ∧ (os.Succeeds → (allocatedBy deeds 0).length ≤ 1) := by
    rw [leftBehind]
    by_cases hborn : os.Succeeds
    · have hnot : ¬ os.LosesNotifyfd := fun h => by
        have := hborn.2.2.2.symm.trans h.2.2.2
        exact absurd this (by decide)
      rw [if_pos hborn, holdings_eq_zero_iff, and_iff_right hnot, ← List.length_eq_zero_iff,
        List.length_dropLast, Nat.sub_eq_zero_iff_le]
      exact ⟨fun h _ => h, fun h => h hborn⟩
    · rw [if_neg hborn]
      by_cases hloses : os.LosesNotifyfd
      · rw [if_pos hloses]
        exact iff_of_false (Multiset.singleton_ne_zero _) fun h => h.1 hloses
      · rw [if_neg hloses]
        exact iff_of_true rfl ⟨hloses, fun h => absurd h hborn⟩
  have honly : ∀ {calls : List (Entry (Resource κ))}, Leads 0 calls (leftBehind os deeds) →
      ∀ held, Leads 0 calls held ↔ held = leftBehind os deeds := fun hleads held =>
    ⟨fun h => h.unique hleads, fun h => h ▸ hleads⟩
  rw [lifetime, hmade]
  by_cases hborn : os.Succeeds
  · rw [if_pos hborn] at hspec
    obtain ⟨x, rfl, hstores, hallocations, hleads⟩ := hspec
    obtain ⟨x', calls', hdeeds, hL, hfd, hstores', hleads'⟩ := hstores.deeds hdefined
    obtain ⟨calls'', hfree, hleads''⟩ := hstores'.free
    rw [hallocations] at hleads' hleads''
    simp only [hdeeds, hfree, Option.bind_eq_bind, Option.bind_some]
    refine ⟨_, rfl, honly ?_, hempty⟩
    rw [leftBehind, if_pos hborn]
    rw [hL, hfd, Option.or_none] at hleads''
    have hloaded := hleads'.add ((if x.L then {.lua} else 0) +
      ((if x.notifyfd then {.notifyfd} else 0) + {.dispatcher, .reactor}))
    have hfreed := hleads''.add (holdings (allocatedBy deeds 0).dropLast)
    rw [zero_add, holdings_eq_add, add_assoc] at hloaded
    rw [zero_add, add_comm] at hfreed
    exact hleads.append (hloaded.append hfreed)
  · rw [if_neg hborn] at hspec
    obtain ⟨rfl, hleads⟩ := hspec
    refine ⟨_, rfl, honly ?_, hempty⟩
    rw [leftBehind, if_neg hborn]
    exact hleads

end

/-- A file with a command in it. -/
def pingSo : FileName where
  bytes := ascii "PING.so"
  ne_nil := by decide
  zero_notMem := by decide
  slash_notMem := by decide

/-- The directory is loaded, and loaded again. -/
def loadedTwice : List (Deed Unit) :=
  let ld : Linker Unit :=
    ⟨fun _ => .ok (), fun _ => (some ⟨ascii "PING", [], fun _ _ _ s => (.ok, s)⟩, none)⟩
  [.load Env.quiet ld none (.of [pingSo]), .other id, .load Env.quiet ld none (.of [pingSo])]

/-- The arrays of the first load are left, and the handle in them. -/
theorem lifecycle_exact_loadedTwice :
    ∃ calls, lifetime Env.quiet ⟨true, true, some 3, true, .ok ()⟩ 1 2 loadedTwice = some calls ∧
      ∀ held, Leads 0 calls held ↔ held = {.arrays 0, .handle ()} := by
  obtain ⟨calls, hcalls, hheld, -⟩ :=
    @lifecycle_exact Unit Env.quiet ⟨true, true, some 3, true, .ok ()⟩ 1 2 loadedTwice (by
      intro deed hdeed
      simp only [loadedTwice, List.mem_cons, List.not_mem_nil, or_false] at hdeed
      rcases hdeed with rfl | rfl | rfl
      · exact .inr (by unfold Countable; decide)
      · trivial
      · exact .inr (by unfold Countable; decide))
  exact ⟨calls, hcalls, hheld⟩

end Ducq
