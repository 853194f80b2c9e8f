import Ducq.Lib.Registry
import Ducq.Reactor.Invariant

/-!
# The connection table is a bounded registry

A run of the table is a sequence of the calls that change it or walk it: adding a
server or a client, subscribing, deleting, and looping with a hook that answers what it
likes.  A hook without effects of its own is a function of what it has been called with
so far, so `TableOp.loop` takes that function.

`Refines w r` says that the registry `r` is what is in the table: the registered
pointers are its keys, the stored routes are its values, the servers are its other
entries.  Every step of a run is a step of the registry with the same answer
(`table_step`), one lemma for each operation, and a run is a run
(`connections_refine_registry`).  The loop is where the two sides differ most; the
registry loops over its entries in any order, the table over its slots, and the
simulation rule of `Sweep` relates them.
-/

namespace Ducq

open CMemory CNumber Sweep

/-! ## Runs of the table -/

/-- A call that changes the table or walks it. -/
inductive TableOp where
  | addServer (fd : ℤ) (acceptF ctx : ℕ)
  | addClient (fd : ℤ) (d : DucqI)
  | subscribe (d : DucqI) (route : List Byte)
  | delete (d : DucqI)
  | loop (control : List (DucqI × List Byte) → ℕ)

/-- What it returns, or what its hook has been called with. -/
inductive TableResult where
  | state (s : DucqState)
  | deleted (found : Bool)
  | visited (vs : List (DucqI × List Byte))

/-- A hook that remembers what it is called with and answers what `control` says. -/
def visitHook (control : List (DucqI × List Byte) → ℕ) : DucqLoopF (List (DucqI × List Byte)) :=
  fun d route seen w => (control (seen ++ [(d, cstr route)]), seen ++ [(d, cstr route)], w)

/-- One call. -/
def TableOp.run (env : Env) : TableOp → World → TableResult × World
  | .addServer fd acceptF ctx, w =>
    let (s, w) := ducqReactorAddServer fd acceptF ctx w
    (.state s, w)
  | .addClient fd d, w =>
    let (s, w) := ducqReactorAddClient fd d w
    (.state s, w)
  | .subscribe d route, w =>
    let (s, w) := ducqReactorSubscribe d route w
    (.state s, w)
  | .delete d, w =>
    let (found, w) := ducqReactorDelete env d w
    (.deleted found, w)
  | .loop control, w =>
    let (_, vs, w) := ducqReactorLoop env (visitHook control) [] w
    (.visited vs, w)

/-- One call after another. -/
def runTable (env : Env) : List TableOp → World → List TableResult × World
  | [], w => ([], w)
  | op :: ops, w =>
    let (res, w) := op.run env w
    let (ress, w) := runTable env ops w
    (res :: ress, w)

instance (w : World) (d : DucqI) : Decidable (Registered w d) :=
  inferInstanceAs (Decidable (∃ i, (w.conn i).IsClient ∧ (w.conn i).word = d))

/-- What the callers see to: descriptors are not negative, a new client is not NULL, is
not registered and is no callback, and a subscriber is registered and its route short. -/
def TableOp.Valid (isCode : ℕ → Prop) (w : World) : TableOp → Prop
  | .addServer fd acceptF _ => 0 ≤ fd ∧ isCode acceptF
  | .addClient fd d => 0 ≤ fd ∧ d ≠ 0 ∧ ¬ isCode d ∧ ¬ Registered w d
  | .subscribe d route => Registered w d ∧ (cstr route).length < ducqMaxRouteLen
  | .delete _ => True
  | .loop _ => True

instance (isCode : ℕ → Prop) [DecidablePred isCode] (w : World) (op : TableOp) :
    Decidable (op.Valid isCode w) :=
  match op with
  | .addServer fd acceptF _ => inferInstanceAs (Decidable (0 ≤ fd ∧ isCode acceptF))
  | .addClient fd d => inferInstanceAs (Decidable (0 ≤ fd ∧ d ≠ 0 ∧ ¬ isCode d ∧ ¬ Registered w d))
  | .subscribe d route =>
    inferInstanceAs (Decidable (Registered w d ∧ (cstr route).length < ducqMaxRouteLen))
  | .delete _ => instDecidableTrue
  | .loop _ => instDecidableTrue

/-- Every call of the run is one its caller may make. -/
def ValidRun (isCode : ℕ → Prop) (env : Env) : List TableOp → World → Prop
  | [], _ => True
  | op :: ops, w => op.Valid isCode w ∧ ValidRun isCode env ops (op.run env w).2

instance decidableValidRun (isCode : ℕ → Prop) [DecidablePred isCode] (env : Env) :
    (ops : List TableOp) → (w : World) → Decidable (ValidRun isCode env ops w)
  | [], _ => instDecidableTrue
  | op :: ops, w =>
    have := decidableValidRun isCode env ops (op.run env w).2
    inferInstanceAs (Decidable (op.Valid isCode w ∧ ValidRun isCode env ops (op.run env w).2))

/-! ## The registry behind the table -/

/-- A control, read bit by bit. -/
def controlSpec (control : List (DucqI × List Byte) → ℕ) (vs : List (DucqI × List Byte)) :
    Registry.Control :=
  ⟨control vs &&& ducqLoopBreak ≠ 0, control vs &&& ducqLoopDelete ≠ 0⟩

/-- What a call asks of the registry. -/
def TableOp.spec : TableOp → Registry.Op DucqI (List Byte)
  | .addServer _ _ _ => .addOther
  | .addClient _ d => .add d
  | .subscribe d route => .write d (cstr route)
  | .delete d => .remove d
  | .loop control => .loop (controlSpec control)

/-- What its answer means there. -/
def TableResult.spec : TableResult → Registry.Result DucqI (List Byte)
  | .state s => if s = .ok then .accepted else .refused
  | .deleted found => if found then .accepted else .refused
  | .visited vs => .visited vs

/-- Every registered client's route ends inside its array. -/
def RoutesTerminated (w : World) : Prop :=
  ∀ i, (w.conn i).IsClient → (w.conn i).bytes.Terminated

instance (w : World) : Decidable (RoutesTerminated w) :=
  inferInstanceAs (Decidable (∀ i, (w.conn i).IsClient → (w.conn i).bytes.Terminated))

/-- How many servers there are. -/
def serverCount (w : World) : ℕ :=
  (Finset.univ.filter fun i => (w.conn i).IsServer).card

/-- The registry is what is in the table. -/
structure Refines (w : World) (r : Registry DucqI (List Byte) ducqMaxConnections) : Prop where
  mem_keys : ∀ d, d ∈ r.keys ↔ Registered w d
  value : ∀ i, (w.conn i).IsClient → r.value (w.conn i).word = cstr (w.conn i).bytes.bytes
  others : r.others = serverCount w

variable {isCode : ℕ → Prop} {env : Env}

theorem refines_init : Refines World.init (Registry.empty []) where
  mem_keys d := by
    refine iff_of_false (Finset.notMem_empty d) ?_
    rintro ⟨i, hi, -⟩
    exact not_live_init i hi.1
  value i hi := absurd hi.1 (not_live_init i)
  others := by
    have hnone : ∀ i, ¬ (World.init.conn i).IsServer := fun i hi => not_live_init i hi.1
    simp [serverCount, hnone, Registry.empty]

theorem routesTerminated_init : RoutesTerminated World.init :=
  fun i hi => absurd hi.1 (not_live_init i)

/-- **No room is left exactly when no slot is free.** -/
theorem Refines.full_iff {w : World} {r : Registry DucqI (List Byte) ducqMaxConnections}
    (h : TableInv isCode w) (hr : Refines w r) : r.Full ↔ firstFree w = none := by
  have hkeys : r.keys = (Finset.univ.filter fun i => (w.conn i).IsClient).image
      fun i => (w.conn i).word := by
    ext d
    rw [hr.mem_keys, Finset.mem_image]
    simp [Registered]
  have hcard : r.keys.card = (Finset.univ.filter fun i => (w.conn i).IsClient).card := by
    rw [hkeys]
    refine Finset.card_image_of_injOn fun i hi j hj hij => ?_
    simp only [Finset.coe_filter, Finset.mem_univ, true_and, Set.mem_ofPred_eq] at hi hj
    exact h.unique hi hj hij
  have hlive : (Finset.univ.filter fun i => (w.conn i).Live) =
      (Finset.univ.filter fun i => (w.conn i).IsClient) ∪
        Finset.univ.filter fun i => (w.conn i).IsServer := by
    ext i
    simp only [Finset.mem_filter, Finset.mem_univ, true_and, Finset.mem_union]
    constructor
    · intro hi
      cases htype : (w.conn i).type with
      | client => exact Or.inl ⟨hi, htype⟩
      | server => exact Or.inr ⟨hi, htype⟩
    · rintro (hi | hi)
      · exact hi.1
      · exact hi.1
  have hdisjoint : Disjoint (Finset.univ.filter fun i => (w.conn i).IsClient)
      (Finset.univ.filter fun i => (w.conn i).IsServer) := by
    rw [Finset.disjoint_filter]
    intro i _ hc hs
    exact absurd (hc.2.symm.trans hs.2) (by decide)
  rw [Registry.Full, hcard, hr.others, serverCount, ← Finset.card_union_of_disjoint hdisjoint,
    ← hlive, firstFree_eq_none]
  constructor
  · intro hfull i
    have huniv : (Finset.univ.filter fun i => (w.conn i).Live) = Finset.univ :=
      Finset.eq_univ_of_card _ (by rw [hfull, Fintype.card_fin])
    have hi := Finset.mem_univ i
    rw [← huniv, Finset.mem_filter] at hi
    exact hi.2
  · intro hall
    rw [Finset.filter_true_of_mem fun i _ => hall i, Finset.card_univ, Fintype.card_fin]

/-- Where a slot is free there is room. -/
theorem Refines.not_full {w : World} {r : Registry DucqI (List Byte) ducqMaxConnections}
    (h : TableInv isCode w) (hr : Refines w r) {i : Fin ducqMaxConnections}
    (hfree : firstFree w = some i) : ¬ r.Full := by
  rw [hr.full_iff h, hfree]
  exact Option.some_ne_none i

/-! ## Adding -/

/-- Who is registered once a free slot has been filled. -/
theorem registered_setConn {w : World} {i : Fin ducqMaxConnections} {c : Connection}
    (hi : ¬ (w.conn i).Live) (d : DucqI) :
    Registered (w.setConn i c) d ↔ (c.IsClient ∧ c.word = d) ∨ Registered w d := by
  constructor
  · rintro ⟨j, hj, hword⟩
    by_cases hji : j = i
    · subst hji
      rw [World.conn_setConn_self] at hj hword
      exact Or.inl ⟨hj, hword⟩
    · rw [World.conn_setConn_of_ne w hji] at hj hword
      exact Or.inr ⟨j, hj, hword⟩
  · rintro (h | ⟨j, hj, hword⟩)
    · refine ⟨i, ?_⟩
      rwa [World.conn_setConn_self]
    · have hji : j ≠ i := by
        rintro rfl
        exact hi hj.1
      refine ⟨j, ?_⟩
      rw [World.conn_setConn_of_ne w hji]
      exact ⟨hj, hword⟩

theorem serverCount_setConn {w : World} {i : Fin ducqMaxConnections} {c : Connection}
    (hi : ¬ (w.conn i).IsServer) :
    serverCount (w.setConn i c) = serverCount w + if c.IsServer then 1 else 0 := by
  have hset : (Finset.univ.filter fun j => ((w.setConn i c).conn j).IsServer) =
      if c.IsServer then Insert.insert i (Finset.univ.filter fun j => (w.conn j).IsServer)
      else Finset.univ.filter fun j => (w.conn j).IsServer := by
    ext j
    by_cases hji : j = i
    · subst hji
      split_ifs with hc
      · simp [hc]
      · simp [hc, hi]
    · split_ifs
      · simp [World.conn_setConn_of_ne w hji, hji]
      · simp [World.conn_setConn_of_ne w hji]
  rw [serverCount, hset]
  split_ifs
  · rw [Finset.card_insert_of_notMem (by simp [hi]), serverCount]
  · rfl

/-- `TableInv`, the terminated routes and the registry, kept by a step. -/
structure Simulated (isCode : ℕ → Prop) (w : World)
    (r : Registry DucqI (List Byte) ducqMaxConnections) : Prop where
  inv : TableInv isCode w
  terminated : RoutesTerminated w
  refines : Refines w r

variable {w : World} {r : Registry DucqI (List Byte) ducqMaxConnections}

theorem terminated_setConn {i : Fin ducqMaxConnections} {c : Connection}
    (h : RoutesTerminated w) (hc : c.IsClient → c.bytes.Terminated) :
    RoutesTerminated (w.setConn i c) := by
  intro j hj
  by_cases hji : j = i
  · subst hji
    rw [World.conn_setConn_self] at hj ⊢
    exact hc hj
  · rw [World.conn_setConn_of_ne w hji] at hj ⊢
    exact h j hj

theorem addClient_step (h : Simulated isCode w r) {fd : ℤ} {d : DucqI}
    (hvalid : (TableOp.addClient fd d).Valid isCode w) :
    ∃ r', Registry.Step [] r (.add d)
        (TableResult.spec (.state (ducqReactorAddClient fd d w).1)) r' ∧
      Simulated isCode (ducqReactorAddClient fd d w).2 r' := by
  obtain ⟨hfd, h0, hcode, hnew⟩ := hvalid
  have hinv := @TableInv.addClient isCode w h.inv fd d h0 hcode hnew
  cases hfree : firstFree w with
  | none =>
    have hfull := (h.refines.full_iff h.inv).mpr hfree
    rw [ducqReactorAddClient, hfree]
    exact ⟨r, Registry.Step.addFull hfull, h⟩
  | some i =>
    have hi := (firstFree_eq_some.mp hfree).1
    have hroom := h.refines.not_full h.inv hfree
    have hd : d ∉ r.keys := by
      rw [h.refines.mem_keys]
      exact hnew
    rw [ducqReactorAddClient, hfree] at hinv ⊢
    set c : Connection :=
      { fd := fd, type := .client, word := d,
        bytes := (w.conn i).bytes.overwrite [0] (by decide) } with hc
    have hclient : c.IsClient := ⟨fun hneg => by
      rw [show c.fd = fd from rfl] at hneg
      omega, rfl⟩
    have hbytes : cstr c.bytes.bytes = [] := rfl
    refine ⟨r.insert d [] hd hroom, Registry.Step.add hd hroom, hinv, ?_, ?_, ?_, ?_⟩
    · exact terminated_setConn h.terminated fun _ => List.mem_cons_self
    · intro x
      rw [registered_setConn hi, ← h.refines.mem_keys]
      show x ∈ Insert.insert d r.keys ↔ _
      rw [Finset.mem_insert]
      exact or_congr ⟨fun hx => ⟨hclient, hx.symm⟩, fun hx => hx.2.symm⟩ Iff.rfl
    · intro j hj
      show Function.update r.value d [] _ = _
      by_cases hji : j = i
      · subst hji
        rw [World.conn_setConn_self, hbytes]
        exact Function.update_self d [] r.value
      · rw [World.conn_setConn_of_ne w hji] at hj ⊢
        rw [Function.update_of_ne fun hword => hnew ⟨j, hj, hword⟩]
        exact h.refines.value j hj
    · show r.others = _
      rw [serverCount_setConn fun hs => hi hs.1, if_neg hclient.not_isServer]
      exact h.refines.others

theorem addServer_step (h : Simulated isCode w r) {fd : ℤ} {acceptF ctx : ℕ}
    (hvalid : (TableOp.addServer fd acceptF ctx).Valid isCode w) :
    ∃ r', Registry.Step [] r .addOther
        (TableResult.spec (.state (ducqReactorAddServer fd acceptF ctx w).1)) r' ∧
      Simulated isCode (ducqReactorAddServer fd acceptF ctx w).2 r' := by
  obtain ⟨hfd, hcode⟩ := hvalid
  have hinv := @TableInv.addServer isCode w h.inv fd acceptF ctx hcode
  cases hfree : firstFree w with
  | none =>
    have hfull := (h.refines.full_iff h.inv).mpr hfree
    rw [ducqReactorAddServer, hfree]
    exact ⟨r, Registry.Step.addOtherFull hfull, h⟩
  | some i =>
    have hi := (firstFree_eq_some.mp hfree).1
    have hroom := h.refines.not_full h.inv hfree
    rw [ducqReactorAddServer, hfree] at hinv ⊢
    set c : Connection :=
      { fd := fd, type := .server, word := acceptF,
        bytes := (w.conn i).bytes.overwrite (toLittleEndian 8 ctx)
          (by rw [length_toLittleEndian]; decide) } with hc
    have hserver : c.IsServer := ⟨fun hneg => by
      rw [show c.fd = fd from rfl] at hneg
      omega, rfl⟩
    have hnotClient : ¬ c.IsClient := fun hclient => hclient.not_isServer hserver
    refine ⟨r.addOther hroom, Registry.Step.addOther hroom, hinv, ?_, ?_, ?_, ?_⟩
    · exact terminated_setConn h.terminated fun hclient => absurd hclient hnotClient
    · intro x
      rw [registered_setConn hi, ← h.refines.mem_keys]
      exact ⟨Or.inr, fun hx => hx.resolve_left fun hx => hnotClient hx.1⟩
    · intro j hj
      by_cases hji : j = i
      · subst hji
        rw [World.conn_setConn_self] at hj
        exact absurd hj hnotClient
      · rw [World.conn_setConn_of_ne w hji] at hj ⊢
        exact h.refines.value j hj
    · show r.others + 1 = _
      rw [serverCount_setConn fun hs => hi hs.1, if_pos hserver, h.refines.others]

/-! ## Subscribing -/

theorem subscribe_step (h : Simulated isCode w r) {d : DucqI} {route : List Byte}
    (hvalid : (TableOp.subscribe d route).Valid isCode w) :
    ∃ r', Registry.Step [] r (.write d (cstr route))
        (TableResult.spec (.state (ducqReactorSubscribe d route w).1)) r' ∧
      Simulated isCode (ducqReactorSubscribe d route w).2 r' := by
  obtain ⟨⟨i, hi, rfl⟩, hlen⟩ := hvalid
  have hinv := @TableInv.subscribe isCode w h.inv (w.conn i).word route
  have hi' : (w.conn i).word ∈ r.keys := (h.refines.mem_keys _).mpr ⟨i, hi, rfl⟩
  rw [h.inv.subscribe_eq hi] at hinv ⊢
  refine ⟨r.write (w.conn i).word (cstr route), Registry.Step.write hi' _, hinv, ?_, ?_, ?_, ?_⟩
  · exact terminated_setConn h.terminated fun _ => CharArray.terminated_strncpy_iff.mpr hlen
  · intro x
    rw [show (r.write (w.conn i).word (cstr route)).keys = r.keys from rfl, h.refines.mem_keys]
    constructor
    · rintro ⟨j, hj, hword⟩
      refine ⟨j, ?_⟩
      by_cases hji : j = i
      · subst hji
        rw [World.conn_setConn_self]
        exact ⟨hj, hword⟩
      · rw [World.conn_setConn_of_ne w hji]
        exact ⟨hj, hword⟩
    · rintro ⟨j, hj, hword⟩
      refine ⟨j, ?_⟩
      by_cases hji : j = i
      · subst hji
        rw [World.conn_setConn_self] at hj hword
        exact ⟨hj, hword⟩
      · rw [World.conn_setConn_of_ne w hji] at hj hword
        exact ⟨hj, hword⟩
  · intro j hj
    show Function.update r.value (w.conn i).word (cstr route) _ = _
    by_cases hji : j = i
    · subst hji
      rw [World.conn_setConn_self, CharArray.cstr_strncpy_of_lt hlen]
      exact Function.update_self _ _ _
    · rw [World.conn_setConn_of_ne w hji] at hj ⊢
      rw [Function.update_of_ne fun hword => hji (h.inv.unique hj hi hword)]
      exact h.refines.value j hj
  · show r.others = _
    have hs : ¬ (w.conn i).IsServer := hi.not_isServer
    rw [serverCount_setConn hs, h.refines.others]
    split_ifs with hs'
    · exact absurd hs' hs
    · rfl

/-! ## Deleting and looping -/

/-- Some clients are gone, and nothing else has changed. -/
theorem Simulated.removeAll (h : Simulated isCode w r) {w' : World} {gone : List DucqI}
    (hw' : ∀ i, w'.conn i =
      if (w.conn i).IsClient ∧ (w.conn i).word ∈ gone then (w.conn i).freed else w.conn i) :
    Simulated isCode w' (r.removeAll gone) := by
  have hfrees := OnlyFrees.of_ite hw'
  have hserver : ∀ i, (w'.conn i).IsServer ↔ (w.conn i).IsServer := by
    intro i
    refine ⟨hfrees.isServer, fun hi => ?_⟩
    rw [hw', if_neg fun hc => hc.1.not_isServer hi]
    exact hi
  refine ⟨h.inv.onlyFrees hfrees, ?_, ?_, ?_, ?_⟩
  · intro i hi
    rw [hfrees.conn_eq hi]
    exact h.terminated i (hfrees.isClient hi)
  · intro d
    show d ∈ r.keys.filter (· ∉ gone) ↔ _
    rw [Finset.mem_filter, h.refines.mem_keys]
    constructor
    · rintro ⟨⟨i, hi, rfl⟩, hgone⟩
      refine ⟨i, ?_⟩
      rw [hw', if_neg fun hc => hgone hc.2]
      exact ⟨hi, rfl⟩
    · rintro ⟨i, hi, rfl⟩
      have hsame := hfrees.conn_eq hi
      have hi₀ := hfrees.isClient hi
      refine ⟨⟨i, hi₀, by rw [hsame]⟩, fun hgone => ?_⟩
      rw [hsame] at hgone
      rw [hw', if_pos ⟨hi₀, hgone⟩] at hi
      exact (w.conn i).not_isClient_freed hi
  · intro i hi
    rw [hfrees.conn_eq hi]
    exact h.refines.value i (hfrees.isClient hi)
  · show r.others = _
    rw [h.refines.others, serverCount, serverCount]
    simp only [hserver]

theorem delete_step (h : Simulated isCode w r) (d : DucqI) :
    ∃ r', Registry.Step [] r (.remove d)
        (TableResult.spec (.deleted (ducqReactorDelete env d w).1)) r' ∧
      Simulated isCode (ducqReactorDelete env d w).2 r' := by
  by_cases hd : Registered w d
  · obtain ⟨i, hi, rfl⟩ := hd
    have hi' : (w.conn i).word ∈ r.keys := (h.refines.mem_keys _).mpr ⟨i, hi, rfl⟩
    rw [h.inv.delete_eq hi]
    refine ⟨_, Registry.Step.remove hi', h.removeAll fun j => ?_⟩
    rw [conn_connectionFree]
    by_cases hji : j = i
    · subst hji
      rw [if_pos rfl, if_pos ⟨hi, List.mem_singleton.mpr rfl⟩]
    · rw [if_neg hji, if_neg fun hj => hji (h.inv.unique hj.1 hi (List.mem_singleton.mp hj.2))]
  · have hd' : d ∉ r.keys := by
      rw [h.refines.mem_keys]
      exact hd
    rw [TableInv.delete_eq_of_not_registered hd]
    exact ⟨r, Registry.Step.removeMissing hd', h⟩

/-- What a loop sees in a slot. -/
def slotEntry (w : World) (i : Fin ducqMaxConnections) : Option (DucqI × List Byte) :=
  if (w.conn i).IsClient then some ((w.conn i).word, cstr (w.conn i).bytes.bytes) else none

/-- The entries in the order of their slots. -/
def slotEnumeration (h : Simulated isCode w r) : Registry.Enumeration r where
  entries := (List.finRange ducqMaxConnections).filterMap (slotEntry w)
  nodup := by
    rw [List.map_filterMap]
    refine (List.nodup_finRange _).filterMap fun i j d hi hj => ?_
    simp only [slotEntry, Option.mem_def, Option.map_eq_some_iff, Option.ite_none_right_eq_some,
      Option.some.injEq] at hi hj
    obtain ⟨-, ⟨hci, rfl⟩, hid⟩ := hi
    obtain ⟨-, ⟨hcj, rfl⟩, hjd⟩ := hj
    exact h.inv.unique hci hcj (hid.trans hjd.symm)
  mem_iff d route := by
    simp only [List.mem_filterMap, List.mem_finRange, true_and, slotEntry,
      Option.ite_none_right_eq_some, Option.some.injEq, Prod.mk.injEq, h.refines.mem_keys]
    constructor
    · rintro ⟨i, hi, rfl, rfl⟩
      exact ⟨⟨i, hi, rfl⟩, h.refines.value i hi⟩
    · rintro ⟨⟨i, hi, rfl⟩, rfl⟩
      exact ⟨i, hi, rfl, (h.refines.value i hi).symm⟩

/-- The relation between a loop over the slots and the loop over the entries: what has
been seen is the same, the clients that were to go are gone, and the slots still to
come are as they were. -/
def LoopRel (w : World) (rest : List (Fin ducqMaxConnections))
    (s : ℕ × List (DucqI × List Byte) × World) (t : List (DucqI × List Byte) × List DucqI) :
    Prop :=
  rest.Nodup ∧ s.2.1 = t.1 ∧
    (∀ i, s.2.2.conn i = if (w.conn i).IsClient ∧ (w.conn i).word ∈ t.2 then (w.conn i).freed
      else w.conn i) ∧
    ∀ i ∈ rest, (w.conn i).IsClient → (w.conn i).word ∉ t.2

/-- A turn of the loop at a slot without a client. -/
theorem loop_skip {control : List (DucqI × List Byte) → ℕ} {i : Fin ducqMaxConnections}
    {is : List (Fin ducqMaxConnections)} {s : ℕ × List (DucqI × List Byte) × World}
    {t : List (DucqI × List Byte) × List DucqI} (hi : slotEntry w i = none)
    (hR : LoopRel w (i :: is) s t) :
    (loopTurn (loopThroughClient env (visitHook control)) i s).1 = false ∧
      LoopRel w is (loopTurn (loopThroughClient env (visitHook control)) i s).2 t := by
  obtain ⟨c, seen, w'⟩ := s
  obtain ⟨hnodup, hseen, hconn, hrest⟩ := hR
  have hnot : ¬ (w.conn i).IsClient := by
    intro hc
    rw [slotEntry, if_pos hc] at hi
    exact Option.some_ne_none _ hi
  have hsame := hconn i
  rw [if_neg fun hc => hnot hc.1] at hsame
  dsimp only at hseen hconn hsame hrest
  have hkept : ∀ c', LoopRel w is (c', seen, w') t := fun c' =>
    ⟨hnodup.of_cons, hseen, hconn, fun j hj => hrest j (List.mem_cons_of_mem _ hj)⟩
  rw [loopTurn]
  split_ifs with hfd
  · exact ⟨rfl, hkept c⟩
  · have htype : (w'.conn i).type ≠ .client := by
      rw [hsame] at hfd ⊢
      exact fun htype => hnot ⟨hfd, htype⟩
    simp only [loopThroughClient, if_neg htype]
    exact ⟨rfl, hkept _⟩

/-- A turn of the loop at a slot with a client. -/
theorem loop_visit (h : Simulated isCode w r) {control : List (DucqI × List Byte) → ℕ}
    {i : Fin ducqMaxConnections} {is : List (Fin ducqMaxConnections)}
    {s : ℕ × List (DucqI × List Byte) × World} {t : List (DucqI × List Byte) × List DucqI}
    {e : DucqI × List Byte} (hi : slotEntry w i = some e) (hR : LoopRel w (i :: is) s t) :
    (loopTurn (loopThroughClient env (visitHook control)) i s).1 =
        (Registry.visitTurn (controlSpec control) e t).1 ∧
      LoopRel w is (loopTurn (loopThroughClient env (visitHook control)) i s).2
        (Registry.visitTurn (controlSpec control) e t).2 := by
  obtain ⟨c, seen, w'⟩ := s
  obtain ⟨seen', gone⟩ := t
  obtain ⟨hnodup, hseen, hconn, hrest⟩ := hR
  obtain ⟨hc, rfl⟩ : (w.conn i).IsClient ∧
      ((w.conn i).word, cstr (w.conn i).bytes.bytes) = e := by
    simpa [slotEntry] using hi
  have hgone := hrest i List.mem_cons_self hc
  have hsame := hconn i
  rw [if_neg fun hcg => hgone hcg.2] at hsame
  dsimp only at hseen hconn hsame hrest hgone
  have hroute : cstr (routePtr env w' i) = cstr (w.conn i).bytes.bytes := by
    rw [routePtr, hsame]
    exact (h.terminated i hc).cstr_append _
  rw [loopTurn, if_neg (by rw [hsame]; exact hc.1)]
  set seen₁ := seen' ++ [((w.conn i).word, cstr (w.conn i).bytes.bytes)] with hseen₁
  have hremove : (controlSpec control seen₁).remove = true ↔
      control seen₁ &&& ducqLoopDelete ≠ 0 := decide_eq_true_iff
  simp only [loopThroughClient, hsame, hc.2, if_true, visitHook, hroute, hseen,
    Registry.visitTurn, ← hseen₁]
  refine ⟨rfl, hnodup.of_cons, rfl, fun j => ?_, fun j hj hcj => ?_⟩
  · dsimp only
    by_cases hdelete : control seen₁ &&& ducqLoopDelete ≠ 0
    · rw [if_pos hdelete, conn_connectionFree, if_pos (hremove.mpr hdelete), hsame]
      by_cases hji : j = i
      · subst hji
        rw [if_pos rfl, if_pos ⟨hc, by simp⟩]
      · have hword : (w.conn j).IsClient → (w.conn j).word ≠ (w.conn i).word :=
          fun hcj heq => hji (h.inv.unique hcj hc heq)
        rw [if_neg hji, hconn j]
        refine if_congr ?_ rfl rfl
        refine and_congr_right fun hcj => ?_
        simp [hword hcj]
    · rw [if_neg hdelete, if_neg fun hr => hdelete (hremove.mp hr), hconn j]
  · have hji : j ≠ i := by
      rintro rfl
      exact (List.nodup_cons.mp hnodup).1 hj
    have hword : (w.conn j).word ≠ (w.conn i).word := fun heq =>
      hji (h.inv.unique hcj hc heq)
    have hj' := hrest j (List.mem_cons_of_mem _ hj) hcj
    split_ifs
    · simp [hj', hword]
    · exact hj'

/-- **The loop over the slots is the loop over the entries.** -/
theorem loop_simulates (h : Simulated isCode w r)
    (control : List (DucqI × List Byte) → ℕ) :
    (ducqReactorLoop env (visitHook control) [] w).2.1 =
        (Registry.visit (controlSpec control) (slotEnumeration h).entries).1 ∧
      Simulated isCode (ducqReactorLoop env (visitHook control) [] w).2.2
        (r.removeAll (Registry.visit (controlSpec control) (slotEnumeration h).entries).2) := by
  have hstart : LoopRel w (List.finRange ducqMaxConnections) (ducqLoopContinue, [], w) ([], []) :=
    ⟨List.nodup_finRange _, rfl, fun i => by simp, fun i _ _ => by simp⟩
  obtain ⟨rest, -, hseen, hconn, -⟩ := sweep_simulates
    (fun i is s t hi hR => @loop_skip env w control i is s t hi hR)
    (fun i is s t e hi hR => @loop_visit isCode env w r h control i is s t e hi hR) hstart
  exact ⟨hseen, h.removeAll hconn⟩

/-! ## Runs -/

/-- **One call is one step of the registry.** -/
theorem table_step (h : Simulated isCode w r) {op : TableOp} (hvalid : op.Valid isCode w) :
    ∃ r', Registry.Step [] r op.spec (op.run env w).1.spec r' ∧
      Simulated isCode (op.run env w).2 r' := by
  cases op with
  | addServer fd acceptF ctx => exact addServer_step h hvalid
  | addClient fd d => exact addClient_step h hvalid
  | subscribe d route => exact subscribe_step h hvalid
  | delete d => exact delete_step h d
  | loop control =>
    obtain ⟨hseen, hsim⟩ := @loop_simulates isCode env w r h control
    refine ⟨_, ?_, hsim⟩
    have hstep := @Registry.Step.loop _ _ ducqMaxConnections _ ([] : List Byte) r
      (controlSpec control) (slotEnumeration h)
    rw [← hseen] at hstep
    exact hstep

theorem run_refines {ops : List TableOp} (h : Simulated isCode w r)
    (hvalid : ValidRun isCode env ops w) :
    ∃ r', Registry.Run [] r (ops.map TableOp.spec)
        ((runTable env ops w).1.map TableResult.spec) r' ∧
      Simulated isCode (runTable env ops w).2 r' := by
  induction ops generalizing w r with
  | nil => exact ⟨r, Registry.Run.nil r, h⟩
  | cons op ops ih =>
    obtain ⟨r', hstep, h'⟩ := @table_step isCode env w r h op hvalid.1
    obtain ⟨r'', hrun, h''⟩ := ih h' hvalid.2
    exact ⟨r'', Registry.Run.cons hstep hrun, h''⟩

/-- What a loop visits whose hook always says to go on. -/
def visitAll (env : Env) (w : World) : List (DucqI × List Byte) :=
  (ducqReactorLoop env (visitHook fun _ => ducqLoopContinue) [] w).2.1

/-- What a loop calls its hook with at a slot. -/
def visitEntry (env : Env) (w : World) (i : Fin ducqMaxConnections) :
    Option (DucqI × List Byte) :=
  if (w.conn i).IsClient then some ((w.conn i).word, cstr (routePtr env w i)) else none

/-- A turn of the loop that always goes on. -/
theorem visitAll_turn (env : Env) (w : World) (i : Fin ducqMaxConnections) (control : ℕ)
    (seen : List (DucqI × List Byte)) :
    ∃ control', loopTurn (loopThroughClient env (visitHook fun _ => ducqLoopContinue)) i
      (control, seen, w) = (false, control', seen ++ (visitEntry env w i).toList, w) := by
  rw [loopTurn]
  by_cases hfd : (w.conn i).fd = -1
  · have hnot : ¬ (w.conn i).IsClient := fun hi => hi.1 hfd
    rw [if_pos hfd, visitEntry, if_neg hnot]
    exact ⟨control, by simp⟩
  · rw [if_neg hfd]
    by_cases htype : (w.conn i).type = .client
    · rw [visitEntry, if_pos ⟨hfd, htype⟩]
      exact ⟨ducqLoopContinue, by simp [loopThroughClient, htype, visitHook]⟩
    · rw [visitEntry, if_neg fun hi => htype hi.2]
      exact ⟨ducqLoopContinue, by simp [loopThroughClient, htype]⟩

/-- It visits the clients in the order of their slots, whatever the table holds. -/
theorem visitAll_eq (env : Env) (w : World) :
    visitAll env w = (List.finRange ducqMaxConnections).filterMap (visitEntry env w) := by
  have hsweep : ∀ (is : List (Fin ducqMaxConnections)) (control : ℕ)
      (seen : List (DucqI × List Byte)),
      (sweep (loopTurn (loopThroughClient env (visitHook fun _ => ducqLoopContinue))) is
        (control, seen, w)).2.1 = seen ++ is.filterMap (visitEntry env w) := by
    intro is
    induction is with
    | nil => exact fun control seen => (List.append_nil seen).symm
    | cons i is ih =>
      intro control seen
      obtain ⟨control', hturn⟩ := visitAll_turn env w i control seen
      rw [sweep_cons_go (by rw [hturn]), hturn, ih, List.append_assoc]
      cases hentry : visitEntry env w i with
      | none => rw [List.filterMap_cons_none hentry]; rfl
      | some e => rw [List.filterMap_cons_some hentry]; rfl
  exact hsweep _ _ _

/-- It visits what is registered, each once. -/
theorem visitAll_spec (h : Simulated isCode w r) :
    ((visitAll env w).map Prod.fst).Nodup ∧
      ∀ d route, (d, route) ∈ visitAll env w ↔ d ∈ r.keys ∧ r.value d = route := by
  have hcontinue : controlSpec (fun _ => ducqLoopContinue) = fun _ => ⟨false, false⟩ := by
    funext vs
    simp [controlSpec]
  have hentries : visitAll env w = (slotEnumeration h).entries := by
    rw [visitAll, (loop_simulates h _).1, hcontinue, Registry.visit_of_continue]
  rw [hentries]
  exact ⟨(slotEnumeration h).nodup, (slotEnumeration h).mem_iff⟩

/-- Adding fails when no room is left, and then changes nothing. -/
theorem add_emax_iff (h : Simulated isCode w r) (fd : ℤ) (d acceptF ctx : ℕ) :
    ((ducqReactorAddClient fd d w).1 = .emax ↔ r.Full) ∧
      ((ducqReactorAddServer fd acceptF ctx w).1 = .emax ↔ r.Full) ∧
      (r.Full → (ducqReactorAddClient fd d w).2 = w ∧
        (ducqReactorAddServer fd acceptF ctx w).2 = w) := by
  rw [h.refines.full_iff h.inv, ducqReactorAddClient, ducqReactorAddServer]
  cases firstFree w with
  | none => simp
  | some i => simp

/-- **The connection table implements a bounded registry.**  For every run of valid
calls from the empty table there is a run of the registry with the same answers.  In
the state the run ends in, a loop that always goes on visits exactly the registered
clients, each once and with the route it wrote last; adding fails if and only if no
room is left, and then changes nothing; and a registered client that subscribes writes
its own slot. -/
theorem connections_refine_registry {ops : List TableOp}
    (hops : ValidRun isCode env ops World.init) :
    ∃ r : Registry DucqI (List Byte) ducqMaxConnections,
      Registry.Run [] (Registry.empty []) (ops.map TableOp.spec)
        ((runTable env ops World.init).1.map TableResult.spec) r ∧
      (((visitAll env (runTable env ops World.init).2).map Prod.fst).Nodup ∧
        ∀ d route, (d, route) ∈ visitAll env (runTable env ops World.init).2 ↔
          d ∈ r.keys ∧ r.value d = route) ∧
      (∀ fd d acceptF ctx,
        ((ducqReactorAddClient fd d (runTable env ops World.init).2).1 = .emax ↔ r.Full) ∧
        ((ducqReactorAddServer fd acceptF ctx (runTable env ops World.init).2).1 = .emax ↔
          r.Full) ∧
        (r.Full →
          (ducqReactorAddClient fd d (runTable env ops World.init).2).2 =
            (runTable env ops World.init).2 ∧
          (ducqReactorAddServer fd acceptF ctx (runTable env ops World.init).2).2 =
            (runTable env ops World.init).2)) ∧
      ∀ d ∈ r.keys, ∀ route, ∃ i, ((runTable env ops World.init).2.conn i).IsClient ∧
        ((runTable env ops World.init).2.conn i).word = d ∧
        ducqReactorSubscribe d route (runTable env ops World.init).2 =
          (.ok, (runTable env ops World.init).2.setConn i
            { (runTable env ops World.init).2.conn i with bytes := CharArray.strncpy _ route }) := by
  obtain ⟨r, hrun, h⟩ :=
    run_refines ⟨tableInv_init, routesTerminated_init, refines_init⟩ hops
  refine ⟨r, hrun, visitAll_spec h, fun fd d acceptF ctx => add_emax_iff h fd d acceptF ctx, ?_⟩
  intro d hd route
  obtain ⟨i, hi, rfl⟩ := (h.refines.mem_keys d).mp hd
  exact ⟨i, hi, rfl, h.inv.subscribe_eq hi route⟩

/-- An environment in which everything succeeds. -/
def Env.quiet : Env where
  sendResult _ _ := .ok
  id _ := []
  strndup _ := true
  behindRoute _ := []
  stack _ := 0

/-- Two clients and a server; both clients go, and the second one's address comes back
in the first slot, below the free slot that still holds it. -/
def reuseRun : List TableOp :=
  [.addClient 4 100, .addClient 5 200, .addServer 3 7 0, .subscribe 200 (ascii "a"),
    .delete 200, .delete 100, .addClient 4 200, .subscribe 200 (ascii "b"),
    .loop fun _ => ducqLoopContinue]

theorem connections_refine_registry_reuse :
    ∃ r : Registry DucqI (List Byte) ducqMaxConnections,
      Registry.Run [] (Registry.empty []) (reuseRun.map TableOp.spec)
        ((runTable Env.quiet reuseRun World.init).1.map TableResult.spec) r := by
  obtain ⟨r, hrun, -⟩ :=
    @connections_refine_registry (· = 7) Env.quiet reuseRun (by decide)
  exact ⟨r, hrun⟩

end Ducq
