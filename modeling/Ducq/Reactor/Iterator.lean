import Ducq.Lib.Cursor
import Ducq.Reactor.Registry

/-!
# `ducq_reactor.c`: the iterator

An iterator is an index into the table.  Between two calls of `ducq_next` clients may be
deleted, also the one that was just returned, and others added, into slots that the
iterator has passed or has still to come to.

`iterate` makes any such sequence of calls up to the first NULL, and keeps the state of
the reactor before each of them.  A registration is a slot for as long as it holds a
client, and the iterator is a cursor over the slots: it comes to no slot twice, to no slot
without a client, and to every slot that holds one all the time (`iterates_well`).
-/

namespace Ducq

open CMemory CNumber Sweep Cursor

/-! ## The iterator -/

/-- `ducq_client_it`; the table is the reactor's. -/
structure DucqClientIt where
  i : ℕ

/-- `ducq_new_client_it`. -/
def ducqNewClientIt : DucqClientIt := ⟨0⟩

/-- `ducq_next(it, &route)`: the client, the slot that `route` is made to point into, and
the iterator. -/
def ducqNext (it : DucqClientIt) (w : World) :
    DucqI × Option (Fin ducqMaxConnections) × DucqClientIt :=
  match (List.finRange ducqMaxConnections).find? fun i : Fin ducqMaxConnections =>
      decide (it.i ≤ i) && decide ((w.conn i).fd ≠ -1 ∧ (w.conn i).type = .client) with
  | none => (0, none, it)
  | some i => ((w.conn i).word, some i, ⟨i + 1⟩)

/-! ## Calls on one iterator, and calls between them -/

/-- A call while an iterator is in use. -/
inductive ItOp where
  | next
  | delete (d : DucqI)
  | addClient (fd : ℤ) (d : DucqI)

/-- What the callers see to: descriptors are not negative and a client is not NULL. -/
def ItOp.Valid : ItOp → Prop
  | addClient fd d => 0 ≤ fd ∧ d ≠ 0
  | _ => True

instance (op : ItOp) : Decidable op.Valid :=
  match op with
  | .addClient fd d => inferInstanceAs (Decidable (0 ≤ fd ∧ d ≠ 0))
  | .next | .delete _ => instDecidableTrue

/-- The state of the reactor before a call, and what the call returned if it was one of
`ducq_next`. -/
structure Moment where
  world : World
  returned : Option (DucqI × Option (Fin ducqMaxConnections))

/-- Calls one after the other, up to the first of `ducq_next` that returns NULL. -/
def iterate (env : Env) : List ItOp → DucqClientIt → World → List Moment
  | [], _, _ => []
  | .next :: ops, it, w =>
    match ducqNext it w with
    | (d, route, it) => ⟨w, some (d, route)⟩ :: if d = 0 then [] else iterate env ops it w
  | .delete d :: ops, it, w => ⟨w, none⟩ :: iterate env ops it (ducqReactorDelete env d w).2
  | .addClient fd d :: ops, it, w =>
    ⟨w, none⟩ :: iterate env ops it (ducqReactorAddClient fd d w).2

/-- The slots that were returned. -/
def returnedSlots (ms : List Moment) : List (Fin ducqMaxConnections) :=
  ms.filterMap fun m => m.returned.bind Prod.snd

/-- The clients that were returned. -/
def returnedClients (ms : List Moment) : List DucqI :=
  ms.filterMap fun m => m.returned.bind fun r => r.2.map fun _ => r.1

/-- The clients that were returned, each with the route it had then. -/
def returnedEntries (env : Env) (ms : List Moment) : List (DucqI × List Byte) :=
  ms.filterMap fun m => m.returned.bind fun r =>
    r.2.map fun i => (r.1, cstr (routePtr env m.world i))

/-- NULL was returned. -/
def Ended (ms : List Moment) : Prop := ∃ m ∈ ms, ∃ route, m.returned = some (0, route)

/-- A client is in one slot at each moment. -/
def OneSlot (d : DucqI) (ms : List Moment) : Prop :=
  ∀ m ∈ ms, ∃! i, (m.world.conn i).IsClient ∧ (m.world.conn i).word = d

/-- What an iterator owes its user.  A registration has one slot. -/
structure IteratesWell (ms : List Moment) : Prop where
  registered : ∀ m ∈ ms, ∀ d i, m.returned = some (d, some i) →
    (m.world.conn i).IsClient ∧ (m.world.conn i).word = d
  null : ∀ m ∈ ms, ∀ d, m.returned = some (d, none) → d = 0
  once : (returnedSlots ms).Pairwise (· < ·)
  all : Ended ms → ∀ i, (∀ m ∈ ms, (m.world.conn i).IsClient) → (returnedSlots ms).count i = 1
  client : Ended ms → ∀ d, OneSlot d ms → (returnedClients ms).count d = 1

/-- No client is NULL. -/
def NoNull (w : World) : Prop := ∀ i, (w.conn i).IsClient → (w.conn i).word ≠ 0

instance (w : World) : Decidable (NoNull w) :=
  inferInstanceAs (Decidable (∀ i, (w.conn i).IsClient → (w.conn i).word ≠ 0))

/-! ## One call -/

/-- The slots that hold a client. -/
def taken (w : World) (i : Fin ducqMaxConnections) : Bool := decide (w.conn i).IsClient

variable {env : Env} {w : World} {it : DucqClientIt}

/-- **The iterator is a cursor.** -/
theorem ducqNext_eq (it : DucqClientIt) (w : World) :
    ducqNext it w = match nextFrom (taken w) it.i with
      | none => (0, none, it)
      | some i => ((w.conn i).word, some i, ⟨i + 1⟩) := rfl

theorem NoNull.onlyFrees {w' : World} (h : NoNull w) (hw : OnlyFrees w w') : NoNull w' := by
  intro i hi
  rw [hw.word]
  exact h i (hw.isClient hi)

theorem NoNull.addClient (h : NoNull w) (fd : ℤ) {d : DucqI} (hd : d ≠ 0) :
    NoNull (ducqReactorAddClient fd d w).2 := by
  rw [ducqReactorAddClient]
  cases hfree : firstFree w with
  | none => exact h
  | some i =>
    intro j hj
    by_cases hji : j = i
    · subst hji
      rw [World.conn_setConn_self]
      exact hd
    · rw [World.conn_setConn_of_ne w hji] at hj ⊢
      exact h j hj

/-! ## The cursor behind a sequence of calls -/

/-- What the iterator meets, each time it is asked. -/
def asked (ms : List Moment) : List (Fin ducqMaxConnections → Bool) :=
  (ms.filter fun m => m.returned.isSome).map fun m => taken m.world

theorem asked_none (w : World) (ms : List Moment) : asked (⟨w, none⟩ :: ms) = asked ms := rfl

theorem asked_some (w : World) (r : DucqI × Option (Fin ducqMaxConnections)) (ms : List Moment) :
    asked (⟨w, some r⟩ :: ms) = taken w :: asked ms := rfl

theorem ended_none (w : World) (ms : List Moment) : Ended (⟨w, none⟩ :: ms) ↔ Ended ms := by
  simp [Ended]

theorem ended_some (w : World) {d : DucqI} (hd : d ≠ 0) (route : Option (Fin ducqMaxConnections))
    (ms : List Moment) : Ended (⟨w, some (d, route)⟩ :: ms) ↔ Ended ms := by
  simp [Ended, hd]

/-- A call of `ducq_next` that comes to the end. -/
theorem iterate_next_none (hnext : nextFrom (taken w) it.i = none) (ops : List ItOp) :
    iterate env (.next :: ops) it w = [⟨w, some (0, none)⟩] := by
  rw [iterate, ducqNext_eq, hnext]
  rfl

/-- A call of `ducq_next` that comes to a client. -/
theorem iterate_next_some (hw : NoNull w) {i : Fin ducqMaxConnections}
    (hnext : nextFrom (taken w) it.i = some i) (ops : List ItOp) :
    (w.conn i).IsClient ∧ (w.conn i).word ≠ 0 ∧
      iterate env (.next :: ops) it w =
        ⟨w, some ((w.conn i).word, some i)⟩ :: iterate env ops ⟨i + 1⟩ w := by
  have hi : (w.conn i).IsClient := of_decide_eq_true (nextFrom_eq_some_iff.mp hnext).1.2
  refine ⟨hi, hw i hi, ?_⟩
  rw [iterate, ducqNext_eq, hnext]
  dsimp only
  rw [if_neg (hw i hi)]

/-- **What is returned is what the cursor returns**, and NULL is its end. -/
theorem walk_iterate {ops : List ItOp} (hops : ∀ op ∈ ops, op.Valid) (it : DucqClientIt)
    (hw : NoNull w) :
    (walk it.i (asked (iterate env ops it w))).1 = returnedSlots (iterate env ops it w) ∧
      ((walk it.i (asked (iterate env ops it w))).2 = true ↔ Ended (iterate env ops it w)) := by
  induction ops generalizing it w with
  | nil => exact ⟨rfl, by simp [iterate, asked, walk, Ended]⟩
  | cons op ops ih =>
    have hops' : ∀ op ∈ ops, op.Valid := fun op hop => hops op (List.mem_cons_of_mem _ hop)
    have hop := hops op List.mem_cons_self
    cases op with
    | next =>
      cases hnext : nextFrom (taken w) it.i with
      | none =>
        rw [iterate_next_none hnext, asked_some, walk_cons_none hnext]
        exact ⟨rfl, by simp [Ended]⟩
      | some i =>
        obtain ⟨-, h0, hstep⟩ := @iterate_next_some env w it hw i hnext ops
        obtain ⟨hslots, hend⟩ := ih hops' ⟨i + 1⟩ hw
        rw [hstep, asked_some, walk_cons_some hnext, ended_some w h0, ← hend]
        exact ⟨congrArg (List.cons i) hslots, Iff.rfl⟩
    | delete d =>
      rw [iterate, asked_none, ended_none]
      exact ih hops' it (hw.onlyFrees (OnlyFrees.ducqReactorDelete env d w))
    | addClient fd d =>
      rw [iterate, asked_none, ended_none]
      exact ih hops' it (hw.addClient fd hop.2)

/-- Every call of `ducq_next` returns a client of that moment, or NULL. -/
theorem returned_iterate {ops : List ItOp} (hops : ∀ op ∈ ops, op.Valid) (it : DucqClientIt)
    (hw : NoNull w) : ∀ m ∈ iterate env ops it w, ∀ r, m.returned = some r →
      r = (0, none) ∨ ∃ i, (m.world.conn i).IsClient ∧ r = ((m.world.conn i).word, some i) := by
  induction ops generalizing it w with
  | nil => exact fun m hm => absurd hm List.not_mem_nil
  | cons op ops ih =>
    have hops' : ∀ op ∈ ops, op.Valid := fun op hop => hops op (List.mem_cons_of_mem _ hop)
    have hop := hops op List.mem_cons_self
    intro m hm r hr
    cases op with
    | next =>
      cases hnext : nextFrom (taken w) it.i with
      | none =>
        rw [iterate_next_none hnext, List.mem_singleton] at hm
        subst hm
        exact .inl (Option.some.inj hr).symm
      | some i =>
        obtain ⟨hi, -, hstep⟩ := @iterate_next_some env w it hw i hnext ops
        rw [hstep] at hm
        rcases List.mem_cons.mp hm with rfl | hm
        · exact .inr ⟨i, hi, (Option.some.inj hr).symm⟩
        · exact ih hops' ⟨i + 1⟩ hw m hm r hr
    | delete d =>
      rcases List.mem_cons.mp hm with rfl | hm
      · exact absurd hr.symm (Option.some_ne_none r)
      · exact ih hops' it (hw.onlyFrees (OnlyFrees.ducqReactorDelete env d w)) m hm r hr
    | addClient fd d =>
      rcases List.mem_cons.mp hm with rfl | hm
      · exact absurd hr.symm (Option.some_ne_none r)
      · exact ih hops' it (hw.addClient fd hop.2) m hm r hr

/-- The first moment is the state the calls start from. -/
theorem iterate_cons (env : Env) (op : ItOp) (ops : List ItOp) (it : DucqClientIt) (w : World) :
    ∃ returned ms, iterate env (op :: ops) it w = ⟨w, returned⟩ :: ms := by
  cases op with
  | next => exact ⟨_, _, rfl⟩
  | delete d => exact ⟨_, _, rfl⟩
  | addClient fd d => exact ⟨_, _, rfl⟩

/-- A client that has one slot before and after a deletion has the same. -/
theorem OneSlot.onlyFrees {d : DucqI} {i : Fin ducqMaxConnections} {w' : World}
    (hw : OnlyFrees w w') (hi : ∀ j, (w.conn j).IsClient ∧ (w.conn j).word = d → j = i)
    {op : ItOp} {ops : List ItOp} (hd : OneSlot d (iterate env (op :: ops) it w')) :
    (w'.conn i).IsClient ∧ (w'.conn i).word = d := by
  obtain ⟨returned, ms, hms⟩ := iterate_cons env op ops it w'
  obtain ⟨j, hj, -⟩ := hd ⟨w', returned⟩ (by rw [hms]; exact List.mem_cons_self)
  have hsame := hw.conn_eq hj.1
  have hji := hi j (by rw [← hsame]; exact hj)
  exact hji ▸ hj

/-- **A client that is in one slot all the time stays in that slot.** -/
theorem conn_iterate {ops : List ItOp} (it : DucqClientIt) {d : DucqI}
    {i : Fin ducqMaxConnections} (hi : (w.conn i).IsClient ∧ (w.conn i).word = d)
    (hd : OneSlot d (iterate env ops it w)) :
    ∀ m ∈ iterate env ops it w, (m.world.conn i).IsClient ∧ (m.world.conn i).word = d := by
  induction ops generalizing it w with
  | nil => exact fun m hm => absurd hm List.not_mem_nil
  | cons op ops ih =>
    have hunique : ∀ j, (w.conn j).IsClient ∧ (w.conn j).word = d → j = i := by
      obtain ⟨returned, ms, hms⟩ := iterate_cons env op ops it w
      intro j hj
      exact (hd ⟨w, returned⟩ (by rw [hms]; exact List.mem_cons_self)).unique hj hi
    -- what comes after the call, if the client is still in the slot then
    have hrest : ∀ it' w', (ops ≠ [] → (w'.conn i).IsClient ∧ (w'.conn i).word = d) →
        OneSlot d (iterate env ops it' w') → ∀ m ∈ iterate env ops it' w',
          (m.world.conn i).IsClient ∧ (m.world.conn i).word = d := by
      intro it' w' hi' hd'
      cases ops with
      | nil => exact fun m hm => absurd hm List.not_mem_nil
      | cons op' ops => exact ih it' (hi' (List.cons_ne_nil _ _)) hd'
    intro m hm
    cases op with
    | next =>
      rw [iterate] at hm hd
      rcases hnext : ducqNext it w with ⟨d', route, it'⟩
      rw [hnext] at hm hd
      dsimp only at hm hd
      rcases List.mem_cons.mp hm with rfl | hm
      · exact hi
      · split_ifs at hm with h0
        · exact absurd hm List.not_mem_nil
        · rw [if_neg h0] at hd
          exact hrest it' w (fun _ => hi) (fun m hm => hd m (List.mem_cons_of_mem _ hm)) m hm
    | delete d' =>
      have hd' : OneSlot d (iterate env ops it (ducqReactorDelete env d' w).2) :=
        fun m hm => hd m (List.mem_cons_of_mem _ hm)
      rcases List.mem_cons.mp hm with rfl | hm
      · exact hi
      · refine hrest it _ (fun hne => ?_) hd' m hm
        obtain ⟨op', ops', rfl⟩ := List.exists_cons_of_ne_nil hne
        exact OneSlot.onlyFrees (OnlyFrees.ducqReactorDelete env d' w) hunique hd'
    | addClient fd d' =>
      rcases List.mem_cons.mp hm with rfl | hm
      · exact hi
      · refine hrest it _ (fun _ => ?_) (fun m hm => hd m (List.mem_cons_of_mem _ hm)) m hm
        rw [conn_ducqReactorAddClient hi.1.1]
        exact hi

/-! ## What the user gets -/

/-- A client that stays in a slot is returned as often as the slot is. -/
theorem count_returnedClients {ms : List Moment} {d : DucqI} {i : Fin ducqMaxConnections}
    (hret : ∀ m ∈ ms, ∀ r, m.returned = some r →
      r = (0, none) ∨ ∃ i, (m.world.conn i).IsClient ∧ r = ((m.world.conn i).word, some i))
    (hi : ∀ m ∈ ms, ∀ j, ((m.world.conn j).IsClient ∧ (m.world.conn j).word = d) ↔ j = i) :
    (returnedClients ms).count d = (returnedSlots ms).count i := by
  rw [returnedClients, returnedSlots, List.count, List.count, List.countP_filterMap,
    List.countP_filterMap]
  refine List.countP_congr fun m hm => ?_
  cases hr : m.returned with
  | none => exact Iff.rfl
  | some r =>
    rcases hret m hm r hr with rfl | ⟨j, hj, rfl⟩
    · exact Iff.rfl
    · have hji := hi m hm j
      rw [and_iff_right hj] at hji
      simpa using hji

/-- **Iterating while the table changes is safe and complete.** -/
theorem iterates_well (env : Env) {ops : List ItOp} (hops : ∀ op ∈ ops, op.Valid)
    (hw : NoNull w) : IteratesWell (iterate env ops ducqNewClientIt w) := by
  obtain ⟨hslots, hend⟩ := @walk_iterate env w ops hops ducqNewClientIt hw
  have hret := @returned_iterate env w ops hops ducqNewClientIt hw
  have hall : Ended (iterate env ops ducqNewClientIt w) → ∀ i,
      (∀ m ∈ iterate env ops ducqNewClientIt w, (m.world.conn i).IsClient) →
        (returnedSlots (iterate env ops ducqNewClientIt w)).count i = 1 := by
    intro hended i hi
    rw [← hslots]
    refine List.count_eq_one_of_mem ((pairwise_walk _ _).imp fun h => h.ne) ?_
    refine mem_walk_of_taken (hend.mpr hended) (Nat.zero_le _) ?_
    intro t ht
    obtain ⟨m, hm, rfl⟩ := List.mem_map.mp ht
    exact decide_eq_true (hi m (List.mem_of_mem_filter hm))
  refine ⟨?_, ?_, ?_, hall, ?_⟩
  · intro m hm d i hr
    rcases hret m hm _ hr with heq | ⟨j, hj, heq⟩
    · exact absurd (congrArg Prod.snd heq) (Option.some_ne_none i)
    · obtain rfl := Option.some.inj (congrArg Prod.snd heq)
      exact ⟨hj, (congrArg Prod.fst heq).symm⟩
  · intro m hm d hr
    rcases hret m hm _ hr with heq | ⟨j, -, heq⟩
    · exact congrArg Prod.fst heq
    · exact absurd (congrArg Prod.snd heq) (Option.some_ne_none j).symm
  · rw [← hslots]
    exact pairwise_walk _ _
  · intro hended d hd
    obtain ⟨i, hi⟩ : ∃ i, (w.conn i).IsClient ∧ (w.conn i).word = d := by
      obtain ⟨m, hm, -⟩ := hended
      cases ops with
      | nil => exact absurd hm List.not_mem_nil
      | cons op ops =>
        obtain ⟨returned, ms, hms⟩ := iterate_cons env op ops ducqNewClientIt w
        exact (hd ⟨w, returned⟩ (by rw [hms]; exact List.mem_cons_self)).exists
    have hstays := conn_iterate ducqNewClientIt hi hd
    rw [count_returnedClients hret fun m hm j => ?_, hall hended i fun m hm => (hstays m hm).1]
    constructor
    · exact fun hj => (hd m hm).unique hj (hstays m hm)
    · rintro rfl
      exact hstays m hm

/-! ## Where nothing changes -/

/-- Nothing but `ducq_next` is called, and the reactor stays as it is. -/
theorem world_iterate_replicate {k : ℕ} {m : Moment}
    (hm : m ∈ iterate env (List.replicate k .next) it w) :
    m.world = w ∧ m.returned.isSome = true := by
  induction k generalizing it with
  | zero => exact absurd hm List.not_mem_nil
  | succ k ih =>
    rw [List.replicate_succ, iterate] at hm
    rcases List.mem_cons.mp hm with rfl | hm
    · exact ⟨rfl, rfl⟩
    · split_ifs at hm
      · exact absurd hm List.not_mem_nil
      · exact ih hm

/-- The iterator comes to the end or is asked every time. -/
theorem ended_or_length (hw : NoNull w) (k : ℕ) (it : DucqClientIt) :
    Ended (iterate env (List.replicate k .next) it w) ∨
      (iterate env (List.replicate k .next) it w).length = k := by
  induction k generalizing it with
  | zero => exact .inr rfl
  | succ k ih =>
    rw [List.replicate_succ]
    cases hnext : nextFrom (taken w) it.i with
    | none =>
      rw [iterate_next_none hnext]
      exact .inl (by simp [Ended])
    | some i =>
      obtain ⟨-, h0, hstep⟩ := @iterate_next_some env w it hw i hnext (List.replicate k .next)
      rw [hstep, ended_some w h0]
      exact (ih ⟨i + 1⟩).imp_right fun h => congrArg Nat.succ h

/-- What a loop visits, slot by slot. -/
theorem visitAll_eq_map (env : Env) (w : World) :
    visitAll env w = ((List.finRange ducqMaxConnections).filter (taken w)).map
      fun i => ((w.conn i).word, cstr (routePtr env w i)) := by
  rw [visitAll_eq, ← List.filterMap_eq_map, List.filterMap_filter]
  refine List.filterMap_congr fun i _ => ?_
  rw [visitEntry, taken]
  simp only [decide_eq_true_iff, Function.comp_apply]

/-- **Without other calls** the iterator returns what a loop visits that always goes on. -/
theorem returnedEntries_replicate (env : Env) (hw : NoNull w) (k : ℕ) :
    (ducqMaxConnections < k → Ended (iterate env (List.replicate k .next) ducqNewClientIt w)) ∧
      (Ended (iterate env (List.replicate k .next) ducqNewClientIt w) →
        returnedEntries env (iterate env (List.replicate k .next) ducqNewClientIt w) =
          visitAll env w) := by
  have hops : ∀ op ∈ List.replicate k ItOp.next, op.Valid := fun op hop =>
    List.eq_of_mem_replicate hop ▸ trivial
  obtain ⟨hslots, hend⟩ := @walk_iterate env w _ hops ducqNewClientIt hw
  have hret := @returned_iterate env w _ hops ducqNewClientIt hw
  set ms := iterate env (List.replicate k .next) ducqNewClientIt w with hms
  have hworld : ∀ m ∈ ms, m.world = w ∧ m.returned.isSome = true := fun m hm =>
    world_iterate_replicate hm
  have hasked : asked ms = List.replicate ms.length (taken w) := by
    rw [asked, List.filter_eq_self.mpr fun m hm => (hworld m hm).2, List.eq_replicate_iff,
      List.length_map]
    refine ⟨rfl, fun t ht => ?_⟩
    obtain ⟨m, hm, rfl⟩ := List.mem_map.mp ht
    rw [(hworld m hm).1]
  have hstart : ducqNewClientIt.i = 0 := rfl
  rw [hasked, hstart] at hslots hend
  constructor
  · intro hk
    rcases @ended_or_length env w hw k ducqNewClientIt with hended | hlen
    · exact hended
    · refine hend.mp (walk_ends 0 _ ?_ (Nat.zero_le _))
      rw [List.length_replicate, hlen]
      omega
  · intro hended
    have hentries : returnedEntries env ms =
        (returnedSlots ms).map fun i => ((w.conn i).word, cstr (routePtr env w i)) := by
      rw [returnedEntries, returnedSlots, List.map_filterMap]
      refine List.filterMap_congr fun m hm => ?_
      cases hr : m.returned with
      | none => rfl
      | some r =>
        rcases hret m hm r hr with rfl | ⟨i, -, rfl⟩
        · rfl
        · rw [(hworld m hm).1]
          rfl
    rw [hentries, ← hslots, visitAll_eq_map, walk_replicate (taken w) (hend.mpr hended)]

/-- **The iterator**: while clients are deleted and added it returns registered clients,
none twice, and every client that stays; where nothing changes it comes to the end, and
returns what a loop visits. -/
theorem ducqNext_spec (env : Env) (hw : NoNull w) :
    (∀ ops : List ItOp, (∀ op ∈ ops, op.Valid) →
      IteratesWell (iterate env ops ducqNewClientIt w)) ∧
    ∀ k, (ducqMaxConnections < k →
        Ended (iterate env (List.replicate k .next) ducqNewClientIt w)) ∧
      (Ended (iterate env (List.replicate k .next) ducqNewClientIt w) →
        returnedEntries env (iterate env (List.replicate k .next) ducqNewClientIt w) =
          visitAll env w) :=
  ⟨fun _ hops => iterates_well env hops hw, returnedEntries_replicate env hw⟩

/-- The client that was returned is deleted, its slot is used again behind the iterator, and
another client comes in front of it. -/
theorem ducqNext_spec_reuse :
    IteratesWell (iterate Env.quiet
      [.next, .delete 100, .addClient 6 300, .addClient 7 400, .next, .next, .next]
      ducqNewClientIt
      (runTable Env.quiet [.addClient 4 100, .addClient 5 200] World.init).2) :=
  (ducqNext_spec Env.quiet (by decide)).1 _ (by decide)

end Ducq
