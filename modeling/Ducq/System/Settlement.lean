import Ducq.System.Server

/-!
# What the server owes its connections

Two results about whole runs of the server, the main loop among its steps.

The first is the table's: as long as what is registered is new, each client has one slot,
which is the one that subscribing writes and deleting gives up, and no two connections have
one descriptor (`server_connections`).  `ducq_loop` tells connections apart by nothing else.

The second is the account of one client.  Whoever gives up a slot closes and frees its client
with it, and nothing else in the reactor and its commands closes or frees any (`Account`).  So a
client that was registered once is closed once and freed once, by the time the reactor is freed
at the latest, and is neither closed nor freed as long as it has its slot
(`client_settledOnce`).  A script can close a client too, through the `close` that Lua is given,
and leave it in its slot; scripts that do so are outside of the model.
-/

namespace Ducq

open CMemory CPrintf Sweep

variable {isCode : ℕ → Prop} {w w' : World}

/-! ## The table -/

/-- What is registered is new: a client that is not registered, on a descriptor that is not
open. -/
def RegistersNew (isCode : ℕ → Prop) (op : Op) (w : World) : Prop :=
  op.Registers → op.Valid isCode w ∧ op.Fresh w

instance (w : World) (op : Op) : Decidable (op.Fresh w) :=
  match op with
  | .addServer fd _ _ | .addClient fd _ => inferInstanceAs (Decidable (NotOpen fd w))
  | .subscribeTo _ _ | .delete _ | .loop _ | .allowLogRoute _ | .setLastMsg _ _ | .send _ _ | .id _
  | .log _ _ _ _ _ | .pub _ _ _ | .publish _ _ _ | .sub _ _ | .subscribe _ _ | .unsub _ _ =>
    instDecidableTrue

instance (isCode : ℕ → Prop) [DecidablePred isCode] (op : Op) (w : World) :
    Decidable (RegistersNew isCode op w) :=
  inferInstanceAs (Decidable (op.Registers → op.Valid isCode w ∧ op.Fresh w))

theorem kept_tableInv : Kept (TableInv isCode) where
  free i w h := h.onlyFrees (OnlyFrees.connectionFree i w)
  record c w _ h := h.onlyFrees ((OnlyFrees.refl w).record [c])
  reactor _ _ hr h := h.onlyFrees fun i => .inl (congrFun hr i)
  route i bytes _ h := h.rewrite i bytes

theorem kept_descriptorsDistinct : Kept DescriptorsDistinct where
  free i w h := h.onlyFrees (OnlyFrees.connectionFree i w)
  record c w _ h := h.onlyFrees ((OnlyFrees.refl w).record [c])
  reactor r w hr h := h.onlyFrees fun i => .inl (congrFun hr i)
  route i bytes w h := by
    refine h.of_live fun j hj => ?_
    by_cases hji : j = i
    · subst hji
      rw [World.conn_setConn_self] at hj ⊢
      exact ⟨hj, rfl⟩
    · rw [World.conn_setConn_of_ne w hji] at hj ⊢
      exact ⟨hj, rfl⟩

/-- **The table at any time in the life of a server.**  Subscribing and deleting meet the
slot of their client, and descriptors tell connections apart. -/
theorem server_connections {steps : List ServerStep}
    (hnew : ServerAllows (RegistersNew isCode) steps World.init) :
    (∀ i, ((runServer steps World.init).conn i).IsClient → ∀ env route,
      ducqReactorSubscribe ((runServer steps World.init).conn i).word route
          (runServer steps World.init) =
        (.ok, (runServer steps World.init).setConn i
          { (runServer steps World.init).conn i with bytes := CharArray.strncpy _ route }) ∧
      ducqReactorDelete env ((runServer steps World.init).conn i).word
          (runServer steps World.init) =
        (true, connectionFree i (runServer steps World.init))) ∧
    ∀ i j, ((runServer steps World.init).conn i).Live →
      ((runServer steps World.init).conn j).Live →
      ((runServer steps World.init).conn i).fd = ((runServer steps World.init).conn j).fd →
      i = j := by
  have htable : TableInv isCode (runServer steps World.init) :=
    kept_tableInv.runServer (fun env op w hop hnew h => Op.run_tableInv h (hnew hop).1) hnew
      tableInv_init
  have hdistinct : DescriptorsDistinct (runServer steps World.init) :=
    kept_descriptorsDistinct.runServer (fun env op w hop hnew h => h.op (hnew hop).2) hnew
      fun i _ hi => absurd hi (not_live_init i)
  exact ⟨fun i hi env route => ⟨htable.subscribe_eq hi route, htable.delete_eq hi env⟩, hdistinct⟩

/-- A listener is ready and accepts a client; then the client is, and has hung up. -/
def acceptThenHangUp : List ServerStep :=
  [.act (.call Env.quiet (.addServer 3 7 0)),
    .turn Env.quiet (fun _ => .ready {3}) fun i =>
      if i.val = 0 then { Handling.idle with acts := [.call Env.quiet (.addClient 4 100)] }
      else Handling.idle,
    .turn Env.quiet (fun _ => .ready {4}) fun i =>
      if i.val = 1 then { Handling.idle with state := .econnclosed } else Handling.idle]

/-- After the first turn the client is there. -/
theorem server_connections_accept :
    ducqReactorDelete Env.quiet 100 (runServer (acceptThenHangUp.take 2) World.init) =
      (true, connectionFree 1 (runServer (acceptThenHangUp.take 2) World.init)) := by
  have hword : ((runServer (acceptThenHangUp.take 2) World.init).conn 1).word = 100 := by decide
  have hdelete := ((@server_connections (· = 7) (acceptThenHangUp.take 2) (by decide)).1 1
    (by decide) Env.quiet []).2
  rwa [hword] at hdelete

/-! ## The account of a client -/

/-- The slots that hold the client. -/
def slotsOf (d : DucqI) (w : World) : Finset (Fin ducqMaxConnections) :=
  Finset.univ.filter fun i => (w.conn i).IsClient ∧ (w.conn i).word = d

theorem mem_slotsOf {d : DucqI} {i : Fin ducqMaxConnections} :
    i ∈ slotsOf d w ↔ (w.conn i).IsClient ∧ (w.conn i).word = d := by
  rw [slotsOf, Finset.mem_filter, and_iff_right (Finset.mem_univ i)]

theorem registered_iff_slotsOf {d : DucqI} : Registered w d ↔ (slotsOf d w).Nonempty := by
  constructor
  · rintro ⟨i, hi⟩
    exact ⟨i, mem_slotsOf.mpr hi⟩
  · rintro ⟨i, hi⟩
    exact ⟨i, mem_slotsOf.mp hi⟩

/-- The call ends the client. -/
def Call.Ends (d : DucqI) (c : Call) : Prop := c = .close d ∨ c = .free d

instance (d : DucqI) : DecidablePred (Call.Ends d) :=
  fun _ => inferInstanceAs (Decidable (_ ∨ _))

/-- Every `ducq_close` and `ducq_free` of a client, in order. -/
def endsOf (d : DucqI) (w : World) : List Call := w.calls.filter fun c => c.Ends d

/-- A client closed and freed so many times. -/
def closedAndFreed (d : DucqI) (k : ℕ) : List Call :=
  (List.replicate k [Call.close d, Call.free d]).flatten

/-- As many slots have been given up as the client has been closed and freed. -/
def Account (d : DucqI) (w w' : World) : Prop :=
  ∃ k, (slotsOf d w').card + k = (slotsOf d w).card ∧
    endsOf d w' = endsOf d w ++ closedAndFreed d k

theorem Account.refl (d : DucqI) (w : World) : Account d w w :=
  ⟨0, rfl, (List.append_nil _).symm⟩

/-- Nothing about the client has changed. -/
theorem Account.of_eq {d : DucqI} {w'' : World} (h : Account d w w')
    (hslots : slotsOf d w'' = slotsOf d w') (hends : endsOf d w'' = endsOf d w') :
    Account d w w'' := by
  obtain ⟨k, hcard, hcalls⟩ := h
  exact ⟨k, by rw [hslots, hcard], by rw [hends, hcalls]⟩

theorem slotsOf_congr {d : DucqI} (h : ∀ i, ((w'.conn i).IsClient ∧ (w'.conn i).word = d) ↔
    ((w.conn i).IsClient ∧ (w.conn i).word = d)) : slotsOf d w' = slotsOf d w := by
  ext i
  rw [mem_slotsOf, mem_slotsOf, h]

theorem slotsOf_connectionFree (d : DucqI) (i : Fin ducqMaxConnections) (w : World) :
    slotsOf d (connectionFree i w) = (slotsOf d w).erase i := by
  ext j
  rw [mem_slotsOf, Finset.mem_erase, mem_slotsOf, conn_connectionFree]
  by_cases hji : j = i
  · rw [if_pos hji]
    exact iff_of_false (fun h => (w.conn i).not_isClient_freed h.1) fun h => h.1 hji
  · rw [if_neg hji, and_iff_right hji]

/-- **Giving up a slot closes and frees its client.** -/
theorem Account.connectionFree {d : DucqI} (hd : d ≠ 0) (h : Account d w w')
    (i : Fin ducqMaxConnections) : Account d w (connectionFree i w') := by
  obtain ⟨k, hcard, hcalls⟩ := h
  have hends : endsOf d (Ducq.connectionFree i w') = endsOf d w' ++
      if i ∈ slotsOf d w' then [.close d, .free d] else [] := by
    rw [endsOf, calls_connectionFree_eq, List.filter_append, ← endsOf]
    congr 1
    by_cases hi : i ∈ slotsOf d w'
    · obtain ⟨hclient, hword⟩ := mem_slotsOf.mp hi
      rw [if_pos hi, hword, if_pos ⟨hclient, hd⟩]
      simp [Call.Ends]
    · rw [if_neg hi]
      split_ifs with hclient
      · have hword : (w'.conn i).word ≠ d := fun hword => hi (mem_slotsOf.mpr ⟨hclient.1, hword⟩)
        simp [Call.Ends, hword]
      · rfl
  rw [Account, slotsOf_connectionFree, hends]
  by_cases hi : i ∈ slotsOf d w'
  · refine ⟨k + 1, ?_, ?_⟩
    · have hpos := Finset.card_pos.mpr ⟨i, hi⟩
      rw [Finset.card_erase_of_mem hi]
      omega
    · rw [if_pos hi, hcalls, closedAndFreed, closedAndFreed, List.replicate_succ',
        List.flatten_append, List.append_assoc]
      rfl
  · refine ⟨k, ?_, ?_⟩
    · rw [Finset.erase_eq_of_notMem hi, hcard]
    · rw [if_neg hi, List.append_nil, hcalls]

/-- **Nothing that registers no one spoils the account.** -/
theorem kept_account {d : DucqI} (hd : d ≠ 0) (w : World) : Kept (Account d w) where
  free i w' h := h.connectionFree hd i
  record c w' hc h := by
    refine h.of_eq rfl ?_
    have hnot : ¬ c.Ends d := by
      rintro (rfl | rfl)
      · exact hc
      · exact hc
    rw [endsOf, World.calls_record, List.filter_append,
      List.filter_cons_of_neg (by simpa using hnot), List.filter_nil, List.append_nil, endsOf]
  reactor r w' hr h := by
    refine h.of_eq (slotsOf_congr fun i => ?_) rfl
    rw [World.conn, hr]
    exact Iff.rfl
  route i bytes w' h := by
    refine h.of_eq (slotsOf_congr fun j => ?_) rfl
    by_cases hji : j = i
    · subst hji
      rw [World.conn_setConn_self]
      exact Iff.rfl
    · rw [World.conn_setConn_of_ne w' hji]

/-- A connection in a free slot, which is not the client. -/
theorem slotsOf_setConn_of_ne {d : DucqI} {i : Fin ducqMaxConnections}
    (hfree : ¬ (w.conn i).Live) {c : Connection} (hc : ¬ (c.IsClient ∧ c.word = d)) :
    slotsOf d (w.setConn i c) = slotsOf d w := by
  refine slotsOf_congr fun j => ?_
  by_cases hji : j = i
  · subst hji
    rw [World.conn_setConn_self]
    exact iff_of_false hc fun h => hfree h.1.1
  · rw [World.conn_setConn_of_ne w hji]

/-- The call registers the client. -/
def Op.Adds (d : DucqI) : Op → Prop
  | addClient _ d' => d' = d
  | _ => False

instance (d : DucqI) (op : Op) : Decidable (op.Adds d) :=
  match op with
  | .addClient _ d' => inferInstanceAs (Decidable (d' = d))
  | .addServer _ _ _ | .subscribeTo _ _ | .delete _ | .loop _ | .allowLogRoute _
  | .setLastMsg _ _ | .send _ _ | .id _ | .log _ _ _ _ _ | .pub _ _ _ | .publish _ _ _ | .sub _ _
  | .subscribe _ _ | .unsub _ _ => instDecidableFalse

/-- Nor does registering another. -/
theorem Account.registers {env : Env} {op : Op} {d : DucqI} (h : Account d w w')
    (hop : op.Registers) (hnot : ¬ op.Adds d) : Account d w (op.run env w') := by
  cases op with
  | addServer fd acceptF ctx =>
    rw [Op.run, ducqReactorAddServer]
    cases hfree : firstFree w' with
    | none => exact h
    | some i =>
      exact h.of_eq (slotsOf_setConn_of_ne (firstFree_eq_some.mp hfree).1
        fun hc => absurd hc.1.2 ConnectionType.noConfusion) rfl
  | addClient fd d' =>
    rw [Op.run, ducqReactorAddClient]
    cases hfree : firstFree w' with
    | none => exact h
    | some i =>
      exact h.of_eq (slotsOf_setConn_of_ne (firstFree_eq_some.mp hfree).1
        fun hc => hnot hc.2) rfl
  | _ => exact hop.elim

/-! ## `ducq_reactor_free` -/

/-- `ducq_reactor_free`, up to the dispatcher and the memory. -/
def ducqReactorFree (w : World) : World :=
  (List.finRange ducqMaxConnections).foldl (fun w i => connectionFree i w) w

theorem conn_foldl_connectionFree (is : List (Fin ducqMaxConnections)) (w : World)
    (j : Fin ducqMaxConnections) :
    (is.foldl (fun w i => connectionFree i w) w).conn j =
      if j ∈ is then (w.conn j).freed else w.conn j := by
  induction is generalizing w with
  | nil => exact (if_neg List.not_mem_nil).symm
  | cons i is ih =>
    rw [List.foldl_cons, ih, conn_connectionFree]
    by_cases hji : j = i
    · subst hji
      rw [if_pos rfl, if_pos List.mem_cons_self]
      split_ifs <;> rfl
    · rw [if_neg hji]
      refine if_congr ?_ rfl rfl
      rw [List.mem_cons, or_iff_right hji]

/-- Nothing is left in the table. -/
theorem not_live_ducqReactorFree (w : World) (i : Fin ducqMaxConnections) :
    ¬ ((ducqReactorFree w).conn i).Live := by
  rw [ducqReactorFree, conn_foldl_connectionFree, if_pos (List.mem_finRange i)]
  exact (w.conn i).not_live_freed

theorem Account.ducqReactorFree {d : DucqI} (hd : d ≠ 0) (h : Account d w w') :
    Account d w (ducqReactorFree w') := by
  rw [Ducq.ducqReactorFree]
  generalize List.finRange ducqMaxConnections = is
  induction is generalizing w' with
  | nil => exact h
  | cons i is ih => exact ih (h.connectionFree hd i)

/-! ## One registration -/

/-- **Every client that is registered is closed once and freed once.**  Over any run of the
server in which its address is not registered again: not before it loses its slot, then at
once, and when the reactor is freed if not before. -/
theorem client_settledOnce {d : DucqI} (hd : d ≠ 0) (hnew : ¬ Registered w d) {fd : ℤ}
    (hfd : 0 ≤ fd) (hadd : (ducqReactorAddClient fd d w).1 = .ok) {steps : List ServerStep}
    (hsteps : ServerAllows (fun op _ => ¬ op.Adds d) steps (ducqReactorAddClient fd d w).2) :
    (endsOf d (runServer steps (ducqReactorAddClient fd d w).2) = endsOf d w ++
      if Registered (runServer steps (ducqReactorAddClient fd d w).2) d then []
      else [.close d, .free d]) ∧
    endsOf d (ducqReactorFree (runServer steps (ducqReactorAddClient fd d w).2)) =
      endsOf d w ++ [.close d, .free d] := by
  have hnone : slotsOf d w = ∅ :=
    Finset.not_nonempty_iff_eq_empty.mp fun h => hnew (registered_iff_slotsOf.mpr h)
  -- the client has one slot once it is registered
  obtain ⟨hone, hcalls⟩ : (slotsOf d (ducqReactorAddClient fd d w).2).card = 1 ∧
      endsOf d (ducqReactorAddClient fd d w).2 = endsOf d w := by
    rw [ducqReactorAddClient] at hadd ⊢
    cases hfree : firstFree w with
    | none =>
      rw [hfree] at hadd
      exact absurd hadd DucqState.noConfusion
    | some i =>
      refine ⟨Finset.card_eq_one.mpr ⟨i, ?_⟩, rfl⟩
      ext j
      rw [mem_slotsOf, Finset.mem_singleton]
      by_cases hji : j = i
      · subst hji
        dsimp only
        rw [World.conn_setConn_self]
        exact iff_of_true ⟨⟨by show fd ≠ -1; omega, rfl⟩, rfl⟩ rfl
      · dsimp only
        rw [World.conn_setConn_of_ne w hji, ← mem_slotsOf, hnone]
        exact iff_of_false (Finset.notMem_empty j) hji
  set w₁ := (ducqReactorAddClient fd d w).2
  have hrun : Account d w₁ (runServer steps w₁) :=
    (kept_account hd w₁).runServer (fun env op w hop hnot h => h.registers hop hnot) hsteps
      (Account.refl d w₁)
  refine ⟨?_, ?_⟩
  · obtain ⟨k, hcard, hends⟩ := hrun
    rw [hends, hcalls]
    congr 1
    by_cases hreg : Registered (runServer steps w₁) d
    · have hpos := Finset.card_pos.mpr (registered_iff_slotsOf.mp hreg)
      obtain rfl : k = 0 := by omega
      rw [if_pos hreg]
      rfl
    · have hzero : (slotsOf d (runServer steps w₁)).card = 0 :=
        Finset.card_eq_zero.mpr (Finset.not_nonempty_iff_eq_empty.mp fun h =>
          hreg (registered_iff_slotsOf.mpr h))
      obtain rfl : k = 1 := by omega
      rw [if_neg hreg]
      rfl
  · obtain ⟨k, hcard, hends⟩ := hrun.ducqReactorFree hd
    have hzero : (slotsOf d (ducqReactorFree (runServer steps w₁))).card = 0 := by
      refine Finset.card_eq_zero.mpr (Finset.eq_empty_of_forall_notMem fun i hi => ?_)
      exact not_live_ducqReactorFree _ i (mem_slotsOf.mp hi).1.1
    obtain rfl : k = 1 := by omega
    rw [hends, hcalls]
    rfl

/-- A client that hangs up is closed and freed by the main loop, and not again when the
reactor is freed. -/
theorem client_settledOnce_hangUp :
    endsOf 100 (runServer (acceptThenHangUp.drop 2)
        (ducqReactorAddClient 4 100 (runServer (acceptThenHangUp.take 1) World.init)).2) =
      [.close 100, .free 100] ∧
    endsOf 100 (ducqReactorFree (runServer (acceptThenHangUp.drop 2)
        (ducqReactorAddClient 4 100 (runServer (acceptThenHangUp.take 1) World.init)).2)) =
      [.close 100, .free 100] := by
  have hsettled := @client_settledOnce (runServer (acceptThenHangUp.take 1) World.init) 100
    (by decide) (by decide) 4 (by decide) (by decide) (acceptThenHangUp.drop 2) (by decide)
  have hgone : ¬ Registered (runServer (acceptThenHangUp.drop 2)
      (ducqReactorAddClient 4 100 (runServer (acceptThenHangUp.take 1) World.init)).2) 100 := by
    decide
  have hbefore : endsOf 100 (runServer (acceptThenHangUp.take 1) World.init) = [] := by decide
  rw [if_neg hgone, hbefore] at hsettled
  exact hsettled

end Ducq
