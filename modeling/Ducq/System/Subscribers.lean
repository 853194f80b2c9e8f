import Ducq.System.Run

/-!
# Whether only subscribers receive publications

A client that has not subscribed has a slot all the same, and its slot has a route: the
empty one, which `ducq_reactor_add_client` writes.  So "not subscribed" is a route like
any other to the matcher.  It accepts one published route, the empty one, and the parser
lets that route through.

Along a run the list of the subscribers is kept beside the state: those for whom `sub` or
`subscribe` has succeeded since they were registered.  A subscription that fails leaves no
client behind that is registered with the route and not in the list, because a client
that cannot be answered is deleted.
-/

namespace Ducq

open CMemory CPrintf

namespace Op

/-- The subscribers after a step, from those before it. -/
def subscribers (env : Env) (w : World) (s : List DucqI) : Op → List DucqI
  | addClient fd d => if (ducqReactorAddClient fd d w).1 = .ok then s.filter (· ≠ d) else s
  | sub d buffer => if (Ducq.sub env d buffer w).1 = .ok then d :: s else s
  | subscribe d buffer => if (Ducq.subscribe env d buffer w).1 = .ok then d :: s else s
  | _ => s

theorem subscribers_of_not_writesSlot {env : Env} {w : World} {s : List DucqI} {op : Op}
    (h : ¬ op.WritesSlot) : op.subscribers env w s = s := by
  cases op with
  | addClient fd d => exact absurd trivial h
  | sub d buffer => exact absurd trivial h
  | subscribe d buffer => exact absurd trivial h
  | _ => rfl

/-- The step is a publication whose broadcast sends something to the client. -/
def BroadcastsTo (env : Env) (w : World) (d : DucqI) : Op → Prop
  | pub p buffer size => ∃ message, BroadcastSends env (ascii "pub") p buffer size w d message
  | publish p buffer size =>
    ∃ message, BroadcastSends env (ascii "publish") p buffer size w d message
  | _ => False

/-- The step is a publication on the empty route, and it is accepted. -/
def PublishesEmpty (env : Env) (w : World) : Op → Prop
  | pub p buffer _ | publish p buffer _ =>
    HasRoute buffer [] ∧ env.strndup [] = true ∧ env.sendResult p (sendCount p w.calls) = .ok
  | _ => False

/-- The step is not the reactor's own `ducq_reactor_subscribe`, which the commands call. -/
def IsCommanded : Op → Prop
  | subscribeTo _ _ => False
  | _ => True

end Op

/-- Along a run every broadcast sends to subscribers only. -/
def OnlySubscribers : List (Env × Op) → World → List DucqI → Prop
  | [], _, _ => True
  | (env, op) :: steps, w, s =>
    (∀ d, op.BroadcastsTo env w d → d ∈ s) ∧
      OnlySubscribers steps (op.run env w) (op.subscribers env w s)

/-- Along a run, whenever the empty route is published, all registered clients have
subscribed to something. -/
def EmptyRouteToSubscribers : List (Env × Op) → World → List DucqI → Prop
  | [], _, _ => True
  | (env, op) :: steps, w, s =>
    (op.PublishesEmpty env w → ∀ d, Registered w d → d ∈ s) ∧
      EmptyRouteToSubscribers steps (op.run env w) (op.subscribers env w s)

/-- A registered client that is no subscriber has the empty route. -/
def UnsubscribedEmpty (w : World) (s : List DucqI) : Prop :=
  ∀ i, (w.conn i).IsClient → (w.conn i).word ∉ s → (w.conn i).bytes.bytes.head? = some 0

variable {isCode : ℕ → Prop} {env : Env} {functionName : List Byte} {w : World} {s : List DucqI}

/-! ## What a step does to the subscribers -/

/-- Giving slots up, while the list only grows. -/
theorem UnsubscribedEmpty.onlyFrees (h : UnsubscribedEmpty w s) {w' : World} {s' : List DucqI}
    (hw : OnlyFrees w w') (hs : s ⊆ s') : UnsubscribedEmpty w' s' := by
  intro i hi hmem
  have hsame := hw.conn_eq hi
  rw [hsame] at hi hmem ⊢
  exact h i hi fun hc => hmem (hs hc)

/-- **What a subscription does**: the subscriber's own slot is written, and the
subscriber is either in the list or gone. -/
theorem UnsubscribedEmpty.subCommand (h : UnsubscribedEmpty w s) (hinv : TableInv isCode w)
    {d : DucqI} (hd : Registered w d) (buffer : List Byte) :
    UnsubscribedEmpty (subCommand env functionName d buffer w).2
      (if (subCommand env functionName d buffer w).1 = .ok then d :: s else s) := by
  obtain ⟨i, hi, rfl⟩ := hd
  have hgrows : ∀ state : DucqState, s ⊆ if state = .ok then (w.conn i).word :: s else s := by
    intro state
    split_ifs
    · exact List.subset_cons_self _ _
    · exact List.Subset.refl s
  rcases @subCommand_cases isCode env functionName w hinv i hi buffer with
    ⟨hfrees, -⟩ | ⟨bytes, hfrees, hgone⟩
  · exact h.onlyFrees hfrees (hgrows _)
  · generalize Ducq.subCommand env functionName (w.conn i).word buffer w = result at hfrees hgone ⊢
    intro j hj hmem
    by_cases hji : j = i
    · subst hji
      exfalso
      have hword : (result.2.conn j).word = (w.conn j).word := by
        rw [hfrees.word, World.conn_setConn_self]
      rw [hword] at hmem
      by_cases hok : result.1 = .ok
      · rw [if_pos hok] at hmem
        exact hmem List.mem_cons_self
      · exact hgone hok ⟨j, hj, hword⟩
    · have hsame : result.2.conn j = w.conn j := by
        rw [hfrees.conn_eq hj, World.conn_setConn_of_ne w hji]
      rw [hsame] at hj hmem ⊢
      exact h j hj fun hc => hmem (hgrows _ hc)

/-- A slot that is filled, with a client that has the empty route if with a client. -/
theorem UnsubscribedEmpty.setConn (h : UnsubscribedEmpty w s) {i : Fin ducqMaxConnections}
    {c : Connection} (hc : c.IsClient → c.bytes.bytes.head? = some 0) {s' : List DucqI}
    (hs : ∀ j, (w.conn j).IsClient → (w.conn j).word ∈ s → (w.conn j).word ∈ s') :
    UnsubscribedEmpty (w.setConn i c) s' := by
  intro j hj hmem
  by_cases hji : j = i
  · subst hji
    rw [World.conn_setConn_self] at hj ⊢
    exact hc hj
  · rw [World.conn_setConn_of_ne w hji] at hj hmem ⊢
    exact h j hj fun hc => hmem (hs j hj hc)

theorem UnsubscribedEmpty.addServer (h : UnsubscribedEmpty w s) (fd : ℤ) (acceptF ctx : ℕ) :
    UnsubscribedEmpty (ducqReactorAddServer fd acceptF ctx w).2 s := by
  rw [ducqReactorAddServer]
  cases firstFree w with
  | none => exact h
  | some i => exact h.setConn (fun hc => ConnectionType.noConfusion hc.2) fun _ _ hd => hd

theorem UnsubscribedEmpty.addClient (h : UnsubscribedEmpty w s) (fd : ℤ) {d : DucqI}
    (hd : ¬ Registered w d) :
    UnsubscribedEmpty (ducqReactorAddClient fd d w).2
      (if (ducqReactorAddClient fd d w).1 = .ok then s.filter (· ≠ d) else s) := by
  rw [ducqReactorAddClient]
  cases firstFree w with
  | none => exact h
  | some i =>
    refine h.setConn (fun _ => rfl) fun j hj hmem => ?_
    rw [if_pos rfl, List.mem_filter]
    exact ⟨hmem, decide_eq_true fun hword => hd ⟨j, hj, hword⟩⟩

/-- **The invariant.**  A registered client that is no subscriber keeps the empty route. -/
theorem UnsubscribedEmpty.run (h : UnsubscribedEmpty w s) (hinv : TableInv isCode w) {op : Op}
    (hvalid : op.Valid isCode w) (hop : op.IsCommanded) :
    UnsubscribedEmpty (op.run env w) (op.subscribers env w s) := by
  by_cases hwrites : op.WritesSlot
  · cases op with
    | addServer fd acceptF ctx => exact h.addServer fd acceptF ctx
    | addClient fd d => exact h.addClient fd hvalid.2.2.2
    | subscribeTo d route => exact hop.elim
    | sub d buffer => exact h.subCommand hinv hvalid buffer
    | subscribe d buffer => exact h.subCommand hinv hvalid buffer
    | _ => exact hwrites.elim
  · rw [Op.subscribers_of_not_writesSlot hwrites]
    exact h.onlyFrees (Op.onlyFrees_run hwrites w) (List.Subset.refl s)

/-! ## Whom a broadcast reaches -/

/-- The empty route accepts the empty route only. -/
theorem publishSelects_of_head?_zero {i : Fin ducqMaxConnections}
    (hi : (w.conn i).bytes.bytes.head? = some 0) {r : List Byte} (hr : (0 : Byte) ∉ r) :
    publishSelects r (routePtr env w i) = true ↔ r = [] := by
  obtain ⟨q, hq⟩ := List.head?_eq_some_iff.mp hi
  have hcmp := @ducqRouteCmp_eq [] r List.not_mem_nil hr (q ++ (env.behindRoute i ++ [0])) []
  rw [List.nil_append] at hcmp
  rw [publishSelects, decide_eq_true_iff, routePtr, hq, List.cons_append, hcmp]
  cases r with
  | nil => exact iff_of_true rfl rfl
  | cons b r =>
    exact iff_of_false (fun hc => absurd (Option.some.inj hc) Bool.false_ne_true)
      (List.cons_ne_nil b r)

/-- **Whom a publication sends to**: those who are subscribers, if it is not on the empty
route or there is nobody else. -/
theorem broadcastsTo_iff (hinv : TableInv isCode w) (h : UnsubscribedEmpty w s) {p : DucqI}
    (hp : Registered w p) (buffer : List Byte) (size : ℕ) :
    (∀ d, (∃ message, BroadcastSends env functionName p buffer size w d message) → d ∈ s) ↔
      (HasRoute buffer [] ∧ env.strndup [] = true ∧
        env.sendResult p (sendCount p w.calls) = .ok → ∀ d, Registered w d → d ∈ s) := by
  constructor
  · rintro hbroadcast ⟨hr, hmem, hack⟩ d ⟨i, hi, rfl⟩
    obtain ⟨k, hk, rfl⟩ := hp
    by_contra hd
    have hempty := h i hi hd
    obtain ⟨w₀, w₁, message, hrun, -, -, hfrees, hconn₁, -⟩ :=
      @pubAcknowledge_spec isCode env functionName w hinv k hk buffer [] hr hmem hack
    -- the log line passes it over
    have hlog : ¬ OnLog env w i := by
      rintro ⟨-, hsel⟩
      obtain ⟨q, hq⟩ := List.head?_eq_some_iff.mp hempty
      rw [logSelects, routePtr, hq, List.cons_append, cstr_zero_cons, Bool.and_eq_true] at hsel
      exact absurd hsel.2 (by decide)
    have hsame : w₁.conn i = w.conn i := by
      rw [hconn₁, if_neg fun hc => hlog hc.1]
    obtain ⟨control, w₂, hloop, -, -, hcalls, -⟩ :=
      @publish_spec isCode env w₁ (hinv.onlyFrees hfrees) [] buffer size
    have hselected : Selected env (publishSelects []) w₁ i := by
      rw [selected_congr hsame]
      exact ⟨hi, (publishSelects_of_head?_zero hempty List.not_mem_nil).mpr rfl⟩
    refine hd (hbroadcast _ ⟨buffer.take size, ?_⟩)
    rw [BroadcastSends, hrun]
    dsimp only
    rw [hloop]
    refine ⟨rfl, _, hcalls, ?_⟩
    rw [List.mem_flatMap]
    refine ⟨i, List.mem_finRange i, ?_⟩
    rw [slotCalls, if_pos hselected, hsame]
    split_ifs
    · exact List.mem_cons_self
    · exact List.mem_cons_self
  · rintro hempty d ⟨message, hsends⟩
    obtain ⟨-, r, hr, hdup, hack, i, ⟨hi, hselects⟩, rfl⟩ := hsends.exists_selected hinv hp
    by_contra hd
    have hnil := (publishSelects_of_head?_zero (h i hi hd) hr.zero_notMem).mp hselects
    rw [hnil] at hr hdup
    exact hd (hempty ⟨hr, hdup, hack⟩ _ ⟨i, hi, rfl⟩)

/-- The invariant, and the broadcast of a step. -/
theorem Op.broadcastsTo_iff (hinv : TableInv isCode w) (h : UnsubscribedEmpty w s) {op : Op}
    (hvalid : op.Valid isCode w) :
    (∀ d, op.BroadcastsTo env w d → d ∈ s) ↔
      (op.PublishesEmpty env w → ∀ d, Registered w d → d ∈ s) := by
  cases op with
  | pub p buffer size => exact Ducq.broadcastsTo_iff hinv h hvalid buffer size
  | publish p buffer size => exact Ducq.broadcastsTo_iff hinv h hvalid buffer size
  | _ => exact iff_of_true (fun _ hc => hc.elim) fun hc => hc.elim

/-- **Only subscribers receive publications, along any run, exactly if the empty route is
published to subscribers only.** -/
theorem onlySubscribers_iff {steps : List (Env × Op)} (hvalid : ValidOps isCode steps World.init)
    (hcommanded : ∀ step ∈ steps, Op.IsCommanded step.2) :
    OnlySubscribers steps World.init [] ↔ EmptyRouteToSubscribers steps World.init [] := by
  have hrun : ∀ {w s}, TableInv isCode w → UnsubscribedEmpty w s → ValidOps isCode steps w →
      (OnlySubscribers steps w s ↔ EmptyRouteToSubscribers steps w s) := by
    clear hvalid
    induction steps with
    | nil => exact fun _ _ _ => Iff.rfl
    | cons step steps ih =>
      intro w s hinv h hvalid
      have hop := hcommanded step List.mem_cons_self
      have hrest := fun step' hstep' => hcommanded step' (List.mem_cons_of_mem step hstep')
      exact and_congr (Op.broadcastsTo_iff hinv h hvalid.1)
        (ih hrest (Op.run_tableInv hinv hvalid.1) (h.run hinv hvalid.1 hop) hvalid.2)
  refine hrun tableInv_init (fun i hi => ?_) hvalid
  exact absurd hi.1 (not_live_init i)

/-- Two clients, one of them subscribed to `a`. -/
def oneSubscriber : List (Env × Op) :=
  [(Env.quiet, .addClient 4 100), (Env.quiet, .addClient 5 200),
    (Env.quiet, .sub 100 (ascii "sub a\n" ++ [0]))]

/-- The other one publishes on `a`, and then disappears. -/
theorem onlySubscribers_oneSubscriber :
    OnlySubscribers (oneSubscriber ++ [(Env.quiet, .pub 200 (ascii "pub a\nx" ++ [0]) 7),
      (Env.quiet, .delete 200)]) World.init [] := by
  refine (@onlySubscribers_iff (fun _ => False) _ (by decide) ?_).mpr ?_
  · intro step hstep
    simp only [oneSubscriber, List.cons_append, List.nil_append, List.mem_cons,
      List.not_mem_nil, or_false] at hstep
    rcases hstep with rfl | rfl | rfl | rfl | rfl <;> exact trivial
  · have hr : HasRoute (ascii "pub a\nx" ++ [0]) (ascii "a") := ⟨_, _, rfl, rfl⟩
    have hne : [] ≠ ascii "a" := by decide
    exact ⟨False.elim, False.elim, False.elim, fun hc => absurd (hr.unique hc.1) hne, False.elim,
      trivial⟩

/-- **A publication on the empty route goes to a client that has subscribed to nothing.** -/
theorem not_onlySubscribers_empty :
    ¬ OnlySubscribers (oneSubscriber ++ [(Env.quiet, .pub 100 (ascii "pub \nx" ++ [0]) 6)])
      World.init [] := by
  rintro ⟨-, -, -, hpub, -⟩
  have hsent : (200 : DucqI) ∈ [100] :=
    hpub 200 ⟨ascii "pub \nx", by decide, [.send 200 (ascii "pub \nx")], by decide, by decide⟩
  exact absurd hsent (by decide)

end Ducq
