import Ducq.Reactor.Table

/-!
# What every operation leaves true of the table

`ducq_reactor_subscribe` writes the first slot that holds the caller's pointer, whether
or not that slot is in use.  It writes the right one because of an invariant that no
line of the source states: *no slot below a registered client holds that client's
pointer* (`TableInv.first`).  A client goes into the first free slot, so what is below
it is in use; a later client with a reused address cannot get in below the slot where
the address still stands without that slot being the older one.  Pointers in slots
above do no harm.

Everything that loops only ever gives slots up, however deep its hooks loop themselves
(`OnlyFrees`), and giving a slot up changes no pointer.  The invariant is therefore a
matter of the two operations that fill a slot (`TableInv.occupy`); with it, subscribing
and deleting have exact descriptions.
-/

namespace Ducq

open CMemory CNumber Sweep

/-! ## Giving slots up -/

theorem Connection.freed_of_not_live {c : Connection} (h : ¬ c.Live) : c.freed = c := by
  have hfd : c.fd = -1 := not_not.mp h
  rw [freed, ← hfd]

theorem conn_ducqSend (env : Env) (d : DucqI) (buf : List Byte) (w : World)
    (i : Fin ducqMaxConnections) : (ducqSend env d buf w).2.conn i = w.conn i := by
  rw [World.conn, reactor_ducqSend, World.conn]

theorem conn_ducqId (env : Env) (d : DucqI) (w : World) (i : Fin ducqMaxConnections) :
    (ducqId env d w).2.conn i = w.conn i := by
  rw [World.conn, reactor_ducqId, World.conn]

theorem conn_ducqCloseFree (d : DucqI) (w : World) (i : Fin ducqMaxConnections) :
    (ducqCloseFree d w).conn i = w.conn i := by
  unfold ducqCloseFree
  split_ifs <;> rfl

/-- `connection_free` gives up one slot. -/
theorem conn_connectionFree (i j : Fin ducqMaxConnections) (w : World) :
    (connectionFree i w).conn j = if j = i then (w.conn i).freed else w.conn j := by
  by_cases hfd : (w.conn i).fd = -1
  · rw [connectionFree, if_pos hfd]
    split_ifs with hji
    · rw [hji, Connection.freed_of_not_live (not_not.mpr hfd)]
    · rfl
  · have hconn : (connectionFree i w).conn j = (w.setConn i (w.conn i).freed).conn j := by
      rw [connectionFree, if_neg hfd]
      dsimp only
      split_ifs
      · exact conn_ducqCloseFree _ _ _
      · rfl
    rw [hconn]
    split_ifs with hji
    · rw [hji, World.conn_setConn_self]
    · exact World.conn_setConn_of_ne w hji _

/-- **The invariant rule of the loops.**  What a hook and the freeing of a slot leave true,
the loop does. -/
theorem connectionLoopTemplate_invariant {σ : Type*} {P : World → Prop}
    {hook : Fin ducqMaxConnections → σ → World → ℕ × σ × World}
    (hfree : ∀ i w, P w → P (connectionFree i w)) (hhook : ∀ i c w, P w → P (hook i c w).2.2)
    (ctx : σ) {w : World} (hw : P w) : P (connectionLoopTemplate hook ctx w).2.2 := by
  refine @sweep_invariant _ _ (loopTurn hook) (fun s => P s.2.2) _ ?_ _ hw
  rintro i - ⟨control, c, w'⟩ hw'
  have hi := hhook i c w' hw'
  rw [loopTurn]
  split_ifs with hfd
  · exact hw'
  · rcases hr : hook i c w' with ⟨control', c', w''⟩
    rw [hr] at hi
    dsimp only
    split_ifs
    · exact hfree i w'' hi
    · exact hi

theorem ducqReactorLoop_invariant {σ : Type*} {P : World → Prop} {env : Env}
    {apply : DucqLoopF σ} (hfree : ∀ i w, P w → P (connectionFree i w))
    (happly : ∀ d r c w, P w → P (apply d r c w).2.2) (ctx : σ) {w : World} (hw : P w) :
    P (ducqReactorLoop env apply ctx w).2.2 := by
  refine connectionLoopTemplate_invariant hfree (fun i c w hw => ?_) ctx hw
  unfold loopThroughClient
  split_ifs
  · exact happly _ _ _ _ hw
  · exact hw

/-- Some slots were given up, and nothing else happened to the table. -/
def OnlyFrees (w w' : World) : Prop := ∀ i, w'.conn i = w.conn i ∨ w'.conn i = (w.conn i).freed

namespace OnlyFrees

theorem refl (w : World) : OnlyFrees w w := fun _ => Or.inl rfl

theorem trans {w w' w'' : World} (h : OnlyFrees w w') (h' : OnlyFrees w' w'') :
    OnlyFrees w w'' := by
  intro i
  rcases h' i with h2 | h2
  · rw [h2]
    exact h i
  · rcases h i with h1 | h1
    · rw [h2, h1]
      exact Or.inr rfl
    · rw [h2, h1]
      exact Or.inr rfl

/-- Exactly the slots with some property were given up. -/
theorem of_ite {w w' : World} {p : Fin ducqMaxConnections → Prop} [DecidablePred p]
    (h : ∀ i, w'.conn i = if p i then (w.conn i).freed else w.conn i) : OnlyFrees w w' := by
  intro i
  rw [h]
  split_ifs
  · exact Or.inr rfl
  · exact Or.inl rfl

theorem record {w w' : World} (h : OnlyFrees w w') (cs : List Call) :
    OnlyFrees w (w'.record cs) := h

theorem ducqSend (env : Env) (d : DucqI) (buf : List Byte) (w : World) :
    OnlyFrees w (ducqSend env d buf w).2 := fun i => Or.inl (conn_ducqSend env d buf w i)

theorem ducqId (env : Env) (d : DucqI) (w : World) : OnlyFrees w (ducqId env d w).2 :=
  fun i => Or.inl (conn_ducqId env d w i)

theorem connectionFree (i : Fin ducqMaxConnections) (w : World) :
    OnlyFrees w (connectionFree i w) := by
  intro j
  rw [conn_connectionFree]
  split_ifs with hji
  · rw [hji]
    exact Or.inr rfl
  · exact Or.inl rfl

theorem word {w w' : World} (h : OnlyFrees w w') (i : Fin ducqMaxConnections) :
    (w'.conn i).word = (w.conn i).word := by
  rcases h i with hi | hi <;> rw [hi]
  rfl

theorem bytes {w w' : World} (h : OnlyFrees w w') (i : Fin ducqMaxConnections) :
    (w'.conn i).bytes = (w.conn i).bytes := by
  rcases h i with hi | hi <;> rw [hi]
  rfl

/-- A client that is still there was there. -/
theorem isClient {w w' : World} (h : OnlyFrees w w') {i : Fin ducqMaxConnections}
    (hi : (w'.conn i).IsClient) : (w.conn i).IsClient := by
  rcases h i with h1 | h1
  · rwa [h1] at hi
  · rw [h1] at hi
    exact absurd hi (w.conn i).not_isClient_freed

theorem isServer {w w' : World} (h : OnlyFrees w w') {i : Fin ducqMaxConnections}
    (hi : (w'.conn i).IsServer) : (w.conn i).IsServer := by
  rcases h i with h1 | h1
  · rwa [h1] at hi
  · rw [h1] at hi
    exact absurd hi (w.conn i).not_isServer_freed

/-- A client that is still there has not changed. -/
theorem conn_eq {w w' : World} (h : OnlyFrees w w') {i : Fin ducqMaxConnections}
    (hi : (w'.conn i).IsClient) : w'.conn i = w.conn i := by
  rcases h i with h1 | h1
  · exact h1
  · rw [h1] at hi
    exact absurd hi (w.conn i).not_isClient_freed

/-- **A loop only gives slots up if its hook does.** -/
theorem ducqReactorLoop {σ : Type*} {env : Env} {apply : DucqLoopF σ}
    (happly : ∀ d r c w, OnlyFrees w (apply d r c w).2.2) (ctx : σ) (w : World) :
    OnlyFrees w (ducqReactorLoop env apply ctx w).2.2 :=
  ducqReactorLoop_invariant (fun i w' hw' => hw'.trans (connectionFree i w'))
    (fun d r c w' hw' => hw'.trans (happly d r c w')) ctx (refl w)

theorem ducqReactorDelete (env : Env) (d : DucqI) (w : World) :
    OnlyFrees w (ducqReactorDelete env d w).2 := by
  unfold Ducq.ducqReactorDelete
  split_ifs
  · exact refl w
  · exact ducqReactorLoop (fun _ _ _ w => refl w) d w

end OnlyFrees

/-! ## What filling and subscribing leave alone -/

theorem firstFree_eq_some {w : World} {i : Fin ducqMaxConnections} :
    firstFree w = some i ↔ ¬ (w.conn i).Live ∧ ∀ j < i, (w.conn j).Live := by
  rw [firstFree, find?_finRange]
  simp [Connection.Live]

theorem firstFree_eq_none {w : World} : firstFree w = none ↔ ∀ i, (w.conn i).Live := by
  rw [firstFree, List.find?_eq_none]
  simp [Connection.Live]

theorem conn_ducqReactorAddServer {w : World} {i : Fin ducqMaxConnections}
    (hi : (w.conn i).Live) (fd : ℤ) (acceptF ctx : ℕ) :
    (ducqReactorAddServer fd acceptF ctx w).2.conn i = w.conn i := by
  rw [ducqReactorAddServer]
  cases hfree : firstFree w with
  | none => rfl
  | some j =>
    refine World.conn_setConn_of_ne w ?_ _
    rintro rfl
    exact (firstFree_eq_some.mp hfree).1 hi

theorem conn_ducqReactorAddClient {w : World} {i : Fin ducqMaxConnections}
    (hi : (w.conn i).Live) (fd : ℤ) (d : DucqI) :
    (ducqReactorAddClient fd d w).2.conn i = w.conn i := by
  rw [ducqReactorAddClient]
  cases hfree : firstFree w with
  | none => rfl
  | some j =>
    refine World.conn_setConn_of_ne w ?_ _
    rintro rfl
    exact (firstFree_eq_some.mp hfree).1 hi

theorem conn_ducqReactorSubscribe {w : World} {i : Fin ducqMaxConnections} {d : DucqI}
    (hi : d ≠ (w.conn i).word) (route : List Byte) :
    (ducqReactorSubscribe d route w).2.conn i = w.conn i := by
  rw [ducqReactorSubscribe]
  cases hfind : (List.finRange ducqMaxConnections).find? fun j => d = (w.conn j).word with
  | none => rfl
  | some j =>
    refine World.conn_setConn_of_ne w ?_ _
    rintro rfl
    exact hi (of_decide_eq_true (find?_finRange.mp hfind).1)

/-! ## The invariant -/

/-- A client that is registered. -/
def Registered (w : World) (d : DucqI) : Prop := ∃ i, (w.conn i).IsClient ∧ (w.conn i).word = d

/-- The invariant of the table; `isCode` says which words are callbacks. -/
structure TableInv (isCode : ℕ → Prop) (w : World) : Prop where
  client_ne_zero : ∀ i, (w.conn i).IsClient → (w.conn i).word ≠ 0
  client_not_code : ∀ i, (w.conn i).IsClient → ¬ isCode (w.conn i).word
  server_code : ∀ i, (w.conn i).IsServer → isCode (w.conn i).word
  first : ∀ i j, j < i → (w.conn i).IsClient → (w.conn j).word ≠ (w.conn i).word

variable {isCode : ℕ → Prop}

theorem not_live_init (i : Fin ducqMaxConnections) : ¬ (World.init.conn i).Live :=
  fun h => h rfl

theorem tableInv_init : TableInv isCode World.init where
  client_ne_zero i hi := absurd hi.1 (not_live_init i)
  client_not_code i hi := absurd hi.1 (not_live_init i)
  server_code i hi := absurd hi.1 (not_live_init i)
  first i _ _ hi := absurd hi.1 (not_live_init i)

namespace TableInv

/-- **A client has one slot.** -/
theorem unique {w : World} (h : TableInv isCode w) {i j : Fin ducqMaxConnections}
    (hi : (w.conn i).IsClient) (hj : (w.conn j).IsClient)
    (hword : (w.conn i).word = (w.conn j).word) : i = j := by
  rcases lt_trichotomy i j with hlt | heq | hgt
  · exact absurd hword (h.first j i hlt hj)
  · exact heq
  · exact absurd hword.symm (h.first i j hgt hi)

/-- **Giving slots up breaks nothing.** -/
theorem onlyFrees {w w' : World} (h : TableInv isCode w) (hw : OnlyFrees w w') :
    TableInv isCode w' where
  client_ne_zero i hi := by
    rw [hw.word]
    exact h.client_ne_zero i (hw.isClient hi)
  client_not_code i hi := by
    rw [hw.word]
    exact h.client_not_code i (hw.isClient hi)
  server_code i hi := by
    rw [hw.word]
    exact h.server_code i (hw.isServer hi)
  first i j hji hi := by
    rw [hw.word, hw.word]
    exact h.first i j hji (hw.isClient hi)

end TableInv

/-! ## Filling a slot -/

namespace TableInv

/-- **The first free slot can be filled**, with a pointer that no registered client has.
The slots below it are in use, so none of them holds a stale pointer; the clients above
it have other pointers. -/
theorem occupy {w : World} (h : TableInv isCode w) {i : Fin ducqMaxConnections}
    (hfree : firstFree w = some i) {c : Connection}
    (hclient : c.IsClient → c.word ≠ 0 ∧ ¬ isCode c.word)
    (hserver : c.IsServer → isCode c.word)
    (hnew : ∀ j, (w.conn j).IsClient → (w.conn j).word ≠ c.word) :
    TableInv isCode (w.setConn i c) := by
  obtain ⟨-, hbelow⟩ := firstFree_eq_some.mp hfree
  have hother : ∀ j, j ≠ i → (w.setConn i c).conn j = w.conn j := fun j hj =>
    World.conn_setConn_of_ne w hj c
  refine ⟨?_, ?_, ?_, ?_⟩
  · intro j hj
    by_cases hji : j = i
    · subst hji
      rw [World.conn_setConn_self] at hj ⊢
      exact (hclient hj).1
    · rw [hother j hji] at hj ⊢
      exact h.client_ne_zero j hj
  · intro j hj
    by_cases hji : j = i
    · subst hji
      rw [World.conn_setConn_self] at hj ⊢
      exact (hclient hj).2
    · rw [hother j hji] at hj ⊢
      exact h.client_not_code j hj
  · intro j hj
    by_cases hji : j = i
    · subst hji
      rw [World.conn_setConn_self] at hj ⊢
      exact hserver hj
    · rw [hother j hji] at hj ⊢
      exact h.server_code j hj
  · intro a b hba ha
    by_cases hai : a = i
    · subst hai
      rw [hother b (ne_of_lt hba), World.conn_setConn_self]
      rw [World.conn_setConn_self] at ha
      -- what is below is in use: another client, or a server
      have hlive := hbelow b hba
      cases htype : (w.conn b).type with
      | client => exact hnew b ⟨hlive, htype⟩
      | server =>
        intro heq
        exact (hclient ha).2 (heq ▸ h.server_code b ⟨hlive, htype⟩)
    · rw [hother a hai] at ha ⊢
      by_cases hbi : b = i
      · subst hbi
        rw [World.conn_setConn_self]
        exact Ne.symm (hnew a ha)
      · rw [hother b hbi]
        exact h.first a b hba ha

/-- A client that is registered after slots were given up still has its slot. -/
theorem conn_eq_of_registered {w w' : World} (h : TableInv isCode w) (hw : OnlyFrees w w')
    {i : Fin ducqMaxConnections} (hi : (w.conn i).IsClient)
    (hregistered : Registered w' (w.conn i).word) : w'.conn i = w.conn i := by
  obtain ⟨j, hj, hword⟩ := hregistered
  rw [hw.word] at hword
  obtain rfl := h.unique (hw.isClient hj) hi hword
  exact hw.conn_eq hj

/-- A client is still registered unless its slot was given up. -/
theorem registered_iff {w w' : World} (h : TableInv isCode w) (hw : OnlyFrees w w')
    {i : Fin ducqMaxConnections} (hi : (w.conn i).IsClient) {p : Prop} [Decidable p]
    (hconn : w'.conn i = if p then (w.conn i).freed else w.conn i) :
    Registered w' (w.conn i).word ↔ ¬ p := by
  constructor
  · intro hregistered hp
    have hsame := h.conn_eq_of_registered hw hi hregistered
    rw [hconn, if_pos hp] at hsame
    exact (w.conn i).not_isClient_freed (hsame ▸ hi)
  · intro hp
    rw [if_neg hp] at hconn
    exact ⟨i, by rwa [hconn], by rw [hconn]⟩

/-- A slot rewritten with the same pointer. -/
theorem rewrite {w : World} (h : TableInv isCode w) (i : Fin ducqMaxConnections)
    (bytes : CharArray ducqMaxRouteLen) :
    TableInv isCode (w.setConn i { w.conn i with bytes := bytes }) := by
  have hall : ∀ j, ((w.setConn i { w.conn i with bytes := bytes }).conn j).word =
      (w.conn j).word ∧
      (((w.setConn i { w.conn i with bytes := bytes }).conn j).IsClient ↔
        (w.conn j).IsClient) ∧
      (((w.setConn i { w.conn i with bytes := bytes }).conn j).IsServer ↔
        (w.conn j).IsServer) := by
    intro j
    by_cases hji : j = i
    · subst hji
      rw [World.conn_setConn_self]
      exact ⟨rfl, Iff.rfl, Iff.rfl⟩
    · rw [World.conn_setConn_of_ne w hji]
      exact ⟨rfl, Iff.rfl, Iff.rfl⟩
  refine ⟨fun j hj => ?_, fun j hj => ?_, fun j hj => ?_, fun a b hba ha => ?_⟩
  · rw [(hall j).1]
    exact h.client_ne_zero j ((hall j).2.1.mp hj)
  · rw [(hall j).1]
    exact h.client_not_code j ((hall j).2.1.mp hj)
  · rw [(hall j).1]
    exact h.server_code j ((hall j).2.2.mp hj)
  · rw [(hall a).1, (hall b).1]
    exact h.first a b hba ((hall a).2.1.mp ha)

theorem addServer {w : World} (h : TableInv isCode w) {fd : ℤ} {acceptF ctx : ℕ}
    (hcode : isCode acceptF) :
    TableInv isCode (ducqReactorAddServer fd acceptF ctx w).2 := by
  rw [ducqReactorAddServer]
  cases hfree : firstFree w with
  | none => exact h
  | some i =>
    refine h.occupy hfree (fun hc => nomatch hc.2) (fun _ => hcode) fun j hj => ?_
    intro heq
    exact h.client_not_code j hj (heq ▸ hcode)

theorem addClient {w : World} (h : TableInv isCode w) {fd : ℤ} {d : DucqI} (h0 : d ≠ 0)
    (hcode : ¬ isCode d) (hnew : ¬ Registered w d) :
    TableInv isCode (ducqReactorAddClient fd d w).2 := by
  rw [ducqReactorAddClient]
  cases hfree : firstFree w with
  | none => exact h
  | some i =>
    exact h.occupy hfree (fun _ => ⟨h0, hcode⟩) (fun hc => nomatch hc.2)
      fun j hj heq => hnew ⟨j, hj, heq⟩

/-! ## Subscribing and deleting -/

/-- **`ducq_reactor_subscribe` writes the caller's own slot.** -/
theorem subscribe_eq {w : World} (h : TableInv isCode w) {i : Fin ducqMaxConnections}
    (hi : (w.conn i).IsClient) (route : List Byte) :
    ducqReactorSubscribe (w.conn i).word route w =
      (.ok, w.setConn i { w.conn i with bytes := CharArray.strncpy _ route }) := by
  have hfind : (List.finRange ducqMaxConnections).find?
      (fun j => (w.conn i).word = (w.conn j).word) = some i := by
    rw [find?_finRange]
    refine ⟨by simp, fun j hj => ?_⟩
    rw [decide_eq_false_iff_not]
    exact Ne.symm (h.first i j hj hi)
  rw [ducqReactorSubscribe, hfind]

theorem subscribe {w : World} (h : TableInv isCode w) (d : DucqI) (route : List Byte) :
    TableInv isCode (ducqReactorSubscribe d route w).2 := by
  unfold ducqReactorSubscribe
  split
  · exact h
  · exact h.rewrite _ _

/-- A turn of `ducq_reactor_delete` at another slot. -/
theorem deleteTurn_idle {env : Env} {w : World} {d : DucqI} {j : Fin ducqMaxConnections}
    (hj : ¬ ((w.conn j).IsClient ∧ (w.conn j).word = d)) :
    loopTurn (loopThroughClient env deleteHook) j (ducqLoopContinue, d, w) =
      (false, ducqLoopContinue, d, w) := by
  rw [loopTurn]
  split_ifs with hfd
  · rfl
  · by_cases htype : (w.conn j).type = .client
    · have hword : (w.conn j).word ≠ d := fun heq => hj ⟨⟨hfd, htype⟩, heq⟩
      simp [loopThroughClient, htype, deleteHook, hword]
    · simp [loopThroughClient, htype]

/-- **`ducq_reactor_delete` gives up the client's slot.** -/
theorem delete_eq {w : World} (h : TableInv isCode w) {i : Fin ducqMaxConnections}
    (hi : (w.conn i).IsClient) (env : Env) :
    ducqReactorDelete env (w.conn i).word w = (true, Ducq.connectionFree i w) := by
  obtain ⟨pre, post, hsplit⟩ := List.append_of_mem (List.mem_finRange i)
  have hnodup := List.nodup_finRange ducqMaxConnections
  rw [hsplit, List.nodup_append] at hnodup
  have hpre : ∀ j ∈ pre, loopTurn (loopThroughClient env deleteHook) j
      (ducqLoopContinue, (w.conn i).word, w) =
        (false, ducqLoopContinue, (w.conn i).word, w) := by
    intro j hj
    refine deleteTurn_idle ?_
    rintro ⟨hclient, hword⟩
    exact hnodup.2.2 j hj i List.mem_cons_self (h.unique hclient hi hword)
  have hturn : loopTurn (loopThroughClient env deleteHook) i
      (ducqLoopContinue, (w.conn i).word, w) =
        (true, ducqLoopDelete ||| ducqLoopBreak, (w.conn i).word, Ducq.connectionFree i w) := by
    rw [loopTurn, if_neg hi.1]
    simp [loopThroughClient, hi.2, deleteHook]
  rw [ducqReactorDelete, if_neg (h.client_ne_zero i hi), ducqReactorLoop, connectionLoopTemplate,
    hsplit, sweep_first hpre (by rw [hturn]), hturn]
  rfl

/-- **A client that was deleted is not registered.** -/
theorem not_registered_delete {w : World} (h : TableInv isCode w) {d : DucqI}
    (hd : Registered w d) (env : Env) : ¬ Registered (ducqReactorDelete env d w).2 d := by
  obtain ⟨i, hi, rfl⟩ := hd
  have hconn := conn_connectionFree i i w
  rw [if_pos rfl] at hconn
  rw [h.delete_eq hi]
  intro hregistered
  have hsame := h.conn_eq_of_registered (OnlyFrees.connectionFree i w) hi hregistered
  rw [hconn] at hsame
  exact (w.conn i).not_isClient_freed (hsame ▸ hi)

/-- `ducq_reactor_delete` of a client that is not there. -/
theorem delete_eq_of_not_registered {w : World} {d : DucqI} (hd : ¬ Registered w d) (env : Env) :
    ducqReactorDelete env d w = (false, w) := by
  unfold ducqReactorDelete
  split_ifs with h0
  · rfl
  · have hidle : ∀ j ∈ List.finRange ducqMaxConnections,
        loopTurn (loopThroughClient env deleteHook) j (ducqLoopContinue, d, w) =
          (false, ducqLoopContinue, d, w) := fun j _ =>
      deleteTurn_idle fun hj => hd ⟨j, hj⟩
    rw [ducqReactorLoop, connectionLoopTemplate, sweep_idle hidle]
    rfl

end TableInv

end Ducq
