import Ducq.System.Run

/-!
# Loops inside hooks

A hook may loop over the clients itself, delete one, or log, which is one more loop; and
the hooks of these loops may do so again.  Each level may ask for the deletion of the
client it is visiting, and so two levels may ask for the same one.  `Nest` is what such a
hook does, with any memory the levels share and any answer to what a call returned.

Whoever is deleted is closed and freed once all the same.  What makes it so is that
`connection_free` marks a slot as free before it does anything else, and does nothing to a
free slot: the client of a slot has been closed exactly if the slot has been given up, and
a loop passes over what has been given up (`nested_settled`).

To say which clients were visited and for which a level asked, a run is watched.  A watch
takes a note of every call of a hook, also of the two hooks that `ducq_reactor_delete` and
`ducq_reactor_log` loop with, and changes nothing else (`erases_watch`).
-/

namespace Ducq

open CMemory CPrintf Sweep

/-! ## What a hook does -/

/-- What a hook does: it uses its memory, sends to a client, asks for its id, deletes a
client, logs, and loops over the clients with another hook; in the end it returns its
control. -/
inductive Nest (σ : Type*) where
  | done (control : ℕ)
  | read (rest : σ → Nest σ)
  | write (memory : σ) (rest : Nest σ)
  | send (d : DucqI) (buf : List Byte) (rest : DucqState → Nest σ)
  | id (d : DucqI) (rest : Option (List Byte) → Nest σ)
  | delete (d : DucqI) (rest : Bool → Nest σ)
  | log (level : DucqLogLevel) (functionName : List Byte) (senderId fmt : Option (List Byte))
    (args : List Arg) (rest : Nest σ)
  | loop (hook : DucqI → List Byte → Nest σ) (rest : ℕ → Nest σ)

variable {σ τ : Type*}

/-- The hook is called. -/
def Nest.run (env : Env) : Nest σ → σ → World → ℕ × σ × World
  | done control, memory, w => (control, memory, w)
  | read rest, memory, w => (rest memory).run env memory w
  | write memory rest, _, w => rest.run env memory w
  | send d buf rest, memory, w =>
    match ducqSend env d buf w with
    | (state, w) => (rest state).run env memory w
  | id d rest, memory, w =>
    match ducqId env d w with
    | (name, w) => (rest name).run env memory w
  | delete d rest, memory, w =>
    match ducqReactorDelete env d w with
    | (deleted, w) => (rest deleted).run env memory w
  | log level functionName senderId fmt args rest, memory, w =>
    rest.run env memory (ducqReactorLog env level functionName senderId fmt args w)
  | loop hook rest, memory, w =>
    match ducqReactorLoop env (fun d route => (hook d route).run env) memory w with
    | (control, memory, w) => (rest control).run env memory w

theorem Nest.onlyFrees (env : Env) (nest : Nest σ) (memory : σ) (w : World) :
    OnlyFrees w (nest.run env memory w).2.2 := by
  induction nest generalizing memory w with
  | done control => exact OnlyFrees.refl w
  | read rest ih => exact ih _ memory w
  | write stored rest ih => exact ih stored w
  | send d buf rest ih => exact (OnlyFrees.ducqSend env d buf w).trans (ih _ memory _)
  | id d rest ih => exact (OnlyFrees.ducqId env d w).trans (ih _ memory _)
  | delete d rest ih => exact (OnlyFrees.ducqReactorDelete env d w).trans (ih _ memory _)
  | log level functionName senderId fmt args rest ih =>
    exact (onlyFrees_ducqReactorLog level functionName senderId fmt args w).trans (ih memory _)
  | loop hook rest ihhook ih =>
    exact (OnlyFrees.ducqReactorLoop (fun d route => ihhook d route) memory w).trans (ih _ _ _)

/-! ## The watch -/

/-- A hook was called on a client, when these calls had been made, and returned this
control. -/
structure Visit where
  ducq : DucqI
  calls : List Call
  control : ℕ

/-- A hook that calls no other, on a watch. -/
def blind (apply : DucqLoopF τ) : DucqLoopF (τ × List Visit) := fun d route (ctx, visits) w =>
  match apply d route ctx w with
  | (control, ctx, w) => (control, (ctx, visits), w)

/-- A note of a call is taken. -/
def noted (apply : DucqLoopF (τ × List Visit)) : DucqLoopF (τ × List Visit) :=
  fun d route ctx w =>
    match apply d route ctx w with
    | (control, (ctx, visits), w') => (control, (ctx, visits ++ [⟨d, w.calls, control⟩]), w')

/-- `ducq_reactor_delete` on a watch. -/
def watchDelete (env : Env) (d : DucqI) (visits : List Visit) (w : World) :
    Bool × List Visit × World :=
  if d = 0 then (false, visits, w)
  else match ducqReactorLoop env (noted (blind deleteHook)) (d, visits) w with
    | (control, (_, visits), w) => (control &&& ducqLoopDelete ≠ 0, visits, w)

/-- `ducq_reactor_log` on a watch. -/
def watchLog (env : Env) (level : DucqLogLevel) (functionName : List Byte)
    (senderId fmt : Option (List Byte)) (args : List Arg) (visits : List Visit) (w : World) :
    List Visit × World :=
  match fmt.bind fun fmt => format fmt args with
  | none => (visits, w.record [.undefined])
  | some text =>
    if w.reactor.allowLogRoute = false then (visits, w)
    else match ducqReactorLoop env (noted (blind (doSendToLogRoute env)))
        (logMsg env level functionName senderId text, visits) w with
      | (_, (_, visits), w) => (visits, w)

/-- The hook is called on a watch. -/
def Nest.watch (env : Env) : Nest σ → σ × List Visit → World → ℕ × (σ × List Visit) × World
  | done control, ctx, w => (control, ctx, w)
  | read rest, ctx, w => (rest ctx.1).watch env ctx w
  | write memory rest, ctx, w => rest.watch env (memory, ctx.2) w
  | send d buf rest, ctx, w =>
    match ducqSend env d buf w with
    | (state, w) => (rest state).watch env ctx w
  | id d rest, ctx, w =>
    match ducqId env d w with
    | (name, w) => (rest name).watch env ctx w
  | delete d rest, ctx, w =>
    match watchDelete env d ctx.2 w with
    | (deleted, visits, w) => (rest deleted).watch env (ctx.1, visits) w
  | log level functionName senderId fmt args rest, ctx, w =>
    match watchLog env level functionName senderId fmt args ctx.2 w with
    | (visits, w) => rest.watch env (ctx.1, visits) w
  | loop hook rest, ctx, w =>
    match ducqReactorLoop env (noted fun d route => (hook d route).watch env) ctx w with
    | (control, ctx, w) => (rest control).watch env ctx w

/-- The visits a hook's levels make. -/
def Nest.visits (env : Env) (nest : Nest σ) (memory : σ) (w : World) : List Visit :=
  (nest.watch env (memory, []) w).2.1.2

/-! ## A watch changes nothing -/

/-- What a watched call returns, without the notes. -/
def erase (result : ℕ × (τ × List Visit) × World) : ℕ × τ × World :=
  (result.1, result.2.1.1, result.2.2)

/-- The watched hook does what the hook does. -/
def Erases (watched : DucqLoopF (τ × List Visit)) (apply : DucqLoopF τ) : Prop :=
  ∀ d route ctx w, erase (watched d route ctx w) = apply d route ctx.1 w

variable {env : Env} {apply : DucqLoopF τ} {watched : DucqLoopF (τ × List Visit)}

theorem erases_blind (apply : DucqLoopF τ) : Erases (blind apply) apply := fun _ _ _ _ => rfl

theorem Erases.noted (h : Erases watched apply) : Erases (noted watched) apply := h

/-- **A loop with the watched hook does what the loop does.** -/
theorem Erases.ducqReactorLoop (h : Erases watched apply) (ctx : τ × List Visit) (w : World) :
    erase (ducqReactorLoop env watched ctx w) = ducqReactorLoop env apply ctx.1 w := by
  have hhook : ∀ i ctx w, erase (loopThroughClient env watched i ctx w) =
      loopThroughClient env apply i ctx.1 w := by
    intro i ctx w
    unfold loopThroughClient
    split_ifs
    · exact h _ _ _ _
    · rfl
  refine sweep_map (fun i s => ?_) _ (ducqLoopContinue, ctx, w)
  obtain ⟨control, ctx, w⟩ := s
  change loopTurn (loopThroughClient env apply) i (control, ctx.1, w) = _
  unfold loopTurn
  dsimp only
  by_cases hfd : (w.conn i).fd = -1
  · rw [if_pos hfd, if_pos hfd]
    rfl
  · rw [if_neg hfd, if_neg hfd, ← hhook]
    rfl

theorem erases_watchDelete (d : DucqI) (visits : List Visit) (w : World) :
    ((watchDelete env d visits w).1, (watchDelete env d visits w).2.2) =
      ducqReactorDelete env d w := by
  have hloop := @Erases.ducqReactorLoop _ env _ _ (erases_blind deleteHook).noted (d, visits) w
  rw [watchDelete, ducqReactorDelete]
  split_ifs
  · rfl
  · rw [← hloop]
    rfl

theorem erases_watchLog (level : DucqLogLevel) (functionName : List Byte)
    (senderId fmt : Option (List Byte)) (args : List Arg) (visits : List Visit) (w : World) :
    (watchLog env level functionName senderId fmt args visits w).2 =
      ducqReactorLog env level functionName senderId fmt args w := by
  rw [watchLog, ducqReactorLog]
  cases fmt.bind fun fmt => format fmt args with
  | none => rfl
  | some text =>
    have hloop := @Erases.ducqReactorLoop _ env _ _ (erases_blind (doSendToLogRoute env)).noted
      (logMsg env level functionName senderId text, visits) w
    dsimp only
    split_ifs
    · rfl
    · rw [← hloop]
      rfl

/-- **A watch changes nothing.** -/
theorem erases_watch (nest : Nest σ) (ctx : σ × List Visit) (w : World) :
    erase (nest.watch env ctx w) = nest.run env ctx.1 w := by
  induction nest generalizing ctx w with
  | done control => rfl
  | read rest ih => exact ih _ ctx w
  | write memory rest ih => exact ih (memory, ctx.2) w
  | send d buf rest ih => exact ih _ ctx _
  | id d rest ih => exact ih _ ctx _
  | delete d rest ih =>
    rw [Nest.run, ← @erases_watchDelete env d ctx.2 w]
    exact ih _ (ctx.1, _) _
  | log level functionName senderId fmt args rest ih =>
    rw [Nest.run, ← @erases_watchLog env level functionName senderId fmt args ctx.2 w]
    exact ih (ctx.1, _) _
  | loop hook rest ihhook ih =>
    have hhook : Erases (fun d route => (hook d route).watch env)
        (fun d route => (hook d route).run env) := fun d route => ihhook d route
    rw [Nest.run, ← hhook.noted.ducqReactorLoop ctx w]
    exact ih _ _ _

/-! ## Who is closed -/

/-- No client is registered twice. -/
def Distinct (w : World) : Prop :=
  ∀ i j, (w.conn i).IsClient → (w.conn j).IsClient → (w.conn i).word = (w.conn j).word → i = j

theorem TableInv.distinct {isCode : ℕ → Prop} {w : World} (h : TableInv isCode w) : Distinct w :=
  fun _ _ hi hj => h.unique hi hj

/-- **No reachable state has a client twice.** -/
theorem Reachable.distinct {isCode : ℕ → Prop} {w : World} (h : Reachable isCode w) :
    Distinct w := h.tableInv.distinct

/-- Some level asked for the deletion of the client. -/
def Requested (visits : List Visit) (d : DucqI) : Prop :=
  ∃ v ∈ visits, v.ducq = d ∧ v.control &&& ducqLoopDelete ≠ 0

instance (visits : List Visit) (d : DucqI) : Decidable (Requested visits d) :=
  inferInstanceAs (Decidable (∃ v ∈ visits, _))

/-- How often a client is closed, and how often it is freed: once if some level deleted it.
NULL is no client. -/
def ending (visits : List Visit) (d : DucqI) : ℕ := if d ≠ 0 ∧ Requested visits d then 1 else 0

/-- What has become of the table and of the clients: the slots of the clients that some
level deleted have been given up, and no others; these clients have been closed once and
freed once, and no others; and whoever was visited had not been freed by then. -/
structure Settled (w : World) (visits : List Visit) (w' : World) : Prop where
  conn : ∀ i, w'.conn i =
    if (w.conn i).IsClient ∧ Requested visits (w.conn i).word then (w.conn i).freed else w.conn i
  calls : ∃ new, w'.calls = w.calls ++ new ∧ ∀ d,
    new.count (.close d) = ending visits d ∧ new.count (.free d) = ending visits d
  visits : ∀ v ∈ visits, Registered w v.ducq ∧
    ∃ before, v.calls = w.calls ++ before ∧ Call.free v.ducq ∉ before

variable {w w' : World} {visits : List Visit}

theorem not_requested_nil (d : DucqI) : ¬ Requested [] d := by
  rintro ⟨v, hv, -⟩
  exact absurd hv List.not_mem_nil

theorem requested_append {visit : Visit} {d : DucqI} :
    Requested (visits ++ [visit]) d ↔
      Requested visits d ∨ (visit.ducq = d ∧ visit.control &&& ducqLoopDelete ≠ 0) := by
  simp only [Requested, List.mem_append, List.mem_singleton, or_and_right, exists_or,
    exists_eq_left]

/-- A visit asks for nothing new unless it is the first to delete its client. -/
theorem requested_append_of {visit : Visit} {d : DucqI}
    (h : visit.ducq = d → visit.control &&& ducqLoopDelete ≠ 0 → Requested visits d) :
    Requested (visits ++ [visit]) d ↔ Requested visits d := by
  rw [requested_append, or_iff_left_of_imp fun hc => h hc.1 hc.2]

theorem ending_append_of {visit : Visit} {d : DucqI}
    (h : visit.ducq = d → visit.control &&& ducqLoopDelete ≠ 0 → Requested visits d) :
    ending (visits ++ [visit]) d = ending visits d := by
  rw [ending, ending]
  exact if_congr (and_congr_right fun _ => requested_append_of h) rfl rfl

/-- Giving a slot up closes and frees its client, if it holds one. -/
theorem calls_connectionFree_eq (i : Fin ducqMaxConnections) (w : World) :
    (connectionFree i w).calls = w.calls ++
      if (w.conn i).IsClient ∧ (w.conn i).word ≠ 0 then
        [.close (w.conn i).word, .free (w.conn i).word]
      else [] := by
  by_cases hi : (w.conn i).IsClient ∧ (w.conn i).word ≠ 0
  · rw [if_pos hi, calls_connectionFree hi.1 hi.2]
  · rw [if_neg hi, List.append_nil, connectionFree]
    split_ifs with hfd
    · rfl
    · dsimp only
      split_ifs with htype
      · have h0 : (w.conn i).word = 0 := by_contra fun h0 => hi ⟨⟨hfd, htype⟩, h0⟩
        rw [ducqCloseFree, if_pos h0]
        rfl
      · rfl

namespace Settled

/-- Nothing has happened. -/
theorem start (w : World) : Settled w [] w where
  conn i := (if_neg fun h => not_requested_nil _ h.2).symm
  calls := by
    refine ⟨[], (List.append_nil _).symm, ?_⟩
    intro d
    rw [ending, if_neg fun h => not_requested_nil d h.2]
    exact ⟨rfl, rfl⟩
  visits v hv := absurd hv List.not_mem_nil

/-- A call that ends no client. -/
theorem record (h : Settled w visits w') {c : Call} (hclose : ∀ d, c ≠ .close d)
    (hfree : ∀ d, c ≠ .free d) : Settled w visits (w'.record [c]) where
  conn := h.conn
  calls := by
    obtain ⟨new, hnew, hcount⟩ := h.calls
    refine ⟨new ++ [c], ?_, ?_⟩
    · rw [World.calls_record, hnew, List.append_assoc]
    · intro d
      have hnotClose : Call.close d ∉ [c] := by simpa using (hclose d).symm
      have hnotFree : Call.free d ∉ [c] := by simpa using (hfree d).symm
      rw [List.count_append, List.count_append, List.count_eq_zero.mpr hnotClose,
        List.count_eq_zero.mpr hnotFree]
      exact hcount d
  visits := h.visits

theorem ducqSend (h : Settled w visits w') (d : DucqI) (buf : List Byte) :
    Settled w visits (ducqSend env d buf w').2 := by
  unfold Ducq.ducqSend
  split_ifs
  · exact h
  · exact h.record (fun _ => Call.noConfusion) fun _ => Call.noConfusion

theorem ducqId (h : Settled w visits w') (d : DucqI) : Settled w visits (ducqId env d w').2 := by
  unfold Ducq.ducqId
  split_ifs
  · exact h
  · exact h.record (fun _ => Call.noConfusion) fun _ => Call.noConfusion

/-- A slot that is still in use is what it was. -/
theorem conn_of_live (h : Settled w visits w') {i : Fin ducqMaxConnections}
    (hi : (w'.conn i).Live) : w'.conn i = w.conn i := by
  rw [h.conn] at hi ⊢
  split_ifs at hi ⊢
  · exact absurd hi (w.conn i).not_live_freed
  · rfl

/-- Nobody asked for a client that is still registered. -/
theorem not_requested (h : Settled w visits w') {i : Fin ducqMaxConnections}
    (hi : (w'.conn i).IsClient) : ¬ Requested visits (w'.conn i).word := by
  intro hrequested
  have hsame := h.conn_of_live hi.1
  have hgone := h.conn i
  rw [← hsame, if_pos ⟨hi, hrequested⟩] at hgone
  exact (w'.conn i).not_isClient_freed (hgone ▸ hi)

/-- A client was asked for if its slot has been given up. -/
theorem requested_of_not_live (h : Settled w visits w') {i : Fin ducqMaxConnections}
    (hi : (w.conn i).IsClient) (hgone : ¬ (w'.conn i).Live) :
    Requested visits (w.conn i).word := by
  by_contra hnot
  rw [h.conn, if_neg fun hc => hnot hc.2] at hgone
  exact hgone hi.1

/-- A client that is visited has not been freed. -/
theorem visited (h : Settled w visits w') {i : Fin ducqMaxConnections}
    (hi : (w'.conn i).IsClient) : Registered w (w'.conn i).word ∧
      ∃ before, w'.calls = w.calls ++ before ∧ Call.free (w'.conn i).word ∉ before := by
  have hsame := h.conn_of_live hi.1
  obtain ⟨new, hnew, hcount⟩ := h.calls
  refine ⟨⟨i, hsame ▸ hi, by rw [hsame]⟩, new, hnew, ?_⟩
  rw [← List.count_eq_zero, (hcount _).2, ending, if_neg fun hc => h.not_requested hi hc.2]

/-- The visits so far and one more. -/
theorem visits_append (h : Settled w visits w') {visit : Visit}
    (hvisit : Registered w visit.ducq ∧
      ∃ before, visit.calls = w.calls ++ before ∧ Call.free visit.ducq ∉ before) :
    ∀ v ∈ visits ++ [visit], Registered w v.ducq ∧
      ∃ before, v.calls = w.calls ++ before ∧ Call.free v.ducq ∉ before := by
  intro v hv
  rcases List.mem_append.mp hv with hv | hv
  · exact h.visits v hv
  · rw [List.mem_singleton.mp hv]
    exact hvisit

/-- The visit of a client that is not to be deleted. -/
theorem visit_keep (h : Settled w visits w') {visit : Visit}
    (hvisit : Registered w visit.ducq ∧
      ∃ before, visit.calls = w.calls ++ before ∧ Call.free visit.ducq ∉ before)
    (hkeep : ¬ visit.control &&& ducqLoopDelete ≠ 0) : Settled w (visits ++ [visit]) w' where
  conn i := by
    rw [h.conn]
    refine if_congr (and_congr_right fun _ => ?_) rfl rfl
    exact (requested_append_of fun _ hdelete => absurd hdelete hkeep).symm
  calls := by
    obtain ⟨new, hnew, hcount⟩ := h.calls
    refine ⟨new, hnew, ?_⟩
    intro d
    rw [ending_append_of fun _ hdelete => absurd hdelete hkeep]
    exact hcount d
  visits := h.visits_append hvisit

/-- What is called when a client is given up that nobody had asked for: it is closed and
freed, now. -/
theorem calls_delete_of_live (h : Settled w visits w') {i : Fin ducqMaxConnections}
    (hi : (w.conn i).IsClient) (hlive : (w'.conn i).Live) {visit : Visit}
    (hword : visit.ducq = (w.conn i).word) (hdelete : visit.control &&& ducqLoopDelete ≠ 0) :
    ∃ new, (connectionFree i w').calls = w.calls ++ new ∧ ∀ d,
      new.count (.close d) = ending (visits ++ [visit]) d ∧
      new.count (.free d) = ending (visits ++ [visit]) d := by
  obtain ⟨new, hnew, hcount⟩ := h.calls
  have hsame := h.conn_of_live hlive
  have hnot : ¬ Requested visits (w.conn i).word := by
    rw [← hsame]
    exact h.not_requested (hsame ▸ hi)
  refine ⟨new ++ if (w.conn i).word ≠ 0 then
    [.close (w.conn i).word, .free (w.conn i).word] else [], ?_, ?_⟩
  · rw [calls_connectionFree_eq, hnew, List.append_assoc, hsame,
      if_congr (and_iff_right hi) rfl rfl]
  · intro d
    rw [List.count_append, List.count_append, (hcount d).1, (hcount d).2]
    by_cases hd : (w.conn i).word = d
    · subst hd
      have hrequested : Requested (visits ++ [visit]) (w.conn i).word :=
        requested_append.mpr (.inr ⟨hword, hdelete⟩)
      rw [ending, if_neg fun hc => hnot hc.2, ending]
      by_cases h0 : (w.conn i).word = 0
      · simp [h0]
      · simp [h0, hrequested]
    · rw [ending_append_of fun heq _ => absurd (hword ▸ heq) hd]
      split_ifs
      · simp [hd]
      · simp

/-- What is called when another level has given the client up already: nothing. -/
theorem calls_delete_of_not_live (h : Settled w visits w') {i : Fin ducqMaxConnections}
    (hi : (w.conn i).IsClient) (hgone : ¬ (w'.conn i).Live) {visit : Visit}
    (hword : visit.ducq = (w.conn i).word) :
    ∃ new, (connectionFree i w').calls = w.calls ++ new ∧ ∀ d,
      new.count (.close d) = ending (visits ++ [visit]) d ∧
      new.count (.free d) = ending (visits ++ [visit]) d := by
  obtain ⟨new, hnew, hcount⟩ := h.calls
  have hidle : connectionFree i w' = w' := by rw [connectionFree, if_pos (not_not.mp hgone)]
  refine ⟨new, by rw [hidle, hnew], ?_⟩
  intro d
  rw [ending_append_of]
  · exact hcount d
  · rintro rfl -
    rw [hword]
    exact h.requested_of_not_live hi hgone

/-- **The visit of a client that is to be deleted**: its slot is given up, unless another
level has done so in the meantime. -/
theorem visit_delete (hw : Distinct w) (h : Settled w visits w') {i : Fin ducqMaxConnections}
    (hi : (w.conn i).IsClient) {visit : Visit} (hword : visit.ducq = (w.conn i).word)
    (hvisit : Registered w visit.ducq ∧
      ∃ before, visit.calls = w.calls ++ before ∧ Call.free visit.ducq ∉ before)
    (hdelete : visit.control &&& ducqLoopDelete ≠ 0) :
    Settled w (visits ++ [visit]) (connectionFree i w') where
  conn j := by
    rw [conn_connectionFree]
    by_cases hji : j = i
    · subst hji
      rw [if_pos rfl, if_pos ⟨hi, requested_append.mpr (.inr ⟨hword, hdelete⟩)⟩, h.conn]
      split_ifs
      · rfl
      · rfl
    · rw [if_neg hji, h.conn]
      refine if_congr (and_congr_right fun hj => ?_) rfl rfl
      exact (requested_append_of fun heq _ =>
        absurd (hw j i hj hi (heq.symm.trans hword)) hji).symm
  calls := by
    by_cases hlive : (w'.conn i).Live
    · exact h.calls_delete_of_live hi hlive hword hdelete
    · exact h.calls_delete_of_not_live hi hlive hword
  visits := h.visits_append hvisit

/-- **A loop with a hook that leaves everything settled** leaves everything settled. -/
theorem ducqReactorLoop (hw : Distinct w) {hook : DucqLoopF (τ × List Visit)}
    (hhook : ∀ d route ctx w', Settled w ctx.2 w' →
      Settled w (hook d route ctx w').2.1.2 (hook d route ctx w').2.2)
    (ctx : τ × List Visit) (h : Settled w ctx.2 w') :
    Settled w (ducqReactorLoop env (noted hook) ctx w').2.1.2
      (ducqReactorLoop env (noted hook) ctx w').2.2 := by
  refine @sweep_invariant _ _ (loopTurn (loopThroughClient env (noted hook)))
    (fun s => Settled w s.2.1.2 s.2.2) _ ?_ (ducqLoopContinue, ctx, w') h
  rintro i - ⟨control, ctx, w'⟩ hs
  rw [loopTurn]
  split_ifs with hfd
  · exact hs
  · unfold loopThroughClient
    by_cases htype : (w'.conn i).type = .client
    · have hi : (w'.conn i).IsClient := ⟨hfd, htype⟩
      have hsame := hs.conn_of_live hfd
      have hvisited := hs.visited hi
      have hafter := hhook (w'.conn i).word (routePtr env w' i) ctx w' hs
      rw [if_pos htype, noted]
      dsimp only
      split_ifs with hdelete
      · exact hafter.visit_delete hw (hsame ▸ hi) (by rw [hsame]) hvisited hdelete
      · exact hafter.visit_keep hvisited hdelete
    · rw [if_neg htype]
      exact hs

theorem watchDelete (hw : Distinct w) (h : Settled w visits w') (d : DucqI) :
    Settled w (watchDelete env d visits w').2.1 (watchDelete env d visits w').2.2 := by
  rw [Ducq.watchDelete]
  split_ifs
  · exact h
  · exact ducqReactorLoop hw (fun _ _ _ _ h => h) (d, visits) h

theorem watchLog (hw : Distinct w) (h : Settled w visits w') (level : DucqLogLevel)
    (functionName : List Byte) (senderId fmt : Option (List Byte)) (args : List Arg) :
    Settled w (watchLog env level functionName senderId fmt args visits w').1
      (watchLog env level functionName senderId fmt args visits w').2 := by
  rw [Ducq.watchLog]
  cases fmt.bind fun fmt => format fmt args with
  | none => exact h.record (fun _ => Call.noConfusion) fun _ => Call.noConfusion
  | some text =>
    dsimp only
    split_ifs
    · exact h
    · refine ducqReactorLoop hw ?_ (logMsg env level functionName senderId text, visits) h
      intro d route ctx w' h
      have hsend := @ducqSend env w w' _ h d (ctx.1.buffer.slice 0 ctx.1.size)
      unfold blind doSendToLogRoute sendToMatching
      dsimp only
      split_ifs
      · exact hsend
      · exact hsend
      · exact h

/-- **Whatever a hook does**, it leaves everything settled.  The induction is on what it
does, and the loops and the hooks of the loops are part of that. -/
theorem watch (hw : Distinct w) (nest : Nest σ) (ctx : σ × List Visit)
    (h : Settled w ctx.2 w') :
    Settled w (nest.watch env ctx w').2.1.2 (nest.watch env ctx w').2.2 := by
  induction nest generalizing ctx w' with
  | done control => exact h
  | read rest ih => exact ih _ ctx h
  | write memory rest ih => exact ih (memory, ctx.2) h
  | send d buf rest ih => exact ih _ ctx (h.ducqSend d buf)
  | id d rest ih => exact ih _ ctx (h.ducqId d)
  | delete d rest ih => exact ih _ (ctx.1, _) (h.watchDelete hw d)
  | log level functionName senderId fmt args rest ih =>
    exact ih (ctx.1, _) (h.watchLog hw level functionName senderId fmt args)
  | loop hook rest ihhook ih =>
    exact ih _ _ (ducqReactorLoop hw (fun d route ctx w' h => ihhook d route ctx h) ctx h)

end Settled

/-- **Each client is closed and freed exactly once**, however the loops are nested: those
that some level deleted, and no others.  The other slots are what they were, and no hook is
called on a client that has been freed. -/
theorem nested_settled (env : Env) (hw : Distinct w) (nest : Nest σ) (memory : σ) :
    Settled w (nest.visits env memory w) (nest.run env memory w).2.2 := by
  have hsettled := @Settled.watch σ env w w hw nest (memory, []) (Settled.start w)
  rw [← erases_watch nest (memory, []) w]
  exact hsettled

/-- At every client: loop over all clients and delete each, then ask for this one too. -/
def deleteTwice : Nest Unit :=
  .loop (fun _ _ => .loop (fun _ _ => .done ducqLoopDelete) fun _ => .done ducqLoopDelete) .done

/-- **Two levels delete two clients**, the outer one a client that the inner one has
already deleted. -/
theorem nested_settled_deleteTwice :
    Settled (runOps [(Env.quiet, .addClient 4 100), (Env.quiet, .addClient 5 101)] World.init)
      (deleteTwice.visits Env.quiet ()
        (runOps [(Env.quiet, .addClient 4 100), (Env.quiet, .addClient 5 101)] World.init))
      (deleteTwice.run Env.quiet ()
        (runOps [(Env.quiet, .addClient 4 100), (Env.quiet, .addClient 5 101)] World.init)).2.2 :=
  nested_settled Env.quiet (@Reachable.distinct (fun _ => False) _
    (Reachable.runOps Relation.ReflTransGen.refl (by decide))) deleteTwice ()

end Ducq
