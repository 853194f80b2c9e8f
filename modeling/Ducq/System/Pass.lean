import Ducq.System.Nested
import Ducq.System.Unsub

/-!
# One pass of the main loop

`ducq_loop` asks `select` which descriptors are ready and sends `round_table` round the
table once.  A turn at a slot whose descriptor is ready calls `ducq_recv` or `accept_f` on
its connection, and these may do to the table whatever they like: delete clients, in loops
of their own or not, and register connections.  `Handling` is what happens outside at one
such call.

`round_table` knows a connection by its descriptor.  A client that is deleted in the
middle of a pass gives its descriptor back, and the next connection may get it, in the
first free slot.  If the loop has not been there yet, it takes the new connection for the
one that was ready.  That is the only thing that goes wrong (`ducqLoop_servesExactly_iff`):
the count of what is left to serve is exact until it happens, and so the loop does not end
too early either.
-/

namespace Ducq

open CMemory CNumber CPrintf Sweep

/-! ## What happens outside -/

/-- A handler calls the interface or a command, or runs loops inside loops. -/
inductive Act where
  | call (env : Env) (op : Op)
  | nest {σ : Type} (env : Env) (hook : Nest σ) (memory : σ)

/-- The state after it. -/
def Act.run : Act → World → World
  | call env op, w => op.run env w
  | nest env hook memory, w => (hook.run env memory w).2.2

/-- One act after another: the states after each, and the last one. -/
def runActs : List Act → World → List World × World
  | [], w => ([], w)
  | act :: acts, w =>
    match runActs acts (act.run w) with
    | (states, w') => (act.run w :: states, w')

/-- What a call of `ducq_recv` returns and leaves in the buffer, what `strerror` says, what
surrounds the reactor, and what `ducq_dispatch` or `accept_f` does to it. -/
structure Handling where
  state : DucqState
  size : ℕ
  buffer : List Byte
  strerror : List Byte
  env : Env
  acts : List Act

/-- `ducq_recv` or `accept_f` is called on the connection of a slot, or a handler has
brought the reactor into a state. -/
inductive PassEvent where
  | served (i : Fin ducqMaxConnections)
  | passed (w : World)

/-- `struct round_table_ctx`, and what has happened in the pass. -/
structure RoundTableCtx where
  fds : Finset ℤ
  nready : ℤ
  trail : List PassEvent

/-! ## The pass -/

/-- The end of a connection that could not be received from. -/
def disconnect (h : Handling) (d : DucqI) (w : World) : World :=
  let level := if h.state = .econnclosed then .info else .warning
  let (_, w) := ducqSendAck h.env d h.state w
  let (id, w) := ducqId h.env d w
  ducqReactorLog h.env level (ascii "round_table") id
    (some (ascii "disconnecting: %s (%s) buffer[%ld]\"%.*s\""))
    [.str (some (ducqStateTostr h.state.code)), .str (some h.strerror), .int (wrap64 h.size),
      .int (wrap32 h.size), .str (some h.buffer)] w

/-- What `round_table` does to a ready connection: the control, the states in between and
the last one. -/
def serve (h : Handling) (conn : Connection) (control : ℕ) (w : World) :
    ℕ × List World × World :=
  if conn.type = .server then (control, runActs h.acts w)
  else match h.state with
    | .ok => (control, runActs h.acts w)
    | .protocol => (control, [], w)
    | _ => (control ||| ducqLoopDelete, [disconnect h conn.word w], disconnect h conn.word w)

/-- `round_table`. -/
def roundTable (outside : Fin ducqMaxConnections → Handling) (i : Fin ducqMaxConnections)
    (ctx : RoundTableCtx) (w : World) : ℕ × RoundTableCtx × World :=
  if (w.conn i).fd ∉ ctx.fds then (ducqLoopContinue, ctx, w)
  else
    let nready := ctx.nready - 1
    let control := if nready ≤ 0 then ducqLoopBreak else ducqLoopContinue
    match serve (outside i) (w.conn i) control w with
    | (control, states, w) =>
      (control, ⟨ctx.fds, nready, ctx.trail ++ .served i :: states.map .passed⟩, w)

/-- The descriptors that `ducq_loop` asks about. -/
def readfds (w : World) : Finset ℤ :=
  (Finset.univ.filter fun i => (w.conn i).Live).image fun i => (w.conn i).fd

/-- How `select` ends: it fails, or leaves the ready descriptors and returns how many they
are. -/
inductive SelectResult where
  | failed (strerror : List Byte)
  | ready (fds : Finset ℤ)

/-- `ducq_loop`, once round: what has happened, and the state. -/
def ducqLoopOnce (env : Env) (select : Finset ℤ → SelectResult)
    (outside : Fin ducqMaxConnections → Handling) (w : World) : List PassEvent × World :=
  match select (readfds w) with
  | .failed strerror =>
    ([], ducqReactorLog env .error (ascii "ducq_loop") (some (ascii "n\\a"))
      (some (ascii "select() failed: %s\n")) [.str (some strerror)] w)
  | .ready fds =>
    match connectionLoopTemplate (roundTable outside) ⟨fds, fds.card, []⟩ w with
    | (_, ctx, w) => (ctx.trail, w)

/-! ## What is to be served -/

/-- How often a slot's connection was served. -/
def services (i : Fin ducqMaxConnections) : List PassEvent → ℕ
  | [] => 0
  | .served j :: trail => (if j = i then 1 else 0) + services i trail
  | .passed _ :: trail => services i trail

/-- A slot was given up before its connection was served. -/
def DeletedBefore (i : Fin ducqMaxConnections) : List PassEvent → Prop
  | [] => False
  | .served j :: trail => j ≠ i ∧ DeletedBefore i trail
  | .passed w :: trail => ¬ (w.conn i).Live ∨ DeletedBefore i trail

instance decidableDeletedBefore (i : Fin ducqMaxConnections) :
    (trail : List PassEvent) → Decidable (DeletedBefore i trail)
  | [] => instDecidableFalse
  | .served j :: trail =>
    have := decidableDeletedBefore i trail
    inferInstanceAs (Decidable (j ≠ i ∧ DeletedBefore i trail))
  | .passed w :: trail =>
    have := decidableDeletedBefore i trail
    inferInstanceAs (Decidable (¬ (w.conn i).Live ∨ DeletedBefore i trail))

/-- The slot's connection was registered when `select` was called, it is ready, and it has
not been deleted. -/
def Due (fds : Finset ℤ) (w : World) (trail : List PassEvent) (i : Fin ducqMaxConnections) :
    Prop :=
  (w.conn i).Live ∧ (w.conn i).fd ∈ fds ∧ ¬ DeletedBefore i trail

instance (fds : Finset ℤ) (w : World) (trail : List PassEvent) (i : Fin ducqMaxConnections) :
    Decidable (Due fds w trail i) := inferInstanceAs (Decidable (_ ∧ _ ∧ _))

/-- Exactly the connections that are due have been served, once each. -/
def ServesExactly (fds : Finset ℤ) (w : World) (trail : List PassEvent) : Prop :=
  ∀ i, services i trail = if Due fds w trail i then 1 else 0

/-- The slot holds a connection that was registered during the pass, on a descriptor that
was ready. -/
def Stranger (fds : Finset ℤ) (w₀ : World) (trail : List PassEvent) (w : World)
    (i : Fin ducqMaxConnections) : Prop :=
  (w.conn i).Live ∧ (w.conn i).fd ∈ fds ∧ (¬ (w₀.conn i).Live ∨ DeletedBefore i trail)

instance (fds : Finset ℤ) (w₀ : World) (trail : List PassEvent) (w : World)
    (i : Fin ducqMaxConnections) : Decidable (Stranger fds w₀ trail w i) :=
  inferInstanceAs (Decidable (_ ∧ _ ∧ (_ ∨ _)))

/-- The loop comes to no slot that holds such a connection. -/
def MeetsNoStranger (outside : Fin ducqMaxConnections → Handling) (fds : Finset ℤ) (w : World) :
    Prop :=
  EachTurn (loopTurn (roundTable outside)) (fun i s => ¬ Stranger fds w s.2.1.trail s.2.2 i)
    (List.finRange ducqMaxConnections) (ducqLoopContinue, ⟨fds, fds.card, []⟩, w)

instance (outside : Fin ducqMaxConnections → Handling) (fds : Finset ℤ) (w : World) :
    Decidable (MeetsNoStranger outside fds w) := inferInstanceAs (Decidable (EachTurn _ _ _ _))

/-! ## What a handler cannot do -/

/-- The same connection, but for the route. -/
structure SameConnection (c c' : Connection) : Prop where
  fd : c'.fd = c.fd
  type : c'.type = c.type
  word : c'.word = c.word

theorem SameConnection.refl (c : Connection) : SameConnection c c := ⟨rfl, rfl, rfl⟩

theorem SameConnection.trans {c c' c'' : Connection} (h : SameConnection c c')
    (h' : SameConnection c' c'') : SameConnection c c'' :=
  ⟨h'.fd.trans h.fd, h'.type.trans h.type, h'.word.trans h.word⟩

theorem SameConnection.live {c c' : Connection} (h : SameConnection c c') (hc : c.Live) :
    c'.Live := by
  rw [Connection.Live, h.fd]
  exact hc

/-- A slot that is still in use holds the same connection, all slots taken together. -/
def Keeps (w w' : World) : Prop :=
  ∀ i, (w.conn i).Live → (w'.conn i).Live → SameConnection (w.conn i) (w'.conn i)

theorem OnlyFrees.keeps {w w' : World} (h : OnlyFrees w w') : Keeps w w' := by
  intro i _ hi'
  rcases h i with heq | heq
  · rw [heq]
    exact SameConnection.refl _
  · rw [heq] at hi'
    exact absurd hi' (w.conn i).not_live_freed

theorem keeps_subscribe (d : DucqI) (route : List Byte) (w : World) :
    ∀ i, SameConnection (w.conn i) ((ducqReactorSubscribe d route w).2.conn i) := by
  intro i
  rw [ducqReactorSubscribe]
  cases (List.finRange ducqMaxConnections).find? fun j => d = (w.conn j).word with
  | none => exact SameConnection.refl _
  | some j =>
    by_cases hij : i = j
    · subst hij
      dsimp only
      rw [World.conn_setConn_self]
      exact ⟨rfl, rfl, rfl⟩
    · dsimp only
      rw [World.conn_setConn_of_ne w hij]
      exact SameConnection.refl _

variable {env : Env} {w w' : World}

theorem keeps_subCommand (functionName : List Byte) (d : DucqI) (buffer : List Byte) (w : World) :
    Keeps w (subCommand env functionName d buffer w).2 := by
  obtain ⟨-, route, hfrees⟩ | hfrees := @onlyFrees_subCommand env functionName d buffer w
  · intro i hi hi'
    have hsub := keeps_subscribe d route w i
    exact hsub.trans (hfrees.keeps i (hsub.live hi) hi')
  · exact hfrees.keeps

/-- **No single call replaces a connection.**  It registers one in a free slot, or it
writes a route and gives slots up. -/
theorem Op.keeps (op : Op) (w : World) : Keeps w (op.run env w) := by
  by_cases hop : op.WritesSlot
  · cases op with
    | addServer fd acceptF ctx =>
      intro i hi _
      rw [Op.run, conn_ducqReactorAddServer hi]
      exact SameConnection.refl _
    | addClient fd d =>
      intro i hi _
      rw [Op.run, conn_ducqReactorAddClient hi]
      exact SameConnection.refl _
    | subscribeTo d route =>
      intro i _ _
      exact keeps_subscribe d route w i
    | sub d buffer => exact keeps_subCommand _ d buffer w
    | subscribe d buffer => exact keeps_subCommand _ d buffer w
    | _ => exact hop.elim
  · exact (Op.onlyFrees_run hop w).keeps

theorem Act.keeps (act : Act) (w : World) : Keeps w (act.run w) := by
  cases act with
  | call env op => exact op.keeps w
  | nest env hook memory => exact (hook.onlyFrees env memory w).keeps

/-- Through these states to that one, a slot that is in use in all of them holds the same
connection, and is in use at the end. -/
def KeepsAlong (w : World) (states : List World) (w' : World) : Prop :=
  ∀ i, (w.conn i).Live → (∀ s ∈ states, (s.conn i).Live) →
    (w'.conn i).Live ∧ SameConnection (w.conn i) (w'.conn i)

theorem runActs_keepsAlong (acts : List Act) (w : World) :
    KeepsAlong w (runActs acts w).1 (runActs acts w).2 := by
  induction acts generalizing w with
  | nil =>
    intro i hi _
    exact ⟨hi, SameConnection.refl _⟩
  | cons act acts ih =>
    intro i hi hstates
    have hfirst : ((act.run w).conn i).Live := hstates _ List.mem_cons_self
    have hrest : ∀ s ∈ (runActs acts (act.run w)).1, (s.conn i).Live := fun s hs =>
      hstates s (List.mem_cons_of_mem _ hs)
    obtain ⟨hlive, hsame⟩ := ih (act.run w) i hfirst hrest
    exact ⟨hlive, (act.keeps w i hi hfirst).trans hsame⟩

theorem keeps_disconnect (h : Handling) (d : DucqI) (w : World) : Keeps w (disconnect h d w) :=
  (((onlyFrees_ducqSendAck d h.state w).trans (OnlyFrees.ducqId h.env d _)).trans
    (onlyFrees_ducqReactorLog _ _ _ _ _ _)).keeps

/-- **What a service does**: the loop ends after it if it would have ended, and no
connection is replaced. -/
theorem serve_spec (h : Handling) (conn : Connection) (control : ℕ) (w : World) :
    (serve h conn control w).1 &&& ducqLoopBreak = control &&& ducqLoopBreak ∧
      KeepsAlong w (serve h conn control w).2.1 (serve h conn control w).2.2 := by
  have hdisconnect : KeepsAlong w [disconnect h conn.word w] (disconnect h conn.word w) := by
    intro i hi hstates
    have hlive := hstates _ (List.mem_singleton_self _)
    exact ⟨hlive, keeps_disconnect h conn.word w i hi hlive⟩
  have hbit : (control ||| ducqLoopDelete) &&& ducqLoopBreak = control &&& ducqLoopBreak := by
    rw [Nat.and_or_distrib_right]
    exact Nat.or_zero _
  rw [serve]
  split_ifs
  · exact ⟨rfl, runActs_keepsAlong h.acts w⟩
  · cases h.state with
    | ok => exact ⟨rfl, runActs_keepsAlong h.acts w⟩
    | protocol =>
      refine ⟨rfl, ?_⟩
      intro i hi _
      exact ⟨hi, SameConnection.refl _⟩
    | _ => exact ⟨hbit, hdisconnect⟩

/-! ## Trails -/

theorem services_append (i : Fin ducqMaxConnections) (trail trail' : List PassEvent) :
    services i (trail ++ trail') = services i trail + services i trail' := by
  induction trail with
  | nil => exact (Nat.zero_add _).symm
  | cons e trail ih =>
    cases e with
    | served j => rw [List.cons_append, services, services, ih, Nat.add_assoc]
    | passed s => exact ih

theorem services_passed (i : Fin ducqMaxConnections) (states : List World) :
    services i (states.map .passed) = 0 := by
  induction states with
  | nil => rfl
  | cons s states ih => exact ih

theorem deletedBefore_append (i : Fin ducqMaxConnections) (trail trail' : List PassEvent) :
    DeletedBefore i (trail ++ trail') ↔
      DeletedBefore i trail ∨ (services i trail = 0 ∧ DeletedBefore i trail') := by
  induction trail with
  | nil => simp [DeletedBefore, services]
  | cons e trail ih =>
    cases e with
    | served j =>
      rw [List.cons_append, DeletedBefore, DeletedBefore, services, ih]
      by_cases hji : j = i
      · simp [hji]
      · simp [hji]
    | passed s =>
      rw [List.cons_append, DeletedBefore, DeletedBefore, services, ih, or_assoc]

theorem deletedBefore_passed (i : Fin ducqMaxConnections) (states : List World) :
    DeletedBefore i (states.map .passed) ↔ ∃ s ∈ states, ¬ (s.conn i).Live := by
  induction states with
  | nil => simp [DeletedBefore]
  | cons s states ih => simp [DeletedBefore, ih]

/-- The trail after a service. -/
def afterService (trail : List PassEvent) (i : Fin ducqMaxConnections) (states : List World) :
    List PassEvent := trail ++ .served i :: states.map .passed

theorem services_afterService (trail : List PassEvent) (i j : Fin ducqMaxConnections)
    (states : List World) :
    services j (afterService trail i states) = services j trail + if i = j then 1 else 0 := by
  rw [afterService, services_append, services, services_passed, Nat.add_zero]

/-- A service makes no difference to a slot that has been served, nor to its own. -/
theorem deletedBefore_afterService_of_served {trail : List PassEvent}
    {i j : Fin ducqMaxConnections} (h : services j trail ≠ 0 ∨ i = j) (states : List World) :
    DeletedBefore j (afterService trail i states) ↔ DeletedBefore j trail := by
  rw [afterService, deletedBefore_append, DeletedBefore]
  refine or_iff_left ?_
  rintro ⟨hzero, hij, -⟩
  exact h.elim (fun hne => hne hzero) hij

/-- To another slot it does what its states say. -/
theorem deletedBefore_afterService {trail : List PassEvent} {i j : Fin ducqMaxConnections}
    (hzero : services j trail = 0) (hij : i ≠ j) (states : List World) :
    DeletedBefore j (afterService trail i states) ↔
      DeletedBefore j trail ∨ ∃ s ∈ states, ¬ (s.conn j).Live := by
  rw [afterService, deletedBefore_append, DeletedBefore, deletedBefore_passed,
    and_iff_right hzero, and_iff_right hij]

/-! ## Turns -/

section Turn

variable {outside : Fin ducqMaxConnections → Handling} {i : Fin ducqMaxConnections}
  {control : ℕ} {ctx : RoundTableCtx}

/-- A turn at a slot that is free, or whose descriptor is not ready. -/
theorem pass_turn_idle (h : ¬ ((w.conn i).Live ∧ (w.conn i).fd ∈ ctx.fds)) :
    ∃ control', loopTurn (roundTable outside) i (control, ctx, w) = (false, control', ctx, w) := by
  rw [loopTurn]
  by_cases hfd : (w.conn i).fd = -1
  · exact ⟨control, if_pos hfd⟩
  · rw [if_neg hfd, roundTable, if_pos fun hready => h ⟨hfd, hready⟩]
    exact ⟨ducqLoopContinue, rfl⟩

/-- **A turn at any other slot** serves its connection, and stops the loop if nothing is
left to serve. -/
theorem pass_turn_served (hlive : (w.conn i).Live) (hready : (w.conn i).fd ∈ ctx.fds) :
    ∃ control' states w', loopTurn (roundTable outside) i (control, ctx, w) =
        (decide (ctx.nready - 1 ≤ 0), control',
          ⟨ctx.fds, ctx.nready - 1, afterService ctx.trail i states⟩, w') ∧
      ∀ j, j ≠ i → (w.conn j).Live → (∀ s ∈ states, (s.conn j).Live) →
        (w'.conn j).Live ∧ SameConnection (w.conn j) (w'.conn j) := by
  obtain ⟨hbit, hkeeps⟩ := serve_spec (outside i) (w.conn i)
    (if ctx.nready - 1 ≤ 0 then ducqLoopBreak else ducqLoopContinue) w
  rw [loopTurn, if_neg hlive, roundTable, if_neg (not_not.mpr hready)]
  dsimp only
  rcases hserve : serve (outside i) (w.conn i)
    (if ctx.nready - 1 ≤ 0 then ducqLoopBreak else ducqLoopContinue) w with ⟨control', states, w'⟩
  rw [hserve] at hbit hkeeps
  dsimp only at hbit hkeeps ⊢
  refine ⟨control', states, if control' &&& ducqLoopDelete ≠ 0 then connectionFree i w' else w',
    ?_, ?_⟩
  · have hstop : decide (control' &&& ducqLoopBreak ≠ 0) = decide (ctx.nready - 1 ≤ 0) := by
      rw [hbit]
      split_ifs with hlast
      · simp [hlast]
      · simp [hlast]
    rw [hstop]
    rfl
  · intro j hji hj hstates
    have hfree : (if control' &&& ducqLoopDelete ≠ 0 then connectionFree i w' else w').conn j =
        w'.conn j := by
      split_ifs
      · rw [conn_connectionFree, if_neg hji]
      · rfl
    rw [hfree]
    exact hkeeps j hj hstates

end Turn

/-! ## Descriptors -/

/-- No two connections have the same descriptor. -/
def DescriptorsDistinct (w : World) : Prop :=
  ∀ i j, (w.conn i).Live → (w.conn j).Live → (w.conn i).fd = (w.conn j).fd → i = j

instance (w : World) : Decidable (DescriptorsDistinct w) :=
  inferInstanceAs (Decidable (∀ _ _, _))

/-- No connection has this descriptor. -/
def NotOpen (fd : ℤ) (w : World) : Prop := ∀ i, (w.conn i).Live → (w.conn i).fd ≠ fd

instance (fd : ℤ) (w : World) : Decidable (NotOpen fd w) := inferInstanceAs (Decidable (∀ _, _))

/-- What the operating system sees to: a new connection has a descriptor that is not open. -/
def Op.Fresh (w : World) : Op → Prop
  | addServer fd _ _ => NotOpen fd w
  | addClient fd _ => NotOpen fd w
  | _ => True

namespace DescriptorsDistinct

/-- A slot that is in use was in use, with the same descriptor. -/
theorem of_live (h : DescriptorsDistinct w)
    (hlive : ∀ i, (w'.conn i).Live → (w.conn i).Live ∧ (w'.conn i).fd = (w.conn i).fd) :
    DescriptorsDistinct w' := by
  intro i j hi hj heq
  obtain ⟨hi, hfd⟩ := hlive i hi
  obtain ⟨hj, hfd'⟩ := hlive j hj
  exact h i j hi hj (by rw [← hfd, heq, hfd'])

theorem onlyFrees (h : DescriptorsDistinct w) (hw : OnlyFrees w w') : DescriptorsDistinct w' := by
  refine h.of_live ?_
  intro i hi
  rcases hw i with heq | heq
  · rw [heq] at hi ⊢
    exact ⟨hi, rfl⟩
  · rw [heq] at hi
    exact absurd hi (w.conn i).not_live_freed

theorem subscribe (h : DescriptorsDistinct w) (d : DucqI) (route : List Byte) :
    DescriptorsDistinct (ducqReactorSubscribe d route w).2 := by
  refine h.of_live ?_
  intro i hi
  have hfd := (keeps_subscribe d route w i).fd
  rw [Connection.Live, hfd] at hi
  exact ⟨hi, hfd⟩

theorem subCommand (h : DescriptorsDistinct w) (functionName : List Byte) (d : DucqI)
    (buffer : List Byte) : DescriptorsDistinct (subCommand env functionName d buffer w).2 := by
  obtain ⟨-, route, hfrees⟩ | hfrees := @onlyFrees_subCommand env functionName d buffer w
  · exact (h.subscribe d route).onlyFrees hfrees
  · exact h.onlyFrees hfrees

/-- A slot filled with a new descriptor. -/
theorem occupy (h : DescriptorsDistinct w) {c : Connection} (hnew : NotOpen c.fd w)
    (i : Fin ducqMaxConnections) : DescriptorsDistinct (w.setConn i c) := by
  intro j k hj hk heq
  by_cases hji : j = i
  · subst hji
    by_cases hkj : k = j
    · exact hkj.symm
    · rw [World.conn_setConn_self, World.conn_setConn_of_ne w hkj] at heq
      rw [World.conn_setConn_of_ne w hkj] at hk
      exact absurd heq.symm (hnew k hk)
  · rw [World.conn_setConn_of_ne w hji] at hj heq
    by_cases hki : k = i
    · subst hki
      rw [World.conn_setConn_self] at heq
      exact absurd heq (hnew j hj)
    · rw [World.conn_setConn_of_ne w hki] at hk heq
      exact h j k hj hk heq

/-- **Every call keeps the descriptors apart**, as long as the new ones are new. -/
theorem op (h : DescriptorsDistinct w) {op : Op} (hfresh : op.Fresh w) :
    DescriptorsDistinct (op.run env w) := by
  by_cases hop : op.WritesSlot
  · cases op with
    | addServer fd acceptF ctx =>
      rw [Op.run, ducqReactorAddServer]
      cases firstFree w with
      | none => exact h
      | some i =>
        refine h.occupy ?_ i
        exact hfresh
    | addClient fd d =>
      rw [Op.run, ducqReactorAddClient]
      cases firstFree w with
      | none => exact h
      | some i =>
        refine h.occupy ?_ i
        exact hfresh
    | subscribeTo d route => exact h.subscribe d route
    | sub d buffer => exact h.subCommand _ d buffer
    | subscribe d buffer => exact h.subCommand _ d buffer
    | _ => exact hop.elim
  · exact h.onlyFrees (Op.onlyFrees_run hop w)

end DescriptorsDistinct

/-! ## Half way through a pass -/

/-- The slots whose connection has been served. -/
def servedSlots (trail : List PassEvent) : Finset (Fin ducqMaxConnections) :=
  Finset.univ.filter fun i => services i trail ≠ 0

theorem mem_servedSlots {trail : List PassEvent} {i : Fin ducqMaxConnections} :
    i ∈ servedSlots trail ↔ services i trail ≠ 0 := by
  rw [servedSlots, Finset.mem_filter, and_iff_right (Finset.mem_univ i)]

theorem servedSlots_afterService (trail : List PassEvent) (i : Fin ducqMaxConnections)
    (states : List World) :
    servedSlots (afterService trail i states) = insert i (servedSlots trail) := by
  ext j
  rw [Finset.mem_insert, mem_servedSlots, mem_servedSlots, services_afterService]
  by_cases hij : i = j
  · simp [hij]
  · have hji : j ≠ i := fun heq => hij heq.symm
    simp [hij, hji]

/-- A service changes nothing about what was due at the slots that have been dealt with. -/
theorem due_afterService_iff {fds : Finset ℤ} {w₀ : World} {trail : List PassEvent}
    {i j : Fin ducqMaxConnections}
    (hpast : services j trail = if Due fds w₀ trail j then 1 else 0) (hij : i ≠ j)
    (states : List World) :
    Due fds w₀ (afterService trail i states) j ↔ Due fds w₀ trail j := by
  by_cases hdue : Due fds w₀ trail j
  · have hserved : services j trail ≠ 0 := by
      rw [hpast, if_pos hdue]
      exact Nat.one_ne_zero
    rw [Due, Due, deletedBefore_afterService_of_served (.inl hserved)]
  · rw [if_neg hdue] at hpast
    refine iff_of_false ?_ hdue
    rintro ⟨hlive, hready, hnot⟩
    rw [deletedBefore_afterService hpast hij, not_or] at hnot
    exact hdue ⟨hlive, hready, hnot.1⟩

/-- Before the turns at the slots `is`: the slots before them have been dealt with, theirs
have not been served and hold what they held unless it was deleted, and the count is what
is left. -/
structure Halfway (fds : Finset ℤ) (w₀ : World) (is : List (Fin ducqMaxConnections))
    (ctx : RoundTableCtx) (w : World) : Prop where
  fds_eq : ctx.fds = fds
  past : ∀ i ∉ is, services i ctx.trail = if Due fds w₀ ctx.trail i then 1 else 0
  unserved : ∀ i ∈ is, services i ctx.trail = 0
  kept : ∀ i ∈ is, (w₀.conn i).Live → ¬ DeletedBefore i ctx.trail →
    (w.conn i).Live ∧ SameConnection (w₀.conn i) (w.conn i)
  nready : ctx.nready + (servedSlots ctx.trail).card = fds.card

namespace Halfway

variable {fds : Finset ℤ} {w₀ : World} {is : List (Fin ducqMaxConnections)}
  {i : Fin ducqMaxConnections} {ctx : RoundTableCtx}

/-- At the start. -/
theorem start (fds : Finset ℤ) (w : World) :
    Halfway fds w (List.finRange ducqMaxConnections) ⟨fds, fds.card, []⟩ w where
  fds_eq := rfl
  past i hi := absurd (List.mem_finRange i) hi
  unserved i _ := rfl
  kept i _ hi _ := ⟨hi, SameConnection.refl _⟩
  nready := by
    have hnone : servedSlots [] = ∅ := by
      ext i
      simp [mem_servedSlots, services]
    rw [hnone, Finset.card_empty, Nat.cast_zero, add_zero]

/-- A turn that does nothing, at a slot that is not due. -/
theorem idle (h : Halfway fds w₀ (i :: is) ctx w)
    (hidle : ¬ ((w.conn i).Live ∧ (w.conn i).fd ∈ ctx.fds)) : Halfway fds w₀ is ctx w where
  fds_eq := h.fds_eq
  past j hj := by
    by_cases hji : j = i
    · subst hji
      rw [h.unserved j List.mem_cons_self, if_neg]
      rintro ⟨hlive, hready, hkept⟩
      obtain ⟨hlive', hsame⟩ := h.kept j List.mem_cons_self hlive hkept
      exact hidle ⟨hlive', by rw [hsame.fd, h.fds_eq]; exact hready⟩
    · exact h.past j fun hmem => (List.mem_cons.mp hmem).elim hji hj
  unserved j hj := h.unserved j (List.mem_cons_of_mem i hj)
  kept j hj := h.kept j (List.mem_cons_of_mem i hj)
  nready := h.nready

/-- **A service**, of a connection that was there from the start. -/
theorem service (h : Halfway fds w₀ (i :: is) ctx w) (hnodup : (i :: is).Nodup)
    (hready : (w.conn i).fd ∈ fds) (hlive₀ : (w₀.conn i).Live)
    (hkept : ¬ DeletedBefore i ctx.trail) {states : List World} {w' : World}
    (hkeeps : ∀ j, j ≠ i → (w.conn j).Live → (∀ s ∈ states, (s.conn j).Live) →
      (w'.conn j).Live ∧ SameConnection (w.conn j) (w'.conn j)) :
    Halfway fds w₀ is ⟨ctx.fds, ctx.nready - 1, afterService ctx.trail i states⟩ w' := by
  have hzero := h.unserved i List.mem_cons_self
  have hmem : ∀ j ∈ is, i ≠ j := fun j hj hij => (List.nodup_cons.mp hnodup).1 (hij ▸ hj)
  have hfd : (w₀.conn i).fd ∈ fds := by
    obtain ⟨-, hsame⟩ := h.kept i List.mem_cons_self hlive₀ hkept
    rwa [← hsame.fd]
  refine ⟨h.fds_eq, ?_, ?_, ?_, ?_⟩
  · intro j hj
    rw [services_afterService]
    by_cases hij : i = j
    · subst hij
      rw [hzero, if_pos rfl, if_pos]
      refine ⟨hlive₀, hfd, ?_⟩
      rwa [deletedBefore_afterService_of_served (.inr rfl)]
    · have hpast := h.past j fun hmem => (List.mem_cons.mp hmem).elim (fun heq => hij heq.symm) hj
      rw [if_neg hij, Nat.add_zero, hpast]
      exact if_congr (due_afterService_iff hpast hij states).symm rfl rfl
  · intro j hj
    rw [services_afterService, if_neg (hmem j hj), h.unserved j (List.mem_cons_of_mem i hj)]
  · intro j hj hlive hnot
    rw [deletedBefore_afterService (h.unserved j (List.mem_cons_of_mem i hj)) (hmem j hj),
      not_or] at hnot
    obtain ⟨hnot, hstates⟩ := hnot
    obtain ⟨hlive', hsame⟩ := h.kept j (List.mem_cons_of_mem i hj) hlive hnot
    have hall : ∀ s ∈ states, (s.conn j).Live := by
      intro s hs
      by_contra hdead
      exact hstates ⟨s, hs, hdead⟩
    obtain ⟨hlive'', hsame'⟩ := hkeeps j (fun heq => hmem j hj heq.symm) hlive' hall
    exact ⟨hlive'', hsame.trans hsame'⟩
  · have hnot : i ∉ servedSlots ctx.trail := fun hmem => mem_servedSlots.mp hmem hzero
    have hnready := h.nready
    rw [servedSlots_afterService, Finset.card_insert_of_notMem hnot]
    push_cast
    omega

/-- A slot that has been served was due, and is not still to come. -/
theorem due_of_served (h : Halfway fds w₀ is ctx w) (hi : i ∈ servedSlots ctx.trail) :
    i ∉ is ∧ Due fds w₀ ctx.trail i := by
  rw [mem_servedSlots] at hi
  have hnot : i ∉ is := fun hmem => hi (h.unserved i hmem)
  refine ⟨hnot, ?_⟩
  by_contra hdue
  exact hi ((h.past i hnot).trans (if_neg hdue))

/-- **When nothing is left to serve, no slot that is still to come is ready.**  The
descriptors that have been served are all that were ready, and no other connection has
one of them. -/
theorem not_ready_of_nready (hfd : DescriptorsDistinct w₀) (h : Halfway fds w₀ is ctx w)
    (hlast : ctx.nready ≤ 0) (hi : i ∈ is) : ¬ ((w₀.conn i).Live ∧ (w₀.conn i).fd ∈ fds) := by
  rintro ⟨hlive, hready⟩
  have hinj : Set.InjOn (fun j => (w₀.conn j).fd) (servedSlots ctx.trail) := by
    intro j hj k hk heq
    exact hfd j k (h.due_of_served hj).2.1 (h.due_of_served hk).2.1 heq
  have hsub : (servedSlots ctx.trail).image (fun j => (w₀.conn j).fd) ⊆ fds := by
    intro fd hmem
    obtain ⟨j, hj, rfl⟩ := Finset.mem_image.mp hmem
    exact (h.due_of_served hj).2.2.1
  have hall : (servedSlots ctx.trail).image (fun j => (w₀.conn j).fd) = fds := by
    refine Finset.eq_of_subset_of_card_le hsub ?_
    have hnready := h.nready
    rw [Finset.card_image_of_injOn hinj]
    omega
  rw [← hall] at hready
  obtain ⟨j, hj, heq⟩ := Finset.mem_image.mp hready
  obtain ⟨hnot, hdue⟩ := h.due_of_served hj
  exact hnot (hfd j i hdue.1 hlive heq ▸ hi)

/-- When nothing is left to serve, everything has been served. -/
theorem servesExactly_of_nready (hfd : DescriptorsDistinct w₀) (h : Halfway fds w₀ is ctx w)
    (hlast : ctx.nready ≤ 0) : ServesExactly fds w₀ ctx.trail := by
  intro i
  by_cases hi : i ∈ is
  · rw [h.unserved i hi, if_neg]
    rintro ⟨hlive, hready, -⟩
    exact h.not_ready_of_nready hfd hlast hi ⟨hlive, hready⟩
  · exact h.past i hi

end Halfway

/-! ## A whole pass -/

section Pass

variable {outside : Fin ducqMaxConnections → Handling} {fds : Finset ℤ} {w₀ : World}

/-- The rest of a pass only adds to its trail. -/
theorem trail_sweep (is : List (Fin ducqMaxConnections)) (control : ℕ) (ctx : RoundTableCtx)
    (w : World) : ctx.trail <+:
      (sweep (loopTurn (roundTable outside)) is (control, ctx, w)).2.1.trail := by
  refine @sweep_invariant _ _ (loopTurn (roundTable outside))
    (fun s => ctx.trail <+: s.2.1.trail) is ?_ (control, ctx, w) List.prefix_rfl
  rintro i - ⟨control', ctx', w'⟩ h
  by_cases hturn : (w'.conn i).Live ∧ (w'.conn i).fd ∈ ctx'.fds
  · obtain ⟨control'', states, w'', hserved, -⟩ :=
      @pass_turn_served w' outside i control' ctx' hturn.1 hturn.2
    rw [hserved]
    exact h.trans (List.prefix_append _ _)
  · obtain ⟨control'', hidle⟩ := @pass_turn_idle w' outside i control' ctx' hturn
    rw [hidle]
    exact h

/-- A turn that serves a connection leaves its service in the trail of the pass. -/
theorem afterService_sweep {i : Fin ducqMaxConnections} {is : List (Fin ducqMaxConnections)}
    {control control' : ℕ} {ctx : RoundTableCtx} {w w' : World} {states : List World} {stop : Bool}
    (hserved : loopTurn (roundTable outside) i (control, ctx, w) =
      (stop, control', ⟨ctx.fds, ctx.nready - 1, afterService ctx.trail i states⟩, w')) :
    afterService ctx.trail i states <+:
      (sweep (loopTurn (roundTable outside)) (i :: is) (control, ctx, w)).2.1.trail := by
  cases hstop : (loopTurn (roundTable outside) i (control, ctx, w)).1 with
  | true =>
    rw [sweep_cons_stop hstop, hserved]
  | false =>
    rw [sweep_cons_go hstop, hserved]
    exact trail_sweep is control' ⟨ctx.fds, ctx.nready - 1, _⟩ w'

/-- **A pass that meets no stranger serves exactly what is due.**  The induction is on the
slots still to come, and `Halfway` is what is known before each of them. -/
theorem servesExactly_of_eachTurn (hfd : DescriptorsDistinct w₀)
    {is : List (Fin ducqMaxConnections)} (hnodup : is.Nodup) {control : ℕ} {ctx : RoundTableCtx}
    {w : World} (h : Halfway fds w₀ is ctx w)
    (hturns : EachTurn (loopTurn (roundTable outside))
      (fun i s => ¬ Stranger fds w₀ s.2.1.trail s.2.2 i) is (control, ctx, w)) :
    ServesExactly fds w₀
      (sweep (loopTurn (roundTable outside)) is (control, ctx, w)).2.1.trail := by
  induction is generalizing control ctx w with
  | nil => exact fun i => h.past i List.not_mem_nil
  | cons i is ih =>
    obtain ⟨hmeets, hrest⟩ := hturns
    by_cases hturn : (w.conn i).Live ∧ (w.conn i).fd ∈ ctx.fds
    · obtain ⟨hlive, hready⟩ := hturn
      rw [h.fds_eq] at hready
      have hold : ¬ (¬ (w₀.conn i).Live ∨ DeletedBefore i ctx.trail) := fun hnew =>
        hmeets ⟨hlive, hready, hnew⟩
      rw [not_or, not_not] at hold
      obtain ⟨control', states, w', hserved, hkeeps⟩ :=
        @pass_turn_served w outside i control ctx hlive (h.fds_eq ▸ hready)
      have hafter := h.service hnodup hready hold.1 hold.2 hkeeps
      by_cases hlast : ctx.nready - 1 ≤ 0
      · rw [sweep_cons_stop (by rw [hserved]; exact decide_eq_true hlast), hserved]
        exact hafter.servesExactly_of_nready hfd hlast
      · have hgo : (loopTurn (roundTable outside) i (control, ctx, w)).1 = false := by
          rw [hserved]
          exact decide_eq_false hlast
        have hturns' := hrest hgo
        rw [sweep_cons_go hgo, hserved]
        rw [hserved] at hturns'
        exact ih (List.nodup_cons.mp hnodup).2 hafter hturns'
    · obtain ⟨control', hidle⟩ := @pass_turn_idle w outside i control ctx hturn
      have hgo : (loopTurn (roundTable outside) i (control, ctx, w)).1 = false := by rw [hidle]
      have hturns' := hrest hgo
      rw [sweep_cons_go hgo, hidle]
      rw [hidle] at hturns'
      exact ih (List.nodup_cons.mp hnodup).2 (h.idle hturn) hturns'

/-- **A pass that serves exactly what is due has met no stranger**: it would have served
it. -/
theorem eachTurn_of_servesExactly {is : List (Fin ducqMaxConnections)} {control : ℕ}
    {ctx : RoundTableCtx} {w : World} (hfds : ctx.fds = fds)
    (h : ServesExactly fds w₀
      (sweep (loopTurn (roundTable outside)) is (control, ctx, w)).2.1.trail) :
    EachTurn (loopTurn (roundTable outside))
      (fun i s => ¬ Stranger fds w₀ s.2.1.trail s.2.2 i) is (control, ctx, w) := by
  induction is generalizing control ctx w with
  | nil => trivial
  | cons i is ih =>
    refine ⟨?_, ?_⟩
    · rintro ⟨hlive, hready, hnew⟩
      obtain ⟨control', states, w', hserved, -⟩ :=
        @pass_turn_served w outside i control ctx hlive (hfds ▸ hready)
      obtain ⟨more, hmore⟩ := @afterService_sweep outside i is control control' ctx w w' states _
        hserved
      have hcount := h i
      rw [← hmore] at hcount
      have hserves : services i (afterService ctx.trail i states ++ more) ≠ 0 := by
        rw [services_append, services_afterService, if_pos rfl]
        omega
      rw [hcount] at hserves
      have hdue : Due fds w₀ (afterService ctx.trail i states ++ more) i :=
        by_contra fun hnot => hserves (if_neg hnot)
      refine hnew.elim (fun hfree => hfree hdue.1) ?_
      intro hdeleted
      refine hdue.2.2 ?_
      rw [afterService, List.append_assoc, deletedBefore_append]
      exact .inl hdeleted
    · intro hgo
      rw [sweep_cons_go hgo] at h
      by_cases hturn : (w.conn i).Live ∧ (w.conn i).fd ∈ ctx.fds
      · obtain ⟨control', states, w', hserved, -⟩ :=
          @pass_turn_served w outside i control ctx hturn.1 hturn.2
        rw [hserved] at h ⊢
        exact ih hfds h
      · obtain ⟨control', hidle⟩ := @pass_turn_idle w outside i control ctx hturn
        rw [hidle] at h ⊢
        exact ih hfds h

/-- **One pass serves exactly the ready connections** if and only if the loop comes to no
slot with a connection that was registered during the pass on a ready descriptor. -/
theorem ducqLoop_servesExactly_iff (env : Env) {select : Finset ℤ → SelectResult}
    (hfd : DescriptorsDistinct w₀) (hselect : select (readfds w₀) = .ready fds) :
    ServesExactly fds w₀ (ducqLoopOnce env select outside w₀).1 ↔
      MeetsNoStranger outside fds w₀ := by
  have htrail : (ducqLoopOnce env select outside w₀).1 =
      (sweep (loopTurn (roundTable outside)) (List.finRange ducqMaxConnections)
        (ducqLoopContinue, ⟨fds, fds.card, []⟩, w₀)).2.1.trail := by
    rw [ducqLoopOnce, hselect]
    rfl
  rw [htrail]
  exact ⟨eachTurn_of_servesExactly rfl, servesExactly_of_eachTurn hfd
    (List.nodup_finRange ducqMaxConnections) (Halfway.start fds w₀)⟩

end Pass

/-- Two clients, and a server between them. -/
def serverBetween : World :=
  runOps [(Env.naming, .addClient 5 100), (Env.naming, .addServer 3 200 0),
    (Env.naming, .addClient 6 101)] World.init

/-- Nothing happens outside. -/
def Handling.idle : Handling := ⟨.ok, 0, [], [], Env.quiet, []⟩

/-- **Handlers that leave the table alone**: all three are served. -/
theorem ducqLoop_servesExactly_idle :
    ServesExactly {5, 3, 6} serverBetween
      (ducqLoopOnce Env.quiet (fun _ => .ready {5, 3, 6}) (fun _ => Handling.idle)
        serverBetween).1 :=
  (@ducqLoop_servesExactly_iff (fun _ => Handling.idle) {5, 3, 6} serverBetween Env.quiet
    (fun _ => .ready {5, 3, 6}) (by decide +kernel) rfl).mpr (by decide +kernel)

/-- The first client unsubscribes the second, and the server accepts a connection that
gets its descriptor. -/
def reusing (i : Fin ducqMaxConnections) : Handling :=
  if i = 0 then ⟨.ok, 12, ascii "unsub *\nb", [], Env.naming,
    [.call Env.naming (.unsub 100 (ascii "unsub *\nb"))]⟩
  else if i = 1 then ⟨.ok, 0, [], [], Env.naming, [.call Env.naming (.addClient 6 102)]⟩
  else Handling.idle

/-- **A connection that was registered during the pass is received from**: it has the
descriptor and the slot of a client that was deleted before. -/
theorem not_servesExactly_reusing :
    Reachable (fun c => c = 200) serverBetween ∧ DescriptorsDistinct serverBetween ∧
      readfds serverBetween = {5, 3, 6} ∧
      (∀ w, w = (Op.unsub 100 (ascii "unsub *\nb")).run Env.naming serverBetween →
        (Op.addClient 6 102).Valid (fun c => c = 200) w ∧ (Op.addClient 6 102).Fresh w) ∧
      ¬ ServesExactly {5, 3, 6} serverBetween
        (ducqLoopOnce Env.quiet (fun _ => .ready {5, 3, 6}) reusing serverBetween).1 := by
  have htrail : services 2 (ducqLoopOnce Env.quiet (fun _ => .ready {5, 3, 6}) reusing
      serverBetween).1 = 1 ∧ DeletedBefore 2 (ducqLoopOnce Env.quiet (fun _ => .ready {5, 3, 6})
        reusing serverBetween).1 := by
    decide +kernel
  refine ⟨Reachable.runOps Relation.ReflTransGen.refl (by decide +kernel), by decide +kernel,
    by decide +kernel, ?_, ?_⟩
  · rintro _ rfl
    exact ⟨by decide +kernel, show NotOpen 6 _ by decide +kernel⟩
  · intro h
    have hcount := h 2
    rw [htrail.1, if_neg fun hdue => hdue.2.2 htrail.2] at hcount
    exact absurd hcount Nat.one_ne_zero

end Ducq
