import Ducq.Core.Parse
import Ducq.Reactor.Log

/-!
# `commands/unsub.c`

The client whose id is the payload is deleted, and only the first such client, since
the hook that asks for the deletion also breaks the loop.  That client may be the
sender, which is still asked for its id and answered afterwards.
-/

namespace Ducq

open CMemory CPrintf Sweep

/-- `struct unsub_ctx`. -/
structure UnsubCtx where
  id : List Byte
  count : ℤ

/-- `_unsubscribe`.  A client always has an id; the comparison has no meaning without
one. -/
def unsubscribeHook (env : Env) : DucqLoopF UnsubCtx := fun d _ unsub w =>
  match ducqId env d w with
  | (none, w) => (ducqLoopContinue, unsub, w.record [.undefined])
  | (some id, w) =>
    if cstr unsub.id = cstr id then
      (ducqLoopDelete ||| ducqLoopBreak, { unsub with count := unsub.count + 1 }, w)
    else (ducqLoopContinue, unsub, w)

/-- How `unsub` ends: a log line and an answer. -/
def unsubAnswer (env : Env) (d : DucqI) (level : DucqLogLevel) (id : Option (List Byte))
    (count : ℤ) (state : DucqState) (w : World) : DucqState × World :=
  ducqSendAck env d state
    (ducqLog env d level (ascii "unsub") (some (ascii "%s,%d unsubscribed"))
      [.str id, .int count] w)

/-- `unsub`. -/
def unsub (env : Env) (d : DucqI) (buffer : List Byte) (w : World) : DucqState × World :=
  match ducqParsePayload buffer with
  | none => unsubAnswer env d .warning none 0 .emsginv w
  | some id =>
    if cstr id = [] then unsubAnswer env d .warning (some id) 0 .emsginv w
    else
      let (_, unsub, w) := ducqReactorLoop env (unsubscribeHook env) ⟨id, 0⟩ w
      if unsub.count ≤ 0 then unsubAnswer env d .warning (some id) unsub.count .enotfound w
      else unsubAnswer env d .info (some id) unsub.count .ok w

variable {env : Env}

theorem onlyFrees_unsubscribeHook (d : DucqI) (route : List Byte) (ctx : UnsubCtx) (w : World) :
    OnlyFrees w (unsubscribeHook env d route ctx w).2.2 := by
  have hid := OnlyFrees.ducqId env d w
  rw [unsubscribeHook]
  rcases hr : ducqId env d w with ⟨_ | id, w'⟩
  · rw [hr] at hid
    exact hid.record _
  · rw [hr] at hid
    dsimp only
    split_ifs
    · exact hid
    · exact hid

theorem onlyFrees_unsubAnswer (d : DucqI) (level : DucqLogLevel) (id : Option (List Byte))
    (count : ℤ) (state : DucqState) (w : World) :
    OnlyFrees w (unsubAnswer env d level id count state w).2 :=
  (onlyFrees_ducqLog _ _ _ _ _ _).trans (onlyFrees_ducqSendAck _ _ _)

/-- **`unsub` only gives slots up.** -/
theorem onlyFrees_unsub (d : DucqI) (buffer : List Byte) (w : World) :
    OnlyFrees w (unsub env d buffer w).2 := by
  rw [unsub]
  cases ducqParsePayload buffer with
  | none => exact onlyFrees_unsubAnswer _ _ _ _ _ _
  | some id =>
    have hloop : OnlyFrees w (ducqReactorLoop env (unsubscribeHook env) ⟨id, 0⟩ w).2.2 :=
      OnlyFrees.ducqReactorLoop (fun d r c w => onlyFrees_unsubscribeHook d r c w) _ w
    dsimp only
    split_ifs
    · exact onlyFrees_unsubAnswer _ _ _ _ _ _
    · exact hloop.trans (onlyFrees_unsubAnswer _ _ _ _ _ _)
    · exact hloop.trans (onlyFrees_unsubAnswer _ _ _ _ _ _)

/-! ## Who is unsubscribed -/

/-- The slot holds a client with this id. -/
def Named (env : Env) (id : List Byte) (w : World) (i : Fin ducqMaxConnections) : Prop :=
  (w.conn i).IsClient ∧ cstr id = cstr (env.id (w.conn i).word)

instance (env : Env) (id : List Byte) (w : World) (i : Fin ducqMaxConnections) :
    Decidable (Named env id w i) := inferInstanceAs (Decidable (_ ∧ _))

/-- The slot of the first client with this id. -/
def firstNamed (env : Env) (id : List Byte) (w : World) : Option (Fin ducqMaxConnections) :=
  (List.finRange ducqMaxConnections).find? fun i => Named env id w i

variable {isCode : ℕ → Prop} {w : World}

/-- A turn at the slot of a client with this id gives it up and is the last one. -/
theorem unsubscribe_turn_named (h : TableInv isCode w) {i : Fin ducqMaxConnections}
    {ctx : UnsubCtx} (hi : Named env ctx.id w i) (control : ℕ) :
    loopTurn (loopThroughClient env (unsubscribeHook env)) i (control, ctx, w) =
      (true, ducqLoopDelete ||| ducqLoopBreak, { ctx with count := ctx.count + 1 },
        connectionFree i (w.record [.id (w.conn i).word])) := by
  have h0 := h.client_ne_zero i hi.1
  rw [loopTurn, if_neg hi.1.1]
  simp [loopThroughClient, hi.1.2, unsubscribeHook, ducqId, h0, hi.2]

/-- A turn at another slot asks for an id at most. -/
theorem unsubscribe_turn_other (h : TableInv isCode w) {i : Fin ducqMaxConnections}
    {ctx : UnsubCtx} (hi : ¬ Named env ctx.id w i) (control : ℕ) :
    ∃ control' new, loopTurn (loopThroughClient env (unsubscribeHook env)) i (control, ctx, w) =
        (false, control', ctx, w.record new) ∧ ∀ d, sendCount d new = 0 := by
  have hidle : w.record [] = w := by rw [World.record, List.append_nil]
  by_cases hclient : (w.conn i).IsClient
  · have h0 := h.client_ne_zero i hclient
    have hne : cstr ctx.id ≠ cstr (env.id (w.conn i).word) := fun heq => hi ⟨hclient, heq⟩
    refine ⟨ducqLoopContinue, [.id (w.conn i).word], ?_, fun d => rfl⟩
    rw [loopTurn, if_neg hclient.1]
    simp [loopThroughClient, hclient.2, unsubscribeHook, ducqId, h0, hne]
  · by_cases hfd : (w.conn i).fd = -1
    · exact ⟨control, [], by rw [loopTurn, if_pos hfd, hidle], fun d => rfl⟩
    · have htype : (w.conn i).type ≠ .client := fun htype => hclient ⟨hfd, htype⟩
      refine ⟨ducqLoopContinue, [], ?_, fun d => rfl⟩
      rw [loopTurn, if_neg hfd, hidle]
      simp [loopThroughClient, htype]

/-- The loop from some slot on. -/
theorem unsubscribe_sweep {ctx : UnsubCtx} (is : List (Fin ducqMaxConnections))
    (h : TableInv isCode w) (control : ℕ) :
    ∃ control' w',
      sweep (loopTurn (loopThroughClient env (unsubscribeHook env))) is (control, ctx, w) =
        (control', { ctx with count := ctx.count +
          if (is.find? fun i => Named env ctx.id w i).isSome then 1 else 0 }, w') ∧
      (∀ j, w'.conn j = if (is.find? fun i => Named env ctx.id w i) = some j then
        (w.conn j).freed else w.conn j) ∧
      (∀ d, sendCount d w'.calls = sendCount d w.calls) ∧
      w'.reactor.allowLogRoute = w.reactor.allowLogRoute := by
  induction is generalizing w control with
  | nil =>
    refine ⟨control, w, ?_, fun j => ?_, fun d => rfl, rfl⟩
    · simp
    · simp
  | cons i is ih =>
    by_cases hi : Named env ctx.id w i
    · have hturn := unsubscribe_turn_named h hi control
      have h0 := h.client_ne_zero i hi.1
      have hclient : ((w.record [.id (w.conn i).word]).conn i).IsClient := hi.1
      have hfind : ((i :: is).find? fun i => Named env ctx.id w i) = some i :=
        List.find?_cons_of_pos (by simpa using hi)
      rw [sweep_cons_stop (by rw [hturn]), hturn, hfind]
      refine ⟨_, _, rfl, fun j => ?_, fun d => ?_, ?_⟩
      · rw [conn_connectionFree, World.conn_record, World.conn_record]
        by_cases hji : j = i
        · rw [if_pos hji, if_pos (congrArg some hji.symm), hji]
        · rw [if_neg hji, if_neg fun heq => hji (Option.some.inj heq).symm]
      · rw [calls_connectionFree hclient h0, World.calls_record, sendCount_append,
          sendCount_append]
        rfl
      · rw [reactor_connectionFree]
        rfl
    · obtain ⟨control₁, new, hturn, hsends⟩ := unsubscribe_turn_other h hi control
      have h₁ : TableInv isCode (w.record new) := h.onlyFrees fun j => Or.inl rfl
      obtain ⟨control', w', hrun, hconn, hcount, hallow⟩ := ih h₁ control₁
      rw [sweep_cons_go (by rw [hturn]), hturn, List.find?_cons_of_neg (by simpa using hi)]
      refine ⟨control', w', hrun, hconn, fun d => ?_, hallow⟩
      rw [hcount, World.calls_record, sendCount_append, hsends, Nat.add_zero]

/-- **The loop gives up the first client with this id**, and sends nothing. -/
theorem unsubscribe_spec (h : TableInv isCode w) (id : List Byte) :
    ∃ control w', ducqReactorLoop env (unsubscribeHook env) ⟨id, 0⟩ w =
        (control, ⟨id, if (firstNamed env id w).isSome then 1 else 0⟩, w') ∧
      (∀ j, w'.conn j =
        if firstNamed env id w = some j then (w.conn j).freed else w.conn j) ∧
      (∀ d, sendCount d w'.calls = sendCount d w.calls) ∧
      w'.reactor.allowLogRoute = w.reactor.allowLogRoute := by
  obtain ⟨control, w', hrun, hrest⟩ :=
    @unsubscribe_sweep env isCode w ⟨id, 0⟩ (List.finRange ducqMaxConnections) h ducqLoopContinue
  refine ⟨control, w', ?_, hrest⟩
  rw [Int.zero_add] at hrun
  exact hrun

end Ducq
