import Ducq.Core.Parse
import Ducq.Reactor.LastMsg
import Ducq.Reactor.Log

/-!
# `commands/sub.c` and `commands/subscribe.c`

The two commands differ in the name their log lines carry.  Both cut the message at
the end of the route before they use it, so the route they subscribe with is a string
of its own, and the payload is read from the message that has been cut.

Once the route is written nothing is undone: a subscriber that cannot be answered is
deleted, whatever its slot holds by then.  So a subscription writes one slot, which is
`ducqReactorSubscribe`, and only gives slots up from there on.
-/

namespace Ducq

open CMemory CPrintf

/-- The message after `*end = '\0'`, from the pointer `p` into it on. -/
def cutAt (buffer end_ p : List Byte) : List Byte :=
  (buffer.take (buffer.length - end_.length) ++ 0 :: end_.tail).drop (buffer.length - p.length)

/-- The answer to a subscriber: `ack_state` and the world. -/
def subAcknowledge (env : Env) (d : DucqI) (route : List Byte) (payload : Option (List Byte))
    (addState : DucqState) (w : World) : DucqState × World :=
  if addState ≠ .ok then ducqSendAck env d addState w
  else if payload.map cstr = some (ascii "last") then ducqSend env d (ducqGetLastMsg w route) w
  else ducqSendAck env d .ok w

/-- What follows the answer. -/
def subConclude (env : Env) (functionName : List Byte) (d : DucqI) (route : List Byte)
    (ackState : DucqState) (w : World) : World :=
  if ackState ≠ .ok then
    (ducqReactorDelete env d (ducqLog env d .warning functionName (some (ascii "%s"))
      [.str (some (ducqStateTostr ackState.code))] w)).2
  else ducqLog env d .info functionName (some (ascii "%s")) [.str (some route)] w

/-- What `sub` and `subscribe` both do once there is a route. -/
def subRoute (env : Env) (functionName : List Byte) (d : DucqI) (route : List Byte)
    (payload : Option (List Byte)) (w : World) : DucqState × World :=
  let (addState, w) := ducqReactorSubscribe d route w
  let w :=
    if addState ≠ .ok then
      ducqLog env d .error functionName (some (ascii "%s"))
        [.str (some (ducqStateTostr addState.code))] w
    else w
  let (ackState, w) := subAcknowledge env d route payload addState w
  (if addState ≠ .ok then addState else ackState, subConclude env functionName d route ackState w)

/-- What `sub` and `subscribe` both do. -/
def subCommand (env : Env) (functionName : List Byte) (d : DucqI) (buffer : List Byte)
    (w : World) : DucqState × World :=
  match ducqParseRoute buffer none with
  | (some route, some end_) =>
    subRoute env functionName d (cutAt buffer end_ route)
      ((ducqParsePayload buffer).map (cutAt buffer end_)) w
  | _ =>
    let (_, w) := ducqSendAck env d .emsginv w
    (.emsginv, ducqLog env d .warning functionName (some (ascii "%s"))
      [.str (some (ducqStateTostr DucqState.emsginv.code))] w)

/-- `sub`. -/
def sub (env : Env) : DucqI → List Byte → World → DucqState × World :=
  subCommand env (ascii "sub")

/-- `subscribe`. -/
def subscribe (env : Env) : DucqI → List Byte → World → DucqState × World :=
  subCommand env (ascii "subscribe")

variable {isCode : ℕ → Prop} {env : Env} {functionName : List Byte} {w : World}

/-! ## The route -/

/-- The route, once the message has been cut behind it. -/
theorem cutAt_route (pre r q : List Byte) :
    cutAt (pre ++ (r ++ newline :: q)) (newline :: q) (r ++ newline :: q) = r ++ 0 :: q := by
  have hend : (pre ++ (r ++ newline :: q)).length - (newline :: q).length = (pre ++ r).length := by
    rw [← List.append_assoc, List.length_append, Nat.add_sub_cancel]
  have hstart : (pre ++ (r ++ newline :: q)).length - (r ++ newline :: q).length = pre.length := by
    rw [List.length_append, Nat.add_sub_cancel]
  rw [cutAt, hend, hstart, ← List.append_assoc, List.take_left, List.append_assoc,
    List.drop_left, List.tail_cons]

/-- The payload stays as it is. -/
theorem cutAt_payload (pre q : List Byte) :
    cutAt (pre ++ newline :: q) (newline :: q) q = q := by
  have hend : (pre ++ newline :: q).length - (newline :: q).length = pre.length := by
    rw [List.length_append, Nat.add_sub_cancel]
  have hstart : (pre ++ newline :: q).length - q.length = (pre ++ [(0 : Byte)]).length := by
    rw [List.length_append, List.length_cons, List.length_append, List.length_singleton]
    omega
  rw [cutAt, hend, hstart, List.take_left, List.tail_cons, List.append_cons pre 0 q,
    List.drop_left]

/-- **The route a subscription writes is the one in the message.** -/
theorem subCommand_of_hasRoute {buffer r : List Byte} (h : HasRoute buffer r) (d : DucqI)
    (w : World) :
    ∃ q payload, subCommand env functionName d buffer w =
      subRoute env functionName d (r ++ 0 :: q) payload w := by
  obtain ⟨pre, q, hbuffer, -, -, -, hparse⟩ := h.exists_append
  have hcut := cutAt_route (pre ++ [space]) r q
  rw [← List.append_cons, ← hbuffer] at hcut
  rw [subCommand, hparse]
  dsimp only
  rw [hcut]
  exact ⟨q, _, rfl⟩

/-! ## What a subscription does to the table -/

theorem conn_subAcknowledge (d : DucqI) (route : List Byte) (payload : Option (List Byte))
    (addState : DucqState) (w : World) (i : Fin ducqMaxConnections) :
    (subAcknowledge env d route payload addState w).2.conn i = w.conn i := by
  unfold subAcknowledge
  split_ifs
  · exact conn_ducqSendAck _ _ _ _
  · exact conn_ducqSend _ _ _ _ _
  · exact conn_ducqSendAck _ _ _ _

theorem onlyFrees_subConclude (d : DucqI) (route : List Byte) (ackState : DucqState) (w : World) :
    OnlyFrees w (subConclude env functionName d route ackState w) := by
  unfold subConclude
  split_ifs
  · exact (onlyFrees_ducqLog _ _ _ _ _ _).trans (OnlyFrees.ducqReactorDelete _ _ _)
  · exact onlyFrees_ducqLog _ _ _ _ _ _

/-- **A subscription writes one slot, and then only gives slots up.** -/
theorem onlyFrees_subRoute (d : DucqI) (route : List Byte) (payload : Option (List Byte))
    (w : World) :
    OnlyFrees (ducqReactorSubscribe d route w).2
      (subRoute env functionName d route payload w).2 := by
  rw [subRoute]
  rcases ducqReactorSubscribe d route w with ⟨addState, w₁⟩
  have hlog : OnlyFrees w₁ (if addState ≠ .ok then
      ducqLog env d .error functionName (some (ascii "%s"))
        [.str (some (ducqStateTostr addState.code))] w₁
      else w₁) := by
    split_ifs
    · exact onlyFrees_ducqLog _ _ _ _ _ _
    · exact OnlyFrees.refl w₁
  refine (hlog.trans fun i => Or.inl ?_).trans (onlyFrees_subConclude _ _ _ _)
  exact conn_subAcknowledge _ _ _ _ _ i

/-- So does the command, if the message has a route; else it writes no slot. -/
theorem onlyFrees_subCommand (d : DucqI) (buffer : List Byte) (w : World) :
    ((ducqParseRoute buffer none).1 ≠ none ∧
      ∃ route, OnlyFrees (ducqReactorSubscribe d route w).2
        (subCommand env functionName d buffer w).2) ∨
      OnlyFrees w (subCommand env functionName d buffer w).2 := by
  unfold subCommand
  split
  · rename_i route end_ hparse
    rw [hparse]
    exact Or.inl ⟨Option.some_ne_none route, _, onlyFrees_subRoute _ _ _ _⟩
  · exact Or.inr ((onlyFrees_ducqSendAck _ _ _).trans (onlyFrees_ducqLog _ _ _ _ _ _))

/-! ## Subscribers that are registered -/

/-- **A registered subscriber** writes its own slot, and is answered. -/
theorem subRoute_eq (h : TableInv isCode w) {i : Fin ducqMaxConnections}
    (hi : (w.conn i).IsClient) (route : List Byte) (payload : Option (List Byte)) :
    subRoute env functionName (w.conn i).word route payload w =
      let (ackState, w₁) := subAcknowledge env (w.conn i).word route payload .ok
        (w.setConn i { w.conn i with bytes := CharArray.strncpy _ route })
      (ackState, subConclude env functionName (w.conn i).word route ackState w₁) := by
  rw [subRoute, h.subscribe_eq hi]
  rfl

/-- Whatever comes of the answer, all the slots are as they are after the copy. -/
theorem subRoute_of_isClient (h : TableInv isCode w) {i : Fin ducqMaxConnections}
    (hi : (w.conn i).IsClient) (route : List Byte) (payload : Option (List Byte)) :
    ∃ ackState w₁, (∀ j, w₁.conn j =
        (w.setConn i { w.conn i with bytes := CharArray.strncpy _ route }).conn j) ∧
      subRoute env functionName (w.conn i).word route payload w =
        (ackState, subConclude env functionName (w.conn i).word route ackState w₁) := by
  set wₛ := w.setConn i { w.conn i with bytes := CharArray.strncpy _ route }
  exact ⟨(subAcknowledge env (w.conn i).word route payload .ok wₛ).1,
    (subAcknowledge env (w.conn i).word route payload .ok wₛ).2,
    conn_subAcknowledge _ _ _ _ _, subRoute_eq h hi route payload⟩

/-- The answer to a subscriber whose route is written is one message. -/
theorem subAcknowledge_ok_eq (d : DucqI) (route : List Byte) (payload : Option (List Byte))
    (w : World) : ∃ answer, subAcknowledge env d route payload .ok w = ducqSend env d answer w := by
  rw [subAcknowledge, if_neg (not_not.mpr rfl)]
  split_ifs
  · exact ⟨_, rfl⟩
  · exact ⟨_, ducqSendAck_eq env d .ok w⟩

/-- **A subscription that succeeds** writes the slot and answers, and logs the route. -/
theorem subRoute_of_ok (h : TableInv isCode w) {i : Fin ducqMaxConnections}
    (hi : (w.conn i).IsClient) {route : List Byte} {payload : Option (List Byte)}
    (hok : (subRoute env functionName (w.conn i).word route payload w).1 = .ok) :
    ∃ w₁ answer, (∀ j, w₁.conn j =
        (w.setConn i { w.conn i with bytes := CharArray.strncpy _ route }).conn j) ∧
      w₁.reactor.allowLogRoute = w.reactor.allowLogRoute ∧
      w₁.calls = w.calls ++ [.send (w.conn i).word answer] ∧
      (subRoute env functionName (w.conn i).word route payload w).2 =
        ducqLog env (w.conn i).word .info functionName (some (ascii "%s")) [.str (some route)]
          w₁ := by
  have h0 := h.client_ne_zero i hi
  set wₛ := w.setConn i { w.conn i with bytes := CharArray.strncpy _ route }
  obtain ⟨answer, hanswer⟩ := @subAcknowledge_ok_eq env (w.conn i).word route payload wₛ
  rw [subRoute_eq h hi, hanswer] at hok ⊢
  dsimp only at hok ⊢
  rw [hok, subConclude, if_neg (not_not.mpr rfl)]
  refine ⟨_, answer, conn_ducqSend _ _ _ _, ?_, ?_, rfl⟩
  · rw [reactor_ducqSend]
    rfl
  · rw [ducqSend, if_neg h0]
    rfl

/-- A subscriber that is not answered is gone. -/
theorem not_registered_subConclude (h : TableInv isCode w) (d : DucqI) (route : List Byte)
    {ackState : DucqState} (hack : ackState ≠ .ok) :
    ¬ Registered (subConclude env functionName d route ackState w) d := by
  rw [subConclude, if_pos hack]
  set wₗ := ducqLog env d .warning functionName (some (ascii "%s"))
    [.str (some (ducqStateTostr ackState.code))] w
  have hₗ : TableInv isCode wₗ := h.onlyFrees (onlyFrees_ducqLog _ _ _ _ _ _)
  by_cases hdₗ : Registered wₗ d
  · exact hₗ.not_registered_delete hdₗ env
  · rwa [TableInv.delete_eq_of_not_registered hdₗ]

/-- **What a registered subscriber's command can do**: nothing is written, and it fails;
or its slot is written, and if it fails the subscriber is gone. -/
theorem subCommand_cases (h : TableInv isCode w) {i : Fin ducqMaxConnections}
    (hi : (w.conn i).IsClient) (buffer : List Byte) :
    (OnlyFrees w (subCommand env functionName (w.conn i).word buffer w).2 ∧
        (subCommand env functionName (w.conn i).word buffer w).1 ≠ .ok) ∨
      ∃ bytes, OnlyFrees (w.setConn i { w.conn i with bytes := bytes })
          (subCommand env functionName (w.conn i).word buffer w).2 ∧
        ((subCommand env functionName (w.conn i).word buffer w).1 ≠ .ok →
          ¬ Registered (subCommand env functionName (w.conn i).word buffer w).2
            (w.conn i).word) := by
  unfold subCommand
  split
  · rename_i route end_ hparse
    right
    obtain ⟨ackState, w₁, hconn₁, hrun⟩ :=
      @subRoute_of_isClient isCode env functionName w h i hi (cutAt buffer end_ route)
        ((ducqParsePayload buffer).map (cutAt buffer end_))
    have h₁ : TableInv isCode w₁ :=
      (h.rewrite i (CharArray.strncpy _ _)).onlyFrees fun j => Or.inl (hconn₁ j)
    have hbefore : OnlyFrees _ w₁ := fun j => Or.inl (hconn₁ j)
    rw [hrun]
    exact ⟨_, hbefore.trans (onlyFrees_subConclude _ _ _ _),
      not_registered_subConclude h₁ _ _⟩
  · refine Or.inl ⟨(onlyFrees_ducqSendAck _ _ _).trans (onlyFrees_ducqLog _ _ _ _ _ _), ?_⟩
    show DucqState.emsginv ≠ .ok
    decide

end Ducq
