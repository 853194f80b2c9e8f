import Ducq.Core.RouteCmp
import Ducq.Reactor.LastMsg
import Ducq.Reactor.Log

/-!
# `commands/pub.c` and `commands/publish.c`

The two commands differ in the name their log lines carry, and share one definition
that takes it.

A publication goes through two phases.  `pubAcknowledge` parses the route, stores the
message as the route's last one, acknowledges, and logs; if anything went wrong the
publisher is deleted and that is all.  `pubBroadcast` sends the message to every client
whose route accepts the published one, and logs again.

Both log lines take the publisher's id first.  By the second one the publisher may be
gone: a log line deletes a client on the log route it cannot reach, and so does the
broadcast.
-/

namespace Ducq

open CMemory CPrintf

/-- `strndup(p, n)`: the pointer to the copy. -/
def strndup (env : Env) (p : List Byte) (n : ℕ) : Option (List Byte) :=
  if env.strndup (p.take n) then some (cstr (p.take n) ++ [0]) else none

/-- `struct pub_ctx`. -/
structure PubCtx where
  route : Option (List Byte)
  buffer : List Byte
  size : ℕ
  count : ℤ

/-- `_publish`. -/
def publishHook (env : Env) : DucqLoopF PubCtx :=
  sendToMatching env (fun msg route => ducqRouteCmp (some route) msg.route = some true)
    (fun msg => msg.buffer.take msg.size) fun msg => { msg with count := msg.count + 1 }

/-- The start of `pub`: `route_state` and `msg.route`. -/
def pubRoute (env : Env) (buffer : List Byte) : DucqState × Option (List Byte) :=
  match ducqParseRoute buffer none with
  | (some route, some end_) =>
    match strndup env route (route.length - end_.length) with
    | some copy => (.ok, some copy)
    | none => (.ememfail, none)
  | _ => (.emsginv, none)

/-- The message stored, if there is a route to store it under. -/
def pubStore (env : Env) (buffer : List Byte) (w : World) : World :=
  if (pubRoute env buffer).1 = .ok then
    (ducqSetLastMsg ((pubRoute env buffer).2.getD []) buffer w).2
  else w

/-- `pub` up to its broadcast, when there is one: `returned_state`, `msg.route`, and
the world. -/
def pubAcknowledge (env : Env) (functionName : List Byte) (d : DucqI) (buffer : List Byte)
    (w : World) : DucqState × Option (List Byte) × World :=
  let (routeState, route) := pubRoute env buffer
  let (ackState, w) := ducqSendAck env d routeState (pubStore env buffer w)
  let returned := if routeState ≠ .ok then routeState else ackState
  let level := if returned ≠ .ok then DucqLogLevel.warning else .info
  let (id, w) := ducqId env d w
  (returned, route, ducqReactorLog env level functionName id (some (ascii "%s,send: %s"))
    [.str route, .str (some (ducqStateTostr ackState.code))] w)

/-- The rest of `pub`. -/
def pubBroadcast (env : Env) (functionName : List Byte) (d : DucqI)
    (route : Option (List Byte)) (buffer : List Byte) (size : ℕ) (w : World) : World :=
  let (_, msg, w) := ducqReactorLoop env (publishHook env) ⟨route, buffer, size, 0⟩ w
  ducqLog env d .info functionName (some (ascii "%s,%d notified"))
    [.str msg.route, .int msg.count] w

/-- What `pub` and `publish` both do. -/
def pubCommand (env : Env) (functionName : List Byte) (d : DucqI) (buffer : List Byte)
    (size : ℕ) (w : World) : DucqState × World :=
  let (returned, route, w) := pubAcknowledge env functionName d buffer w
  if returned ≠ .ok then (returned, (ducqReactorDelete env d w).2)
  else (returned, pubBroadcast env functionName d route buffer size w)

/-- `pub`. -/
def pub (env : Env) : DucqI → List Byte → ℕ → World → DucqState × World :=
  pubCommand env (ascii "pub")

/-- `publish`. -/
def publish (env : Env) : DucqI → List Byte → ℕ → World → DucqState × World :=
  pubCommand env (ascii "publish")

/-! ## What `pub` does to the table -/

variable {isCode : ℕ → Prop} {env : Env} {functionName : List Byte} {w : World}

@[simp] theorem conn_pubStore (buffer : List Byte) (w : World) (i : Fin ducqMaxConnections) :
    (pubStore env buffer w).conn i = w.conn i := by
  unfold pubStore
  split_ifs
  · exact conn_ducqSetLastMsg _ _ _ _
  · rfl

@[simp] theorem calls_pubStore (buffer : List Byte) (w : World) :
    (pubStore env buffer w).calls = w.calls := by
  unfold pubStore
  split_ifs
  · exact calls_ducqSetLastMsg _ _ _
  · rfl

@[simp] theorem allowLogRoute_pubStore (buffer : List Byte) (w : World) :
    (pubStore env buffer w).reactor.allowLogRoute = w.reactor.allowLogRoute := by
  unfold pubStore
  split_ifs
  · exact allowLogRoute_ducqSetLastMsg _ _ _
  · rfl

/-- The world in which the first log line goes out. -/
def pubAcknowledged (env : Env) (d : DucqI) (buffer : List Byte) (w : World) : World :=
  (ducqId env d (ducqSendAck env d (pubRoute env buffer).1 (pubStore env buffer w)).2).2

theorem conn_pubAcknowledged (d : DucqI) (buffer : List Byte) (w : World)
    (i : Fin ducqMaxConnections) : (pubAcknowledged env d buffer w).conn i = w.conn i := by
  rw [pubAcknowledged, conn_ducqId, conn_ducqSendAck, conn_pubStore]

theorem allowLogRoute_pubAcknowledged (d : DucqI) (buffer : List Byte) (w : World) :
    (pubAcknowledged env d buffer w).reactor.allowLogRoute = w.reactor.allowLogRoute := by
  rw [pubAcknowledged, reactor_ducqId, ducqSendAck_eq, reactor_ducqSend, allowLogRoute_pubStore]

/-- The calls that come before it: the acknowledgement, and the id for the line. -/
theorem calls_pubAcknowledged {d : DucqI} (h0 : d ≠ 0) (buffer : List Byte) (w : World) :
    (pubAcknowledged env d buffer w).calls =
      w.calls ++ [.send d (ackText (pubRoute env buffer).1), .id d] := by
  rw [pubAcknowledged, ducqSendAck_eq, ducqSend, if_neg h0]
  dsimp only
  rw [ducqId, if_neg h0, World.calls_record, World.calls_record, calls_pubStore,
    List.append_assoc]
  rfl

theorem pubAcknowledge_world (functionName : List Byte) (d : DucqI) (buffer : List Byte)
    (w : World) :
    ∃ level id args, (pubAcknowledge env functionName d buffer w).2.2 =
      ducqReactorLog env level functionName id (some (ascii "%s,send: %s")) args
        (pubAcknowledged env d buffer w) := by
  rw [pubAcknowledge, pubAcknowledged]
  rcases pubRoute env buffer with ⟨routeState, route⟩
  dsimp only
  rcases ducqSendAck env d routeState (pubStore env buffer w) with ⟨ackState, w'⟩
  exact ⟨_, _, _, rfl⟩

theorem onlyFrees_pubAcknowledge (d : DucqI) (buffer : List Byte) (w : World) :
    OnlyFrees w (pubAcknowledge env functionName d buffer w).2.2 := by
  obtain ⟨level, id, args, hlog⟩ := @pubAcknowledge_world env functionName d buffer w
  rw [hlog]
  have hbefore : OnlyFrees w (pubAcknowledged env d buffer w) :=
    fun i => Or.inl (conn_pubAcknowledged d buffer w i)
  exact hbefore.trans (onlyFrees_ducqReactorLog _ _ _ _ _ _)

theorem onlyFrees_pubBroadcast (d : DucqI) (route : Option (List Byte)) (buffer : List Byte)
    (size : ℕ) (w : World) :
    OnlyFrees w (pubBroadcast env functionName d route buffer size w) :=
  (OnlyFrees.ducqReactorLoop (fun d r c w => onlyFrees_sendToMatching d r c w) _ w).trans
    (onlyFrees_ducqLog d _ _ _ _ _)

/-- **A publication only gives slots up.** -/
theorem onlyFrees_pubCommand (d : DucqI) (buffer : List Byte) (size : ℕ) (w : World) :
    OnlyFrees w (pubCommand env functionName d buffer size w).2 := by
  have hack := @onlyFrees_pubAcknowledge env functionName d buffer w
  rw [pubCommand]
  rcases hr : pubAcknowledge env functionName d buffer w with ⟨returned, route, w'⟩
  rw [hr] at hack
  dsimp only at hack ⊢
  split_ifs
  · exact hack.trans (OnlyFrees.ducqReactorDelete env d w')
  · exact hack.trans (onlyFrees_pubBroadcast d route buffer size w')

/-! ## The published route -/

/-- **The route that is broadcast is the one in the message.** -/
theorem pubRoute_of_hasRoute {buffer r : List Byte} (h : HasRoute buffer r)
    (hmem : env.strndup r = true) : pubRoute env buffer = (.ok, some (r ++ [0])) := by
  have h0 := h.zero_notMem
  obtain ⟨route, end_, hparse, hr⟩ := h
  rw [pubRoute, hparse]
  simp only [strndup, hr, hmem, if_true, cstr_of_notMem h0]

/-- When `pub` goes on to its broadcast, it has parsed a route. -/
theorem hasRoute_of_pubRoute {buffer : List Byte} {route : Option (List Byte)}
    (h : pubRoute env buffer = (.ok, route)) :
    ∃ r, HasRoute buffer r ∧ env.strndup r = true ∧ route = some (r ++ [0]) := by
  rcases hparse : ducqParseRoute buffer none with ⟨_ | p, _ | end_⟩
  · rw [pubRoute, hparse] at h
    exact nomatch (Prod.mk.inj h).1
  · rw [pubRoute, hparse] at h
    exact nomatch (Prod.mk.inj h).1
  · rw [pubRoute, hparse] at h
    exact nomatch (Prod.mk.inj h).1
  · have hroute : HasRoute buffer (p.take (p.length - end_.length)) :=
      ⟨p, end_, hparse, rfl⟩
    cases hmem : env.strndup (p.take (p.length - end_.length)) with
    | true =>
      refine ⟨_, hroute, hmem, ?_⟩
      rw [pubRoute_of_hasRoute hroute hmem] at h
      exact (Prod.mk.inj h).2.symm
    | false =>
      rw [pubRoute, hparse] at h
      simp only [strndup, hmem] at h
      exact nomatch (Prod.mk.inj h).1

/-! ## The broadcast -/

/-- What a publication on `r` selects. -/
def publishSelects (r route : List Byte) : Bool :=
  ducqRouteCmp (some route) (some (r ++ [0])) = some true

/-- What counting does to the context. -/
theorem iterate_count (msg : PubCtx) (n : ℕ) :
    (fun msg : PubCtx => { msg with count := msg.count + 1 })^[n] msg =
      { msg with count := msg.count + n } := by
  induction n with
  | zero => simp
  | succ n ih =>
    rw [Function.iterate_succ_apply', ih, Nat.cast_succ, Int.add_assoc]

/-- **The broadcast, from the state it starts in.** -/
theorem publish_spec (h : TableInv isCode w) (r buffer : List Byte) (size : ℕ) :
    ∃ control w', ducqReactorLoop env (publishHook env) ⟨some (r ++ [0]), buffer, size, 0⟩ w =
        (control, ⟨some (r ++ [0]), buffer, size,
          ((List.finRange ducqMaxConnections).countP fun i =>
            Selected env (publishSelects r) w i ∧ Reached env w i : ℕ)⟩, w') ∧
      OnlyFrees w w' ∧
      (∀ j, w'.conn j =
        if Selected env (publishSelects r) w j ∧ ¬ Reached env w j then (w.conn j).freed
        else w.conn j) ∧
      w'.calls = w.calls ++ (List.finRange ducqMaxConnections).flatMap
        (slotCalls env (publishSelects r) (buffer.take size) w) ∧
      w'.reactor = { w.reactor with connections := w'.reactor.connections } := by
  obtain ⟨control, w', hrun, hconn, hcalls, hreactor⟩ :=
    @broadcast_spec isCode env PubCtx
      (fun msg route => ducqRouteCmp (some route) msg.route = some true)
      (fun msg => msg.buffer.take msg.size) (fun msg => { msg with count := msg.count + 1 })
      (fun _ => rfl) (fun _ => rfl) w h ⟨some (r ++ [0]), buffer, size, 0⟩
  refine ⟨control, w', ?_, OnlyFrees.of_ite hconn, hconn, hcalls, hreactor⟩
  rw [publishHook, hrun, iterate_count, Int.zero_add]
  rfl

/-! ## The log lines -/

/-- The first log line has its arguments. -/
theorem format_send (route : Option (List Byte)) (text : List Byte) :
    ∃ out, ((some (ascii "%s,send: %s")).bind fun fmt =>
      format fmt [.str route, .str (some text)]) = some out := by
  refine ⟨strText route ++ (ascii ",send: " ++ strText (some text)), ?_⟩
  simp [format, formatFrom, ascii, percent]

/-! ## Publications that are accepted -/

/-- **A publication is accepted** if its route parses, can be copied and the publisher
can be told. -/
theorem pubAcknowledge_eq_ok_iff {d : DucqI} (h0 : d ≠ 0) (buffer : List Byte) (w : World) :
    (pubAcknowledge env functionName d buffer w).1 = .ok ↔
      (∃ r, HasRoute buffer r ∧ env.strndup r = true) ∧
        env.sendResult d (sendCount d w.calls) = .ok := by
  have hroute : (pubRoute env buffer).1 = .ok ↔ ∃ r, HasRoute buffer r ∧ env.strndup r = true := by
    constructor
    · intro hok
      obtain ⟨r, hr, hmem, -⟩ := hasRoute_of_pubRoute (Prod.ext hok rfl)
      exact ⟨r, hr, hmem⟩
    · rintro ⟨r, hr, hmem⟩
      rw [pubRoute_of_hasRoute hr hmem]
  have hreturned : (pubAcknowledge env functionName d buffer w).1 =
      if (pubRoute env buffer).1 ≠ .ok then (pubRoute env buffer).1
      else (ducqSendAck env d (pubRoute env buffer).1 (pubStore env buffer w)).1 := rfl
  rw [← hroute, hreturned]
  rw [ducqSendAck_eq, ducqSend, if_neg h0, calls_pubStore]
  by_cases hok : (pubRoute env buffer).1 = .ok
  · rw [if_neg (not_not.mpr hok), and_iff_right hok]
  · rw [if_pos hok]
    exact iff_of_false hok fun hc => hok hc.1

/-- So it is with the command, which goes on to its broadcast then. -/
theorem pubCommand_eq_ok_iff {d : DucqI} (h0 : d ≠ 0) (buffer : List Byte) (size : ℕ)
    (w : World) :
    (pubCommand env functionName d buffer size w).1 = .ok ↔
      (∃ r, HasRoute buffer r ∧ env.strndup r = true) ∧
        env.sendResult d (sendCount d w.calls) = .ok := by
  rw [← @pubAcknowledge_eq_ok_iff env functionName d h0 buffer w, pubCommand]
  rcases pubAcknowledge env functionName d buffer w with ⟨returned, route, w'⟩
  dsimp only
  split_ifs
  · exact Iff.rfl
  · exact Iff.rfl

/-- A publication that is not accepted goes no further, and its publisher is deleted. -/
theorem world_pubCommand_of_ne_ok {d : DucqI} {buffer : List Byte} {w : World} (size : ℕ)
    (h : (pubAcknowledge env functionName d buffer w).1 ≠ .ok) :
    (pubCommand env functionName d buffer size w).2 =
      (ducqReactorDelete env d (pubAcknowledge env functionName d buffer w).2.2).2 := by
  rw [pubCommand]
  rcases hrun : pubAcknowledge env functionName d buffer w with ⟨returned, route, w'⟩
  rw [hrun] at h
  dsimp only
  rw [if_pos h]

/-- **What happens before the broadcast.**  The publisher is sent its acknowledgement
and asked for its id, and then a log line goes out. -/
theorem pubAcknowledge_spec (h : TableInv isCode w) {i : Fin ducqMaxConnections}
    (hi : (w.conn i).IsClient) {buffer r : List Byte} (hr : HasRoute buffer r)
    (hmem : env.strndup r = true)
    (hack : env.sendResult (w.conn i).word (sendCount (w.conn i).word w.calls) = .ok) :
    ∃ w₀ w₁ message,
      pubAcknowledge env functionName (w.conn i).word buffer w = (.ok, some (r ++ [0]), w₁) ∧
      (∀ j, w₀.conn j = w.conn j) ∧
      w₀.calls = w.calls ++ [.send (w.conn i).word (ackText .ok), .id (w.conn i).word] ∧
      OnlyFrees w w₁ ∧
      (∀ j, w₁.conn j =
        if OnLog env w j ∧ ¬ Reached env w₀ j then (w.conn j).freed else w.conn j) ∧
      w₁.calls = w₀.calls ++ (List.finRange ducqMaxConnections).flatMap
        (slotCalls env (logSelects w.reactor.allowLogRoute) message w₀) := by
  have h0 := h.client_ne_zero i hi
  have hroute := pubRoute_of_hasRoute hr hmem
  have hconn := @conn_pubAcknowledged env (w.conn i).word buffer w
  set w₀ := pubAcknowledged env (w.conn i).word buffer w with hw₀
  have hallow : w₀.reactor.allowLogRoute = w.reactor.allowLogRoute :=
    allowLogRoute_pubAcknowledged _ _ _
  have hsend : ducqSendAck env (w.conn i).word .ok (pubStore env buffer w) =
      (.ok, (pubStore env buffer w).record [.send (w.conn i).word (ackText .ok)]) := by
    rw [ducqSendAck_eq, ducqSend, if_neg h0, calls_pubStore, hack]
  obtain ⟨out, hout⟩ := format_send (some (r ++ [0])) (ducqStateTostr DucqState.ok.code)
  obtain ⟨hconn₁, hcalls₁⟩ :=
    @ducqReactorLog_spec isCode env w₀ (h.onlyFrees fun j => Or.inl (hconn j)) .info functionName
      (some (env.id (w.conn i).word)) _ _ _ hout
  rw [hallow] at hconn₁ hcalls₁
  have hconn₁' : ∀ j, (ducqReactorLog env .info functionName (some (env.id (w.conn i).word))
      (some (ascii "%s,send: %s"))
      [.str (some (r ++ [0])), .str (some (ducqStateTostr DucqState.ok.code))] w₀).conn j =
      if OnLog env w j ∧ ¬ Reached env w₀ j then (w.conn j).freed else w.conn j := by
    intro j
    rw [hconn₁, hconn]
    refine if_congr ?_ rfl rfl
    rw [selected_congr (hconn j), OnLog]
  refine ⟨w₀, _, _, ?_, hconn, ?_, OnlyFrees.of_ite hconn₁', hconn₁', hcalls₁⟩
  · rw [hw₀, pubAcknowledged, pubAcknowledge, hroute]
    dsimp only
    rw [hsend]
    dsimp only
    rw [ducqId, if_neg h0]
    rfl
  · rw [hw₀, calls_pubAcknowledged h0, hroute]

/-! ## What the broadcast sends -/

/-- The publication is accepted, and its broadcast sends a message to the client. -/
def BroadcastSends (env : Env) (functionName : List Byte) (p : DucqI) (buffer : List Byte)
    (size : ℕ) (w : World) (d : DucqI) (message : List Byte) : Prop :=
  let (returned, route, w) := pubAcknowledge env functionName p buffer w
  returned = .ok ∧ ∃ new,
    (ducqReactorLoop env (publishHook env) ⟨route, buffer, size, 0⟩ w).2.2.calls =
      w.calls ++ new ∧ Call.send d message ∈ new

/-- **What a broadcast sends** is the message, and it goes to a client whose route accepts
the published one. -/
theorem BroadcastSends.exists_selected (h : TableInv isCode w) {p : DucqI} (hp : Registered w p)
    {buffer : List Byte} {size : ℕ} {d : DucqI} {message : List Byte}
    (hsends : BroadcastSends env functionName p buffer size w d message) :
    message = buffer.take size ∧ ∃ r, HasRoute buffer r ∧ env.strndup r = true ∧
      env.sendResult p (sendCount p w.calls) = .ok ∧
      ∃ i, Selected env (publishSelects r) w i ∧ (w.conn i).word = d := by
  obtain ⟨k, hk, rfl⟩ := hp
  rw [BroadcastSends] at hsends
  have hok := @pubAcknowledge_eq_ok_iff env functionName _ (h.client_ne_zero k hk) buffer w
  rcases hrun : pubAcknowledge env functionName (w.conn k).word buffer w with ⟨state, route, w₁⟩
  rw [hrun] at hsends hok
  obtain ⟨hstate, new, hnew, hmem⟩ := hsends
  obtain ⟨⟨r, hr, hdup⟩, hack⟩ := hok.mp hstate
  obtain ⟨w₀, w₁', log, hrun', -, -, hfrees, -⟩ :=
    @pubAcknowledge_spec isCode env functionName w h k hk buffer r hr hdup hack
  rw [hrun', Prod.mk.injEq, Prod.mk.injEq] at hrun
  obtain ⟨-, rfl, rfl⟩ := hrun
  obtain ⟨control, w₂, hloop, -, -, hcalls, -⟩ :=
    @publish_spec isCode env w₁' (h.onlyFrees hfrees) r buffer size
  rw [hloop] at hnew
  obtain rfl := List.append_cancel_left (hnew.symm.trans hcalls)
  obtain ⟨i, -, hi⟩ := List.mem_flatMap.mp hmem
  obtain ⟨hselected, rfl, rfl⟩ := selected_of_send_mem hi
  have hsame := hfrees.conn_eq hselected.1
  rw [selected_congr hsame] at hselected
  exact ⟨rfl, r, hr, hdup, hack, i, hselected, by rw [hsame]⟩

end Ducq
