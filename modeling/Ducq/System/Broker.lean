import Ducq.Lib.Broker
import Ducq.Reactor.Replay
import Ducq.System.Messages
import Ducq.System.Run

/-!
# The reactor with its commands is a broker

Slots, pointers, rows and the text of a message are how the server does it; what it does is
what a `Broker` does.  A message requests something of the broker (`Op.request`), `Brokered`
says which broker a state is, and every step of the reactor is a step of that broker
(`Brokered.step`): one lemma for each part of a step, and the commands are put together from
them as in the source.

A route of a hundred bytes or more does not fit into a slot, nor a message of 256 into a row,
and what such a route or message does is not what a broker does.  `Op.Fits` leaves them out.
-/

namespace Ducq

open CMemory CPrintf FirstFit

/-! ## Requests -/

/-- What this broker and its clients have agreed on. -/
def ducqRules : Broker.Rules (List Byte) (List Byte) where
  accepts := Glob.firstStop star
  listens r := r = ducqLogRoute
  blank := []
  ack := ackText .ok
  unknown full := if full then ascii "ACK\n_" else ascii "ACK"

/-- The route in a message. -/
def routeOf (buffer : List Byte) : Option (List Byte) :=
  match ducqParseRoute buffer none with
  | (some route, some end_) => some (route.take (route.length - end_.length))
  | _ => none

/-- The message asks for the last message of its route. -/
def asksLast (buffer : List Byte) : Bool :=
  match ducqParseRoute buffer none with
  | (some _, some end_) =>
    ((ducqParsePayload buffer).map (cutAt buffer end_)).map cstr = some (ascii "last")
  | _ => false

/-- What a publication requests. -/
def pubRequest (env : Env) (d : DucqI) (buffer : List Byte) (size : ℕ) :
    Broker.Request DucqI (List Byte) (List Byte) :=
  match routeOf buffer with
  | none => .refuse d (ackText .emsginv) false
  | some r =>
    if env.strndup r then .publish d r (buffer.take size) (cstr buffer)
    else .refuse d (ackText .ememfail) false

/-- What a subscription requests. -/
def subRequest (d : DucqI) (buffer : List Byte) : Broker.Request DucqI (List Byte) (List Byte) :=
  match routeOf buffer with
  | none => .refuse d (ackText .emsginv) true
  | some r => .subscribe d r (asksLast buffer)

/-- What `unsub` requests. -/
def unsubRequest (env : Env) (d : DucqI) (buffer : List Byte) :
    Broker.Request DucqI (List Byte) (List Byte) :=
  match ducqParsePayload buffer with
  | none => .expel d (fun _ => false) (ackText .ok) (ackText .emsginv)
  | some id =>
    if cstr id = [] then .expel d (fun _ => false) (ackText .ok) (ackText .emsginv)
    else .expel d (fun v => cstr id = cstr (env.id v)) (ackText .ok) (ackText .enotfound)

/-- What a step requests. -/
def Op.request (env : Env) : Op → Broker.Request DucqI (List Byte) (List Byte)
  | addServer fd acceptF ctx => .table (TableOp.addServer fd acceptF ctx).spec
  | addClient fd d => .table (TableOp.addClient fd d).spec
  | subscribeTo d route => .table (TableOp.subscribe d route).spec
  | delete d => .table (TableOp.delete d).spec
  | loop control => .table (TableOp.loop control).spec
  | allowLogRoute allowed => .allow allowed
  | setLastMsg route msg => .keep (cstr route) (cstr msg)
  | send d buf => if d = 0 then .idle else .give d buf
  | id _ => .idle
  | log _ _ _ _ _ => .note
  | pub d buffer size | publish d buffer size => pubRequest env d buffer size
  | sub d buffer | subscribe d buffer => subRequest d buffer
  | unsub d buffer => unsubRequest env d buffer

/-- What a step publishes, if it is accepted. -/
def Op.published (env : Env) (w : World) : Op → List (List Byte × List Byte)
  | pub d buffer size =>
    if (Ducq.pub env d buffer size w).1 = .ok then
      (routeOf buffer).toList.map fun r => (r, buffer.take size)
    else []
  | publish d buffer size =>
    if (Ducq.publish env d buffer size w).1 = .ok then
      (routeOf buffer).toList.map fun r => (r, buffer.take size)
    else []
  | _ => []

/-- All that a run publishes. -/
def published : List (Env × Op) → World → List (List Byte × List Byte)
  | [], _ => []
  | (env, op) :: steps, w => op.published env w ++ published steps (op.run env w)

/-- The route in a message fits into its array. -/
def ShortRoute (buffer : List Byte) : Prop := ∀ r ∈ routeOf buffer, r.length < ducqMaxRouteLen

instance (buffer : List Byte) : Decidable (ShortRoute buffer) :=
  inferInstanceAs (Decidable (∀ r ∈ routeOf buffer, r.length < ducqMaxRouteLen))

/-- Routes and messages fit into their arrays, and who subscribes is registered. -/
def Op.Fits (w : World) : Op → Prop
  | subscribeTo d route => Registered w d ∧ (cstr route).length < ducqMaxRouteLen
  | setLastMsg route msg => (cstr route).length < ducqMaxRouteLen ∧ (cstr msg).length < ducqMsgsz
  | pub _ buffer _ | publish _ buffer _ => ShortRoute buffer ∧ (cstr buffer).length < ducqMsgsz
  | sub _ buffer | subscribe _ buffer => ShortRoute buffer
  | _ => True

instance (w : World) (op : Op) : Decidable (op.Fits w) :=
  match op with
  | .subscribeTo d route =>
    inferInstanceAs (Decidable (Registered w d ∧ (cstr route).length < ducqMaxRouteLen))
  | .setLastMsg route msg =>
    inferInstanceAs (Decidable ((cstr route).length < ducqMaxRouteLen ∧
      (cstr msg).length < ducqMsgsz))
  | .pub _ buffer _ | .publish _ buffer _ =>
    inferInstanceAs (Decidable (ShortRoute buffer ∧ (cstr buffer).length < ducqMsgsz))
  | .sub _ buffer | .subscribe _ buffer => inferInstanceAs (Decidable (ShortRoute buffer))
  | .addServer _ _ _ | .addClient _ _ | .delete _ | .loop _ | .allowLogRoute _ | .send _ _ | .id _
  | .log _ _ _ _ _ | .unsub _ _ => instDecidableTrue

/-- So it is at every step of a run. -/
def OpsFit : List (Env × Op) → World → Prop
  | [], _ => True
  | (env, op) :: steps, w => op.Fits w ∧ OpsFit steps (op.run env w)

instance decidableOpsFit : (steps : List (Env × Op)) → (w : World) → Decidable (OpsFit steps w)
  | [], _ => instDecidableTrue
  | (env, op) :: steps, w =>
    have := decidableOpsFit steps (op.run env w)
    inferInstanceAs (Decidable (op.Fits w ∧ OpsFit steps (op.run env w)))

/-! ## The broker behind the reactor -/

/-- Who can be reached. -/
def Env.reach (env : Env) (d : DucqI) (n : ℕ) : Bool := env.sendResult d n = .ok

/-- The broker is what the reactor holds and what it has sent. -/
structure Brokered (isCode : ℕ → Prop) (w : World)
    (b : Broker DucqI (List Byte) (List Byte) ducqMaxConnections ducqMaxChannels) : Prop where
  simulated : Simulated isCode w b.registry
  sent : ∀ d, b.sent d = messagesTo d w.calls
  last : ∃ l, Holds w l ∧ Represents l b.last
  logging : b.logging = w.reactor.allowLogRoute

variable {isCode : ℕ → Prop} {env : Env} {functionName buffer : List Byte} {w w' : World}
  {b : Broker DucqI (List Byte) (List Byte) ducqMaxConnections ducqMaxChannels}

/-! ## Routes -/

theorem routeOf_eq_some {buffer r : List Byte} : routeOf buffer = some r ↔ HasRoute buffer r := by
  rw [routeOf, HasRoute]
  rcases ducqParseRoute buffer none with ⟨_ | route, _ | end_⟩
  · simp
  · simp
  · simp
  · simp

theorem routeOf_eq_none {buffer : List Byte} (h : routeOf buffer = none) :
    pubRoute env buffer = (.emsginv, none) := by
  rw [routeOf] at h
  rw [pubRoute]
  rcases hparse : ducqParseRoute buffer none with ⟨_ | route, _ | end_⟩
  · rfl
  · rfl
  · rfl
  · rw [hparse] at h
    exact absurd h (Option.some_ne_none _)

theorem pubRoute_of_not_strndup {r : List Byte} (h : HasRoute buffer r)
    (hmem : env.strndup r = false) : pubRoute env buffer = (.ememfail, none) := by
  obtain ⟨route, end_, hparse, hr⟩ := h
  rw [pubRoute, hparse]
  simp [strndup, hr, hmem]

/-- A publication that is accepted goes on to its broadcast. -/
theorem world_pubCommand_of_ok {d : DucqI} (size : ℕ)
    (h : (pubAcknowledge env functionName d buffer w).1 = .ok) :
    (pubCommand env functionName d buffer size w).2 =
      pubBroadcast env functionName d (pubRoute env buffer).2 buffer size
        (pubAcknowledge env functionName d buffer w).2.2 := by
  have hroute : (pubAcknowledge env functionName d buffer w).2.1 =
      (pubRoute env buffer).2 := rfl
  rw [pubCommand]
  rcases hrun : pubAcknowledge env functionName d buffer w with ⟨returned, route, w'⟩
  rw [hrun] at h hroute
  dsimp only at h hroute ⊢
  rw [if_neg (not_not.mpr h), hroute]

/-! ## The parts -/

/-- The clients with some property are still there. -/
theorem Simulated.retain {r : Registry DucqI (List Byte) ducqMaxConnections}
    (h : Simulated isCode w r) {p : DucqI → Bool}
    (hw' : ∀ i, w'.conn i =
      if (w.conn i).IsClient ∧ p (w.conn i).word = false then (w.conn i).freed else w.conn i) :
    Simulated isCode w' (r.retain p) := by
  set gone := (r.keys.filter fun k => p k = false).toList
  have hgone : ∀ k ∈ r.keys, k ∈ gone ↔ p k = false := fun k hk => by
    rw [Finset.mem_toList, Finset.mem_filter, and_iff_right hk]
  have hconn : ∀ i, w'.conn i =
      if (w.conn i).IsClient ∧ (w.conn i).word ∈ gone then (w.conn i).freed else w.conn i := by
    intro i
    rw [hw']
    refine if_congr (and_congr_right fun hi => ?_) rfl rfl
    rw [hgone _ ((h.refines.mem_keys _).mpr ⟨i, hi, rfl⟩)]
  obtain ⟨hinv, hterminated, hrefines⟩ := h.removeAll hconn
  refine ⟨hinv, hterminated, fun d => ?_, hrefines.value, hrefines.others⟩
  rw [← hrefines.mem_keys d]
  show d ∈ r.keys.filter _ ↔ d ∈ r.keys.filter _
  rw [Finset.mem_filter, Finset.mem_filter]
  refine and_congr_right fun hd => ?_
  rw [hgone d hd, Bool.not_eq_false]

/-- The same slots. -/
theorem Simulated.congr {r : Registry DucqI (List Byte) ducqMaxConnections}
    (h : Simulated isCode w r) (hw' : ∀ i, w'.conn i = w.conn i) : Simulated isCode w' r where
  inv := h.inv.onlyFrees fun i => Or.inl (hw' i)
  terminated i hi := by
    rw [hw'] at hi ⊢
    exact h.terminated i hi
  refines := by
    refine ⟨fun d => ?_, fun i hi => ?_, ?_⟩
    · rw [h.refines.mem_keys, Registered, Registered]
      simp only [hw']
    · rw [hw'] at hi ⊢
      exact h.refines.value i hi
    · rw [h.refines.others, serverCount, serverCount]
      simp only [hw']

namespace Brokered

/-- Nothing has happened that the broker would know of. -/
theorem congr (h : Brokered isCode w b) (hconn : ∀ i, w'.conn i = w.conn i)
    (hcalls : ∀ d, messagesTo d w'.calls = messagesTo d w.calls) (hrest : LeavesRest w w') :
    Brokered isCode w' b where
  simulated := h.simulated.congr hconn
  sent d := by rw [h.sent, hcalls]
  last := by
    obtain ⟨l, hl, hrep⟩ := h.last
    exact ⟨l, hl.congr (by rw [hrest]), hrep⟩
  logging := by
    rw [hrest]
    exact h.logging

/-- Other calls than sends. -/
theorem record (h : Brokered isCode w b) {c : Call} (hc : ∀ d, messagesTo d [c] = []) :
    Brokered isCode (w.record [c]) b :=
  h.congr (fun _ => rfl) (fun d => by
    rw [World.calls_record, messagesTo_append, hc, List.append_nil]) rfl

theorem ducqId (h : Brokered isCode w b) (d : DucqI) : Brokered isCode (ducqId env d w).2 b := by
  unfold Ducq.ducqId
  split_ifs
  · exact h
  · exact h.record fun _ => rfl

/-- **A send is a message to a client.** -/
theorem ducqSend (h : Brokered isCode w b) {d : DucqI} (h0 : d ≠ 0) (m : List Byte) :
    ((ducqSend env d m w).1 = .ok ↔ env.reach d (b.sent d).length = true) ∧
      Brokered isCode (ducqSend env d m w).2 (b.give d m) := by
  rw [Ducq.ducqSend, if_neg h0, Env.reach, h.sent, ← sendCount_eq_length, decide_eq_true_iff]
  refine ⟨Iff.rfl, h.simulated.congr fun _ => rfl, fun d' => ?_, ?_, h.logging⟩
  · rw [World.calls_record, messagesTo_append, messagesTo_send, ← h.sent]
    show Function.update b.sent d (b.sent d ++ [m]) d' = _
    by_cases hd : d = d'
    · subst hd
      rw [Function.update_self, if_pos rfl]
    · rw [Function.update_of_ne (Ne.symm hd), if_neg hd, List.append_nil]
  · obtain ⟨l, hl, hrep⟩ := h.last
    exact ⟨l, hl.congr rfl, hrep⟩

/-- **A broadcast is a message that is posted.** -/
theorem post (h : Brokered isCode w b) {sel selects : List Byte → Bool} {m : List Byte}
    (hsel : ∀ i, (w.conn i).IsClient →
      sel (routePtr env w i) = selects (cstr (w.conn i).bytes.bytes))
    (hconn : ∀ i, w'.conn i =
      if Selected env sel w i ∧ ¬ Reached env w i then (w.conn i).freed else w.conn i)
    (hcalls : w'.calls = w.calls ++
      (List.finRange ducqMaxConnections).flatMap (slotCalls env sel m w))
    (hrest : LeavesRest w w') : Brokered isCode w' (b.post env.reach selects m) := by
  have hvalue := h.simulated.refines.value
  refine ⟨h.simulated.retain fun i => ?_, fun d => ?_, ?_, ?_⟩
  · rw [hconn]
    refine if_congr ?_ rfl rfl
    rw [Selected, and_assoc]
    refine and_congr_right fun hi => ?_
    rw [hvalue i hi, hsel i hi, Reached, sendCount_eq_length, ← h.sent, Env.reach,
      Bool.or_eq_false_iff, Bool.not_eq_false', decide_eq_false_iff_not]
  · rw [hcalls, messagesTo_append,
      messagesTo_flatMap_slotCalls h.simulated.inv d sel m (List.nodup_finRange _), ← h.sent]
    have hiff : (d ∈ b.registry.keys ∧ selects (b.registry.value d) = true) ↔
        ∃ i ∈ List.finRange ducqMaxConnections,
          Selected env sel w i ∧ (w.conn i).word = d := by
      rw [h.simulated.refines.mem_keys]
      constructor
      · rintro ⟨⟨i, hi, rfl⟩, hs⟩
        rw [hvalue i hi, ← hsel i hi] at hs
        exact ⟨i, List.mem_finRange i, ⟨hi, hs⟩, rfl⟩
      · rintro ⟨i, -, ⟨hi, hs⟩, rfl⟩
        rw [hvalue i hi, ← hsel i hi]
        exact ⟨⟨i, hi, rfl⟩, hs⟩
    show (if _ then b.sent d ++ [m] else b.sent d) = _
    by_cases hd : d ∈ b.registry.keys ∧ selects (b.registry.value d) = true
    · rw [if_pos hd, if_pos (hiff.mp hd)]
    · rw [if_neg hd, if_neg (mt hiff.mpr hd), List.append_nil]
  · obtain ⟨l, hl, hrep⟩ := h.last
    exact ⟨l, hl.congr (by rw [hrest]), hrep⟩
  · rw [hrest]
    exact h.logging

/-- What a route's pointer starts with is the client's pattern. -/
theorem cstr_routePtr (h : Brokered isCode w b) {i : Fin ducqMaxConnections}
    (hi : (w.conn i).IsClient) : cstr (routePtr env w i) = cstr (w.conn i).bytes.bytes :=
  (h.simulated.terminated i hi).cstr_append _

/-- **A log line is a note.** -/
theorem ducqReactorLog (h : Brokered isCode w b) (level : DucqLogLevel) (functionName : List Byte)
    (senderId fmt : Option (List Byte)) (args : List Arg) :
    ∃ line, Brokered isCode (ducqReactorLog env level functionName senderId fmt args w)
      (b.note ducqRules env.reach line) := by
  cases htext : fmt.bind fun fmt => format fmt args with
  | none =>
    refine ⟨none, ?_⟩
    rw [Ducq.ducqReactorLog, htext]
    exact h.record fun _ => rfl
  | some text =>
    obtain ⟨hconn, hcalls⟩ :=
      @ducqReactorLog_spec isCode env w h.simulated.inv level functionName senderId fmt args text
        htext
    have hpost : Brokered isCode (Ducq.ducqReactorLog env level functionName senderId fmt args w)
        (b.post env.reach (fun r => b.logging && ducqRules.listens r)
          (logLine env level functionName senderId text)) := by
      refine h.post (fun i hi => ?_) hconn hcalls (LeavesRest.ducqReactorLog _ _ _ _ _ w)
      rw [logSelects, h.cstr_routePtr hi, h.logging]
      rfl
    exact ⟨some _, hpost⟩

theorem ducqLog (h : Brokered isCode w b) (d : DucqI) (level : DucqLogLevel)
    (functionName : List Byte) (fmt : Option (List Byte)) (args : List Arg) :
    ∃ line, Brokered isCode (ducqLog env d level functionName fmt args w)
      (b.note ducqRules env.reach line) :=
  (h.ducqId d).ducqReactorLog _ _ _ _ _

/-- **A client that is deleted goes.** -/
theorem ducqReactorDelete (h : Brokered isCode w b) (d : DucqI) :
    Brokered isCode (ducqReactorDelete env d w).2 (b.leave d) := by
  have hrest := @LeavesRest.ducqReactorDelete env d w
  refine ⟨h.simulated.removeAll fun i => ?_, fun d' => ?_, ?_, ?_⟩
  · by_cases hd : Registered w d
    · obtain ⟨j, hj, rfl⟩ := hd
      rw [h.simulated.inv.delete_eq hj, conn_connectionFree]
      by_cases hij : i = j
      · subst hij
        rw [if_pos rfl, if_pos ⟨hj, List.mem_singleton.mpr rfl⟩]
      · rw [if_neg hij,
          if_neg fun hi => hij (h.simulated.inv.unique hi.1 hj (List.mem_singleton.mp hi.2))]
    · rw [TableInv.delete_eq_of_not_registered hd,
        if_neg fun hi => hd ⟨i, hi.1, List.mem_singleton.mp hi.2⟩]
  · rw [messagesTo_ducqReactorDelete]
    exact h.sent d'
  · obtain ⟨l, hl, hrep⟩ := h.last
    exact ⟨l, hl.congr (by rw [hrest]), hrep⟩
  · rw [hrest]
    exact h.logging

/-- **What is stored is kept.** -/
theorem ducqSetLastMsg (h : Brokered isCode w b) {route msg : List Byte}
    (hroute : (cstr route).length < ducqMaxRouteLen) (hmsg : (cstr msg).length < ducqMsgsz) :
    Brokered isCode (ducqSetLastMsg route msg w).2
      (b.keep ducqRules (cstr route) (cstr msg)) := by
  have hsimulated : Simulated isCode (Ducq.ducqSetLastMsg route msg w).2 b.registry :=
    h.simulated.congr fun i => conn_ducqSetLastMsg route msg w i
  have hsent : ∀ d, b.sent d = messagesTo d (Ducq.ducqSetLastMsg route msg w).2.calls :=
    fun d => by rw [calls_ducqSetLastMsg, h.sent]
  have hlogging : b.logging = (Ducq.ducqSetLastMsg route msg w).2.reactor.allowLogRoute := by
    rw [allowLogRoute_ducqSetLastMsg, h.logging]
  obtain ⟨l, hl, hrep⟩ := h.last
  obtain ⟨-, hset⟩ := hl.set_spec route hmsg
  have hstored : storedEntry (cstr route) (cstr msg) = (cstr route, cstr msg) := by
    rw [storedEntry, if_pos hroute]
  have hroom := hrep.room_iff (cstr route) (cstr msg)
  rw [setEntries, hstored] at hset
  rw [Broker.keep]
  by_cases hblank : cstr route = []
  · rw [if_neg fun hc => hc.2 hblank] at hset
    rw [if_pos (show cstr route = ducqRules.blank from hblank)]
    exact ⟨hsimulated, hsent, ⟨l, hset, hrep⟩, hlogging⟩
  · rw [if_neg (show cstr route ≠ ducqRules.blank from hblank)]
    refine ⟨hsimulated, hsent, ?_, hlogging⟩
    cases hkept : b.last.set (cstr route) (cstr msg) with
    | none =>
      rw [if_neg fun hc => hroom.mp hc.1 hkept] at hset
      exact ⟨l, hset, hrep⟩
    | some last =>
      have hpos := hroom.mpr (by rw [hkept]; exact Option.some_ne_none _)
      rw [if_pos ⟨hpos, hblank⟩] at hset
      exact ⟨_, hset, hrep.write hkept⟩

/-- **What a client that subscribes with `last` is answered.** -/
theorem ducqGetLastMsg (h : Brokered isCode w b) (route : List Byte) :
    ducqGetLastMsg w route = b.answer ducqRules (cstr route) true := by
  obtain ⟨l, hl, hrep⟩ := h.last
  have hfull : b.last.Full ↔ ¬ l.length < ducqMaxChannels := by
    have hle := hl.length_le
    rw [BoundedMap.Full, ← hrep.length_eq]
    omega
  rw [hl.get_eq, hrep.find_eq, Broker.answer, if_pos rfl]
  congr 1
  by_cases hroom : l.length < ducqMaxChannels
  · rw [if_pos hroom, decide_eq_false (fun hc => hfull.mp hc hroom)]
    rfl
  · rw [if_neg hroom, decide_eq_true (hfull.mpr hroom)]
    rfl

/-! ## The commands -/

/-- **What the table does of itself** the registry does. -/
theorem table (h : Brokered isCode w b) {op : TableOp} (hvalid : op.Valid isCode w) :
    ∃ b', Broker.Step ducqRules env.reach b (.table op.spec) [] b' ∧
      Brokered isCode (op.run env w).2 b' := by
  obtain ⟨r, hstep, hsimulated⟩ := @table_step isCode env w b.registry h.simulated op hvalid
  have hquiet : ∀ d, messagesTo d (op.run env w).2.calls = messagesTo d w.calls := by
    intro d
    cases op with
    | addServer fd acceptF ctx =>
      show messagesTo d (ducqReactorAddServer fd acceptF ctx w).2.calls = _
      unfold ducqReactorAddServer
      split <;> rfl
    | addClient fd d' =>
      show messagesTo d (ducqReactorAddClient fd d' w).2.calls = _
      unfold ducqReactorAddClient
      split <;> rfl
    | subscribe d' route =>
      show messagesTo d (ducqReactorSubscribe d' route w).2.calls = _
      unfold ducqReactorSubscribe
      split <;> rfl
    | delete d' => exact messagesTo_ducqReactorDelete d' d w
    | loop control => exact messagesTo_ducqReactorLoop d (fun _ _ _ _ => rfl) [] w
  have hrest : LeavesRest w (op.run env w).2 := by
    cases op with
    | addServer fd acceptF ctx =>
      show LeavesRest w (ducqReactorAddServer fd acceptF ctx w).2
      unfold ducqReactorAddServer
      split <;> rfl
    | addClient fd d' =>
      show LeavesRest w (ducqReactorAddClient fd d' w).2
      unfold ducqReactorAddClient
      split <;> rfl
    | subscribe d' route =>
      show LeavesRest w (ducqReactorSubscribe d' route w).2
      unfold ducqReactorSubscribe
      split <;> rfl
    | delete d' => exact LeavesRest.ducqReactorDelete d' w
    | loop control => exact LeavesRest.ducqReactorLoop (fun _ _ _ w => LeavesRest.refl w) [] w
  refine ⟨_, Broker.Step.table hstep, hsimulated, fun d => ?_, ?_, ?_⟩
  · rw [hquiet, ← h.sent]
  · obtain ⟨l, hl, hrep⟩ := h.last
    exact ⟨l, hl.congr (by rw [hrest]), hrep⟩
  · rw [hrest]
    exact h.logging

/-- **The first phase of a publication**: the answer, and a line. -/
theorem pubAcknowledge (h : Brokered isCode (pubStore env buffer w) b) {d : DucqI} (h0 : d ≠ 0) :
    ∃ line, Brokered isCode (pubAcknowledge env functionName d buffer w).2.2
      ((b.give d (ackText (pubRoute env buffer).1)).note ducqRules env.reach line) := by
  obtain ⟨level, id, args, hlog⟩ := @pubAcknowledge_world env functionName d buffer w
  rw [hlog, pubAcknowledged, ducqSendAck_eq]
  exact (((h.ducqSend h0 _).2).ducqId d).ducqReactorLog _ _ _ _ _

/-- **The second phase**: the message, and another line. -/
theorem pubBroadcast (h : Brokered isCode w b) {r : List Byte} (hr : (0 : Byte) ∉ r) (d : DucqI)
    (buffer : List Byte) (size : ℕ) :
    ∃ line, Brokered isCode (pubBroadcast env functionName d (some (r ++ [0])) buffer size w)
      ((b.post env.reach (fun p => ducqRules.accepts p r) (buffer.take size)).note ducqRules
        env.reach line) := by
  obtain ⟨control, w', hrun, -, hconn, hcalls, hreactor⟩ :=
    @publish_spec isCode env w h.simulated.inv r buffer size
  have hpost : Brokered isCode w' (b.post env.reach (fun p => ducqRules.accepts p r)
      (buffer.take size)) := by
    refine h.post (fun i hi => ?_) hconn hcalls hreactor
    obtain ⟨u, hu⟩ := exists_eq_cstr_append (h.simulated.terminated i hi)
    rw [publishSelects, routePtr, hu, List.append_assoc, List.cons_append,
      ducqRouteCmp_eq (zero_notMem_cstr _) hr]
    simp [ducqRules, cstr_append_zero (zero_notMem_cstr _)]
  rw [Ducq.pubBroadcast, hrun]
  exact hpost.ducqLog _ _ _ _ _

/-- **A publication.** -/
theorem pubCommand (h : Brokered isCode w b) {d : DucqI} (hd : Registered w d)
    {buffer : List Byte} (hroute : ShortRoute buffer) (hbuffer : (cstr buffer).length < ducqMsgsz)
    (size : ℕ) :
    ∃ b', Broker.Step ducqRules env.reach b (pubRequest env d buffer size)
        (if (pubCommand env functionName d buffer size w).1 = .ok then
          (routeOf buffer).toList.map fun r => (r, buffer.take size)
        else []) b' ∧
      Brokered isCode (pubCommand env functionName d buffer size w).2 b' := by
  have h0 : d ≠ 0 := by
    obtain ⟨i, hi, rfl⟩ := hd
    exact h.simulated.inv.client_ne_zero i hi
  have hok := @pubCommand_eq_ok_iff env functionName d h0 buffer size w
  have hok' := @pubAcknowledge_eq_ok_iff env functionName d h0 buffer w
  have hreach : env.sendResult d (sendCount d w.calls) = .ok ↔
      env.reach d (b.sent d).length = true := by
    rw [h.sent, ← sendCount_eq_length, Env.reach, decide_eq_true_iff]
  have hlost : ∀ state, pubRoute env buffer = (state, none) → state ≠ .ok →
      ∃ line, Brokered isCode (Ducq.pubCommand env functionName d buffer size w).2
        (((b.give d (ackText state)).note ducqRules env.reach line).leave d) := by
    intro state hstate hne
    have hstore : pubStore env buffer w = w := by
      rw [pubStore, hstate, if_neg hne]
    have hnot : (Ducq.pubAcknowledge env functionName d buffer w).1 ≠ .ok := by
      rw [ne_eq, hok']
      rintro ⟨⟨r, hr, hmem⟩, -⟩
      rw [pubRoute_of_hasRoute hr hmem] at hstate
      exact nomatch (Prod.mk.inj hstate).2
    obtain ⟨line, hline⟩ := @pubAcknowledge isCode env functionName buffer w b (by rwa [hstore])
      d h0
    rw [hstate] at hline
    rw [world_pubCommand_of_ne_ok size hnot]
    exact ⟨line, hline.ducqReactorDelete d⟩
  rw [pubRequest]
  cases hr : routeOf buffer with
  | none =>
    have hstate := @routeOf_eq_none env buffer hr
    obtain ⟨line, hline⟩ := hlost _ hstate (by decide)
    rw [Option.toList_none, List.map_nil, ite_self]
    exact ⟨_, Broker.Step.dismiss b d _ line, hline⟩
  | some r =>
    have hroute' := routeOf_eq_some.mp hr
    dsimp only
    cases hmem : env.strndup r with
    | false =>
      have hstate : pubRoute env buffer = (.ememfail, none) := pubRoute_of_not_strndup hroute' hmem
      obtain ⟨line, hline⟩ := hlost _ hstate (by decide)
      have hnot : (Ducq.pubCommand env functionName d buffer size w).1 ≠ .ok := by
        rw [ne_eq, hok]
        rintro ⟨⟨r', hr', hmem'⟩, -⟩
        rw [hroute'.unique hr', hmem] at hmem'
        exact nomatch hmem'
      rw [if_neg hnot, if_neg Bool.false_ne_true]
      exact ⟨_, Broker.Step.dismiss b d _ line, hline⟩
    | true =>
      have hstate := pubRoute_of_hasRoute hroute' hmem
      have hstring : cstr (r ++ [0]) = r := cstr_append_zero hroute'.zero_notMem []
      have hstored : Brokered isCode (pubStore env buffer w)
          (b.keep ducqRules r (cstr buffer)) := by
        have hset := @ducqSetLastMsg isCode w b h (r ++ [0]) buffer
          (by rw [hstring]; exact hroute r hr) hbuffer
        rw [hstring] at hset
        rwa [pubStore, hstate, if_pos rfl]
      obtain ⟨line, hline⟩ := @pubAcknowledge isCode env functionName buffer w _ hstored d h0
      rw [hstate] at hline
      rw [if_pos rfl]
      cases hreached : env.reach d (b.sent d).length with
      | true =>
        have hsent := hreach.mpr hreached
        have hgranted := hok.mpr ⟨⟨r, hroute', hmem⟩, hsent⟩
        have hgranted' := hok'.mpr ⟨⟨r, hroute', hmem⟩, hsent⟩
        obtain ⟨line', hline'⟩ := @pubBroadcast isCode env functionName _ _ hline r
          hroute'.zero_notMem d buffer size
        rw [if_pos hgranted, world_pubCommand_of_ok size hgranted', hstate]
        exact ⟨_, Broker.Step.publish hreached r _ _ line line', hline'⟩
      | false =>
        have hsent : env.sendResult d (sendCount d w.calls) ≠ .ok := by
          rw [ne_eq, hreach, hreached]
          exact Bool.false_ne_true
        rw [if_neg fun hc => hsent (hok.mp hc).2,
          world_pubCommand_of_ne_ok size fun hc => hsent (hok'.mp hc).2]
        exact ⟨_, Broker.Step.publishLost hreached r _ _ line, hline.ducqReactorDelete d⟩

/-! ## Subscriptions -/

/-- **A registered client writes its pattern.** -/
theorem ducqReactorSubscribe (h : Brokered isCode w b) {d : DucqI} (hd : Registered w d)
    {route : List Byte} (hroute : (cstr route).length < ducqMaxRouteLen) :
    (ducqReactorSubscribe d route w).1 = .ok ∧
      Brokered isCode (ducqReactorSubscribe d route w).2
        { b with registry := b.registry.write d (cstr route) } := by
  obtain ⟨r, hstep, hsimulated⟩ :=
    @subscribe_step isCode w b.registry h.simulated d route ⟨hd, hroute⟩
  obtain ⟨i, hi, rfl⟩ := hd
  rw [h.simulated.inv.subscribe_eq hi] at hstep hsimulated ⊢
  obtain ⟨l, hl, hrep⟩ := h.last
  cases hstep with
  | write hk v => exact ⟨rfl, hsimulated, h.sent, ⟨l, hl.congr rfl, hrep⟩, h.logging⟩

/-- **A subscription.** -/
theorem subRoute (h : Brokered isCode w b) {d : DucqI} (hd : Registered w d)
    {route : List Byte} (hroute : (cstr route).length < ducqMaxRouteLen)
    (payload : Option (List Byte)) :
    ∃ b', Broker.Step ducqRules env.reach b
        (.subscribe d (cstr route) (payload.map cstr = some (ascii "last"))) [] b' ∧
      Brokered isCode (subRoute env functionName d route payload w).2 b' := by
  have h0 : d ≠ 0 := by
    obtain ⟨i, hi, rfl⟩ := hd
    exact h.simulated.inv.client_ne_zero i hi
  obtain ⟨hok, hwritten⟩ := @ducqReactorSubscribe isCode w b h d hd route hroute
  rcases hsub : Ducq.ducqReactorSubscribe d route w with ⟨state, w₁⟩
  rw [hsub] at hok hwritten
  dsimp only at hok hwritten
  subst hok
  have hanswer : subAcknowledge env d route payload .ok w₁ =
      Ducq.ducqSend env d (Broker.answer ducqRules (cstr route)
        (decide (payload.map cstr = some (ascii "last")))
        { b with registry := b.registry.write d (cstr route) }) w₁ := by
    rw [subAcknowledge, if_neg (not_not.mpr rfl)]
    by_cases hlast : payload.map cstr = some (ascii "last")
    · rw [if_pos hlast, hwritten.ducqGetLastMsg, decide_eq_true hlast]
    · rw [if_neg hlast, ducqSendAck_eq, decide_eq_false hlast]
      rfl
  have hrun : Ducq.subRoute env functionName d route payload w =
      ((subAcknowledge env d route payload .ok w₁).1,
        subConclude env functionName d route (subAcknowledge env d route payload .ok w₁).1
          (subAcknowledge env d route payload .ok w₁).2) := by
    rw [Ducq.subRoute, hsub]
    rfl
  obtain ⟨hreach, hsent⟩ := @ducqSend isCode env w₁ _ hwritten d h0
    (Broker.answer ducqRules (cstr route) (decide (payload.map cstr = some (ascii "last")))
      { b with registry := b.registry.write d (cstr route) })
  rw [← hanswer] at hreach hsent
  rw [hrun, subConclude]
  cases hreached : env.reach d (b.sent d).length with
  | true =>
    obtain ⟨line, hline⟩ := @ducqLog isCode env _ _ hsent d .info functionName
      (some (ascii "%s")) [.str (some route)]
    rw [if_neg (not_not.mpr (hreach.mpr hreached))]
    exact ⟨_, Broker.Step.subscribe hreached _ _ line, hline⟩
  | false =>
    have hlost : (subAcknowledge env d route payload .ok w₁).1 ≠ .ok := by
      rw [ne_eq, hreach]
      exact fun hc => Bool.false_ne_true (hreached.symm.trans hc)
    obtain ⟨line, hline⟩ := @ducqLog isCode env _ _ hsent d .warning functionName
      (some (ascii "%s"))
      [.str (some (ducqStateTostr (subAcknowledge env d route payload .ok w₁).1.code))]
    rw [if_pos hlost]
    exact ⟨_, Broker.Step.subscribeLost hreached _ _ line, hline.ducqReactorDelete d⟩

theorem subCommand (h : Brokered isCode w b) {d : DucqI} (hd : Registered w d)
    (hroute : ShortRoute buffer) :
    ∃ b', Broker.Step ducqRules env.reach b (subRequest d buffer) [] b' ∧
      Brokered isCode (subCommand env functionName d buffer w).2 b' := by
  have h0 : d ≠ 0 := by
    obtain ⟨i, hi, rfl⟩ := hd
    exact h.simulated.inv.client_ne_zero i hi
  rw [subRequest]
  cases hr : routeOf buffer with
  | none =>
    have hrun : (Ducq.subCommand env functionName d buffer w).2 =
        Ducq.ducqLog env d .warning functionName (some (ascii "%s"))
          [.str (some (ducqStateTostr DucqState.emsginv.code))]
          (Ducq.ducqSend env d (ackText .emsginv) w).2 := by
      rw [Ducq.subCommand, ← ducqSendAck_eq]
      rcases hparse : ducqParseRoute buffer none with ⟨_ | route, _ | end_⟩
      · rfl
      · rfl
      · rfl
      · rw [routeOf, hparse] at hr
        exact absurd hr (Option.some_ne_none _)
    obtain ⟨line, hline⟩ := @ducqLog isCode env _ _ (h.ducqSend h0 (ackText .emsginv)).2 d
      .warning functionName (some (ascii "%s"))
      [.str (some (ducqStateTostr DucqState.emsginv.code))]
    rw [hrun]
    exact ⟨_, Broker.Step.refuse b d _ line, hline⟩
  | some r =>
    have hroute' := routeOf_eq_some.mp hr
    obtain ⟨pre, q, hbuffer, -, -, h0', hparse⟩ := hroute'.exists_append
    have hcut : cutAt buffer (newline :: q) (r ++ newline :: q) = r ++ 0 :: q := by
      have hcut := cutAt_route (pre ++ [space]) r q
      rwa [← List.append_cons, ← hbuffer] at hcut
    have hstring : cstr (r ++ 0 :: q) = r := cstr_append_zero h0' q
    obtain ⟨b', hstep, hb'⟩ := @subRoute isCode env functionName w b h d hd (r ++ 0 :: q)
      (by rw [hstring]; exact hroute r hr)
      ((ducqParsePayload buffer).map (cutAt buffer (newline :: q)))
    have hasks : asksLast buffer = decide (((ducqParsePayload buffer).map
        (cutAt buffer (newline :: q))).map cstr = some (ascii "last")) := by
      rw [asksLast, hparse]
    have hrun : Ducq.subCommand env functionName d buffer w =
        Ducq.subRoute env functionName d (r ++ 0 :: q)
          ((ducqParsePayload buffer).map (cutAt buffer (newline :: q))) w := by
      rw [Ducq.subCommand, hparse]
      dsimp only
      rw [hcut]
    rw [hstring, ← hasks] at hstep
    rw [hrun]
    exact ⟨b', hstep, hb'⟩

/-! ## Leaving -/

/-- The end of `unsub`: a line, and the answer. -/
theorem unsubAnswer (h : Brokered isCode w b) {d : DucqI} (h0 : d ≠ 0) (level : DucqLogLevel)
    (id : Option (List Byte)) (count : ℤ) (state : DucqState) :
    ∃ line, Brokered isCode (unsubAnswer env d level id count state w).2
      ((b.note ducqRules env.reach line).give d (ackText state)) := by
  obtain ⟨line, hline⟩ := @ducqLog isCode env w b h d level (ascii "unsub")
    (some (ascii "%s,%d unsubscribed")) [.str id, .int count]
  rw [Ducq.unsubAnswer, ducqSendAck_eq]
  exact ⟨line, (hline.ducqSend h0 _).2⟩

/-- **Who is named is expelled.** -/
theorem unsub (h : Brokered isCode w b) {d : DucqI} (h0 : d ≠ 0) :
    ∃ b', Broker.Step ducqRules env.reach b (unsubRequest env d buffer) [] b' ∧
      Brokered isCode (unsub env d buffer w).2 b' := by
  have hinvalid : ∀ id, ∃ b', Broker.Step ducqRules env.reach b
      (.expel d (fun _ => false) (ackText .ok) (ackText .emsginv)) [] b' ∧
      Brokered isCode (Ducq.unsubAnswer env d .warning id 0 .emsginv w).2 b' := fun id => by
    obtain ⟨line, hline⟩ := h.unsubAnswer h0 .warning id 0 .emsginv
    exact ⟨_, Broker.Step.expelNone (fun _ _ => rfl) d _ _ line, hline⟩
  rw [unsubRequest, Ducq.unsub]
  cases ducqParsePayload buffer with
  | none => exact hinvalid none
  | some id =>
    dsimp only
    by_cases hid : cstr id = []
    · rw [if_pos hid, if_pos hid]
      exact hinvalid (some id)
    · rw [if_neg hid, if_neg hid]
      obtain ⟨control, w', hrun, hconn, -, -⟩ :=
        @unsubscribe_spec env isCode w h.simulated.inv id
      have hmessages : ∀ d', messagesTo d' w'.calls = messagesTo d' w.calls := fun d' => by
        have hloop := @messagesTo_ducqReactorLoop env _ (unsubscribeHook env) d'
          (fun d'' r c w => messagesTo_unsubscribeHook d' d'' r c w) ⟨id, 0⟩ w
        rwa [hrun] at hloop
      have hrest : LeavesRest w w' := by
        have hloop := @LeavesRest.ducqReactorLoop env _ (unsubscribeHook env)
          (fun d r c w => LeavesRest.unsubscribeHook d r c w) ⟨id, 0⟩ w
        rwa [hrun] at hloop
      rw [hrun]
      dsimp only
      cases hnamed : firstNamed env id w with
      | none =>
        have hnobody : ∀ v ∈ b.registry.keys, decide (cstr id = cstr (env.id v)) = false := by
          intro v hv
          obtain ⟨i, hi, rfl⟩ := (h.simulated.refines.mem_keys v).mp hv
          have hi' := List.find?_eq_none.mp hnamed i (List.mem_finRange i)
          rw [decide_eq_true_iff] at hi'
          exact decide_eq_false fun heq => hi' ⟨hi, heq⟩
        have hb' : Brokered isCode w' b := by
          refine h.congr (fun i => ?_) hmessages hrest
          rw [hconn, hnamed, if_neg (Option.some_ne_none i).symm]
        obtain ⟨line, hline⟩ :=
          @unsubAnswer isCode env w' b hb' d h0 .warning (some id) 0 .enotfound
        exact ⟨_, Broker.Step.expelNone hnobody d _ _ line, hline⟩
      | some i =>
        have hfirst := hnamed
        rw [firstNamed] at hfirst
        have hi : Named env id w i := by simpa using List.find?_some hfirst
        have hmem : (w.conn i).word ∈ b.registry.keys :=
          (h.simulated.refines.mem_keys _).mpr ⟨i, hi.1, rfl⟩
        have hb' : Brokered isCode w' (b.leave (w.conn i).word) := by
          refine ⟨h.simulated.removeAll fun j => ?_, fun d' => ?_, ?_, ?_⟩
          · rw [hconn, hnamed]
            by_cases hji : j = i
            · subst hji
              rw [if_pos rfl, if_pos ⟨hi.1, List.mem_singleton.mpr rfl⟩]
            · rw [if_neg fun hc => hji (Option.some.inj hc).symm, if_neg fun hj =>
                hji (h.simulated.inv.unique hj.1 hi.1 (List.mem_singleton.mp hj.2))]
          · rw [hmessages]
            exact h.sent d'
          · obtain ⟨l, hl, hrep⟩ := h.last
            exact ⟨l, hl.congr (by rw [hrest]), hrep⟩
          · rw [hrest]
            exact h.logging
        obtain ⟨line, hline⟩ := @unsubAnswer isCode env w' _ hb' d h0 .info (some id) 1 .ok
        exact ⟨_, Broker.Step.expel hmem (decide_eq_true hi.2) d _ _ line, hline⟩

/-! ## Runs -/

/-- **Every step of the reactor is a step of the broker.** -/
theorem step (h : Brokered isCode w b) {op : Op} (hvalid : op.Valid isCode w) (hfits : op.Fits w) :
    ∃ b', Broker.Step ducqRules env.reach b (op.request env) (op.published env w) b' ∧
      Brokered isCode (op.run env w) b' := by
  have hne : ∀ d, Registered w d → d ≠ 0 := by
    rintro d ⟨i, hi, rfl⟩
    exact h.simulated.inv.client_ne_zero i hi
  cases op with
  | addServer fd acceptF ctx => exact @table isCode env w b h (.addServer fd acceptF ctx) hvalid
  | addClient fd d => exact @table isCode env w b h (.addClient fd d) hvalid
  | subscribeTo d route => exact @table isCode env w b h (.subscribe d route) hfits
  | delete d => exact @table isCode env w b h (.delete d) trivial
  | loop control => exact @table isCode env w b h (.loop control) trivial
  | allowLogRoute allowed =>
    refine ⟨_, Broker.Step.allow b allowed, h.simulated.congr fun _ => rfl, h.sent, ?_, rfl⟩
    obtain ⟨l, hl, hrep⟩ := h.last
    exact ⟨l, hl.congr rfl, hrep⟩
  | setLastMsg route msg =>
    exact ⟨_, Broker.Step.keep b _ _, h.ducqSetLastMsg hfits.1 hfits.2⟩
  | send d buf =>
    rw [Op.request]
    by_cases h0 : d = 0
    · rw [if_pos h0, Op.run, Ducq.ducqSend, if_pos h0]
      exact ⟨b, Broker.Step.idle b, h⟩
    · rw [if_neg h0]
      exact ⟨_, Broker.Step.give b d buf, (h.ducqSend h0 buf).2⟩
  | id d => exact ⟨b, Broker.Step.idle b, h.ducqId d⟩
  | log level functionName senderId fmt args =>
    obtain ⟨line, hline⟩ := @ducqReactorLog isCode env w b h level functionName senderId fmt args
    exact ⟨_, Broker.Step.note b line, hline⟩
  | pub d buffer size => exact h.pubCommand hvalid hfits.1 hfits.2 size
  | publish d buffer size => exact h.pubCommand hvalid hfits.1 hfits.2 size
  | sub d buffer => exact h.subCommand hvalid hfits
  | subscribe d buffer => exact h.subCommand hvalid hfits
  | unsub d buffer => exact h.unsub (hne d hvalid)

theorem init : Brokered isCode World.init (Broker.empty [] true) where
  simulated := ⟨tableInv_init, routesTerminated_init, refines_init⟩
  sent _ := rfl
  last := ⟨[], holds_init, Represents.empty⟩
  logging := rfl

theorem runOps {steps : List (Env × Op)} (h : Brokered isCode w b)
    (hvalid : ValidOps isCode steps w) (hfits : OpsFit steps w) :
    ∃ b', Broker.Run ducqRules b (steps.map fun step => (step.1.reach, step.2.request step.1))
        (published steps w) b' ∧
      Brokered isCode (runOps steps w) b' := by
  induction steps generalizing w b with
  | nil => exact ⟨b, Broker.Run.nil b, h⟩
  | cons step steps ih =>
    obtain ⟨b', hstep, h'⟩ := @Brokered.step isCode step.1 w b h step.2 hvalid.1 hfits.1
    obtain ⟨b'', hrun, h''⟩ := ih h' hvalid.2 hfits.2
    exact ⟨b'', Broker.Run.cons hstep hrun, h''⟩

end Brokered

/-- **The reactor with its commands is a broker.**  For every run of valid steps whose routes
and messages fit into their arrays there is a run of the broker with the same requests, in
which the same messages are published and every client is sent the same messages in the same
order; in the state it ends in, the clients, their patterns, the last messages and whether
lines are written are those of the reactor. -/
theorem reactor_refines_broker {steps : List (Env × Op)}
    (hvalid : ValidOps isCode steps World.init) (hfits : OpsFit steps World.init) :
    ∃ b, Broker.Run ducqRules (Broker.empty [] true)
        (steps.map fun step => (step.1.reach, step.2.request step.1))
        (published steps World.init) b ∧
      Brokered isCode (runOps steps World.init) b :=
  Brokered.init.runOps hvalid hfits

/-- A server, a publisher, two subscribers of whom the second one cannot be reached, and
two publications of which one has no room for its route. -/
def brokerRun : List (Env × Op) :=
  [(Env.quiet, .addServer 3 7 0), (Env.quiet, .addClient 4 100), (Env.quiet, .addClient 5 200),
    (Env.quiet, .addClient 6 300), (Env.quiet, .sub 100 (ascii "sub a*\n" ++ [0])),
    (Env.quiet, .sub 200 (ascii "sub a\nlast" ++ [0])),
    ({ Env.quiet with sendResult := fun d _ => if d = 200 then .ewrite else .ok },
      .pub 300 (ascii "pub a\nx" ++ [0]) 7),
    (Env.quiet, .pub 300 (ascii "pub" ++ [0]) 3)]

theorem reactor_refines_broker_brokerRun :
    published brokerRun World.init = [(ascii "a", ascii "pub a\nx")] ∧
      ∃ b, Broker.Run ducqRules (Broker.empty [] true)
          (brokerRun.map fun step => (step.1.reach, step.2.request step.1))
          (published brokerRun World.init) b ∧
        Brokered (· = 7) (runOps brokerRun World.init) b :=
  ⟨by decide, reactor_refines_broker (by decide) (by decide)⟩

end Ducq
