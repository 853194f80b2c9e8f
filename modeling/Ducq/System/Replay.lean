import Ducq.System.Rows

/-!
# Whether a replay is what was broadcast

A client that subscribes with the payload `last` is sent the last message of its route in
place of an acknowledgement.  The broadcast sent a buffer and its size; the replay sends
a string that went into a row with `strncpy` and comes out with `strlen`.  The row keeps
what it has until its route is published again: another route that is as long never meets
it, and a longer one, which is stored under a string of its own, does not either.

So the two agree on every message without a NUL, and on no other.
-/

namespace Ducq

open CMemory CPrintf FirstFit

/-- The step is a publication on the route. -/
def Op.Publishes (r : List Byte) : Op → Prop
  | pub _ buffer _ | publish _ buffer _ => HasRoute buffer r
  | _ => False

/-- A step that does not publish on the route. -/
def QuietStep (isCode : ℕ → Prop) (r : List Byte) (w w' : World) : Prop :=
  ∃ env op, Op.Valid isCode w op ∧ op.Delivered ∧ ¬ op.Publishes r ∧ op.run env w = w'

/-- `sub R\nlast`. -/
def lastRequest (r : List Byte) : List Byte :=
  ascii "sub" ++ space :: (r ++ newline :: (ascii "last" ++ [0]))

/-- The answer to the subscription with `last` is the message. -/
def Replays (env : Env) (d : DucqI) (r : List Byte) (w : World) (message : List Byte) : Prop :=
  ∃ new, (sub env d (lastRequest r) w).2.calls = w.calls ++ .send d message :: new

variable {isCode : ℕ → Prop} {env : Env} {functionName : List Byte} {w w' : World}
  {r : List Byte}

/-! ## What is answered -/

/-- The request parses into its route and `last`. -/
theorem subCommand_lastRequest (hr : newline ∉ r) (hr0 : (0 : Byte) ∉ r) (d : DucqI) (w : World) :
    subCommand env functionName d (lastRequest r) w =
      subRoute env functionName d (r ++ 0 :: (ascii "last" ++ [0]))
        (some (ascii "last" ++ [0])) w := by
  set last := ascii "last" ++ [0]
  have hroute : strchr space (lastRequest r) = some (space :: (r ++ newline :: last)) :=
    strchr_append (by decide) (by decide) _
  have hparse : ducqParseRoute (lastRequest r) none =
      (some (r ++ newline :: last), some (newline :: last)) := by
    rw [ducqParseRoute, if_neg (by show ¬ some _ = some space; decide), hroute]
    dsimp only
    rw [List.tail_cons, strchr_append hr0 hr]
    rfl
  have hbuffer : lastRequest r = (ascii "sub" ++ space :: r) ++ newline :: last := by
    rw [lastRequest, List.append_assoc, List.cons_append]
  have hsub0 : (0 : Byte) ∉ ascii "sub" ++ space :: r := by
    rw [List.mem_append, List.mem_cons, not_or, not_or]
    exact ⟨by decide, by decide, hr0⟩
  have hsub : newline ∉ ascii "sub" ++ space :: r := by
    rw [List.mem_append, List.mem_cons, not_or, not_or]
    exact ⟨by decide, by decide, hr⟩
  have hpayload : ducqParsePayload (lastRequest r) = some last := by
    rw [ducqParsePayload, hbuffer, strchr_append hsub0 hsub]
    rfl
  have hroute' : cutAt (lastRequest r) (newline :: last) (r ++ newline :: last) =
      r ++ 0 :: last := by
    have hcut := cutAt_route (ascii "sub" ++ [space]) r last
    rwa [← List.append_cons] at hcut
  have hlast' : cutAt (lastRequest r) (newline :: last) last = last := by
    rw [hbuffer]
    exact cutAt_payload _ _
  rw [subCommand, hparse, hpayload]
  dsimp only
  rw [Option.map_some, hroute', hlast']

/-- **What a subscription with `last` is answered.** -/
theorem replays_iff (h : TableInv isCode w) {d : DucqI} (hd : Registered w d)
    {l : List (List Byte × List Byte)} (hw : Holds w l) {m : List Byte} (hfind : find r l = some m)
    (hr : newline ∉ r) (hr0 : (0 : Byte) ∉ r) (message : List Byte) :
    Replays env d r w message ↔ m = message := by
  obtain ⟨i, hi, rfl⟩ := hd
  set route := r ++ 0 :: (ascii "last" ++ [0]) with hroute
  set wₛ := w.setConn i { w.conn i with bytes := CharArray.strncpy _ route }
  have hget : ducqGetLastMsg wₛ route = m := by
    have hwₛ : Holds wₛ l := hw.congr rfl
    rw [hwₛ.get_eq, hroute, cstr_append_zero hr0, hfind]
    rfl
  have hack : subAcknowledge env (w.conn i).word route (some (ascii "last" ++ [0])) .ok wₛ =
      ducqSend env (w.conn i).word m wₛ := by
    rw [subAcknowledge, if_neg (by decide), if_pos (by decide), hget]
  obtain ⟨ackState, hsend⟩ : ∃ ackState, ducqSend env (w.conn i).word m wₛ =
      (ackState, wₛ.record [.send (w.conn i).word m]) := by
    rw [ducqSend, if_neg (h.client_ne_zero i hi)]
    exact ⟨_, rfl⟩
  have hrun : (sub env (w.conn i).word (lastRequest r) w).2 =
      subConclude env (ascii "sub") (w.conn i).word route ackState
        (wₛ.record [.send (w.conn i).word m]) := by
    rw [sub, subCommand_lastRequest hr hr0, subRoute, h.subscribe_eq hi]
    dsimp only
    rw [if_neg (by decide), hack, hsend]
  obtain ⟨new, hnew⟩ := (@LeavesRows.subConclude env (ascii "sub") (w.conn i).word route ackState
    (wₛ.record [.send (w.conn i).word m])).calls
  rw [World.calls_record, List.append_assoc] at hnew
  rw [Replays, hrun, ← hnew]
  constructor
  · rintro ⟨new', heq⟩
    have hcons := List.append_cancel_left heq
    exact (Call.send.inj (List.cons.inj hcons).1).2
  · rintro rfl
    exact ⟨new, rfl⟩

/-! ## What a row keeps -/

/-- **A row keeps its message until its route is published again.** -/
theorem find_of_quietStep (hshort : ¬ IsLong r)
    {l : List (List Byte × List Byte)} (hw : Holds w l) {m : List Byte} (hfind : find r l = some m)
    (hstep : QuietStep isCode r w w') : ∃ l', Holds w' l' ∧ find r l' = some m := by
  obtain ⟨env, op, -, hop, hquiet, rfl⟩ := hstep
  have hpub : ∀ buffer, (cstr buffer).length < ducqMsgsz → ¬ HasRoute buffer r →
      ∃ l', Holds (pubStore env buffer w) l' ∧ find r l' = some m := by
    intro buffer hbuffer hnot
    by_cases hroute : ∃ r', HasRoute buffer r' ∧ env.strndup r' = true
    · obtain ⟨r', hr', hmem⟩ := hroute
      refine ⟨_, hw.pubStore hr' hmem hbuffer, ?_⟩
      have hne : r ≠ r' := fun heq => hnot (heq ▸ hr')
      rw [setEntries]
      split_ifs
      · rw [find_write_of_ne hne (storedEntry_ne hne hshort), hfind]
      · exact hfind
    · rw [pubStore_eq_self hroute]
      exact ⟨l, hw, hfind⟩
  have hstore : ∃ l', Holds (op.store env w) l' ∧ find r l' = some m := by
    cases op with
    | setLastMsg route msg => exact hop.elim
    | pub d buffer size => exact hpub buffer hop hquiet
    | publish d buffer size => exact hpub buffer hop hquiet
    | _ => exact ⟨l, hw, hfind⟩
  obtain ⟨l', hw', hfind'⟩ := hstore
  exact ⟨l', hw'.congr (op.leavesRows_run env w).rows, hfind'⟩

/-- The same along a run. -/
theorem find_of_quietRun (hshort : ¬ IsLong r) (h : TableInv isCode w)
    {l : List (List Byte × List Byte)} (hw : Holds w l) {m : List Byte} (hfind : find r l = some m)
    (hrun : Relation.ReflTransGen (QuietStep isCode r) w w') :
    TableInv isCode w' ∧ ∃ l', Holds w' l' ∧ find r l' = some m := by
  induction hrun with
  | refl => exact ⟨h, l, hw, hfind⟩
  | tail _ hstep ih =>
    obtain ⟨h', l', hw', hfind'⟩ := ih
    refine ⟨?_, find_of_quietStep hshort hw' hfind' hstep⟩
    obtain ⟨env, op, hvalid, -, -, rfl⟩ := hstep
    exact Op.run_tableInv h' hvalid

/-- **A publication that is accepted is found under its route**, if there is a row. -/
theorem find_of_pub {l : List (List Byte × List Byte)} (hw : Holds w l) {buffer : List Byte}
    (hr : HasRoute buffer r) (hne : r ≠ []) (hshort : ¬ IsLong r)
    (hmem : env.strndup r = true) (hbuffer : (cstr buffer).length < ducqMsgsz)
    (hroom : lastMsgRow w (r ++ [0]) ≠ none) (d : DucqI) (size : ℕ) :
    ∃ l', Holds (pub env d buffer size w).2 l' ∧ find r l' = some (cstr buffer) := by
  have hstored := hw.pubStore hr hmem hbuffer
  have hpos : position r l < ducqMaxChannels := by
    rw [hw.lastMsgRow_eq, cstr_append_zero hr.zero_notMem] at hroom
    by_contra hfull
    exact hroom (dif_neg hfull)
  have hkey : (storedEntry r (cstr buffer)).1 = r := by
    rw [storedEntry_of_short hshort]
  refine ⟨_, hstored.congr (LeavesRows.pubCommand d buffer size w).rows, ?_⟩
  rw [setEntries, if_pos ⟨hpos, hne⟩, find_write hkey, if_pos rfl, storedEntry]

/-! ## Live and replayed -/

/-- **The replay is the broadcast exactly if the message holds no NUL.**  A publication of
the message `m` on a route of 1 to 99 bytes was accepted while there was a row for the
route.  Whatever its broadcast sent is `m`; and after any steps that do not publish on
the route, a client that subscribes with `last` is answered `m` if and only if there is
no NUL in it. -/
theorem replay_eq_broadcast_iff (hw : Served isCode w) {p : DucqI} (hp : Registered w p)
    {buffer m q : List Byte} (hbuffer : buffer = m ++ 0 :: q) (hm : m.length < ducqMsgsz)
    (hr : HasRoute buffer r) (hne : r ≠ []) (hlen : r.length < ducqMaxRouteLen)
    (hroom : lastMsgRow w (r ++ [0]) ≠ none) (hok : (pub env p buffer m.length w).1 = .ok)
    (hrun : Relation.ReflTransGen (QuietStep isCode r) (pub env p buffer m.length w).2 w')
    {env' : Env} {d : DucqI} (hd : Registered w' d) :
    (∀ d' message, BroadcastSends env (ascii "pub") p buffer m.length w d' message →
        message = m) ∧
      (Replays env' d r w' m ↔ (0 : Byte) ∉ m) := by
  have hinv := hw.reachable.tableInv
  have hshort : ¬ IsLong r := not_le.mpr hlen
  refine ⟨fun d' message hsends => ?_, ?_⟩
  · obtain ⟨hmessage, -⟩ := hsends.exists_selected hinv hp
    rw [hmessage, hbuffer, List.take_left]
  · have hstring : cstr buffer = cstr m := by rw [hbuffer, cstr_append_zero_cons]
    have hfits : (cstr buffer).length < ducqMsgsz := by
      rw [hstring]
      exact (length_cstr_le m).trans_lt hm
    obtain ⟨k, hk, rfl⟩ := hp
    have haccepted := hok
    rw [pub, pubCommand_eq_ok_iff (hinv.client_ne_zero k hk)] at haccepted
    obtain ⟨⟨r', hr', hmem⟩, -⟩ := haccepted
    rw [hr.unique hr'] at hmem
    obtain ⟨l, hl, -⟩ := hw.holdsCut
    obtain ⟨l₁, hl₁, hfind₁⟩ :=
      find_of_pub hl hr hne hshort hmem hfits hroom (w.conn k).word m.length
    have hinv₁ := hinv.onlyFrees
      (@onlyFrees_pubCommand env (ascii "pub") (w.conn k).word buffer m.length w)
    obtain ⟨hinv', l', hl', hfind'⟩ := find_of_quietRun hshort hinv₁ hl₁ hfind₁ hrun
    rw [replays_iff hinv' hd hl' hfind' hr.newline_notMem hr.zero_notMem, hstring, cstr_eq_self_iff]

/-- Two clients, the second one on the route `a`. -/
def listener : List (Env × Op) :=
  [(Env.quiet, .addClient 4 100), (Env.quiet, .addClient 5 200),
    (Env.quiet, .subscribeTo 200 (ascii "a"))]

theorem served_listener : Served (fun _ => False) (runOps listener World.init) :=
  Served.runOps Relation.ReflTransGen.refl (by decide) (by decide)

/-- The first one publishes text, and reads it back. -/
theorem replay_eq_broadcast_text :
    Replays Env.quiet 100 (ascii "a")
      (pub Env.quiet 100 (ascii "pub a\nx" ++ 0 :: []) 7 (runOps listener World.init)).2
      (ascii "pub a\nx") := by
  have hr : HasRoute (ascii "pub a\nx" ++ 0 :: []) (ascii "a") := ⟨_, _, rfl, rfl⟩
  exact (@replay_eq_broadcast_iff (fun _ => False) Env.quiet _ _ (ascii "a") served_listener 100
    (by decide) _ (ascii "pub a\nx") [] rfl (by decide) hr (by decide) (by decide) (by decide)
    (by decide) Relation.ReflTransGen.refl Env.quiet 100 (by decide)).2.mpr (by decide)

/-- A message with a NUL in its payload. -/
def messageWithNul : List Byte := ascii "pub a\nx" ++ 0 :: ascii "y"

/-- **A payload with a NUL is broadcast whole and replayed in part.** -/
theorem not_replays_messageWithNul :
    Served (fun _ => False) (runOps listener World.init) ∧
      Registered (runOps listener World.init) 100 ∧
      messageWithNul.length < ducqMsgsz ∧
      (pub Env.quiet 100 (messageWithNul ++ [0]) 9 (runOps listener World.init)).1 = .ok ∧
      BroadcastSends Env.quiet (ascii "pub") 100 (messageWithNul ++ [0]) 9
        (runOps listener World.init) 200 messageWithNul ∧
      ¬ Replays Env.quiet 100 (ascii "a")
        (pub Env.quiet 100 (messageWithNul ++ [0]) 9 (runOps listener World.init)).2
        messageWithNul := by
  refine ⟨served_listener, by decide, by decide, by decide, ?_, ?_⟩
  · exact ⟨by decide, [.send 200 messageWithNul], by decide, by decide⟩
  · rintro ⟨new, hnew⟩
    have hcalls : (sub Env.quiet 100 (lastRequest (ascii "a"))
        (pub Env.quiet 100 (messageWithNul ++ [0]) 9 (runOps listener World.init)).2).2.calls =
        (pub Env.quiet 100 (messageWithNul ++ [0]) 9 (runOps listener World.init)).2.calls ++
          [.send 100 (ascii "pub a\nx"), .id 100] := by decide
    have hcons := List.append_cancel_left (hcalls.symm.trans hnew)
    exact absurd (Call.send.inj (List.cons.inj hcons).1).2 (by decide)

end Ducq
