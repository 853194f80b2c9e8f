import Ducq.Reactor.Invariant

/-!
# Sending to the clients a predicate selects

Both loops that send, the publication of a message and the forwarding of a log line,
have the same hook but for what they select and what they send: a client that is not
selected is passed over, a client that cannot be reached is deleted, and a client that
was reached may be counted.  `sendToMatching` is that hook.

Deletions happen in the middle of the walk, and still nothing interferes with anything:
a turn at one slot changes no other slot, and it sends to a client no other slot holds.
So the whole loop is described by the world it starts from (`broadcast_spec`), slot by
slot and in the order of the slots.
-/

namespace Ducq

open CMemory CNumber Sweep

/-- A hook that sends to the clients whose route is selected and gives up those it
cannot reach. -/
def sendToMatching {σ : Type*} (env : Env) (selects : σ → List Byte → Bool)
    (message : σ → List Byte) (sent : σ → σ) : DucqLoopF σ := fun d route ctx w =>
  if ¬ selects ctx route then (ducqLoopContinue, ctx, w)
  else match ducqSend env d (message ctx) w with
    | (s, w) => if s ≠ .ok then (ducqLoopDelete, ctx, w) else (ducqLoopContinue, sent ctx, w)

section Slots

variable (env : Env) (selects : List Byte → Bool) (message : List Byte) (w : World)
  (i : Fin ducqMaxConnections)

/-- The slot holds a client whose route is selected. -/
def Selected : Prop := (w.conn i).IsClient ∧ selects (routePtr env w i) = true

/-- The next send to the slot's client succeeds. -/
def Reached : Prop :=
  env.sendResult (w.conn i).word (sendCount (w.conn i).word w.calls) = .ok

instance : Decidable (Selected env selects w i) := inferInstanceAs (Decidable (_ ∧ _))

instance : Decidable (Reached env w i) := inferInstanceAs (Decidable (_ = _))

/-- The calls made at a slot. -/
def slotCalls : List Call :=
  if Selected env selects w i then
    if Reached env w i then [.send (w.conn i).word message]
    else [.send (w.conn i).word message, .close (w.conn i).word, .free (w.conn i).word]
  else []

end Slots

variable {isCode : ℕ → Prop} {env : Env} {σ : Type*} {selects : σ → List Byte → Bool}
  {message : σ → List Byte} {sent : σ → σ}

/-- What is sent at a slot is the message to its client, and the slot is selected. -/
theorem selected_of_send_mem {env : Env} {selects : List Byte → Bool} {message buf : List Byte}
    {w : World} {i : Fin ducqMaxConnections} {d : DucqI}
    (h : Call.send d buf ∈ slotCalls env selects message w i) :
    Selected env selects w i ∧ (w.conn i).word = d ∧ message = buf := by
  unfold slotCalls at h
  split_ifs at h with hselected hreached
  · have hsend := Call.send.inj (List.mem_singleton.mp h)
    exact ⟨hselected, hsend.1.symm, hsend.2.symm⟩
  · rcases List.mem_cons.mp h with h | h
    · have hsend := Call.send.inj h
      exact ⟨hselected, hsend.1.symm, hsend.2.symm⟩
    · simp at h
  · simp at h

theorem sendCount_append (d : DucqI) (cs cs' : List Call) :
    sendCount d (cs ++ cs') = sendCount d cs + sendCount d cs' :=
  List.countP_append

/-- Calls to one client are no sends to another. -/
theorem sendCount_slotCalls {env : Env} {selects : List Byte → Bool} {message : List Byte}
    {w : World} {i : Fin ducqMaxConnections} {d : DucqI} (hd : (w.conn i).word ≠ d) :
    sendCount d (slotCalls env selects message w i) = 0 := by
  unfold slotCalls
  split_ifs <;> simp [sendCount, hd]

/-- A client is sent the message once, if at all. -/
theorem sendCount_flatMap_slotCalls {env : Env} {sel : List Byte → Bool} {msg : List Byte}
    {w : World} (h : TableInv isCode w) {i : Fin ducqMaxConnections} (hi : (w.conn i).IsClient)
    {is : List (Fin ducqMaxConnections)} (hnodup : is.Nodup) :
    sendCount (w.conn i).word (is.flatMap (slotCalls env sel msg w)) =
      if i ∈ is ∧ Selected env sel w i then 1 else 0 := by
  induction is with
  | nil => simp [sendCount]
  | cons j is ih =>
    rw [List.nodup_cons] at hnodup
    rw [List.flatMap_cons, sendCount_append, ih hnodup.2]
    by_cases hji : j = i
    · subst hji
      rw [if_neg fun hc => hnodup.1 hc.1, Nat.add_zero, slotCalls]
      by_cases hj : Selected env sel w j
      · have hmem : j ∈ j :: is ∧ Selected env sel w j := ⟨List.mem_cons_self, hj⟩
        rw [if_pos hj, if_pos hmem]
        split_ifs
        · simp [sendCount]
        · simp [sendCount]
      · rw [if_neg hj, if_neg fun hc => hj hc.2]
        rfl
    · have hother : sendCount (w.conn i).word (slotCalls env sel msg w j) = 0 := by
        by_cases hj : Selected env sel w j
        · exact sendCount_slotCalls fun hword => hji (h.unique hj.1 hi hword)
        · rw [slotCalls, if_neg hj]
          rfl
      rw [hother, Nat.zero_add]
      refine if_congr ?_ rfl rfl
      rw [List.mem_cons, or_iff_right (Ne.symm hji)]

theorem reactor_connectionFree (i : Fin ducqMaxConnections) (w : World) :
    (connectionFree i w).reactor =
      { w.reactor with connections := (connectionFree i w).reactor.connections } := by
  unfold connectionFree ducqCloseFree
  dsimp only
  split_ifs <;> rfl

theorem calls_connectionFree {i : Fin ducqMaxConnections} {w : World}
    (hi : (w.conn i).IsClient) (h0 : (w.conn i).word ≠ 0) :
    (connectionFree i w).calls =
      w.calls ++ [.close (w.conn i).word, .free (w.conn i).word] := by
  rw [connectionFree, if_neg hi.1]
  dsimp only
  rw [if_pos hi.2, ducqCloseFree, if_neg h0]
  rfl

/-- A turn at a slot that is not selected does nothing. -/
theorem broadcast_turn_idle {w : World} {i : Fin ducqMaxConnections} {ctx : σ}
    (hnot : ¬ Selected env (selects ctx) w i) (control : ℕ) :
    ∃ control', loopTurn (loopThroughClient env (sendToMatching env selects message sent)) i
      (control, ctx, w) = (false, control', ctx, w) := by
  rw [loopTurn]
  by_cases hfd : (w.conn i).fd = -1
  · exact ⟨control, if_pos hfd⟩
  · rw [if_neg hfd]
    refine ⟨ducqLoopContinue, ?_⟩
    by_cases htype : (w.conn i).type = .client
    · have hsel : ¬ selects ctx (routePtr env w i) = true := fun hsel => hnot ⟨⟨hfd, htype⟩, hsel⟩
      simp [loopThroughClient, htype, sendToMatching, hsel]
    · simp [loopThroughClient, htype]

/-- **One turn** touches its own slot and its own client. -/
theorem broadcast_turn {w : World} (h : TableInv isCode w) (i : Fin ducqMaxConnections)
    (control : ℕ) (ctx : σ) :
    ∃ control' w', loopTurn (loopThroughClient env (sendToMatching env selects message sent)) i
        (control, ctx, w) = (false, control',
          if Selected env (selects ctx) w i ∧ Reached env w i then sent ctx else ctx, w') ∧
      (∀ j, w'.conn j =
        if j = i ∧ Selected env (selects ctx) w i ∧ ¬ Reached env w i then (w.conn i).freed
        else w.conn j) ∧
      w'.calls = w.calls ++ slotCalls env (selects ctx) (message ctx) w i ∧
      w'.reactor = { w.reactor with connections := w'.reactor.connections } := by
  by_cases hselected : Selected env (selects ctx) w i
  · have hclient := hselected.1
    have hsel := hselected.2
    have h0 := h.client_ne_zero i hclient
    by_cases hreached : Reached env w i
    · refine ⟨ducqLoopContinue, w.record [.send (w.conn i).word (message ctx)],
        ?_, fun j => ?_, ?_, rfl⟩
      · rw [loopTurn, if_neg hclient.1, if_pos ⟨hselected, hreached⟩]
        have hsend : env.sendResult (w.conn i).word (sendCount (w.conn i).word w.calls) = .ok :=
          hreached
        simp [loopThroughClient, hclient.2, sendToMatching, hsel, ducqSend, h0, hsend]
      · rw [if_neg fun hc => hc.2.2 hreached, World.conn_record]
      · rw [slotCalls, if_pos hselected, if_pos hreached, World.calls_record]
    · have hclient' : ((w.record [.send (w.conn i).word (message ctx)]).conn i).IsClient :=
        hclient
      refine ⟨ducqLoopDelete,
        connectionFree i (w.record [.send (w.conn i).word (message ctx)]), ?_, fun j => ?_, ?_,
        reactor_connectionFree i _⟩
      · rw [loopTurn, if_neg hclient.1, if_neg fun hc => hreached hc.2]
        have hsend : env.sendResult (w.conn i).word (sendCount (w.conn i).word w.calls) ≠ .ok :=
          hreached
        simp [loopThroughClient, hclient.2, sendToMatching, hsel, ducqSend, h0, hsend]
      · rw [conn_connectionFree]
        exact if_congr ⟨fun hj => ⟨hj, hselected, hreached⟩, fun hj => hj.1⟩ rfl rfl
      · rw [calls_connectionFree hclient' h0, slotCalls, if_pos hselected, if_neg hreached,
          World.calls_record, World.conn_record, List.append_assoc]
        rfl
  · obtain ⟨control', hturn⟩ :=
      @broadcast_turn_idle env σ selects message sent w i ctx hselected control
    refine ⟨control', w, ?_, fun j => ?_, ?_, rfl⟩
    · rw [hturn, if_neg fun hc => hselected hc.1]
    · rw [if_neg fun hc => hselected hc.2.1]
    · rw [slotCalls, if_neg hselected, List.append_nil]

/-- Whether a slot is selected depends on the slot alone. -/
theorem selected_congr {w w' : World} {i : Fin ducqMaxConnections}
    (h : w'.conn i = w.conn i) (env : Env) (sel : List Byte → Bool) :
    Selected env sel w' i ↔ Selected env sel w i := by
  rw [Selected, Selected, routePtr, routePtr, h]

/-- A turn at another slot leaves a slot's part in the loop as it was. -/
theorem slot_congr {w w' : World} {sel : List Byte → Bool} {msg : List Byte}
    (h : TableInv isCode w) {i j : Fin ducqMaxConnections} (hji : j ≠ i)
    (hconn : w'.conn j = w.conn j)
    (hcalls : w'.calls = w.calls ++ slotCalls env sel msg w i) :
    (Selected env sel w' j ↔ Selected env sel w j) ∧
      (Selected env sel w j → (Reached env w' j ↔ Reached env w j)) ∧
      slotCalls env sel msg w' j = slotCalls env sel msg w j := by
  have hselected := selected_congr hconn env sel
  have hreached : Selected env sel w j → (Reached env w' j ↔ Reached env w j) := by
    intro hj
    have hcount : sendCount (w.conn j).word w'.calls = sendCount (w.conn j).word w.calls := by
      rw [hcalls, sendCount_append]
      by_cases hi : Selected env sel w i
      · rw [sendCount_slotCalls fun hword => hji (h.unique hi.1 hj.1 hword).symm, Nat.add_zero]
      · rw [slotCalls, if_neg hi]
        rfl
    rw [Reached, Reached, hconn, hcount]
  refine ⟨hselected, hreached, ?_⟩
  by_cases hj : Selected env sel w j
  · rw [slotCalls, slotCalls, if_pos (hselected.mpr hj), if_pos hj, hconn]
    exact if_congr (hreached hj) rfl rfl
  · rw [slotCalls, slotCalls, if_neg fun hc => hj (hselected.mp hc), if_neg hj]

/-- The loop from some slot on.  The induction is on the slots still to come; what is
known about each of them survives the turn before it. -/
theorem broadcast_sweep (hsel : ∀ c, selects (sent c) = selects c)
    (hmsg : ∀ c, message (sent c) = message c) {is : List (Fin ducqMaxConnections)}
    (hnodup : is.Nodup) {w : World} (h : TableInv isCode w) (control : ℕ) (ctx : σ) :
    ∃ control' w', sweep (loopTurn (loopThroughClient env (sendToMatching env selects message
        sent))) is (control, ctx, w) = (control',
          sent^[is.countP fun i => Selected env (selects ctx) w i ∧ Reached env w i] ctx, w') ∧
      (∀ j, w'.conn j =
        if j ∈ is ∧ Selected env (selects ctx) w j ∧ ¬ Reached env w j then (w.conn j).freed
        else w.conn j) ∧
      w'.calls = w.calls ++ is.flatMap (slotCalls env (selects ctx) (message ctx) w) ∧
      w'.reactor = { w.reactor with connections := w'.reactor.connections } := by
  induction is generalizing w control ctx with
  | nil =>
    exact ⟨control, w, rfl, fun j => by simp, (List.append_nil _).symm, rfl⟩
  | cons i is ih =>
    rw [List.nodup_cons] at hnodup
    obtain ⟨control₁, w₁, hturn, hconn₁, hcalls₁, hreactor₁⟩ :=
      @broadcast_turn isCode env σ selects message sent w h i control ctx
    have hother : ∀ j, j ≠ i → w₁.conn j = w.conn j := fun j hj => by
      rw [hconn₁, if_neg fun hc => hj hc.1]
    have hfrees : OnlyFrees w w₁ := by
      intro j
      rw [hconn₁]
      split_ifs with hj
      · rw [hj.1]
        exact Or.inr rfl
      · exact Or.inl rfl
    set ctx₁ := if Selected env (selects ctx) w i ∧ Reached env w i then sent ctx else ctx
      with hctx₁
    have hsel₁ : selects ctx₁ = selects ctx := by
      rw [hctx₁]
      split_ifs
      · exact hsel ctx
      · rfl
    have hmsg₁ : message ctx₁ = message ctx := by
      rw [hctx₁]
      split_ifs
      · exact hmsg ctx
      · rfl
    have hne : ∀ j ∈ is, j ≠ i := fun j hj hji => hnodup.1 (hji ▸ hj)
    have hslot : ∀ j ∈ is, _ := fun j hj =>
      slot_congr h (hne j hj) (hother j (hne j hj)) hcalls₁
    obtain ⟨control', w', hrun, hconn, hcalls, hreactor⟩ :=
      ih hnodup.2 (h.onlyFrees hfrees) control₁ ctx₁
    rw [hsel₁] at hrun hconn hcalls
    rw [hmsg₁] at hcalls
    refine ⟨control', w', ?_, fun j => ?_, ?_, ?_⟩
    · have hcount : is.countP (fun j => Selected env (selects ctx) w₁ j ∧ Reached env w₁ j) =
          is.countP fun j => Selected env (selects ctx) w j ∧ Reached env w j := by
        refine List.countP_congr fun j hj => ?_
        rw [decide_eq_true_iff, decide_eq_true_iff, (hslot j hj).1]
        exact and_congr_right (hslot j hj).2.1
      rw [sweep_cons_go (by rw [hturn]), hturn, hrun, hcount, List.countP_cons, hctx₁]
      by_cases hi : Selected env (selects ctx) w i ∧ Reached env w i
      · rw [if_pos hi, if_pos (decide_eq_true hi), Function.iterate_succ_apply]
      · rw [if_neg hi, if_neg fun hc => hi (of_decide_eq_true hc), Nat.add_zero]
    · by_cases hji : j = i
      · subst hji
        rw [hconn, if_neg fun hc => hnodup.1 hc.1, hconn₁]
        refine if_congr ?_ rfl rfl
        simp
      · rw [hconn, hother j hji]
        by_cases hj : j ∈ is
        · refine if_congr ?_ rfl rfl
          rw [(hslot j hj).1, List.mem_cons, or_iff_right hji]
          refine and_congr_right fun _ => and_congr_right fun hs => ?_
          rw [(hslot j hj).2.1 hs]
        · rw [if_neg fun hc => hj hc.1,
            if_neg fun hc => (List.mem_cons.mp hc.1).elim hji hj]
    · rw [hcalls, hcalls₁, List.append_assoc, List.flatMap_cons]
      congr 2
      exact List.flatMap_congr fun j hj => (hslot j hj).2.2
    · rw [hreactor, hreactor₁]

/-- **The whole loop.**  Every selected client is sent the message, in the order of the
slots; those that could not be reached are closed, freed and gone; nothing else
happens, and the context has counted the others. -/
theorem broadcast_spec (hsel : ∀ c, selects (sent c) = selects c)
    (hmsg : ∀ c, message (sent c) = message c) {w : World} (h : TableInv isCode w) (ctx : σ) :
    ∃ control' w', ducqReactorLoop env (sendToMatching env selects message sent) ctx w =
        (control', sent^[(List.finRange ducqMaxConnections).countP fun i =>
          Selected env (selects ctx) w i ∧ Reached env w i] ctx, w') ∧
      (∀ j, w'.conn j =
        if Selected env (selects ctx) w j ∧ ¬ Reached env w j then (w.conn j).freed
        else w.conn j) ∧
      w'.calls = w.calls ++ (List.finRange ducqMaxConnections).flatMap
        (slotCalls env (selects ctx) (message ctx) w) ∧
      w'.reactor = { w.reactor with connections := w'.reactor.connections } := by
  obtain ⟨control', w', hrun, hconn, hcalls, hreactor⟩ :=
    @broadcast_sweep isCode env σ selects message sent hsel hmsg _
      (List.nodup_finRange ducqMaxConnections) w h ducqLoopContinue ctx
  refine ⟨control', w', hrun, fun j => ?_, hcalls, hreactor⟩
  rw [hconn]
  simp

/-- A loop that sends only gives slots up. -/
theorem onlyFrees_sendToMatching (d : DucqI) (route : List Byte) (ctx : σ) (w : World) :
    OnlyFrees w (sendToMatching env selects message sent d route ctx w).2.2 := by
  unfold sendToMatching ducqSend
  dsimp only
  split_ifs <;> exact OnlyFrees.refl w

end Ducq
