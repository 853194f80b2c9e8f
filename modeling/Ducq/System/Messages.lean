import Ducq.Commands.Unsub

/-!
# The messages a client has been sent

The calls of a run hold what every client was sent (`messagesTo`).  A broadcast sends its
message once to each client it selects, for no two slots hold one client; giving slots up and
asking for ids sends nothing.  Beside the calls and the slots, loops leave the reactor as it
is (`LeavesRest`).
-/

namespace Ducq

open CMemory CPrintf

/-- What a client has been sent, in order. -/
def messagesTo (d : DucqI) (cs : List Call) : List (List Byte) :=
  cs.filterMap fun c => match c with
    | .send d' m => if d' = d then some m else none
    | _ => none

variable {isCode : ℕ → Prop} {env : Env} {w w' : World}

/-! ## Messages -/

theorem messagesTo_append (d : DucqI) (cs cs' : List Call) :
    messagesTo d (cs ++ cs') = messagesTo d cs ++ messagesTo d cs' := List.filterMap_append

theorem messagesTo_send (d d' : DucqI) (m : List Byte) :
    messagesTo d [.send d' m] = if d' = d then [m] else [] := by
  by_cases hd : d' = d
  · simp [messagesTo, hd]
  · simp [messagesTo, hd]

/-- As many sends as messages. -/
theorem sendCount_eq_length (d : DucqI) (cs : List Call) :
    sendCount d cs = (messagesTo d cs).length := by
  induction cs with
  | nil => rfl
  | cons c cs ih =>
    have hone : sendCount d [c] = (messagesTo d [c]).length := by
      cases c with
      | send d' m =>
        rw [messagesTo_send]
        by_cases hd : d' = d
        · rw [if_pos hd]
          simp [sendCount, hd]
        · rw [if_neg hd]
          simp [sendCount, hd]
      | _ => rfl
    rw [← List.singleton_append, sendCount_append, messagesTo_append, List.length_append, ih, hone]

/-- What is sent at a slot goes to its client. -/
theorem messagesTo_slotCalls (d : DucqI) (sel : List Byte → Bool) (m : List Byte)
    (i : Fin ducqMaxConnections) :
    messagesTo d (slotCalls env sel m w i) =
      if Selected env sel w i ∧ (w.conn i).word = d then [m] else [] := by
  unfold slotCalls
  by_cases hi : Selected env sel w i
  · have hone : ∀ c, messagesTo d (.send (w.conn i).word m :: c) =
        (if (w.conn i).word = d then [m] else []) ++ messagesTo d c := fun c => by
      rw [← List.singleton_append, messagesTo_append, messagesTo_send]
    rw [if_pos hi]
    simp only [and_iff_right hi]
    split_ifs with hreached hd hd <;> rw [hone]
    · rw [if_pos hd]
      rfl
    · rw [if_neg hd]
      rfl
    · rw [if_pos hd]
      rfl
    · rw [if_neg hd]
      rfl
  · rw [if_neg hi, if_neg fun hc => hi hc.1]
    rfl

/-- **What a broadcast sends to a client**: the message, if it is selected. -/
theorem messagesTo_flatMap_slotCalls (h : TableInv isCode w) (d : DucqI) (sel : List Byte → Bool)
    (m : List Byte) {is : List (Fin ducqMaxConnections)} (hnodup : is.Nodup) :
    messagesTo d (is.flatMap (slotCalls env sel m w)) =
      if ∃ i ∈ is, Selected env sel w i ∧ (w.conn i).word = d then [m] else [] := by
  induction is with
  | nil => simp [messagesTo]
  | cons j is ih =>
    rw [List.nodup_cons] at hnodup
    rw [List.flatMap_cons, messagesTo_append, ih hnodup.2, messagesTo_slotCalls]
    by_cases hj : Selected env sel w j ∧ (w.conn j).word = d
    · -- nobody else is this client
      have hrest : ¬ ∃ i ∈ is, Selected env sel w i ∧ (w.conn i).word = d := by
        rintro ⟨i, hi, hsel, hword⟩
        exact hnodup.1 (h.unique hj.1.1 hsel.1 (hj.2.trans hword.symm) ▸ hi)
      rw [if_pos hj, if_neg hrest, if_pos ⟨j, List.mem_cons_self, hj⟩, List.append_nil]
    · rw [if_neg hj, List.nil_append]
      refine if_congr ?_ rfl rfl
      constructor
      · rintro ⟨i, hi, hsel⟩
        exact ⟨i, List.mem_cons_of_mem j hi, hsel⟩
      · rintro ⟨i, hi, hsel⟩
        rcases List.mem_cons.mp hi with rfl | hi
        · exact absurd hsel hj
        · exact ⟨i, hi, hsel⟩

/-- Nobody is sent anything when a slot is given up. -/
theorem messagesTo_connectionFree (d : DucqI) (i : Fin ducqMaxConnections) (w : World) :
    messagesTo d (connectionFree i w).calls = messagesTo d w.calls := by
  have hquiet : ∀ d', messagesTo d (w.calls ++ [.close d', .free d']) = messagesTo d w.calls :=
    fun d' => by
      rw [messagesTo_append]
      exact List.append_nil _
  unfold connectionFree ducqCloseFree
  dsimp only
  split_ifs
  · rfl
  · rfl
  · exact hquiet _
  · rfl

theorem messagesTo_ducqReactorLoop {σ : Type*} {apply : DucqLoopF σ} (d : DucqI)
    (happly : ∀ d' r c w, messagesTo d (apply d' r c w).2.2.calls = messagesTo d w.calls) (ctx : σ)
    (w : World) :
    messagesTo d (ducqReactorLoop env apply ctx w).2.2.calls = messagesTo d w.calls := by
  refine @ducqReactorLoop_invariant _ (fun w' => messagesTo d w'.calls = messagesTo d w.calls)
    env apply (fun i w' hw' => ?_) (fun d' r c w' hw' => ?_) ctx w rfl
  · rw [messagesTo_connectionFree, hw']
  · rw [happly, hw']

theorem messagesTo_ducqReactorDelete (d d' : DucqI) (w : World) :
    messagesTo d' (ducqReactorDelete env d w).2.calls = messagesTo d' w.calls := by
  unfold ducqReactorDelete
  split_ifs
  · rfl
  · exact messagesTo_ducqReactorLoop d' (fun _ _ _ _ => rfl) d w

/-- The loop of `unsub` asks for ids. -/
theorem messagesTo_unsubscribeHook (d d' : DucqI) (route : List Byte) (ctx : UnsubCtx)
    (w : World) :
    messagesTo d (unsubscribeHook env d' route ctx w).2.2.calls = messagesTo d w.calls := by
  have hquiet : ∀ cs, messagesTo d cs = [] → messagesTo d (w.calls ++ cs) = messagesTo d w.calls :=
    fun cs hcs => by rw [messagesTo_append, hcs, List.append_nil]
  unfold unsubscribeHook ducqId
  by_cases h0 : d' = 0
  · rw [if_pos h0]
    exact hquiet [.undefined] rfl
  · rw [if_neg h0]
    dsimp only
    split_ifs
    · exact hquiet [.id d'] rfl
    · exact hquiet [.id d'] rfl

/-! ## What only changes slots -/

/-- Slots were given up and calls made, and nothing else of the reactor has changed. -/
def LeavesRest (w w' : World) : Prop :=
  w'.reactor = { w.reactor with connections := w'.reactor.connections }

namespace LeavesRest

theorem refl (w : World) : LeavesRest w w := rfl

theorem trans {w'' : World} (h : LeavesRest w w') (h' : LeavesRest w' w'') :
    LeavesRest w w'' := by
  rw [LeavesRest, h', h]

theorem ducqSend (d : DucqI) (buf : List Byte) (w : World) :
    LeavesRest w (ducqSend env d buf w).2 := by
  rw [LeavesRest, reactor_ducqSend]

theorem ducqId (d : DucqI) (w : World) : LeavesRest w (ducqId env d w).2 := by
  rw [LeavesRest, reactor_ducqId]

theorem ducqReactorLoop {σ : Type*} {apply : DucqLoopF σ}
    (happly : ∀ d r c w, LeavesRest w (apply d r c w).2.2) (ctx : σ) (w : World) :
    LeavesRest w (ducqReactorLoop env apply ctx w).2.2 :=
  ducqReactorLoop_invariant (fun i w' hw' => hw'.trans (reactor_connectionFree i w'))
    (fun d r c w' hw' => hw'.trans (happly d r c w')) ctx (refl w)

theorem ducqReactorDelete (d : DucqI) (w : World) :
    LeavesRest w (ducqReactorDelete env d w).2 := by
  unfold Ducq.ducqReactorDelete
  split_ifs
  · exact refl w
  · exact ducqReactorLoop (fun _ _ _ w => refl w) d w

theorem sendToMatching {σ : Type*} {selects : σ → List Byte → Bool} {message : σ → List Byte}
    {sent : σ → σ} (d : DucqI) (route : List Byte) (ctx : σ) (w : World) :
    LeavesRest w (sendToMatching env selects message sent d route ctx w).2.2 := by
  have hsend := @ducqSend env d (message ctx) w
  unfold Ducq.sendToMatching
  rcases hr : Ducq.ducqSend env d (message ctx) w with ⟨state, w'⟩
  rw [hr] at hsend
  dsimp only
  split_ifs
  · exact hsend
  · exact hsend
  · exact refl w

theorem ducqReactorLog (level : DucqLogLevel) (functionName : List Byte)
    (senderId fmt : Option (List Byte)) (args : List Arg) (w : World) :
    LeavesRest w (ducqReactorLog env level functionName senderId fmt args w) := by
  unfold Ducq.ducqReactorLog
  split
  · exact refl w
  · split_ifs
    · exact refl w
    · exact ducqReactorLoop (fun d r c w => sendToMatching d r c w) _ w

theorem unsubscribeHook (d : DucqI) (route : List Byte) (ctx : UnsubCtx) (w : World) :
    LeavesRest w (unsubscribeHook env d route ctx w).2.2 := by
  have hid := @ducqId env d w
  rw [Ducq.unsubscribeHook]
  rcases hr : Ducq.ducqId env d w with ⟨_ | id, w'⟩
  · rw [hr] at hid
    exact hid
  · rw [hr] at hid
    dsimp only
    split_ifs
    · exact hid
    · exact hid

end LeavesRest

end Ducq
