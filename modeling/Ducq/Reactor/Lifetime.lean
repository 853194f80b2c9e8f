import Ducq.Lib.Lifetime
import Ducq.Reactor.Log

/-!
# Clients are not used after they are freed

A call to a client uses it, `ducq_free` ends it.  What may be used is what is
registered, and the table knows: as long as nothing is called on a client that the
table has given up, the registered clients are exactly those that were registered
before and have not been freed since.  `Tidy w w'` says that everything between two
states was of this kind; such stretches compose, and one that goes wrong stays wrong.

Loops are tidy when their hooks are, because a hook is only called on a registered
client, and a slot is closed and freed only while it is in use.
-/

namespace Ducq

open CMemory CNumber CPrintf Sweep Lifetime

/-- What a call does to its client. -/
def Call.event : Call → Event DucqI
  | .send d _ => .use d
  | .id d => .use d
  | .close d => .use d
  | .free d => .release d
  | .undefined => .other

/-- Between the two states no client is used that is not registered or has been freed. -/
def NoUseAfterFree (w w' : World) : Prop :=
  ∃ new, w'.calls = w.calls ++ new ∧ Respects (Registered w) (new.map Call.event)

/-- Slots were given up, no client was used too late, and whoever is not registered any
more has been freed. -/
structure Tidy (w w' : World) : Prop where
  frees : OnlyFrees w w'
  calls : ∃ new, w'.calls = w.calls ++ new ∧
    Respects (Registered w) (new.map Call.event) ∧
    Registered w' = after (Registered w) (new.map Call.event)

variable {isCode : ℕ → Prop} {env : Env} {w w' w'' : World}

theorem registered_congr (h : ∀ i, w'.conn i = w.conn i) : Registered w' = Registered w := by
  ext d
  simp only [Registered, h]

namespace Tidy

theorem noUseAfterFree (h : Tidy w w') : NoUseAfterFree w w' := by
  obtain ⟨new, hnew, hrespects, -⟩ := h.calls
  exact ⟨new, hnew, hrespects⟩

/-- Nothing happened. -/
theorem of_eq (hconn : ∀ i, w'.conn i = w.conn i) (hcalls : w'.calls = w.calls) : Tidy w w' where
  frees i := Or.inl (hconn i)
  calls := ⟨[], by rw [hcalls, List.append_nil], respects_nil, by
    rw [registered_congr hconn, List.map_nil, after_nil]⟩

theorem refl (w : World) : Tidy w w := of_eq (fun _ => rfl) rfl

/-- **After a tidy stretch, what follows is judged on its own.** -/
theorem noUseAfterFree_iff (h : Tidy w w') {new : List Call}
    (hcalls : w''.calls = w'.calls ++ new) :
    NoUseAfterFree w w'' ↔ Respects (Registered w') (new.map Call.event) := by
  obtain ⟨old, hold, hrespects, halive⟩ := h.calls
  rw [hold, List.append_assoc] at hcalls
  rw [halive]
  constructor
  · rintro ⟨new', hnew', hrespects'⟩
    obtain rfl := List.append_cancel_left (hnew'.symm.trans hcalls)
    rw [List.map_append, respects_append] at hrespects'
    exact hrespects'.2
  · intro hnew
    refine ⟨old ++ new, hcalls, ?_⟩
    rw [List.map_append, respects_append]
    exact ⟨hrespects, hnew⟩

theorem trans (h : Tidy w w') (h' : Tidy w' w'') : Tidy w w'' := by
  obtain ⟨new, hnew, hrespects, halive⟩ := h.calls
  obtain ⟨new', hnew', hrespects', halive'⟩ := h'.calls
  refine ⟨h.frees.trans h'.frees, new ++ new', ?_, ?_, ?_⟩
  · rw [hnew', hnew, List.append_assoc]
  · rw [List.map_append, respects_append, ← halive]
    exact ⟨hrespects, hrespects'⟩
  · rw [halive', halive, List.map_append, after_append]

/-- A registered client may be used. -/
theorem record_use {d : DucqI} {c : Call} (hc : c.event = .use d) (hd : Registered w d) :
    Tidy w (w.record [c]) where
  frees := OnlyFrees.refl w
  calls := by
    refine ⟨[c], rfl, ?_, ?_⟩
    · rw [List.map_singleton, hc]
      exact respects_use.mpr hd
    · rw [List.map_singleton, hc]
      ext x
      simp [after, registered_congr (World.conn_record w [c])]

theorem ducqSend {d : DucqI} (hd : Registered w d) (env : Env) (buf : List Byte) :
    Tidy w (ducqSend env d buf w).2 := by
  unfold Ducq.ducqSend
  split_ifs
  · exact refl w
  · exact record_use rfl hd

theorem ducqId {d : DucqI} (hd : Registered w d) (env : Env) : Tidy w (ducqId env d w).2 := by
  unfold Ducq.ducqId
  split_ifs
  · exact refl w
  · exact record_use rfl hd

/-- **A slot is given up together with its client.** -/
theorem connectionFree (h : TableInv isCode w) (i : Fin ducqMaxConnections) :
    Tidy w (connectionFree i w) := by
  have hfrees := OnlyFrees.connectionFree i w
  by_cases hi : (w.conn i).IsClient
  · refine ⟨hfrees, _, calls_connectionFree hi (h.client_ne_zero i hi), ?_, ?_⟩
    · simp [Call.event, Respects, after, show Registered w (w.conn i).word from ⟨i, hi, rfl⟩]
    · ext d
      constructor
      · rintro ⟨j, hj, rfl⟩
        have hji : j ≠ i := by
          rintro rfl
          rw [conn_connectionFree, if_pos rfl] at hj
          exact (w.conn j).not_isClient_freed hj
        rw [conn_connectionFree, if_neg hji] at hj ⊢
        refine ⟨⟨j, hj, rfl⟩, ?_⟩
        simpa [Call.event] using fun hword => hji (h.unique hj hi hword)
      · rintro ⟨⟨j, hj, rfl⟩, hfree⟩
        have hji : j ≠ i := by
          rintro rfl
          simp [Call.event] at hfree
        refine ⟨j, ?_⟩
        rw [conn_connectionFree, if_neg hji]
        exact ⟨hj, rfl⟩
  · refine ⟨hfrees, [], ?_, respects_nil, ?_⟩
    · rw [List.append_nil, Ducq.connectionFree]
      split_ifs with hfd
      · rfl
      · dsimp only
        rw [if_neg fun htype => hi ⟨hfd, htype⟩, World.calls_setConn]
    · rw [List.map_nil, after_nil]
      ext d
      constructor
      · rintro ⟨j, hj, rfl⟩
        exact ⟨j, hfrees.isClient hj, (hfrees.word j).symm⟩
      · rintro ⟨j, hj, rfl⟩
        have hji : j ≠ i := by
          rintro rfl
          exact hi hj
        refine ⟨j, ?_⟩
        rw [conn_connectionFree, if_neg hji]
        exact ⟨hj, rfl⟩

/-- **A loop is tidy if its hook is**, on registered clients. -/
theorem ducqReactorLoop {σ : Type*} {apply : DucqLoopF σ}
    (happly : ∀ d r c w, TableInv isCode w → Registered w d → Tidy w (apply d r c w).2.2)
    (ctx : σ) (h : TableInv isCode w) : Tidy w (ducqReactorLoop env apply ctx w).2.2 := by
  refine @sweep_invariant _ _ (loopTurn (loopThroughClient env apply)) (fun s => Tidy w s.2.2) _
    ?_ (ducqLoopContinue, ctx, w) (refl w)
  rintro i - ⟨control, c, w'⟩ hw'
  have h' := h.onlyFrees hw'.frees
  rw [loopTurn]
  split_ifs with hfd
  · exact hw'
  · have hhook : Tidy w' (loopThroughClient env apply i c w').2.2 := by
      unfold loopThroughClient
      split_ifs with htype
      · exact happly _ _ _ _ h' ⟨i, ⟨hfd, htype⟩, rfl⟩
      · exact refl w'
    rcases hr : loopThroughClient env apply i c w' with ⟨control', c', w''⟩
    rw [hr] at hhook
    dsimp only
    split_ifs
    · exact hw'.trans (hhook.trans (connectionFree (h'.onlyFrees hhook.frees) i))
    · exact hw'.trans hhook

theorem ducqReactorDelete (h : TableInv isCode w) (env : Env) (d : DucqI) :
    Tidy w (ducqReactorDelete env d w).2 := by
  unfold Ducq.ducqReactorDelete
  split_ifs
  · exact refl w
  · exact ducqReactorLoop (fun _ _ _ w _ _ => refl w) d h

theorem sendToMatching {σ : Type*} {selects : σ → List Byte → Bool} {message : σ → List Byte}
    {sent : σ → σ} {d : DucqI} (hd : Registered w d) (route : List Byte) (ctx : σ) :
    Tidy w (sendToMatching env selects message sent d route ctx w).2.2 := by
  have hsend := ducqSend hd env (message ctx)
  rw [Ducq.sendToMatching]
  split_ifs with hsel
  · rcases hr : Ducq.ducqSend env d (message ctx) w with ⟨s, w'⟩
    rw [hr] at hsend
    dsimp only
    split_ifs
    · exact hsend
    · exact hsend
  · exact refl w

theorem ducqReactorLog (h : TableInv isCode w) (level : DucqLogLevel) (functionName : List Byte)
    (senderId fmt : Option (List Byte)) (args : List Arg) :
    Tidy w (ducqReactorLog env level functionName senderId fmt args w) := by
  unfold Ducq.ducqReactorLog
  split
  · refine ⟨OnlyFrees.refl w, [.undefined], rfl, ?_, ?_⟩
    · simp [Call.event, Respects]
    · ext d
      simp [Call.event, after, registered_congr (World.conn_record w [.undefined])]
  · split_ifs
    · exact refl w
    · exact ducqReactorLoop (fun _ r c _ _ hd => sendToMatching hd r c) _ h

theorem ducqLog (h : TableInv isCode w) {d : DucqI} (hd : Registered w d) (env : Env)
    (level : DucqLogLevel) (functionName : List Byte) (fmt : Option (List Byte))
    (args : List Arg) : Tidy w (ducqLog env d level functionName fmt args w) :=
  (ducqId hd env).trans
    (ducqReactorLog (h.onlyFrees (OnlyFrees.ducqId env d w)) level functionName _ fmt args)

/-- **Who logs has to be registered**, because a log line asks for an id first. -/
theorem noUseAfterFree_ducqLog_iff (hw : Tidy w w') (h : TableInv isCode w') {d : DucqI}
    (h0 : d ≠ 0) (level : DucqLogLevel) (functionName : List Byte) (fmt : Option (List Byte))
    (args : List Arg) :
    NoUseAfterFree w (Ducq.ducqLog env d level functionName fmt args w') ↔ Registered w' d := by
  constructor
  · intro hsafe
    have hid : (Ducq.ducqId env d w').2.calls = w'.calls ++ [.id d] := by
      rw [Ducq.ducqId, if_neg h0, World.calls_record]
    have hrest := @ducqReactorLog isCode env _ (h.onlyFrees (OnlyFrees.ducqId env d w')) level
      functionName (Ducq.ducqId env d w').1 fmt args
    obtain ⟨new, hnew, -, -⟩ := hrest.calls
    rw [hid, List.append_assoc] at hnew
    have hall := (hw.noUseAfterFree_iff hnew).mp hsafe
    rw [List.map_append, respects_append] at hall
    exact respects_use.mp hall.1
  · intro hd
    exact (hw.trans (ducqLog h hd env level functionName fmt args)).noUseAfterFree

theorem ducqSendAck {d : DucqI} (hd : Registered w d) (env : Env) (state : DucqState) :
    Tidy w (ducqSendAck env d state w).2 := by
  rw [ducqSendAck_eq]
  exact ducqSend hd env _

end Tidy

end Ducq
