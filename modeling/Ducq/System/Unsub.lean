import Ducq.System.Lifetime

/-!
# Whether `unsub` answers a client that still exists

`unsub` deletes the first client with the given id, writes a log line and answers its
sender.  Two of these can take the sender away.  The first client with the id may be the
sender itself, whose id is then asked for by the log line; and the log line goes to the
sender too if its route is the log route, and gives it up if that send fails, before the
answer.  Nothing else touches the sender (`unsub_noUseAfterFree_iff`).
-/

namespace Ducq

open CMemory CPrintf Lifetime

variable {isCode : ℕ → Prop} {env : Env} {w w' : World}

/-- The log line has its arguments. -/
theorem format_unsubscribed (id : Option (List Byte)) (count : ℤ) :
    ∃ out, ((some (ascii "%s,%d unsubscribed")).bind fun fmt =>
      format fmt [.str id, .int count]) = some out := by
  refine ⟨strText id ++ (ascii "," ++ (intText count ++ ascii " unsubscribed")), ?_⟩
  simp [format, formatFrom, ascii, percent]

/-- What is safe was safe before its last calls. -/
theorem NoUseAfterFree.of_append {w'' : World} (h : NoUseAfterFree w w'')
    (hbefore : ∃ old, w'.calls = w.calls ++ old) (hafter : ∃ new, w''.calls = w'.calls ++ new) :
    NoUseAfterFree w w' := by
  obtain ⟨all, hall, hrespects⟩ := h
  obtain ⟨old, hold⟩ := hbefore
  obtain ⟨new, hnew⟩ := hafter
  rw [hold, List.append_assoc] at hnew
  rw [List.append_cancel_left (hall.symm.trans hnew), List.map_append, respects_append]
    at hrespects
  exact ⟨old, hold, hrespects.1⟩

/-- Whoever logs, calls are only added. -/
theorem calls_ducqLog (h : TableInv isCode w) (d : DucqI) (level : DucqLogLevel)
    (functionName : List Byte) (fmt : Option (List Byte)) (args : List Arg) :
    ∃ new, (ducqLog env d level functionName fmt args w).calls = w.calls ++ new := by
  obtain ⟨new, hnew, -⟩ := (@Tidy.ducqReactorLog isCode env _
    (h.onlyFrees (OnlyFrees.ducqId env d w)) level functionName (ducqId env d w).1 fmt args).calls
  refine ⟨(if d = 0 then [] else [.id d]) ++ new, ?_⟩
  have hid : (ducqId env d w).2.calls = w.calls ++ if d = 0 then [] else [.id d] := by
    unfold ducqId
    split_ifs
    · exact (List.append_nil _).symm
    · rfl
  rw [← List.append_assoc, ← hid, ← hnew]
  rfl

/-- **An answer is safe** if the sender is there for the log line and there after it. -/
theorem noUseAfterFree_unsubAnswer_iff (h : TableInv isCode w) {i : Fin ducqMaxConnections}
    (hi : (w.conn i).IsClient) (htidy : Tidy w w') (level : DucqLogLevel)
    (id : Option (List Byte)) (count : ℤ) (state : DucqState) :
    NoUseAfterFree w (unsubAnswer env (w.conn i).word level id count state w').2 ↔
      Registered w' (w.conn i).word ∧ ¬ LostToLine env w' i := by
  have h' := h.onlyFrees htidy.frees
  have h0 := h.client_ne_zero i hi
  obtain ⟨out, hout⟩ := format_unsubscribed id count
  have hsafe := @Tidy.noUseAfterFree_ducqLog_iff isCode env w w' htidy h' _ h0 level
    (ascii "unsub") (some (ascii "%s,%d unsubscribed")) [.str id, .int count]
  obtain ⟨new, hnew⟩ := @calls_ducqLog isCode env w' h' (w.conn i).word level (ascii "unsub")
    (some (ascii "%s,%d unsubscribed")) [.str id, .int count]
  rw [unsubAnswer, ducqSendAck_eq, ducqSend, if_neg h0]
  set line := ducqLog env (w.conn i).word level (ascii "unsub")
    (some (ascii "%s,%d unsubscribed")) [.str id, .int count] w' with hline
  dsimp only
  have hanswer : (line.record [.send (w.conn i).word (ackText state)]).calls =
      line.calls ++ [.send (w.conn i).word (ackText state)] := rfl
  by_cases hd : Registered w' (w.conn i).word
  · have hsame : w'.conn i = w.conn i := h.conn_eq_of_registered htidy.frees hi hd
    have hleft := @registered_ducqLog_iff isCode env w' h' i (hsame.symm ▸ hi) (w.conn i).word
      level (ascii "unsub") (some (ascii "%s,%d unsubscribed")) [.str id, .int count] out hout
    rw [hsame, ← hline] at hleft
    have htidyLine : Tidy w line := htidy.trans (Tidy.ducqLog h' hd env _ _ _ _)
    rw [htidyLine.noUseAfterFree_iff hanswer, and_iff_right hd, ← hleft]
    exact respects_use
  · refine iff_of_false (fun hall => ?_) fun hc => hd hc.1
    obtain ⟨old, hold, -⟩ := htidy.calls
    have hbefore : ∃ old, line.calls = w.calls ++ old :=
      ⟨old ++ new, by rw [hnew, hold, List.append_assoc]⟩
    exact hd (hsafe.mp (hall.of_append hbefore ⟨_, hanswer⟩))

/-- The deletion loop is tidy. -/
theorem tidy_unsubscribe (h : TableInv isCode w) (ctx : UnsubCtx) :
    Tidy w (ducqReactorLoop env (unsubscribeHook env) ctx w).2.2 := by
  refine Tidy.ducqReactorLoop (fun d route ctx w h hd => ?_) ctx h
  obtain ⟨i, hi, rfl⟩ := hd
  have hid := Tidy.ducqId ⟨i, hi, rfl⟩ env
  rw [unsubscribeHook, ducqId, if_neg (h.client_ne_zero i hi)]
  rw [ducqId, if_neg (h.client_ne_zero i hi)] at hid
  dsimp only
  split_ifs
  · exact hid
  · exact hid

/-- What is left of the sender after the deletion loop. -/
theorem unsubscribe_sender (h : TableInv isCode w) {i : Fin ducqMaxConnections}
    (hi : (w.conn i).IsClient) (id : List Byte) :
    Registered (ducqReactorLoop env (unsubscribeHook env) ⟨id, 0⟩ w).2.2 (w.conn i).word ∧
        ¬ LostToLine env (ducqReactorLoop env (unsubscribeHook env) ⟨id, 0⟩ w).2.2 i ↔
      firstNamed env id w ≠ some i ∧ ¬ LostToLine env w i := by
  obtain ⟨control, w', hrun, hconn, hcount, hallow⟩ := @unsubscribe_spec env isCode w h id
  have hfrees := (@tidy_unsubscribe isCode env w h ⟨id, 0⟩).frees
  rw [hrun] at hfrees ⊢
  dsimp only at hfrees ⊢
  rw [h.registered_iff hfrees hi (hconn i)]
  refine and_congr_right fun hother => ?_
  rw [lostToLine_congr (by rw [hconn, if_neg hother]) (hcount _) hallow]

/-- **`unsub` is safe exactly when its sender is neither the client it gives up nor lost to
its log line.** -/
theorem unsub_noUseAfterFree_iff (hw : Reachable isCode w) {i : Fin ducqMaxConnections}
    (hi : (w.conn i).IsClient) (buffer : List Byte) :
    NoUseAfterFree w (unsub env (w.conn i).word buffer w).2 ↔
      (∀ id, ducqParsePayload buffer = some id → cstr id ≠ [] → firstNamed env id w ≠ some i) ∧
        ¬ LostToLine env w i := by
  have h := hw.tableInv
  have hanswer := fun w' htidy => @noUseAfterFree_unsubAnswer_iff isCode env w w' h i hi htidy
  have hthere : Registered w (w.conn i).word := ⟨i, hi, rfl⟩
  rw [unsub]
  rcases ducqParsePayload buffer with _ | id
  · dsimp only
    rw [hanswer w (Tidy.refl w), and_iff_right hthere, and_iff_right]
    exact fun id hid => absurd hid.symm (Option.some_ne_none id)
  have hall : (∀ id', some id = some id' → cstr id' ≠ [] → firstNamed env id' w ≠ some i) ↔
      (cstr id ≠ [] → firstNamed env id w ≠ some i) :=
    ⟨fun hc => hc id rfl, fun hc id' hid => Option.some.inj hid ▸ hc⟩
  rw [hall]
  dsimp only
  split_ifs with hempty hcount
  · rw [hanswer w (Tidy.refl w), and_iff_right hthere, and_iff_right]
    exact fun hne => absurd hempty hne
  · rw [hanswer _ (tidy_unsubscribe h _), unsubscribe_sender h hi id, forall_prop_of_true hempty]
  · rw [hanswer _ (tidy_unsubscribe h _), unsubscribe_sender h hi id, forall_prop_of_true hempty]

/-- Two clients, and what they are called. -/
def Env.naming : Env := { Env.quiet with id := fun d => if d = 100 then ascii "a" else ascii "b" }

/-- Both are registered. -/
def twoClients : List (Env × Op) :=
  [(Env.naming, .addClient 4 100), (Env.naming, .addClient 5 101)]

/-- The first one may unsubscribe the second. -/
theorem unsub_noUseAfterFree_other :
    NoUseAfterFree (runOps twoClients World.init)
      (unsub Env.naming 100 (ascii "unsub *\nb") (runOps twoClients World.init)).2 := by
  refine (@unsub_noUseAfterFree_iff (fun _ => False) Env.naming (runOps twoClients World.init)
    (Reachable.runOps Relation.ReflTransGen.refl (by decide)) 0 (by decide)
    (ascii "unsub *\nb")).mpr ⟨fun id hid _ => ?_, by decide⟩
  obtain rfl : ascii "b" = id := Option.some.inj hid
  decide

/-- **A client that unsubscribes itself is used after it is freed.** -/
theorem not_noUseAfterFree_own :
    Reachable (fun _ => False) (runOps twoClients World.init) ∧
      Registered (runOps twoClients World.init) 100 ∧
      ¬ NoUseAfterFree (runOps twoClients World.init)
        (unsub Env.naming 100 (ascii "unsub *\na") (runOps twoClients World.init)).2 := by
  refine ⟨Reachable.runOps Relation.ReflTransGen.refl (by decide), by decide, ?_⟩
  have hcalls : (unsub Env.naming 100 (ascii "unsub *\na")
      (runOps twoClients World.init)).2.calls =
      [.id 100, .close 100, .free 100, .id 100, .send 100 (ascii "ACK")] := by decide
  rintro ⟨new, hnew, hrespects⟩
  rw [hcalls, show (runOps twoClients World.init).calls = [] from rfl, List.nil_append] at hnew
  rw [← hnew] at hrespects
  simp [Call.event, Respects, after] at hrespects

end Ducq
