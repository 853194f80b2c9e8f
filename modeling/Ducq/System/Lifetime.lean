import Ducq.Reactor.Lifetime
import Ducq.System.Run

/-!
# Whether a publisher outlives its publication

Whatever `pub` does up to its last line it does to registered clients: a client that a
loop gives up is not visited by the loops after it.  The last line asks the publisher
for its id.  The publisher is a client like the others by then, and may have been given
up twice: a log line that did not reach it ends it, and so does its own message, if its
route accepts what it has published.  Both conditions are about the state the command
starts in, and about which of the publisher's sends fails: the first one after its
acknowledgement if it is on the log route, and the next one after that for the message.
-/

namespace Ducq

open CMemory CPrintf Lifetime

/-- The log line of an accepted publication is the end of the publisher. -/
def LostToLog (env : Env) (w : World) (i : Fin ducqMaxConnections) : Prop :=
  OnLog env w i ∧
    env.sendResult (w.conn i).word (sendCount (w.conn i).word w.calls + 1) ≠ .ok

/-- The message is, if the log line was not. -/
def LostToMessage (env : Env) (w : World) (r : List Byte) (i : Fin ducqMaxConnections) : Prop :=
  Selected env (publishSelects r) w i ∧
    env.sendResult (w.conn i).word
      (sendCount (w.conn i).word w.calls + 1 + if OnLog env w i then 1 else 0) ≠ .ok

instance (env : Env) (w : World) (i : Fin ducqMaxConnections) : Decidable (LostToLog env w i) :=
  inferInstanceAs (Decidable (_ ∧ _))

instance (env : Env) (w : World) (r : List Byte) (i : Fin ducqMaxConnections) :
    Decidable (LostToMessage env w r i) :=
  inferInstanceAs (Decidable (_ ∧ _))

variable {isCode : ℕ → Prop} {env : Env} {functionName : List Byte} {w : World}

/-- Up to its broadcast a publication is tidy. -/
theorem tidy_pubAcknowledge (h : TableInv isCode w) {d : DucqI} (hd : Registered w d)
    (buffer : List Byte) : Tidy w (pubAcknowledge env functionName d buffer w).2.2 := by
  have hstore : Tidy w (pubStore env buffer w) :=
    Tidy.of_eq (conn_pubStore buffer w) (calls_pubStore buffer w)
  have hdₛ : Registered (pubStore env buffer w) d := by
    rwa [registered_congr (conn_pubStore buffer w)]
  have hack := Tidy.ducqSendAck hdₛ env (pubRoute env buffer).1
  have hdₐ : Registered
      (ducqSendAck env d (pubRoute env buffer).1 (pubStore env buffer w)).2 d := by
    rwa [registered_congr (conn_ducqSendAck d _ _)]
  have hbefore : Tidy w (pubAcknowledged env d buffer w) :=
    hstore.trans (hack.trans (Tidy.ducqId hdₐ env))
  obtain ⟨level, id, args, hlog⟩ := @pubAcknowledge_world env functionName d buffer w
  rw [hlog]
  exact hbefore.trans (Tidy.ducqReactorLog (h.onlyFrees hbefore.frees) _ _ _ _ _)

/-- So is the broadcast. -/
theorem tidy_broadcast (h : TableInv isCode w) (msg : PubCtx) :
    Tidy w (ducqReactorLoop env (publishHook env) msg w).2.2 :=
  Tidy.ducqReactorLoop (fun _ route ctx _ _ hd => Tidy.sendToMatching hd route ctx) msg h

/-- **Who is left after the broadcast.**  What happens to the publisher is decided by two
of its sends. -/
theorem registered_broadcast_iff (h : TableInv isCode w) {i : Fin ducqMaxConnections}
    (hi : (w.conn i).IsClient) {buffer r : List Byte} (hr : HasRoute buffer r)
    (hmem : env.strndup r = true)
    (hack : env.sendResult (w.conn i).word (sendCount (w.conn i).word w.calls) = .ok)
    (size : ℕ) :
    Registered (ducqReactorLoop env (publishHook env) ⟨some (r ++ [0]), buffer, size, 0⟩
        (pubAcknowledge env functionName (w.conn i).word buffer w).2.2).2.2 (w.conn i).word ↔
      ¬ LostToLog env w i ∧ ¬ LostToMessage env w r i := by
  obtain ⟨w₀, w₁, message, hrun, hconn₀, hcalls₀, hfrees₁, hconn₁, hcalls₁⟩ :=
    @pubAcknowledge_spec isCode env functionName w h i hi buffer r hr hmem hack
  have h₁ := h.onlyFrees hfrees₁
  -- the sends to the publisher up to here
  have hcount₀ : sendCount (w.conn i).word w₀.calls = sendCount (w.conn i).word w.calls + 1 := by
    rw [hcalls₀, sendCount_append]
    simp [sendCount]
  have hlog : OnLog env w i ∧ ¬ Reached env w₀ i ↔ LostToLog env w i := by
    rw [Reached, hconn₀, hcount₀, LostToLog]
  have hregistered₁ : Registered w₁ (w.conn i).word ↔ ¬ LostToLog env w i := by
    rw [h.registered_iff hfrees₁ hi (hconn₁ i), hlog]
  obtain ⟨control, w₂, hloop, hfrees₂, hconn₂, -⟩ := @publish_spec isCode env w₁ h₁ r buffer size
  rw [hrun]
  dsimp only
  rw [hloop]
  dsimp only
  by_cases hlost : LostToLog env w i
  · refine iff_of_false (fun hd => ?_) fun hc => hc.1 hlost
    obtain ⟨j, hj, hword⟩ := hd
    exact (hregistered₁.mp ⟨j, hfrees₂.isClient hj, (hfrees₂.word j).symm.trans hword⟩) hlost
  · have hsame : w₁.conn i = w.conn i :=
      h.conn_eq_of_registered hfrees₁ hi (hregistered₁.mpr hlost)
    have hi₁ : (w₁.conn i).IsClient := by rwa [hsame]
    have hcount₁ : sendCount (w.conn i).word w₁.calls =
        sendCount (w.conn i).word w.calls + 1 + if OnLog env w i then 1 else 0 := by
      have hi₀ : (w₀.conn i).IsClient := by rwa [hconn₀]
      have h₀ : TableInv isCode w₀ := h.onlyFrees fun j => Or.inl (hconn₀ j)
      rw [hcalls₁, sendCount_append, hcount₀, ← hconn₀ i,
        sendCount_flatMap_slotCalls h₀ hi₀ (List.nodup_finRange _)]
      congr 1
      refine if_congr ?_ rfl rfl
      rw [and_iff_right (List.mem_finRange i), selected_congr (hconn₀ i), OnLog]
    have hmessage : Selected env (publishSelects r) w₁ i ∧ ¬ Reached env w₁ i ↔
        LostToMessage env w r i := by
      rw [LostToMessage, selected_congr hsame, Reached, hsame, hcount₁]
    rw [and_iff_right hlost, ← hmessage, ← hsame]
    exact h₁.registered_iff hfrees₂ hi₁ (hconn₂ i)

/-- **A publication is safe exactly when its publisher is still there at the end.**  It
is not if the publication was accepted and the log line about it, or the message, was
to go to the publisher as well and could not be sent. -/
theorem pub_noUseAfterFree_iff (hw : Reachable isCode w) {i : Fin ducqMaxConnections}
    (hi : (w.conn i).IsClient) (buffer : List Byte) (size : ℕ) :
    NoUseAfterFree w (pub env (w.conn i).word buffer size w).2 ↔
      ∀ r, HasRoute buffer r → env.strndup r = true →
        env.sendResult (w.conn i).word (sendCount (w.conn i).word w.calls) = .ok →
        ¬ LostToLog env w i ∧ ¬ LostToMessage env w r i := by
  have h := hw.tableInv
  have h0 := h.client_ne_zero i hi
  have hack := @tidy_pubAcknowledge isCode env (ascii "pub") w h _ ⟨i, hi, rfl⟩ buffer
  have hok := @pubAcknowledge_eq_ok_iff env (ascii "pub") _ h0 buffer w
  rw [pub]
  by_cases hreturned : (pubAcknowledge env (ascii "pub") (w.conn i).word buffer w).1 = .ok
  · obtain ⟨⟨r, hr, hmem⟩, hsend⟩ := hok.mp hreturned
    obtain ⟨w₀, w₁, -, hrun, -⟩ :=
      @pubAcknowledge_spec isCode env (ascii "pub") w h i hi buffer r hr hmem hsend
    have hiff := @registered_broadcast_iff isCode env (ascii "pub") w h i hi buffer r hr hmem
      hsend size
    rw [hrun] at hack hiff
    dsimp only at hack hiff
    rw [pubCommand, hrun]
    dsimp only
    rw [if_neg (by decide)]
    have h₁ := h.onlyFrees hack.frees
    have hloop := @tidy_broadcast isCode env w₁ h₁ ⟨some (r ++ [0]), buffer, size, 0⟩
    refine Iff.trans (Tidy.noUseAfterFree_ducqLog_iff (hack.trans hloop)
      (h₁.onlyFrees hloop.frees) h0 .info _ _ _) (hiff.trans ?_)
    refine ⟨fun hc r' hr' _ _ => ?_, fun hc => hc r hr hmem hsend⟩
    rw [hr.unique hr']
    exact hc
  · refine iff_of_true ?_ fun r hr hmem hsend => absurd (hok.mpr ⟨⟨r, hr, hmem⟩, hsend⟩) hreturned
    rw [world_pubCommand_of_ne_ok size hreturned]
    exact (hack.trans (Tidy.ducqReactorDelete (h.onlyFrees hack.frees) env _)).noUseAfterFree

/-- A client that is subscribed to `a`. -/
def subscribedPublisher : List (Env × Op) :=
  [(Env.quiet, .addClient 4 100), (Env.quiet, .subscribeTo 100 (ascii "a"))]

/-- It may publish on `a` as long as it can be reached. -/
theorem pub_noUseAfterFree_subscribedPublisher :
    NoUseAfterFree (runOps subscribedPublisher World.init)
      (pub Env.quiet 100 (ascii "pub a\nx") 7 (runOps subscribedPublisher World.init)).2 :=
  (@pub_noUseAfterFree_iff (fun _ => False) Env.quiet (runOps subscribedPublisher World.init)
    (Reachable.runOps Relation.ReflTransGen.refl (by decide)) 0 (by decide)
    (ascii "pub a\nx") 7).mpr fun _ _ _ _ => ⟨fun h => h.2 rfl, fun h => h.2 rfl⟩

/-- Only the first send succeeds. -/
def Env.deafened : Env :=
  { Env.quiet with sendResult := fun _ n => if n = 0 then .ok else .ewrite }

/-- **A publisher that its own message does not reach is used after it is freed.** -/
theorem not_noUseAfterFree_deafened :
    Reachable (fun _ => False) (runOps subscribedPublisher World.init) ∧
      Registered (runOps subscribedPublisher World.init) 100 ∧
      ¬ NoUseAfterFree (runOps subscribedPublisher World.init)
        (pub Env.deafened 100 (ascii "pub a\nx") 7 (runOps subscribedPublisher World.init)).2 := by
  refine ⟨Reachable.runOps Relation.ReflTransGen.refl (by decide), by decide, ?_⟩
  have hcalls : (pub Env.deafened 100 (ascii "pub a\nx") 7
      (runOps subscribedPublisher World.init)).2.calls =
      [.send 100 (ascii "ACK"), .id 100, .send 100 (ascii "pub a\nx"), .close 100, .free 100,
        .id 100] := by decide
  rintro ⟨new, hnew, hrespects⟩
  rw [hcalls, show (runOps subscribedPublisher World.init).calls = [] from rfl,
    List.nil_append] at hnew
  rw [← hnew] at hrespects
  simp [Call.event, Respects, after] at hrespects

end Ducq
