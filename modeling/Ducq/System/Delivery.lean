import Ducq.System.Broker

/-!
# What a subscriber is sent

The reactor is a broker, and a broker sends its clients what is published for them
(`Broker.Run.follows`).  Read back into the reactor's own terms, that is a promise to every
subscriber about whole runs, in which other clients come, publish, fail and go.
-/

namespace Ducq

open CMemory

variable {isCode : ℕ → Prop} {env : Env} {w : World}

/-- The step is the client's own, or registers it, or sends to it. -/
def Op.Concerns (d : DucqI) : Op → Prop
  | addClient _ d' | subscribeTo d' _ | send d' _ | pub d' _ _ | publish d' _ _ | sub d' _
  | subscribe d' _ | unsub d' _ => d' = d
  | _ => False

instance (d : DucqI) (op : Op) : Decidable (op.Concerns d) :=
  match op with
  | .addClient _ d' | .subscribeTo d' _ | .send d' _ | .pub d' _ _ | .publish d' _ _ | .sub d' _
  | .subscribe d' _ | .unsub d' _ => inferInstanceAs (Decidable (d' = d))
  | .addServer _ _ _ | .delete _ | .loop _ | .allowLogRoute _ | .setLastMsg _ _ | .id _
  | .log _ _ _ _ _ => instDecidableFalse

/-- What does not concern a client requests nothing that does. -/
theorem Op.concerns_of_request {d : DucqI} {op : Op} (h : (op.request env).Concerns d) :
    op.Concerns d := by
  have hpub : ∀ d' buffer size, (pubRequest env d' buffer size).Concerns d → d' = d := by
    intro d' buffer size hreq
    unfold pubRequest at hreq
    split at hreq
    · exact hreq
    · split_ifs at hreq
      · exact hreq
      · exact hreq
  have hsub : ∀ d' buffer, (subRequest d' buffer).Concerns d → d' = d := by
    intro d' buffer hreq
    unfold subRequest at hreq
    split at hreq
    · exact hreq
    · exact hreq
  cases op with
  | addClient fd d' => exact h
  | subscribeTo d' route => exact h
  | send d' buf =>
    rw [Op.request] at h
    split_ifs at h
    · exact h.elim
    · exact h
  | pub d' buffer size => exact hpub _ _ _ h
  | publish d' buffer size => exact hpub _ _ _ h
  | sub d' buffer => exact hsub _ _ h
  | subscribe d' buffer => exact hsub _ _ h
  | unsub d' buffer =>
    rw [Op.request, unsubRequest] at h
    split at h
    · exact h
    · split_ifs at h
      · exact h
      · exact h
  | _ => exact h

/-- A route that was published is a string. -/
theorem zero_notMem_of_mem_published {steps : List (Env × Op)} {p : List Byte × List Byte}
    (h : p ∈ published steps w) : (0 : Byte) ∉ p.1 := by
  have hone : ∀ {buffer : List Byte} {size : ℕ},
      p ∈ (routeOf buffer).toList.map (fun r => (r, buffer.take size)) → (0 : Byte) ∉ p.1 := by
    intro buffer size hp
    obtain ⟨r, hr, rfl⟩ := List.mem_map.mp hp
    exact (routeOf_eq_some.mp (Option.mem_toList.mp hr)).zero_notMem
  induction steps generalizing w with
  | nil => exact absurd h List.not_mem_nil
  | cons step steps ih =>
    rcases List.mem_append.mp h with h | h
    · obtain ⟨env, op⟩ := step
      cases op with
      | pub d buffer size =>
        simp only [Op.published] at h
        split_ifs at h
        · exact hone h
        · exact absurd h List.not_mem_nil
      | publish d buffer size =>
        simp only [Op.published] at h
        split_ifs at h
        · exact hone h
        · exact absurd h List.not_mem_nil
      | _ => exact absurd h List.not_mem_nil
    · exact ih h

/-- What a run publishes for a client's route. -/
def publishedFor (steps : List (Env × Op)) (w : World) (i : Fin ducqMaxConnections) :
    List (List Byte) :=
  ((published steps w).filter fun p =>
    ducqRouteCmp (some (w.conn i).bytes.bytes) (some (p.1 ++ [0])) = some true).map Prod.snd

/-- What a client is sent from a state on, the reactor being a broker there. -/
theorem Brokered.sent_published
    {b : Broker DucqI (List Byte) (List Byte) ducqMaxConnections ducqMaxChannels}
    (hb : Brokered isCode w b) {steps : List (Env × Op)} (hvalid : ValidOps isCode steps w)
    (hfits : OpsFit steps w) {i : Fin ducqMaxConnections} (hi : (w.conn i).IsClient)
    (hlog : cstr (w.conn i).bytes.bytes ≠ ducqLogRoute)
    (hsteps : ∀ step ∈ steps, ¬ step.2.Concerns (w.conn i).word) :
    ∃ ms, ms <+: publishedFor steps w i ∧
      messagesTo (w.conn i).word (Ducq.runOps steps w).calls =
        messagesTo (w.conn i).word w.calls ++ ms ∧
      (Registered (Ducq.runOps steps w) (w.conn i).word → ms = publishedFor steps w i) := by
  obtain ⟨b', hrun, hb'⟩ := hb.runOps hvalid hfits
  have hvalue := hb.simulated.refines.value i hi
  have hlistens : ducqRules.listens (b.registry.value (w.conn i).word) = false := by
    rw [hvalue]
    exact decide_eq_false hlog
  have hfollows := hrun.follows (fun req hreq => ?_) hlistens
  · have hmeant : Broker.meant ducqRules (b.registry.value (w.conn i).word) (published steps w) =
        publishedFor steps w i := by
      obtain ⟨u, hu⟩ := exists_eq_cstr_append (hb.simulated.terminated i hi)
      rw [hvalue, Broker.meant, publishedFor]
      congr 1
      refine List.filter_congr fun p hp => ?_
      rw [hu, ducqRouteCmp_eq (zero_notMem_cstr _) (zero_notMem_of_mem_published hp)]
      simp [ducqRules, cstr_append_zero (zero_notMem_cstr _)]
    rw [hmeant] at hfollows
    obtain ⟨ms, hms, hsent, hall⟩ := hfollows.sent
    rw [hb'.sent, hb.sent] at hsent
    exact ⟨ms, hms, hsent, fun hd => hall ((hb'.simulated.refines.mem_keys _).mpr hd)⟩
  · obtain ⟨step, hstep, rfl⟩ := List.mem_map.mp hreq
    exact fun hc => hsteps step hstep (Op.concerns_of_request hc)

/-- **A subscriber is sent exactly what is published for its route.**  Take any state that
valid steps lead to whose routes and messages fit into their arrays, and a client in it that
does not listen to the log.  Through any further such steps that are not the client's own,
whatever the other clients do and however many of them are lost on the way, what the client is
sent is what those steps publish for its route: every message once, in the order in which they
are published, all of them if the client is still there in the end, and else all up to some
message. -/
theorem subscriber_sent {before steps : List (Env × Op)}
    (hbefore : ValidOps isCode before World.init) (hbefore' : OpsFit before World.init)
    (hw : runOps before World.init = w) (hvalid : ValidOps isCode steps w)
    (hfits : OpsFit steps w) {i : Fin ducqMaxConnections} (hi : (w.conn i).IsClient)
    (hlog : cstr (w.conn i).bytes.bytes ≠ ducqLogRoute)
    (hsteps : ∀ step ∈ steps, ¬ step.2.Concerns (w.conn i).word) :
    ∃ ms, ms <+: publishedFor steps w i ∧
      messagesTo (w.conn i).word (runOps steps w).calls =
        messagesTo (w.conn i).word w.calls ++ ms ∧
      (Registered (runOps steps w) (w.conn i).word → ms = publishedFor steps w i) := by
  obtain ⟨b, -, hb⟩ := Brokered.init.runOps hbefore hbefore'
  rw [hw] at hb
  exact hb.sent_published hvalid hfits hi hlog hsteps

/-- Two subscribers, and a client that is going to publish. -/
def subscribed : List (Env × Op) :=
  [(Env.quiet, .addClient 4 100), (Env.quiet, .addClient 5 200), (Env.quiet, .addClient 6 300),
    (Env.quiet, .sub 100 (ascii "sub a*\n" ++ [0])), (Env.quiet, .sub 200 (ascii "sub a\n" ++ [0]))]

/-- Three publications; the second subscriber cannot be reached by the first one. -/
def publications : List (Env × Op) :=
  [({ Env.quiet with sendResult := fun d _ => if d = 200 then .ewrite else .ok },
      .pub 300 (ascii "pub a\nx" ++ [0]) 7),
    (Env.quiet, .pub 300 (ascii "pub b\ny" ++ [0]) 7),
    (Env.quiet, .publish 300 (ascii "publish ab\nz" ++ [0]) 12)]

theorem subscriber_sent_publications :
    messagesTo 100 (runOps publications (runOps subscribed World.init)).calls =
      messagesTo 100 (runOps subscribed World.init).calls ++
        [ascii "pub a\nx", ascii "publish ab\nz"] := by
  obtain ⟨ms, -, hsent, hall⟩ :=
    @subscriber_sent (fun _ => False) (runOps subscribed World.init) subscribed publications
      (by decide) (by decide) rfl (by decide) (by decide) 0 (by decide) (by decide) (by decide)
  have hms : ms = [ascii "pub a\nx", ascii "publish ab\nz"] :=
    (hall (by decide)).trans (by decide)
  rwa [hms] at hsent

end Ducq
