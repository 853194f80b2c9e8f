import Ducq.System.Run

/-!
# Whether an acknowledged subscription has effect

A subscriber that was told `ACK` can expect every later publication on its route, for
as long as it stays registered and does not subscribe to something else.  Its slot is
safe from every other call (`conn_of_keeping`), and a route accepts itself.  Two things
can go wrong.

One is the copy: a route that fills the array has lost its terminator, and everything
behind its hundredth byte.  The other is the log route.  A publication is logged before
it is broadcast, so that the line about it goes to the subscriber first, and ends it if it
cannot be sent; then no subscriber is left when the message goes out.  Only a subscriber
that the line about its own subscription has ended already cannot be failed like this.
-/

namespace Ducq

open CMemory CPrintf

/-- The client is registered, and its array holds the route and a terminator. -/
def HoldsRoute (w : World) (d : DucqI) (r : List Byte) : Prop :=
  ∃ i, (w.conn i).IsClient ∧ (w.conn i).word = d ∧ (w.conn i).bytes.Terminated ∧
    cstr (w.conn i).bytes.bytes = r

/-- The broadcast of a `pub` sends the message to the client. -/
def SendsTo (env : Env) (w : World) (p : DucqI) (buffer : List Byte) (size : ℕ) (d : DucqI) :
    Prop :=
  let (_, route, w) := pubAcknowledge env (ascii "pub") p buffer w
  ∃ new, (ducqReactorLoop env (publishHook env) ⟨route, buffer, size, 0⟩ w).2.2.calls =
      w.calls ++ new ∧
    Call.send d (buffer.take size) ∈ new

/-- From `w` on, as long as the client stays registered and does not subscribe, its slot
holds the route, and every `pub` on the route that is accepted sends it the message. -/
def SubscriptionEffective (isCode : ℕ → Prop) (w : World) (d : DucqI) (r : List Byte) : Prop :=
  Registered w d → ∀ w', Relation.ReflTransGen (StepKeeping isCode d) w w' →
    HoldsRoute w' d r ∧
      ∀ env p buffer size, Registered w' p → HasRoute buffer r →
        (pub env p buffer size w').1 = .ok → SendsTo env w' p buffer size d

/-- The line about a subscription is written, and the send after the answer fails. -/
def LostToOwnLine (env : Env) (w : World) (d : DucqI) : Prop :=
  w.reactor.allowLogRoute = true ∧ env.sendResult d (sendCount d w.calls + 1) ≠ .ok

instance (env : Env) (w : World) (d : DucqI) : Decidable (LostToOwnLine env w d) :=
  inferInstanceAs (Decidable (_ ∧ _))

variable {isCode : ℕ → Prop} {env : Env} {functionName : List Byte} {w : World}

/-! ## Publishing to a client that holds the route -/

/-- A slot that holds a route is selected by a publication on it. -/
theorem selected_of_cstr {i : Fin ducqMaxConnections} (hi : (w.conn i).IsClient)
    (hterminated : (w.conn i).bytes.Terminated) :
    Selected env (publishSelects (cstr (w.conn i).bytes.bytes)) w i := by
  obtain ⟨u, hu⟩ := exists_eq_cstr_append hterminated
  refine ⟨hi, decide_eq_true ?_⟩
  have hptr : routePtr env w i =
      cstr (w.conn i).bytes.bytes ++ 0 :: (u ++ (env.behindRoute i ++ [0])) := by
    rw [routePtr]
    conv_lhs => rw [hu]
    rw [List.append_assoc, List.cons_append]
  rw [hptr, ducqRouteCmp_self (zero_notMem_cstr _)]

/-- A slot that holds the log route is sent log lines exactly if they are allowed. -/
theorem onLog_iff {i : Fin ducqMaxConnections} (hi : (w.conn i).IsClient)
    (hterminated : (w.conn i).bytes.Terminated) :
    OnLog env w i ↔
      w.reactor.allowLogRoute = true ∧ cstr (w.conn i).bytes.bytes = ducqLogRoute := by
  rw [OnLog, Selected, and_iff_right hi, logSelects, routePtr, hterminated.cstr_append,
    Bool.and_eq_true, decide_eq_true_iff]

/-- **Who is left when a publication is broadcast**: a client is not if the line about the
publication was to go to it and could not be sent. -/
theorem registered_pubAcknowledge_iff (h : TableInv isCode w) {i k : Fin ducqMaxConnections}
    (hi : (w.conn i).IsClient) (hk : (w.conn k).IsClient) {buffer r : List Byte}
    (hr : HasRoute buffer r) (hmem : env.strndup r = true)
    (hack : env.sendResult (w.conn k).word (sendCount (w.conn k).word w.calls) = .ok) :
    Registered (pubAcknowledge env functionName (w.conn k).word buffer w).2.2 (w.conn i).word ↔
      ¬ (OnLog env w i ∧ env.sendResult (w.conn i).word (sendCount (w.conn i).word w.calls +
        if (w.conn k).word = (w.conn i).word then 1 else 0) ≠ .ok) := by
  obtain ⟨w₀, w₁, -, hrun, hconn₀, hcalls₀, hfrees, hconn₁, -⟩ :=
    @pubAcknowledge_spec isCode env functionName w h k hk buffer r hr hmem hack
  -- the publisher has been sent its acknowledgement
  have hcount : sendCount (w.conn i).word w₀.calls = sendCount (w.conn i).word w.calls +
      if (w.conn k).word = (w.conn i).word then 1 else 0 := by
    rw [hcalls₀, sendCount_append]
    congr 1
    by_cases hword : (w.conn k).word = (w.conn i).word
    · simp [sendCount, hword]
    · simp [sendCount, hword]
  rw [hrun, h.registered_iff hfrees hi (hconn₁ i), Reached, hconn₀, hcount]

/-- A publication that returns `DUCQ_OK` was accepted. -/
theorem accepted_of_pub (h : TableInv isCode w) {k : Fin ducqMaxConnections}
    (hk : (w.conn k).IsClient) {buffer r : List Byte} (hr : HasRoute buffer r) {size : ℕ}
    (hok : (pub env (w.conn k).word buffer size w).1 = .ok) :
    env.strndup r = true ∧
      env.sendResult (w.conn k).word (sendCount (w.conn k).word w.calls) = .ok := by
  obtain ⟨⟨r', hr', hmem⟩, hack⟩ :=
    (pubCommand_eq_ok_iff (h.client_ne_zero k hk) buffer size w).mp hok
  exact ⟨hr.unique hr' ▸ hmem, hack⟩

/-- **The message goes to a client that holds the route exactly if that client is still
there when it goes out.** -/
theorem sendsTo_iff_registered (h : TableInv isCode w) {d : DucqI} {r : List Byte}
    (hd : HoldsRoute w d r) {p : DucqI} (hp : Registered w p) {buffer : List Byte}
    (hr : HasRoute buffer r) {size : ℕ} (hok : (pub env p buffer size w).1 = .ok) :
    SendsTo env w p buffer size d ↔
      Registered (pubAcknowledge env (ascii "pub") p buffer w).2.2 d := by
  obtain ⟨i, hi, rfl, hterminated, rfl⟩ := hd
  obtain ⟨k, hk, rfl⟩ := hp
  obtain ⟨hmem, hack⟩ := accepted_of_pub h hk hr hok
  obtain ⟨w₀, w₁, -, hrun, -, -, hfrees, -⟩ :=
    @pubAcknowledge_spec isCode env (ascii "pub") w h k hk buffer _ hr hmem hack
  have h₁ := h.onlyFrees hfrees
  obtain ⟨control, w₂, hloop, -, -, hcalls, -⟩ :=
    @publish_spec isCode env w₁ h₁ (cstr (w.conn i).bytes.bytes) buffer size
  rw [SendsTo, hrun]
  dsimp only
  rw [hloop]
  constructor
  · rintro ⟨new, hnew, hsend⟩
    obtain rfl := List.append_cancel_left (hnew.symm.trans hcalls)
    obtain ⟨j, -, hj⟩ := List.mem_flatMap.mp hsend
    obtain ⟨hselected, hword, -⟩ := selected_of_send_mem hj
    exact ⟨j, hselected.1, hword⟩
  · intro hregistered
    have hsame := h.conn_eq_of_registered hfrees hi hregistered
    refine ⟨_, hcalls, ?_⟩
    rw [List.mem_flatMap]
    refine ⟨i, List.mem_finRange i, ?_⟩
    have hselected := @selected_of_cstr env w₁ i (by rwa [hsame]) (by rwa [hsame])
    rw [hsame] at hselected
    rw [slotCalls, if_pos hselected, hsame]
    split_ifs
    · exact List.mem_cons_self
    · exact List.mem_cons_self

/-- **The message goes to every client that holds the route**, if that is not the log
route. -/
theorem sendsTo_of_holdsRoute (h : TableInv isCode w) {d : DucqI} {r : List Byte}
    (hd : HoldsRoute w d r) (hlog : r ≠ ducqLogRoute) {p : DucqI} (hp : Registered w p)
    {buffer : List Byte} (hr : HasRoute buffer r) {size : ℕ}
    (hok : (pub env p buffer size w).1 = .ok) : SendsTo env w p buffer size d := by
  refine (sendsTo_iff_registered h hd hp hr hok).mpr ?_
  obtain ⟨i, hi, rfl, hterminated, rfl⟩ := hd
  obtain ⟨k, hk, rfl⟩ := hp
  obtain ⟨hmem, hack⟩ := accepted_of_pub h hk hr hok
  exact (registered_pubAcknowledge_iff h hi hk hr hmem hack).mpr fun hlost =>
    hlog ((onLog_iff hi hterminated).mp hlost.1).2

/-! ## Subscribing -/

/-- **A short route takes effect**, if it is not the log route.  The state right after the copy
is `wₛ`; from there on the slot can only be given up. -/
theorem effective_of_length_lt (h : TableInv isCode w) {d : DucqI} (hd : Registered w d)
    {buffer r : List Byte} (hr : HasRoute buffer r) (hlen : r.length < ducqMaxRouteLen)
    (hlog : r ≠ ducqLogRoute) :
    SubscriptionEffective isCode (sub env d buffer w).2 d r := by
  obtain ⟨i, hi, rfl⟩ := hd
  obtain ⟨q, payload, hsub⟩ :=
    @subCommand_of_hasRoute env (ascii "sub") buffer r hr (w.conn i).word w
  have hcstr : cstr (r ++ 0 :: q) = r := cstr_append_zero hr.zero_notMem q
  set c : Connection := { w.conn i with bytes := CharArray.strncpy _ (r ++ 0 :: q) } with hc
  obtain ⟨wₛ, hₛ, hconnₛ, hfrees⟩ : ∃ wₛ, TableInv isCode wₛ ∧ wₛ.conn i = c ∧
      OnlyFrees wₛ (sub env (w.conn i).word buffer w).2 := by
    refine ⟨_, h.rewrite i (CharArray.strncpy _ (r ++ 0 :: q)),
      World.conn_setConn_self w i _, ?_⟩
    have hfrees := @onlyFrees_subRoute env (ascii "sub") (w.conn i).word (r ++ 0 :: q) payload w
    rwa [h.subscribe_eq hi, ← hsub] at hfrees
  have hiₛ : (wₛ.conn i).IsClient := by
    rw [hconnₛ]
    exact hi
  have hwordₛ : (wₛ.conn i).word = (w.conn i).word := by rw [hconnₛ]
  generalize (sub env (w.conn i).word buffer w).2 = w₁ at hfrees
  intro hregistered w' hrun
  have hsame : w₁.conn i = wₛ.conn i :=
    hₛ.conn_eq_of_registered hfrees hiₛ (by rwa [hwordₛ])
  obtain ⟨h', hkept⟩ : TableInv isCode w' ∧ w'.conn i = w₁.conn i :=
    conn_of_keeping (hₛ.onlyFrees hfrees) (by rwa [hsame]) (by rwa [hsame, hwordₛ])
  rw [hsame, hconnₛ] at hkept
  have hholds : HoldsRoute w' (w.conn i).word r := by
    refine ⟨i, ?_, ?_, ?_, ?_⟩
    · rw [hkept]
      exact hi
    · rw [hkept]
    · rw [hkept]
      exact CharArray.terminated_strncpy_iff.mpr (by rwa [hcstr])
    · rw [hkept, CharArray.cstr_strncpy_of_lt (by rwa [hcstr]), hcstr]
  exact ⟨hholds, fun env p buffer size hp hr' hok =>
    sendsTo_of_holdsRoute h' hholds hlog hp hr' hok⟩

/-- **A long route does not**: right after the acknowledgement the subscriber is
registered with an array that holds no terminator. -/
theorem not_effective_of_length_ge (h : TableInv isCode w) {d : DucqI} (hd : Registered w d)
    {buffer r : List Byte} (hr : HasRoute buffer r) (hok : (sub env d buffer w).1 = .ok)
    (hlen : ducqMaxRouteLen ≤ r.length) :
    ¬ SubscriptionEffective isCode (sub env d buffer w).2 d r := by
  obtain ⟨i, hi, rfl⟩ := hd
  obtain ⟨q, payload, hsub⟩ :=
    @subCommand_of_hasRoute env (ascii "sub") buffer r hr (w.conn i).word w
  have hcstr : cstr (r ++ 0 :: q) = r := cstr_append_zero hr.zero_notMem q
  set c : Connection := { w.conn i with bytes := CharArray.strncpy _ (r ++ 0 :: q) } with hc
  have hunterminated : ¬ c.bytes.Terminated := by
    rw [hc, CharArray.terminated_strncpy_iff, hcstr]
    omega
  rw [sub, hsub] at hok ⊢
  obtain ⟨w₁, -, hconn₁, -, -, hrun⟩ := subRoute_of_ok h hi hok
  have hsame₁ : w₁.conn i = c := by rw [hconn₁, World.conn_setConn_self]
  have h₁ : TableInv isCode w₁ :=
    (h.rewrite i (CharArray.strncpy _ (r ++ 0 :: q))).onlyFrees fun j => Or.inl (hconn₁ j)
  rw [hrun]
  -- a route this long is not the log route
  have hroute : cstr (routePtr env w₁ i) ≠ ducqLogRoute := by
    intro hlog
    have hsplit : routePtr env w₁ i = c.bytes.bytes ++ (env.behindRoute i ++ [0]) := by
      rw [routePtr, hsame₁]
    have hlength := congrArg List.length hlog
    rw [hsplit, cstr_append_of_notMem hunterminated, List.length_append,
      c.bytes.length_eq] at hlength
    have hshort : ducqLogRoute.length < ducqMaxRouteLen := by decide
    omega
  have hsame := conn_ducqLog h₁ hroute (w.conn i).word .info (ascii "sub") (some (ascii "%s"))
    [.str (some (r ++ 0 :: q))]
  rw [hsame₁] at hsame
  intro heffective
  obtain ⟨⟨j, hj, hword, hterminated, -⟩, -⟩ :=
    heffective ⟨i, by rw [hsame]; exact hi, by rw [hsame]⟩ _ Relation.ReflTransGen.refl
  have h' := h₁.onlyFrees (@onlyFrees_ducqLog env (w.conn i).word .info (ascii "sub")
    (some (ascii "%s")) [.str (some (r ++ 0 :: q))] w₁)
  have hji : j = i := h'.unique hj (by rw [hsame]; exact hi) (by rw [hword, hsame])
  rw [hji, hsame] at hterminated
  exact hunterminated hterminated

/-- **Who is left after a subscription to the log route**: the subscriber is not if the
line about its subscription was written and could not be sent to it. -/
theorem registered_sub_iff (h : TableInv isCode w) {i : Fin ducqMaxConnections}
    (hi : (w.conn i).IsClient) {buffer : List Byte} (hr : HasRoute buffer ducqLogRoute)
    (hok : (sub env (w.conn i).word buffer w).1 = .ok) :
    Registered (sub env (w.conn i).word buffer w).2 (w.conn i).word ↔
      ¬ LostToOwnLine env w (w.conn i).word := by
  obtain ⟨q, payload, hsub⟩ :=
    @subCommand_of_hasRoute env (ascii "sub") buffer _ hr (w.conn i).word w
  rw [sub, hsub] at hok ⊢
  obtain ⟨w₁, answer, hconn₁, hallow, hcalls, hrun⟩ := subRoute_of_ok h hi hok
  rw [hrun]
  have hsame : w₁.conn i =
      { w.conn i with bytes := CharArray.strncpy _ (ducqLogRoute ++ 0 :: q) } := by
    rw [hconn₁, World.conn_setConn_self]
  have h₁ : TableInv isCode w₁ :=
    (h.rewrite i (CharArray.strncpy _ (ducqLogRoute ++ 0 :: q))).onlyFrees fun j =>
      Or.inl (hconn₁ j)
  have hi₁ : (w₁.conn i).IsClient := by
    rw [hsame]
    exact hi
  have hword : (w₁.conn i).word = (w.conn i).word := by rw [hsame]
  have hcstr : cstr (ducqLogRoute ++ 0 :: q) = ducqLogRoute := cstr_append_zero hr.zero_notMem q
  have hshort : (cstr (ducqLogRoute ++ 0 :: q)).length < ducqMaxRouteLen := by
    rw [hcstr]
    decide
  have hterminated : (w₁.conn i).bytes.Terminated := by
    rw [hsame]
    exact CharArray.terminated_strncpy_iff.mpr hshort
  have hroute : cstr (w₁.conn i).bytes.bytes = ducqLogRoute := by
    rw [hsame, CharArray.cstr_strncpy_of_lt hshort, hcstr]
  -- the answer was one send, and the line is the next one
  have hcount : sendCount (w.conn i).word w₁.calls = sendCount (w.conn i).word w.calls + 1 := by
    rw [hcalls, sendCount_append]
    simp [sendCount]
  have hleft := @registered_ducqLog_iff isCode env w₁ h₁ i hi₁ (w.conn i).word .info (ascii "sub")
    _ _ _ (format_string (some (ducqLogRoute ++ 0 :: q)))
  rw [hword] at hleft
  rw [hleft, LostToLine, onLog_iff hi₁ hterminated, and_iff_left hroute, hallow, Reached, hword,
    hcount]
  rfl

/-- **A subscriber to the log route can be failed**: log lines are allowed, and the client
publishes on the route itself, and is sent its acknowledgement and nothing after it. -/
theorem not_effective_of_log (h : TableInv isCode w) {d : DucqI} (hd : Registered w d) :
    ¬ SubscriptionEffective isCode w d ducqLogRoute := by
  intro heffective
  obtain ⟨i, hi, rfl⟩ := hd
  set w₁ := (Op.allowLogRoute true).run Env.quiet w
  have hstep : StepKeeping isCode (w.conn i).word w w₁ :=
    ⟨Env.quiet, .allowLogRoute true, trivial, id, rfl, i, hi, rfl⟩
  have h₁ : TableInv isCode w₁ := h.onlyFrees fun j => Or.inl rfl
  have hi₁ : (w₁.conn i).IsClient := hi
  obtain ⟨hholds, hsends⟩ := heffective ⟨i, hi, rfl⟩ w₁ (Relation.ReflTransGen.single hstep)
  set env : Env := { Env.quiet with
    sendResult := fun _ n => if n = sendCount (w₁.conn i).word w₁.calls then .ok else .ewrite }
  have hr : HasRoute (ascii "pub LOG\n" ++ [0]) ducqLogRoute := ⟨_, _, rfl, rfl⟩
  have hack : env.sendResult (w₁.conn i).word (sendCount (w₁.conn i).word w₁.calls) = .ok :=
    if_pos rfl
  have hok : (pub env (w₁.conn i).word (ascii "pub LOG\n" ++ [0]) 8 w₁).1 = .ok :=
    (pubCommand_eq_ok_iff (h₁.client_ne_zero i hi₁) _ 8 w₁).mpr ⟨⟨_, hr, rfl⟩, hack⟩
  have hregistered := (sendsTo_iff_registered h₁ hholds ⟨i, hi₁, rfl⟩ hr hok).mp
    (hsends env (w₁.conn i).word _ 8 ⟨i, hi₁, rfl⟩ hr hok)
  refine (registered_pubAcknowledge_iff h₁ hi₁ hi₁ hr rfl hack).mp hregistered ⟨?_, ?_⟩
  · obtain ⟨j, hj, hword, hterminated, hroute⟩ := hholds
    obtain rfl := h₁.unique hj hi₁ hword
    exact (onLog_iff hj hterminated).mpr ⟨rfl, hroute⟩
  · rw [if_pos rfl]
    exact fun hc => absurd ((if_neg (Nat.succ_ne_self _)).symm.trans hc) DucqState.noConfusion

/-- **An acknowledged subscription has effect exactly if its route is shorter than the
array it is copied into, and is not the log route**, a subscriber to which is safe only if it
is lost at once. -/
theorem subscriptionEffective_iff (hw : Reachable isCode w) {d : DucqI} (hd : Registered w d)
    {buffer r : List Byte} (hr : HasRoute buffer r) (hok : (sub env d buffer w).1 = .ok) :
    SubscriptionEffective isCode (sub env d buffer w).2 d r ↔
      r.length < ducqMaxRouteLen ∧ (r = ducqLogRoute → LostToOwnLine env w d) := by
  have h := hw.tableInv
  by_cases hlog : r = ducqLogRoute
  · obtain ⟨i, hi, rfl⟩ := hd
    subst hlog
    have hregistered := registered_sub_iff h hi hr hok
    have hafter : TableInv isCode (sub env (w.conn i).word buffer w).2 :=
      @Op.run_tableInv isCode env w h (.sub (w.conn i).word buffer) ⟨i, hi, rfl⟩
    rw [and_iff_right (by decide)]
    constructor
    · intro heffective _
      by_contra hlost
      exact not_effective_of_log hafter (hregistered.mpr hlost) heffective
    · intro hlost hleft
      exact absurd (hlost rfl) (hregistered.mp hleft)
  · rw [and_iff_left fun hc => absurd hc hlog]
    constructor
    · intro heffective
      by_contra hlen
      exact not_effective_of_length_ge h hd hr hok (not_lt.mp hlen) heffective
    · exact fun hlen => effective_of_length_lt h hd hr hlen hlog

/-- One client. -/
def oneClient : List (Env × Op) := [(Env.quiet, .addClient 4 100)]

theorem reachable_oneClient : Reachable (fun _ => False) (runOps oneClient World.init) :=
  Reachable.runOps Relation.ReflTransGen.refl (by decide)

/-- It subscribes to `a`. -/
theorem subscriptionEffective_oneClient :
    SubscriptionEffective (fun _ => False)
      (sub Env.quiet 100 (ascii "sub a\n") (runOps oneClient World.init)).2 100 (ascii "a") := by
  have hr : HasRoute (ascii "sub a\n") (ascii "a") := ⟨_, _, rfl, rfl⟩
  exact (subscriptionEffective_iff reachable_oneClient (by decide) hr (by decide)).mpr
    ⟨by decide, fun hlog => absurd hlog (by decide)⟩

/-- A route of a hundred bytes, in a message of a hundred and five. -/
def longRoute : List Byte := List.replicate ducqMaxRouteLen 97

def longMessage : List Byte := ascii "sub" ++ space :: (longRoute ++ newline :: [0])

/-- **The route of a hundred bytes is acknowledged and has no effect.** -/
theorem not_subscriptionEffective_longRoute :
    Reachable (fun _ => False) (runOps oneClient World.init) ∧
      Registered (runOps oneClient World.init) 100 ∧
      HasRoute longMessage longRoute ∧ longMessage.length < ducqMsgsz ∧
      (sub Env.quiet 100 longMessage (runOps oneClient World.init)).1 = .ok ∧
      ¬ SubscriptionEffective (fun _ => False)
        (sub Env.quiet 100 longMessage (runOps oneClient World.init)).2 100 longRoute := by
  have hr : HasRoute longMessage longRoute :=
    hasRoute_message (by decide) (by decide) (by decide) (by decide) [0]
  have hok : (sub Env.quiet 100 longMessage (runOps oneClient World.init)).1 = .ok := by decide
  refine ⟨reachable_oneClient, by decide, hr, by decide, hok, ?_⟩
  exact not_effective_of_length_ge reachable_oneClient.tableInv (by decide) hr hok (by decide)

end Ducq
