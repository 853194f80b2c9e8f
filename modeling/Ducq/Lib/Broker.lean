import Ducq.Lib.FirstFit
import Ducq.Lib.Registry

/-!
# A publish and subscribe broker

A broker is a registry of clients, each with a pattern, that passes on what is published
to the clients whose pattern accepts its topic.  It answers whoever makes a request, it
keeps the last message of a topic for those who ask for it later, and it may write lines
about its work to the clients that listen to them.

Clients can be lost.  `reach k n` says whether the `n`-th message to `k` gets through, and
what does not get through is the end of the client, in the middle of whatever the broker
is doing.  `Step` is one request, from a broker to the next, with what it has published;
open are only the lines, and who goes of several clients that a request may mean.

What the broker is for is `Run.follows`: whatever else is requested, and whoever is lost,
a client is sent what was published for its pattern, in order, each message once, without
a gap, up to the message that does not reach it.
-/

open FirstFit

/-- A broker with room for `capacity` clients, and for the last messages of `rows` topics. -/
structure Broker (K R M : Type*) [DecidableEq R] (capacity rows : ℕ) where
  registry : Registry K R capacity
  sent : K → List M
  last : BoundedMap R M rows
  logging : Bool

namespace Broker

variable {K R M : Type*}

/-- What the broker and its clients have agreed on: which topics a pattern accepts, which
pattern listens to the lines, which one a new client has, and the answers to a request that
is granted and to one for a message that is not there. -/
structure Rules (R M : Type*) where
  accepts : R → R → Bool
  listens : R → Bool
  blank : R
  ack : M
  unknown : Bool → M

/-- What was published for a pattern. -/
def meant (c : Rules R M) (r : R) (out : List (R × M)) : List M :=
  (out.filter fun p => c.accepts r p.1).map Prod.snd

theorem meant_singleton (c : Rules R M) (r t : R) (m : M) :
    meant c r [(t, m)] = if c.accepts r t = true then [m] else [] := by
  rw [meant, List.filter_singleton]
  cases c.accepts r t
  · rfl
  · rfl

theorem meant_append (c : Rules R M) (r : R) (out out' : List (R × M)) :
    meant c r (out ++ out') = meant c r out ++ meant c r out' := by
  rw [meant, List.filter_append, List.map_append, meant, meant]

variable [DecidableEq R] {capacity rows : ℕ}

/-- The broker before anybody has come. -/
def empty (blank : R) (logging : Bool) : Broker K R M capacity rows :=
  ⟨Registry.empty blank, fun _ => [], BoundedMap.empty, logging⟩

/-! ## What a client is sent -/

/-- A client has been sent these messages and no others: all of them if it is still there,
and else all up to some message.  Its pattern is what it was, and who is not a client is
sent nothing and does not become one. -/
structure Follows (k : K) (ms : List M) (b b' : Broker K R M capacity rows) : Prop where
  mem_keys : k ∈ b'.registry.keys → k ∈ b.registry.keys
  value : b'.registry.value k = b.registry.value k
  sent : ∃ ms', ms' <+: ms ∧ b'.sent k = b.sent k ++ ms' ∧ (k ∈ b'.registry.keys → ms' = ms)
  outside : k ∉ b.registry.keys → b'.sent k = b.sent k

namespace Follows

variable {k : K} {ms ms' : List M} {b b' b'' : Broker K R M capacity rows}

/-- Nothing was sent. -/
theorem quiet (hkeys : k ∈ b'.registry.keys → k ∈ b.registry.keys)
    (hvalue : b'.registry.value k = b.registry.value k) (hsent : b'.sent k = b.sent k) :
    Follows k [] b b' :=
  ⟨hkeys, hvalue, ⟨[], List.prefix_refl _, by rw [hsent, List.append_nil], fun _ => rfl⟩,
    fun _ => hsent⟩

theorem refl (k : K) (b : Broker K R M capacity rows) : Follows k [] b b := quiet id rfl rfl

theorem trans (h : Follows k ms b b') (h' : Follows k ms' b' b'') :
    Follows k (ms ++ ms') b b'' := by
  obtain ⟨p, hp, hsent, hall⟩ := h.sent
  obtain ⟨q, hq, hsent', hall'⟩ := h'.sent
  refine ⟨fun hk => h.mem_keys (h'.mem_keys hk), h'.value.trans h.value, ?_, fun hk => ?_⟩
  · by_cases hk : k ∈ b'.registry.keys
    · -- still there: it has all of the first messages
      obtain rfl := hall hk
      refine ⟨p ++ q, (List.prefix_append_right_inj p).mpr hq, ?_, fun hk'' => ?_⟩
      · rw [hsent', hsent, List.append_assoc]
      · rw [hall' hk'']
    · refine ⟨p, hp.trans (List.prefix_append _ _), ?_, fun hk'' => absurd (h'.mem_keys hk'') hk⟩
      rw [h'.outside hk, hsent]
  · rw [h'.outside fun hk' => hk (h.mem_keys hk'), h.outside hk]

end Follows

/-! ## What the broker does -/

section Parts

variable [DecidableEq K]

/-- One message to one client. -/
def give (b : Broker K R M capacity rows) (k : K) (m : M) : Broker K R M capacity rows :=
  { b with sent := Function.update b.sent k (b.sent k ++ [m]) }

/-- A client goes. -/
def leave (b : Broker K R M capacity rows) (k : K) : Broker K R M capacity rows :=
  { b with registry := b.registry.removeAll [k] }

/-- A message to the clients whose pattern is selected; whom it does not reach goes. -/
def post (b : Broker K R M capacity rows) (reach : K → ℕ → Bool) (selects : R → Bool) (m : M) :
    Broker K R M capacity rows :=
  { b with
    registry := b.registry.retain fun k =>
      !selects (b.registry.value k) || reach k (b.sent k).length
    sent := fun k =>
      if k ∈ b.registry.keys ∧ selects (b.registry.value k) = true then b.sent k ++ [m]
      else b.sent k }

/-- A line to those who listen, if there is one. -/
def note (c : Rules R M) (reach : K → ℕ → Bool) (line : Option M)
    (b : Broker K R M capacity rows) : Broker K R M capacity rows :=
  match line with
  | none => b
  | some line => b.post reach (fun r => b.logging && c.listens r) line

/-- The last message of a topic, if there is room for it.  The blank topic has none. -/
def keep (c : Rules R M) (t : R) (m : M) (b : Broker K R M capacity rows) :
    Broker K R M capacity rows :=
  if t = c.blank then b else { b with last := (b.last.set t m).getD b.last }

/-- The answer to a client that subscribes to `r`. -/
def answer (c : Rules R M) (r : R) (replay : Bool) (b : Broker K R M capacity rows) : M :=
  if replay then (b.last.get? r).getD (c.unknown (decide b.last.Full)) else c.ack

/-- A new pattern for a client, and the answer. -/
def enroll (c : Rules R M) (k : K) (r : R) (replay : Bool) (b : Broker K R M capacity rows) :
    Broker K R M capacity rows :=
  give { b with registry := b.registry.write k r } k (b.answer c r replay)

/-- A message is accepted for publication. -/
def accept (c : Rules R M) (k : K) (t : R) (stored : M) (b : Broker K R M capacity rows) :
    Broker K R M capacity rows :=
  (b.keep c t stored).give k c.ack

end Parts

/-! ## Requests -/

/-- What can be asked of the broker. -/
inductive Request (K R M : Type*) where
  | table (op : Registry.Op K R)
  | allow (logging : Bool)
  | note
  | give (k : K) (m : M)
  | keep (t : R) (m : M)
  | publish (k : K) (t : R) (m stored : M)
  | subscribe (k : K) (r : R) (replay : Bool)
  | refuse (k : K) (m : M) (stays : Bool)
  | expel (k : K) (named : K → Bool) (found missing : M)
  | idle

/-- The request concerns the client itself: it comes from the client, or adds it, or gives
it a pattern or a message of its own. -/
def Request.Concerns (k : K) : Request K R M → Prop
  | table (.add k') | table (.write k' _) => k' = k
  | give k' _ | publish k' _ _ _ | subscribe k' _ _ | refuse k' _ _ | expel k' _ _ _ => k' = k
  | _ => False

variable [DecidableEq K]

/-- One request, and what is published by it. -/
inductive Step (c : Rules R M) (reach : K → ℕ → Bool) :
    Broker K R M capacity rows → Request K R M → List (R × M) →
      Broker K R M capacity rows → Prop where
  | table {b : Broker K R M capacity rows} {op : Registry.Op K R} {res : Registry.Result K R}
      {r : Registry K R capacity} (h : Registry.Step c.blank b.registry op res r) :
      Step c reach b (.table op) [] { b with registry := r }
  | allow (b : Broker K R M capacity rows) (logging : Bool) :
      Step c reach b (.allow logging) [] { b with logging := logging }
  | note (b : Broker K R M capacity rows) (line : Option M) :
      Step c reach b .note [] (b.note c reach line)
  | give (b : Broker K R M capacity rows) (k : K) (m : M) :
      Step c reach b (.give k m) [] (b.give k m)
  | keep (b : Broker K R M capacity rows) (t : R) (m : M) :
      Step c reach b (.keep t m) [] (b.keep c t m)
  | publish {b : Broker K R M capacity rows} {k : K} (hk : reach k (b.sent k).length = true)
      (t : R) (m stored : M) (line line' : Option M) :
      Step c reach b (.publish k t m stored) [(t, m)]
        ((((b.accept c k t stored).note c reach line).post reach (fun r => c.accepts r t) m).note
          c reach line')
  | publishLost {b : Broker K R M capacity rows} {k : K}
      (hk : reach k (b.sent k).length = false) (t : R) (m stored : M) (line : Option M) :
      Step c reach b (.publish k t m stored) []
        (((b.accept c k t stored).note c reach line).leave k)
  | subscribe {b : Broker K R M capacity rows} {k : K}
      (hk : reach k (b.sent k).length = true) (r : R) (replay : Bool) (line : Option M) :
      Step c reach b (.subscribe k r replay) [] ((b.enroll c k r replay).note c reach line)
  | subscribeLost {b : Broker K R M capacity rows} {k : K}
      (hk : reach k (b.sent k).length = false) (r : R) (replay : Bool) (line : Option M) :
      Step c reach b (.subscribe k r replay) []
        (((b.enroll c k r replay).note c reach line).leave k)
  | refuse (b : Broker K R M capacity rows) (k : K) (m : M) (line : Option M) :
      Step c reach b (.refuse k m true) [] ((b.give k m).note c reach line)
  | dismiss (b : Broker K R M capacity rows) (k : K) (m : M) (line : Option M) :
      Step c reach b (.refuse k m false) [] (((b.give k m).note c reach line).leave k)
  | expel {b : Broker K R M capacity rows} {v : K} {named : K → Bool}
      (hv : v ∈ b.registry.keys) (hnamed : named v = true) (k : K) (found missing : M)
      (line : Option M) :
      Step c reach b (.expel k named found missing) []
        (((b.leave v).note c reach line).give k found)
  | expelNone {b : Broker K R M capacity rows} {named : K → Bool}
      (hnone : ∀ v ∈ b.registry.keys, named v = false) (k : K) (found missing : M)
      (line : Option M) :
      Step c reach b (.expel k named found missing) [] ((b.note c reach line).give k missing)
  | idle (b : Broker K R M capacity rows) : Step c reach b .idle [] b

/-- One request after the other, each with who can be reached, and all that is published. -/
inductive Run (c : Rules R M) : Broker K R M capacity rows →
    List ((K → ℕ → Bool) × Request K R M) → List (R × M) → Broker K R M capacity rows → Prop where
  | nil (b : Broker K R M capacity rows) : Run c b [] [] b
  | cons {b b' b'' : Broker K R M capacity rows} {reach : K → ℕ → Bool} {req : Request K R M}
      {out outs : List (R × M)} {reqs : List ((K → ℕ → Bool) × Request K R M)}
      (h : Step c reach b req out b') (hs : Run c b' reqs outs b'') :
      Run c b ((reach, req) :: reqs) (out ++ outs) b''

/-! ## What the parts and the requests send -/

section Sent

variable {c : Rules R M} {reach : K → ℕ → Bool} {k : K} {ms ms' : List M}
  {b b' : Broker K R M capacity rows}

namespace Follows

theorem give {k' : K} (hk : k' ≠ k) (m : M) (b : Broker K R M capacity rows) :
    Follows k [] b (b.give k' m) :=
  quiet id rfl (Function.update_of_ne (Ne.symm hk) _ _)

theorem leave (k k' : K) (b : Broker K R M capacity rows) : Follows k [] b (b.leave k') :=
  quiet (fun hk => (Finset.mem_filter.mp hk).1) rfl rfl

/-- **A message that is posted** is sent to those whose pattern is selected. -/
theorem post (k : K) (reach : K → ℕ → Bool) (selects : R → Bool) (m : M)
    (b : Broker K R M capacity rows) :
    Follows k (if selects (b.registry.value k) = true then [m] else []) b
      (b.post reach selects m) := by
  have hmem : k ∈ (b.post reach selects m).registry.keys → k ∈ b.registry.keys := fun hk =>
    (Finset.mem_filter.mp hk).1
  by_cases hk : k ∈ b.registry.keys
  · refine ⟨hmem, rfl, ⟨_, List.prefix_refl _, ?_, fun _ => rfl⟩, fun hc => absurd hk hc⟩
    rw [Broker.post]
    dsimp only
    by_cases hselects : selects (b.registry.value k) = true
    · rw [if_pos ⟨hk, hselects⟩, if_pos hselects]
    · rw [if_neg fun hc => hselects hc.2, if_neg hselects, List.append_nil]
  · have hsent : (b.post reach selects m).sent k = b.sent k := if_neg fun hc => hk hc.1
    exact ⟨hmem, rfl, ⟨[], List.nil_prefix, by rw [hsent, List.append_nil],
      fun hc => absurd (hmem hc) hk⟩, fun _ => hsent⟩

/-- A line is not sent to those who do not listen. -/
theorem note (hlistens : c.listens (b.registry.value k) = false) (reach : K → ℕ → Bool)
    (line : Option M) : Follows k [] b (b.note c reach line) := by
  cases line with
  | none => exact refl k b
  | some line =>
    have hpost := post k reach (fun r => b.logging && c.listens r) line b
    rwa [hlistens, Bool.and_false, if_neg Bool.false_ne_true] at hpost

/-- The same after other requests. -/
theorem noted (h : Follows k ms b b') (hlistens : c.listens (b.registry.value k) = false)
    (reach : K → ℕ → Bool) (line : Option M) : Follows k ms b (b'.note c reach line) := by
  have hnote := h.trans (note (c := c) (by rwa [h.value]) reach line)
  rwa [List.append_nil] at hnote

omit [DecidableEq K] in
theorem keep (k : K) (c : Rules R M) (t : R) (m : M) (b : Broker K R M capacity rows) :
    Follows k [] b (b.keep c t m) := by
  unfold Broker.keep
  split_ifs
  · exact refl k b
  · exact quiet id rfl rfl

theorem accept (k : K) (c : Rules R M) (t : R) (stored : M) {k' : K} (hk : k' ≠ k)
    (b : Broker K R M capacity rows) : Follows k [] b (b.accept c k' t stored) :=
  (keep k c t stored b).trans (give hk _ _)

theorem enroll (k : K) (c : Rules R M) (r : R) (replay : Bool) {k' : K} (hk : k' ≠ k)
    (b : Broker K R M capacity rows) : Follows k [] b (b.enroll c k' r replay) :=
  quiet id (Function.update_of_ne (Ne.symm hk) _ _) (Function.update_of_ne (Ne.symm hk) _ _)

/-- What the registry does of itself is sent to nobody. -/
theorem table {op : Registry.Op K R} {res : Registry.Result K R} {r : Registry K R capacity}
    (h : Registry.Step c.blank b.registry op res r)
    (hop : ¬ (Request.table op : Request K R M).Concerns k) :
    Follows k [] b { b with registry := r } := by
  generalize hr : b.registry = r₀ at h
  have hkeys : k ∈ r.keys → k ∈ r₀.keys := by
    cases h with
    | add hk hroom =>
      exact fun hmem => (Finset.mem_insert.mp hmem).resolve_left fun heq => hop heq.symm
    | remove hk => exact fun hmem => (Finset.mem_filter.mp hmem).1
    | loop control es => exact fun hmem => (Finset.mem_filter.mp hmem).1
    | _ => exact id
  have hvalue : r.value k = r₀.value k := by
    cases h with
    | add hk hroom => exact Function.update_of_ne (fun heq => hop heq.symm) _ _
    | write hk v => exact Function.update_of_ne (fun heq => hop heq.symm) _ _
    | _ => rfl
  rw [← hr] at hkeys hvalue
  exact quiet hkeys hvalue rfl

end Follows

/-- **One request** sends a client what it publishes for the client's pattern. -/
theorem Step.follows {req : Request K R M} {out : List (R × M)} (h : Step c reach b req out b')
    (hreq : ¬ req.Concerns k) (hlistens : c.listens (b.registry.value k) = false) :
    Follows k (meant c (b.registry.value k) out) b b' := by
  cases h with
  | table h => exact Follows.table h hreq
  | allow logging => exact Follows.quiet id rfl rfl
  | note line => exact Follows.note hlistens reach line
  | give k' m => exact Follows.give hreq m b
  | keep t m => exact Follows.keep k c t m b
  | @publish k' hk t m stored line line' =>
    have hpost := ((Follows.accept k c t stored hreq b).noted hlistens reach line).trans
      (Follows.post k reach (fun r => c.accepts r t) m _)
    have hvalue : (((b.accept c k' t stored).note c reach line).registry.value k) =
        b.registry.value k := ((Follows.accept k c t stored hreq b).noted hlistens reach line).value
    rw [hvalue, List.nil_append, ← meant_singleton] at hpost
    exact hpost.noted hlistens reach line'
  | @publishLost k' hk t m stored line =>
    exact ((Follows.accept k c t stored hreq b).noted hlistens reach line).trans
      (Follows.leave k k' _)
  | @subscribe k' hk r replay line =>
    exact (Follows.enroll k c r replay hreq b).noted hlistens reach line
  | @subscribeLost k' hk r replay line =>
    exact ((Follows.enroll k c r replay hreq b).noted hlistens reach line).trans
      (Follows.leave k k' _)
  | refuse k' m line => exact (Follows.give hreq m b).noted hlistens reach line
  | dismiss k' m line =>
    exact ((Follows.give hreq m b).noted hlistens reach line).trans (Follows.leave k k' _)
  | @expel v named hv hnamed k' found missing line =>
    exact ((Follows.leave k v b).noted hlistens reach line).trans (Follows.give hreq _ _)
  | @expelNone named hnone k' found missing line =>
    exact ((Follows.refl k b).noted hlistens reach line).trans (Follows.give hreq _ _)
  | idle => exact Follows.refl k b

/-- **A client is sent what was published for its pattern**, in order and each message once:
all of it if it is still there at the end, and else all up to some message.  Nobody else is
sent any of it. -/
theorem Run.follows {reqs : List ((K → ℕ → Bool) × Request K R M)} {outs : List (R × M)}
    (h : Run c b reqs outs b') (hreqs : ∀ req ∈ reqs, ¬ req.2.Concerns k)
    (hlistens : c.listens (b.registry.value k) = false) :
    Follows k (meant c (b.registry.value k) outs) b b' := by
  induction h with
  | nil b => exact Follows.refl k b
  | @cons b b' b'' reach req out outs reqs hstep _ ih =>
    rw [List.forall_mem_cons] at hreqs
    have hfirst := hstep.follows hreqs.1 hlistens
    rw [meant_append, ← hfirst.value]
    rw [← hfirst.value] at hfirst hlistens
    exact hfirst.trans (ih hreqs.2 hlistens)

end Sent

end Broker
