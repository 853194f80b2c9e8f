import Ducq.System.Delivery
import Ducq.Tcp.Listener

/-!
# From a publisher to a listener

What the reactor sends to a subscriber over TCP is framed, cut by the network in some way,
put together again by `ducq_tcp_recv`, looked over by `ducq_receive` and handed to the function
that `ducq_listen` was given for messages.  All the way through, the messages are those that
were published for the subscriber's route.
-/

namespace Ducq

open CMemory ByteStream Fifo Client

variable {isCode : ℕ → Prop} {env : Env} {w : World}

/-- The dispatcher calls a command for a message that begins with its name, and has received
that message into a buffer. -/
def Op.Dispatched : Op → Prop
  | pub _ buffer size => ascii "pub " <+: buffer.take size ∧ size < ducqMsgsz
  | publish _ buffer size => ascii "publish " <+: buffer.take size ∧ size < ducqMsgsz
  | _ => True

instance (op : Op) : Decidable op.Dispatched :=
  match op with
  | .pub _ buffer size =>
    inferInstanceAs (Decidable (ascii "pub " <+: buffer.take size ∧ size < ducqMsgsz))
  | .publish _ buffer size =>
    inferInstanceAs (Decidable (ascii "publish " <+: buffer.take size ∧ size < ducqMsgsz))
  | .addServer _ _ _ | .addClient _ _ | .subscribeTo _ _ | .delete _ | .loop _
  | .allowLogRoute _ | .setLastMsg _ _ | .send _ _ | .id _ | .log _ _ _ _ _ | .sub _ _
  | .subscribe _ _ | .unsub _ _ => instDecidableTrue

/-- What the commands publish begins with the name of one of them. -/
theorem of_mem_published {steps : List (Env × Op)} (hdispatched : ∀ step ∈ steps, step.2.Dispatched)
    {p : List Byte × List Byte} (h : p ∈ published steps w) :
    (ascii "pub " <+: p.2 ∨ ascii "publish " <+: p.2) ∧ p.2.length < ducqMsgsz := by
  have hone : ∀ {name buffer : List Byte} {size : ℕ},
      name <+: buffer.take size ∧ size < ducqMsgsz →
      p ∈ (routeOf buffer).toList.map (fun r => (r, buffer.take size)) →
      name <+: p.2 ∧ p.2.length < ducqMsgsz := by
    intro name buffer size hd hp
    obtain ⟨r, -, rfl⟩ := List.mem_map.mp hp
    exact ⟨hd.1, lt_of_le_of_lt (List.length_take_le _ _) hd.2⟩
  induction steps generalizing w with
  | nil => exact absurd h List.not_mem_nil
  | cons step steps ih =>
    rcases List.mem_append.mp h with h | h
    · have hd := hdispatched step List.mem_cons_self
      obtain ⟨env, op⟩ := step
      cases op with
      | pub d buffer size =>
        simp only [Op.published] at h
        split_ifs at h
        · exact (hone hd h).imp_left .inl
        · exact absurd h List.not_mem_nil
      | publish d buffer size =>
        simp only [Op.published] at h
        split_ifs at h
        · exact (hone hd h).imp_left .inr
        · exact absurd h List.not_mem_nil
      | _ => exact absurd h List.not_mem_nil
    · exact ih (fun step hstep => hdispatched step (List.mem_cons_of_mem _ hstep)) h

/-- **What is published travels in a frame** and is not taken for the protocol. -/
theorem of_mem_publishedFor {steps : List (Env × Op)}
    (hdispatched : ∀ step ∈ steps, step.2.Dispatched) {i : Fin ducqMaxConnections} {m : List Byte}
    (h : m ∈ publishedFor steps w i) : (m ≠ [] ∧ m.length < ducqMsgsz) ∧ Plain m := by
  obtain ⟨p, hp, rfl⟩ := List.mem_map.mp h
  obtain ⟨hname, hlength⟩ := of_mem_published hdispatched (List.mem_of_mem_filter hp)
  -- no word of the protocol begins like the name of a command
  have hp : ascii "p" <+: p.2 := by
    rcases hname with h | h
    · exact List.IsPrefix.trans (by decide) h
    · exact List.IsPrefix.trans (by decide) h
  refine ⟨⟨fun hnil => ?_, hlength⟩, fun word hword => ?_⟩
  · rw [hnil] at hp
    exact absurd hp (by decide)
  · obtain ⟨rest, hrest⟩ := hp
    have hbegins : ascii "p" <+: cstr (p.2 ++ [0]) := by
      rw [← hrest, List.append_assoc, cstr_append_of_notMem (by decide)]
      exact List.prefix_append _ _
    exact not_starts_of_starts hbegins (by revert word; decide)

/-- **A listener hears what is published for it.**  A subscriber that does not listen to the
log, in a state that a valid run has led to; a further valid run in which the subscriber does
nothing itself and is still there in the end, with commands called as the dispatcher calls them;
in both runs, routes and messages that fit into their arrays; and a TCP connection to the
subscriber that loses nothing.  Then `ducq_listen`, in managed mode and with functions that let
it go on and receive nothing themselves, goes round once for every message that was published
for the subscriber's route, and hands each to the function for messages, once, unchanged and in
the order of publication.  So it is for every interleaving of the other clients, and however the
connection cuts the stream. -/
theorem listener_hears {before steps : List (Env × Op)}
    (hbefore : ValidOps isCode before World.init) (hbefore' : OpsFit before World.init)
    (hw : runOps before World.init = w) (hvalid : ValidOps isCode steps w)
    (hfits : OpsFit steps w) (hdispatched : ∀ step ∈ steps, step.2.Dispatched)
    {i : Fin ducqMaxConnections} (hi : (w.conn i).IsClient)
    (hlog : cstr (w.conn i).bytes.bytes ≠ ducqLogRoute)
    (hsteps : ∀ step ∈ steps, ¬ step.2.Concerns (w.conn i).word)
    (hthere : Registered (runOps steps w) (w.conn i).word) {sender receiver : Socket}
    (hwx : Writable sender.wx) (htx : sender.tx = [])
    (hrx : bytes receiver.rx =
      (sendAll ((messagesTo (w.conn i).word (runOps steps w).calls).drop
        (messagesTo (w.conn i).word w.calls).length) sender).2.tx)
    (hf : hardFailure receiver.rx = none) {wire : Wire} (hwire : OverTcp wire receiver)
    {σ : Type} {ctx : ListenCtx σ} (hctx : Steady ctx) (stack : ℕ → Byte) (c : σ)
    {past : List Exchange} (hpast : receives past = 0) :
    (∃ turns l, Run (Listens (some wire) ctx) (startListening stack c past) turns l ∧
      turns.length = (publishedFor steps w i).length) ∧
    ∀ turns l, Run (Listens (some wire) ctx) (startListening stack c past) turns l →
      turns.length ≤ (publishedFor steps w i).length →
      handed turns = (publishedFor steps w i).take turns.length := by
  obtain ⟨b, -, hb⟩ := Brokered.init.runOps hbefore hbefore'
  rw [hw] at hb
  obtain ⟨ms, -, hsent, hall⟩ := hb.sent_published hvalid hfits hi hlog hsteps
  rw [hsent, List.drop_left, hall hthere] at hrx
  have hmessages : ∀ m ∈ publishedFor steps w i, (m ≠ [] ∧ m.length < ducqMsgsz) ∧ Plain m :=
    fun m hm => of_mem_publishedFor hdispatched hm
  obtain ⟨fs, hfs, -, hstream⟩ := sendAll_of_writable (fun m hm => (hmessages m hm).1) hwx
  rw [hstream, htx, List.nil_append] at hrx
  have hlength : (publishedFor steps w i).length = fs.length := by rw [← hfs, List.length_map]
  have hplain : ∀ f ∈ fs, Plain f.payload := fun f hmem =>
    (hmessages _ (hfs ▸ List.mem_map_of_mem hmem)).2
  have hnone : receives (startListening stack c past).past = 0 := hpast
  constructor
  · refine listens_of_stream hwire hctx hrx hf le_rfl (fun f hmem l hrecv => ?_) rfl (by omega)
    exact (listenTurn_plain hctx hrecv (hplain f (List.mem_of_mem_take hmem))).2
  · intro turns l hrun hle
    rw [handed_of_stream hwire hctx hrx hf hrun (by omega), hnone, List.drop_zero, hfs]
    refine List.filter_eq_self.mpr fun m hm => decide_eq_true ?_
    exact (hmessages m (List.mem_of_mem_take hm)).2

/-- A listener for messages. -/
def messageListener : ListenCtx Unit := ⟨some fun _ _ c _ => (0, c, []), none, none, none, false⟩

theorem messageListener_steady : Steady messageListener where
  managed := rfl
  onMessage := Option.some_ne_none _
  goesOn f hf msg size c past := by
    obtain rfl := Option.some.inj hf
    rfl
  receivesNothing state callback f h msg size c past := by
    cases state <;> first
      | exact absurd h (Option.some_ne_none _).symm
      | (obtain ⟨-, rfl⟩ := Prod.mk.inj (Option.some.inj h); rfl)

/-- What the first of two subscribers hears of three publications, the network having cut the
stream inside a header and inside a message. -/
theorem listener_hears_publications : ∃ turns l,
    Run (Listens (some (Wire.overTcp (Socket.receiving
      [.chunk 55 [], .chunk 10 (ascii "pub a\nx1"), .fail .eintr,
        .chunk 50 (ascii "\npublish ab\nz")]))) messageListener)
      (startListening (fun _ => 0) () []) turns l ∧
    handed turns = [ascii "pub a\nx", ascii "publish ab\nz"] := by
  obtain ⟨⟨turns, l, hrun, hlength⟩, hall⟩ :=
    @listener_hears (fun _ => False) (runOps subscribed World.init) subscribed publications
      (by decide) (by decide) rfl (by decide) (by decide) (by decide) 0 (by decide) (by decide)
      (by decide) (by decide) ⟨[], [], [], none, []⟩ _ (by simp [Writable]) rfl (by decide) rfl
      _ (overTcp_overTcp (Socket.receiving
        [.chunk 55 [], .chunk 10 (ascii "pub a\nx1"), .fail .eintr,
          .chunk 50 (ascii "\npublish ab\nz")]))
      Unit messageListener messageListener_steady (fun _ => 0) () [] rfl
  refine ⟨turns, l, hrun, ?_⟩
  rw [hall turns l hrun hlength.le, hlength, List.take_length]
  decide

end Ducq
