import Ducq.System.Run

/-!
# What a publication delivers

The broadcast of `pub` compares every stored route with the published one and sends to
the clients whose route accepts it.  Here that loop is described from the state it
starts in alone: whom it sends to, in which order, who is gone afterwards and what the
context has counted.  Only the routes in use have to be terminated; what lies behind a
slot's array is then never read.
-/

namespace Ducq

open CMemory

variable {isCode : ℕ → Prop} {env : Env} {w : World}

/-- The slot holds a client whose route accepts the published one. -/
def Accepts (w : World) (r : List Byte) (i : Fin ducqMaxConnections) : Prop :=
  (w.conn i).IsClient ∧ ducqRouteCmp (some (w.conn i).bytes.bytes) (some (r ++ [0])) = some true

instance (w : World) (r : List Byte) (i : Fin ducqMaxConnections) : Decidable (Accepts w r i) :=
  inferInstanceAs (Decidable (_ ∧ _))

/-- What a client costs a publication: a send, and the end of the client if it fails. -/
def deliveryCalls (env : Env) (w : World) (message : List Byte) (i : Fin ducqMaxConnections) :
    List Call :=
  .send (w.conn i).word message ::
    if Reached env w i then [] else [.close (w.conn i).word, .free (w.conn i).word]

/-- What lies behind a terminated route does not matter to the matcher. -/
theorem ducqRouteCmp_append {p r : List Byte} (hp : (0 : Byte) ∈ p) (hr : (0 : Byte) ∉ r)
    (q : List Byte) :
    ducqRouteCmp (some (p ++ q)) (some (r ++ [0])) = ducqRouteCmp (some p) (some (r ++ [0])) := by
  obtain ⟨u, hu⟩ := exists_eq_cstr_append hp
  rw [hu, List.append_assoc, List.cons_append, ducqRouteCmp_eq (zero_notMem_cstr p) hr,
    ducqRouteCmp_eq (zero_notMem_cstr p) hr]

/-- The broadcast selects the clients whose route accepts the published one. -/
theorem selected_iff_accepts (hw : RoutesTerminated w) {r : List Byte} (hr : (0 : Byte) ∉ r)
    (i : Fin ducqMaxConnections) :
    Selected env (publishSelects r) w i ↔ Accepts w r i := by
  refine and_congr_right fun hi => ?_
  rw [publishSelects, decide_eq_true_iff, routePtr, ducqRouteCmp_append (hw i hi) hr]

/-- What is sent at a slot, in these terms. -/
theorem slotCalls_eq (hw : RoutesTerminated w) {r : List Byte} (hr : (0 : Byte) ∉ r)
    (message : List Byte) :
    slotCalls env (publishSelects r) message w =
      fun i => if Accepts w r i then deliveryCalls env w message i else [] := by
  funext i
  rw [slotCalls]
  refine if_congr (selected_iff_accepts hw hr i) ?_ rfl
  unfold deliveryCalls
  split_ifs
  · rfl
  · rfl

/-- Going over a list and passing over some of it. -/
theorem flatMap_filter {α β : Type*} (p : α → Prop) [DecidablePred p] (f : α → List β)
    (l : List α) :
    (l.filter fun a => p a).flatMap f = l.flatMap fun a => if p a then f a else [] := by
  induction l with
  | nil => rfl
  | cons a l ih =>
    rw [List.flatMap_cons, ← ih, List.filter_cons]
    by_cases ha : p a
    · rw [if_pos ha, if_pos (decide_eq_true ha), List.flatMap_cons]
    · rw [if_neg ha, if_neg fun hc => ha (of_decide_eq_true hc), List.nil_append]

/-- **A publication is delivered exactly.**  The broadcast sends the message once to
each client whose route accepts the published one, in the order of the slots, and to
nobody else; the clients it could not reach are closed, freed and gone, every other
slot is as it was, and the context has counted the others. -/
theorem publication_exact (hw : Reachable isCode w) (hroutes : RoutesTerminated w)
    {r : List Byte} (hr : (0 : Byte) ∉ r) (buffer : List Byte) (size : ℕ) :
    ∃ control w', ducqReactorLoop env (publishHook env) ⟨some (r ++ [0]), buffer, size, 0⟩ w =
        (control, ⟨some (r ++ [0]), buffer, size,
          ((List.finRange ducqMaxConnections).countP fun i =>
            Accepts w r i ∧ Reached env w i : ℕ)⟩, w') ∧
      w'.calls = w.calls ++
        ((List.finRange ducqMaxConnections).filter fun i => Accepts w r i).flatMap
          (deliveryCalls env w (buffer.take size)) ∧
      (((List.finRange ducqMaxConnections).filter fun i => Accepts w r i).map fun i =>
        (w.conn i).word).Nodup ∧
      (∀ i, w'.conn i =
        if Accepts w r i ∧ ¬ Reached env w i then (w.conn i).freed else w.conn i) ∧
      w'.reactor = { w.reactor with connections := w'.reactor.connections } := by
  have hselected := fun i => @selected_iff_accepts env w hroutes r hr i
  obtain ⟨control, w', hrun, -, hconn, hcalls, hreactor⟩ :=
    @publish_spec isCode env w hw.tableInv r buffer size
  refine ⟨control, w', ?_, ?_, ?_, fun i => ?_, hreactor⟩
  · rw [hrun]
    simp only [hselected]
  · rw [hcalls, flatMap_filter, slotCalls_eq hroutes hr]
  · refine ((List.nodup_finRange _).filter _).map_on fun i hi j hj hij => ?_
    have hi' := of_decide_eq_true (List.mem_filter.mp hi).2
    have hj' := of_decide_eq_true (List.mem_filter.mp hj).2
    exact hw.tableInv.unique hi'.1 hj'.1 hij
  · rw [hconn]
    refine if_congr ?_ rfl rfl
    rw [hselected]

/-- A server, and two clients on one route. -/
def twoSubscribers : List (Env × Op) :=
  [(Env.quiet, .addServer 3 7 0), (Env.quiet, .addClient 4 100), (Env.quiet, .addClient 5 200),
    (Env.quiet, .subscribeTo 100 (ascii "a")), (Env.quiet, .subscribeTo 200 (ascii "a"))]

/-- The first client cannot be reached. -/
def Env.deaf : Env := { Env.quiet with sendResult := fun d _ => if d = 100 then .ewrite else .ok }

/-- One of the two is reached, and counted; the other one is gone. -/
theorem publication_exact_twoSubscribers :
    (ducqReactorLoop Env.deaf (publishHook Env.deaf)
        ⟨some (ascii "a" ++ [0]), ascii "pub a\nx", 7, 0⟩
        (runOps twoSubscribers World.init)).2.1.count = 1 ∧
      (ducqReactorLoop Env.deaf (publishHook Env.deaf)
        ⟨some (ascii "a" ++ [0]), ascii "pub a\nx", 7, 0⟩
        (runOps twoSubscribers World.init)).2.2.calls =
        [.send 100 (ascii "pub a\nx"), .close 100, .free 100, .send 200 (ascii "pub a\nx")] := by
  obtain ⟨control, w', hrun, hcalls, -⟩ :=
    @publication_exact (· = 7) Env.deaf (runOps twoSubscribers World.init)
      (Reachable.runOps Relation.ReflTransGen.refl (by decide)) (by decide) (ascii "a") (by decide)
      (ascii "pub a\nx") 7
  rw [hrun]
  dsimp only
  rw [hcalls]
  decide

end Ducq
