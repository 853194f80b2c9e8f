import Ducq.System.Run

/-!
# Who can subscribe

`ducq_reactor_subscribe` looks for its pointer in every slot, and asks a slot neither for
its descriptor nor for its type.  A slot that has been given up still holds the pointer of
its last client, a server's slot holds the address of its callback in the same place, and a
slot that was never used holds NULL.  A subscription with a pointer that was left behind in
such a slot succeeds, and writes the slot; with any other pointer it tells right
(`subscribesRegistered_iff`).
-/

namespace Ducq

open CMemory CNumber Sweep

/-- The client is one that a loop visits. -/
def Visited (env : Env) (d : DucqI) (w : World) : Prop := ∃ route, (d, route) ∈ visitAll env w

/-- A subscription succeeds for those that are visited; it fails for the others, and then
it changes nothing. -/
structure SubscribesRegistered (env : Env) (d : DucqI) (route : List Byte) (w : World) :
    Prop where
  ok_iff : (ducqReactorSubscribe d route w).1 = .ok ↔ Visited env d w
  notFound : ¬ Visited env d w → ducqReactorSubscribe d route w = (.enotfound, w)

/-- The pointer stands in a slot that is free, or that is a server's. -/
def LeftBehind (d : DucqI) (w : World) : Prop := ∃ i, ¬ (w.conn i).IsClient ∧ (w.conn i).word = d

instance (d : DucqI) (w : World) : Decidable (LeftBehind d w) :=
  inferInstanceAs (Decidable (∃ i, ¬ (w.conn i).IsClient ∧ (w.conn i).word = d))

variable {env : Env} {d : DucqI} {w : World}

/-- **A loop visits who is registered.** -/
theorem visited_iff : Visited env d w ↔ Registered w d := by
  simp only [Visited, visitAll_eq, List.mem_filterMap, List.mem_finRange, true_and, visitEntry,
    Option.ite_none_right_eq_some, Option.some.injEq, Prod.mk.injEq]
  constructor
  · rintro ⟨route, i, hi, hword, -⟩
    exact ⟨i, hi, hword⟩
  · rintro ⟨i, hi, hword⟩
    exact ⟨_, i, hi, hword, rfl⟩

/-- A slot that holds the pointer is a client's, or the pointer was left behind in it. -/
theorem exists_word_iff : (∃ i, (w.conn i).word = d) ↔ Registered w d ∨ LeftBehind d w := by
  constructor
  · rintro ⟨i, hi⟩
    by_cases hclient : (w.conn i).IsClient
    · exact .inl ⟨i, hclient, hi⟩
    · exact .inr ⟨i, hclient, hi⟩
  · rintro (⟨i, -, hi⟩ | ⟨i, -, hi⟩)
    · exact ⟨i, hi⟩
    · exact ⟨i, hi⟩

/-- **Any slot with the pointer will do.** -/
theorem ducqReactorSubscribe_ok_iff (route : List Byte) :
    (ducqReactorSubscribe d route w).1 = .ok ↔ Registered w d ∨ LeftBehind d w := by
  rw [← exists_word_iff, ducqReactorSubscribe]
  cases hfind : (List.finRange ducqMaxConnections).find? fun i => d = (w.conn i).word with
  | none =>
    refine iff_of_false DucqState.noConfusion ?_
    rintro ⟨i, hi⟩
    have hnone := List.find?_eq_none.mp hfind i (List.mem_finRange i)
    exact hnone (decide_eq_true hi.symm)
  | some i =>
    have hi := List.find?_some hfind
    exact iff_of_true rfl ⟨i, (of_decide_eq_true hi).symm⟩

/-- No slot with the pointer, no change. -/
theorem ducqReactorSubscribe_of_ne_ok {route : List Byte}
    (h : (ducqReactorSubscribe d route w).1 ≠ .ok) :
    ducqReactorSubscribe d route w = (.enotfound, w) := by
  rw [ducqReactorSubscribe] at h ⊢
  cases hfind : (List.finRange ducqMaxConnections).find? fun i => d = (w.conn i).word with
  | none => rfl
  | some i =>
    rw [hfind] at h
    exact absurd rfl h

/-- **Only registered clients can subscribe**, but for the pointers that were left
behind. -/
theorem subscribesRegistered_iff (env : Env) (d : DucqI) (route : List Byte) (w : World) :
    SubscribesRegistered env d route w ↔ (LeftBehind d w → Registered w d) := by
  constructor
  · intro h hleft
    exact visited_iff.mp (h.ok_iff.mp ((ducqReactorSubscribe_ok_iff route).mpr (.inr hleft)))
  · intro h
    have hok : (ducqReactorSubscribe d route w).1 = .ok ↔ Visited env d w := by
      rw [ducqReactorSubscribe_ok_iff, visited_iff, or_iff_left_of_imp h]
    exact ⟨hok, fun hnot => ducqReactorSubscribe_of_ne_ok (mt hok.mp hnot)⟩

/-- A client comes and goes. -/
def oneDeleted : List (Env × Op) := [(Env.quiet, .addClient 4 100), (Env.quiet, .delete 100)]

/-- **A client that was deleted can subscribe.** -/
theorem not_subscribesRegistered_deleted :
    Reachable (fun _ => False) (runOps oneDeleted World.init) ∧
      ¬ Visited Env.quiet 100 (runOps oneDeleted World.init) ∧
      (ducqReactorSubscribe 100 (ascii "news") (runOps oneDeleted World.init)).1 = .ok ∧
      ¬ SubscribesRegistered Env.quiet 100 (ascii "news") (runOps oneDeleted World.init) := by
  have hnot : ¬ Visited Env.quiet 100 (runOps oneDeleted World.init) := by
    rw [visited_iff]
    decide
  have hok : (ducqReactorSubscribe 100 (ascii "news") (runOps oneDeleted World.init)).1 = .ok := by
    decide
  exact ⟨Reachable.runOps Relation.ReflTransGen.refl (by decide), hnot, hok,
    fun h => hnot (h.ok_iff.mp hok)⟩

end Ducq
