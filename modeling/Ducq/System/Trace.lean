import Ducq.System.Rows
import Mathlib.Algebra.Order.BigOperators.Group.List

/-!
# What a publication that fails leaves behind

`pub` stores the message before it acknowledges, so a publication whose acknowledgement
cannot be sent fails with its message already stored: it is never broadcast, and it is
replayed all the same.  Nothing else of a failed publication is seen.  Its sends are the
acknowledgement and the log line, and the publisher is deleted.

Some stores cannot be noticed: on the empty route, which takes no row; when there is no
row; and when the same message is what would be found anyway.  A long route is never
found, but the row it takes may be the last free one, and then every route that has no
message is answered differently (`answers_setEntries_iff`).
-/

namespace Ducq

open CMemory CPrintf FirstFit

/-- Something was sent to the client between the two states. -/
def SentBetween (w w' : World) (d : DucqI) (buf : List Byte) : Prop :=
  ∃ new, w'.calls = w.calls ++ new ∧ Call.send d buf ∈ new

/-- A failed publication was not broadcast, and every lookup is answered as before it. -/
structure LeavesNoTrace (env : Env) (p : DucqI) (buffer : List Byte) (w w' : World) : Prop where
  sends : ∀ d buf, SentBetween w w' d buf →
    d = p ∧ buf = ackText (pubRoute env buffer).1 ∨
      ∃ i text, OnLog env w i ∧ (w.conn i).word = d ∧
        buf = logLine env .warning (ascii "pub") (some (env.id p)) text
  lookups : ∀ route, ducqGetLastMsg w' route = ducqGetLastMsg w route

/-- The message is found already, and if it takes a row another one is left. -/
def StoredAlready (w : World) (r msg : List Byte) : Prop :=
  ducqGetLastMsg w ((storedEntry r msg).1 ++ [0]) = msg ∧
    (IsLong r → occupied w + 2 ≤ ducqMaxChannels)

/-! ## Stores that are not noticed -/

/-- The answer for a key. -/
def answerFrom (l : List (List Byte × List Byte)) (k : List Byte) : List Byte :=
  (find k l).getD (if l.length < ducqMaxChannels then ascii "ACK" else ascii "ACK\n_")

/-- There is always a route that is not stored. -/
theorem exists_find_eq_none (l : List (List Byte × List Byte)) :
    ∃ k, (0 : Byte) ∉ k ∧ find k l = none := by
  refine ⟨List.replicate ((l.map fun e => e.1.length).sum + 1) 1, ?_, ?_⟩
  · rw [List.mem_replicate]
    rintro ⟨-, h⟩
    exact absurd h (by decide)
  · rw [find_eq_none_iff]
    rintro e he heq
    have hle := List.le_sum_of_mem
      (List.mem_map_of_mem (f := fun e : List Byte × List Byte => e.1.length) he)
    rw [heq, List.length_replicate] at hle
    omega

section Answers

variable {l : List (List Byte × List Byte)} {buffer r : List Byte}

/-- A message is not one of the answers that say there is none. -/
theorem HasRoute.ne_answer (hr : HasRoute buffer r) (p : Prop) [Decidable p] :
    (if p then ascii "ACK" else ascii "ACK\n_") ≠ cstr buffer := by
  obtain ⟨pre, q, hstring⟩ := hr.cstr_eq
  have hspace : space ∈ cstr buffer := by simp [hstring]
  intro heq
  rw [← heq] at hspace
  split_ifs at hspace
  · exact absurd hspace (by decide)
  · exact absurd hspace (by decide)

/-- A route that has no message is answered by whether a row is free. -/
theorem length_eq_of_answerFrom {l l' : List (List Byte × List Byte)} {k : List Byte}
    (hk : find k l = none) (hk' : find k l' = none) (h : answerFrom l' k = answerFrom l k) :
    l'.length < ducqMaxChannels ↔ l.length < ducqMaxChannels := by
  rw [answerFrom, answerFrom, hk, hk', Option.getD_none, Option.getD_none] at h
  split_ifs at h with h1 h2 h2
  · exact iff_of_true h1 h2
  · exact absurd h (by decide)
  · exact absurd h (by decide)
  · exact iff_of_false h1 h2

/-- **Which stores on a short route are not noticed.** -/
theorem answers_write_iff (hr : HasRoute buffer r) (hshort : ¬ IsLong r) :
    (∀ k, (0 : Byte) ∉ k →
      answerFrom (write r (storedEntry r (cstr buffer)) l) k = answerFrom l k) ↔
      answerFrom l (storedEntry r (cstr buffer)).1 = cstr buffer := by
  have hentry := storedEntry_of_short hshort (cstr buffer)
  have hfind := @find_write _ _ _ r (r, cstr buffer) l rfl
  rw [hentry]
  constructor
  · intro hsame
    rw [← hsame r hr.zero_notMem, answerFrom, hfind, if_pos rfl]
    rfl
  · intro hstored k _
    have hne : find r l ≠ none := fun hnone => by
      rw [answerFrom, hnone] at hstored
      exact hr.ne_answer _ hstored
    rw [answerFrom, hfind, length_write, if_neg hne]
    by_cases hk : k = r
    · rw [if_pos hk, hk, hstored]
      rfl
    · rw [if_neg hk, answerFrom]

/-- **Which stores on a long route are not noticed.** -/
theorem answers_append_iff (hroom : l.length < ducqMaxChannels) (hcut : CutKeys l)
    (hr : HasRoute buffer r) (hlong : IsLong r) :
    (∀ k, (0 : Byte) ∉ k →
      answerFrom (l ++ [storedEntry r (cstr buffer)]) k = answerFrom l k) ↔
      answerFrom l (storedEntry r (cstr buffer)).1 = cstr buffer ∧
        l.length + 2 ≤ ducqMaxChannels := by
  set key := r.take ducqMaxRouteLen ++ cstr buffer with hkey
  have hentry : storedEntry r (cstr buffer) = (key, cstr buffer) := storedEntry_of_long hlong _
  have htake : (r.take ducqMaxRouteLen).length = ducqMaxRouteLen := by
    rw [List.length_take, min_eq_left hlong]
  have hkey0 : (0 : Byte) ∉ key := by
    have hentry0 := hr.zero_notMem_storedEntry
    rwa [hentry] at hentry0
  -- what is found under the key is the message
  have hvalue : ∀ msg, find key l = some msg → msg = cstr buffer := by
    intro msg hfind
    have hlongKey : IsLong key := by
      rw [IsLong, hkey, List.length_append, htake]
      exact Nat.le_add_right _ _
    have hdrop := (hcut _ (mem_of_find hfind) hlongKey).2
    dsimp only at hdrop
    rw [← hdrop, hkey, List.drop_left' htake]
  have hfind : ∀ k, find k (l ++ [(key, cstr buffer)]) =
      (find k l).or (if key = k then some (cstr buffer) else none) := fun k => by
    rw [find_append, find, find]
  rw [hentry]
  constructor
  · intro hsame
    have hstored : answerFrom l key = cstr buffer := by
      rw [← hsame key hkey0, answerFrom, hfind, if_pos rfl]
      cases hk : find key l with
      | none => rfl
      | some msg => exact hvalue msg hk
    refine ⟨hstored, ?_⟩
    obtain ⟨k, hk0, hk⟩ := exists_find_eq_none (l ++ [(key, cstr buffer)])
    have hkl : find k l = none := by
      rw [find_append] at hk
      exact (Option.or_eq_none_iff.mp hk).1
    have hlength := (length_eq_of_answerFrom hkl hk (hsame k hk0)).mpr hroom
    rw [List.length_append, List.length_singleton] at hlength
    omega
  · rintro ⟨hstored, htwo⟩ k _
    have hmore : (l ++ [(key, cstr buffer)]).length < ducqMaxChannels := by
      rw [List.length_append, List.length_singleton]
      omega
    rw [answerFrom, answerFrom, hfind, if_pos hmore, if_pos hroom]
    by_cases hk : key = k
    · rw [if_pos hk, ← hk]
      cases hkl : find key l with
      | none =>
        rw [answerFrom, hkl] at hstored
        exact absurd hstored (hr.ne_answer _)
      | some msg => rfl
    · rw [if_neg hk, Option.or_none]

/-- **Which stores are not noticed.** -/
theorem answers_setEntries_iff (hlength : l.length ≤ ducqMaxChannels) (hcut : CutKeys l)
    (hr : HasRoute buffer r) :
    (∀ k, (0 : Byte) ∉ k → answerFrom (setEntries r (cstr buffer) l) k = answerFrom l k) ↔
      r = [] ∨ ¬ position r l < ducqMaxChannels ∨
        answerFrom l (storedEntry r (cstr buffer)).1 = cstr buffer ∧
          (IsLong r → l.length + 2 ≤ ducqMaxChannels) := by
  by_cases hstores : position r l < ducqMaxChannels ∧ r ≠ []
  · rw [setEntries, if_pos hstores, or_iff_right hstores.2, or_iff_right (not_not.mpr hstores.1)]
    by_cases hlong : IsLong r
    · have hnone := hcut.find_eq_none hlong hr.newline_notMem
      have hroom : l.length < ducqMaxChannels := by
        have hpos := hstores.1
        have hfree := mt position_lt_iff.mp (not_not.mpr hnone)
        omega
      rw [write_of_find_eq_none hnone, answers_append_iff hroom hcut hr hlong]
      exact and_congr_right fun _ => ⟨fun h _ => h, fun h => h hlong⟩
    · rw [answers_write_iff hr hlong]
      exact ⟨fun h => ⟨h, fun hc => absurd hc hlong⟩, fun h => h.1⟩
  · rw [setEntries, if_neg hstores]
    refine iff_of_true (fun _ _ => rfl) ?_
    rw [not_and_or, not_not] at hstores
    exact hstores.elim (fun h => Or.inr (Or.inl h)) Or.inl

end Answers

/-! ## What a failed publication sends -/

section Sends

variable {isCode : ℕ → Prop} {env : Env} {functionName : List Byte} {w : World}

/-- A publication that fails is logged as a warning. -/
theorem pubAcknowledge_failed {d : DucqI} (h0 : d ≠ 0) {buffer : List Byte}
    (hfailed : (pubAcknowledge env functionName d buffer w).1 ≠ .ok) :
    ∃ route text, (pubAcknowledge env functionName d buffer w).2.2 =
      ducqReactorLog env .warning functionName (some (env.id d)) (some (ascii "%s,send: %s"))
        [.str route, .str (some text)] (pubAcknowledged env d buffer w) := by
  rw [pubAcknowledge] at hfailed ⊢
  rw [pubAcknowledged]
  rcases hroute : pubRoute env buffer with ⟨routeState, route⟩
  rw [hroute] at hfailed
  dsimp only at hfailed ⊢
  rcases hack : ducqSendAck env d routeState (pubStore env buffer w) with ⟨ackState, w'⟩
  rw [hack] at hfailed
  dsimp only at hfailed ⊢
  rw [if_pos hfailed, ducqId, if_neg h0]
  exact ⟨route, _, rfl⟩

/-- Deleting a client sends nothing. -/
theorem calls_ducqReactorDelete (h : TableInv isCode w) (env : Env) (d : DucqI) :
    ∃ new, (ducqReactorDelete env d w).2.calls = w.calls ++ new ∧
      ∀ d' buf, Call.send d' buf ∉ new := by
  by_cases hd : Registered w d
  · obtain ⟨i, hi, rfl⟩ := hd
    rw [h.delete_eq hi]
    exact ⟨_, calls_connectionFree hi (h.client_ne_zero i hi), by simp⟩
  · rw [TableInv.delete_eq_of_not_registered hd]
    exact ⟨[], (List.append_nil _).symm, by simp⟩

/-- **A failed publication is not broadcast.**  What it sends is the acknowledgement and
the log line. -/
theorem sends_of_failed (h : TableInv isCode w) {p : DucqI} (hp : Registered w p)
    {buffer : List Byte} {size : ℕ} (hfailed : (pub env p buffer size w).1 ≠ .ok) (d : DucqI)
    (buf : List Byte) (hsent : SentBetween w (pub env p buffer size w).2 d buf) :
    d = p ∧ buf = ackText (pubRoute env buffer).1 ∨
      ∃ i text, OnLog env w i ∧ (w.conn i).word = d ∧
        buf = logLine env .warning (ascii "pub") (some (env.id p)) text := by
  obtain ⟨k, hk, rfl⟩ := hp
  have h0 := h.client_ne_zero k hk
  have hack : (pubAcknowledge env (ascii "pub") (w.conn k).word buffer w).1 ≠ .ok := by
    rw [pub, ne_eq, pubCommand_eq_ok_iff h0] at hfailed
    rwa [ne_eq, pubAcknowledge_eq_ok_iff h0]
  obtain ⟨route, ack, hlog⟩ := pubAcknowledge_failed h0 hack
  have hrun : (pub env (w.conn k).word buffer size w).2 = (ducqReactorDelete env (w.conn k).word
      (pubAcknowledge env (ascii "pub") (w.conn k).word buffer w).2.2).2 :=
    world_pubCommand_of_ne_ok size hack
  have hconn := @conn_pubAcknowledged env (w.conn k).word buffer w
  set w₀ := pubAcknowledged env (w.conn k).word buffer w with hw₀
  have h₀ : TableInv isCode w₀ := h.onlyFrees fun j => Or.inl (hconn j)
  have hallow : w₀.reactor.allowLogRoute = w.reactor.allowLogRoute :=
    allowLogRoute_pubAcknowledged _ _ _
  obtain ⟨out, hout⟩ := format_send route ack
  obtain ⟨-, hcalls⟩ :=
    @ducqReactorLog_spec isCode env w₀ h₀ .warning (ascii "pub") (some (env.id (w.conn k).word))
      _ _ _ hout
  obtain ⟨gone, hgone, hnone⟩ := @calls_ducqReactorDelete isCode _
    (h₀.onlyFrees (onlyFrees_ducqReactorLog .warning (ascii "pub")
      (some (env.id (w.conn k).word)) _ _ w₀)) env (w.conn k).word
  obtain ⟨new, hnew, hmem⟩ := hsent
  rw [hrun, hlog, hgone, hcalls, calls_pubAcknowledged h0, List.append_assoc,
    List.append_assoc] at hnew
  obtain rfl := List.append_cancel_left hnew
  rw [List.mem_append, List.mem_append] at hmem
  rcases hmem with hmem | hmem | hmem
  · left
    rcases List.mem_cons.mp hmem with hmem | hmem
    · exact Call.send.inj hmem
    · simp at hmem
  · right
    obtain ⟨i, -, hi⟩ := List.mem_flatMap.mp hmem
    obtain ⟨hselected, hword, hline⟩ := selected_of_send_mem hi
    refine ⟨i, out, ?_, ?_, hline.symm⟩
    · rw [OnLog, ← hallow, ← selected_congr (hconn i)]
      exact hselected
    · rw [← hword, hconn]
  · exact absurd hmem (hnone d buf)

end Sends

/-! ## What it leaves -/

section Trace

variable {isCode : ℕ → Prop} {env : Env} {w : World}

/-- Lookups are answers. -/
theorem lookups_iff {w' : World} {l l' : List (List Byte × List Byte)} (hw : Holds w l)
    (hw' : Holds w' l') :
    (∀ route, ducqGetLastMsg w' route = ducqGetLastMsg w route) ↔
      ∀ k, (0 : Byte) ∉ k → answerFrom l' k = answerFrom l k := by
  constructor
  · intro h k hk
    have hsame := h k
    rwa [hw.get_eq, hw'.get_eq, cstr_of_notMem hk] at hsame
  · intro h route
    rw [hw.get_eq, hw'.get_eq]
    exact h (cstr route) (zero_notMem_cstr route)

/-- **A failed publication leaves no trace exactly if nothing was stored that shows.**
Either the publication did not fail for want of its acknowledgement, or there was nothing
to store, or the route is empty, or there was no row for it, or the message is what was
found already. -/
theorem pub_leavesNoTrace_iff (hw : Served isCode w) {p : DucqI} (hp : Registered w p)
    {buffer : List Byte} (hbuffer : (cstr buffer).length < ducqMsgsz) (size : ℕ) :
    ((pub env p buffer size w).1 ≠ .ok →
        LeavesNoTrace env p buffer w (pub env p buffer size w).2) ↔
      env.sendResult p (sendCount p w.calls) = .ok ∨
        ∀ r, HasRoute buffer r → env.strndup r = true →
          r = [] ∨ lastMsgRow w (r ++ [0]) = none ∨ StoredAlready w r (cstr buffer) := by
  have hinv := hw.reachable.tableInv
  obtain ⟨l, hl, hcut⟩ := hw.holdsCut
  have h0 : p ≠ 0 := by
    obtain ⟨k, hk, rfl⟩ := hp
    exact hinv.client_ne_zero k hk
  have hok := @pubCommand_eq_ok_iff env (ascii "pub") p h0 buffer size w
  have hrows := (@LeavesRows.pubCommand env (ascii "pub") p buffer size w).rows
  -- the lookups after a publication that has stored something
  have hlookups : ∀ r, HasRoute buffer r → env.strndup r = true →
      ((∀ route, ducqGetLastMsg (pub env p buffer size w).2 route = ducqGetLastMsg w route) ↔
        r = [] ∨ lastMsgRow w (r ++ [0]) = none ∨ StoredAlready w r (cstr buffer)) := by
    intro r hr hmem
    have hl' : Holds (pub env p buffer size w).2 (setEntries r (cstr buffer) l) :=
      (hl.pubStore hr hmem hbuffer).congr hrows
    have hkey : cstr ((storedEntry r (cstr buffer)).1 ++ [0]) = (storedEntry r (cstr buffer)).1 :=
      cstr_append_zero hr.zero_notMem_storedEntry []
    rw [lookups_iff hl hl', answers_setEntries_iff hl.length_le hcut hr, hl.lastMsgRow_eq,
      cstr_append_zero hr.zero_notMem, StoredAlready, hl.get_eq, hkey, hl.occupied_eq]
    refine or_congr_right (or_congr_left ?_)
    by_cases hpos : position r l < ducqMaxChannels
    · rw [dif_pos hpos]
      exact iff_of_false (not_not.mpr hpos) (Option.some_ne_none _)
    · rw [dif_neg hpos]
      exact iff_of_true hpos rfl
  constructor
  · intro htrace
    by_cases hack : env.sendResult p (sendCount p w.calls) = .ok
    · exact Or.inl hack
    · right
      intro r hr hmem
      have hfailed : (pub env p buffer size w).1 ≠ .ok := fun hc => hack (hok.mp hc).2
      exact (hlookups r hr hmem).mp (htrace hfailed).lookups
  · intro hclean hfailed
    refine ⟨sends_of_failed hinv hp hfailed, ?_⟩
    by_cases hroute : ∃ r, HasRoute buffer r ∧ env.strndup r = true
    · obtain ⟨r, hr, hmem⟩ := hroute
      have hack : env.sendResult p (sendCount p w.calls) ≠ .ok := fun hc =>
        hfailed (hok.mpr ⟨⟨r, hr, hmem⟩, hc⟩)
      exact (hlookups r hr hmem).mpr (hclean.resolve_left hack r hr hmem)
    · rw [pubStore_eq_self hroute] at hrows
      exact (lookups_iff hl (hl.congr hrows)).mpr fun _ _ => rfl

/-- One client, and a message stored under `a`. -/
def storedOnce : List (Env × Op) :=
  [(Env.quiet, .addClient 4 100), (Env.quiet, .pub 100 (ascii "pub a\nx" ++ [0]) 7)]

theorem served_storedOnce : Served (fun _ => False) (runOps storedOnce World.init) :=
  Served.runOps Relation.ReflTransGen.refl (by decide) (by decide)

/-- Nothing can be sent. -/
def Env.silent : Env := { Env.quiet with sendResult := fun _ _ => .ewrite }

/-- The same message fails without a trace. -/
theorem pub_leavesNoTrace_again :
    LeavesNoTrace Env.silent 100 (ascii "pub a\nx" ++ [0]) (runOps storedOnce World.init)
      (pub Env.silent 100 (ascii "pub a\nx" ++ [0]) 7 (runOps storedOnce World.init)).2 := by
  have hr : HasRoute (ascii "pub a\nx" ++ [0]) (ascii "a") := ⟨_, _, rfl, rfl⟩
  refine (pub_leavesNoTrace_iff served_storedOnce (by decide) (by decide) 7).mpr (Or.inr ?_)
    (by decide)
  intro r hr' _
  rw [hr.unique hr']
  exact Or.inr (Or.inr ⟨by decide, fun hlong => absurd hlong (by decide)⟩)

/-- **Another message fails and is replayed from then on.** -/
theorem not_leavesNoTrace_other :
    Served (fun _ => False) (runOps storedOnce World.init) ∧
      Registered (runOps storedOnce World.init) 100 ∧
      (pub Env.silent 100 (ascii "pub a\ny" ++ [0]) 7 (runOps storedOnce World.init)).1 ≠ .ok ∧
      ¬ LeavesNoTrace Env.silent 100 (ascii "pub a\ny" ++ [0]) (runOps storedOnce World.init)
        (pub Env.silent 100 (ascii "pub a\ny" ++ [0]) 7 (runOps storedOnce World.init)).2 := by
  refine ⟨served_storedOnce, by decide, by decide, fun htrace => ?_⟩
  have hsame := htrace.lookups (ascii "a" ++ [0])
  exact absurd hsame (by decide)

end Trace

end Ducq
