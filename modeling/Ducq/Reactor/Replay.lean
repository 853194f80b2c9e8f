import Ducq.Lib.FirstFit
import Ducq.Reactor.LastMsg

/-!
# What the rows of the last messages hold

The rows in use come first, and a search goes to the row of a route or else to the first
one that is free; so the table is a list of entries (`Holds`), and the two functions are
`FirstFit.find` and `FirstFit.write` on it.

The key of an entry is the string that starts in the row's route.  For a route shorter
than the array that is the route.  A longer one is cut, its array has no terminator, and
the string runs on into the message: what is stored then is not found under the route
(`storedEntry`).  Messages are shorter than their array, and no string runs past its row.
-/

namespace Ducq

open CMemory FirstFit

/-! ## Rows and entries -/

/-- What a row holds: the string in its route and the one in its message, or nothing. -/
def LastMsg.entry (row : LastMsg) : Option (List Byte × List Byte) :=
  if row.route.bytes.head? = some 0 then none
  else some (cstr (row.route.bytes ++ row.msg.bytes), cstr row.msg.bytes)

/-- What is stored for a route and a message. -/
def storedEntry (route msg : List Byte) : List Byte × List Byte :=
  (if route.length < ducqMaxRouteLen then route else route.take ducqMaxRouteLen ++ msg, msg)

/-- The rows hold the entries of a list, in order, and the rest of them is free. -/
structure Holds (w : World) (l : List (List Byte × List Byte)) : Prop where
  length_le : l.length ≤ ducqMaxChannels
  entry_eq : ∀ i : Fin ducqMaxChannels, (w.reactor.lastMsgs i).entry = l[i.val]?
  terminated : ∀ i, (w.reactor.lastMsgs i).msg.Terminated

theorem holds_init : Holds World.init [] where
  length_le := Nat.zero_le _
  entry_eq _ := rfl
  terminated i := by
    show (0 : Byte) ∈ List.replicate ducqMsgsz 0
    exact List.mem_replicate.mpr ⟨by decide, rfl⟩

/-- A world with the same rows holds the same. -/
theorem Holds.congr {w w' : World} {l : List (List Byte × List Byte)} (h : Holds w l)
    (hw : w'.reactor.lastMsgs = w.reactor.lastMsgs) : Holds w' l where
  length_le := h.length_le
  entry_eq i := by rw [hw, h.entry_eq]
  terminated i := by
    rw [hw]
    exact h.terminated i

theorem CharArray.exists_cons {n : ℕ} (a : CharArray (n + 1)) : ∃ b q, a.bytes = b :: q :=
  List.exists_cons_of_length_eq_add_one a.length_eq

/-- A row's pointer starts with the row. -/
theorem lastMsgPtr_eq (w : World) (i : Fin ducqMaxChannels) :
    ∃ q, lastMsgPtr w i = (w.reactor.lastMsgs i).route.bytes ++
      ((w.reactor.lastMsgs i).msg.bytes ++ q) := by
  have hi : i.val < (List.finRange ducqMaxChannels).length := by simp
  have hget : (List.finRange ducqMaxChannels)[i.val] = i := by simp
  rw [lastMsgPtr, List.drop_eq_getElem_cons hi, hget, List.flatMap_cons, List.append_assoc]
  exact ⟨_, rfl⟩

/-- Whether a row is free shows in its first byte. -/
theorem head?_lastMsgPtr (w : World) (i : Fin ducqMaxChannels) :
    (lastMsgPtr w i).head? = (w.reactor.lastMsgs i).route.bytes.head? := by
  obtain ⟨q, hq⟩ := lastMsgPtr_eq w i
  obtain ⟨b, p, hp⟩ := CharArray.exists_cons (w.reactor.lastMsgs i).route
  rw [hq, hp]
  rfl

/-- The message stands behind the route. -/
theorem drop_lastMsgPtr (w : World) (i : Fin ducqMaxChannels) :
    ∃ q, (lastMsgPtr w i).drop ducqMaxRouteLen = (w.reactor.lastMsgs i).msg.bytes ++ q := by
  obtain ⟨q, hq⟩ := lastMsgPtr_eq w i
  refine ⟨q, ?_⟩
  rw [hq]
  exact List.drop_left' (w.reactor.lastMsgs i).route.length_eq

/-- What a row that is written holds. -/
theorem entry_strncpy {route msg : List Byte} (hmsg : (cstr msg).length < ducqMsgsz) :
    LastMsg.entry ⟨CharArray.strncpy _ route, CharArray.strncpy _ msg⟩ =
      if cstr route = [] then none else some (storedEntry (cstr route) (cstr msg)) := by
  have hvalue := CharArray.cstr_strncpy_of_lt hmsg
  have hterminated : (CharArray.strncpy ducqMsgsz msg).Terminated :=
    CharArray.terminated_strncpy_iff.mpr hmsg
  by_cases hlen : (cstr route).length < ducqMaxRouteLen
  · obtain ⟨q, hq⟩ := CharArray.strncpy_bytes_of_lt hlen
    have hhead : (CharArray.strncpy ducqMaxRouteLen route).bytes.head? = some 0 ↔
        cstr route = [] := by
      rw [hq]
      cases hroute : cstr route with
      | nil => exact iff_of_true rfl rfl
      | cons b r =>
        refine iff_of_false (fun hb => ?_) (List.cons_ne_nil b r)
        have hmem : b ∈ cstr route := hroute ▸ List.mem_cons_self
        exact zero_notMem_cstr route (Option.some.inj hb ▸ hmem)
    rw [LastMsg.entry]
    refine if_congr hhead rfl ?_
    rw [hvalue, storedEntry, if_pos hlen, hq, List.append_assoc, List.cons_append,
      cstr_append_zero (zero_notMem_cstr route)]
  · have hne : cstr route ≠ [] := fun hnil => hlen (by rw [hnil]; decide)
    have hbytes : (CharArray.strncpy ducqMaxRouteLen route).bytes =
        (cstr route).take ducqMaxRouteLen := by
      show (cstr route).take ducqMaxRouteLen ++
        List.replicate (ducqMaxRouteLen - (cstr route).length) 0 = _
      rw [Nat.sub_eq_zero_of_le (not_lt.mp hlen), List.replicate_zero, List.append_nil]
    have h0 : (0 : Byte) ∉ (cstr route).take ducqMaxRouteLen := fun h =>
      zero_notMem_cstr route (List.mem_of_mem_take h)
    have hhead : (CharArray.strncpy ducqMaxRouteLen route).bytes.head? ≠ some 0 := by
      rw [hbytes]
      exact fun hb => h0 (List.mem_of_mem_head? hb)
    rw [LastMsg.entry, if_neg hhead, if_neg hne, hvalue, storedEntry, if_neg hlen, hbytes,
      cstr_append_of_notMem h0, hvalue]

/-! ## Searching -/

section Search

variable {w : World} {l : List (List Byte × List Byte)}

/-- No entry has an empty key. -/
theorem Holds.find_nil (h : Holds w l) : find [] l = none := by
  rw [find_eq_none_iff]
  intro e he hnil
  obtain ⟨i, hi, rfl⟩ := List.mem_iff_getElem.mp he
  have hi' := hi.trans_le h.length_le
  have hentry := h.entry_eq ⟨i, hi'⟩
  rw [List.getElem?_eq_getElem hi, LastMsg.entry] at hentry
  split_ifs at hentry with hhead
  obtain ⟨b, q, hb⟩ := CharArray.exists_cons (w.reactor.lastMsgs ⟨i, hi'⟩).route
  rw [← Option.some.inj hentry, hb] at hnil
  rw [hb, List.head?_cons, Option.some.injEq] at hhead
  rw [List.cons_append, cstr_cons_of_ne hhead] at hnil
  exact List.cons_ne_nil _ _ hnil

/-- The search stops at a row that is free or holds the route. -/
theorem Holds.stops_iff (h : Holds w l) (route : List Byte) (i : Fin ducqMaxChannels) :
    ((lastMsgPtr w i).head? = some 0 ∨ cstr (lastMsgPtr w i) = cstr route) ↔
      ∀ e, l[i.val]? = some e → e.1 = cstr route := by
  obtain ⟨q, hq⟩ := lastMsgPtr_eq w i
  have hkey : cstr (lastMsgPtr w i) =
      cstr ((w.reactor.lastMsgs i).route.bytes ++ (w.reactor.lastMsgs i).msg.bytes) := by
    rw [hq, ← List.append_assoc]
    exact cstr_append_of_mem (List.mem_append_right _ (h.terminated i)) q
  have hentry := h.entry_eq i
  rw [head?_lastMsgPtr, hkey, ← hentry, LastMsg.entry]
  by_cases hhead : (w.reactor.lastMsgs i).route.bytes.head? = some 0
  · rw [if_pos hhead]
    exact iff_of_true (Or.inl hhead) fun e he => nomatch he
  · rw [if_neg hhead, or_iff_right hhead]
    constructor
    · rintro hc e he
      rw [← Option.some.inj he]
      exact hc
    · intro hc
      exact hc _ rfl

/-- **A search is `FirstFit.position`.** -/
theorem Holds.lastMsgRow_eq (h : Holds w l) (route : List Byte) :
    lastMsgRow w route =
      if hpos : position (cstr route) l < ducqMaxChannels then some ⟨_, hpos⟩ else none := by
  obtain ⟨hle, hstop, hbefore⟩ := position_eq_iff.mp (@rfl _ (position (cstr route) l))
  have hgo : ∀ j : Fin ducqMaxChannels, j.val < position (cstr route) l →
      ¬ ((lastMsgPtr w j).head? = some 0 ∨ cstr (lastMsgPtr w j) = cstr route) := by
    intro j hj hc
    obtain ⟨e, he, hne⟩ := hbefore j hj
    exact hne ((h.stops_iff route j).mp hc e he)
  rw [lastMsgRow]
  split_ifs with hpos
  · rw [Sweep.find?_finRange]
    exact ⟨decide_eq_true ((h.stops_iff route ⟨_, hpos⟩).mpr hstop),
      fun j hj => decide_eq_false (hgo j hj)⟩
  · rw [List.find?_eq_none]
    intro j _
    rw [decide_eq_true_iff]
    exact hgo j (j.isLt.trans_le (not_lt.mp hpos))

/-- The row a search goes to, and what is found under the route. -/
theorem Holds.find_eq (h : Holds w l) (route : List Byte)
    (hpos : position (cstr route) l < ducqMaxChannels) :
    find (cstr route) l =
      if (w.reactor.lastMsgs ⟨_, hpos⟩).route.bytes.head? = some 0 then none
      else some (cstr (w.reactor.lastMsgs ⟨_, hpos⟩).msg.bytes) := by
  rw [← getElem?_position, ← h.entry_eq ⟨_, hpos⟩, LastMsg.entry]
  split_ifs
  · rfl
  · rfl

/-- **What `ducq_get_last_msg` answers.** -/
theorem Holds.get_eq (h : Holds w l) (route : List Byte) :
    ducqGetLastMsg w route =
      (find (cstr route) l).getD
        (if l.length < ducqMaxChannels then ascii "ACK" else ascii "ACK\n_") := by
  have hle := @position_le _ (List Byte) _ (cstr route) l
  have hlt := @position_lt_iff _ (List Byte) _ (cstr route) l
  rw [ducqGetLastMsg, h.lastMsgRow_eq]
  by_cases hpos : position (cstr route) l < ducqMaxChannels
  · have hfind := h.find_eq route hpos
    rw [dif_pos hpos]
    dsimp only
    rw [head?_lastMsgPtr]
    by_cases hhead : (w.reactor.lastMsgs ⟨_, hpos⟩).route.bytes.head? = some 0
    · -- the row is free, so that there is room
      rw [if_pos hhead] at hfind
      have hfree := mt hlt.mp (not_not.mpr hfind)
      have hroom : l.length < ducqMaxChannels := by omega
      rw [if_pos hhead, hfind, if_pos hroom]
      rfl
    · rw [if_neg hhead] at hfind
      obtain ⟨q, hq⟩ := drop_lastMsgPtr w ⟨_, hpos⟩
      rw [if_neg hhead, hfind, hq, cstr_append_of_mem (h.terminated _)]
      rfl
  · have hfull := h.length_le
    have hnone : find (cstr route) l = none := by
      by_contra hne
      have hused := hlt.mpr hne
      omega
    have hroom : ¬ l.length < ducqMaxChannels := by omega
    rw [dif_neg hpos, hnone, if_neg hroom]
    rfl

/-! ## Storing -/

/-- The entries after a set. -/
def setEntries (route msg : List Byte) (l : List (List Byte × List Byte)) :
    List (List Byte × List Byte) :=
  if position route l < ducqMaxChannels ∧ route ≠ [] then write route (storedEntry route msg) l
  else l

/-- **What `ducq_set_last_msg` does.** -/
theorem Holds.set_spec (h : Holds w l) (route : List Byte) {msg : List Byte}
    (hmsg : (cstr msg).length < ducqMsgsz) :
    (ducqSetLastMsg route msg w).1 =
        (if position (cstr route) l < ducqMaxChannels then .ok else .emax) ∧
      Holds (ducqSetLastMsg route msg w).2 (setEntries (cstr route) (cstr msg) l) := by
  rw [ducqSetLastMsg, h.lastMsgRow_eq, setEntries]
  by_cases hpos : position (cstr route) l < ducqMaxChannels
  · rw [dif_pos hpos, if_pos hpos]
    refine ⟨rfl, ?_⟩
    set row : Fin ducqMaxChannels := ⟨_, hpos⟩
    have hterminated : ∀ i, (Function.update w.reactor.lastMsgs row
        ⟨CharArray.strncpy _ route, CharArray.strncpy _ msg⟩ i).msg.Terminated := by
      intro i
      by_cases hi : i = row
      · rw [hi, Function.update_self]
        exact CharArray.terminated_strncpy_iff.mpr hmsg
      · rw [Function.update_of_ne hi]
        exact h.terminated i
    have hentry : ∀ i, (Function.update w.reactor.lastMsgs row
        ⟨CharArray.strncpy _ route, CharArray.strncpy _ msg⟩ i).entry =
        if i = row then
          if cstr route = [] then none else some (storedEntry (cstr route) (cstr msg))
        else l[i.val]? := by
      intro i
      by_cases hi : i = row
      · rw [hi, Function.update_self, if_pos rfl, entry_strncpy hmsg]
      · rw [Function.update_of_ne hi, if_neg hi, h.entry_eq]
    by_cases hnil : cstr route = []
    · rw [if_neg fun hc => hc.2 hnil]
      refine ⟨h.length_le, fun i => ?_, hterminated⟩
      rw [hentry, if_pos hnil]
      split_ifs with hi
      · -- the row stays free
        have hfree : position (cstr route) l = l.length := by
          have hle := @position_le _ (List Byte) _ (cstr route) l
          have hnone := mt position_lt_iff.mp (not_not.mpr h.find_nil)
          rw [hnil] at hle ⊢
          omega
        rw [hi]
        exact (List.getElem?_eq_none hfree.ge).symm
      · rfl
    · rw [if_pos ⟨hpos, hnil⟩]
      refine ⟨?_, fun i => ?_, hterminated⟩
      · have hle := h.length_le
        have hlt := @position_lt_iff _ (List Byte) _ (cstr route) l
        have heq := @position_le _ (List Byte) _ (cstr route) l
        rw [length_write]
        split_ifs with hnone
        · have hnot := mt hlt.mp (not_not.mpr hnone)
          omega
        · exact hle
      · rw [hentry, if_neg hnil, getElem?_write]
        exact if_congr Fin.ext_iff rfl rfl
  · rw [dif_neg hpos, if_neg hpos, if_neg fun hc => hpos hc.1]
    exact ⟨rfl, h⟩

end Search

/-! ## A bounded map -/

/-- A route and a message that fit into a row, as the pointers to them. -/
structure Storing where
  route : List Byte
  msg : List Byte
  route_ne_nil : cstr route ≠ []
  route_lt : (cstr route).length < ducqMaxRouteLen
  msg_lt : (cstr msg).length < ducqMsgsz

/-- The strings they point to. -/
def Storing.strings (s : Storing) : List Byte × List Byte := (cstr s.route, cstr s.msg)

/-- One `ducq_set_last_msg` after the other. -/
def storeAll : List Storing → World → List DucqState × World
  | [], w => ([], w)
  | s :: sets, w =>
    let (state, w) := ducqSetLastMsg s.route s.msg w
    let (states, w) := storeAll sets w
    (state :: states, w)

/-- A map of routes to messages, with room for as many as there are channels. -/
abbrev RouteMap := BoundedMap (List Byte) (List Byte) ducqMaxChannels

/-- The answer for what a map holds. -/
def answer (m : RouteMap) (msg : Option (List Byte)) : List Byte :=
  msg.getD (if m.Full then ascii "ACK\n_" else ascii "ACK")

/-- What is answered for another key than the one that is set: what was answered before,
but for an absent one when the set takes the last place. -/
theorem answer_set (m : RouteMap) {route key msg : List Byte} (hne : route ≠ key) :
    answer ((m.set key msg).getD m) (((m.set key msg).getD m).get? route) =
      if m.get? route = none ∧ m.TakesLast key then ascii "ACK\n_"
      else answer m (m.get? route) := by
  have hget : ((m.set key msg).getD m).get? route = m.get? route := by
    cases hset : m.set key msg with
    | none => rfl
    | some m' => rw [Option.getD_some, BoundedMap.get?_set hset, if_neg hne]
  have hfull := m.full_getD_set_iff key msg
  rw [hget, answer, answer]
  cases hroute : m.get? route with
  | some msg' => exact (if_neg fun hc => Option.some_ne_none _ hc.1).symm
  | none =>
    by_cases hlast : m.TakesLast key
    · exact (if_pos (hfull.mpr (.inr hlast))).trans (if_pos ⟨rfl, hlast⟩).symm
    · exact (if_congr (hfull.trans (or_iff_left hlast)) rfl rfl).trans
        (if_neg fun hc => hlast hc.2).symm

/-- The rows are the map: a lookup answers what the map holds, or that it holds nothing;
a set fails if the route is new and the map is full, and then changes no lookup; and a set
leaves the lookups of the other routes as they are, unless it takes the last place, when
what holds nothing is told that there is no room. -/
structure RefinesMap (w : World) (m : RouteMap) : Prop where
  get_eq : ∀ route, cstr route ≠ [] → (cstr route).length < ducqMaxRouteLen →
    ducqGetLastMsg w route = answer m (m.get? (cstr route))
  set_emax_iff : ∀ s : Storing, (ducqSetLastMsg s.route s.msg w).1 = .emax ↔
    m.get? (cstr s.route) = none ∧ m.Full
  set_failed : ∀ s : Storing, (ducqSetLastMsg s.route s.msg w).1 ≠ .ok →
    ∀ route, ducqGetLastMsg (ducqSetLastMsg s.route s.msg w).2 route = ducqGetLastMsg w route
  set_other : ∀ s : Storing, ∀ route, cstr route ≠ [] →
    (cstr route).length < ducqMaxRouteLen → cstr route ≠ cstr s.route →
    ducqGetLastMsg (ducqSetLastMsg s.route s.msg w).2 route =
      if m.get? (cstr route) = none ∧ m.TakesLast (cstr s.route) then ascii "ACK\n_"
      else ducqGetLastMsg w route

section Refinement

variable {w : World} {l : List (List Byte × List Byte)} {m : RouteMap}

/-- A short route is stored as it is. -/
theorem Storing.setEntries_eq (s : Storing) (l : List (List Byte × List Byte)) :
    setEntries (cstr s.route) (cstr s.msg) l =
      if position (cstr s.route) l < ducqMaxChannels then write (cstr s.route) s.strings l
      else l := by
  rw [setEntries, storedEntry, if_pos s.route_lt]
  refine if_congr ?_ rfl rfl
  rw [and_iff_left s.route_ne_nil]

/-- **One set of the rows is one set of the map.** -/
theorem Storing.step (hw : Holds w l) (hm : Represents l m) (s : Storing) :
    (ducqSetLastMsg s.route s.msg w).1 =
        (if (m.set (cstr s.route) (cstr s.msg)).isSome then .ok else .emax) ∧
      ∃ l', Holds (ducqSetLastMsg s.route s.msg w).2 l' ∧
        Represents l' ((m.set (cstr s.route) (cstr s.msg)).getD m) := by
  obtain ⟨hstate, hholds⟩ := hw.set_spec s.route s.msg_lt
  have hroom := hm.room_iff (cstr s.route) (cstr s.msg)
  rw [s.setEntries_eq] at hholds
  cases hset : m.set (cstr s.route) (cstr s.msg) with
  | none =>
    have hfull := mt hroom.mp (not_not.mpr hset)
    rw [if_neg hfull] at hstate hholds
    exact ⟨hstate, l, hholds, hm⟩
  | some m' =>
    have hpos := hroom.mpr (by rw [hset]; exact Option.some_ne_none m')
    rw [if_pos hpos] at hstate hholds
    exact ⟨hstate, _, hholds, hm.write hset⟩

theorem Holds.answer_eq (hw : Holds w l) (hm : Represents l m) (route : List Byte) :
    ducqGetLastMsg w route = answer m (m.get? (cstr route)) := by
  rw [hw.get_eq, answer, hm.find_eq]
  congr 1
  have hlength := hm.length_eq
  have hcard := m.card_le
  by_cases hfull : m.Full
  · rw [if_pos hfull, if_neg (hlength.trans hfull).not_lt]
  · have hlt : l.length < ducqMaxChannels := by
      rw [hlength]
      exact lt_of_le_of_ne hcard hfull
    rw [if_neg hfull, if_pos hlt]

theorem refinesMap_of_represents (hw : Holds w l) (hm : Represents l m) : RefinesMap w m where
  get_eq route _ _ := hw.answer_eq hm route
  set_emax_iff s := by
    rw [(s.step hw hm).1, ← BoundedMap.set_eq_none_iff (v := cstr s.msg)]
    cases m.set (cstr s.route) (cstr s.msg) with
    | none => exact iff_of_true rfl rfl
    | some m' => exact iff_of_false (fun hc => nomatch hc) (fun hc => nomatch hc)
  set_failed s hfailed route := by rw [ducqSetLastMsg_of_ne_ok hfailed]
  set_other s route _ _ hne := by
    obtain ⟨-, l', hw', hm'⟩ := s.step hw hm
    rw [hw'.answer_eq hm', answer_set m hne, hw.answer_eq hm]

/-- The same for one set after the other. -/
theorem storeAll_represents (hw : Holds w l) (hm : Represents l m) (sets : List Storing) :
    (storeAll sets w).1 = (m.run (sets.map Storing.strings)).1.map
        (fun ok => if ok = true then DucqState.ok else .emax) ∧
      ∃ l', Holds (storeAll sets w).2 l' ∧
        Represents l' (m.run (sets.map Storing.strings)).2 := by
  induction sets generalizing w l m with
  | nil => exact ⟨rfl, l, hw, hm⟩
  | cons s sets ih =>
    obtain ⟨hstate, l', hw', hm'⟩ := s.step hw hm
    obtain ⟨hstates, hlast⟩ := ih hw' hm'
    rw [List.map_cons, Storing.strings, BoundedMap.run, storeAll]
    dsimp only
    cases hset : m.set (cstr s.route) (cstr s.msg) with
    | none =>
      rw [hset] at hstate hstates hlast
      exact ⟨by rw [hstate, hstates]; rfl, hlast⟩
    | some m' =>
      rw [hset] at hstate hstates hlast
      exact ⟨by rw [hstate, hstates]; rfl, hlast⟩

end Refinement

/-- **The last messages are a bounded map.**  After any sets of routes and messages that
fit, the rows are the map after the same sets: each set ended as the map's did, and a
route's message is the one of its latest set that succeeded. -/
theorem lastMsgs_refine_boundedMap (sets : List Storing) :
    let (states, w) := storeAll sets World.init
    let (oks, m) := (BoundedMap.empty : RouteMap).run (sets.map Storing.strings)
    RefinesMap w m ∧ states = oks.map (fun ok => if ok = true then .ok else .emax) ∧
      ∀ route, m.get? route = BoundedMap.latest route (sets.map Storing.strings)
        (states.map fun state => state = .ok) none := by
  obtain ⟨hstates, l, hw, hm⟩ := storeAll_represents holds_init Represents.empty sets
  refine ⟨refinesMap_of_represents hw hm, hstates, fun route => ?_⟩
  rw [BoundedMap.get?_run, hstates, List.map_map]
  congr 1
  conv_lhs => rw [← List.map_id (BoundedMap.run _ _).1]
  refine List.map_congr_left fun ok _ => ?_
  cases ok <;> rfl

/-- A message for a route of one letter. -/
def Storing.ofLetter (i : Fin 26) : Storing where
  route := [UInt8.ofNat (97 + i.val), 0]
  msg := ascii "m" ++ [0]
  route_ne_nil := by revert i; decide
  route_lt := by revert i; decide
  msg_lt := by decide

/-- Messages for the first letters. -/
def firstLetters (n : ℕ) : List Storing := ((List.finRange 26).take n).map Storing.ofLetter

/-- There is no room for the last of the letters, and a message is kept for the others. -/
theorem lastMsgs_refine_boundedMap_letters :
    (storeAll (firstLetters 26) World.init).1 = List.replicate 25 .ok ++ [.emax] ∧
      ducqGetLastMsg (storeAll (firstLetters 26) World.init).2 (ascii "y" ++ [0]) = ascii "m" ∧
      ducqGetLastMsg (storeAll (firstLetters 26) World.init).2 (ascii "z" ++ [0]) =
        ascii "ACK\n_" := by
  have h := lastMsgs_refine_boundedMap (firstLetters 26)
  generalize storeAll (firstLetters 26) World.init = stored at h ⊢
  rcases hrun : (BoundedMap.empty : RouteMap).run ((firstLetters 26).map Storing.strings)
    with ⟨oks, m⟩
  rw [hrun] at h
  obtain ⟨hmap, hstates, -⟩ := h
  have hoks : _ = oks := congrArg Prod.fst hrun
  have hm : _ = m := congrArg Prod.snd hrun
  refine ⟨?_, ?_, ?_⟩
  · rw [hstates, ← hoks]
    decide +kernel
  · rw [hmap.get_eq _ (by decide) (by decide), ← hm]
    decide +kernel
  · rw [hmap.get_eq _ (by decide) (by decide), ← hm]
    decide +kernel

/-- **A set that takes the last place changes what is answered for another route**, for which
there is no message. -/
theorem lookup_changed_by_last_place :
    let w := (storeAll (firstLetters 24) World.init).2
    ducqGetLastMsg w (ascii "z" ++ [0]) = ascii "ACK" ∧
      (ducqSetLastMsg (ascii "y" ++ [0]) (ascii "m" ++ [0]) w).1 = .ok ∧
      ducqGetLastMsg (ducqSetLastMsg (ascii "y" ++ [0]) (ascii "m" ++ [0]) w).2
        (ascii "z" ++ [0]) = ascii "ACK\n_" := by
  obtain ⟨-, l, hw, hm⟩ := storeAll_represents holds_init Represents.empty (firstLetters 24)
  obtain ⟨hstate, l', hw', hm'⟩ := (Storing.ofLetter 24).step hw hm
  refine ⟨?_, hstate.trans ?_, ?_⟩
  · rw [hw.answer_eq hm]
    decide +kernel
  · decide +kernel
  · refine (hw'.answer_eq hm' _).trans ?_
    decide +kernel

end Ducq
