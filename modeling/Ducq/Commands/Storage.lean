import Ducq.Commands.Pub
import Ducq.Reactor.Replay
import Mathlib.Data.Finset.Card

/-!
# What publications take up

Every publication is stored under its route before it goes out, and a route that is
published again is meant to be stored in the row it has.  A route shorter than a row's
array is: it is found again as it was stored.  The empty route takes no row at all, since
a row that holds it counts as free.  But a longer route is never found again.  What is
compared with it starts with its first hundred bytes and runs on into the message, and a
message holds a newline, which no route does (`CutKeys`).

So the rows in use can be counted (`occupied_eq`): one for each short route, and one for
each *publication* on a long one, until the table is full.
-/

namespace Ducq

open CMemory FirstFit

/-- A message with a route, as it is received: its string fits into a message buffer. -/
structure Publication where
  buffer : List Byte
  route : List Byte
  hasRoute : HasRoute buffer route
  short : (cstr buffer).length < ducqMsgsz

/-- The `ducq_set_last_msg` that `pub` makes for it. -/
def Publication.store (p : Publication) (w : World) : World :=
  (ducqSetLastMsg (p.route ++ [0]) p.buffer w).2

/-- It is the one that `pub` makes. -/
theorem Publication.pubStore_eq (p : Publication) {env : Env} (hmem : env.strndup p.route = true)
    (w : World) : pubStore env p.buffer w = p.store w := by
  rw [pubStore, pubRoute_of_hasRoute p.hasRoute hmem, if_pos rfl]
  rfl

/-- One publication after the other. -/
def storePublications (ps : List Publication) (w : World) : World :=
  ps.foldl (fun w p => p.store w) w

/-- The rows in use. -/
def occupied (w : World) : ℕ :=
  (List.finRange ducqMaxChannels).countP fun i =>
    (w.reactor.lastMsgs i).route.bytes.head? ≠ some 0

/-- The routes that were published. -/
def publishedRoutes (ps : List Publication) : Finset (List Byte) :=
  (ps.map Publication.route).toFinset

/-- A route of so many bytes is cut. -/
def IsLong (route : List Byte) : Prop := ducqMaxRouteLen ≤ route.length

instance (route : List Byte) : Decidable (IsLong route) := inferInstanceAs (Decidable (_ ≤ _))

/-- How many publications there were on long routes. -/
def longPublications (ps : List Publication) : ℕ := ps.countP fun p => IsLong p.route

/-- The routes that are stored as they are. -/
def shortRoutes (ps : List Publication) : Finset (List Byte) :=
  (publishedRoutes ps).filter fun route => route ≠ [] ∧ ¬ IsLong route

/-- The routes that are cut. -/
def longRoutes (ps : List Publication) : Finset (List Byte) :=
  (publishedRoutes ps).filter IsLong

/-! ## Rows in use -/

section Rows

variable {w : World} {l : List (List Byte × List Byte)}

theorem countP_range_lt (m n : ℕ) : (List.range n).countP (fun i => i < m) = min m n := by
  induction n with
  | zero => simp
  | succ n ih =>
    rw [List.range_succ, List.countP_append, ih, List.countP_singleton]
    by_cases hn : n < m
    · rw [if_pos (decide_eq_true hn)]
      omega
    · rw [if_neg fun hc => hn (of_decide_eq_true hc)]
      omega

theorem countP_finRange_getElem? {α : Type*} [DecidableEq α] {n : ℕ} {l : List α}
    (h : l.length ≤ n) :
    (List.finRange n).countP (fun i => l[i.val]? ≠ none) = l.length := by
  have hrange : (List.finRange n).countP (fun i => l[i.val]? ≠ none) =
      (List.range n).countP fun i => i < l.length := by
    rw [← List.map_coe_finRange_eq_range, List.countP_map]
    refine List.countP_congr fun i _ => ?_
    simp
  rw [hrange, countP_range_lt, min_eq_left h]

/-- **The rows in use are the entries.** -/
theorem Holds.occupied_eq (h : Holds w l) : occupied w = l.length := by
  rw [← countP_finRange_getElem? h.length_le, occupied]
  refine List.countP_congr fun i _ => ?_
  rw [decide_eq_true_iff, decide_eq_true_iff, ← h.entry_eq, LastMsg.entry]
  split_ifs with hhead
  · exact iff_of_false (not_not.mpr hhead) (not_not.mpr rfl)
  · exact iff_of_true hhead (Option.some_ne_none _)

end Rows

/-! ## What a publication adds -/

/-- Whatever is too long for a route was cut: it holds a newline, and its message stands
behind its first hundred bytes. -/
def CutKeys (l : List (List Byte × List Byte)) : Prop :=
  ∀ e ∈ l, IsLong e.1 → newline ∈ e.1 ∧ e.1.drop ducqMaxRouteLen = e.2

/-- The entries after some publications, until the table is full. -/
structure Entries (ps : List Publication) (l : List (List Byte × List Byte)) : Prop where
  cut : CutKeys l
  length_eq : l.length = min ducqMaxChannels ((shortRoutes ps).card + longPublications ps)
  found_iff : l.length < ducqMaxChannels → ∀ route, route ≠ [] → ¬ IsLong route →
    (find route l ≠ none ↔ route ∈ publishedRoutes ps)

section Step

variable {ps : List Publication} {p : Publication} {l : List (List Byte × List Byte)}

theorem publishedRoutes_append (ps : List Publication) (p : Publication) :
    publishedRoutes (ps ++ [p]) = insert p.route (publishedRoutes ps) := by
  ext route
  simp [publishedRoutes]

theorem longPublications_append (ps : List Publication) (p : Publication) :
    longPublications (ps ++ [p]) = longPublications ps + if IsLong p.route then 1 else 0 := by
  rw [longPublications, longPublications, List.countP_append, List.countP_singleton]
  congr 1
  exact if_congr decide_eq_true_iff rfl rfl

theorem shortRoutes_append_of_not (h : ¬ (p.route ≠ [] ∧ ¬ IsLong p.route)) :
    shortRoutes (ps ++ [p]) = shortRoutes ps := by
  rw [shortRoutes, publishedRoutes_append, Finset.filter_insert, if_neg h, shortRoutes]

/-- A long route is not found. -/
theorem CutKeys.find_eq_none (h : CutKeys l) {route : List Byte} (hlong : IsLong route)
    (hnl : newline ∉ route) : find route l = none := by
  rw [find_eq_none_iff]
  rintro e he rfl
  exact hnl (h e he hlong).1

theorem storedEntry_of_short {route : List Byte} (hshort : ¬ IsLong route) (msg : List Byte) :
    storedEntry route msg = (route, msg) := by
  rw [storedEntry, if_pos (not_le.mp hshort)]

theorem storedEntry_of_long {route : List Byte} (hlong : IsLong route) (msg : List Byte) :
    storedEntry route msg = (route.take ducqMaxRouteLen ++ msg, msg) := by
  rw [storedEntry, if_neg (not_lt.mpr hlong)]

/-- What a publication writes is a string. -/
theorem HasRoute.zero_notMem_storedEntry {buffer r : List Byte} (hr : HasRoute buffer r) :
    (0 : Byte) ∉ (storedEntry r (cstr buffer)).1 := by
  by_cases hlong : IsLong r
  · rw [storedEntry_of_long hlong, List.mem_append, not_or]
    exact ⟨fun hc => hr.zero_notMem (List.mem_of_mem_take hc), zero_notMem_cstr buffer⟩
  · rw [storedEntry_of_short hlong]
    exact hr.zero_notMem

/-- So it is with what a publication stores. -/
theorem Publication.cut_storedEntry (p : Publication)
    (hlong : IsLong (storedEntry p.route (cstr p.buffer)).1) :
    newline ∈ (storedEntry p.route (cstr p.buffer)).1 ∧
      (storedEntry p.route (cstr p.buffer)).1.drop ducqMaxRouteLen =
        (storedEntry p.route (cstr p.buffer)).2 := by
  rw [storedEntry] at hlong ⊢
  dsimp only at hlong ⊢
  split_ifs at hlong ⊢ with hshort
  · exact absurd hlong (not_le.mpr hshort)
  · obtain ⟨pre, q, hstring⟩ := p.hasRoute.cstr_eq
    refine ⟨List.mem_append_right _ (by simp [hstring]), List.drop_left' ?_⟩
    rw [List.length_take, min_eq_left (not_lt.mp hshort)]

/-- What a publication writes is not found under another short route. -/
theorem storedEntry_ne {route r msg : List Byte} (hne : r ≠ route) (hshort : ¬ IsLong r) :
    (storedEntry route msg).1 ≠ r := by
  rw [storedEntry]
  dsimp only
  split_ifs with hroute
  · exact hne.symm
  · rintro rfl
    refine hshort ?_
    rw [IsLong, List.length_append, List.length_take, min_eq_left (not_lt.mp hroute)]
    exact Nat.le_add_right _ _

/-- The empty route adds nothing. -/
theorem Entries.step_nil (h : Entries ps l) (hroute : p.route = []) : Entries (ps ++ [p]) l where
  cut := h.cut
  length_eq := by
    have hnot : ¬ IsLong p.route := by
      rw [hroute]
      decide
    rw [h.length_eq, shortRoutes_append_of_not fun hc => hc.1 hroute, longPublications_append,
      if_neg hnot, Nat.add_zero]
  found_iff hlt route hne hshort := by
    rw [h.found_iff hlt route hne hshort, publishedRoutes_append, Finset.mem_insert, hroute,
      or_iff_right hne]

/-- In a table that is full nothing is added. -/
theorem Entries.step_full (h : Entries ps l) (hfull : l.length = ducqMaxChannels)
    {l' : List (List Byte × List Byte)} (hcut : CutKeys l') (hlength : l'.length = l.length) :
    Entries (ps ++ [p]) l' where
  cut := hcut
  length_eq := by
    have hcard : (shortRoutes ps).card ≤ (shortRoutes (ps ++ [p])).card := by
      refine Finset.card_le_card (Finset.filter_subset_filter _ ?_)
      rw [publishedRoutes_append]
      exact Finset.subset_insert _ _
    have hlong := longPublications_append ps p
    have hbefore := h.length_eq
    omega
  found_iff hlt := by omega

/-- **A publication on a long route adds a row.** -/
theorem Entries.step_long (h : Entries ps l) (hroom : l.length < ducqMaxChannels)
    (hlong : IsLong p.route) :
    Entries (ps ++ [p]) (l ++ [storedEntry p.route (cstr p.buffer)]) where
  cut e he := by
    rcases List.mem_append.mp he with he | he
    · exact h.cut e he
    · rw [List.mem_singleton.mp he]
      exact p.cut_storedEntry
  length_eq := by
    have hbefore := h.length_eq
    rw [shortRoutes_append_of_not fun hc => hc.2 hlong, longPublications_append, if_pos hlong,
      List.length_append, List.length_singleton]
    omega
  found_iff _ route hne hshort := by
    have hother : route ≠ p.route := fun heq => hshort (heq ▸ hlong)
    have hnone : find route [storedEntry p.route (cstr p.buffer)] = none := by
      rw [find, if_neg (storedEntry_ne hother hshort), find]
    rw [find_append, hnone, Option.or_none, h.found_iff hroom route hne hshort,
      publishedRoutes_append, Finset.mem_insert, or_iff_right hother]

/-- **A publication on a short route adds a row if it is the first.** -/
theorem Entries.step_short (h : Entries ps l) (hroom : l.length < ducqMaxChannels)
    (hne : p.route ≠ []) (hshort : ¬ IsLong p.route) :
    Entries (ps ++ [p]) (write p.route (storedEntry p.route (cstr p.buffer)) l) where
  cut e he := by
    rcases mem_of_mem_write he with rfl | he
    · exact p.cut_storedEntry
    · exact h.cut e he
  length_eq := by
    have hbefore := h.length_eq
    have hfound := h.found_iff hroom p.route hne hshort
    have hfilter : shortRoutes (ps ++ [p]) = insert p.route (shortRoutes ps) := by
      rw [shortRoutes, publishedRoutes_append, Finset.filter_insert, if_pos ⟨hne, hshort⟩,
        shortRoutes]
    have hmem : p.route ∈ shortRoutes ps ↔ p.route ∈ publishedRoutes ps := by
      rw [shortRoutes, Finset.mem_filter, and_iff_left ⟨hne, hshort⟩]
    rw [longPublications_append, if_neg hshort, Nat.add_zero, length_write, hfilter]
    split_ifs with hnone
    · have hnew : p.route ∉ shortRoutes ps := fun hc => hfound.mpr (hmem.mp hc) hnone
      rw [Finset.card_insert_of_notMem hnew]
      omega
    · rw [Finset.insert_eq_of_mem (hmem.mpr (hfound.mp hnone))]
      exact hbefore
  found_iff _ route hne' hshort' := by
    have hkey : (storedEntry p.route (cstr p.buffer)).1 = p.route := by
      rw [storedEntry_of_short hshort]
    rw [find_write hkey, publishedRoutes_append, Finset.mem_insert]
    split_ifs with heq
    · exact iff_of_true (Option.some_ne_none _) (Or.inl heq)
    · rw [h.found_iff hroom route hne' hshort', or_iff_right heq]

end Step

/-- **What a publication does to the rows.** -/
theorem Publication.store_entries {w : World} {ps : List Publication}
    {l : List (List Byte × List Byte)} (hw : Holds w l) (h : Entries ps l) (p : Publication) :
    ∃ l', Holds (p.store w) l' ∧ Entries (ps ++ [p]) l' := by
  have hstring : cstr (p.route ++ [0]) = p.route := cstr_append_zero p.hasRoute.zero_notMem []
  obtain ⟨-, hw'⟩ := hw.set_spec (p.route ++ [0]) p.short
  rw [hstring] at hw'
  refine ⟨_, hw', ?_⟩
  rw [setEntries]
  by_cases hnil : p.route = []
  · rw [if_neg fun hc => hc.2 hnil]
    exact h.step_nil hnil
  · by_cases hlong : IsLong p.route
    · have hnone := h.cut.find_eq_none hlong p.hasRoute.newline_notMem
      have hpos : position p.route l = l.length :=
        le_antisymm position_le (not_lt.mp (mt position_lt_iff.mp (not_not.mpr hnone)))
      rw [hpos, write_of_find_eq_none hnone]
      by_cases hroom : l.length < ducqMaxChannels
      · rw [if_pos ⟨hroom, hnil⟩]
        exact h.step_long hroom hlong
      · rw [if_neg fun hc => hroom hc.1]
        exact h.step_full (le_antisymm hw.length_le (not_lt.mp hroom)) h.cut rfl
    · by_cases hroom : l.length < ducqMaxChannels
      · rw [if_pos ⟨position_le.trans_lt hroom, hnil⟩]
        exact h.step_short hroom hnil hlong
      · have hfull := le_antisymm hw.length_le (not_lt.mp hroom)
        split_ifs with hc
        · have hfound := position_lt_iff.mp (hc.1.trans_eq hfull.symm)
          refine h.step_full hfull (fun e he => ?_) ?_
          · rcases mem_of_mem_write he with rfl | he
            · exact p.cut_storedEntry
            · exact h.cut e he
          · rw [length_write, if_neg hfound]
        · exact h.step_full hfull h.cut rfl

/-- The entries after a run of publications. -/
theorem storePublications_entries (ps : List Publication) :
    ∃ l, Holds (storePublications ps World.init) l ∧ Entries ps l := by
  induction ps using List.reverseRecOn with
  | nil =>
    refine ⟨[], holds_init, fun e he => absurd he List.not_mem_nil, rfl, fun _ route _ _ => ?_⟩
    exact iff_of_false (not_not.mpr rfl) (by simp [publishedRoutes])
  | append_singleton ps p ih =>
    obtain ⟨l, hw, h⟩ := ih
    rw [storePublications, List.foldl_append]
    exact p.store_entries hw h

/-- **How many rows are in use**: one for each short route, and one for each publication
on a long one, until there are no more. -/
theorem occupied_eq (ps : List Publication) :
    occupied (storePublications ps World.init) =
      min ducqMaxChannels ((shortRoutes ps).card + longPublications ps) := by
  obtain ⟨l, hw, h⟩ := storePublications_entries ps
  rw [hw.occupied_eq, h.length_eq]

/-- The routes are the empty one, the short ones and the long ones. -/
theorem card_publishedRoutes (ps : List Publication) :
    (publishedRoutes ps).card = (shortRoutes ps).card + (longRoutes ps).card +
      if [] ∈ publishedRoutes ps then 1 else 0 := by
  have hlong := Finset.card_filter_add_card_filter_not (s := publishedRoutes ps) IsLong
  have hempty := Finset.card_filter_add_card_filter_not
    (s := (publishedRoutes ps).filter fun route => ¬ IsLong route) fun route => route ≠ []
  have hshort : ((publishedRoutes ps).filter fun route => ¬ IsLong route).filter
      (fun route => route ≠ []) = shortRoutes ps := by
    rw [Finset.filter_filter, shortRoutes]
    refine Finset.filter_congr fun route _ => ?_
    rw [and_comm]
  have hnil : ((publishedRoutes ps).filter fun route => ¬ IsLong route).filter
      (fun route => ¬ route ≠ []) = if [] ∈ publishedRoutes ps then {[]} else ∅ := by
    ext route
    rw [Finset.mem_filter, Finset.mem_filter, not_not]
    split_ifs with hmem
    · rw [Finset.mem_singleton]
      refine ⟨fun hc => hc.2, ?_⟩
      rintro rfl
      exact ⟨⟨hmem, by decide⟩, rfl⟩
    · refine iff_of_false ?_ (Finset.notMem_empty route)
      rintro ⟨⟨hroute, -⟩, rfl⟩
      exact hmem hroute
  have hcard : (if [] ∈ publishedRoutes ps then {[]} else ∅ : Finset (List Byte)).card =
      if [] ∈ publishedRoutes ps then 1 else 0 := by
    split_ifs
    · rfl
    · rfl
  rw [hshort, hnil, hcard] at hempty
  rw [longRoutes]
  omega

/-- **Rows are reused exactly if no long route comes up more often than routes do.**  A
run of publications has taken no more rows than it had routes if every long route was
published once (the empty route, which takes no row, makes up for one more publication),
or if there were as many routes as rows. -/
theorem occupied_le_iff (ps : List Publication) :
    occupied (storePublications ps World.init) ≤ (publishedRoutes ps).card ↔
      longPublications ps ≤ (longRoutes ps).card +
          (if [] ∈ publishedRoutes ps then 1 else 0) ∨
        ducqMaxChannels ≤ (publishedRoutes ps).card := by
  have hcard := card_publishedRoutes ps
  rw [occupied_eq]
  omega

/-- A publication on a route of a hundred bytes. -/
def longPublication : Publication where
  buffer := ascii "pub" ++ space :: (List.replicate ducqMaxRouteLen 97 ++ newline :: [0])
  route := List.replicate ducqMaxRouteLen 97
  hasRoute := hasRoute_message (by decide) (by decide) (by decide) (by decide) [0]
  short := by decide

/-- **Published twice, it takes two rows.** -/
theorem not_occupied_le_longPublication :
    ¬ occupied (storePublications [longPublication, longPublication] World.init) ≤
      (publishedRoutes [longPublication, longPublication]).card := by
  rw [occupied_eq]
  decide

end Ducq
