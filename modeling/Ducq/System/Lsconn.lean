import Ducq.Commands.Listing
import Ducq.Dispatcher.LogSize
import Ducq.Inet.Address
import Ducq.System.EndToEnd

/-!
# What `lsconn` tells

`lsconn` answers with a message of several parts: `PARTS`, a row for each client, and `END`.
A row is the id of a client, a comma and its route.  Ids hold no comma, and so whoever takes a
row apart at its first comma gets back both (`readRow_row`).  A client over TCP that listens
for the answer is handed the rows alone, and reads from them who is connected, and to what
they listen (`lsconn_tells`).
-/

namespace Ducq

open CMemory CNumber CPrintf ByteStream Fifo Client Sweep Logged

abbrev comma : Byte := 44

/-- The clients in the table, from the first slot on. -/
def clients (w : World) : List (Fin ducqMaxConnections) :=
  (List.finRange ducqMaxConnections).filter fun i => (w.conn i).IsClient

/-- The lines of the documentation, `<id>,<route>` with a newline, taken apart. -/
def readRow (row : List Byte) : List Byte × List Byte :=
  (row.takeWhile (· ≠ comma), ((row.dropWhile (· ≠ comma)).drop 1).dropLast)

variable {isCode : ℕ → Prop} {env : Env} {w w' : World} {i : Fin ducqMaxConnections} {d : DucqI}

/-! ## The loop -/

/-- A line that fits is formatted as it is. -/
theorem formatted_of_lt {text : List Byte} {size : ℕ} (h : text.length < size) :
    formatted env size text = text := by
  rw [formatted, snprintf_of_lt _ _ h, Buffer.slice_store_drop _ (by simp), List.drop_zero,
    List.take_left]

/-- Nothing is sent at a slot without a client. -/
theorem listConnection_turn_idle (h : ¬ (w.conn i).IsClient) (control : ℕ) : ∃ control',
    loopTurn (loopThroughClient env (listConnection env)) i (control, d, w) =
      (false, control', d, w) := by
  rw [loopTurn]
  by_cases hfd : (w.conn i).fd = -1
  · exact ⟨control, if_pos hfd⟩
  · have htype : (w.conn i).type ≠ .client := fun htype => h ⟨hfd, htype⟩
    rw [if_neg hfd]
    exact ⟨ducqLoopContinue, by simp [loopThroughClient, htype]⟩

/-- **The line of a client is sent**, and the loop stops if that fails. -/
theorem listConnection_turn (h : (w.conn i).IsClient)
    (hline : (clientLine env w i).length < ducqMsgsz) (control : ℕ) :
    loopTurn (loopThroughClient env (listConnection env)) i (control, d, w) =
      let (state, w') := ducqSend env d (clientLine env w i) (ducqId env (w.conn i).word w).2
      (decide (state ≠ .ok), if state ≠ .ok then ducqLoopBreak else ducqLoopContinue, d, w') := by
  have hformatted := @formatted_of_lt env _ _ hline
  unfold clientLine at hformatted
  rw [loopTurn, if_neg h.1, loopThroughClient, if_pos h.2, listConnection]
  dsimp only
  rw [hformatted, clientLine]
  rcases ducqSend env d (listLine (ducqId env (w.conn i).word w).1 (routePtr env w i))
    (ducqId env (w.conn i).word w).2 with ⟨state, w'⟩
  dsimp only
  by_cases hstate : state = .ok
  · rw [if_neg (not_not.mpr hstate), decide_eq_false (not_not.mpr hstate)]
    rfl
  · rw [if_pos hstate, decide_eq_true hstate]
    rfl

/-- From one state to another, the client is sent these messages, and nothing else happens. -/
structure SendsOnly (d : DucqI) (w w' : World) (ms : List (List Byte)) : Prop where
  reactor : w'.reactor = w.reactor
  sent : messagesTo d w'.calls = messagesTo d w.calls ++ ms
  others : ∀ d' ≠ d, messagesTo d' w'.calls = messagesTo d' w.calls

namespace SendsOnly

variable {ms ms' : List (List Byte)}

theorem refl (d : DucqI) (w : World) : SendsOnly d w w [] :=
  ⟨rfl, (List.append_nil _).symm, fun _ _ => rfl⟩

theorem trans {w'' : World} (h : SendsOnly d w w' ms) (h' : SendsOnly d w' w'' ms') :
    SendsOnly d w w'' (ms ++ ms') where
  reactor := h'.reactor.trans h.reactor
  sent := by rw [h'.sent, h.sent, List.append_assoc]
  others d' hd' := (h'.others d' hd').trans (h.others d' hd')

theorem ducqId (d d' : DucqI) (w : World) : SendsOnly d w (ducqId env d' w).2 [] := by
  have hnone : ∀ d'', messagesTo d'' (Ducq.ducqId env d' w).2.calls = messagesTo d'' w.calls := by
    intro d''
    unfold Ducq.ducqId
    split_ifs
    · rfl
    · exact (messagesTo_append d'' w.calls [.id d']).trans (List.append_nil _)
  exact ⟨reactor_ducqId env d' w, by rw [hnone, List.append_nil], fun d'' _ => hnone d''⟩

theorem ducqSend (hd : d ≠ 0) (m : List Byte) (w : World) :
    SendsOnly d w (ducqSend env d m w).2 [m] where
  reactor := reactor_ducqSend env d m w
  sent := by
    unfold Ducq.ducqSend
    rw [if_neg hd]
    dsimp only
    rw [World.calls_record, messagesTo_append, messagesTo_send, if_pos rfl]
  others d' hd' := by
    unfold Ducq.ducqSend
    rw [if_neg hd]
    dsimp only
    rw [World.calls_record, messagesTo_append, messagesTo_send, if_neg hd'.symm, List.append_nil]

end SendsOnly

/-- The rows of the clients in these slots. -/
def rowsOf (env : Env) (w : World) (is : List (Fin ducqMaxConnections)) : List (List Byte) :=
  (is.filter fun i => (w.conn i).IsClient).map (clientLine env w)

/-- **The rows are sent up to one that cannot be sent.** -/
theorem sends_listConnection (hd : d ≠ 0)
    (hline : ∀ i, (w.conn i).IsClient → (clientLine env w i).length < ducqMsgsz)
    (is : List (Fin ducqMaxConnections)) {v : World} (hv : v.reactor = w.reactor) (control : ℕ) :
    ∃ ms, ms <+: rowsOf env w is ∧
      SendsOnly d v (sweep (loopTurn (loopThroughClient env (listConnection env))) is
        (control, d, v)).2.2 ms ∧
      ((sweep (loopTurn (loopThroughClient env (listConnection env))) is (control, d, v)).1 = 0 →
        ms = rowsOf env w is) := by
  induction is generalizing v control with
  | nil => exact ⟨[], List.nil_prefix, .refl d v, fun _ => rfl⟩
  | cons i is ih =>
    have hconn : v.conn i = w.conn i := by rw [World.conn, World.conn, hv]
    by_cases hi : (w.conn i).IsClient
    · have hrows : rowsOf env w (i :: is) = clientLine env w i :: rowsOf env w is := by
        rw [rowsOf, List.filter_cons_of_pos (by simpa using hi), List.map_cons, rowsOf]
      have hsame : clientLine env v i = clientLine env w i := clientLine_congr hv i
      have hturn := @listConnection_turn env v i d (hconn ▸ hi) (hsame ▸ hline i hi) control
      rw [hsame] at hturn
      have hsends := (@SendsOnly.ducqId env d (v.conn i).word v).trans
        (@SendsOnly.ducqSend env d hd (clientLine env w i) _)
      rw [List.nil_append] at hsends
      rcases hsent : ducqSend env d (clientLine env w i) (ducqId env (v.conn i).word v).2 with
        ⟨state, v'⟩
      rw [hsent] at hturn hsends
      dsimp only at hturn hsends
      by_cases hstate : state = .ok
      · rw [sweep_cons_go (by rw [hturn]; exact decide_eq_false (not_not.mpr hstate)), hturn, hrows]
        obtain ⟨ms, hms, hrest, hall⟩ := ih (hsends.reactor.trans hv)
          (if state ≠ .ok then ducqLoopBreak else ducqLoopContinue)
        exact ⟨_ :: ms, List.cons_prefix_cons.mpr ⟨rfl, hms⟩, hsends.trans hrest,
          fun h => by rw [hall h]⟩
      · rw [sweep_cons_stop (by rw [hturn]; exact decide_eq_true hstate), hturn, hrows]
        dsimp only
        rw [if_pos hstate]
        exact ⟨[clientLine env w i], ⟨_, rfl⟩, hsends, fun h => absurd h (by decide)⟩
    · have hrows : rowsOf env w (i :: is) = rowsOf env w is := by
        rw [rowsOf, List.filter_cons_of_neg (by simpa using hi), rowsOf]
      obtain ⟨control', hturn⟩ := @listConnection_turn_idle env v i d (hconn ▸ hi) control
      rw [sweep_cons_go (by rw [hturn]), hturn, hrows]
      exact ih hv control'

/-- All the parts of an answer. -/
def listingParts (env : Env) (w : World) : List (List Byte) :=
  ascii "PARTS" :: (rowsOf env w (List.finRange ducqMaxConnections) ++ [ascii "END"])

/-- **An answer that is reported a success is complete**, and any other is a beginning of
it. -/
theorem sends_listConnections {env : CommandEnv} (hd : d ≠ 0) (hframes : env.frames d = true)
    (hline : ∀ i, (w.conn i).IsClient → (clientLine env.toEnv w i).length < ducqMsgsz) :
    ∃ ms, ms <+: listingParts env.toEnv w ∧ SendsOnly d w (listConnections env d w).2 ms ∧
      ((listConnections env d w).1 = .ok → ms = listingParts env.toEnv w) := by
  have hframe : ∀ word v, ducqFrame env word d v = ducqSend env.toEnv d word v := by
    intro word v
    rw [ducqFrame, if_neg hd, if_pos hframes]
  rw [listConnections, ducqParts, ducqEnd, hframe]
  have hparts := @SendsOnly.ducqSend env.toEnv d hd (ascii "PARTS") w
  generalize ducqSend env.toEnv d (ascii "PARTS") w = first at hparts ⊢
  obtain ⟨state, v⟩ := first
  dsimp only at hparts ⊢
  by_cases hstate : state = .ok
  · rw [if_neg (not_not.mpr hstate)]
    obtain ⟨ms, hms, hrows, hall⟩ := sends_listConnection hd hline
      (List.finRange ducqMaxConnections) hparts.reactor ducqLoopContinue
    rw [ducqReactorLoop, connectionLoopTemplate]
    generalize sweep (loopTurn (loopThroughClient env.toEnv (listConnection env.toEnv)))
      (List.finRange ducqMaxConnections) (ducqLoopContinue, d, v) = looped at hrows hall ⊢
    obtain ⟨control, c, v'⟩ := looped
    dsimp only at hrows hall ⊢
    by_cases hcontrol : control = 0
    · rw [if_neg (not_not.mpr hcontrol), hframe]
      have hend := @SendsOnly.ducqSend env.toEnv d hd (ascii "END") v'
      exact ⟨_, by rw [hall hcontrol]; exact List.prefix_rfl, (hparts.trans hrows).trans hend,
        fun _ => by rw [hall hcontrol]; rfl⟩
    · rw [if_pos hcontrol]
      exact ⟨ascii "PARTS" :: ms,
        List.cons_prefix_cons.mpr ⟨rfl, hms.trans (List.prefix_append _ _)⟩, hparts.trans hrows,
        fun h => absurd h DucqState.noConfusion⟩
  · rw [if_pos hstate]
    exact ⟨_, ⟨_, rfl⟩, hparts, fun h => absurd h hstate⟩

/-! ## The line about it -/

/-- What the log route is sent about a listing that was a success. -/
def lsconnLine (env : Env) (d : DucqI) : List Byte :=
  logLine env .info (ascii "lsconn") (some (env.id d))
    (strText (some (ducqStateTostr DucqState.ok.code)))

/-- What the client that asked is sent of that line. -/
def lsconnLog (env : Env) (w : World) (d : DucqI) : List (List Byte) :=
  if ∃ i, OnLog env w i ∧ (w.conn i).word = d then [lsconnLine env d] else []

/-- **What `lsconn` sends to the client that asked**, when it returns `DUCQ_OK`: all the parts,
and behind them the line about them if the client is on the log route. -/
theorem messagesTo_lsconn {env : CommandEnv} {s : Logged} (h : TableInv isCode s.world)
    (hd : d ≠ 0) (hframes : env.frames d = true)
    (hline : ∀ i, (s.world.conn i).IsClient → (clientLine env.toEnv s.world i).length < ducqMsgsz)
    {message : List Byte} {size : ℕ} (hok : (lsconn env d message size s).1 = .ok) :
    messagesTo d (lsconn env d message size s).2.world.calls =
      messagesTo d s.world.calls ++
        (listingParts env.toEnv s.world ++ lsconnLog env.toEnv s.world d) := by
  have hlist : (listConnections env d s.world).1 = .ok := hok
  obtain ⟨ms, -, hparts, hall⟩ := sends_listConnections hd hframes hline
  have hsends := hparts.trans (@SendsOnly.ducqId env.toEnv d d (listConnections env d s.world).2)
  rw [hall hlist, List.append_nil] at hsends
  have hid : (Ducq.ducqId env.toEnv d (listConnections env d s.world).2).1 = some (env.id d) := by
    rw [Ducq.ducqId, if_neg hd]
  have hworld : (lsconn env d message size s).2.world = Ducq.ducqReactorLog env.toEnv
      (if (listConnections env d s.world).1 ≠ .ok then .warning else .info) (ascii "lsconn")
      (Ducq.ducqId env.toEnv d (listConnections env d s.world).2).1 (some (ascii "%s"))
      [.str (some (ducqStateTostr (listConnections env d s.world).1.code))]
      (Ducq.ducqId env.toEnv d (listConnections env d s.world).2).2 := rfl
  rw [if_neg (not_not.mpr hlist), hlist, hid] at hworld
  generalize (Ducq.ducqId env.toEnv d (listConnections env d s.world).2).2 = w' at hsends hworld
  have hconn : ∀ j, w'.conn j = s.world.conn j := fun j => by
    rw [World.conn, World.conn, hsends.reactor]
  obtain ⟨-, hcalls⟩ := ducqReactorLog_spec (h.onlyFrees fun j => .inl (hconn j)) .info
    (ascii "lsconn") (some (env.id d)) (format_string (some (ducqStateTostr DucqState.ok.code)))
  rw [hworld, hcalls, messagesTo_append,
    messagesTo_flatMap_slotCalls (h.onlyFrees fun j => .inl (hconn j)) d _ _
      (List.nodup_finRange _), hsends.sent, List.append_assoc, lsconnLog]
  congr 2
  refine if_congr (exists_congr fun j => ?_) rfl rfl
  rw [and_iff_right (List.mem_finRange j), selected_congr (hconn j), hconn, OnLog, hsends.reactor]

/-- The line travels in a frame. -/
theorem lsconnLog_spec {name : Protocol × Option Sockaddr} {ntop6 : Ntop6}
    (hid : env.id d = idText ntop6 name.1 name.2) {m : List Byte} (hm : m ∈ lsconnLog env w d) :
    m ≠ [] ∧ m.length < ducqMsgsz := by
  unfold lsconnLog at hm
  split_ifs at hm
  · rw [List.mem_singleton] at hm
    have hlength := length_idText_lt ntop6 name.1 name.2
    have hhead : (logHead .info (ascii "lsconn") (some (env.id d))).length =
        (cstr (env.id d)).length + 13 := by
      simp [logHead, strText, ducqLevelTostr, ascii]
    have htext : (strText (some (ducqStateTostr DucqState.ok.code))).length < 100 := by decide
    have hcstr := length_cstr_le (env.id d)
    rw [hid] at hcstr hhead
    have hsizes : 200 < ducqMsgsz := by decide
    have hline := (@logLine_of_lt env .info (ascii "lsconn") (some (env.id d))
      (strText (some (ducqStateTostr DucqState.ok.code))) (by rw [hid]; omega)).1
    rw [hm, lsconnLine, hline, ← List.length_pos_iff, List.length_append, hid]
    omega
  · exact absurd hm List.not_mem_nil

/-! ## The rows -/

theorem comma_notMem_idText (ntop6 : Ntop6) (t : Protocol) (peer : Option Sockaddr) :
    comma ∉ idText ntop6 t peer := by
  intro h
  rcases List.mem_append.mp h with h | h
  · cases t <;> exact absurd h (by decide)
  · rcases addressByte_of_mem_peerText h with h | h | h
    · exact absurd h (by decide)
    · exact absurd h (by decide)
    · exact absurd h (by decide)

/-- **A row is read back.** -/
theorem readRow_row {id : List Byte} (hid : comma ∉ id) (route : List Byte) :
    readRow (id ++ ascii "," ++ route ++ ascii "\n") = (id, route) := by
  have hsplit : id ++ ascii "," ++ route ++ ascii "\n" = id ++ comma :: (route ++ [newline]) := by
    simp [ascii]
  have hall : ∀ b ∈ id, decide (b ≠ comma) = true := by
    intro b hb
    exact decide_eq_true fun h => hid (h ▸ hb)
  rw [readRow, hsplit, List.takeWhile_append_of_pos hall, List.dropWhile_append_of_pos hall]
  simp

/-- A text that begins like an id is none of the protocol's. -/
theorem plain_idText_append (ntop6 : Ntop6) (t : Protocol) (peer : Option Sockaddr)
    (text : List Byte) : Plain (idText ntop6 t peer ++ text) := by
  intro word hword
  have htag : t.tag <+: cstr (idText ntop6 t peer ++ text ++ [0]) := by
    have h0 : (0 : Byte) ∉ t.tag := fun h => ne_zero_of_mem_tag h rfl
    rw [idText, List.append_assoc, List.append_assoc, cstr_append_of_notMem h0]
    exact List.prefix_append _ _
  refine not_starts_of_starts htag ?_
  revert word
  cases t <;> decide

/-- Who is connected, and to what they listen. -/
def directory (ntop6 : Ntop6) (name : DucqI → Protocol × Option Sockaddr) (w : World) :
    List (List Byte × List Byte) :=
  (clients w).map fun i =>
    (idText ntop6 (name (w.conn i).word).1 (name (w.conn i).word).2, cstr (w.conn i).bytes.bytes)

variable {ntop6 : Ntop6} {name : DucqI → Protocol × Option Sockaddr}
  {b : Broker DucqI (List Byte) (List Byte) ducqMaxConnections ducqMaxChannels}

/-- The line of a client, in a state that can be reached. -/
theorem clientLine_eq (hb : Brokered isCode w b)
    (hid : ∀ c, Registered w c → env.id c = idText ntop6 (name c).1 (name c).2)
    (hi : (w.conn i).IsClient) :
    clientLine env w i =
      idText ntop6 (name (w.conn i).word).1 (name (w.conn i).word).2 ++ ascii "," ++
        cstr (w.conn i).bytes.bytes ++ ascii "\n" := by
  have h0 := hb.simulated.inv.client_ne_zero i hi
  rw [clientLine, listLine, hb.cstr_routePtr hi, ducqId, if_neg h0, strText]
  dsimp only
  rw [Option.map_some, Option.getD_some, hid _ ⟨i, hi, rfl⟩,
    cstr_of_notMem (zero_notMem_idText _ _ _)]

theorem length_route_lt (hb : Brokered isCode w b) (hi : (w.conn i).IsClient) :
    (cstr (w.conn i).bytes.bytes).length < ducqMaxRouteLen := by
  obtain ⟨q, hq⟩ := exists_eq_cstr_append (hb.simulated.terminated i hi)
  have hlength := congrArg List.length hq
  rw [(w.conn i).bytes.length_eq, List.length_append, List.length_cons] at hlength
  omega

/-- What a row is good for. -/
theorem row_spec (hb : Brokered isCode w b)
    (hid : ∀ c, Registered w c → env.id c = idText ntop6 (name c).1 (name c).2)
    (hi : (w.conn i).IsClient) :
    (clientLine env w i ≠ [] ∧ (clientLine env w i).length < ducqMsgsz) ∧
      Plain (clientLine env w i) ∧
      readRow (clientLine env w i) =
        (idText ntop6 (name (w.conn i).word).1 (name (w.conn i).word).2,
          cstr (w.conn i).bytes.bytes) := by
  have hroute := length_route_lt hb hi
  have hlength := length_idText_lt ntop6 (name (w.conn i).word).1 (name (w.conn i).word).2
  rw [clientLine_eq hb hid hi]
  refine ⟨⟨by simp [ascii], ?_⟩, ?_, readRow_row (comma_notMem_idText _ _ _) _⟩
  · simp only [List.length_append]
    have hsizes : ducqMaxRouteLen + 60 < ducqMsgsz := by decide
    have hcomma : (ascii ",").length = 1 := rfl
    have hnewline : (ascii "\n").length = 1 := rfl
    omega
  · rw [List.append_assoc, List.append_assoc]
    exact plain_idText_append _ _ _ _

/-- What the reader makes of the rows. -/
theorem map_readRow_rowsOf (hb : Brokered isCode w b)
    (hid : ∀ c, Registered w c → env.id c = idText ntop6 (name c).1 (name c).2) :
    (rowsOf env w (List.finRange ducqMaxConnections)).map readRow = directory ntop6 name w := by
  rw [rowsOf, List.map_map, directory, clients]
  refine List.map_congr_left fun i hi => ?_
  exact (row_spec hb hid (of_decide_eq_true (List.mem_filter.mp hi).2)).2.2

/-- The parts of an answer travel in frames, and all but the first and the last are messages. -/
theorem listingParts_spec (hb : Brokered isCode w b)
    (hid : ∀ c, Registered w c → env.id c = idText ntop6 (name c).1 (name c).2) :
    (∀ m ∈ listingParts env w, (m ≠ [] ∧ m.length < ducqMsgsz) ∧
      (Plain m ∨ m = ascii "PARTS" ∨ m = ascii "END")) ∧
    ∀ n, ((listingParts env w).take n).filter Plain =
      (rowsOf env w (List.finRange ducqMaxConnections)).take (n - 1) := by
  have hrow : ∀ m ∈ rowsOf env w (List.finRange ducqMaxConnections),
      (m ≠ [] ∧ m.length < ducqMsgsz) ∧ Plain m := by
    intro m hm
    obtain ⟨i, hi, rfl⟩ := List.mem_map.mp hm
    obtain ⟨hfits, hplain, -⟩ := row_spec hb hid (of_decide_eq_true (List.mem_filter.mp hi).2)
    exact ⟨hfits, hplain⟩
  generalize hrows : rowsOf env w (List.finRange ducqMaxConnections) = rows at hrow
  rw [listingParts, hrows]
  constructor
  · intro m hm
    rcases List.mem_cons.mp hm with rfl | hm
    · exact ⟨by decide, .inr (.inl rfl)⟩
    · rcases List.mem_append.mp hm with hm | hm
      · exact ⟨(hrow m hm).1, .inl (hrow m hm).2⟩
      · rw [List.mem_singleton.mp hm]
        exact ⟨by decide, .inr (.inr rfl)⟩
  · intro n
    cases n with
    | zero => rfl
    | succ n =>
      have hend : ([ascii "END"].take (n - rows.length)).filter Plain = [] := by
        refine List.filter_eq_nil_iff.mpr fun m hm => ?_
        rw [List.mem_singleton.mp (List.mem_of_mem_take hm)]
        decide
      rw [List.take_succ_cons, List.filter_cons_of_neg (by decide), List.take_append,
        List.filter_append, hend, List.append_nil, Nat.add_sub_cancel]
      exact List.filter_eq_self.mpr fun m hm =>
        decide_eq_true (hrow m (List.mem_of_mem_take hm)).2

/-- **A listing tells who is connected, and to what they listen.**  A client over TCP asks any
reactor that can be reached for the listing, all of it is sent (nothing but `END` says so), and
the client listens, with functions that let the listening go on.  Then what it is handed as
messages is one row for each client, in the order of the slots, and from each row it reads the
id of that client and its route.  Handed over were as many rows as there were turns after the
first, `PARTS`; with `END` there are as many turns as clients, and two.  A client on the log
route receives the line about its own listing after that. -/
theorem lsconn_tells {before : List (Env × Op)} (hbefore : ValidOps isCode before World.init)
    (hbefore' : OpsFit before World.init) {s : Logged} (hw : runOps before World.init = s.world)
    (hd : Registered s.world d) {env : CommandEnv} (hframes : env.frames d = true)
    (hid : ∀ c, Registered s.world c → env.id c = idText ntop6 (name c).1 (name c).2)
    {message : List Byte} {size : ℕ} (hok : (lsconn env d message size s).1 = .ok)
    {sender receiver : Socket} (hwx : Writable sender.wx) (htx : sender.tx = [])
    (hrx : bytes receiver.rx =
      (sendAll ((messagesTo d (lsconn env d message size s).2.world.calls).drop
        (messagesTo d s.world.calls).length) sender).2.tx)
    (hf : hardFailure receiver.rx = none) {wire : Wire} (hwire : OverTcp wire receiver)
    {σ : Type} {ctx : ListenCtx σ} (hctx : Steady ctx)
    (hprotocol : ∀ f : OnMsg σ, ctx.onProtocol = some f → ∀ (msg : Buffer) (size : ℕ) (c : σ)
      (past : List Exchange), (f msg size c past).1 = 0)
    (stack : ℕ → Byte) (c : σ) {past : List Exchange} (hpast : receives past = 0) :
    (∃ turns l, Run (Listens (some wire) ctx) (startListening stack c past) turns l ∧
      turns.length = (clients s.world).length + 2) ∧
    ∀ turns l, Run (Listens (some wire) ctx) (startListening stack c past) turns l →
      turns.length ≤ (clients s.world).length + 2 →
      (handed turns).map readRow = (directory ntop6 name s.world).take (turns.length - 1) := by
  obtain ⟨b, -, hb⟩ := Brokered.init.runOps hbefore hbefore'
  rw [hw] at hb
  have hd0 : d ≠ 0 := by
    obtain ⟨i, hi, rfl⟩ := hd
    exact hb.simulated.inv.client_ne_zero i hi
  have hline : ∀ i, (s.world.conn i).IsClient →
      (clientLine env.toEnv s.world i).length < ducqMsgsz := fun i hi => (row_spec hb hid hi).1.2
  rw [messagesTo_lsconn hb.simulated.inv hd0 hframes hline hok, List.drop_left] at hrx
  obtain ⟨hparts, htake⟩ := @listingParts_spec isCode env.toEnv s.world ntop6 name b hb hid
  have hlength : (listingParts env.toEnv s.world).length = (clients s.world).length + 2 := by
    rw [listingParts, List.length_cons, List.length_append, rowsOf, List.length_map]
    rfl
  -- the frames of the parts come first, and the line about them, if any, is one more
  obtain ⟨fs, hfs, -, hstream⟩ := sendAll_of_writable (fun m hm =>
    (List.mem_append.mp hm).elim (fun hm => (hparts m hm).1) (lsconnLog_spec (hid d hd))) hwx
  rw [hstream, htx, List.nil_append] at hrx
  have hle : (clients s.world).length + 2 ≤ fs.length := by
    rw [← List.length_map Frame.payload, hfs, List.length_append, hlength]
    exact Nat.le_add_right _ _
  have hfirst : ∀ n ≤ (clients s.world).length + 2, (fs.map Frame.payload).take n =
      (listingParts env.toEnv s.world).take n := fun n hn => by
    rw [hfs, List.take_append_of_le_length (hlength ▸ hn)]
  have hnone : receives (startListening stack c past).past = 0 := hpast
  constructor
  · refine listens_of_stream hwire hctx hrx hf hle (fun f hmem l hrecv => ?_) rfl (by omega)
    have hpart : f.payload ∈ listingParts env.toEnv s.world := by
      refine List.mem_of_mem_take (i := (clients s.world).length + 2) ?_
      rw [← hfirst _ le_rfl, ← List.map_take]
      exact List.mem_map_of_mem hmem
    rcases (hparts f.payload hpart).2 with hplain | hframe
    · exact (listenTurn_plain hctx hrecv hplain).2
    · exact returned_listenTurn_frame hctx hprotocol hframe hrecv
  · intro turns l hrun hturns
    rw [handed_of_stream hwire hctx hrx hf hrun (by omega), hnone, List.drop_zero,
      hfirst _ hturns, htake, List.map_take, map_readRow_rowsOf hb hid]

/-- Peers of one network. -/
def neighbour (d : DucqI) : Protocol × Option Sockaddr :=
  (.tcp, some (.inet (fun i => if i = 3 then UInt8.ofNat (d / 100) else 10) (0, 80)))

/-- The ids are those of the neighbours. -/
def neighbours : CommandEnv where
  toEnv := { Env.quiet with id := fun d => idText Ntop6.full (neighbour d).1 (neighbour d).2 }
  frames _ := true
  timestamp := CharArray.zeros 20
  time := 0

/-- The listing of three clients, in two pieces. -/
def neighbourStream : Socket :=
  Socket.receiving [.chunk 53 (ascii "\nPARTS21\nTCP:10.10.10.1:80,a*\n20\nTCP:10.10"),
    .chunk 46 (ascii "10.2:80,a\n19\nTCP:10.10.10.3:80,\n3\nEND")]

theorem lsconn_tells_neighbours : ∃ turns l,
    Run (Listens (some (Wire.overTcp neighbourStream)) messageListener)
      (startListening (fun _ => 0) () []) turns l ∧
    (handed turns).map readRow =
      [(ascii "TCP:10.10.10.1:80", ascii "a*"), (ascii "TCP:10.10.10.2:80", ascii "a"),
        (ascii "TCP:10.10.10.3:80", [])] := by
  obtain ⟨⟨turns, l, hrun, hlength⟩, hall⟩ :=
    @lsconn_tells (fun _ => False) 300 Ntop6.full neighbour subscribed (by decide) (by decide)
      ⟨runOps subscribed World.init, []⟩ rfl (by decide) neighbours rfl (fun _ _ => rfl)
      (ascii "lsconn\n") 7 (by decide) ⟨[], [], [], none, []⟩ neighbourStream
      (by simp [Writable]) rfl (by decide) rfl
      _ (overTcp_overTcp neighbourStream) Unit messageListener messageListener_steady
      (fun f hf => absurd hf (Option.some_ne_none f).symm) (fun _ => 0) () [] rfl
  refine ⟨turns, l, hrun, ?_⟩
  rw [hall turns l hrun hlength.le, hlength]
  decide

end Ducq
