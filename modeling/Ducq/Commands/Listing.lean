import Ducq.Commands.Reply

/-!
# How much of the listing there is to send

`list_subscriptions` formats a line for every client into one buffer, and keeps what is
left of it in a `size_t`.  `snprintf` returns the length a line would have had, so a line
that does not fit takes more from what is left than there is: the difference wraps around,
the loop finds that much is left and goes on behind the buffer, and the length of what is
sent comes out as that of all the lines.  Only a line that would fill the buffer to the last
byte stops the loop, and then the terminator stands where its newline should.

So everything is well exactly if all the lines together are shorter than the buffer
(`listSubscriptions_staysInside_iff`).
-/

namespace Ducq

open CMemory CNumber CPrintf Sweep

namespace Logged

/-! ## What is listed -/

/-- The line of the client in a slot. -/
def clientLine (env : Env) (w : World) (i : Fin ducqMaxConnections) : List Byte :=
  listLine (ducqId env (w.conn i).word w).1 (routePtr env w i)

/-- What a slot contributes. -/
def slotLine (env : Env) (w : World) (i : Fin ducqMaxConnections) : List Byte :=
  if (w.conn i).IsClient then clientLine env w i else []

/-- The whole listing. -/
def listing (env : Env) (w : World) : List Byte :=
  (List.finRange ducqMaxConnections).flatMap (slotLine env w)

/-- `list` before the loop: the payload is all zero. -/
def newListing (env : Env) : ListCtx :=
  ⟨Buffer.fresh fun i => if i < ducqMsgsz then 0 else env.stack i, 0, ducqMsgsz⟩

/-- What the loop leaves. -/
def listed (env : Env) (w : World) : ListCtx × World :=
  (ducqReactorLoop env (listSubscription env) (newListing env) w).2

/-- `DUCQ_MSGSZ - list.left`, after the loop. -/
def ListCtx.len (list : ListCtx) : ℕ := toSizeT ((ducqMsgsz : ℤ) - list.left)

/-- What is handed to `ducq_send`. -/
def ListCtx.sent (list : ListCtx) : List Byte := list.payload.slice 0 list.len

/-- Before the line of a client: as much as the line takes is left, and the payload does not
end before it does. -/
def LineFits (env : Env) (i : Fin ducqMaxConnections) (s : ℕ × ListCtx × World) : Prop :=
  (s.2.2.conn i).IsClient → (clientLine env s.2.2 i).length ≤ s.2.1.left ∧
    s.2.1.buffer + (clientLine env s.2.2 i).length ≤ ducqMsgsz

/-- The listing stays in its buffer, and no more is sent than was formatted. -/
structure ListsInside (env : Env) (w : World) : Prop where
  fits : EachTurn (loopTurn (loopThroughClient env (listSubscription env))) (LineFits env)
    (List.finRange ducqMaxConnections) (ducqLoopContinue, newListing env, w)
  len_le : (listed env w).1.len ≤ ducqMsgsz
  formatted : (listed env w).1.sent <+: listing env w

/-- The reactor when the loop starts: the log line comes first. -/
def beforeListing (env : Env) (d : DucqI) (w : World) : World :=
  Ducq.ducqLog env d .info (ascii "list_subscriptions") (some []) [] w

/-- The command sends what the loop leaves. -/
theorem world_listSubscriptions (env : CommandEnv) (d : DucqI) (message : List Byte) (size : ℕ)
    (s : Logged) :
    (listSubscriptions env d message size s).2.world =
      (ducqSend env.toEnv d (listed env.toEnv (beforeListing env.toEnv d s.world)).1.sent
        (listed env.toEnv (beforeListing env.toEnv d s.world)).2).2 := rfl

/-! ## Turns -/

variable {env : Env} {w w' : World} {i : Fin ducqMaxConnections} {control : ℕ} {list : ListCtx}

/-- `list` after the line of a client. -/
def ListCtx.add (list : ListCtx) (line : List Byte) : ListCtx :=
  ⟨snprintf list.payload list.buffer list.left line, list.buffer + line.length,
    toSizeT ((list.left : ℤ) - line.length)⟩

/-- A turn at a slot without a client. -/
theorem list_turn_idle (h : ¬ (w.conn i).IsClient) : ∃ control',
    loopTurn (loopThroughClient env (listSubscription env)) i (control, list, w) =
      (false, control', list, w) := by
  rw [loopTurn]
  by_cases hfd : (w.conn i).fd = -1
  · exact ⟨control, if_pos hfd⟩
  · have htype : (w.conn i).type ≠ .client := fun htype => h ⟨hfd, htype⟩
    rw [if_neg hfd]
    exact ⟨ducqLoopContinue, by simp [loopThroughClient, htype]⟩

/-- **A turn at a slot with a client** adds its line, and stops the loop if nothing is
left. -/
theorem list_turn (h : (w.conn i).IsClient) : ∃ control',
    loopTurn (loopThroughClient env (listSubscription env)) i (control, list, w) =
      (decide ((list.add (clientLine env w i)).left = 0), control',
        list.add (clientLine env w i), (ducqId env (w.conn i).word w).2) := by
  rw [loopTurn, if_neg h.1, loopThroughClient, if_pos h.2, listSubscription]
  by_cases hleft : (list.add (clientLine env w i)).left = 0
  · have hpos : ¬ 0 < toSizeT ((list.left : ℤ) -
        (listLine (ducqId env (w.conn i).word w).1 (routePtr env w i)).length) :=
      Nat.not_lt.mpr hleft.le
    refine ⟨ducqLoopBreak, ?_⟩
    simp only [if_neg hpos]
    simp [hleft]
    rfl
  · have hpos : 0 < toSizeT ((list.left : ℤ) -
        (listLine (ducqId env (w.conn i).word w).1 (routePtr env w i)).length) :=
      Nat.pos_of_ne_zero hleft
    refine ⟨ducqLoopContinue, ?_⟩
    simp only [if_pos hpos]
    simp [hleft]
    rfl

/-- The line of a client depends on the table alone. -/
theorem clientLine_congr (h : w'.reactor = w.reactor) (i : Fin ducqMaxConnections) :
    clientLine env w' i = clientLine env w i := by
  have hconn : ∀ j, w'.conn j = w.conn j := fun j => by rw [World.conn, World.conn, h]
  have hid : (ducqId env (w.conn i).word w').1 = (ducqId env (w.conn i).word w).1 := by
    unfold ducqId
    split_ifs
    · rfl
    · rfl
  rw [clientLine, clientLine, routePtr, routePtr, hconn, hid]

/-- A line ends in a newline. -/
theorem exists_clientLine (env : Env) (w : World) (i : Fin ducqMaxConnections) :
    ∃ text, clientLine env w i = text ++ [newline] := ⟨_, rfl⟩

/-! ## What the payload holds -/

/-- All that was formatted so far is in the payload, and there is room for more. -/
structure ListCtx.Holds (list : ListCtx) (text : List Byte) : Prop where
  short : text.length < ducqMsgsz
  buffer_eq : list.buffer = text.length
  left_eq : list.left = ducqMsgsz - text.length
  starts : list.payload.StartsWith text

namespace ListCtx.Holds

variable {text line : List Byte}

theorem new (env : Env) : (newListing env).Holds [] := ⟨by decide, rfl, rfl, rfl⟩

/-- What is left behind a line for which there is room. -/
theorem left_add (h : list.Holds text) (hlen : text.length + line.length ≤ ducqMsgsz) :
    (list.add line).left = ducqMsgsz - (text.length + line.length) := by
  have hle : line.length ≤ list.left := by
    rw [h.left_eq]
    omega
  have hleft := h.left_eq
  have hsize : ducqMsgsz < 2 ^ 64 := by decide
  rw [ListCtx.add, ← Int.ofNat_sub hle, toSizeT_of_lt (by omega)]
  show list.left - line.length = _
  omega

/-- A line that fits with its terminator. -/
theorem add (h : list.Holds text) (hlen : text.length + line.length < ducqMsgsz) :
    (list.add line).Holds (text ++ line) where
  short := by
    rw [List.length_append]
    exact hlen
  buffer_eq := by
    rw [List.length_append, ListCtx.add, h.buffer_eq]
  left_eq := by
    rw [List.length_append, h.left_add hlen.le]
  starts := by
    have hroom : line.length < list.left := by
      rw [h.left_eq]
      omega
    rw [ListCtx.add, snprintf_of_lt _ _ hroom, h.buffer_eq, Buffer.store_append]
    exact (h.starts.store line).store_of_le (List.length_append ▸ le_rfl) [0]

/-- A line that takes the last byte: its terminator is there. -/
theorem cells_add (h : list.Holds text) (hlen : text.length + line.length = ducqMsgsz) :
    (list.add line).payload.cells (ducqMsgsz - 1) = 0 := by
  have hshort := h.short
  have hleft : list.left = line.length := by
    rw [h.left_eq]
    omega
  have hlast : ducqMsgsz - 1 = text.length + (line.take (line.length - 1)).length := by
    rw [List.length_take]
    omega
  rw [ListCtx.add, snprintf, if_neg (by omega), h.buffer_eq, hleft,
    Buffer.store_append_singleton, hlast]
  simp [Buffer.put]

/-- A line fits, if there is one, when it and the text before it fill no more than the
buffer. -/
theorem lineFits_iff (hw : w'.reactor = w.reactor) (h : list.Holds text) :
    LineFits env i (control, list, w') ↔ text.length + (slotLine env w i).length ≤ ducqMsgsz := by
  have hconn : w'.conn i = w.conn i := by rw [World.conn, World.conn, hw]
  have hshort := h.short
  rw [LineFits, slotLine]
  dsimp only
  rw [hconn, clientLine_congr hw, h.buffer_eq, h.left_eq]
  by_cases hi : (w.conn i).IsClient
  · rw [if_pos hi, imp_iff_right hi]
    omega
  · rw [if_neg hi]
    exact iff_of_true (fun hc => absurd hc hi) hshort.le

/-- **A turn at a slot whose line fits with its terminator**, or that has none. -/
theorem turn (hw : w'.reactor = w.reactor) (h : list.Holds text)
    (hlen : text.length + (slotLine env w i).length < ducqMsgsz) (control : ℕ) :
    ∃ control' list' w'', loopTurn (loopThroughClient env (listSubscription env)) i
        (control, list, w') = (false, control', list', w'') ∧
      w''.reactor = w.reactor ∧ list'.Holds (text ++ slotLine env w i) := by
  have hconn : w'.conn i = w.conn i := by rw [World.conn, World.conn, hw]
  rw [slotLine] at hlen ⊢
  by_cases hi : (w.conn i).IsClient
  · rw [if_pos hi] at hlen ⊢
    obtain ⟨control', hturn⟩ := @list_turn env w' i control list (by rw [hconn]; exact hi)
    rw [clientLine_congr hw, decide_eq_false (by rw [h.left_add hlen.le]; omega)] at hturn
    exact ⟨_, _, _, hturn, by rw [reactor_ducqId, hw], h.add hlen⟩
  · rw [if_neg hi, List.append_nil]
    obtain ⟨control', hturn⟩ := @list_turn_idle env w' i control list (by rw [hconn]; exact hi)
    exact ⟨_, _, _, hturn, hw, h⟩

/-- **A turn at a slot whose line takes the last byte**: the loop stops, and the terminator
stands where the newline should. -/
theorem turn_full (hw : w'.reactor = w.reactor) (h : list.Holds text)
    (hlen : text.length + (slotLine env w i).length = ducqMsgsz) (control : ℕ) :
    ∃ control' list' w'', loopTurn (loopThroughClient env (listSubscription env)) i
        (control, list, w') = (true, control', list', w'') ∧
      list'.left = 0 ∧ list'.payload.cells (ducqMsgsz - 1) = 0 ∧
      ∃ line, slotLine env w i = line ++ [newline] := by
  have hconn : w'.conn i = w.conn i := by rw [World.conn, World.conn, hw]
  have hshort := h.short
  rw [slotLine] at hlen ⊢
  by_cases hi : (w.conn i).IsClient
  · rw [if_pos hi] at hlen ⊢
    have hleft : (list.add (clientLine env w i)).left = 0 := by
      rw [h.left_add hlen.le]
      omega
    obtain ⟨control', hturn⟩ := @list_turn env w' i control list (by rw [hconn]; exact hi)
    rw [clientLine_congr hw, decide_eq_true hleft] at hturn
    exact ⟨_, _, _, hturn, hleft, h.cells_add hlen, exists_clientLine env w i⟩
  · rw [if_neg hi, List.length_nil] at hlen
    omega

end ListCtx.Holds

/-! ## The whole loop -/

/-- **The lines together are shorter than the buffer**: each finds room, and the payload
holds all of them. -/
theorem listing_fits {is : List (Fin ducqMaxConnections)} {text : List Byte}
    (hw : w'.reactor = w.reactor) (h : list.Holds text)
    (hlen : (text ++ is.flatMap (slotLine env w)).length < ducqMsgsz) (control : ℕ) :
    EachTurn (loopTurn (loopThroughClient env (listSubscription env))) (LineFits env) is
        (control, list, w') ∧
      (sweep (loopTurn (loopThroughClient env (listSubscription env))) is
        (control, list, w')).2.1.Holds (text ++ is.flatMap (slotLine env w)) := by
  induction is generalizing text list w' control with
  | nil =>
    rw [List.flatMap_nil, List.append_nil]
    exact ⟨trivial, h⟩
  | cons i is ih =>
    rw [List.flatMap_cons, ← List.append_assoc] at hlen ⊢
    have hshort : text.length + (slotLine env w i).length < ducqMsgsz := by
      rw [List.length_append, List.length_append] at hlen
      omega
    obtain ⟨control', list', w'', hturn, hw'', hholds⟩ := h.turn hw hshort control
    obtain ⟨hturns, hall⟩ := ih hw'' hholds hlen control'
    refine ⟨⟨(h.lineFits_iff hw).mpr hshort.le, fun _ => ?_⟩, ?_⟩
    · rw [hturn]
      exact hturns
    · rw [sweep_cons_go (by rw [hturn]), hturn]
      exact hall

/-- **No line took more than was left**: the lines together are shorter than the buffer, or
one took the last byte, and the terminator stands where its newline should. -/
theorem fits_listing {is : List (Fin ducqMaxConnections)} {text : List Byte}
    (hw : w'.reactor = w.reactor) (h : list.Holds text) {control : ℕ}
    (hturns : EachTurn (loopTurn (loopThroughClient env (listSubscription env))) (LineFits env) is
      (control, list, w')) :
    (text ++ is.flatMap (slotLine env w)).length < ducqMsgsz ∨
      ((sweep (loopTurn (loopThroughClient env (listSubscription env))) is
          (control, list, w')).2.1.left = 0 ∧
        (sweep (loopTurn (loopThroughClient env (listSubscription env))) is
          (control, list, w')).2.1.payload.cells (ducqMsgsz - 1) = 0 ∧
        ∃ full, full ++ [newline] <+: text ++ is.flatMap (slotLine env w) ∧
          full.length = ducqMsgsz - 1) := by
  induction is generalizing text list w' control with
  | nil =>
    rw [List.flatMap_nil, List.append_nil]
    exact .inl h.short
  | cons i is ih =>
    obtain ⟨hfits, hrest⟩ := hturns
    rw [List.flatMap_cons, ← List.append_assoc]
    rcases Nat.lt_or_eq_of_le ((h.lineFits_iff hw).mp hfits) with hlt | hfull
    · obtain ⟨control', list', w'', hturn, hw'', hholds⟩ := h.turn hw hlt control
      have hturns' := hrest (by rw [hturn])
      rw [sweep_cons_go (by rw [hturn]), hturn]
      rw [hturn] at hturns'
      exact ih hw'' hholds hturns'
    · obtain ⟨control', list', w'', hturn, hleft, hcell, line, hline⟩ := h.turn_full hw hfull control
      rw [hline, List.length_append, List.length_singleton] at hfull
      rw [sweep_cons_stop (by rw [hturn]), hturn, hline, ← List.append_assoc text]
      refine .inr ⟨hleft, hcell, text ++ line, List.prefix_append _ _, ?_⟩
      rw [List.length_append]
      omega

theorem ListCtx.Holds.sent_eq {text : List Byte} (h : list.Holds text) :
    list.len = text.length ∧ list.sent = text := by
  have hshort := h.short
  have hsize : ducqMsgsz < 2 ^ 64 := by decide
  have hlen : list.len = text.length := by
    rw [ListCtx.len, h.left_eq, ← Int.ofNat_sub (Nat.sub_le _ _), toSizeT_of_lt (by omega)]
    omega
  refine ⟨hlen, ?_⟩
  rw [ListCtx.sent, hlen]
  exact h.starts

/-- When nothing is left, the whole buffer is sent. -/
theorem ListCtx.sent_of_left_eq_zero (hleft : list.left = 0) :
    list.sent = list.payload.slice 0 (ducqMsgsz - 1) ++ [list.payload.cells (ducqMsgsz - 1)] := by
  have hlen : list.len = ducqMsgsz := by
    rw [ListCtx.len, hleft]
    rfl
  rw [ListCtx.sent, hlen, show ducqMsgsz = ducqMsgsz - 1 + 1 from rfl, Buffer.slice_concat,
    Nat.zero_add]
  rfl

/-- **The listing stays in its buffer** exactly if all of it is shorter. -/
theorem listsInside_iff_length_lt (env : Env) (w : World) :
    ListsInside env w ↔ (listing env w).length < ducqMsgsz := by
  constructor
  · rintro ⟨hfits, -, hformatted⟩
    rcases fits_listing rfl (ListCtx.Holds.new env) hfits with
      hlt | ⟨hleft, hcell, full, hfull, hlen⟩
    · exact hlt
    · -- the byte that is sent last is the terminator
      have hcell' : (listed env w).1.payload.cells (ducqMsgsz - 1) = 0 := hcell
      have hsent : (listed env w).1.sent = _ := ListCtx.sent_of_left_eq_zero hleft
      rw [hsent, hcell'] at hformatted
      have hsame := List.prefix_of_prefix_length_le hformatted hfull (by simp [hlen])
      have heq := hsame.eq_of_length (by simp [hlen])
      exact absurd (List.append_inj_right' heq rfl) (by decide)
  · intro hlt
    obtain ⟨hfits, hholds⟩ :=
      @listing_fits env w w (newListing env) (List.finRange ducqMaxConnections) [] rfl
        (ListCtx.Holds.new env) hlt ducqLoopContinue
    obtain ⟨hlen, hsent⟩ := hholds.sent_eq
    have hlen' : (listed env w).1.len = (listing env w).length := hlen
    have hsent' : (listed env w).1.sent = listing env w := hsent
    exact ⟨hfits, by omega, by rw [hsent']⟩

/-- **`list_subscriptions` stays in its buffer**, and sends no more than it formatted,
exactly if the lines of all clients together are shorter than the buffer. -/
theorem listSubscriptions_staysInside_iff (env : CommandEnv) (d : DucqI) (message : List Byte)
    (size : ℕ) (s : Logged) :
    (listSubscriptions env d message size s).2.world =
        (ducqSend env.toEnv d (listed env.toEnv (beforeListing env.toEnv d s.world)).1.sent
          (listed env.toEnv (beforeListing env.toEnv d s.world)).2).2 ∧
      (ListsInside env.toEnv (beforeListing env.toEnv d s.world) ↔
        (listing env.toEnv (beforeListing env.toEnv d s.world)).length < ducqMsgsz) :=
  ⟨world_listSubscriptions env d message size s, listsInside_iff_length_lt _ _⟩

/-- Every client has an id of 99 bytes. -/
def longIds : Env where
  sendResult _ _ := .ok
  id _ := List.replicate 99 97
  strndup _ := true
  behindRoute _ := []
  stack _ := 0

/-- Three clients, without a route. -/
def threeClients : World :=
  (ducqReactorAddClient 6 300 (ducqReactorAddClient 5 200
    (ducqReactorAddClient 4 100 World.init).2).2).2

set_option maxRecDepth 4000 in
/-- **Three lines of 101 bytes** do not fit into 256: the third takes more than is left, and
303 bytes are sent. -/
theorem not_listsInside_longIds :
    (listed longIds (beforeListing longIds 100 threeClients)).1.len = 303 ∧
      ¬ ListsInside longIds (beforeListing longIds 100 threeClients) := by
  have hlen : (listing longIds (beforeListing longIds 100 threeClients)).length = 303 := by decide
  have hsent : (listed longIds (beforeListing longIds 100 threeClients)).1.len = 303 := by decide
  refine ⟨hsent, fun h => ?_⟩
  have hlt := (listsInside_iff_length_lt _ _).mp h
  rw [hlen] at hlt
  exact absurd hlt (by decide)

end Logged

end Ducq
