import Ducq.Core.Client

/-!
# One message, two ways to take it apart

The C commands find the fields of a message with `ducq_parse_command`, `ducq_parse_route`
and `ducq_parse_payload`, which look for the first space and the first newline.  The Lua
commands get what `ducq_parse_msg` cuts out with `strtok`, which skips a run of
delimiters before it looks for one.  The two agree on a message whose fields are not
empty (`cSplits_append`, `ducqParseMsg_append`), and an empty route is where they part
(`sameMessage_iff`).

A message of `ducq_emit` has no empty field, so both give back what went in, as far as
`ducq_emit` sends it: the size of the payload is an `int` on the way, and a payload of
`2 ^ 32` bytes and a few comes out as those few (`emit_roundTrips_iff`).
-/

namespace Ducq

open CMemory CNumber Client

/-! ## Fields -/

/-- The bytes between two pointers. -/
def between (start end_ : List Byte) : List Byte := start.take (start.length - end_.length)

theorem between_append (s p : List Byte) : between (s ++ p) p = s := by
  rw [between, List.length_append, Nat.add_sub_cancel, List.take_left]

/-- `ducq_parse_command`, `ducq_parse_route`, from the start of the message or from the
command's end, and `ducq_parse_payload` find these fields. -/
structure CSplits (buffer command route payload : List Byte) : Prop where
  command_eq : ∃ start end_, ducqParseCommand buffer = (some start, some end_) ∧
    between start end_ = command
  hasRoute : HasRoute buffer route
  hasRoute_after : ∃ end_, (ducqParseCommand buffer).2 = some end_ ∧ HasRoute end_ route
  payload_eq : (ducqParsePayload buffer).map cstr = some payload

/-- What `ducq_parse_msg` gives finds the fields as well. -/
structure Splits (buffer command route payload : List Byte) : Prop
    extends CSplits buffer command route payload where
  msg_eq : ducqParseMsg buffer = ⟨some command, some route, some payload⟩

variable {command route : List Byte}

/-- **The C parsers**, on a message with a space and a newline behind it. -/
theorem cSplits_append (hspace : space ∉ command) (hnewline : newline ∉ command)
    (h0 : (0 : Byte) ∉ command) (hroute : newline ∉ route) (hroute0 : (0 : Byte) ∉ route)
    (q : List Byte) :
    CSplits (command ++ space :: (route ++ newline :: q)) command route (cstr q) where
  command_eq := ⟨_, _, by rw [ducqParseCommand, strchr_append h0 hspace]; rfl, between_append _ _⟩
  hasRoute := hasRoute_message hspace h0 hroute hroute0 q
  hasRoute_after := ⟨_, by rw [ducqParseCommand, strchr_append h0 hspace]; rfl,
    @hasRoute_message [] route List.not_mem_nil List.not_mem_nil hroute hroute0 q⟩
  payload_eq := by
    have hassoc : command ++ space :: (route ++ newline :: q) =
        (command ++ space :: route) ++ newline :: q := by simp
    have hmem : newline ∉ command ++ space :: route := by
      simp [hnewline, hroute, show newline ≠ space by decide]
    have hmem0 : (0 : Byte) ∉ command ++ space :: route := by
      simp [h0, hroute0, show (0 : Byte) ≠ space by decide]
    rw [ducqParsePayload, hassoc, strchr_append hmem0 hmem]
    rfl

/-! ## Tokens -/

/-- A token up to its delimiter. -/
theorem strtok_append {delim : Byte} {token : List Byte} (hne : token ≠ [])
    (hdelim : delim ∉ token) (rest : List Byte) :
    strtok [delim] (token ++ delim :: rest) = (some token, rest) := by
  have hall : ∀ b ∈ token, decide (b ∉ [delim]) = true := fun b hb => by
    have hb : b ≠ delim := fun heq => hdelim (heq ▸ hb)
    simpa using hb
  have hskip : (token ++ delim :: rest).dropWhile (fun b => decide (b ∈ [delim])) =
      token ++ delim :: rest := by
    cases token with
    | nil => exact absurd rfl hne
    | cons b token =>
      have hb : b ≠ delim := fun heq => hdelim (heq ▸ List.mem_cons_self)
      rw [List.cons_append, List.dropWhile_cons_of_neg (by simpa using hb)]
  rw [strtok, hskip, if_neg (by simp [hne]), List.takeWhile_append_of_pos hall,
    List.dropWhile_append_of_pos hall, List.takeWhile_cons_of_neg (by simp),
    List.dropWhile_cons_of_neg (by simp), List.append_nil, List.tail_cons]

/-- Without delimiters, all that is left is a token. -/
theorem strtok_nil (str : List Byte) :
    (strtok [] str).1 = if str = [] then none else some str := by
  have hskip : str.dropWhile (fun b => decide (b ∈ ([] : List Byte))) = str := by
    cases str <;> simp
  rw [strtok, hskip]
  split_ifs
  · rfl
  · simp

/-- No token is empty. -/
theorem strtok_ne_some_nil (delims str : List Byte) : (strtok delims str).1 ≠ some [] := by
  unfold strtok
  dsimp only
  split_ifs with hnil
  · simp
  · cases hrest : str.dropWhile (· ∈ delims) with
    | nil => exact absurd hrest hnil
    | cons b rest =>
      have hb : b ∉ delims := by
        have h := List.head?_dropWhile_not (fun b => decide (b ∈ delims)) str
        rw [hrest] at h
        simpa using h
      rw [List.takeWhile_cons_of_pos (by simpa using hb)]
      simp

/-- **`ducq_parse_msg`**, on a message whose command and route are not empty. -/
theorem ducqParseMsg_append (hne : command ≠ []) (hspace : space ∉ command)
    (h0 : (0 : Byte) ∉ command) (hroutene : route ≠ []) (hroute : newline ∉ route)
    (hroute0 : (0 : Byte) ∉ route) (q : List Byte) :
    ducqParseMsg (command ++ space :: (route ++ newline :: q)) =
      ⟨some command, some route, if cstr q = [] then none else some (cstr q)⟩ := by
  rw [ducqParseMsg, cstr_append_of_notMem h0, cstr_cons_of_ne (by decide),
    cstr_append_of_notMem hroute0, cstr_cons_of_ne (by decide), strtok_append hne hspace]
  dsimp only
  rw [strtok_append hroutene hroute]
  dsimp only
  rw [DucqMsg.mk.injEq]
  exact ⟨rfl, rfl, strtok_nil _⟩

/-! ## There and back -/

/-- The fields of a message: none is empty, and each is without what would end it. -/
structure MsgFields where
  command : List Byte
  route : List Byte
  payload : List Byte
  command_ne : command ≠ []
  space_notMem_command : space ∉ command
  newline_notMem_command : newline ∉ command
  zero_notMem_command : (0 : Byte) ∉ command
  route_ne : route ≠ []
  newline_notMem_route : newline ∉ route
  zero_notMem_route : (0 : Byte) ∉ route
  payload_ne : payload ≠ []
  zero_notMem_payload : (0 : Byte) ∉ payload

namespace MsgFields

variable (m : MsgFields)

/-- The message. -/
def text : List Byte := m.command ++ space :: (m.route ++ newline :: m.payload)

/-- What the message takes. -/
def size : ℕ := m.command.length + m.route.length + m.payload.length + 2

/-- **Both ways to take the message apart find its fields**, whatever follows its
terminator. -/
theorem splits (junk : List Byte) :
    Splits (m.text ++ 0 :: junk) m.command m.route m.payload := by
  have hassoc : m.text ++ 0 :: junk =
      m.command ++ space :: (m.route ++ newline :: (m.payload ++ 0 :: junk)) := by
    simp [text]
  have hpayload : cstr (m.payload ++ 0 :: junk) = m.payload :=
    cstr_append_zero m.zero_notMem_payload junk
  have hsplits := cSplits_append m.space_notMem_command m.newline_notMem_command
    m.zero_notMem_command m.newline_notMem_route m.zero_notMem_route (m.payload ++ 0 :: junk)
  have hmsg := ducqParseMsg_append m.command_ne m.space_notMem_command m.zero_notMem_command
    m.route_ne m.newline_notMem_route m.zero_notMem_route (m.payload ++ 0 :: junk)
  rw [hpayload] at hsplits hmsg
  rw [if_neg m.payload_ne] at hmsg
  rw [hassoc]
  exact ⟨hsplits, hmsg⟩

variable (c r p : List Byte)

/-- What `ducq_emit` formats, of the fields as they lie in memory. -/
theorem emitText_eq :
    emitText (m.command ++ 0 :: c) (m.route ++ 0 :: r) (m.payload ++ p) m.payload.length =
      m.command ++ space :: (m.route ++ newline ::
        if wrap32 m.payload.length < 0 then m.payload ++ cstr p
        else m.payload.take (wrap32 m.payload.length).toNat) := by
  have hle : (wrap32 m.payload.length).toNat ≤ m.payload.length := by
    unfold wrap32
    split_ifs <;> omega
  rw [emitText, cstr_append_zero m.zero_notMem_command, cstr_append_zero m.zero_notMem_route,
    cstr_append_of_notMem m.zero_notMem_payload, List.take_append_of_le_length hle,
    show ascii " " = [space] from rfl, show ascii "\n" = [newline] from rfl]
  simp only [List.append_assoc, List.cons_append, List.nil_append]

/-- It fits exactly if it does with what an `int` keeps of the payload's size. -/
theorem length_emitText_lt_iff :
    (emitText (m.command ++ 0 :: c) (m.route ++ 0 :: r) (m.payload ++ p)
        m.payload.length).length < ducqMsgsz ↔
      m.command.length + m.route.length + m.payload.length % 2 ^ 32 + 2 < ducqMsgsz := by
  have hmsgsz : ducqMsgsz = 256 := rfl
  rw [emitText_eq, List.length_append, List.length_cons, List.length_append, List.length_cons]
  unfold wrap32
  split_ifs with hsmall hneg
  · omega
  · rw [List.length_take]
    omega
  · rw [List.length_append]
    omega
  · omega

/-- A payload whose size is an `int` comes out whole. -/
theorem emitText_eq_text (h : m.payload.length < 2 ^ 31) :
    emitText (m.command ++ 0 :: c) (m.route ++ 0 :: r) (m.payload ++ p) m.payload.length =
      m.text := by
  rw [emitText_eq, wrap32_of_lt h, if_neg (by omega), Int.toNat_natCast, List.take_length, text]

end MsgFields

/-- `ducq_emit` refuses a message exactly if it is too long, and what it sends of any
other is taken apart into its fields. -/
def EmitRoundTrips (wire : Wire) (stack : ℕ → Byte) (m : MsgFields) (c r p : List Byte)
    (past : List Exchange) : Prop :=
  let (state, past') := ducqEmit (some wire) stack (m.command ++ 0 :: c) (m.route ++ 0 :: r)
    (m.payload ++ p) m.payload.length past
  ((state = .emsgsize ∧ past' = past) ↔ m.size ≥ ducqMsgsz) ∧
  (m.size < ducqMsgsz → ∃ buf, past' = past ++ [.sent buf] ∧
    ∀ junk, Splits (buf ++ 0 :: junk) m.command m.route m.payload)

/-- What fits is not refused. -/
theorem not_refused {wire : Wire} {stack : ℕ → Byte} {command route payload : List Byte} {size : ℕ}
    {past : List Exchange} (h : (emitText command route payload size).length < ducqMsgsz) :
    ¬ ((ducqEmit (some wire) stack command route payload size past).1 = .emsgsize ∧
      (ducqEmit (some wire) stack command route payload size past).2 = past) := by
  rw [ducqEmit_eq, if_pos h]
  rintro ⟨-, hpast⟩
  simp [ducqSend] at hpast

/-- A payload that is taken for a shorter one is sent. -/
theorem not_roundTrips_of_kept {wire : Wire} {stack : ℕ → Byte} {m : MsgFields}
    {c r p : List Byte} {past : List Exchange} (hsize : m.size ≥ ducqMsgsz)
    (hkept : m.command.length + m.route.length + m.payload.length % 2 ^ 32 + 2 < ducqMsgsz) :
    ¬ EmitRoundTrips wire stack m c r p past := fun h =>
  not_refused ((m.length_emitText_lt_iff c r p).mpr hkept) (h.1.mpr hsize)

/-- **The parsers undo `ducq_emit`**, exactly as far as no payload is taken for a much
shorter one. -/
theorem emit_roundTrips_iff (wire : Wire) (stack : ℕ → Byte) (m : MsgFields) (c r p : List Byte)
    (past : List Exchange) :
    EmitRoundTrips wire stack m c r p past ↔
      m.payload.length < 2 ^ 32 ∨
        m.command.length + m.route.length + m.payload.length % 2 ^ 32 + 2 ≥ ducqMsgsz := by
  have hfits := m.length_emitText_lt_iff c r p
  have hmod := Nat.mod_le m.payload.length (2 ^ 32)
  have hmsgsz : ducqMsgsz = 256 := rfl
  by_cases hlt : (emitText (m.command ++ 0 :: c) (m.route ++ 0 :: r) (m.payload ++ p)
      m.payload.length).length < ducqMsgsz
  · have hkept := hfits.mp hlt
    have hsent := @not_refused wire stack _ _ _ _ past hlt
    rw [or_iff_left (Nat.not_le.mpr hkept)]
    constructor
    · intro h
      have hsize : m.size < ducqMsgsz := Nat.not_le.mp fun hge =>
        not_roundTrips_of_kept hge hkept h
      rw [MsgFields.size] at hsize
      omega
    · intro h
      rw [Nat.mod_eq_of_lt h] at hkept
      have hsize : m.size < ducqMsgsz := by
        rw [MsgFields.size]
        omega
      have hpast : (ducqEmit (some wire) stack (m.command ++ 0 :: c) (m.route ++ 0 :: r)
          (m.payload ++ p) m.payload.length past).2 = past ++ [.sent m.text] := by
        rw [ducqEmit_eq, if_pos hlt, m.emitText_eq_text c r p (by omega)]
        rfl
      exact ⟨iff_of_false hsent (Nat.not_le.mpr hsize), fun _ => ⟨m.text, hpast, m.splits⟩⟩
  · have hge := Nat.not_lt.mp (mt hfits.mpr hlt)
    have hsize : m.size ≥ ducqMsgsz := by
      rw [MsgFields.size]
      omega
    rw [EmitRoundTrips, ducqEmit_eq, if_neg hlt, or_iff_right_of_imp fun _ => hge]
    exact iff_of_true ⟨iff_of_true ⟨rfl, rfl⟩ hsize, fun h => absurd h (Nat.not_lt.mpr hsize)⟩ hge

/-- A message to `news` with as many bytes of payload. -/
def MsgFields.ofLength (n : ℕ) : MsgFields where
  command := ascii "pub"
  route := ascii "news"
  payload := List.replicate (n + 1) 97
  command_ne := by decide
  space_notMem_command := by decide
  newline_notMem_command := by decide
  zero_notMem_command := by decide
  route_ne := by decide
  newline_notMem_route := by decide
  zero_notMem_route := by decide
  payload_ne := by simp
  zero_notMem_payload h := absurd (List.eq_of_mem_replicate h) (by decide)

/-- **Three bytes more than an `int` can tell apart** are sent as three bytes. -/
theorem not_emit_roundTrips_long :
    ¬ EmitRoundTrips (Wire.ofMessage []) (fun _ => 0) (MsgFields.ofLength (2 ^ 32 + 2)) [] [] []
      [] := by
  have hlength : (MsgFields.ofLength (2 ^ 32 + 2)).payload.length = 2 ^ 32 + 2 + 1 :=
    List.length_replicate
  refine not_roundTrips_of_kept ?_ ?_
  · rw [MsgFields.size, hlength]
    exact Nat.le_trans (show ducqMsgsz ≤ 2 ^ 32 + 2 + 1 by decide) (by omega)
  · rw [hlength]
    decide

/-! ## The two ways on any message -/

/-- The bytes before the first space. -/
def firstToken (buffer : List Byte) : List Byte := (cstr buffer).takeWhile (· ≠ space)

/-- Both ways find the same fields; a payload that is not there is an empty one. -/
structure SameMessage (buffer : List Byte) : Prop where
  command_eq : ∃ start end_, ducqParseCommand buffer = (some start, some end_) ∧
    (ducqParseMsg buffer).command = some (between start end_)
  route_eq : ∃ start end_, ducqParseRoute buffer none = (some start, some end_) ∧
    (ducqParseMsg buffer).route = some (between start end_)
  payload_eq : (ducqParseMsg buffer).payload.getD [] =
    ((ducqParsePayload buffer).map cstr).getD []

theorem firstToken_append (hspace : space ∉ command) (h0 : (0 : Byte) ∉ command)
    (p : List Byte) : firstToken (command ++ space :: p) = command := by
  have hall : ∀ b ∈ command, decide (b ≠ space) = true := fun b hb => by
    have hb : b ≠ space := fun heq => hspace (heq ▸ hb)
    simpa using hb
  rw [firstToken, cstr_append_of_notMem h0, cstr_cons_of_ne (by decide),
    List.takeWhile_append_of_pos hall, List.takeWhile_cons_of_neg (by simp), List.append_nil]

/-- Behind the first token there is the route. -/
theorem HasRoute.eq_append {buffer : List Byte} (h : HasRoute buffer route) :
    ∃ q, buffer = firstToken buffer ++ space :: (route ++ newline :: q) ∧
      space ∉ firstToken buffer ∧ (0 : Byte) ∉ firstToken buffer := by
  obtain ⟨pre, q, hbuffer, hpre, -, -, hparse⟩ := h.exists_append
  have hfirst : ∃ s p, buffer = s ++ space :: p ∧ space ∉ s ∧ (0 : Byte) ∉ s := by
    by_cases hspace : space ∈ pre
    · obtain ⟨s, s', hsplit, hs⟩ := List.eq_append_cons_of_mem hspace
      refine ⟨s, s' ++ space :: (route ++ newline :: q), ?_, hs, fun h0 => hpre ?_⟩
      · rw [hbuffer, hsplit, List.append_assoc, List.cons_append]
      · rw [hsplit]
        exact List.mem_append_left _ h0
    · exact ⟨pre, _, hbuffer, hspace, hpre⟩
  obtain ⟨s, p, rfl, hspace, h0⟩ := hfirst
  rw [ducqParseRoute_append hspace h0, Prod.mk.injEq, Option.map_eq_some_iff] at hparse
  obtain ⟨⟨-, -, hp⟩, -⟩ := hparse
  rw [firstToken_append hspace h0]
  exact ⟨q, by rw [hp], hspace, h0⟩

/-- **C and Lua commands see the same message**, exactly as long as its route is not
empty. -/
theorem sameMessage_iff {buffer : List Byte} (hne : firstToken buffer ≠ [])
    (hnewline : newline ∉ firstToken buffer) (hroute : HasRoute buffer route) :
    SameMessage buffer ↔ route ≠ [] := by
  constructor
  · rintro ⟨-, ⟨start, end_, hparse, hmsg⟩, -⟩ rfl
    have hempty : between start end_ = [] := hroute.unique ⟨start, end_, hparse, rfl⟩
    rw [hempty] at hmsg
    exact strtok_ne_some_nil _ _ hmsg
  · intro hroutene
    obtain ⟨q, hbuffer, hspace, h0⟩ := hroute.eq_append
    have hc := cSplits_append hspace hnewline h0 hroute.newline_notMem hroute.zero_notMem q
    have hmsg := ducqParseMsg_append hne hspace h0 hroutene hroute.newline_notMem
      hroute.zero_notMem q
    rw [← hbuffer] at hc hmsg
    obtain ⟨start, end_, hcommand, hbetween⟩ := hc.command_eq
    obtain ⟨start', end', hroute', hbetween'⟩ := hc.hasRoute
    refine ⟨⟨start, end_, hcommand, ?_⟩, ⟨start', end', hroute', ?_⟩, ?_⟩
    · rw [hmsg, hbetween]
    · rw [hmsg, between, hbetween']
    · rw [hmsg, hc.payload_eq]
      dsimp only
      split_ifs with hnil
      · exact hnil.symm
      · rfl

/-- A newline behind the route's own belongs to the payload. -/
theorem sameMessage_iff_newlines :
    SameMessage (ascii "cmd r\n\npayload" ++ [0]) ↔ ascii "r" ≠ [] :=
  sameMessage_iff (by decide) (by decide) ⟨ascii "r\n\npayload" ++ [0],
    ascii "\n\npayload" ++ [0], by decide, by decide⟩

/-- **An empty route**: `strtok` skips it, and takes the payload for the route. -/
theorem not_sameMessage_emptyRoute :
    HasRoute (ascii "cmd \npayload" ++ [0]) [] ∧
      firstToken (ascii "cmd \npayload" ++ [0]) = ascii "cmd" ∧
      ¬ SameMessage (ascii "cmd \npayload" ++ [0]) := by
  have hparse : ducqParseRoute (ascii "cmd \npayload" ++ [0]) none =
      (some (ascii "\npayload" ++ [0]), some (ascii "\npayload" ++ [0])) := by decide
  refine ⟨⟨_, _, hparse, by decide⟩, by decide, ?_⟩
  rintro ⟨-, ⟨start, end_, hparse', hmsg⟩, -⟩
  rw [hparse, Prod.mk.injEq, Option.some.injEq, Option.some.injEq] at hparse'
  obtain ⟨rfl, rfl⟩ := hparse'
  exact absurd hmsg (by decide)

end Ducq
