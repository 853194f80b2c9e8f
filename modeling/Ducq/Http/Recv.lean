import Ducq.Inet.Header
import Ducq.Ws.Upgrade

/-!
# `ducq_http.c`: the request

A connection starts as HTTP and may become a WebSocket with its first request: `_recv`
reads the header, and either hands the connection to `ducq_new_ws_upgrade_from_http` or
has nothing to offer.  Which of the two is decided by a search of the header for a line.

The line it looks for is not the one a client sends, and the connection is handed over
when the search fails.  A request for an upgrade gets one, then, and so does any other
request with a key (`upgradesAsAsked_iff`).
-/

namespace Ducq

open CMemory ByteStream Occurrence

/-! ## Receiving -/

/-- `struct ducq_http`: the socket behind the descriptor, the memory of the header, and the
WebSocket the connection has become. -/
structure DucqHttp where
  fd : Socket
  header : List Byte
  ws : Option DucqWs

/-- `sizeof(http->header)`. -/
abbrev httpHeaderSize : ℕ := 1024

/-- The line `_recv` looks for. -/
def upgradeLine : List Byte := crlf ++ ascii "Upgrade; websocket" ++ crlf

namespace DucqHttp

/-- The header and what follows it, the pointer `ws`, which is NULL. -/
def behind (http : DucqHttp) : List Byte := http.header ++ List.replicate 8 0

/-- The header is read. -/
def readHeader (http : DucqHttp) : HeaderRead :=
  inetGetHttpHeader httpHeaderSize http.behind http.fd

/-- The memory of the header, with `*end = '\\0'`, if an end was found. -/
def request (http : DucqHttp) : Option (List Byte) :=
  http.readHeader.end_.map fun end_ => (http.readHeader.memory http.behind).set end_ 0

end DucqHttp

/-- How `_recv` ends: it returns, or an assertion below it fails. -/
inductive HttpRecvResult where
  | returned (state : DucqState) (count : ℕ) (http : DucqHttp) (b : Buffer)
  | assertFailed (error : WsError)

/-- The header once the key in it has been terminated. -/
def terminateKey (header : List Byte) : List Byte :=
  match inetFindHttpHeader header secWebsocketKey with
  | none => header
  | some (_, lineEnd) => header.set (header.length - lineEnd.length) 0

/-- `_recv` of the HTTP table. -/
def httpRecv (sha1 : List Byte → CharArray 20) (alloc : Bool) (mask : WsMask) (count : ℕ)
    (http : DucqHttp) (b : Buffer) : HttpRecvResult :=
  match http.ws with
  | some ws =>
    match wsRecv mask count ws b with
    | (state, count, ws, b) => .returned state count { http with ws := some ws } b
  | none =>
    let read := http.readHeader
    match http.request with
    | none =>
      .returned .emsginv count
        ⟨(writen httpBadRequest400 read.fd).2, (read.memory http.behind).take httpHeaderSize, none⟩
        b
    | some header =>
      if strstr upgradeLine header = none then
        match ducqNewWsUpgradeFromHttp sha1 alloc read.fd header with
        | .returned state ws fd =>
          .returned state count ⟨fd, (terminateKey header).take httpHeaderSize, ws⟩ b
        | .assertFailed error => .assertFailed error
      else .returned .enoimpl count ⟨read.fd, header.take httpHeaderSize, none⟩ b

/-! ## The answer to an upgrade -/

/-- A key of 24 bytes gets an accept key of 28. -/
theorem wsMakeAcceptKey_of_length (sha1 : List Byte → CharArray 20) {clientKey : List Byte}
    (h : (cstr clientKey).length = 24) :
    ∃ acceptKey, wsMakeAcceptKey sha1 clientKey wsB64AcceptKeyLen = (.ok, acceptKey) ∧
      acceptKey.length = 28 := by
  have hlen : (cstr clientKey ++ wsGuid).length =
      wsB64ConnectionKeyLen + (wsGuid.length + 1) - 2 := by
    rw [List.length_append, h, show wsGuid.length = 36 by decide]
    rfl
  have hspace : neededSpace (sha1 (cstr clientKey ++ wsGuid)).bytes.length = 29 := by
    rw [(sha1 _).length_eq]
    decide
  have htext := length_base64Text (sha1 (cstr clientKey ++ wsGuid)).bytes
  refine ⟨base64Text (sha1 (cstr clientKey ++ wsGuid)).bytes, ?_, by omega⟩
  rw [wsMakeAcceptKey]
  dsimp only
  rw [if_neg (not_not.mpr hlen), base64Encode_of_le hspace.le]
  rfl

/-- The reply to a key of 24 bytes has 129. -/
theorem length_switchingProtocols {acceptKey : List Byte} (h : acceptKey.length = 28) :
    (switchingProtocols acceptKey).length = 129 := by
  have hfixed : ∀ k : List Byte, (switchingProtocols k).length =
      (switchingProtocols []).length + k.length := fun k => by
    simp only [switchingProtocols, List.length_append, List.length_nil]
    omega
  rw [hfixed, h]
  decide

/-- The header has a line with a key of 24 bytes. -/
def CarriesKey (header : List Byte) : Prop :=
  ∃ v rest, HasHeader header secWebsocketKey v rest ∧ v.length = 24

/-- What `inet_find_http_header` finds of the key. -/
theorem find_key_iff {header found lineEnd : List Byte} :
    inetFindHttpHeader header secWebsocketKey = some (found, lineEnd) ↔
      ∃ v rest, HasHeader header secWebsocketKey v rest ∧ found = v ++ (crlf ++ rest) ∧
        lineEnd = crlf ++ rest :=
  inetFindHttpHeader_eq_some_iff (by decide) (by decide) (by decide)

/-- There is such a line exactly if the two pointers are 24 bytes apart. -/
theorem carriesKey_iff {header : List Byte} : CarriesKey header ↔
    ∃ found lineEnd, inetFindHttpHeader header secWebsocketKey = some (found, lineEnd) ∧
      found.length = lineEnd.length + 24 := by
  constructor
  · rintro ⟨v, rest, hv, hlen⟩
    exact ⟨_, _, find_key_iff.mpr ⟨v, rest, hv, rfl, rfl⟩, by
      rw [List.length_append, hlen, Nat.add_comm]⟩
  · rintro ⟨found, lineEnd, hfind, hlen⟩
    obtain ⟨v, rest, hv, rfl, rfl⟩ := find_key_iff.mp hfind
    rw [List.length_append, Nat.add_comm, Nat.add_left_cancel_iff] at hlen
    exact ⟨v, rest, hv, hlen⟩

/-- There is a WebSocket, and the reply has been sent. -/
def UpgradeResult.Upgrades (fd : Socket) : UpgradeResult → Prop
  | .returned _ ws fd' => ws.isSome ∧ ∃ key, fd'.tx = fd.tx ++ switchingProtocols key
  | .assertFailed _ => False

/-- **When a request is upgraded**: its key has 24 bytes, the reply is taken, and there is
memory for the endpoint. -/
theorem upgrade_iff (sha1 : List Byte → CharArray 20) (alloc : Bool) (fd : Socket)
    (header : List Byte) :
    (ducqNewWsUpgradeFromHttp sha1 alloc fd header).Upgrades fd ↔
      CarriesKey header ∧ TakesAll fd.wx 129 ∧ alloc = true := by
  have hcarries := @carriesKey_iff header
  rw [ducqNewWsUpgradeFromHttp]
  rcases hfound : inetFindHttpHeader header secWebsocketKey with _ | ⟨found, lineEnd⟩
  · refine iff_of_false (fun h => Bool.false_ne_true h.1) ?_
    rintro ⟨hkey, -⟩
    obtain ⟨found, lineEnd, heq, -⟩ := hcarries.mp hkey
    exact absurd (heq.symm.trans hfound) (Option.some_ne_none _)
  rw [hfound] at hcarries
  obtain ⟨v, rest, hv, rfl, rfl⟩ := find_key_iff.mp hfound
  have hlength : CarriesKey header ↔ v.length = 24 := by
    refine ⟨fun h => ?_, fun h => ⟨v, rest, hv, h⟩⟩
    obtain ⟨_, _, heq, hlen⟩ := hcarries.mp h
    obtain ⟨rfl, rfl⟩ := Prod.mk.inj (Option.some.inj heq)
    rw [List.length_append] at hlen
    omega
  have hcstr : cstr (terminate (v ++ (crlf ++ rest)) (crlf ++ rest)) = v := by
    obtain ⟨pre, k, -, -, -, -, -, hv0⟩ := hv
    exact cstr_terminate hv0
  rw [hlength]
  dsimp only
  by_cases hlen : v.length = 24
  · obtain ⟨acceptKey, haccept, hacceptLen⟩ := wsMakeAcceptKey_of_length sha1 (hcstr.symm ▸ hlen)
    have hreply := length_switchingProtocols hacceptLen
    have hfits : ¬ (switchingProtocols acceptKey).length ≥ ducqMsgsz := by
      rw [hreply]
      decide
    rw [haccept, and_iff_right hlen]
    dsimp only
    rw [if_neg (not_not.mpr rfl), if_neg hfits]
    rcases writen_takesAll (switchingProtocols acceptKey) fd with ⟨htakes, hn, htx⟩ | ⟨htakes, hn⟩
    · rw [hreply] at htakes hn
      rw [if_neg (show ¬ _ ≤ (0 : ℤ) by omega), and_iff_right htakes]
      cases alloc with
      | true => exact iff_of_true ⟨rfl, acceptKey, htx⟩ rfl
      | false => exact iff_of_false (fun h => Bool.false_ne_true h.1) Bool.false_ne_true
    · rw [hreply] at htakes
      rw [if_pos (show _ ≤ (0 : ℤ) by omega)]
      exact iff_of_false (fun h => Bool.false_ne_true h.1) fun h => htakes h.1
  · have herror : (wsMakeAcceptKey sha1 (terminate (v ++ (crlf ++ rest)) (crlf ++ rest))
        wsB64AcceptKeyLen).1 ≠ .ok := by
      rw [ne_eq, wsMakeAcceptKey_eq_ok_iff, hcstr]
      exact hlen
    rw [if_pos herror]
    exact iff_of_false id fun h => hlen h.1

/-- An upgrade that fails is never called unimplemented. -/
theorem upgrade_state_ne (sha1 : List Byte → CharArray 20) (alloc : Bool) (fd : Socket)
    (header : List Byte) {state : DucqState} {ws : Option DucqWs} {fd' : Socket}
    (h : ducqNewWsUpgradeFromHttp sha1 alloc fd header = .returned state ws fd') :
    state ≠ .enoimpl := by
  rw [ducqNewWsUpgradeFromHttp] at h
  split at h
  · obtain ⟨rfl, -⟩ := UpgradeResult.returned.inj h
    exact DucqState.noConfusion
  · dsimp only at h
    split_ifs at h
    · obtain ⟨rfl, -⟩ := UpgradeResult.returned.inj h
      exact DucqState.noConfusion
    · obtain ⟨rfl, -⟩ := UpgradeResult.returned.inj h
      exact DucqState.noConfusion
    · obtain ⟨rfl, -⟩ := UpgradeResult.returned.inj h
      exact DucqState.noConfusion
    · obtain ⟨rfl, -⟩ := UpgradeResult.returned.inj h
      exact DucqState.noConfusion

/-! ## What a request asks for -/

/-- The search for `_recv`'s line fails exactly if the header does not have it. -/
theorem strstr_upgradeLine {header : List Byte} :
    strstr upgradeLine header = none ↔ ¬ upgradeLine <:+: cstr header :=
  strstr_eq_none_iff (by decide) (by decide)

/-- The header has a line that asks for a WebSocket. -/
def AsksUpgrade (block : List Byte) : Prop :=
  crlf ++ ascii "Upgrade: websocket" ++ crlf <:+: block

/-- The request is answered with 101, and the connection becomes a WebSocket. -/
def HttpRecvResult.Switches (http : DucqHttp) : HttpRecvResult → Prop
  | .returned _ _ http' _ =>
    http'.ws.isSome ∧ ∃ key, http'.fd.tx = http.fd.tx ++ switchingProtocols key
  | .assertFailed _ => False

/-- The state is `DUCQ_ENOIMPL`, and the connection stays what it is. -/
def HttpRecvResult.StaysHttp : HttpRecvResult → Prop
  | .returned state _ http' _ => state = .enoimpl ∧ http'.ws = none
  | .assertFailed _ => False

/-- The connection becomes a WebSocket exactly if the header asks for it, and otherwise
the request is called unimplemented. -/
structure UpgradesAsAsked (http : DucqHttp) (result : HttpRecvResult) (block : List Byte) :
    Prop where
  switches : result.Switches http ↔ AsksUpgrade block
  stays : ¬ AsksUpgrade block → result.StaysHttp

theorem not_upgradesAsAsked {http : DucqHttp} {result : HttpRecvResult} {block : List Byte}
    (hasks : ¬ AsksUpgrade block) (hstays : ¬ result.StaysHttp) :
    ¬ UpgradesAsAsked http result block := fun h => hstays (h.stays hasks)

variable {http : DucqHttp} {request : List Byte}

/-- **The request is the memory up to its first empty line**, with the end of the line
before. -/
theorem cstr_request (h : http.request = some request) :
    ∃ pre q, http.readHeader.memory http.behind = pre ++ q ∧ First headerEnd pre q ∧
      cstr request = pre ++ crlf := by
  obtain ⟨end_, hend, rfl⟩ := Option.map_eq_some_iff.mp h
  obtain ⟨i, hi, rfl⟩ := memory_of_end hend
  obtain ⟨pre, q, hsplit, hfirst, hpre, rfl⟩ := (strstrIndex_eq_some_iff headerEnd_ne_nil).mp hi
  refine ⟨pre, q, hsplit, hfirst, ?_⟩
  obtain ⟨r, rfl⟩ := hfirst.1
  have hset : (pre ++ (headerEnd ++ r)).set (pre.length + 2) 0 =
      (pre ++ crlf) ++ 0 :: 10 :: r := by
    rw [List.set_append_right _ _ (Nat.le_add_right _ _), Nat.add_sub_cancel_left,
      List.append_assoc]
    rfl
  have h0 : (0 : Byte) ∉ pre ++ crlf := fun hmem =>
    (List.mem_append.mp hmem).elim hpre (by decide)
  rw [DucqHttp.readHeader, inetGetHttpHeader, hsplit, hset, cstr_append_zero h0]

/-- If the first piece decides where the header ends, the request is what the client sent. -/
theorem cstr_request_of_decides (h : http.request = some request)
    (hdecides : FirstPieceDecides httpHeaderSize http.fd.rx) :
    ∃ pre q, clean http.fd.rx = pre ++ q ∧ First headerEnd pre q ∧
      cstr request = pre ++ crlf := by
  obtain ⟨pre, q, hmemory, hfirst, hcstr⟩ := cstr_request h
  obtain ⟨end_, hend, -⟩ := Option.map_eq_some_iff.mp h
  have hpiece : firstPiece httpHeaderSize http.fd.rx ≠ [] := fun hnil => by
    have hnone := (@end_of_firstPieceDecides _ http.behind _ hdecides).1
    rw [if_pos hnil] at hnone
    exact absurd (hend.symm.trans hnone) (Option.some_ne_none _)
  have hdec := hdecides.resolve_left hpiece
  have hpre : (0 : Byte) ∉ pre := fun hmem => zero_notMem_cstr request
    (hcstr ▸ List.mem_append_left crlf hmem)
  obtain ⟨t, ht⟩ := (List.take_prefix httpHeaderSize _).trans (firstChunk_prefix_clean http.fd.rx)
  obtain ⟨rest, hreceived⟩ := @firstPiece_prefix_received httpHeaderSize http.behind http.fd
  rw [HeaderRead.memory, DucqHttp.readHeader, ← hreceived, List.append_assoc] at hmemory
  obtain ⟨q', hclean, hfirst'⟩ :=
    CMemory.First.of_decides headerEnd_ne_nil zero_notMem_headerEnd hdec hmemory hfirst hpre t
  exact ⟨pre, q', by rw [← ht]; exact hclean, hfirst', hcstr⟩

/-- What `_recv` comes to on a request. -/
theorem httpRecv_of_request (sha1 : List Byte → CharArray 20) (alloc : Bool) (mask : WsMask)
    (count : ℕ) (b : Buffer) (hplain : http.ws = none) (h : http.request = some request) :
    httpRecv sha1 alloc mask count http b =
      if strstr upgradeLine request = none then
        match ducqNewWsUpgradeFromHttp sha1 alloc http.readHeader.fd request with
        | .returned state ws fd =>
          .returned state count ⟨fd, (terminateKey request).take httpHeaderSize, ws⟩ b
        | .assertFailed error => .assertFailed error
      else .returned .enoimpl count ⟨http.readHeader.fd, request.take httpHeaderSize, none⟩ b := by
  rw [httpRecv, hplain]
  dsimp only
  rw [h]

section Upgrade

variable (sha1 : List Byte → CharArray 20) (alloc : Bool) (mask : WsMask) (count : ℕ) (b : Buffer)

/-- Without its line, `_recv` does what the upgrade does. -/
theorem switches_iff_of_no_line (hplain : http.ws = none) (h : http.request = some request)
    (hline : strstr upgradeLine request = none) :
    (httpRecv sha1 alloc mask count http b).Switches http ↔
      CarriesKey request ∧ TakesAll http.fd.wx 129 ∧ alloc = true := by
  have hwrites : SameWrites http.fd http.readHeader.fd := sameWrites_httpHeaderLoop _ _ _ _
  have hupgrade := upgrade_iff sha1 alloc http.readHeader.fd request
  rw [hwrites.wx] at hupgrade
  rw [← hupgrade, httpRecv_of_request sha1 alloc mask count b hplain h, if_pos hline]
  rcases ducqNewWsUpgradeFromHttp sha1 alloc http.readHeader.fd request with
    ⟨state, ws, fd'⟩ | error
  · rw [UpgradeResult.Upgrades, hwrites.tx]
    exact Iff.rfl
  · exact Iff.rfl

theorem not_staysHttp_of_no_line (hplain : http.ws = none) (h : http.request = some request)
    (hline : strstr upgradeLine request = none) :
    ¬ (httpRecv sha1 alloc mask count http b).StaysHttp := by
  rw [httpRecv_of_request sha1 alloc mask count b hplain h, if_pos hline]
  rcases hcall : ducqNewWsUpgradeFromHttp sha1 alloc http.readHeader.fd request with
    ⟨state, ws, fd'⟩ | error
  · exact fun hstays => upgrade_state_ne sha1 alloc _ _ hcall hstays.1
  · exact id

/-- **A connection becomes a WebSocket only when asked to**, exactly if the line `_recv`
looks for is there when nothing is asked for, and if it is not there when an upgrade is
asked for and can be made. -/
theorem upgradesAsAsked_iff (hplain : http.ws = none) (h : http.request = some request) :
    UpgradesAsAsked http (httpRecv sha1 alloc mask count http b) (cstr request) ↔
      (¬ AsksUpgrade (cstr request) → upgradeLine <:+: cstr request) ∧
      (AsksUpgrade (cstr request) → ¬ upgradeLine <:+: cstr request ∧ CarriesKey request ∧
        TakesAll http.fd.wx 129 ∧ alloc = true) := by
  by_cases hline : upgradeLine <:+: cstr request
  · rw [httpRecv_of_request sha1 alloc mask count b hplain h,
      if_neg fun hnone => strstr_upgradeLine.mp hnone hline]
    constructor
    · rintro ⟨hswitches, -⟩
      exact ⟨fun _ => hline, fun hasks => absurd (hswitches.mpr hasks).1 Bool.false_ne_true⟩
    · rintro ⟨-, hasked⟩
      have hnot : ¬ AsksUpgrade (cstr request) := fun hasks => (hasked hasks).1 hline
      exact ⟨iff_of_false (fun hs => Bool.false_ne_true hs.1) hnot, fun _ => ⟨rfl, rfl⟩⟩
  · have hnone := strstr_upgradeLine.mpr hline
    have hswitches := switches_iff_of_no_line sha1 alloc mask count b hplain h hnone
    have hstays := not_staysHttp_of_no_line sha1 alloc mask count b hplain h hnone
    constructor
    · rintro ⟨hs, hstay⟩
      have hasks : AsksUpgrade (cstr request) := by_contra fun hnot => hstays (hstay hnot)
      exact ⟨fun hnot => absurd hasks hnot, fun _ => ⟨hline, hswitches.mp (hs.mpr hasks)⟩⟩
    · rintro ⟨hunasked, hasked⟩
      have hasks : AsksUpgrade (cstr request) := by_contra fun hnot => hline (hunasked hnot)
      exact ⟨iff_of_true (hswitches.mpr (hasked hasks).2) hasks, fun hnot => absurd hasks hnot⟩

end Upgrade

/-- A connection on which a request with these lines arrives at once. -/
def DucqHttp.requesting (lines : List Byte) : DucqHttp :=
  ⟨Socket.receiving [.chunk 71 (ascii "ET / HTTP/1.1" ++ crlf ++ lines ++ crlf)],
    List.replicate httpHeaderSize 0, none⟩

/-- The line of a key. -/
def keyLine : List Byte := ascii "Sec-WebSocket-Key: dGhlIHNhbXBsZSBub25jZQ==" ++ crlf

/-- **A request that asks for an upgrade** gets it. -/
theorem upgradesAsAsked_asking :
    ∃ request, (DucqHttp.requesting (ascii "Upgrade: websocket" ++ crlf ++ keyLine)).request =
        some request ∧
      UpgradesAsAsked (DucqHttp.requesting (ascii "Upgrade: websocket" ++ crlf ++ keyLine))
        (httpRecv (fun _ => CharArray.zeros 20) true (CharArray.zeros 4) 256
          (DucqHttp.requesting (ascii "Upgrade: websocket" ++ crlf ++ keyLine))
          (Buffer.fresh fun _ => 0)) (cstr request) := by
  have hblock : (DucqHttp.requesting
      (ascii "Upgrade: websocket" ++ crlf ++ keyLine)).request.map (fun request =>
        (cstr request, strstr upgradeLine request, (inetFindHttpHeader request secWebsocketKey).map
          fun found => found.1.length - found.2.length)) =
      some (ascii "GET / HTTP/1.1" ++ (crlf ++ ascii "Upgrade: websocket" ++ crlf) ++ keyLine,
        none, some 24) := by
    decide +kernel
  obtain ⟨request, hrequest, heq⟩ := Option.map_eq_some_iff.mp hblock
  rw [Prod.mk.injEq, Prod.mk.injEq] at heq
  obtain ⟨hcstr, hline, hkey⟩ := heq
  obtain ⟨⟨found, lineEnd⟩, hfind, hlen⟩ := Option.map_eq_some_iff.mp hkey
  have hasks : AsksUpgrade (cstr request) := ⟨ascii "GET / HTTP/1.1", keyLine, hcstr.symm⟩
  refine ⟨request, hrequest, (upgradesAsAsked_iff _ _ _ _ _ rfl hrequest).mpr
    ⟨fun h => absurd hasks h, fun _ => ⟨?_, carriesKey_iff.mpr ⟨found, lineEnd, hfind, ?_⟩,
      trivial, rfl⟩⟩⟩
  · exact strstr_upgradeLine.mp hline
  · dsimp only at hlen
    omega

/-- **A request with a key that asks for nothing** is upgraded all the same. -/
theorem not_upgradesAsAsked_plain :
    ∃ request, (DucqHttp.requesting keyLine).request = some request ∧ CarriesKey request ∧
      ¬ UpgradesAsAsked (DucqHttp.requesting keyLine)
        (httpRecv (fun _ => CharArray.zeros 20) true (CharArray.zeros 4) 256
          (DucqHttp.requesting keyLine) (Buffer.fresh fun _ => 0)) (cstr request) := by
  have hblock : (DucqHttp.requesting keyLine).request.map (fun request =>
      (strstr upgradeLine request,
        strstr (crlf ++ ascii "Upgrade: websocket" ++ crlf) request,
        (inetFindHttpHeader request secWebsocketKey).map
          fun found => found.1.length - found.2.length)) = some (none, none, some 24) := by
    decide +kernel
  obtain ⟨request, hrequest, heq⟩ := Option.map_eq_some_iff.mp hblock
  rw [Prod.mk.injEq, Prod.mk.injEq] at heq
  obtain ⟨hline, hnot, hkey⟩ := heq
  obtain ⟨⟨found, lineEnd⟩, hfind, hlen⟩ := Option.map_eq_some_iff.mp hkey
  have hasks : ¬ AsksUpgrade (cstr request) :=
    (strstr_eq_none_iff (by decide) (by decide)).mp hnot
  have hstays := @not_staysHttp_of_no_line (DucqHttp.requesting keyLine) request
    (fun _ => CharArray.zeros 20) true (CharArray.zeros 4) 256 (Buffer.fresh fun _ => 0) rfl
    hrequest hline
  refine ⟨request, hrequest, carriesKey_iff.mpr ⟨found, lineEnd, hfind, ?_⟩, ?_⟩
  · dsimp only at hlen
    omega
  · exact not_upgradesAsAsked hasks hstays

end Ducq
