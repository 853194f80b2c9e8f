import Ducq.Inet.Base64
import Ducq.Inet.Http
import Ducq.Ws.Endpoint

/-!
# `ducq_ws.c`, `inet_ws.c`: the upgrade from HTTP

The accept key is made of the key the client sends and a fixed text, by way of SHA-1 and
base64.  `ws_make_accept_key` copies the two behind each other and wants the copy to have
one length, that of a key of 24 bytes; base64 has room enough, and SHA-1, which is a
parameter here, is taken to succeed.  So the length of what the client sends decides, and
nothing on the way to the call looks at it: `ducq_new_ws_upgrade_from_http` takes an error
of `ws_make_accept_key` for its own, and asserts that there is none.

`upgradeSafe_iff` says which requests are harmless.
-/

namespace Ducq

open CMemory ByteStream Occurrence

/-- `ws_error_t`. -/
inductive WsError where
  | ok | base64Null | base64OutLen | sha1Null | sha1InLen | sha1State | nullParam | inLen | outLen
  deriving DecidableEq

/-- `WS_GUID`. -/
def wsGuid : List Byte := ascii "258EAFA5-E914-47DA-95CA-C5AB0DC85B11"

/-- `SEC_WEBSOCKET_KEY`. -/
def secWebsocketKey : List Byte := ascii "Sec-WebSocket-Key"

/-- `WS_B64_CONNECTION_KEY_LEN`. -/
abbrev wsB64ConnectionKeyLen : ℕ := 25

/-- `WS_B64_ACCEPT_KEY_LEN`. -/
abbrev wsB64AcceptKeyLen : ℕ := 29

/-- `HTTP_BAD_REQUEST_400`. -/
def httpBadRequest400 : List Byte := ascii "HTTP/1.1 400 Bad Request" ++ crlf ++ crlf

/-- `_base64err_to_ws_err`. -/
def base64errToWsErr (base64err : ℤ) : WsError :=
  if base64err = -1 then .base64Null else if base64err = -2 then .base64OutLen else .ok

/-- `ws_make_accept_key(client_key, result, len)`: the error, and the string at `result`.
`sha1` is what the three calls of SHA-1 compute together. -/
def wsMakeAcceptKey (sha1 : List Byte → CharArray 20) (clientKey : List Byte) (len : ℕ) :
    WsError × List Byte :=
  let buffer := cstr clientKey ++ wsGuid
  -- `sizeof(buffer) - 2`, where `sizeof WS_GUID` counts its terminator
  let bufferSize := wsB64ConnectionKeyLen + (wsGuid.length + 1) - 2
  if buffer.length ≠ bufferSize then (.inLen, [])
  else match base64Encode (sha1 buffer).bytes len with
    | (b64Err, result) => if b64Err ≠ 0 then (base64errToWsErr b64Err, []) else (.ok, result)

/-- `*end = '\\0'`, for two pointers into one text. -/
def terminate (found lineEnd : List Byte) : List Byte :=
  found.take (found.length - lineEnd.length) ++ 0 :: lineEnd.drop 1

/-- The reply to a request that is accepted. -/
def switchingProtocols (acceptKey : List Byte) : List Byte :=
  ascii "HTTP/1.1 101 Switching Protocols" ++ crlf ++ ascii "Upgrade: websocket" ++ crlf ++
    ascii "Connection: Upgrade" ++ crlf ++ ascii "Sec-WebSocket-Accept: " ++ acceptKey ++ crlf ++
    crlf

/-- How a call ends: it returns a state, and the endpoint if it made one, or an assertion
fails. -/
inductive UpgradeResult where
  | returned (state : DucqState) (ws : Option DucqWs) (fd : Socket)
  | assertFailed (error : WsError)

/-- `ducq_new_ws_upgrade_from_http(&ws, fd, http_header)`; `alloc` says whether `malloc`
has memory for the endpoint. -/
def ducqNewWsUpgradeFromHttp (sha1 : List Byte → CharArray 20) (alloc : Bool) (fd : Socket)
    (httpHeader : List Byte) : UpgradeResult :=
  match inetFindHttpHeader httpHeader secWebsocketKey with
  | none => .returned .emsginv none (writen httpBadRequest400 fd).2
  | some (clientKey, lineEnd) =>
    match wsMakeAcceptKey sha1 (terminate clientKey lineEnd) wsB64AcceptKeyLen with
    | (error, acceptKey) =>
      if error ≠ .ok then .assertFailed error
      else
        let reply := switchingProtocols acceptKey
        if reply.length ≥ ducqMsgsz then .returned .emsgsize none fd
        else match writen reply fd with
          | (n, fd) =>
            if n ≤ 0 then .returned .ewrite none fd
            else if alloc then
              .returned .protocol (some { ducqNewWsConnection fd with state := .open }) fd
            else .returned .ememfail none fd

/-! ## The accept key -/

/-- **A key of 24 bytes is accepted, and no other.** -/
theorem wsMakeAcceptKey_eq_ok_iff (sha1 : List Byte → CharArray 20) (clientKey : List Byte) :
    (wsMakeAcceptKey sha1 clientKey wsB64AcceptKeyLen).1 = .ok ↔
      (cstr clientKey).length = 24 := by
  have hguid : wsGuid.length = 36 := by decide
  rw [wsMakeAcceptKey]
  simp only [List.length_append, hguid]
  by_cases hlen : (cstr clientKey).length = 24
  · have hspace : neededSpace (sha1 (cstr clientKey ++ wsGuid)).bytes.length ≤
        wsB64AcceptKeyLen := by
      rw [(sha1 _).length_eq]
      decide
    rw [if_neg (by show ¬ (_ ≠ 25 + (36 + 1) - 2); omega), base64Encode_of_le hspace]
    exact iff_of_true rfl hlen
  · rw [if_pos (by show _ ≠ 25 + (36 + 1) - 2; omega)]
    exact iff_of_false (by decide) hlen

/-! ## Requests -/

/-- No request trips the assertion: what the function finds is accepted. -/
def UpgradeSafe (sha1 : List Byte → CharArray 20) (httpHeader : List Byte) : Prop :=
  (∀ clientKey lineEnd,
    inetFindHttpHeader httpHeader secWebsocketKey = some (clientKey, lineEnd) →
      (wsMakeAcceptKey sha1 (terminate clientKey lineEnd) wsB64AcceptKeyLen).1 = .ok) ∧
  ∀ alloc fd error, ducqNewWsUpgradeFromHttp sha1 alloc fd httpHeader ≠ .assertFailed error

/-- The key the function passes on is the value of the line. -/
theorem cstr_terminate {v rest : List Byte} (hv : (0 : Byte) ∉ v) :
    cstr (terminate (v ++ (crlf ++ rest)) (crlf ++ rest)) = v := by
  rw [terminate, List.length_append, Nat.add_sub_cancel, List.take_left, cstr_append_zero hv]

/-- The assertion is on the accept key alone. -/
theorem upgrade_ne_assertFailed {sha1 : List Byte → CharArray 20} {httpHeader : List Byte}
    (h : ∀ clientKey lineEnd,
      inetFindHttpHeader httpHeader secWebsocketKey = some (clientKey, lineEnd) →
        (wsMakeAcceptKey sha1 (terminate clientKey lineEnd) wsB64AcceptKeyLen).1 = .ok)
    (alloc : Bool) (fd : Socket) (error : WsError) :
    ducqNewWsUpgradeFromHttp sha1 alloc fd httpHeader ≠ .assertFailed error := by
  rw [ducqNewWsUpgradeFromHttp]
  rcases hfind : inetFindHttpHeader httpHeader secWebsocketKey with _ | ⟨clientKey, lineEnd⟩
  · exact UpgradeResult.noConfusion
  · dsimp only
    rw [if_neg (not_not.mpr (h clientKey lineEnd hfind))]
    split_ifs <;> exact UpgradeResult.noConfusion

/-- **The assertion holds exactly if the client's key has 24 bytes**: from the last of the
blanks behind the first `Sec-WebSocket-Key:` to the end of the line. -/
theorem upgradeSafe_iff (sha1 : List Byte → CharArray 20) (httpHeader : List Byte) :
    UpgradeSafe sha1 httpHeader ↔
      ∀ v rest, HasHeader httpHeader secWebsocketKey v rest → v.length = 24 := by
  have hfind : ∀ {found lineEnd}, inetFindHttpHeader httpHeader secWebsocketKey =
      some (found, lineEnd) ↔ ∃ v rest, HasHeader httpHeader secWebsocketKey v rest ∧
        found = v ++ (crlf ++ rest) ∧ lineEnd = crlf ++ rest :=
    inetFindHttpHeader_eq_some_iff (by decide) (by decide) (by decide)
  have hkey : ∀ {v rest}, HasHeader httpHeader secWebsocketKey v rest →
      ((wsMakeAcceptKey sha1 (terminate (v ++ (crlf ++ rest)) (crlf ++ rest))
        wsB64AcceptKeyLen).1 = .ok ↔ v.length = 24) := by
    intro v rest h
    obtain ⟨pre, k, -, -, -, -, -, hv⟩ := h
    rw [wsMakeAcceptKey_eq_ok_iff, cstr_terminate hv]
  constructor
  · rintro ⟨hsafe, -⟩ v rest h
    exact (hkey h).mp (hsafe _ _ (hfind.mpr ⟨v, rest, h, rfl, rfl⟩))
  · intro h
    have hsafe : ∀ clientKey lineEnd,
        inetFindHttpHeader httpHeader secWebsocketKey = some (clientKey, lineEnd) →
          (wsMakeAcceptKey sha1 (terminate clientKey lineEnd) wsB64AcceptKeyLen).1 = .ok := by
      intro clientKey lineEnd hfound
      obtain ⟨v, rest, hv, rfl, rfl⟩ := hfind.mp hfound
      exact (hkey hv).mpr (h v rest hv)
    exact ⟨hsafe, upgrade_ne_assertFailed hsafe⟩

/-- **A short key aborts the server.**  The three bytes are the value of the line, and not
what `ws_make_accept_key` wants. -/
theorem not_upgradeSafe_short :
    ¬ UpgradeSafe (fun _ => CharArray.zeros 20)
      (ascii "GET /chat HTTP/1.1" ++ crlf ++ ascii "Sec-WebSocket-Key: abc" ++ crlf ++ [0]) := by
  rintro ⟨h, -⟩
  have hfind : inetFindHttpHeader
      (ascii "GET /chat HTTP/1.1" ++ crlf ++ ascii "Sec-WebSocket-Key: abc" ++ crlf ++ [0])
      secWebsocketKey = some (ascii "abc" ++ crlf ++ [0], crlf ++ [0]) := by decide
  exact absurd (h _ _ hfind) (by decide)

end Ducq
