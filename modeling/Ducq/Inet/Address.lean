import Ducq.Inet.Http
import Ducq.Lib.Printf
import Mathlib.Data.List.OfFn

/-!
# Addresses as text, and the ids of clients

`inet_address_tostring` writes an address, a colon and the port.  The id of a client is the
name of its transport and that text of its peer.  It is put together when it is first asked
for, in an array of the client's own, and from then on it is what the array holds: `_id` does
not ask for the peer again.  If there is no peer to be asked for at that moment, the name of
the transport remains for good.  A client of `ducq_http.c` that has been upgraded answers with
the id of the WebSocket it has become, so the one client has two ids one after the other.

Two ids are equal exactly if the transports are and the peers are (`idText_inj`), and so it is
with all that two clients ever answer (`ids_identify`).
-/

namespace Ducq

open CMemory CNumber CPrintf

abbrev fullStop : Byte := 46

/-! ## Addresses -/

/-- `struct sockaddr`, as far as `inet_address_tostring` reads it; the ports are in network
order. -/
inductive Sockaddr where
  | inet (addr : Fin 4 → Byte) (port : Byte × Byte)
  | inet6 (addr : Fin 16 → Byte) (port : Byte × Byte)
  | other (family : ℕ)
  deriving DecidableEq

/-- `ntohs`. -/
def ntohs (port : Byte × Byte) : ℕ := 256 * port.1.toNat + port.2.toNat

/-- A hexadecimal digit, as `inet_ntop` writes it. -/
def isHexDigit (b : Byte) : Bool := isDigit b || (97 ≤ b.toNat && b.toNat ≤ 102)

/-- What `inet_ntop` makes of an address of `AF_INET`. -/
def dotted (addr : Fin 4 → Byte) : List Byte :=
  [fullStop].intercalate (List.ofFn fun i => decimal (addr i).toNat)

/-- What it makes of those of `AF_INET6`: a text for each address, of hexadecimal digits,
colons and dots, which fits into `INET6_ADDRSTRLEN` bytes. -/
structure Ntop6 where
  text : (Fin 16 → Byte) → List Byte
  injective : Function.Injective text
  length_lt : ∀ addr, (text addr).length < 46
  chars : ∀ addr, ∀ b ∈ text addr, isHexDigit b = true ∨ b = colon ∨ b = fullStop
  colon_mem : ∀ addr, colon ∈ text addr

/-- `inet_ntop(…, buffer, len)`: whether the text fits, and the buffer. -/
def inetNtop (text : List Byte) (b : Buffer) (buffer len : ℕ) : Bool × Buffer :=
  if text.length < len then (true, b.store buffer (text ++ [0])) else (false, b)

/-- `inet_address_tostring`, behind the `switch`: whether it returns the buffer. -/
def writeAddress (text : List Byte) (port : ℕ) (b : Buffer) (buffer len : ℕ) : Bool × Buffer :=
  match inetNtop text b buffer len with
  | (false, b) => (false, b)
  | (true, b) =>
    let ptr := buffer + text.length
    let max := len - text.length
    let line := ascii ":" ++ decimal port
    let b := snprintf b ptr max line
    (decide ¬ (0 ≥ line.length ∨ line.length ≥ max), b)

/-- `inet_address_tostring(addr, addrlen, buffer, len)`. -/
def inetAddressTostring (ntop6 : Ntop6) (addr : Sockaddr) (b : Buffer) (buffer len : ℕ) :
    Bool × Buffer :=
  match addr with
  | .inet addr port => writeAddress (dotted addr) (ntohs port) b buffer len
  | .inet6 addr port => writeAddress (ntop6.text addr) (ntohs port) b buffer len
  | .other _ => (false, b)

/-- `inet_socket_tostring`; without a name, `getname` has failed. -/
def inetSocketTostring (ntop6 : Ntop6) (name : Option Sockaddr) (b : Buffer) (buffer len : ℕ) :
    Bool × Buffer :=
  match name with
  | none => (false, b)
  | some addr => inetAddressTostring ntop6 addr b buffer len

/-! ## Ids -/

/-- What a client is a client of. -/
inductive Protocol where
  | tcp | ws | http
  deriving DecidableEq

/-- What an id begins with. -/
def Protocol.tag : Protocol → List Byte
  | tcp => ascii "TCP:"
  | ws => ascii "WS:"
  | http => ascii "HTTP:"

/-- `MAX_ID`. -/
def Protocol.maxId : Protocol → ℕ
  | tcp => 100
  | ws => 99
  | http => 99

/-- `_id`, for the array `id`: the string returned, and the array. -/
def Protocol.id (t : Protocol) (ntop6 : Ntop6) (peer : Option Sockaddr) (id : Buffer) :
    List Byte × Buffer :=
  if id.cells 0 ≠ 0 then (cstr (id.slice 0 t.maxId), id)
  else
    let n := t.tag.length
    let id := snprintf id 0 t.maxId t.tag
    let (_, id) := inetSocketTostring ntop6 peer id n (t.maxId - n)
    (cstr (id.slice 0 t.maxId), id)

/-- `_id` of `ducq_tcp.c`. -/
def tcpId : Ntop6 → Option Sockaddr → Buffer → List Byte × Buffer := Protocol.tcp.id

/-- `_id` of `ducq_ws.c`. -/
def wsId : Ntop6 → Option Sockaddr → Buffer → List Byte × Buffer := Protocol.ws.id

/-- `_id` of `ducq_http.c`, for the arrays of the client and of the WebSocket it has become,
if it has. -/
def httpId (ntop6 : Ntop6) (peer : Option Sockaddr) :
    Buffer × Option Buffer → List Byte × Buffer × Option Buffer
  | (id, some ws) =>
    let (text, ws) := wsId ntop6 peer ws
    (text, id, some ws)
  | (id, none) =>
    let (text, id) := Protocol.http.id ntop6 peer id
    (text, id, none)

/-- The arrays of a client. -/
inductive Ids where
  | tcp (id : Buffer)
  | ws (id : Buffer)
  | http (id : Buffer) (ws : Option Buffer)

/-- An array whose first byte is zero, as the constructors leave it. -/
def newId (memory : ℕ → Byte) : Buffer := (Buffer.fresh memory).put 0 0

/-- The arrays of a new client. -/
def Ids.new (memory : ℕ → Byte) : Protocol → Ids
  | .tcp => .tcp (newId memory)
  | .ws => .ws (newId memory)
  | .http => .http (newId memory) none

/-- `ducq_id`, with what the client's socket is connected to at that moment. -/
def Ids.ask (ntop6 : Ntop6) (peer : Option Sockaddr) : Ids → List Byte × Ids
  | tcp id =>
    let (text, id) := tcpId ntop6 peer id
    (text, tcp id)
  | ws id =>
    let (text, id) := wsId ntop6 peer id
    (text, ws id)
  | http id upgraded =>
    let (text, id, upgraded) := httpId ntop6 peer (id, upgraded)
    (text, http id upgraded)

/-- `ducq_new_ws_upgrade_from_http`, as far as the ids go: the new client begins with none. -/
def Ids.upgrade (memory : ℕ → Byte) : Ids → Ids
  | http id none => http id (some (newId memory))
  | ids => ids

/-- What happens to a client: it is asked for its id, or it is upgraded. -/
inductive IdEvent where
  | ask (peer : Option Sockaddr)
  | upgrade (memory : ℕ → Byte)

/-- All that it answers, and its arrays in the end. -/
def Ids.run (ntop6 : Ntop6) : List IdEvent → Ids → List (List Byte) × Ids
  | [], ids => ([], ids)
  | .ask peer :: events, ids =>
    let (text, ids) := ids.ask ntop6 peer
    let (texts, ids) := ids.run ntop6 events
    (text :: texts, ids)
  | .upgrade memory :: events, ids => (ids.upgrade memory).run ntop6 events

/-- Nothing was written behind the arrays. -/
def Ids.Inside : Ids → Prop
  | tcp id => id.Within Protocol.tcp.maxId
  | ws id => id.Within Protocol.ws.maxId
  | http id upgraded =>
    id.Within Protocol.http.maxId ∧ ∀ ws ∈ upgraded, ws.Within Protocol.ws.maxId

/-! ## What an id names -/

/-- A peer whose address can be written. -/
def known : Option Sockaddr → Option Sockaddr
  | some (.other _) => none
  | peer => peer

theorem known_known (peer : Option Sockaddr) : known (known peer) = known peer := by
  rcases peer with - | addr
  · rfl
  · cases addr with
    | _ => rfl

/-- The text of its address, and its port. -/
def hostPort (ntop6 : Ntop6) : Option Sockaddr → Option (List Byte × Byte × Byte)
  | some (.inet addr port) => some (dotted addr, port)
  | some (.inet6 addr port) => some (ntop6.text addr, port)
  | some (.other _) => none
  | none => none

/-- The text of a peer. -/
def peerText (ntop6 : Ntop6) (peer : Option Sockaddr) : List Byte :=
  match hostPort ntop6 peer with
  | some (host, port) => host ++ (ascii ":" ++ decimal (ntohs port))
  | none => []

/-- The id of a client whose peer was this when it was first asked. -/
def idText (ntop6 : Ntop6) (t : Protocol) (peer : Option Sockaddr) : List Byte :=
  t.tag ++ peerText ntop6 peer

/-- What the answers of a client name: its transport, and the peer it had when it was first
asked since it is a client of that transport. -/
def named : List IdEvent → Protocol → Option (Option Sockaddr) →
    List (Protocol × Option Sockaddr)
  | [], _, _ => []
  | .ask peer :: events, t, first =>
    let first := first.getD (known peer)
    (t, first) :: named events t (some first)
  | .upgrade _ :: events, .http, _ => named events .ws none
  | .upgrade _ :: events, t, first => named events t first

/-! ## The texts -/

/-- A byte of an address or of a port. -/
def AddressByte (b : Byte) : Prop := isHexDigit b = true ∨ b = colon ∨ b = fullStop

theorem AddressByte.ne_zero {b : Byte} (h : AddressByte b) : b ≠ 0 := by
  rintro rfl
  rcases h with h | h | h
  · exact absurd h (by decide)
  · exact absurd h (by decide)
  · exact absurd h (by decide)

theorem AddressByte.of_isDigit {b : Byte} (h : isDigit b = true) : AddressByte b :=
  Or.inl (by rw [isHexDigit, h, Bool.true_or])

theorem notMem_decimal {b : Byte} (hb : isDigit b = false) (n : ℕ) : b ∉ decimal n := fun h =>
  Bool.false_ne_true (hb.symm.trans (isDigit_of_mem_decimal h))

theorem dotted_eq (addr : Fin 4 → Byte) :
    dotted addr = decimal (addr 0).toNat ++ (fullStop :: (decimal (addr 1).toNat ++
      (fullStop :: (decimal (addr 2).toNat ++ (fullStop :: decimal (addr 3).toNat))))) := by
  simp [dotted, List.intercalate]

theorem decimal_injective : Function.Injective decimal := fun m n h => by
  rw [← value_decimal m, h, value_decimal]

theorem length_decimal_byte (b : Byte) : (decimal b.toNat).length ≤ 3 :=
  length_decimal_le (by decide) (lt_trans (UInt8.toNat_lt b) (by decide))

/-- The text of an address of `AF_INET`, and what stands in it. -/
theorem length_dotted_lt (addr : Fin 4 → Byte) : (dotted addr).length < 16 := by
  have h0 := length_decimal_byte (addr 0)
  have h1 := length_decimal_byte (addr 1)
  have h2 := length_decimal_byte (addr 2)
  have h3 := length_decimal_byte (addr 3)
  rw [dotted_eq]
  simp only [List.length_append, List.length_cons]
  omega

/-- What stands between separators, or is one. -/
theorem mem_intercalate {sep b : Byte} {ls : List (List Byte)} (h : b ∈ [sep].intercalate ls) :
    b = sep ∨ ∃ l ∈ ls, b ∈ l := by
  induction ls with
  | nil => exact absurd h List.not_mem_nil
  | cons l ls ih =>
    cases ls with
    | nil => exact .inr ⟨l, List.mem_cons_self, by simpa [List.intercalate] using h⟩
    | cons l' ls =>
      rw [List.intercalate_cons_cons] at h
      rcases List.mem_append.mp h with h | h
      · rcases List.mem_append.mp h with h | h
        · exact .inr ⟨l, List.mem_cons_self, h⟩
        · exact .inl (List.mem_singleton.mp h)
      · rcases ih h with h | ⟨m, hm, hb⟩
        · exact .inl h
        · exact .inr ⟨m, List.mem_cons_of_mem _ hm, hb⟩

theorem of_mem_dotted {addr : Fin 4 → Byte} {b : Byte} (h : b ∈ dotted addr) :
    isDigit b = true ∨ b = fullStop := by
  rcases mem_intercalate h with h | ⟨l, hl, hbl⟩
  · exact .inr h
  · obtain ⟨i, rfl⟩ := List.mem_ofFn.mp hl
    exact .inl (isDigit_of_mem_decimal hbl)

theorem colon_notMem_dotted (addr : Fin 4 → Byte) : colon ∉ dotted addr := fun h => by
  rcases of_mem_dotted h with h | h
  · exact absurd h (by decide)
  · exact absurd h (by decide)

/-- **Different addresses have different texts.** -/
theorem dotted_injective : Function.Injective dotted := by
  intro addr addr' h
  have hsplit : ∀ a : Fin 4 → Byte, (dotted a).splitOn fullStop =
      List.ofFn fun i => decimal (a i).toNat := fun a => by
    refine List.splitOn_intercalate fullStop (fun l hl => ?_) (by simp)
    obtain ⟨i, rfl⟩ := List.mem_ofFn.mp hl
    exact notMem_decimal (by decide) _
  have hparts := (hsplit addr).symm.trans
    ((congrArg (List.splitOn fullStop) h).trans (hsplit addr'))
  funext i
  exact UInt8.toNat_inj.mp (decimal_injective (congrFun (List.ofFn_injective hparts) i))

theorem ntohs_lt (port : Byte × Byte) : ntohs port < 10 ^ 5 := by
  have h1 := UInt8.toNat_lt port.1
  have h2 := UInt8.toNat_lt port.2
  rw [ntohs]
  omega

theorem ntohs_injective : Function.Injective ntohs := by
  intro port port' h
  have h1 := UInt8.toNat_lt port.2
  have h2 := UInt8.toNat_lt port'.2
  rw [ntohs, ntohs] at h
  exact Prod.ext (UInt8.toNat_inj.mp (by omega)) (UInt8.toNat_inj.mp (by omega))

/-- What stands behind the last colon begins there. -/
theorem append_colon_inj {x x' : List Byte} {m n : ℕ}
    (h : x ++ (ascii ":" ++ decimal m) = x' ++ (ascii ":" ++ decimal n)) : x = x' ∧ m = n := by
  have hcolon : ascii ":" = [colon] := rfl
  have hm : colon ∉ decimal m := notMem_decimal (by decide) m
  have hn : colon ∉ decimal n := notMem_decimal (by decide) n
  rw [hcolon, List.singleton_append, List.singleton_append] at h
  rcases List.append_eq_append_iff.mp h with ⟨as, hx, hrest⟩ | ⟨as, hx, hrest⟩
  · cases as with
    | nil => exact ⟨by rw [hx, List.append_nil], decimal_injective (List.cons.inj hrest).2⟩
    | cons a as => exact absurd ((List.cons.inj hrest).2 ▸ by simp) hm
  · cases as with
    | nil => exact ⟨by rw [hx, List.append_nil], decimal_injective (List.cons.inj hrest).2.symm⟩
    | cons a as => exact absurd ((List.cons.inj hrest).2 ▸ by simp) hn

variable {ntop6 : Ntop6}

theorem hostPort_known (ntop6 : Ntop6) (peer : Option Sockaddr) :
    hostPort ntop6 (known peer) = hostPort ntop6 peer := by
  rcases peer with - | addr
  · rfl
  · cases addr with
    | _ => rfl

/-- What the text of an address is made of. -/
theorem of_hostPort {peer : Option Sockaddr} {host : List Byte} {port : Byte × Byte}
    (h : hostPort ntop6 peer = some (host, port)) :
    host.length < 46 ∧ ∀ b ∈ host, AddressByte b := by
  rcases peer with - | addr
  · exact absurd h (Option.some_ne_none _).symm
  · cases addr with
    | inet addr port =>
      obtain ⟨rfl, -⟩ := Prod.mk.inj (Option.some.inj h)
      refine ⟨(length_dotted_lt addr).trans (by decide), fun b hb => ?_⟩
      rcases of_mem_dotted hb with hb | hb
      · exact .of_isDigit hb
      · exact .inr (.inr hb)
    | inet6 addr port =>
      obtain ⟨rfl, -⟩ := Prod.mk.inj (Option.some.inj h)
      exact ⟨ntop6.length_lt addr, ntop6.chars addr⟩
    | other family => exact absurd h (Option.some_ne_none _).symm

/-- **Peers are told apart by the texts of their addresses and their ports.** -/
theorem hostPort_inj {peer peer' : Option Sockaddr}
    (h : hostPort ntop6 peer = hostPort ntop6 peer') : known peer = known peer' := by
  -- no text of one family is one of the other
  have hfamily : ∀ (addr : Fin 4 → Byte) (addr6 : Fin 16 → Byte),
      dotted addr ≠ ntop6.text addr6 := fun addr addr6 haddr =>
    colon_notMem_dotted addr (haddr ▸ ntop6.colon_mem addr6)
  have hfamily' : ∀ (addr : Fin 4 → Byte) (addr6 : Fin 16 → Byte),
      ntop6.text addr6 ≠ dotted addr := fun addr addr6 => (hfamily addr addr6).symm
  rcases peer with - | ⟨addr, port⟩ | ⟨addr, port⟩ | family <;>
    rcases peer' with - | ⟨addr', port'⟩ | ⟨addr', port'⟩ | family' <;>
    simp_all [hostPort, known, dotted_injective.eq_iff, ntop6.injective.eq_iff]

theorem peerText_known (ntop6 : Ntop6) (peer : Option Sockaddr) :
    peerText ntop6 (known peer) = peerText ntop6 peer := by
  rw [peerText, hostPort_known, peerText]

/-- **Peers have the same text exactly if they are the same.** -/
theorem peerText_inj {peer peer' : Option Sockaddr} :
    peerText ntop6 peer = peerText ntop6 peer' ↔ known peer = known peer' := by
  refine ⟨fun h => @hostPort_inj ntop6 peer peer' ?_, fun h => ?_⟩
  · have hnil : ∀ (host : List Byte) (port : Byte × Byte),
        [] ≠ host ++ (ascii ":" ++ decimal (ntohs port)) := fun host port hx =>
      absurd (congrArg List.length hx) (by simp [ascii])
    unfold peerText at h
    generalize hostPort ntop6 peer = a at h ⊢
    generalize hostPort ntop6 peer' = a' at h ⊢
    rcases a with - | ⟨host, port⟩
    · rcases a' with - | ⟨host', port'⟩
      · rfl
      · exact absurd h (hnil _ _)
    · rcases a' with - | ⟨host', port'⟩
      · exact absurd h.symm (hnil _ _)
      · obtain ⟨rfl, hport⟩ := append_colon_inj h
        rw [ntohs_injective hport]
  · rw [← peerText_known, h, peerText_known]

theorem addressByte_of_mem_peerText {peer : Option Sockaddr} {b : Byte}
    (h : b ∈ peerText ntop6 peer) : AddressByte b := by
  unfold peerText at h
  rcases hpeer : hostPort ntop6 peer with - | ⟨host, port⟩
  · rw [hpeer] at h
    exact absurd h List.not_mem_nil
  · rw [hpeer] at h
    rcases List.mem_append.mp h with h | h
    · exact (of_hostPort hpeer).2 b h
    · rcases List.mem_append.mp h with h | h
      · exact .inr (.inl (List.mem_singleton.mp h))
      · exact .of_isDigit (isDigit_of_mem_decimal h)

theorem length_port_le (port : Byte × Byte) :
    (ascii ":" ++ decimal (ntohs port)).length ≤ 6 := by
  have hport := length_decimal_le (by decide) (ntohs_lt port)
  rw [List.length_append]
  have hcolon : (ascii ":").length = 1 := rfl
  omega

theorem length_peerText_lt (ntop6 : Ntop6) (peer : Option Sockaddr) :
    (peerText ntop6 peer).length < 52 := by
  unfold peerText
  rcases hpeer : hostPort ntop6 peer with - | ⟨host, port⟩
  · exact Nat.zero_lt_succ _
  · have hhost := (of_hostPort hpeer).1
    have hport := length_port_le port
    dsimp only
    rw [List.length_append]
    omega

/-! ## What an id is -/

theorem length_tag (t : Protocol) : 0 < t.tag.length ∧ t.tag.length ≤ 5 := by
  cases t with
  | _ => decide

theorem ninety_lt_maxId (t : Protocol) : 90 < t.maxId := by
  cases t with
  | _ => decide

theorem zero_notMem_tag (t : Protocol) : 0 ∉ t.tag := by
  cases t with
  | _ => decide

theorem ne_zero_of_mem_tag {t : Protocol} {b : Byte} (h : b ∈ t.tag) : b ≠ 0 :=
  ne_of_mem_of_not_mem h (zero_notMem_tag t)

theorem head?_tag_inj {t t' : Protocol} (h : t.tag.head? = t'.tag.head?) : t = t' := by
  revert h
  cases t <;> cases t' <;> decide

theorem head?_idText (t : Protocol) (peer : Option Sockaddr) :
    (idText ntop6 t peer).head? = t.tag.head? := by
  cases t with
  | _ => rfl

/-- **Ids are equal exactly if the transports and the peers are.** -/
theorem idText_inj {t t' : Protocol} {peer peer' : Option Sockaddr} :
    idText ntop6 t peer = idText ntop6 t' peer' ↔ t = t' ∧ known peer = known peer' := by
  refine ⟨fun h => ?_, ?_⟩
  · have hhead := congrArg List.head? h
    rw [head?_idText, head?_idText] at hhead
    obtain rfl := head?_tag_inj hhead
    exact ⟨rfl, peerText_inj.mp (List.append_cancel_left h)⟩
  · rintro ⟨rfl, h⟩
    rw [idText, peerText_inj.mpr h, idText]

theorem zero_notMem_idText (ntop6 : Ntop6) (t : Protocol) (peer : Option Sockaddr) :
    (0 : Byte) ∉ idText ntop6 t peer := fun h => by
  rcases List.mem_append.mp h with h | h
  · exact ne_zero_of_mem_tag h rfl
  · exact (addressByte_of_mem_peerText h).ne_zero rfl

theorem length_idText_lt (ntop6 : Ntop6) (t : Protocol) (peer : Option Sockaddr) :
    (idText ntop6 t peer).length < 57 := by
  have htag := length_tag t
  have hpeer := length_peerText_lt ntop6 peer
  rw [idText, List.length_append]
  omega

/-! ## The arrays -/

/-- What the array of a client holds: nothing yet, or the id of the peer it had. -/
structure KeepsId (ntop6 : Ntop6) (t : Protocol) (first : Option (Option Sockaddr))
    (id : Buffer) : Prop where
  within : id.Within t.maxId
  unasked : first = none → id.cells 0 = 0
  asked : ∀ peer, first = some peer → id.StartsWith (idText ntop6 t peer ++ [0])

theorem keepsId_new (ntop6 : Ntop6) (t : Protocol) (memory : ℕ → Byte) :
    KeepsId ntop6 t none (newId memory) where
  within := Buffer.within_put.mpr ⟨by have := ninety_lt_maxId t; omega, Buffer.within_fresh _ _⟩
  unasked _ := rfl
  asked _ h := absurd h (Option.some_ne_none _).symm

/-- What is read from an array that holds a string. -/
theorem cstr_slice_of_startsWith {b : Buffer} {text : List Byte} (h : b.StartsWith (text ++ [0]))
    (h0 : (0 : Byte) ∉ text) {n : ℕ} (hn : text.length < n) : cstr (b.slice 0 n) = text := by
  have htake : (b.slice 0 n).take (text.length + 1) = text ++ [0] := by
    rw [Buffer.take_slice _ _ (by omega)]
    simpa [Buffer.StartsWith] using h
  rw [← List.take_append_drop (text.length + 1) (b.slice 0 n), htake, List.append_assoc,
    List.singleton_append, cstr_append_zero h0]

theorem inetSocketTostring_eq (peer : Option Sockaddr) (b : Buffer) (buffer len : ℕ) :
    inetSocketTostring ntop6 peer b buffer len =
      match hostPort ntop6 peer with
      | some (host, port) => writeAddress host (ntohs port) b buffer len
      | none => (false, b) := by
  rcases peer with - | addr
  · rfl
  · cases addr with
    | _ => rfl

/-- An address and a port that fit are written whole. -/
theorem writeAddress_of_lt {host : List Byte} {port : ℕ} (b : Buffer) (buffer : ℕ) {len : ℕ}
    (h : host.length + (ascii ":" ++ decimal port).length < len) :
    writeAddress host port b buffer len =
      (true, (b.store buffer (host ++ [0])).store (buffer + host.length)
        (ascii ":" ++ decimal port ++ [0])) := by
  have hpos : 0 < (ascii ":" ++ decimal port).length := by
    rw [List.length_append]
    exact Nat.add_pos_left (by decide) _
  rw [writeAddress, inetNtop, if_pos (by omega)]
  dsimp only
  rw [snprintf_of_lt _ _ (by omega), decide_eq_true (by omega)]

/-- `inet_socket_tostring` behind the name of the transport. -/
theorem inetSocketTostring_spec (t : Protocol) (peer : Option Sockaddr) {b : Buffer}
    (hwithin : b.Within t.maxId) (htag : b.StartsWith (t.tag ++ [0])) :
    (inetSocketTostring ntop6 peer b t.tag.length (t.maxId - t.tag.length)).2.Within t.maxId ∧
      (inetSocketTostring ntop6 peer b t.tag.length (t.maxId - t.tag.length)).2.StartsWith
        (idText ntop6 t peer ++ [0]) := by
  have hroom := ninety_lt_maxId t
  have hlen := length_tag t
  rw [inetSocketTostring_eq, idText, peerText]
  rcases hpeer : hostPort ntop6 peer with - | ⟨host, port⟩
  · dsimp only
    rw [List.append_nil]
    exact ⟨hwithin, htag⟩
  · have hhost := (of_hostPort hpeer).1
    have hport := length_port_le port
    dsimp only
    rw [writeAddress_of_lt b _ (by omega)]
    constructor
    · refine Buffer.within_store (Buffer.within_store hwithin ?_) ?_
      · rw [List.length_append, List.length_singleton]
        omega
      · rw [List.length_append, List.length_singleton]
        omega
    · -- each text stands over the terminator of the one before it
      have h1 := htag.of_append.store (host ++ [0])
      rw [← List.append_assoc] at h1
      have h2 := h1.of_append.store (ascii ":" ++ decimal (ntohs port) ++ [0])
      rw [List.length_append] at h2
      simpa only [List.append_assoc] using h2

/-- **What is answered**, and what the array holds afterwards. -/
theorem KeepsId.ask {t : Protocol} {first : Option (Option Sockaddr)} {id : Buffer}
    (h : KeepsId ntop6 t first id) (peer : Option Sockaddr) :
    (t.id ntop6 peer id).1 = idText ntop6 t (first.getD (known peer)) ∧
      KeepsId ntop6 t (some (first.getD (known peer))) (t.id ntop6 peer id).2 := by
  have hroom := ninety_lt_maxId t
  have hread : ∀ {b : Buffer} {p : Option Sockaddr}, b.StartsWith (idText ntop6 t p ++ [0]) →
      cstr (b.slice 0 t.maxId) = idText ntop6 t p := fun hb =>
    cstr_slice_of_startsWith hb (zero_notMem_idText _ _ _)
      (lt_trans (length_idText_lt _ _ _) (by omega))
  rw [Protocol.id]
  rcases first with - | p
  · -- it is put together
    have hlen := length_tag t
    rw [if_neg (not_not.mpr (h.unasked rfl))]
    dsimp only
    rw [snprintf_of_lt _ _ (by omega)]
    obtain ⟨hwithin, hstarts⟩ := @inetSocketTostring_spec ntop6 t peer
      (id.store 0 (t.tag ++ [0]))
      (Buffer.within_store h.within (by rw [List.length_append, List.length_singleton]; omega))
      (Buffer.startsWith_store _ _)
    have hknown : idText ntop6 t (known peer) = idText ntop6 t peer := by
      rw [idText, peerText_known, idText]
    rw [Option.getD_none, hknown]
    refine ⟨hread hstarts, hwithin, fun hc => absurd hc (Option.some_ne_none _), ?_⟩
    rintro p hp
    rw [← Option.some.inj hp, hknown]
    exact hstarts
  · -- it is there
    have hstarts := h.asked p rfl
    have hcell : id.cells 0 ≠ 0 := by
      rw [hstarts.cells (i := 0) (by simp)]
      cases t <;> simp [idText, Protocol.tag, ascii]
    rw [if_pos hcell]
    exact ⟨hread hstarts, h⟩

/-! ## What the answers are -/

/-- The arrays of a client are those of a client of that transport. -/
inductive Ids.Keep (ntop6 : Ntop6) : Ids → Protocol → Option (Option Sockaddr) → Prop
  | tcp {id : Buffer} {first : Option (Option Sockaddr)} :
      KeepsId ntop6 .tcp first id → Keep ntop6 (.tcp id) .tcp first
  | ws {id : Buffer} {first : Option (Option Sockaddr)} :
      KeepsId ntop6 .ws first id → Keep ntop6 (.ws id) .ws first
  | http {id : Buffer} {first : Option (Option Sockaddr)} :
      KeepsId ntop6 .http first id → Keep ntop6 (.http id none) .http first
  | upgraded {id ws : Buffer} {first : Option (Option Sockaddr)} :
      id.Within Protocol.http.maxId → KeepsId ntop6 .ws first ws →
        Keep ntop6 (.http id (some ws)) .ws first

namespace Ids

variable {ids : Ids} {t : Protocol} {first : Option (Option Sockaddr)}

theorem keep_new (ntop6 : Ntop6) (memory : ℕ → Byte) (t : Protocol) :
    (Ids.new memory t).Keep ntop6 t none := by
  cases t with
  | tcp => exact .tcp (keepsId_new _ _ _)
  | ws => exact .ws (keepsId_new _ _ _)
  | http => exact .http (keepsId_new _ _ _)

theorem Keep.inside (h : ids.Keep ntop6 t first) : ids.Inside := by
  cases h with
  | tcp hid => exact hid.within
  | ws hid => exact hid.within
  | http hid => exact ⟨hid.within, fun _ hws => absurd hws (Option.not_mem_none _)⟩
  | upgraded hid hws => exact ⟨hid, fun _ hmem => Option.some.inj hmem ▸ hws.within⟩

theorem Keep.ask (h : ids.Keep ntop6 t first) (peer : Option Sockaddr) :
    (ids.ask ntop6 peer).1 = idText ntop6 t (first.getD (known peer)) ∧
      (ids.ask ntop6 peer).2.Keep ntop6 t (some (first.getD (known peer))) := by
  cases h with
  | tcp hid => exact ⟨(hid.ask peer).1, .tcp (hid.ask peer).2⟩
  | ws hid => exact ⟨(hid.ask peer).1, .ws (hid.ask peer).2⟩
  | http hid => exact ⟨(hid.ask peer).1, .http (hid.ask peer).2⟩
  | upgraded hid hws => exact ⟨(hws.ask peer).1, .upgraded hid (hws.ask peer).2⟩

/-- **What a client answers** is the text of what it names. -/
theorem Keep.run (events : List IdEvent) (h : ids.Keep ntop6 t first) :
    (ids.run ntop6 events).1 = (named events t first).map (fun n => idText ntop6 n.1 n.2) ∧
      (ids.run ntop6 events).2.Inside := by
  induction events generalizing ids t first with
  | nil => exact ⟨rfl, h.inside⟩
  | cons event events ih =>
    cases event with
    | ask peer =>
      obtain ⟨htext, hkeep⟩ := h.ask peer
      obtain ⟨htexts, hinside⟩ := ih hkeep
      rw [Ids.run, named]
      exact ⟨by rw [List.map_cons, ← htexts, ← htext], hinside⟩
    | upgrade memory =>
      rw [Ids.run]
      cases h with
      | tcp hid => exact ih (.tcp hid)
      | ws hid => exact ih (.ws hid)
      | http hid => exact ih (.upgraded hid.within (keepsId_new _ _ _))
      | upgraded hid hws => exact ih (.upgraded hid hws)

end Ids

/-- What a client names is a peer that can be written, or none. -/
theorem known_of_mem_named {events : List IdEvent} {t : Protocol}
    {first : Option (Option Sockaddr)} (hfirst : ∀ peer ∈ first, known peer = peer)
    {n : Protocol × Option Sockaddr} (h : n ∈ named events t first) : known n.2 = n.2 := by
  induction events generalizing t first with
  | nil => exact absurd h List.not_mem_nil
  | cons event events ih =>
    cases event with
    | ask peer =>
      have hget : known (first.getD (known peer)) = first.getD (known peer) := by
        rcases first with - | p
        · exact known_known peer
        · exact hfirst p rfl
      rcases List.mem_cons.mp h with rfl | h
      · exact hget
      · exact ih (fun p hp => by rwa [← Option.some.inj hp]) h
    | upgrade memory =>
      cases t with
      | tcp => exact ih hfirst h
      | ws => exact ih hfirst h
      | http => exact ih (fun _ hp => absurd hp (Option.not_mem_none _)) h

/-- **Ids identify clients.**  Whatever two clients of any transports are asked, after whatever
upgrades: each of them answers the same over and over as long as it stays with its transport,
and an answer of the one is an answer of the other exactly if both were given over the same
transport, and by clients whose peers had the same address and port when they were first asked,
or could both not be told.  Nothing is written behind the arrays. -/
theorem ids_identify (ntop6 : Ntop6) (events events' : List IdEvent) (t t' : Protocol)
    (memory memory' : ℕ → Byte) :
    (∀ j k : ℕ, ((Ids.new memory t).run ntop6 events).1[j]? =
        ((Ids.new memory' t').run ntop6 events').1[k]? ↔
      (named events t none)[j]? = (named events' t' none)[k]?) ∧
    ((Ids.new memory t).run ntop6 events).2.Inside := by
  obtain ⟨htexts, hinside⟩ := (Ids.keep_new ntop6 memory t).run events
  obtain ⟨htexts', -⟩ := (Ids.keep_new ntop6 memory' t').run events'
  refine ⟨fun j k => ?_, hinside⟩
  rw [htexts, htexts', List.getElem?_map, List.getElem?_map]
  have hknown : ∀ {es : List IdEvent} {t : Protocol}, ∀ n ∈ named es t none, known n.2 = n.2 :=
    fun n hn => known_of_mem_named (fun _ hp => absurd hp (Option.not_mem_none _)) hn
  rcases hn : (named events t none)[j]? with - | n
  · rcases (named events' t' none)[k]? with - | n'
    · exact iff_of_true rfl rfl
    · exact iff_of_false (Option.some_ne_none _).symm (Option.some_ne_none _).symm
  · rcases hn' : (named events' t' none)[k]? with - | n'
    · exact iff_of_false (Option.some_ne_none _) (Option.some_ne_none _)
    · rw [Option.map_some, Option.map_some, Option.some.injEq, Option.some.injEq, idText_inj,
        hknown n (List.mem_of_getElem? hn), hknown n' (List.mem_of_getElem? hn'), Prod.ext_iff]

/-! ## The full form -/

def hexDigit (n : ℕ) : Byte := UInt8.ofNat (if n < 10 then 48 + n else 87 + n)

def hexByte (b : Byte) : List Byte := [hexDigit (b.toNat / 16), hexDigit (b.toNat % 16)]

/-- Eight groups of four digits. -/
def fullText (addr : Fin 16 → Byte) : List Byte :=
  [colon].intercalate (List.ofFn fun i : Fin 8 =>
    hexByte (addr ⟨2 * i, by omega⟩) ++ hexByte (addr ⟨2 * i + 1, by omega⟩))

theorem isHexDigit_hexDigit {n : ℕ} (h : n < 16) : isHexDigit (hexDigit n) = true := by
  revert n
  decide

theorem isHexDigit_of_mem_hexByte {b d : Byte} (h : d ∈ hexByte b) : isHexDigit d = true := by
  have hb := UInt8.toNat_lt b
  simp only [hexByte, List.mem_cons, List.not_mem_nil, or_false] at h
  rcases h with rfl | rfl
  · exact isHexDigit_hexDigit (by omega)
  · exact isHexDigit_hexDigit (by omega)

theorem hexByte_injective : Function.Injective hexByte := by
  have hdigit : ∀ m < 16, ∀ n < 16, hexDigit m = hexDigit n → m = n := by decide
  intro b b' h
  have hb := UInt8.toNat_lt b
  have hb' := UInt8.toNat_lt b'
  simp only [hexByte, List.cons.injEq, and_true] at h
  have h1 := hdigit _ (by omega) _ (by omega) h.1
  have h2 := hdigit _ (by omega) _ (by omega) h.2
  exact UInt8.toNat_inj.mp (by omega)

theorem fullText_eq (addr : Fin 16 → Byte) : (fullText addr).splitOn colon =
    List.ofFn fun i : Fin 8 =>
      hexByte (addr ⟨2 * i, by omega⟩) ++ hexByte (addr ⟨2 * i + 1, by omega⟩) := by
  refine List.splitOn_intercalate colon (fun l hl hmem => ?_) (by simp)
  obtain ⟨i, rfl⟩ := List.mem_ofFn.mp hl
  have hhex : isHexDigit colon = true := by
    rcases List.mem_append.mp hmem with h | h
    · exact isHexDigit_of_mem_hexByte h
    · exact isHexDigit_of_mem_hexByte h
  exact absurd hhex (by decide)

/-- Every address has a full form, and so there is such a function as `inet_ntop`. -/
def Ntop6.full : Ntop6 where
  text := fullText
  injective addr addr' h := by
    have hparts := (fullText_eq addr).symm.trans
      ((congrArg (List.splitOn colon) h).trans (fullText_eq addr'))
    have hpair : ∀ i : Fin 8, addr ⟨2 * i, by omega⟩ = addr' ⟨2 * i, by omega⟩ ∧
        addr ⟨2 * i + 1, by omega⟩ = addr' ⟨2 * i + 1, by omega⟩ := fun i => by
      obtain ⟨h1, h2⟩ := List.append_inj (congrFun (List.ofFn_injective hparts) i) rfl
      exact ⟨hexByte_injective h1, hexByte_injective h2⟩
    funext j
    rcases Nat.even_or_odd' j.val with ⟨i, hi | hi⟩
    · have hj : j = ⟨2 * (⟨i, by omega⟩ : Fin 8).val, by omega⟩ := Fin.ext hi
      rw [hj]
      exact (hpair _).1
    · have hj : j = ⟨2 * (⟨i, by omega⟩ : Fin 8).val + 1, by omega⟩ := Fin.ext hi
      rw [hj]
      exact (hpair _).2
  length_lt addr := by
    simp [fullText, List.intercalate, List.ofFn_succ, hexByte]
  chars addr b hb := by
    rcases mem_intercalate hb with h | ⟨l, hl, hbl⟩
    · exact .inr (.inl h)
    · obtain ⟨i, rfl⟩ := List.mem_ofFn.mp hl
      rcases List.mem_append.mp hbl with h | h
      · exact .inl (isHexDigit_of_mem_hexByte h)
      · exact .inl (isHexDigit_of_mem_hexByte h)
  colon_mem addr := by
    simp [fullText, List.intercalate, List.ofFn_succ]

end Ducq
