import Ducq.Core.State
import Ducq.Inet.Socket
import Ducq.Ws.Header

/-!
# `ducq_ws.c`: receiving and sending frames

An endpoint owns one piece of memory, `ws->buf`: 14 bytes of header and then room for a
message.  Every frame that is received leaves its header there, every frame that is
sent writes its header over it, and a client masks what it sends in the bytes behind
it.  The memory is therefore part of the state, and no call starts from a clean one.

`_recv` is cut in three.  `wsRecvHeader` reads the header; the size check stands
between it and `wsRecvPayload`, which reads the payload into the caller's buffer,
unmasks it, and terminates it; `wsRecvOpcode` is the answer to the opcode.  A client's
mask comes from `rand`, seeded with the time, and is an argument here.
-/

namespace Ducq

open CMemory CNumber ByteStream

/-- `ws_state_t`. -/
inductive WsState where
  | connecting | open | failed | closing | closed
  deriving DecidableEq

/-- `struct ducq_ws`: the descriptor is the socket behind it. -/
structure DucqWs where
  fd : Socket
  buf : Buffer
  state : WsState
  isClient : Bool

/-! ## Sending -/

/-- `ws_send(ws, buf, count)`, for `payload` the `count` bytes at `buf` and `mask` the
mask a client makes. -/
def wsSend (mask : WsMask) (payload : List Byte) (ws : DucqWs) : DucqState × DucqWs :=
  let hdr := wsSetLen ws.buf payload.length
  let hdr := hdr.put 1 (hdr.cells 1 &&& ~~~wsMask)
  if ws.isClient ∧ payload.length > ducqMsgsz then (.emsgsize, { ws with buf := hdr })
  else
    -- a client changes to the inner buffer, since the caller's is const
    let hdr := if ws.isClient then
        wsMaskMessage mask wsHeaderSize
          (wsSetMsk (hdr.store wsHeaderSize payload) mask) payload.length
      else hdr
    let payload := if ws.isClient then hdr.slice wsHeaderSize payload.length else payload
    match writen (hdr.slice 0 (wsGetHdrLen hdr)) ws.fd with
    | (n, fd) =>
      if n ≠ wsGetHdrLen hdr then (.ewrite, { ws with fd := fd, buf := hdr })
      else match writen payload fd with
        | (n, fd) =>
          (if n ≠ payload.length then .ewrite else .ok, { ws with fd := fd, buf := hdr })

/-- `_send` of the WebSocket table. -/
def wsTextSend (mask : WsMask) (payload : List Byte) (ws : DucqWs) : DucqState × DucqWs :=
  wsSend mask payload { ws with buf := ws.buf.put 0 (wsFin ||| wsText) }

/-! ## Receiving -/

/-- The header of a frame: whether all of it could be read. -/
def wsRecvHeader (ws : DucqWs) : Bool × DucqWs :=
  match readn 2 0 ws.fd ws.buf with
  | (n, fd, buf) =>
    if n < 2 then (false, { ws with fd := fd, buf := buf })
    else
      let hdrLen := wsGetHdrLen buf
      if hdrLen > 2 then
        match readn (hdrLen - 2) 2 fd buf with
        | (n, fd, buf) => (¬ n < hdrLen - 2, { ws with fd := fd, buf := buf })
      else (true, { ws with fd := fd, buf := buf })

/-- The answer to the opcode of a frame whose `count` bytes of payload are in the
caller's buffer. -/
def wsRecvOpcode (mask : WsMask) (count : ℕ) (ws : DucqWs) (b : Buffer) :
    DucqState × DucqWs :=
  if ws.buf.cells 0 &&& wsOpcode = wsClose then (.econnclosed, { ws with state := .closing })
  else if ws.buf.cells 0 &&& wsOpcode = wsPing then
    match wsSend mask (b.slice 0 count)
      { ws with buf := ws.buf.put 0 (wsFin ||| wsPong) } with
    | (state, ws) => (if state ≠ .ok then state else .protocol, ws)
  else if ws.buf.cells 0 ≠ wsFin ||| wsText then (.enoimpl, ws)
  else (.ok, ws)

/-- The payload of a frame of `msgLen` bytes: the state, `*count`, and what is left. -/
def wsRecvPayload (mask : WsMask) (msgLen : ℕ) (ws : DucqWs) (b : Buffer) :
    DucqState × ℕ × DucqWs × Buffer :=
  match readn msgLen 0 ws.fd b with
  | (n, fd, b) =>
    let ws := { ws with fd := fd }
    let count := toSizeT n
    if count ≠ msgLen then (.eread, count, ws, b)
    else
      let b := if ws.isClient then b else wsMaskMessage (wsMaskAt ws.buf) 0 b count
      let b := b.put count 0
      match wsRecvOpcode mask count ws b with
      | (state, ws) => (state, count, ws, b)

/-- `_recv` of the WebSocket table: the state, `*count`, and what is left.  The limit
is a `size_t`. -/
def wsRecv (mask : WsMask) (count : ℕ) (ws : DucqWs) (b : Buffer) :
    DucqState × ℕ × DucqWs × Buffer :=
  match wsRecvHeader ws with
  | (false, ws) => (.eread, count, ws, b)
  | (true, ws) =>
    if wsGetLen ws.buf > (count + 1) % 2 ^ 64 then (.emsgsize, count, ws, b)
    else wsRecvPayload mask (wsGetLen ws.buf) ws b

/-! ## Endpoints and the kernel -/

/-- `ducq_new_ws_connection(fd)`: the endpoint a server has, with clean memory. -/
def ducqNewWsConnection (fd : Socket) : DucqWs := ⟨fd, Buffer.fresh fun _ => 0, .closed, false⟩

/-- The endpoint at the start of a call: what arrives, and how the writes end. -/
def DucqWs.over (ws : DucqWs) (rx : List Arrival) (wx : List Acceptance) : DucqWs :=
  { ws with fd := { ws.fd with rx := rx, tx := [], wx := wx } }

/-- The kernel has the bytes in flight for a call, cut and interrupted in any way, and
will take what the call writes. -/
structure Offers (flight : List Byte) (rx : List Arrival) (wx : List Acceptance) : Prop where
  bytes_eq : bytes rx = flight
  no_failure : hardFailure rx = none
  writable : Writable wx

end Ducq
