import Ducq.Lib.Number

/-!
# `ducq.h`: limits and states

The compile-time limits, with the values `ducq.h` gives them when the build does not,
and `ducq_state`.  A state is an enumerator here and its number where the code treats
it as one: the transports return negated states as an `int`, and the texts of a state
are looked up by number (`sanitizeState` brings any number inside the table).
-/

namespace Ducq

open CMemory CNumber

/-- `DUCQ_MSGSZ`. -/
abbrev ducqMsgsz : ℕ := 256

/-- `DUCQ_MAX_CONNECTIONS`. -/
abbrev ducqMaxConnections : ℕ := 25

/-- `DUCQ_MAX_ROUTE_LEN`. -/
abbrev ducqMaxRouteLen : ℕ := 100

/-- `DUCQ_MAX_CHANNELS`. -/
abbrev ducqMaxChannels : ℕ := 25

/-- `ducq_state`, in the order of `_foreach_state`. -/
inductive DucqState where
  | ok | protocol | nack | error | enull | estdc | ememfail | efile | ecommlayer
  | econnect | econnclosed | ewrite | eread | eclose | etimeout | emsginv | emsgsize
  | enocmd | eack | enotfound | enoimpl | emax | elua | unknown
  deriving DecidableEq, Repr

namespace DucqState

/-- The states in order. -/
def all : List DucqState :=
  [.ok, .protocol, .nack, .error, .enull, .estdc, .ememfail, .efile, .ecommlayer,
    .econnect, .econnclosed, .ewrite, .eread, .eclose, .etimeout, .emsginv, .emsgsize,
    .enocmd, .eack, .enotfound, .enoimpl, .emax, .elua, .unknown]

/-- The number of an enumerator. -/
def code (s : DucqState) : ℕ := s.ctorIdx

/-- The enumerator of a number; there is none past the last. -/
def ofCode (n : ℕ) : DucqState := all.getD n .unknown

@[simp] theorem ofCode_code (s : DucqState) : ofCode s.code = s := by
  cases s <;> rfl

theorem code_injective : Function.Injective code := by
  intro s t h
  rw [← ofCode_code s, h, ofCode_code]

/-- Only success is zero. -/
theorem code_pos {s : DucqState} (h : s ≠ .ok) : 0 < s.code := by
  rw [Nat.pos_iff_ne_zero]
  exact fun h0 => h (code_injective h0)

end DucqState

/-- `state_str`: the name and the text of each state. -/
def stateStr : List (String × String) :=
  [("ok", "ok"),
    ("DUCQ_PROTOCOL", "protocol-layer message (not an error)"),
    ("DUCQ_NACK", "received NACK from server"),
    ("DUCQ_ERROR", "error"),
    ("DUCQ_ENULL", "null parameter"),
    ("DUCQ_ESTDC", "std c lib error"),
    ("DUCQ_EMEMFAIL", "os memory allocation failed"),
    ("DUCQ_EFILE", "os file io error"),
    ("DUCQ_ECOMMLAYER", "os communication layer error"),
    ("DUCQ_ECONNECT", "could not connect to server"),
    ("DUCQ_ECONNCLOSED", "connection closed"),
    ("DUCQ_EWRITE", "communication write error"),
    ("DUCQ_EREAD", "communication read error"),
    ("DUCQ_ECLOSE", "error closing connection"),
    ("DUCQ_ETIMEOUT", "timeout"),
    ("DUCQ_EMSGINV", "message invalid"),
    ("DUCQ_EMSGSIZE", "message too big"),
    ("DUCQ_ENOCMD", "command unknown"),
    ("DUCQ_EACK", "no ack received"),
    ("DUCQ_ENOTFOUND", "connection not found"),
    ("DUCQ_ENOIMPL", "not implemented yet"),
    ("DUCQ_EMAX", "collection reached maximum count"),
    ("DUCQ_ELUA", "lua error"),
    ("DUCQ_UNKNOWN", "unknown error")]

/-- `_sanitize_state`: an index into the table, from any `int`. -/
def sanitizeState (state : ℤ) : ℤ :=
  let state := if state < 0 then wrap32 (-state) else state
  let last : ℤ := stateStr.length - 1
  if state > last then last else state

/-- `ducq_state_tostr`. -/
def ducqStateTostr (state : ℤ) : List Byte :=
  ascii (stateStr.getD (sanitizeState state).toNat ("", "")).2

end Ducq
