import Ducq.Commands.Logged

/-!
# The commands that only reply

`PING`, `PONG`, `time`, `epoch`, `lsconn` and `list_subscriptions` leave the table alone.
The clock, the time as text, and which transports can frame a listing are not decided
here and stand in `CommandEnv`.

`ducq_log` is a macro whose third argument is the format.  `PING` and `PONG` put the
payload of the message there, and so what they log fits exactly if that payload exists
and asks for nothing (`fits_payload_iff`).  Every other format is a constant.
-/

namespace Ducq

open CMemory CNumber CPrintf

/-- What the commands do not decide beside what the reactor does not: whether a client's
transport has `parts` and `end`, which are sends there and not implemented elsewhere, what
`ducq_getnow` leaves in its buffer, and `time(NULL)`. -/
structure CommandEnv extends Env where
  frames : DucqI → Bool
  timestamp : CharArray 20
  time : ℤ

/-- `ducq_parts` and `ducq_end`, by the word they send. -/
def ducqFrame (env : CommandEnv) (word : List Byte) (d : DucqI) (w : World) :
    DucqState × World :=
  if d = 0 then (.enull, w)
  else if env.frames d then ducqSend env.toEnv d word w
  else (.enoimpl, w)

/-- `ducq_parts`. -/
def ducqParts (env : CommandEnv) : DucqI → World → DucqState × World :=
  ducqFrame env (ascii "PARTS")

/-- `ducq_end`. -/
def ducqEnd (env : CommandEnv) : DucqI → World → DucqState × World :=
  ducqFrame env (ascii "END")

/-- `snprintf` of a text into a local `char[size]` with no initial value, and as many
bytes from its start as the text is long. -/
def formatted (env : Env) (size : ℕ) (text : List Byte) : List Byte :=
  (snprintf (Buffer.fresh env.stack) 0 size text).slice 0 text.length

namespace Logged

/-! ## `PING` and `PONG` -/

/-- The log line of `PING` and of `PONG`: the payload is the format. -/
def logPayload (env : CommandEnv) (functionName : List Byte) (d : DucqI) (message : List Byte)
    (s : Logged) : Logged :=
  s.ducqLog env.toEnv d .debug functionName ((ducqParsePayload message).map cstr) []

/-- `PING`. -/
def ping (env : CommandEnv) (d : DucqI) (message : List Byte) (size : ℕ) (s : Logged) :
    DucqState × Logged :=
  (s.logPayload env (ascii "PING") d message).act
    (ducqSend env.toEnv d ((message.set 1 79).take size))

/-- `PONG`. -/
def pong (env : CommandEnv) (d : DucqI) (message : List Byte) (_ : ℕ) (s : Logged) :
    DucqState × Logged :=
  (.ok, s.logPayload env (ascii "PONG") d message)

/-! ## `time` and `epoch` -/

/-- `gettime`. -/
def gettime (env : CommandEnv) (d : DucqI) (_ : List Byte) (_ : ℕ) (s : Logged) :
    DucqState × Logged :=
  (s.ducqLog env.toEnv d .info (ascii "gettime") (some (ascii "%s"))
    [.str (some env.timestamp.bytes)]).act (ducqSend env.toEnv d env.timestamp.bytes)

/-- `epoch`. -/
def epoch (env : CommandEnv) (d : DucqI) (_ : List Byte) (_ : ℕ) (s : Logged) :
    DucqState × Logged :=
  let text := intText env.time
  let now := snprintf (Buffer.fresh fun i => if i < 25 then 0 else env.stack i) 0 25 text
  (s.ducqLog env.toEnv d .info (ascii "epoch") (some (ascii "%s"))
    [.str (some (now.slice 0 25))]).act (ducqSend env.toEnv d (now.slice 0 text.length))

/-! ## `lsconn` and `list_subscriptions` -/

/-- The line of a client in a listing. -/
def listLine (id : Option (List Byte)) (route : List Byte) : List Byte :=
  strText id ++ ascii "," ++ cstr route ++ ascii "\n"

/-- `_list` of `lsconn`. -/
def listConnection (env : Env) : DucqLoopF DucqI := fun client route ducq w =>
  let (id, w) := ducqId env client w
  let (state, w) := ducqSend env ducq (formatted env ducqMsgsz (listLine id route)) w
  (if state ≠ .ok then ducqLoopBreak else ducqLoopContinue, ducq, w)

/-- `_list_connections`. -/
def listConnections (env : CommandEnv) (d : DucqI) (w : World) : DucqState × World :=
  let (state, w) := ducqParts env d w
  if state ≠ .ok then (state, w)
  else
    let (control, _, w) := ducqReactorLoop env.toEnv (listConnection env.toEnv) d w
    if control ≠ 0 then (.ewrite, w) else ducqEnd env d w

/-- `lsconn`. -/
def lsconn (env : CommandEnv) (d : DucqI) (_ : List Byte) (_ : ℕ) (s : Logged) :
    DucqState × Logged :=
  let (state, s) := s.act (listConnections env d)
  let level := if state ≠ .ok then DucqLogLevel.warning else .info
  let (id, s) := s.act (ducqId env.toEnv d)
  (state, s.ducqReactorLog env.toEnv level (ascii "lsconn") id (some (ascii "%s"))
    [.str (some (ducqStateTostr state.code))])

/-- `struct list_ctx`: `buffer` as an offset into the payload, and the payload. -/
structure ListCtx where
  payload : Buffer
  buffer : ℕ
  left : ℕ

/-- `_list` of `list_subscriptions`. -/
def listSubscription (env : Env) : DucqLoopF ListCtx := fun d route list w =>
  let (id, w) := ducqId env d w
  let text := listLine id route
  let left := toSizeT ((list.left : ℤ) - text.length)
  (if 0 < left then ducqLoopContinue else ducqLoopBreak,
    ⟨snprintf list.payload list.buffer list.left text, list.buffer + text.length, left⟩, w)

/-- `list_subscriptions`. -/
def listSubscriptions (env : CommandEnv) (d : DucqI) (_ : List Byte) (_ : ℕ) (s : Logged) :
    DucqState × Logged :=
  let s := s.ducqLog env.toEnv d .info (ascii "list_subscriptions") (some []) []
  let payload := Buffer.fresh fun i => if i < ducqMsgsz then 0 else env.stack i
  let (list, s) := s.act fun w =>
    (ducqReactorLoop env.toEnv (listSubscription env.toEnv) ⟨payload, 0, ducqMsgsz⟩ w).2
  let len := toSizeT ((ducqMsgsz : ℤ) - list.left)
  (.ok, (s.act (ducqSend env.toEnv d (list.payload.slice 0 len))).2)

/-! ## What they log -/

variable {env : CommandEnv} {d : DucqI}

/-- The payload of a message is a format that asks for nothing. -/
def QuietPayload (message : List Byte) : Prop :=
  ∃ payload, ducqParsePayload message = some payload ∧ percentsPaired (cstr payload) = true

/-- **The payload as a format** fits exactly if it is there and its every `%` is one of
a pair. -/
theorem fits_payload_iff (level : DucqLogLevel) (functionName : List Byte)
    (id : Option (List Byte)) (message : List Byte) :
    LogCall.Fits ⟨level, functionName, id, (ducqParsePayload message).map cstr, []⟩ ↔
      QuietPayload message := by
  constructor
  · rintro ⟨f, hf, hspecs⟩
    obtain ⟨payload, hpayload, rfl⟩ := Option.map_eq_some_iff.mp hf
    exact ⟨payload, hpayload, (specs_eq_nil_iff _).mp hspecs⟩
  · rintro ⟨payload, hpayload, hpaired⟩
    exact ⟨cstr payload, congrArg (Option.map cstr) hpayload, (specs_eq_nil_iff _).mpr hpaired⟩

theorem logs_logPayload_iff (functionName message : List Byte) (s : Logged) :
    Logs LogCall.Fits s (s.logPayload env functionName d message) ↔ QuietPayload message := by
  have hlogs : (s.logPayload env functionName d message).logs = s.logs ++ [_] :=
    logs_ducqLog env.toEnv d .debug functionName _ [] s
  rw [Logs.iff_of_eq hlogs, List.forall_mem_singleton]
  exact fits_payload_iff _ _ _ _

/-- **Any other payload is undefined behaviour.** -/
theorem undefined_mem_logPayload {message : List Byte} (h : ¬ QuietPayload message)
    (functionName : List Byte) (s : Logged) :
    Call.undefined ∈ (s.logPayload env functionName d message).world.calls := by
  have hnone : ((ducqParsePayload message).map cstr).bind (fun fmt => format fmt []) = none := by
    rw [← fits_payload_iff .debug functionName none, LogCall.fits_iff_isSome rfl] at h
    exact Option.not_isSome_iff_eq_none.mp h
  rw [logPayload, world_ducqLog, Ducq.ducqLog]
  dsimp only
  rw [Ducq.ducqReactorLog, hnone]
  exact List.mem_append_right _ List.mem_cons_self

theorem logs_ping_iff (message : List Byte) (size : ℕ) (s : Logged) :
    Logs LogCall.Fits s (ping env d message size s).2 ↔ QuietPayload message := by
  rw [← @logs_logPayload_iff env d (ascii "PING")]
  exact Iff.rfl

theorem logs_pong_iff (message : List Byte) (size : ℕ) (s : Logged) :
    Logs LogCall.Fits s (pong env d message size s).2 ↔ QuietPayload message :=
  logs_logPayload_iff _ _ _

theorem logs_gettime (message : List Byte) (size : ℕ) (s : Logged) :
    Logs LogCall.Fits s (gettime env d message size s).2 :=
  ((Logs.refl s).fits env.toEnv d _ _ rfl).act _

theorem logs_epoch (message : List Byte) (size : ℕ) (s : Logged) :
    Logs LogCall.Fits s (epoch env d message size s).2 :=
  ((Logs.refl s).fits env.toEnv d _ _ rfl).act _

theorem logs_lsconn (message : List Byte) (size : ℕ) (s : Logged) :
    Logs LogCall.Fits s (lsconn env d message size s).2 :=
  (((Logs.refl s).act _).act _).ducqReactorLog ⟨_, rfl, rfl⟩

theorem logs_listSubscriptions (message : List Byte) (size : ℕ) (s : Logged) :
    Logs LogCall.Fits s (listSubscriptions env d message size s).2 := by
  have hlog := @Logs.fits s s (Logs.refl s) env.toEnv d .info (ascii "list_subscriptions")
    [] [] rfl
  exact hlog.trans (Logs.of_eq rfl)

end Logged

end Ducq
