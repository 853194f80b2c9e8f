import Ducq.Lib.Printf
import Ducq.Reactor.Broadcast

/-!
# Logging and acknowledging

`ducq_reactor_log` hands the line to the logger, which is not part of the reactor, and
if the log route is allowed it formats the line a second time and sends it to every
client whose route is exactly `LOG`.  A client that cannot be reached is deleted, and so
a log line can take away a client that whoever logs is still holding.

The size that goes with the line is the length of the whole text, not of what the
buffer holds of it; `logMsg` keeps the two apart.  A format its arguments do not fit
has no meaning in C, and is recorded as such.

`ducq_send_ack` writes its text into a local buffer; every text fits
(`length_ackText_lt`), so what is sent is the text.
-/

namespace Ducq

open CMemory CNumber CPrintf

/-! ## The log -/

/-- `enum ducq_log_level`. -/
inductive DucqLogLevel where
  | debug | info | warning | error
  deriving DecidableEq

/-- `ducq_level_tostr`. -/
def ducqLevelTostr : DucqLogLevel → List Byte
  | .debug => ascii "debug"
  | .info => ascii "info"
  | .warning => ascii "warning"
  | .error => ascii "error"

/-- `DUCQ_LOG_ROUTE`. -/
def ducqLogRoute : List Byte := ascii "LOG"

/-- `struct msg`. -/
structure LogMsg where
  buffer : Buffer
  size : ℕ

/-- `_do_send_to_log_route`. -/
def doSendToLogRoute (env : Env) : DucqLoopF LogMsg :=
  sendToMatching env (fun _ route => cstr route = ducqLogRoute)
    (fun msg => msg.buffer.slice 0 msg.size) id

/-- The line as it is formatted for the log route.  The room left for the second part
is a `size_t`. -/
def logMsg (env : Env) (level : DucqLogLevel) (functionName : List Byte)
    (senderId : Option (List Byte)) (text : List Byte) : LogMsg :=
  let buffer := Buffer.fresh fun i => if i < ducqMsgsz then 0 else env.stack i
  let head := ducqLevelTostr level ++ ascii "," ++ functionName ++ ascii "," ++
    strText senderId ++ ascii ","
  let buffer := snprintf buffer 0 ducqMsgsz head
  let buffer := snprintf buffer head.length (toSizeT ((ducqMsgsz : ℤ) - head.length)) text
  ⟨buffer, head.length + text.length⟩

/-- What is sent of it. -/
def logLine (env : Env) (level : DucqLogLevel) (functionName : List Byte)
    (senderId : Option (List Byte)) (text : List Byte) : List Byte :=
  let msg := logMsg env level functionName senderId text
  msg.buffer.slice 0 msg.size

/-- `ducq_reactor_log`. -/
def ducqReactorLog (env : Env) (level : DucqLogLevel) (functionName : List Byte)
    (senderId fmt : Option (List Byte)) (args : List Arg) (w : World) : World :=
  match fmt.bind fun fmt => format fmt args with
  | none => w.record [.undefined]
  | some text =>
    if w.reactor.allowLogRoute = false then w
    else (ducqReactorLoop env (doSendToLogRoute env)
      (logMsg env level functionName senderId text) w).2.2

/-- `ducq_log`, in the function `functionName` and for the client `d`. -/
def ducqLog (env : Env) (d : DucqI) (level : DucqLogLevel) (functionName : List Byte)
    (fmt : Option (List Byte)) (args : List Arg) (w : World) : World :=
  let (id, w) := ducqId env d w
  ducqReactorLog env level functionName id fmt args w

/-- What a log line selects: the clients on the log route, if it is allowed. -/
def logSelects (allowed : Bool) (route : List Byte) : Bool := allowed && cstr route = ducqLogRoute

/-- The client of a slot is sent log lines. -/
def OnLog (env : Env) (w : World) (i : Fin ducqMaxConnections) : Prop :=
  Selected env (logSelects w.reactor.allowLogRoute) w i

instance (env : Env) (w : World) (i : Fin ducqMaxConnections) : Decidable (OnLog env w i) :=
  inferInstanceAs (Decidable (Selected _ _ _ _))

/-- A log line is the end of the client. -/
def LostToLine (env : Env) (w : World) (i : Fin ducqMaxConnections) : Prop :=
  OnLog env w i ∧ ¬ Reached env w i

instance (env : Env) (w : World) (i : Fin ducqMaxConnections) : Decidable (LostToLine env w i) :=
  inferInstanceAs (Decidable (_ ∧ _))

variable {isCode : ℕ → Prop} {env : Env} {w w' : World}

/-- A line that is one string has its argument. -/
theorem format_string (text : Option (List Byte)) :
    ((some (ascii "%s")).bind fun fmt => format fmt [.str text]) = some (strText text) := by
  simp [format, formatFrom, ascii, percent]

/-- **A log line is a broadcast to the log route.** -/
theorem ducqReactorLog_spec (h : TableInv isCode w) (level : DucqLogLevel)
    (functionName : List Byte) (senderId : Option (List Byte)) {fmt : Option (List Byte)}
    {args : List Arg} {text : List Byte}
    (htext : (fmt.bind fun fmt => format fmt args) = some text) :
    (∀ j, (ducqReactorLog env level functionName senderId fmt args w).conn j =
      if Selected env (logSelects w.reactor.allowLogRoute) w j ∧ ¬ Reached env w j then
        (w.conn j).freed
      else w.conn j) ∧
    (ducqReactorLog env level functionName senderId fmt args w).calls = w.calls ++
      (List.finRange ducqMaxConnections).flatMap
        (slotCalls env (logSelects w.reactor.allowLogRoute)
          (logLine env level functionName senderId text) w) := by
  rw [ducqReactorLog, htext]
  dsimp only
  cases hallow : w.reactor.allowLogRoute with
  | false =>
    have hnot : ∀ j, ¬ Selected env (logSelects false) w j := fun j hj => nomatch hj.2
    refine ⟨fun j => ?_, ?_⟩
    · rw [if_pos rfl, if_neg fun hc => hnot j hc.1]
    · have hnone : ∀ j ∈ List.finRange ducqMaxConnections, slotCalls env (logSelects false)
          (logLine env level functionName senderId text) w j = [] := fun j _ => by
        rw [slotCalls, if_neg (hnot j)]
      rw [if_pos rfl, List.flatMap_eq_nil_iff.mpr hnone, List.append_nil]
  | true =>
    obtain ⟨control', w', hrun, hconn, hcalls, -⟩ :=
      @broadcast_spec isCode env LogMsg (fun _ route => cstr route = ducqLogRoute)
        (fun msg => msg.buffer.slice 0 msg.size) id (fun _ => rfl) (fun _ => rfl) w h
        (logMsg env level functionName senderId text)
    rw [if_neg (by decide), doSendToLogRoute, hrun]
    exact ⟨hconn, hcalls⟩

/-- A client on another route does not notice. -/
theorem conn_ducqReactorLog (h : TableInv isCode w) {i : Fin ducqMaxConnections}
    (hi : cstr (routePtr env w i) ≠ ducqLogRoute) (level : DucqLogLevel)
    (functionName : List Byte) (senderId fmt : Option (List Byte)) (args : List Arg) :
    (ducqReactorLog env level functionName senderId fmt args w).conn i = w.conn i := by
  cases htext : fmt.bind fun fmt => format fmt args with
  | none =>
    rw [ducqReactorLog, htext]
    rfl
  | some text =>
    obtain ⟨hconn, -⟩ :=
      @ducqReactorLog_spec isCode env w h level functionName senderId fmt args text htext
    have hnot : ¬ Selected env (logSelects w.reactor.allowLogRoute) w i := fun hs => by
      have hroute := (Bool.and_eq_true _ _ ▸ hs.2).2
      exact hi (of_decide_eq_true hroute)
    rw [hconn, if_neg fun hc => hnot hc.1]

theorem onlyFrees_ducqReactorLog (level : DucqLogLevel) (functionName : List Byte)
    (senderId fmt : Option (List Byte)) (args : List Arg) (w : World) :
    OnlyFrees w (ducqReactorLog env level functionName senderId fmt args w) := by
  unfold ducqReactorLog
  split
  · exact OnlyFrees.refl w
  · split_ifs
    · exact OnlyFrees.refl w
    · exact OnlyFrees.ducqReactorLoop (fun d r c w => onlyFrees_sendToMatching d r c w) _ w

theorem conn_ducqLog (h : TableInv isCode w) {i : Fin ducqMaxConnections}
    (hi : cstr (routePtr env w i) ≠ ducqLogRoute) (d : DucqI) (level : DucqLogLevel)
    (functionName : List Byte) (fmt : Option (List Byte)) (args : List Arg) :
    (ducqLog env d level functionName fmt args w).conn i = w.conn i := by
  have hconn := conn_ducqId env d w
  have hid := @conn_ducqReactorLog isCode env _ (h.onlyFrees (OnlyFrees.ducqId env d w)) i
    (by rwa [routePtr, hconn]) level functionName (ducqId env d w).1 fmt args
  rw [← hconn i, ← hid]
  rfl

theorem onlyFrees_ducqLog (d : DucqI) (level : DucqLogLevel) (functionName : List Byte)
    (fmt : Option (List Byte)) (args : List Arg) (w : World) :
    OnlyFrees w (ducqLog env d level functionName fmt args w) :=
  (OnlyFrees.ducqId env d w).trans (onlyFrees_ducqReactorLog _ _ _ _ _ _)

/-- Whether the line is the end of a client depends on its slot, on what was sent to it
and on whether the log route is allowed. -/
theorem lostToLine_congr {i : Fin ducqMaxConnections} (hconn : w'.conn i = w.conn i)
    (hcount : sendCount (w.conn i).word w'.calls = sendCount (w.conn i).word w.calls)
    (hallow : w'.reactor.allowLogRoute = w.reactor.allowLogRoute) :
    LostToLine env w' i ↔ LostToLine env w i := by
  rw [LostToLine, LostToLine, OnLog, OnLog, Reached, Reached, hallow, selected_congr hconn, hconn,
    hcount]

/-- Who is still there after a log line. -/
theorem registered_ducqLog_iff (h : TableInv isCode w) {i : Fin ducqMaxConnections}
    (hi : (w.conn i).IsClient) (d : DucqI) (level : DucqLogLevel) (functionName : List Byte)
    {fmt : Option (List Byte)} {args : List Arg} {text : List Byte}
    (htext : (fmt.bind fun fmt => format fmt args) = some text) :
    Registered (ducqLog env d level functionName fmt args w) (w.conn i).word ↔
      ¬ LostToLine env w i := by
  have hid := @conn_ducqId env d w
  have hcount : ∀ d', sendCount d' (ducqId env d w).2.calls = sendCount d' w.calls := fun d' => by
    unfold ducqId
    split_ifs
    · rfl
    · rw [World.calls_record, sendCount_append]
      rfl
  have h' : TableInv isCode (ducqId env d w).2 := h.onlyFrees (OnlyFrees.ducqId env d w)
  obtain ⟨hconn, -⟩ :=
    @ducqReactorLog_spec isCode env _ h' level functionName (ducqId env d w).1 fmt args text htext
  refine h.registered_iff (onlyFrees_ducqLog d level functionName fmt args w) hi ?_
  have hlost := @lostToLine_congr env w (ducqId env d w).2 i (hid i) (hcount _)
    (by rw [reactor_ducqId])
  rw [show ducqLog env d level functionName fmt args w = ducqReactorLog env level functionName
    (ducqId env d w).1 fmt args (ducqId env d w).2 from rfl, hconn, hid]
  exact if_congr hlost rfl rfl

/-! ## Acknowledgements -/

/-- The text of an acknowledgement. -/
def ackText (state : DucqState) : List Byte :=
  if state = .ok then ascii "ACK"
  else ascii "NACK *\n" ++ intText state.code ++ ascii "\n" ++ ducqStateTostr state.code

/-- Every text fits into its buffer. -/
theorem length_ackText_lt (state : DucqState) : (ackText state).length < 128 := by
  cases state <;> decide

/-- `ducq_send_ack`. -/
def ducqSendAck (env : Env) (d : DucqI) (state : DucqState) (w : World) : DucqState × World :=
  let msg := snprintf (Buffer.fresh env.stack) 0 128 (ackText state)
  ducqSend env d (msg.slice 0 (ackText state).length) w

/-- **What is sent is the text.** -/
theorem ducqSendAck_eq (env : Env) (d : DucqI) (state : DucqState) (w : World) :
    ducqSendAck env d state w = ducqSend env d (ackText state) w := by
  have hlt := length_ackText_lt state
  have hslice : (snprintf (Buffer.fresh env.stack) 0 128 (ackText state)).slice 0
      (ackText state).length = ackText state := by
    rw [snprintf, if_neg (by decide), List.take_of_length_le (by omega),
      Buffer.slice_store_drop _ (by simp), List.drop_zero, List.take_left]
  rw [ducqSendAck, hslice]

theorem conn_ducqSendAck (d : DucqI) (state : DucqState) (w : World)
    (i : Fin ducqMaxConnections) : (ducqSendAck env d state w).2.conn i = w.conn i := by
  rw [ducqSendAck_eq, conn_ducqSend]

theorem onlyFrees_ducqSendAck (d : DucqI) (state : DucqState) (w : World) :
    OnlyFrees w (ducqSendAck env d state w).2 := fun i => Or.inl (conn_ducqSendAck d state w i)

end Ducq
