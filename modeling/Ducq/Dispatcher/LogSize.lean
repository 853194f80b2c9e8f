import Ducq.Dispatcher.Balance

/-!
# How much of a log line there is to send

A log line is formatted twice into the same buffer: first what stands before the format,
then the format itself behind it.  `snprintf` returns the length a text would have had,
and both lengths are added up and passed on as the size of the line.  So the size is that
of what was formatted only if all of it found room, and the room left for the second part,
a difference of two `size_t`, is the true one only if the first part found room.

`logBounded_iff` says that the one is as much as the other: a line whose text is shorter
than the buffer is sent as it is (`logLine_of_lt`), and every longer one is sent with bytes
nothing was formatted into.
-/

namespace Ducq

open CMemory CNumber CPrintf Logged

/-- What stands before the format. -/
def logHead (level : DucqLogLevel) (functionName : List Byte) (senderId : Option (List Byte)) :
    List Byte :=
  ducqLevelTostr level ++ ascii "," ++ functionName ++ ascii "," ++ strText senderId ++ ascii ","

/-- `DUCQ_MSGSZ-size`, after what stands before the format. -/
def logRoom (level : DucqLogLevel) (functionName : List Byte) (senderId : Option (List Byte)) :
    ℕ :=
  toSizeT ((ducqMsgsz : ℤ) - (logHead level functionName senderId).length)

variable {env : Env} {level : DucqLogLevel} {functionName : List Byte}
  {senderId : Option (List Byte)} {text : List Byte}

/-- The two parts in the buffer. -/
theorem buffer_logMsg : (logMsg env level functionName senderId text).buffer =
    snprintf (snprintf (Buffer.fresh fun i => if i < ducqMsgsz then 0 else env.stack i) 0
        ducqMsgsz (logHead level functionName senderId))
      (logHead level functionName senderId).length (logRoom level functionName senderId) text :=
  rfl

theorem size_logMsg : (logMsg env level functionName senderId text).size =
    (logHead level functionName senderId).length + text.length := rfl

/-- The size passed on is at most what was formatted into the buffer, and the second part
was given the room that was left. -/
structure LogBounded (env : Env) (level : DucqLogLevel) (functionName : List Byte)
    (senderId : Option (List Byte)) (text : List Byte) : Prop where
  size_le : (logMsg env level functionName senderId text).size ≤
    printed ducqMsgsz (logHead level functionName senderId) +
      printed (logRoom level functionName senderId) text
  room_eq : (logRoom level functionName senderId : ℤ) =
    ducqMsgsz - (logHead level functionName senderId).length

/-- The room left, when there is some. -/
theorem logRoom_of_le (h : (logHead level functionName senderId).length ≤ ducqMsgsz) :
    logRoom level functionName senderId =
      ducqMsgsz - (logHead level functionName senderId).length := by
  rw [logRoom, ← Int.ofNat_sub h]
  exact toSizeT_of_lt (Nat.lt_of_le_of_lt (Nat.sub_le _ _) (by decide))

theorem logBounded_iff_length_lt : LogBounded env level functionName senderId text ↔
    (logHead level functionName senderId).length + text.length < ducqMsgsz := by
  constructor
  · rintro ⟨hsize, hroom⟩
    have hle : (logHead level functionName senderId).length ≤ ducqMsgsz := by omega
    have hpos : 0 < ducqMsgsz := by decide
    rw [size_logMsg, printed, printed, logRoom_of_le hle] at hsize
    omega
  · intro hlt
    have hle : (logHead level functionName senderId).length ≤ ducqMsgsz := by omega
    have hroom := logRoom_of_le hle
    refine ⟨?_, by omega⟩
    rw [size_logMsg, printed_of_lt (show _ < ducqMsgsz by omega),
      printed_of_lt (show text.length < logRoom _ _ _ by omega)]

/-! ## What is sent -/

/-- **A line that fits is sent as it is**, and nothing was written outside the buffer. -/
theorem logLine_of_lt
    (h : (logHead level functionName senderId).length + text.length < ducqMsgsz) :
    logLine env level functionName senderId text = logHead level functionName senderId ++ text ∧
      (logMsg env level functionName senderId text).buffer.Within ducqMsgsz := by
  have hle : (logHead level functionName senderId).length ≤ ducqMsgsz := by omega
  have hroom := logRoom_of_le hle
  set head := logHead level functionName senderId with hhead
  constructor
  · have hstarts : (logMsg env level functionName senderId text).buffer.StartsWith
        (head ++ text) := by
      rw [buffer_logMsg, ← hhead, snprintf_of_lt _ _ (by omega), snprintf_of_lt _ _ (by omega),
        Buffer.store_append, Buffer.store_append]
      -- the terminator of the first part is written over by the second
      have hfirst := (Buffer.startsWith_store (Buffer.fresh fun i =>
        if i < ducqMsgsz then 0 else env.stack i) head).store_of_le (Nat.zero_add _).ge [0]
      exact (hfirst.store text).store_of_le (List.length_append ▸ le_rfl) [0]
    rw [logLine, size_logMsg, ← hhead, ← List.length_append]
    exact hstarts
  · rw [buffer_logMsg, ← hhead]
    refine within_snprintf (within_snprintf (Buffer.within_fresh _ _) (by omega) _) ?_ _
    rw [hroom]
    omega

/-- Every send of a log line has the size that was added up. -/
theorem length_of_send_log {isCode : ℕ → Prop} {w : World} (h : TableInv isCode w)
    {fmt : Option (List Byte)} {args : List Arg}
    (htext : (fmt.bind fun fmt => format fmt args) = some text) :
    ∃ new, (ducqReactorLog env level functionName senderId fmt args w).calls = w.calls ++ new ∧
      ∀ d buf, Call.send d buf ∈ new →
        buf.length = (logMsg env level functionName senderId text).size := by
  obtain ⟨-, hcalls⟩ :=
    @ducqReactorLog_spec isCode env w h level functionName senderId fmt args text htext
  refine ⟨_, hcalls, fun d buf hmem => ?_⟩
  obtain ⟨i, -, hi⟩ := List.mem_flatMap.mp hmem
  obtain ⟨-, -, rfl⟩ := selected_of_send_mem hi
  exact Buffer.length_slice _ _ _

/-! ## Every line -/

/-- Whatever text the format makes of the arguments, its line is sent as far as it was
formatted. -/
def LogCall.Bounded (env : Env) (c : LogCall) : Prop :=
  ∀ text, (c.fmt.bind fun fmt => format fmt c.args) = some text →
    LogBounded env c.level c.functionName c.senderId text

/-- **A line is sent as far as it was formatted exactly if it is shorter than the buffer.** -/
theorem logCall_bounded_iff (env : Env) (c : LogCall) :
    c.Bounded env ↔ ∀ text, (c.fmt.bind fun fmt => format fmt c.args) = some text →
      (logHead c.level c.functionName c.senderId).length + text.length < ducqMsgsz :=
  forall₂_congr fun _ _ => logBounded_iff_length_lt

/-- **A message that nobody answers**, of 243 bytes with its terminator: its route alone
fills the buffer. -/
theorem not_bounded_unknown :
    ¬ Logs (LogCall.Bounded CommandEnv.quiet.toEnv) newServer.logged
      (unknown CommandEnv.quiet 100 (ascii "x " ++ List.replicate 240 97 ++ [0])
        newServer).2.logged := by
  have hparse : ducqParseMsg (ascii "x " ++ List.replicate 240 97 ++ [0]) =
      ⟨some (ascii "x"), some (List.replicate 240 97), none⟩ := by
    rw [DucqMsg.mk.injEq]
    decide +kernel
  have hlogs : (unknown CommandEnv.quiet 100 (ascii "x " ++ List.replicate 240 97 ++ [0])
      newServer).2.logged.logs = newServer.logged.logs ++
        [⟨.warning, ascii "unknown", some (CommandEnv.quiet.id 100), some (ascii "%s,%s"),
          [.str (some (ascii "x")), .str (some (List.replicate 240 97))]⟩] := by
    rw [unknown, hparse]
    rfl
  rw [Logs.iff_of_eq hlogs, List.forall_mem_singleton]
  intro h
  have htext : ∀ command route, format (ascii "%s,%s") [.str command, .str route] =
      some (strText command ++ 44 :: (strText route ++ [])) := fun _ _ => rfl
  have hlt := logBounded_iff_length_lt.mp (h _ (htext _ _))
  rw [List.length_append, List.length_cons, List.length_append] at hlt
  have hnul : (0 : Byte) ∉ List.replicate 240 97 := fun hmem =>
    absurd (List.eq_of_mem_replicate hmem) (by decide)
  have hroute : (strText (some (List.replicate 240 97))).length = 240 := by
    rw [strText, Option.map_some, Option.getD_some, cstr_of_notMem hnul, List.length_replicate]
  dsimp only at hlt
  rw [hroute] at hlt
  exact absurd hlt (by decide)

end Ducq
