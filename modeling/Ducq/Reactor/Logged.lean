import Ducq.Reactor.Log

/-!
# What is logged

`ducq_reactor_log` takes a format and its arguments, and the world keeps only what comes
of them.  `Logged` is the world together with every call of `ducq_reactor_log` so far, so
that a statement can be about the calls themselves.  It is a layer over the world: a
`Logged` operation does to the world what the operation without the list does
(`world_ducqReactorLog`), and it only ever adds to the list.

A call fits (`LogCall.Fits`) when its format is not NULL and asks for exactly the
arguments supplied.  A call that fits has a text; the others are what a world records as
undefined, except that an argument too many is ignored.
-/

namespace Ducq

open CMemory CPrintf

/-- A call of `ducq_reactor_log`; the format is given as the string it is. -/
structure LogCall where
  level : DucqLogLevel
  functionName : List Byte
  senderId : Option (List Byte)
  fmt : Option (List Byte)
  args : List Arg
  deriving DecidableEq

/-- The format is not NULL, and its conversions are exactly matched by the arguments. -/
def LogCall.Fits (c : LogCall) : Prop :=
  ∃ f, c.fmt = some f ∧ specs f = some (c.args.map Arg.kind)

/-- A call that fits has a text. -/
theorem LogCall.Fits.text {c : LogCall} (h : c.Fits) :
    ∃ text, (c.fmt.bind fun fmt => format fmt c.args) = some text := by
  obtain ⟨f, hf, hspecs⟩ := h
  rw [hf]
  exact Option.isSome_iff_exists.mp
    ((format_isSome_iff f c.args).mpr ⟨_, hspecs, List.prefix_rfl⟩)

/-- Without arguments, a call fits exactly if it has a text. -/
theorem LogCall.fits_iff_isSome {c : LogCall} (hargs : c.args = []) :
    c.Fits ↔ (c.fmt.bind fun fmt => format fmt c.args).isSome := by
  constructor
  · intro h
    exact Option.isSome_iff_exists.mpr h.text
  · intro h
    cases hfmt : c.fmt with
    | none =>
      rw [hfmt] at h
      exact absurd h Bool.false_ne_true
    | some f =>
      rw [hfmt] at h
      obtain ⟨kinds, hspecs, hkinds⟩ := (format_isSome_iff f c.args).mp h
      rw [hargs] at hkinds
      obtain rfl := List.prefix_nil.mp hkinds
      exact ⟨f, hfmt, by rw [hargs]; exact hspecs⟩

/-- The world, and every call of `ducq_reactor_log` so far. -/
structure Logged where
  world : World
  logs : List LogCall

namespace Logged

variable {α : Type}

/-- An operation that does not log. -/
def act (f : World → α × World) (s : Logged) : α × Logged :=
  ((f s.world).1, ⟨(f s.world).2, s.logs⟩)

/-- `ducq_reactor_log`. -/
def ducqReactorLog (env : Env) (level : DucqLogLevel) (functionName : List Byte)
    (senderId fmt : Option (List Byte)) (args : List Arg) (s : Logged) : Logged :=
  ⟨Ducq.ducqReactorLog env level functionName senderId fmt args s.world,
    s.logs ++ [⟨level, functionName, senderId, fmt, args⟩]⟩

/-- `ducq_log`, in the function `functionName` and for the client `d`. -/
def ducqLog (env : Env) (d : DucqI) (level : DucqLogLevel) (functionName : List Byte)
    (fmt : Option (List Byte)) (args : List Arg) (s : Logged) : Logged :=
  let (id, s) := s.act (ducqId env d)
  s.ducqReactorLog env level functionName id fmt args

@[simp] theorem act_fst (f : World → α × World) (s : Logged) : (s.act f).1 = (f s.world).1 := rfl

@[simp] theorem world_act (f : World → α × World) (s : Logged) :
    (s.act f).2.world = (f s.world).2 := rfl

@[simp] theorem logs_act (f : World → α × World) (s : Logged) : (s.act f).2.logs = s.logs := rfl

@[simp] theorem world_ducqReactorLog (env : Env) (level : DucqLogLevel)
    (functionName : List Byte) (senderId fmt : Option (List Byte)) (args : List Arg)
    (s : Logged) :
    (s.ducqReactorLog env level functionName senderId fmt args).world =
      Ducq.ducqReactorLog env level functionName senderId fmt args s.world := rfl

@[simp] theorem logs_ducqReactorLog (env : Env) (level : DucqLogLevel)
    (functionName : List Byte) (senderId fmt : Option (List Byte)) (args : List Arg)
    (s : Logged) :
    (s.ducqReactorLog env level functionName senderId fmt args).logs =
      s.logs ++ [⟨level, functionName, senderId, fmt, args⟩] := rfl

@[simp] theorem world_ducqLog (env : Env) (d : DucqI) (level : DucqLogLevel)
    (functionName : List Byte) (fmt : Option (List Byte)) (args : List Arg) (s : Logged) :
    (s.ducqLog env d level functionName fmt args).world =
      Ducq.ducqLog env d level functionName fmt args s.world := rfl

@[simp] theorem logs_ducqLog (env : Env) (d : DucqI) (level : DucqLogLevel)
    (functionName : List Byte) (fmt : Option (List Byte)) (args : List Arg) (s : Logged) :
    (s.ducqLog env d level functionName fmt args).logs =
      s.logs ++ [⟨level, functionName, (Ducq.ducqId env d s.world).1, fmt, args⟩] := rfl

/-- From `s` to `t` there were calls of `ducq_reactor_log`, each of which is `P`. -/
def Logs (P : LogCall → Prop) (s t : Logged) : Prop :=
  ∃ cs, t.logs = s.logs ++ cs ∧ ∀ c ∈ cs, P c

variable {P : LogCall → Prop} {s t u : Logged}

theorem Logs.of_eq (h : t.logs = s.logs) : Logs P s t :=
  ⟨[], by rw [h, List.append_nil], fun c hc => absurd hc List.not_mem_nil⟩

theorem Logs.trans (h : Logs P s t) (h' : Logs P t u) : Logs P s u := by
  obtain ⟨cs, hcs, hP⟩ := h
  obtain ⟨cs', hcs', hP'⟩ := h'
  refine ⟨cs ++ cs', by rw [hcs', hcs, List.append_assoc], fun c hc => ?_⟩
  exact (List.mem_append.mp hc).elim (hP c) (hP' c)

theorem Logs.refl (s : Logged) : Logs P s s := Logs.of_eq rfl

theorem Logs.act (h : Logs P s t) (f : World → α × World) : Logs P s (t.act f).2 :=
  h.trans (Logs.of_eq rfl)

theorem Logs.ducqReactorLog (h : Logs P s t) {env : Env} {level : DucqLogLevel}
    {functionName : List Byte} {senderId fmt : Option (List Byte)} {args : List Arg}
    (hP : P ⟨level, functionName, senderId, fmt, args⟩) :
    Logs P s (t.ducqReactorLog env level functionName senderId fmt args) :=
  h.trans ⟨_, rfl, List.forall_mem_singleton.mpr hP⟩

/-- One more log line, with a format that asks for what it is given. -/
theorem Logs.fits (h : Logs LogCall.Fits s t) (env : Env) (d : DucqI) (level : DucqLogLevel)
    (functionName : List Byte) {f : List Byte} {args : List Arg}
    (hf : specs f = some (args.map Arg.kind)) :
    Logs LogCall.Fits s (t.ducqLog env d level functionName (some f) args) :=
  (h.act _).ducqReactorLog ⟨f, rfl, hf⟩

/-- The calls between two states are determined by them. -/
theorem Logs.iff_of_eq {cs : List LogCall} (h : t.logs = s.logs ++ cs) :
    Logs P s t ↔ ∀ c ∈ cs, P c := by
  constructor
  · rintro ⟨cs', hcs', hP⟩
    rw [List.append_cancel_left (h.symm.trans hcs')]
    exact hP
  · exact fun hP => ⟨cs, h, hP⟩

end Logged

end Ducq
