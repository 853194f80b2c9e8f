import Ducq.Reactor.Table

/-!
# `ducq_reactor.c`: the last message of each route

A row is a route and a message, one array behind the other, and the rows follow one
another in memory.  A string that starts in a row's route and has no terminator there
runs on into the row's message, and so on: `lastMsgPtr` is the memory from a row to the
end of the table.
-/

namespace Ducq

open CMemory

/-- The memory a row's `route` points into. -/
def lastMsgPtr (w : World) (i : Fin ducqMaxChannels) : List Byte :=
  ((List.finRange ducqMaxChannels).drop i).flatMap fun j =>
    (w.reactor.lastMsgs j).route.bytes ++ (w.reactor.lastMsgs j).msg.bytes

/-- The row that a search for a route stops at: a free one, or the route's own. -/
def lastMsgRow (w : World) (route : List Byte) : Option (Fin ducqMaxChannels) :=
  (List.finRange ducqMaxChannels).find? fun i =>
    (lastMsgPtr w i).head? = some 0 ∨ cstr (lastMsgPtr w i) = cstr route

/-- `ducq_get_last_msg`: the string it returns. -/
def ducqGetLastMsg (w : World) (route : List Byte) : List Byte :=
  match lastMsgRow w route with
  | none => ascii "ACK\n_"
  | some i =>
    if (lastMsgPtr w i).head? = some 0 then ascii "ACK"
    else cstr ((lastMsgPtr w i).drop ducqMaxRouteLen)

/-- `ducq_set_last_msg`. -/
def ducqSetLastMsg (route msg : List Byte) (w : World) : DucqState × World :=
  match lastMsgRow w route with
  | none => (.emax, w)
  | some i =>
    (.ok, { w with reactor := { w.reactor with
      lastMsgs := Function.update w.reactor.lastMsgs i
        ⟨CharArray.strncpy _ route, CharArray.strncpy _ msg⟩ } })

/-- A set that fails does nothing. -/
theorem ducqSetLastMsg_of_ne_ok {route msg : List Byte} {w : World}
    (h : (ducqSetLastMsg route msg w).1 ≠ .ok) : (ducqSetLastMsg route msg w).2 = w := by
  unfold ducqSetLastMsg at h ⊢
  split
  · rfl
  · rename_i hrow
    rw [hrow] at h
    exact absurd rfl h

/-- The rows are not the slots. -/
@[simp] theorem conn_ducqSetLastMsg (route msg : List Byte) (w : World)
    (i : Fin ducqMaxConnections) : (ducqSetLastMsg route msg w).2.conn i = w.conn i := by
  unfold ducqSetLastMsg
  split <;> rfl

@[simp] theorem calls_ducqSetLastMsg (route msg : List Byte) (w : World) :
    (ducqSetLastMsg route msg w).2.calls = w.calls := by
  unfold ducqSetLastMsg
  split <;> rfl

@[simp] theorem allowLogRoute_ducqSetLastMsg (route msg : List Byte) (w : World) :
    (ducqSetLastMsg route msg w).2.reactor.allowLogRoute = w.reactor.allowLogRoute := by
  unfold ducqSetLastMsg
  split <;> rfl

end Ducq
