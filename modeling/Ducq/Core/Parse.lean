import Ducq.Core.State

/-!
# `ducq.c`: parsing a message and matching a route

A message is text, `command route\npayload`.  The parsers return pointers into it,
and so do these: a pointer is the rest of the message from there on.  An `end`
out-parameter goes in as its old value and comes out as its new one, because
`ducq_parse_route` leaves it alone when there is no space.

`ducqRouteCmp` is written over memory, not over strings.  A dereference past an
array is `none`, so that reading too far is a possible outcome of the function and
not something its type rules out.
-/

namespace Ducq

open CMemory

/-- `*`. -/
abbrev star : Byte := 42

/-! ## Parsing -/

/-- `ducq_parse_command`: the command and `end`. -/
def ducqParseCommand (buffer : List Byte) : Option (List Byte) × Option (List Byte) :=
  let ptr := strchr space buffer
  (ptr.map fun _ => buffer, ptr)

/-- `ducq_parse_route`: the route and `end`. -/
def ducqParseRoute (buffer : List Byte) (end_ : Option (List Byte)) :
    Option (List Byte) × Option (List Byte) :=
  let start := if buffer.head? = some space then some buffer else strchr space buffer
  match start with
  | none => (none, end_)
  | some buffer =>
    let buffer := buffer.tail
    let ptr := strchr newline buffer
    (ptr.map fun _ => buffer, ptr)

/-- `ducq_parse_payload`. -/
def ducqParsePayload (buffer : List Byte) : Option (List Byte) :=
  (strchr newline buffer).map List.tail

/-- The message asks for the route `r`: it parses, and `r` is what stands between the
space and the newline. -/
def HasRoute (buffer r : List Byte) : Prop :=
  ∃ route end_, ducqParseRoute buffer none = (some route, some end_) ∧
    route.take (route.length - end_.length) = r

/-- **A parsed route** is a part of the message, stands behind a space and before a
newline, and holds neither a newline nor a NUL. -/
theorem ducqParseRoute_eq_some {buffer route : List Byte} {end₀ end₁ : Option (List Byte)}
    (h : ducqParseRoute buffer end₀ = (some route, end₁)) :
    ∃ pre r q, buffer = pre ++ space :: route ∧ route = r ++ newline :: q ∧
      end₁ = some (newline :: q) ∧ (0 : Byte) ∉ pre ∧ newline ∉ r ∧ (0 : Byte) ∉ r := by
  have hstart : ∀ start, (if buffer.head? = some space then some buffer
      else strchr space buffer) = some start →
      ∃ pre, buffer = pre ++ space :: start.tail ∧ (0 : Byte) ∉ pre := by
    intro start hs
    split_ifs at hs with hhead
    · obtain rfl := Option.some.inj hs
      obtain ⟨p, hp⟩ := List.head?_eq_some_iff.mp hhead
      exact ⟨[], by rw [hp]; rfl, List.not_mem_nil⟩
    · obtain ⟨pre, q, hsplit, rfl, -, h0⟩ := eq_append_of_strchr hs
      exact ⟨pre, hsplit, h0⟩
  unfold ducqParseRoute at h
  dsimp only at h
  split at h
  · simp at h
  · rename_i start hs
    rw [Prod.mk.injEq, Option.map_eq_some_iff] at h
    obtain ⟨⟨p, hp, rfl⟩, hend⟩ := h
    obtain ⟨r, q, hsplit, rfl, hnl, h0⟩ := eq_append_of_strchr hp
    obtain ⟨pre, hpre, hpre0⟩ := hstart start hs
    exact ⟨pre, r, q, hpre, hsplit, by rw [← hend, hp], hpre0, hnl, h0⟩

/-- A route in a message, and where it stands. -/
theorem HasRoute.exists_append {buffer r : List Byte} (h : HasRoute buffer r) :
    ∃ pre q, buffer = pre ++ space :: (r ++ newline :: q) ∧ (0 : Byte) ∉ pre ∧ newline ∉ r ∧
      (0 : Byte) ∉ r ∧
      ducqParseRoute buffer none = (some (r ++ newline :: q), some (newline :: q)) := by
  obtain ⟨route, end_, hparse, rfl⟩ := h
  obtain ⟨pre, r, q, hbuffer, hroute, hend, hpre, hnl, h0⟩ := ducqParseRoute_eq_some hparse
  obtain rfl := Option.some.inj hend
  have htake : route.take (route.length - (newline :: q).length) = r := by
    rw [hroute, List.length_append, Nat.add_sub_cancel, List.take_left]
  rw [htake]
  exact ⟨pre, q, by rw [hbuffer, hroute], hpre, hnl, h0, by rw [hparse, hroute]⟩

/-- The route stands behind the first space. -/
theorem ducqParseRoute_append {command : List Byte} (hcommand : space ∉ command)
    (hcommand0 : (0 : Byte) ∉ command) (p : List Byte) (end_ : Option (List Byte)) :
    ducqParseRoute (command ++ space :: p) end_ =
      ((strchr newline p).map fun _ => p, strchr newline p) := by
  have hstart : (if (command ++ space :: p).head? = some space then
      some (command ++ space :: p) else strchr space (command ++ space :: p)) =
      some (space :: p) := by
    cases command with
    | nil => rfl
    | cons b command =>
      have hb : b ≠ space := fun h => hcommand (h ▸ List.mem_cons_self)
      rw [if_neg (by simpa using hb), strchr_append hcommand0 hcommand]
  rw [ducqParseRoute, hstart]
  rfl

/-- **Every message of the usual form has a route.** -/
theorem hasRoute_message {command r : List Byte} (hcommand : space ∉ command)
    (hcommand0 : (0 : Byte) ∉ command) (hr : newline ∉ r) (hr0 : (0 : Byte) ∉ r)
    (q : List Byte) : HasRoute (command ++ space :: (r ++ newline :: q)) r := by
  refine ⟨r ++ newline :: q, newline :: q, ?_, ?_⟩
  · rw [ducqParseRoute_append hcommand hcommand0, strchr_append hr0 hr]
    rfl
  · rw [List.length_append, Nat.add_sub_cancel, List.take_left]

/-- A message has one route at most. -/
theorem HasRoute.unique {buffer r r' : List Byte} (h : HasRoute buffer r)
    (h' : HasRoute buffer r') : r' = r := by
  obtain ⟨route, end_, hparse, rfl⟩ := h
  obtain ⟨route', end', hparse', rfl⟩ := h'
  rw [hparse, Prod.mk.injEq, Option.some.injEq, Option.some.injEq] at hparse'
  rw [hparse'.1, hparse'.2]

theorem HasRoute.zero_notMem {buffer r : List Byte} (h : HasRoute buffer r) :
    (0 : Byte) ∉ r := by
  obtain ⟨-, -, -, -, -, h0, -⟩ := h.exists_append
  exact h0

theorem HasRoute.newline_notMem {buffer r : List Byte} (h : HasRoute buffer r) :
    newline ∉ r := by
  obtain ⟨-, -, -, -, hnl, -, -⟩ := h.exists_append
  exact hnl

/-- The space, the route and the newline are part of the message's string. -/
theorem HasRoute.cstr_eq {buffer r : List Byte} (h : HasRoute buffer r) :
    ∃ pre q, cstr buffer = pre ++ space :: (r ++ newline :: q) := by
  obtain ⟨pre, q, hbuffer, hpre, -, h0, -⟩ := h.exists_append
  refine ⟨pre, cstr q, ?_⟩
  rw [hbuffer, cstr_append_of_notMem hpre, cstr_cons_of_ne (by decide), cstr_append_of_notMem h0,
    cstr_cons_of_ne (by decide)]

/-! ## Splitting -/

/-- `strtok` in a string: the token, and the string the next call goes on in.  The NUL
it writes behind the token is what ends the token. -/
def strtok (delims str : List Byte) : Option (List Byte) × List Byte :=
  let str := str.dropWhile (· ∈ delims)
  if str = [] then (none, [])
  else (some (str.takeWhile (· ∉ delims)), (str.dropWhile (· ∉ delims)).tail)

/-- `struct ducq_msg`. -/
structure DucqMsg where
  command : Option (List Byte)
  route : Option (List Byte)
  payload : Option (List Byte)

/-- `ducq_parse_msg`. -/
def ducqParseMsg (message : List Byte) : DucqMsg :=
  let (command, rest) := strtok [space] (cstr message)
  let (route, rest) := strtok [newline] rest
  let (payload, _) := strtok [] rest
  ⟨command, route, payload⟩

/-! ## Matching -/

/-- `strchrnull`: the pointer to the first `c`, or to the terminator. -/
def strchrnull (c : Byte) : List Byte → Option (List Byte)
  | [] => none
  | b :: str => if b ≠ 0 ∧ b ≠ c then strchrnull c str else some (b :: str)

/-- The loop of `ducq_route_cmp`: where the two pointers stand when it ends. -/
def routeLoop : List Byte → List Byte → Option (List Byte × List Byte)
  | [], _ => none
  | s :: sub, pub =>
    if s = 0 then some (s :: sub, pub)
    else match pub with
      | [] => none
      | p :: pub =>
        if p = 0 then some (s :: sub, p :: pub)
        else if s = star then do
          let c ← sub.head?
          let pub ← strchrnull c (p :: pub)
          routeLoop sub pub
        else if s = p then routeLoop sub pub
        else some (s :: sub, p :: pub)

/-- The two pointers once the star left over after the loop has been taken. -/
def routeScan (sub pub : List Byte) : Option (List Byte × List Byte) := do
  let (sub, pub) ← routeLoop sub pub
  let s ← sub.head?
  return (if s = star then sub.tail else sub, pub)

/-- `ducq_route_cmp`; a missing argument is NULL. -/
def ducqRouteCmp : Option (List Byte) → Option (List Byte) → Option Bool
  | some sub, some pub => do
    let (sub, pub) ← routeScan sub pub
    let s ← sub.head?
    if s = 0 then
      let p ← pub.head?
      return p == 0
    else return false
  | _, _ => some false

end Ducq
