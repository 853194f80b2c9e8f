import Ducq.Lib.Effect
import Ducq.Lib.Memory

/-!
# The stack of the Lua C API

A host program talks to Lua through a stack.  Every function of the API takes some values
off its top and puts some on, and how many is part of its manual: that is what the
definitions here follow.  A function that needs more values than there are, and one whose
table argument is none, have no meaning.

What Lua does with the values is not decided here.  Indexing may run a metamethod, a call
may run a script, and both may change everything the scripts can reach; a `Runtime` says
how, over a type `H` of all that lies outside the stack.  An error raised outside a
protected call ends the host program, and a script may run forever: in both cases the
function does not return.  Memory is never short.

Heights are integers, so that what a function does to the stack is a number that may be
negative (`effect_getglobal` and so on, one lemma for each function).  And whatever a
runtime cannot reach is the same however far a function comes (`stays_getglobal` and so
on, for a runtime that stands beside it).
-/

namespace Lua

open CMemory Effect

/-! ## Values -/

/-- A Lua value; what a table, a function or a userdata is is up to the runtime. -/
inductive Value where
  | nil
  | boolean (b : Bool)
  | integer (i : ℤ)
  | float (bits : UInt64)
  | string (s : List Byte)
  | table (id : ℕ)
  | function (id : ℕ)
  | userdata (id : ℕ)
  | thread (id : ℕ)
  deriving DecidableEq

/-- `LUA_TNIL` and its siblings. -/
inductive Kind where
  | nil | boolean | number | string | table | function | userdata | thread
  deriving DecidableEq

/-- `lua_type`. -/
def Value.kind : Value → Kind
  | .nil => .nil
  | .boolean _ => .boolean
  | .integer _ | .float _ => .number
  | .string _ => .string
  | .table _ => .table
  | .function _ => .function
  | .userdata _ => .userdata
  | .thread _ => .thread

/-- What the host does not decide: indexing, with its metamethods, the traversal of a
table, fresh objects, the text of a number, and calls.  A call that returns at all ends in
an error value or in a list of results. -/
structure Runtime (H : Type) where
  globals : Value
  registry : Value
  index : Value → Value → H → Option (Value × H)
  setIndex : Value → Value → Value → H → Option H
  next : Value → Value → H → Option (Option (Value × Value))
  newTable : H → ℕ × H
  newUserdata : ℕ → H → ℕ × H
  setMetatable : Value → Value → H → H
  numberText : Value → List Byte
  call : Value → List Value → H → Option (Except Value (List Value) × H)

/-- The same runtime beside something it cannot reach. -/
def Runtime.beside {H : Type} (rt : Runtime H) (F : Type) : Runtime (H × F) where
  globals := rt.globals
  registry := rt.registry
  index t k h := (rt.index t k h.1).map fun r => (r.1, (r.2, h.2))
  setIndex t k v h := (rt.setIndex t k v h.1).map fun r => (r, h.2)
  next t k h := rt.next t k h.1
  newTable h := ((rt.newTable h.1).1, ((rt.newTable h.1).2, h.2))
  newUserdata p h := ((rt.newUserdata p h.1).1, ((rt.newUserdata p h.1).2, h.2))
  setMetatable v m h := (rt.setMetatable v m h.1, h.2)
  numberText := rt.numberText
  call f args h := (rt.call f args h.1).map fun r => (r.1, (r.2, h.2))

/-- The stack, its top first, and all that lies outside it. -/
structure State (H : Type) where
  stack : List Value
  outside : H

variable {H : Type}

/-- How many values there are on the stack. -/
def State.height (s : State H) : ℤ := s.stack.length

/-! ## The functions of the API

An index `-n` of the source is `n` here. -/

/-- A computation that does not touch the stack. -/
def outside {α : Type} (f : H → Option (α × H)) : Prog (State H) α := fun s =>
  match f s.outside with
  | none => (none, s)
  | some (a, h) => (some a, ⟨s.stack, h⟩)

/-- A value put on top. -/
def push (v : Value) : Prog (State H) Unit := fun s => (some (), ⟨v :: s.stack, s.outside⟩)

/-- The value on top taken off. -/
def take : Prog (State H) Value := fun s =>
  match s.stack with
  | [] => (none, s)
  | v :: stack => (some v, ⟨stack, s.outside⟩)

/-- The value at an index. -/
def value (n : ℕ) : Prog (State H) Value := fun s => (s.stack[n - 1]?, s)

/-- `lua_pop`. -/
def pop (n : ℕ) : Prog (State H) Unit := fun s =>
  if n ≤ s.stack.length then (some (), ⟨s.stack.drop n, s.outside⟩) else (none, s)

/-- `lua_pushnil`. -/
def pushnil : Prog (State H) Unit := push .nil

/-- `lua_pushstring`; NULL is pushed as `nil`. -/
def pushstring (s : Option (List Byte)) : Prog (State H) Unit :=
  push ((s.map Value.string).getD .nil)

/-- `lua_getglobal`. -/
def getglobal (rt : Runtime H) (name : List Byte) : Prog (State H) Kind := do
  let v ← outside (rt.index rt.globals (.string name))
  push v
  return v.kind

/-- `lua_gettable`. -/
def gettable (rt : Runtime H) (n : ℕ) : Prog (State H) Kind := do
  let t ← value n
  let k ← take
  let v ← outside (rt.index t k)
  push v
  return v.kind

/-- `lua_getfield`. -/
def getfield (rt : Runtime H) (n : ℕ) (k : List Byte) : Prog (State H) Kind := do
  let t ← value n
  let v ← outside (rt.index t (.string k))
  push v
  return v.kind

/-- `lua_setfield`. -/
def setfield (rt : Runtime H) (n : ℕ) (k : List Byte) : Prog (State H) Unit := do
  let t ← value n
  let v ← take
  outside fun h => (rt.setIndex t (.string k) v h).map fun h => ((), h)

/-- `lua_next`: whether there was another entry. -/
def next (rt : Runtime H) (n : ℕ) : Prog (State H) Bool := do
  let t ← value n
  let k ← take
  let entry ← outside fun h => (rt.next t k h).map fun entry => (entry, h)
  match entry with
  | none => return false
  | some (k, v) => do
    push k
    push v
    return true

/-- `lua_createtable`. -/
def createtable (rt : Runtime H) : Prog (State H) Unit := do
  let id ← outside fun h => some (rt.newTable h)
  push (.table id)

/-- `lua_newuserdata`, for a block that holds the pointer `p`. -/
def newuserdata (rt : Runtime H) (p : ℕ) : Prog (State H) Unit := do
  let id ← outside fun h => some (rt.newUserdata p h)
  push (.userdata id)

/-- `luaL_getmetatable`. -/
def getmetatable (rt : Runtime H) (name : List Byte) : Prog (State H) Unit := do
  let v ← outside (rt.index rt.registry (.string name))
  push v

/-- `lua_setmetatable`. -/
def setmetatable (rt : Runtime H) (n : ℕ) : Prog (State H) Unit := do
  let v ← value n
  let m ← take
  outside fun h => some ((), rt.setMetatable v m h)

/-- `lua_isstring`: numbers are strings, too. -/
def isstring (n : ℕ) : Prog (State H) Bool := do
  let v ← value n
  return v.kind = .string ∨ v.kind = .number

/-- `lua_istable`. -/
def istable (n : ℕ) : Prog (State H) Bool := do
  let v ← value n
  return v.kind = .table

/-- `lua_tointeger`, if `lua_isinteger`. -/
def integer (n : ℕ) : Prog (State H) (Option ℤ) := do
  let v ← value n
  return match v with
    | .integer i => some i
    | _ => none

/-- The text of a string or number. -/
def Runtime.text (rt : Runtime H) : Value → Option (List Byte)
  | .string s => some s
  | .integer i => some (rt.numberText (.integer i))
  | .float bits => some (rt.numberText (.float bits))
  | _ => none

/-- `lua_tostring`; it leaves the text of a number on the stack in its place. -/
def tostring (rt : Runtime H) (n : ℕ) : Prog (State H) (Option (List Byte)) := do
  let v ← value n
  match rt.text v with
  | some text => fun s => (some (some text), ⟨s.stack.set (n - 1) (.string text), s.outside⟩)
  | none => return none

/-- `lua_pcall`: whether it ended without an error. -/
def pcall (rt : Runtime H) (nargs nresults : ℕ) : Prog (State H) Bool := fun s =>
  match s.stack.drop nargs with
  | [] => (none, s)
  | f :: stack =>
    match rt.call f (s.stack.take nargs).reverse s.outside with
    | none => (none, s)
    | some (.ok results, h) => (some true,
        ⟨((results.take nresults).rightpad nresults .nil).reverse ++ stack, h⟩)
    | some (.error v, h) => (some false, ⟨v :: stack, h⟩)

/-! ## Stack effects -/

section StackEffects

variable {α : Type} {rt : Runtime H}

theorem effect_outside (f : H → Option (α × H)) :
    Moves State.height (outside f) fun _ δ => δ = 0 := by
  intro s a t ht
  refine ⟨0, ?_, rfl⟩
  unfold outside at ht
  split at ht
  · exact absurd (Prod.mk.inj ht).1.symm (Option.some_ne_none a)
  · rw [← (Prod.mk.inj ht).2, add_zero]
    rfl

theorem effect_push (v : Value) :
    Moves (State.height (H := H)) (push v) fun _ δ => δ = 1 := by
  intro s a t ht
  refine ⟨1, ?_, rfl⟩
  rw [← (Prod.mk.inj ht).2]
  simp [State.height]

theorem effect_take : Moves (State.height (H := H)) take fun _ δ => δ = -1 := by
  intro s a t ht
  refine ⟨-1, ?_, rfl⟩
  unfold take at ht
  split at ht
  · exact absurd (Prod.mk.inj ht).1.symm (Option.some_ne_none a)
  · rename_i v stack hstack
    rw [← (Prod.mk.inj ht).2]
    simp [State.height, hstack]

theorem effect_value (n : ℕ) :
    Moves (State.height (H := H)) (value n) fun _ δ => δ = 0 := by
  intro s a t ht
  exact ⟨0, by rw [← (Prod.mk.inj ht).2, add_zero], rfl⟩

theorem effect_pop (n : ℕ) :
    Moves (State.height (H := H)) (pop n) fun _ δ => δ = -n := by
  intro s a t ht
  refine ⟨-n, ?_, rfl⟩
  unfold pop at ht
  split_ifs at ht with hn
  · rw [← (Prod.mk.inj ht).2]
    simp only [State.height, List.length_drop]
    omega
  · exact absurd (Prod.mk.inj ht).1.symm (Option.some_ne_none a)

theorem effect_pushnil : Moves (State.height (H := H)) pushnil fun _ δ => δ = 1 :=
  effect_push _

theorem effect_pushstring (s : Option (List Byte)) :
    Moves (State.height (H := H)) (pushstring s) fun _ δ => δ = 1 :=
  effect_push _

theorem effect_getglobal (name : List Byte) :
    Moves State.height (getglobal rt name) fun _ δ => δ = 1 := by
  refine (effect_outside _).bind ?_
  rintro v _ rfl
  refine (effect_push v).bind ?_
  rintro - _ rfl
  exact Moves.pure rfl

theorem effect_gettable (n : ℕ) :
    Moves State.height (gettable rt n) fun _ δ => δ = 0 := by
  refine (effect_value n).bind ?_
  rintro t _ rfl
  refine effect_take.bind ?_
  rintro k _ rfl
  refine (effect_outside _).bind ?_
  rintro v _ rfl
  refine (effect_push v).bind ?_
  rintro - _ rfl
  exact Moves.pure rfl

theorem effect_getfield (n : ℕ) (k : List Byte) :
    Moves State.height (getfield rt n k) fun _ δ => δ = 1 := by
  refine (effect_value n).bind ?_
  rintro t _ rfl
  refine (effect_outside _).bind ?_
  rintro v _ rfl
  refine (effect_push v).bind ?_
  rintro - _ rfl
  exact Moves.pure rfl

theorem effect_setfield (n : ℕ) (k : List Byte) :
    Moves State.height (setfield rt n k) fun _ δ => δ = -1 := by
  refine (effect_value n).bind ?_
  rintro t _ rfl
  refine effect_take.bind ?_
  rintro v _ rfl
  exact (effect_outside _).mono fun _ δ hδ => by rw [hδ]; rfl

/-- The key goes, and the next entry comes if there is one. -/
theorem effect_next (n : ℕ) :
    Moves State.height (next rt n) fun more δ => δ = if more then 1 else -1 := by
  refine (effect_value n).bind ?_
  rintro t _ rfl
  refine effect_take.bind ?_
  rintro k _ rfl
  refine (effect_outside _).bind ?_
  rintro entry _ rfl
  cases entry with
  | none => exact Moves.pure rfl
  | some entry =>
    refine (effect_push entry.1).bind ?_
    rintro - _ rfl
    refine (effect_push entry.2).bind ?_
    rintro - _ rfl
    exact Moves.pure rfl

theorem effect_createtable : Moves State.height (createtable rt) fun _ δ => δ = 1 := by
  refine (effect_outside _).bind ?_
  rintro id _ rfl
  exact (effect_push _).mono fun _ δ hδ => by rw [hδ]; rfl

theorem effect_newuserdata (p : ℕ) :
    Moves State.height (newuserdata rt p) fun _ δ => δ = 1 := by
  refine (effect_outside _).bind ?_
  rintro id _ rfl
  exact (effect_push _).mono fun _ δ hδ => by rw [hδ]; rfl

theorem effect_getmetatable (name : List Byte) :
    Moves State.height (getmetatable rt name) fun _ δ => δ = 1 := by
  refine (effect_outside _).bind ?_
  rintro v _ rfl
  exact (effect_push v).mono fun _ δ hδ => by rw [hδ]; rfl

theorem effect_setmetatable (n : ℕ) :
    Moves State.height (setmetatable rt n) fun _ δ => δ = -1 := by
  refine (effect_value n).bind ?_
  rintro v _ rfl
  refine effect_take.bind ?_
  rintro m _ rfl
  exact (effect_outside _).mono fun _ δ hδ => by rw [hδ]; rfl

theorem effect_isstring (n : ℕ) :
    Moves (State.height (H := H)) (isstring n) fun _ δ => δ = 0 := by
  refine (effect_value n).bind ?_
  rintro v _ rfl
  exact Moves.pure rfl

theorem effect_istable (n : ℕ) :
    Moves (State.height (H := H)) (istable n) fun _ δ => δ = 0 := by
  refine (effect_value n).bind ?_
  rintro v _ rfl
  exact Moves.pure rfl

theorem effect_integer (n : ℕ) :
    Moves (State.height (H := H)) (integer n) fun _ δ => δ = 0 := by
  refine (effect_value n).bind ?_
  rintro v _ rfl
  exact Moves.pure rfl

theorem effect_tostring (n : ℕ) :
    Moves State.height (tostring rt n) fun _ δ => δ = 0 := by
  refine (effect_value n).bind ?_
  rintro v _ rfl
  cases rt.text v with
  | none => exact Moves.pure rfl
  | some text =>
    intro s a t ht
    refine ⟨0, ?_, rfl⟩
    rw [← (Prod.mk.inj ht).2]
    simp [State.height]

/-- **A protected call** takes the function and its arguments, and leaves its results or
one error value. -/
theorem effect_pcall (nargs nresults : ℕ) :
    Moves State.height (pcall rt nargs nresults) fun ok δ =>
      δ = (if ok then nresults else 1) - (nargs + 1 : ℤ) := by
  intro s a t ht
  have hlength := List.length_drop (i := nargs) (l := s.stack)
  refine ⟨_, ?_, rfl⟩
  unfold pcall at ht
  split at ht
  · exact absurd (Prod.mk.inj ht).1.symm (Option.some_ne_none a)
  · rename_i f stack hdrop
    rw [hdrop, List.length_cons] at hlength
    split at ht
    · exact absurd (Prod.mk.inj ht).1.symm (Option.some_ne_none a)
    · obtain ⟨ha, rfl⟩ := Prod.mk.inj ht
      obtain rfl := Option.some.inj ha
      simp only [State.height, List.length_append, List.length_reverse, List.length_rightpad,
        List.length_take, if_true]
      omega
    · obtain ⟨ha, rfl⟩ := Prod.mk.inj ht
      obtain rfl := Option.some.inj ha
      simp only [State.height, List.length_cons, Bool.false_eq_true, if_false]
      omega

end StackEffects

/-! ## What a runtime cannot reach -/

section Unreached

variable {α F : Type} {rt : Runtime H}

/-- The same beside what the runtime can reach. -/
def SameBeside (s t : State (H × F)) : Prop := t.outside.2 = s.outside.2

instance : IsPreorder (State (H × F)) SameBeside where
  refl _ := rfl
  trans _ _ _ h h' := Eq.trans h' h

theorem stays_outside {f : H × F → Option (α × H × F)}
    (hf : ∀ o a o', f o = some (a, o') → o'.2 = o.2) : Stays SameBeside (outside f) := by
  intro s
  unfold outside
  split
  · rfl
  · rename_i a h hr
    exact hf s.outside a h hr

theorem stays_push (v : Value) : Stays (SameBeside (H := H) (F := F)) (push v) := fun _ => rfl

theorem stays_take : Stays (SameBeside (H := H) (F := F)) take := by
  intro s
  unfold take
  split
  · rfl
  · rfl

theorem stays_value (n : ℕ) : Stays (SameBeside (H := H) (F := F)) (value n) := fun _ => rfl

theorem stays_pop (n : ℕ) : Stays (SameBeside (H := H) (F := F)) (pop n) := by
  intro s
  unfold pop
  split_ifs
  · rfl
  · rfl

/-- Indexing, with whatever metamethods it runs. -/
theorem stays_index (t k : Value) : Stays SameBeside (outside ((rt.beside F).index t k)) := by
  refine stays_outside fun o a o' h => ?_
  obtain ⟨r, -, hr⟩ := Option.map_eq_some_iff.mp h
  rw [← (Prod.mk.inj hr).2]

theorem stays_getglobal (name : List Byte) :
    Stays SameBeside (getglobal (rt.beside F) name) :=
  (stays_index _ _).bind fun v =>
    (stays_push v).bind fun _ => Stays.pure _

theorem stays_gettable (n : ℕ) : Stays SameBeside (gettable (rt.beside F) n) :=
  (stays_value n).bind fun _ => stays_take.bind fun _ =>
    (stays_index _ _).bind fun v =>
      (stays_push v).bind fun _ => Stays.pure _

theorem stays_getfield (n : ℕ) (k : List Byte) :
    Stays SameBeside (getfield (rt.beside F) n k) :=
  (stays_value n).bind fun _ => (stays_index _ _).bind fun v =>
    (stays_push v).bind fun _ => Stays.pure _

theorem stays_getmetatable (name : List Byte) :
    Stays SameBeside (getmetatable (rt.beside F) name) :=
  (stays_index _ _).bind stays_push

theorem stays_setfield (n : ℕ) (k : List Byte) :
    Stays SameBeside (setfield (rt.beside F) n k) := by
  refine (stays_value n).bind fun t => stays_take.bind fun v => ?_
  refine stays_outside fun o a o' h => ?_
  obtain ⟨q, hq, hr⟩ := Option.map_eq_some_iff.mp h
  obtain ⟨q', -, rfl⟩ := Option.map_eq_some_iff.mp hq
  rw [← (Prod.mk.inj hr).2]

theorem stays_next (n : ℕ) : Stays SameBeside (next (rt.beside F) n) := by
  refine (stays_value n).bind fun t => stays_take.bind fun k => ?_
  refine Stays.bind (stays_outside fun o a o' h => ?_) fun entry => ?_
  · obtain ⟨entry, -, hr⟩ := Option.map_eq_some_iff.mp h
    rw [← (Prod.mk.inj hr).2]
  · cases entry with
    | none => exact Stays.pure _
    | some entry =>
      exact (stays_push _).bind fun _ =>
        (stays_push _).bind fun _ => Stays.pure _

theorem stays_createtable : Stays SameBeside (createtable (rt.beside F)) := by
  refine Stays.bind (stays_outside fun o a o' h => ?_) fun _ => stays_push _
  rw [← (Prod.mk.inj (Option.some.inj h)).2]

theorem stays_newuserdata (p : ℕ) : Stays SameBeside (newuserdata (rt.beside F) p) := by
  refine Stays.bind (stays_outside fun o a o' h => ?_) fun _ => stays_push _
  rw [← (Prod.mk.inj (Option.some.inj h)).2]

theorem stays_setmetatable (n : ℕ) : Stays SameBeside (setmetatable (rt.beside F) n) := by
  refine (stays_value n).bind fun v => stays_take.bind fun m => ?_
  refine stays_outside fun o a o' h => ?_
  rw [← (Prod.mk.inj (Option.some.inj h)).2]
  rfl

theorem stays_isstring (n : ℕ) : Stays (SameBeside (H := H) (F := F)) (isstring n) :=
  (stays_value n).bind fun _ => Stays.pure _

theorem stays_istable (n : ℕ) : Stays (SameBeside (H := H) (F := F)) (istable n) :=
  (stays_value n).bind fun _ => Stays.pure _

theorem stays_integer (n : ℕ) : Stays (SameBeside (H := H) (F := F)) (integer n) :=
  (stays_value n).bind fun _ => Stays.pure _

theorem stays_tostring (n : ℕ) : Stays SameBeside (tostring (rt.beside F) n) := by
  refine (stays_value n).bind fun v => ?_
  cases (rt.beside F).text v with
  | none => exact Stays.pure _
  | some text => exact fun _ => rfl

/-- **A protected call**: whatever the script does. -/
theorem stays_pcall (nargs nresults : ℕ) :
    Stays SameBeside (pcall (rt.beside F) nargs nresults) := by
  intro s
  unfold pcall
  split
  · rfl
  · split
    · rfl
    · rename_i h hcall
      obtain ⟨r, -, hr⟩ := Option.map_eq_some_iff.mp hcall
      rw [SameBeside, ← (Prod.mk.inj hr).2]
    · rename_i h hcall
      obtain ⟨r, -, hr⟩ := Option.map_eq_some_iff.mp hcall
      rw [SameBeside, ← (Prod.mk.inj hr).2]

end Unreached

end Lua
