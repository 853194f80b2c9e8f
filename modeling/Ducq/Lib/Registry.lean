import Ducq.Lib.Sweep
import Mathlib.Data.Finset.Card
import Mathlib.Data.Finset.Insert

/-!
# A bounded registry

What a table of connections is for, with the table left out.  A registry holds keys,
each with a value, and besides them a number of other entries that take up room and
are never asked for.  There is no order and there are no slots: a loop over the
registry visits its entries in *some* order, an `Enumeration`, and may stop early or
remove what it visits, as its control says.

`Step` is one operation with what it answers; `Run` is a sequence of them.  A table
implements the registry when every run of the table is a run of some registry with the
same answers.
-/

open Sweep

/-- A registry with room for `capacity` entries. -/
structure Registry (K V : Type*) (capacity : ℕ) where
  keys : Finset K
  value : K → V
  others : ℕ
  bounded : keys.card + others ≤ capacity

namespace Registry

variable {K V : Type*} {capacity : ℕ}

/-- Nothing registered. -/
def empty (blank : V) : Registry K V capacity :=
  ⟨∅, fun _ => blank, 0, by
    rw [Finset.card_empty]
    exact Nat.zero_le capacity⟩

/-- No room is left. -/
def Full (r : Registry K V capacity) : Prop := r.keys.card + r.others = capacity

/-- The entries in some order, each once. -/
structure Enumeration (r : Registry K V capacity) where
  entries : List (K × V)
  nodup : (entries.map Prod.fst).Nodup
  mem_iff : ∀ k v, (k, v) ∈ entries ↔ k ∈ r.keys ∧ r.value k = v

/-- What a visitor answers: whether the loop stops, whether the entry goes. -/
structure Control where
  stop : Bool
  remove : Bool

/-- One turn of a loop, over what has been visited and what goes. -/
def visitTurn (control : List (K × V) → Control) (e : K × V) :
    List (K × V) × List K → Bool × List (K × V) × List K
  | (seen, gone) =>
    let c := control (seen ++ [e])
    (c.stop, seen ++ [e], if c.remove then gone ++ [e.1] else gone)

/-- A loop over entries: what it visits, and the keys it removes. -/
def visit (control : List (K × V) → Control) (es : List (K × V)) : List (K × V) × List K :=
  sweep (visitTurn control) es ([], [])

section Operations

variable [DecidableEq K]

/-- A new key with its value. -/
def insert (r : Registry K V capacity) (k : K) (v : V) (hk : k ∉ r.keys) (hroom : ¬ r.Full) :
    Registry K V capacity where
  keys := Insert.insert k r.keys
  value := Function.update r.value k v
  others := r.others
  bounded := by
    have hb := r.bounded
    rw [Full] at hroom
    rw [Finset.card_insert_of_notMem hk]
    omega

/-- A new entry of the other kind. -/
def addOther (r : Registry K V capacity) (hroom : ¬ r.Full) : Registry K V capacity where
  keys := r.keys
  value := r.value
  others := r.others + 1
  bounded := by
    have hb := r.bounded
    rw [Full] at hroom
    omega

/-- A new value for a key. -/
def write (r : Registry K V capacity) (k : K) (v : V) : Registry K V capacity :=
  { r with value := Function.update r.value k v }

/-- Some keys removed. -/
def removeAll (r : Registry K V capacity) (ks : List K) : Registry K V capacity where
  keys := r.keys.filter (· ∉ ks)
  value := r.value
  others := r.others
  bounded := by
    have hb := r.bounded
    have hle := Finset.card_filter_le r.keys (· ∉ ks)
    omega

/-- Only the keys with some property. -/
def retain (r : Registry K V capacity) (p : K → Bool) : Registry K V capacity where
  keys := r.keys.filter fun k => p k = true
  value := r.value
  others := r.others
  bounded := by
    have hb := r.bounded
    have hle := Finset.card_filter_le r.keys fun k => p k = true
    omega

end Operations

/-- What one can ask of a registry. -/
inductive Op (K V : Type*) where
  | add (k : K)
  | addOther
  | write (k : K) (v : V)
  | remove (k : K)
  | loop (control : List (K × V) → Control)

/-- What it answers. -/
inductive Result (K V : Type*) where
  | accepted
  | refused
  | visited (es : List (K × V))

/-- One operation, from a registry to the next, with its answer.  A new key starts with
`blank`. -/
inductive Step [DecidableEq K] (blank : V) :
    Registry K V capacity → Op K V → Result K V → Registry K V capacity → Prop where
  | add {r : Registry K V capacity} {k : K} (hk : k ∉ r.keys) (hroom : ¬ r.Full) :
      Step blank r (.add k) .accepted (r.insert k blank hk hroom)
  | addFull {r : Registry K V capacity} {k : K} (hfull : r.Full) :
      Step blank r (.add k) .refused r
  | addOther {r : Registry K V capacity} (hroom : ¬ r.Full) :
      Step blank r .addOther .accepted (r.addOther hroom)
  | addOtherFull {r : Registry K V capacity} (hfull : r.Full) :
      Step blank r .addOther .refused r
  | write {r : Registry K V capacity} {k : K} (hk : k ∈ r.keys) (v : V) :
      Step blank r (.write k v) .accepted (r.write k v)
  | remove {r : Registry K V capacity} {k : K} (hk : k ∈ r.keys) :
      Step blank r (.remove k) .accepted (r.removeAll [k])
  | removeMissing {r : Registry K V capacity} {k : K} (hk : k ∉ r.keys) :
      Step blank r (.remove k) .refused r
  | loop {r : Registry K V capacity} (control : List (K × V) → Control) (es : Enumeration r) :
      Step blank r (.loop control) (.visited (visit control es.entries).1)
        (r.removeAll (visit control es.entries).2)

/-- A sequence of operations. -/
inductive Run [DecidableEq K] (blank : V) :
    Registry K V capacity → List (Op K V) → List (Result K V) → Registry K V capacity → Prop where
  | nil (r : Registry K V capacity) : Run blank r [] [] r
  | cons {r r' r'' : Registry K V capacity} {op : Op K V} {res : Result K V}
      {ops : List (Op K V)} {ress : List (Result K V)} (h : Step blank r op res r')
      (hs : Run blank r' ops ress r'') : Run blank r (op :: ops) (res :: ress) r''

/-- **A visitor that never stops visits everything**, and removes nothing if it never
asks to. -/
theorem visit_of_continue (es : List (K × V)) :
    visit (fun _ => ⟨false, false⟩) es = (es, []) := by
  have key : ∀ (es seen : List (K × V)),
      sweep (visitTurn fun _ => ⟨false, false⟩) es (seen, []) = (seen ++ es, ([] : List K)) := by
    intro es
    induction es with
    | nil => intro seen; simp
    | cons e es ih =>
      intro seen
      rw [sweep_cons_go rfl]
      simpa [visitTurn] using ih (seen ++ [e])
  simpa [visit] using key es []

end Registry
