import Ducq.Core.Parse

/-!
# `ducq.c`: what an answer says

`ducq_ack_to_state` reads the state a peer answers with: `ACK`, or a decimal number behind
the first newline.  The number is a `long` when it is compared with zero and a `ducq_state`,
which has half the bits, when it is returned.  A refusal whose number ends in 32 zero bits
therefore passes the test and is returned as `DUCQ_OK`; `refuses_iff` says which these are.

The texts of a state are looked up at an index that `_sanitize_state` computes, by taking
the absolute value and cutting off what is too large.  The least `int` has no absolute
value, and an answer can spell it (`looksInside_iff`).
-/

namespace Ducq

open CMemory CNumber

/-! ## `ducq_ack_to_state` -/

/-- The word of an answer that accepts. -/
def ackWord : List Byte := ascii "ACK"

/-- `ducq_ack_to_state`.  The conversion of the `long` to a `ducq_state` keeps the low 32
bits. -/
def ducqAckToState (msg : List Byte) : ℕ :=
  if ackWord <+: cstr msg then DucqState.ok.code
  else match ducqParsePayload msg with
    | none => DucqState.emsginv.code
    | some payload =>
      let ack := strtol payload
      if ack = 0 then DucqState.emsginv.code else (ack % 2 ^ 32).toNat

/-- The message is an answer behind whose first newline the number `z` is spelled. -/
def Answers (msg : List Byte) (z : ℤ) : Prop :=
  ¬ ackWord <+: cstr msg ∧ (ducqParsePayload msg).map spelled = some z

/-- `DUCQ_OK` is what `ACK` says, and nothing else. -/
def Refuses (msg : List Byte) : Prop :=
  ducqAckToState msg = DucqState.ok.code ↔ ackWord <+: cstr msg

instance (msg : List Byte) : Decidable (Refuses msg) :=
  inferInstanceAs (Decidable (_ ↔ _))

/-- The number is not zero, and a `long` that is as near to it as can be ends in 32 zero
bits. -/
def EndsInZeros (z : ℤ) : Prop := z ≠ 0 ∧ (z < -2 ^ 63 ∨ z < 2 ^ 63 ∧ 2 ^ 32 ∣ z)

theorem ducqAckToState_of_ack {msg : List Byte} (h : ackWord <+: cstr msg) :
    ducqAckToState msg = DucqState.ok.code := if_pos h

/-- Without a newline there is no number. -/
theorem ducqAckToState_of_none {msg : List Byte} (h : ¬ ackWord <+: cstr msg)
    (hpayload : ducqParsePayload msg = none) :
    ducqAckToState msg = DucqState.emsginv.code := by
  rw [ducqAckToState, if_neg h, hpayload]

theorem ducqAckToState_of_answers {msg : List Byte} {z : ℤ} (h : Answers msg z) :
    ducqAckToState msg =
      if z = 0 then DucqState.emsginv.code else (saturate z % 2 ^ 32).toNat := by
  obtain ⟨hack, hpayload⟩ := h
  obtain ⟨payload, hparse, rfl⟩ := Option.map_eq_some_iff.mp hpayload
  rw [ducqAckToState, if_neg hack, hparse]
  simp only [strtol_eq_saturate, saturate_eq_zero_iff]

/-- What a message is: an `ACK`, an answer with a number, or neither. -/
theorem answer_cases (msg : List Byte) :
    ackWord <+: cstr msg ∨ (∃ z, Answers msg z) ∨
      (¬ ackWord <+: cstr msg ∧ ducqParsePayload msg = none) := by
  by_cases hack : ackWord <+: cstr msg
  · exact Or.inl hack
  · refine Or.inr ?_
    cases hpayload : ducqParsePayload msg with
    | none => exact Or.inr ⟨hack, rfl⟩
    | some payload => exact Or.inl ⟨spelled payload, hack, by rw [hpayload]; rfl⟩

/-- A message spells one number at most. -/
theorem Answers.unique {msg : List Byte} {z z' : ℤ} (h : Answers msg z) (h' : Answers msg z') :
    z = z' := Option.some.inj (h.2.symm.trans h'.2)

/-- **A refusal is decoded as success exactly if its number ends in zeros.** -/
theorem refuses_iff (msg : List Byte) :
    Refuses msg ↔ ∀ z, Answers msg z → ¬ EndsInZeros z := by
  rcases answer_cases msg with hack | ⟨z, hz⟩ | ⟨hack, hnone⟩
  · refine iff_of_true (iff_of_true (ducqAckToState_of_ack hack) hack) ?_
    exact fun z hz => absurd hack hz.1
  · have hall : (∀ z', Answers msg z' → ¬ EndsInZeros z') ↔ ¬ EndsInZeros z :=
      ⟨fun h => h z hz, fun h z' hz' => hz.unique hz' ▸ h⟩
    have hok : ducqAckToState msg = DucqState.ok.code ↔ EndsInZeros z := by
      rw [ducqAckToState_of_answers hz, EndsInZeros, Int.dvd_iff_emod_eq_zero,
        ← saturate_emod_eq_zero_iff]
      have hpos : 0 ≤ saturate z % 2 ^ 32 := Int.emod_nonneg _ (by decide)
      split_ifs with h0
      · exact iff_of_false (by decide) fun h => h.1 h0
      · rw [and_iff_right h0]
        show (saturate z % 2 ^ 32).toNat = 0 ↔ _
        omega
    rw [hall, Refuses, hok, iff_false_right hz.1]
  · refine iff_of_true (iff_of_false ?_ hack) fun z hz => ?_
    · rw [ducqAckToState_of_none hack hnone]
      decide
    · have hsome := hz.2
      rw [hnone] at hsome
      exact absurd hsome (Option.some_ne_none z).symm

/-- A refusal with the number `2 ^ 32`. -/
theorem not_refuses_fourGiB : ¬ Refuses (ascii "NACK *\n4294967296\nerror" ++ [0]) := by
  decide

/-! ## Looking a state up -/

/-- The index that is looked up lies inside the table. -/
def LooksInside (state : ℤ) : Prop :=
  0 ≤ sanitizeState state ∧ sanitizeState state ≤ stateStr.length - 1

instance (state : ℤ) : Decidable (LooksInside state) :=
  inferInstanceAs (Decidable (_ ∧ _))

/-- `state_str[state]`; there is nothing outside the table. -/
def stateRow (state : ℤ) : Option (String × String) :=
  if sanitizeState state < 0 then none else stateStr[(sanitizeState state).toNat]?

/-- `ducq_state_short`: the name behind `DUCQ_`. -/
def ducqStateShort (state : ℤ) : Option (List Byte) :=
  (stateRow state).map fun row =>
    if sanitizeState state ≠ DucqState.ok.code then (ascii row.1).drop 5 else ascii row.1

/-- **There is a row exactly inside the table.** -/
theorem stateRow_isSome_iff (state : ℤ) : (stateRow state).isSome ↔ LooksInside state := by
  rw [stateRow, LooksInside]
  split_ifs with h
  · exact iff_of_false Bool.false_ne_true fun h' => absurd h'.1 (not_le.mpr h)
  · rw [isSome_getElem?]
    omega

theorem ducqStateShort_isSome_iff (state : ℤ) :
    (ducqStateShort state).isSome ↔ LooksInside state := by
  rw [ducqStateShort, Option.isSome_map, stateRow_isSome_iff]

/-- Inside the table the text is the one of the row. -/
theorem ducqStateTostr_of_stateRow {state : ℤ} {row : String × String}
    (h : stateRow state = some row) : ducqStateTostr state = ascii row.2 := by
  rw [stateRow] at h
  split_ifs at h
  rw [ducqStateTostr, List.getD_eq_getElem?_getD, h]
  rfl

/-- Of the numbers an `int` can be, the least alone is its own negation. -/
theorem looksInside_iff_ne {state : ℤ} (hle : -2 ^ 31 ≤ state) (hlt : state < 2 ^ 31) :
    LooksInside state ↔ state ≠ -2 ^ 31 := by
  have hlen : (stateStr.length : ℤ) = 24 := rfl
  rw [LooksInside, sanitizeState]
  simp only [hlen, wrap32]
  split_ifs <;> omega

/-- The number ends in the 32 bits of the least `int`, and a `long` holds it. -/
def EndsInLeast (z : ℤ) : Prop := -2 ^ 63 ≤ z ∧ z < 2 ^ 63 ∧ z % 2 ^ 32 = 2 ^ 31

/-- The `int` a state is passed on as. -/
theorem wrap32_ducqAckToState_eq_least_iff (msg : List Byte) :
    wrap32 (ducqAckToState msg) = -2 ^ 31 ↔ ∃ z, Answers msg z ∧ EndsInLeast z := by
  have hsmall : ∀ {n : ℕ}, n < 2 ^ 31 → wrap32 n ≠ -2 ^ 31 := by
    intro n hn
    rw [wrap32_of_lt hn]
    omega
  rcases answer_cases msg with hack | ⟨z, hz⟩ | ⟨hack, hnone⟩
  · rw [ducqAckToState_of_ack hack]
    exact iff_of_false (hsmall (by decide)) fun ⟨z, hz, _⟩ => hz.1 hack
  · have hex : (∃ z', Answers msg z' ∧ EndsInLeast z') ↔ EndsInLeast z :=
      ⟨fun ⟨z', hz', h⟩ => hz.unique hz' ▸ h, fun h => ⟨z, hz, h⟩⟩
    rw [hex, EndsInLeast, ← saturate_emod_eq_iff (by decide) (by decide),
      ducqAckToState_of_answers hz]
    split_ifs with h0
    · rw [h0]
      decide
    · have hpos : 0 ≤ saturate z % 2 ^ 32 := Int.emod_nonneg _ (by decide)
      have hlt : saturate z % 2 ^ 32 < 2 ^ 32 := Int.emod_lt_of_pos _ (by decide)
      rw [Int.toNat_of_nonneg hpos]
      unfold wrap32
      split_ifs <;> omega
  · rw [ducqAckToState_of_none hack hnone]
    refine iff_of_false (hsmall (by decide)) fun ⟨z, hz, _⟩ => ?_
    have hsome := hz.2
    rw [hnone] at hsome
    exact Option.some_ne_none z hsome.symm

/-- An `int` is one. -/
theorem wrap32_bounds (z : ℤ) : -2 ^ 31 ≤ wrap32 z ∧ wrap32 z < 2 ^ 31 := by
  unfold wrap32
  split_ifs <;> omega

/-- **Every `int` but the least is looked up inside the table**, and so is every state an
answer brings, unless its number ends in the bits of the least.  Inside the table are the
states that have a name, and their texts are those of the table. -/
theorem looksInside_iff (state : Int32) (msg : List Byte) :
    (LooksInside state.toInt ↔ state ≠ Int32.minValue) ∧
      (LooksInside (wrap32 (ducqAckToState msg)) ↔ ∀ z, Answers msg z → ¬ EndsInLeast z) ∧
      ∀ n : ℤ, ((ducqStateShort n).isSome ↔ LooksInside n) ∧
        ∀ row ∈ stateRow n, ducqStateTostr n = ascii row.2 := by
  refine ⟨?_, ?_, fun n => ⟨ducqStateShort_isSome_iff n, fun _ => ducqStateTostr_of_stateRow⟩⟩
  · rw [looksInside_iff_ne state.le_toInt state.toInt_lt, ne_eq, ne_eq, ← Int32.toInt_inj,
      Int32.toInt_minValue]
  · obtain ⟨hle, hlt⟩ := wrap32_bounds (ducqAckToState msg)
    rw [looksInside_iff_ne hle hlt, ne_eq, wrap32_ducqAckToState_eq_least_iff, not_exists]
    simp only [not_and]

/-- The least `int`, and an answer that spells it. -/
theorem not_looksInside_least :
    ¬ LooksInside Int32.minValue.toInt ∧
      ¬ LooksInside (wrap32 (ducqAckToState (ascii "NACK *\n-2147483648\n" ++ [0]))) := by
  decide

/-- A state, a number that is none, and one that is outside. -/
example : ([-14, 999, -2147483648].map fun state => (stateRow state).map Prod.fst) =
    [some "DUCQ_ETIMEOUT", some "DUCQ_UNKNOWN", none] := by decide

end Ducq
