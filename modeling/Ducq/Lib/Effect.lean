import Ducq.Lib.Fifo
import Mathlib.Algebra.Order.Group.Int
import Mathlib.Algebra.Order.Monoid.Defs
import Mathlib.Order.Defs.Unbundled

/-!
# What a program does to a measure of its state

A program over a state goes some way, and either returns a value or does not return; the
state it has come to is there in both cases.  Fix a measure of states with values in an
additive monoid, such as the height of a stack.  `Moves μ p P` says that whenever `p`
returns it has moved the measure by some amount, and that its value and the amount satisfy
`P`.

Amounts add up, so the rule for a sequence (`Moves.bind`) is the whole calculus: what is
left to show of the second program is the postcondition shifted by what the first one
did.  Programs that do not return satisfy everything, and a claim that a program does
return needs a separate argument.

What is to hold however far a program comes is a preorder between states, and `Stays` is
the calculus of that.

Along a run of steps none of which takes the measure down, the measure is where it was
exactly if no step has moved it (`measure_run_eq_iff`).
-/

namespace Effect

open Fifo

/-- A program: from a state, the value it returns, if it does, and the state it comes to. -/
def Prog (S α : Type) := S → Option α × S

variable {S M α β : Type}

instance : Monad (Prog S) where
  pure a := fun s => (some a, s)
  bind p f := fun s =>
    match p s with
    | (none, t) => (none, t)
    | (some a, t) => f a t

/-! ## Programs -/

section Programs

/-- A sequence whose first program does not return. -/
theorem bind_of_none {p : Prog S α} {f : α → Prog S β} {s t : S} (h : p s = (none, t)) :
    (p >>= f) s = (none, t) := by
  show (match p s with | (none, t) => (none, t) | (some a, t) => f a t) = (none, t)
  rw [h]

/-- A sequence whose first program returns. -/
theorem bind_of_some {p : Prog S α} {f : α → Prog S β} {s t : S} {a : α}
    (h : p s = (some a, t)) : (p >>= f) s = f a t := by
  show (match p s with | (none, t) => (none, t) | (some a, t) => f a t) = f a t
  rw [h]

/-- How a sequence of two programs returns. -/
theorem bind_eq_some {p : Prog S α} {f : α → Prog S β} {s t : S} {b : β} :
    (p >>= f) s = (some b, t) ↔ ∃ a r, p s = (some a, r) ∧ f a r = (some b, t) := by
  rcases hp : p s with ⟨_ | a, r⟩
  · rw [bind_of_none hp]
    simp
  · rw [bind_of_some hp]
    constructor
    · exact fun h => ⟨a, r, rfl, h⟩
    · rintro ⟨a', r', har, h⟩
      obtain ⟨ha, rfl⟩ := Prod.mk.inj har
      rwa [Option.some.inj ha]

variable [AddMonoid M] {μ : S → M}

/-- Whenever `p` returns, it has moved `μ` by an amount that satisfies `P` together with
the value returned. -/
def Moves (μ : S → M) (p : Prog S α) (P : α → M → Prop) : Prop :=
  ∀ s a t, p s = (some a, t) → ∃ δ, μ t = μ s + δ ∧ P a δ

theorem Moves.pure {a : α} {P : α → M → Prop} (h : P a 0) : Moves μ (pure a : Prog S α) P := by
  intro s b t ht
  obtain ⟨hb, rfl⟩ := Prod.mk.inj ht
  obtain rfl := Option.some.inj hb
  exact ⟨0, (add_zero _).symm, h⟩

theorem Moves.mono {p : Prog S α} {P Q : α → M → Prop} (h : Moves μ p P)
    (hPQ : ∀ a δ, P a δ → Q a δ) : Moves μ p Q := by
  intro s a t ht
  obtain ⟨δ, hμ, hP⟩ := h s a t ht
  exact ⟨δ, hμ, hPQ a δ hP⟩

/-- **The rule for a sequence.** -/
theorem Moves.bind {p : Prog S α} {f : α → Prog S β} {P : α → M → Prop} {Q : β → M → Prop}
    (hp : Moves μ p P) (hf : ∀ a δ, P a δ → Moves μ (f a) fun b ε => Q b (δ + ε)) :
    Moves μ (p >>= f) Q := by
  intro s b t ht
  obtain ⟨a, r, hr, hfr⟩ := bind_eq_some.mp ht
  obtain ⟨δ, hδ, hP⟩ := hp s a r hr
  obtain ⟨ε, hε, hQ⟩ := hf a δ hP r b t hfr
  exact ⟨δ + ε, by rw [hε, hδ, add_assoc], hQ⟩

theorem Moves.ite {c : Prop} [Decidable c] {p q : Prog S α} {P : α → M → Prop}
    (hp : c → Moves μ p P) (hq : ¬ c → Moves μ q P) : Moves μ (if c then p else q) P := by
  split_ifs with hc
  · exact hp hc
  · exact hq hc

end Programs

section Stays

variable {R : S → S → Prop}

/-- However far `p` comes, it stays in `R`. -/
def Stays (R : S → S → Prop) (p : Prog S α) : Prop := ∀ s, R s (p s).2

theorem Stays.mono {R' : S → S → Prop} {p : Prog S α} (h : Stays R p)
    (hR : ∀ s t, R s t → R' s t) : Stays R' p := fun s => hR s _ (h s)

theorem Stays.ite {c : Prop} [Decidable c] {p q : Prog S α} (hp : c → Stays R p)
    (hq : ¬ c → Stays R q) : Stays R (if c then p else q) := by
  split_ifs with hc
  · exact hp hc
  · exact hq hc

variable [IsPreorder S R]

theorem Stays.pure (a : α) : Stays R (pure a : Prog S α) := fun s => refl_of R s

/-- **The rule for a sequence**, the second program being one for a value that the first
returns. -/
theorem Stays.bind_of {p : Prog S α} {f : α → Prog S β} (hp : Stays R p)
    (hf : ∀ s a t, p s = (some a, t) → Stays R (f a)) : Stays R (p >>= f) := by
  intro s
  have hps := hp s
  rcases hr : p s with ⟨_ | a, r⟩
  · rw [bind_of_none hr]
    rwa [hr] at hps
  · rw [bind_of_some hr]
    rw [hr] at hps
    exact trans_of R hps (hf s a r hr r)

theorem Stays.bind {p : Prog S α} {f : α → Prog S β} (hp : Stays R p)
    (hf : ∀ a, Stays R (f a)) : Stays R (p >>= f) := hp.bind_of fun _ a _ _ => hf a

end Stays

/-! ## Runs -/

/-- **Along a run that never takes the measure down**, every state on the way has the
measure of the first one exactly if every step is one of those that leave it. -/
theorem measure_run_eq_iff {ε : Type} {step : S → ε → S → Prop} {μ : S → ℤ} {flat : ε → Prop}
    {after : ε → S} (hstep : ∀ s e t, step s e t → after e = t ∧ μ s ≤ μ t ∧ (μ t = μ s ↔ flat e))
    {s t : S} {es : List ε} (hrun : Run step s es t) :
    μ s ≤ μ t ∧ ((∀ e ∈ es, μ (after e) = μ s) ↔ ∀ e ∈ es, flat e) := by
  induction hrun with
  | nil s => exact ⟨le_rfl, iff_of_true (fun e he => absurd he List.not_mem_nil)
      fun e he => absurd he List.not_mem_nil⟩
  | @cons s r t e es hse _ ih =>
    obtain ⟨hafter, hle, hflat⟩ := hstep _ _ _ hse
    refine ⟨hle.trans ih.1, ?_⟩
    rw [List.forall_mem_cons, List.forall_mem_cons, hafter, hflat]
    refine and_congr_right fun he => ?_
    rw [← ih.2, hflat.mpr he]

/-- Each step that does move the measure adds at least one to it. -/
theorem measure_run_ge {ε : Type} {step : S → ε → S → Prop} {μ : S → ℤ} {flat : ε → Prop}
    [DecidablePred flat]
    (hstep : ∀ s e t, step s e t → μ s ≤ μ t ∧ (¬ flat e → μ s + 1 ≤ μ t))
    {s t : S} {es : List ε} (hrun : Run step s es t) :
    μ s + es.countP (fun e => ¬ flat e) ≤ μ t := by
  induction hrun with
  | nil s => simp
  | @cons s r t e es hse _ ih =>
    obtain ⟨hle, hadd⟩ := hstep _ _ _ hse
    rw [List.countP_cons]
    by_cases he : flat e
    · simp only [he, not_true_eq_false, decide_false, Bool.false_eq_true, if_false]
      push_cast
      omega
    · have hone := hadd he
      simp only [he, not_false_eq_true, decide_true, if_true]
      push_cast
      omega

end Effect
