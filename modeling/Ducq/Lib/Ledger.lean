import Mathlib.Algebra.Order.Group.Multiset
import Mathlib.Data.Multiset.AddSub

/-!
# Resources acquired and released

A program acquires resources and releases them.  `Leads s es t` says that from holding `s` the
calls `es` lead to holding `t`, and that nothing was released that was not held: there is no
such `t` if a resource is released once too often, and there is never more than one
(`Leads.unique`).

Calls do not mind what else is held (`Leads.add`), and so what one part of a program does is
proved for what that part holds, and the parts are put together with `Leads.append`.
-/

namespace Ledger

variable {ρ : Type*}

/-- A call that acquires a resource, or one that releases it. -/
inductive Entry (ρ : Type*) where
  | acquire (r : ρ)
  | release (r : ρ)

/-- From holding some resources, calls lead to holding others, and release only what is held. -/
inductive Leads : Multiset ρ → List (Entry ρ) → Multiset ρ → Prop
  | nil (s : Multiset ρ) : Leads s [] s
  | acquire {r : ρ} {s t : Multiset ρ} {es : List (Entry ρ)} :
      Leads (r ::ₘ s) es t → Leads s (.acquire r :: es) t
  | release {r : ρ} {s t : Multiset ρ} {es : List (Entry ρ)} :
      Leads s es t → Leads (r ::ₘ s) (.release r :: es) t

variable {s t u : Multiset ρ} {es es' : List (Entry ρ)}

theorem Leads.append (h : Leads s es t) (h' : Leads t es' u) : Leads s (es ++ es') u := by
  induction h with
  | nil s => exact h'
  | acquire _ ih => exact .acquire (ih h')
  | release _ ih => exact .release (ih h')

/-- **What else is held stays held.** -/
theorem Leads.add (h : Leads s es t) (u : Multiset ρ) : Leads (s + u) es (t + u) := by
  induction h with
  | nil s => exact .nil _
  | acquire _ ih =>
    rw [Multiset.cons_add] at ih
    exact .acquire ih
  | release _ ih =>
    rw [Multiset.cons_add]
    exact .release ih

/-- Calls that begin with nothing leave what each of them leaves. -/
theorem Leads.append_add (h : Leads 0 es t) (h' : Leads 0 es' u) : Leads 0 (es ++ es') (t + u) := by
  have hrest := h'.add t
  rw [zero_add, add_comm u t] at hrest
  exact h.append hrest

/-- **The calls say what is held.** -/
theorem Leads.unique (h : Leads s es t) (h' : Leads s es u) : t = u := by
  induction h with
  | nil s =>
    cases h'
    rfl
  | acquire _ ih =>
    cases h' with
    | acquire h' => exact ih h'
  | @release r s t es _ ih =>
    generalize hs : r ::ₘ s = s' at h'
    cases h' with
    | release h' =>
      obtain rfl := (Multiset.cons_inj_right r).mp hs
      exact ih h'

/-- Several resources, one after the other. -/
theorem leads_release (rs : List ρ) (s : Multiset ρ) :
    Leads ((rs : Multiset ρ) + s) (rs.map .release) s := by
  induction rs with
  | nil =>
    rw [Multiset.coe_nil, zero_add]
    exact .nil s
  | cons r rs ih =>
    rw [← Multiset.cons_coe, Multiset.cons_add]
    exact .release ih

/-- A resource that may be held. -/
theorem leads_release_if (b : Bool) (r : ρ) (s : Multiset ρ) :
    Leads ((if b then {r} else 0) + s) (if b then [.release r] else []) s := by
  cases b with
  | true => exact leads_release [r] s
  | false =>
    rw [if_neg Bool.false_ne_true, if_neg Bool.false_ne_true, zero_add]
    exact .nil s

/-- Acquired and released at once. -/
theorem leads_acquire_release (r : ρ) (s : Multiset ρ) :
    Leads s [.acquire r, .release r] s := .acquire (.release (.nil s))

end Ledger
