import ScalarSsa.Flow.Exhaust

/-!
# Steps that are repeated to the end

**Definitions.** `Exhausts` says where a step leads that is repeated for as long as it
applies, with no bound on the number of times.

**Results.** `exhaust_invariant`: what every step preserves holds after all steps.
`exhausts_exhaust`: if every step makes a measure smaller, that measure is enough fuel, and
the steps end by themselves.  `Exhausts.eq_or_lt`: they then change nothing or end below
where they began.
-/

namespace ScalarSsa

variable {α : Type} {step : α → Option α}

/-- A step leads from one value to another one, where it does not apply any more. -/
inductive Exhausts (step : α → Option α) : α → α → Prop
  | stop {a : α} (h : step a = none) : Exhausts step a a
  | next {a b c : α} (h : step a = some b) (rest : Exhausts step b c) : Exhausts step a c

theorem Exhausts.stuck
    {a b : α}
    (h : Exhausts step a b) :
    step b = none := by
  induction h with
  | stop h => exact h
  | next _ _ ih => exact ih

/--
If a step does not apply at once, nothing changes, and otherwise the
measure becomes smaller.
-/
theorem Exhausts.eq_or_lt
    {P : α → Prop}
    (measure : α → Nat)
    (hstep : ∀ a b, step a = some b → P a → P b ∧ measure b < measure a)
    {a b : α}
    (h : Exhausts step a b)
    (ha : P a) :
    (step a = none ∧ b = a) ∨ ((step a).isSome = true ∧ measure b < measure a) := by
  induction h with
  | stop hnone => exact .inl ⟨hnone, rfl⟩
  | next hsome _ ih =>
      obtain ⟨hb, hless⟩ := hstep _ _ hsome ha
      refine .inr ⟨by rw [hsome]; rfl, ?_⟩
      rcases ih hb with ⟨-, rfl⟩ | ⟨-, hrest⟩
      · exact hless
      · omega

/-- What every step preserves holds after all steps. -/
theorem exhaust_invariant
    {P : α → Prop}
    (hstep : ∀ a b, step a = some b → P a → P b)
    (fuel : Nat)
    (a : α)
    (h : P a) :
    P (exhaust step fuel a) := by
  induction fuel generalizing a with
  | zero => exact h
  | succ fuel ih =>
      unfold exhaust
      cases hnext : step a with
      | none => exact h
      | some b => exact ih b (hstep a b hnext h)

/-- Steps that preserve something and make a measure smaller end within that measure. -/
theorem exhausts_exhaust
    {P : α → Prop}
    (measure : α → Nat)
    (hstep : ∀ a b, step a = some b → P a → P b ∧ measure b < measure a)
    (fuel : Nat)
    (a : α)
    (h : P a)
    (hfuel : measure a ≤ fuel) :
    Exhausts step a (exhaust step fuel a) := by
  induction fuel generalizing a with
  | zero =>
      cases hnext : step a with
      | none => exact .stop hnext
      | some b =>
          have hless := (hstep a b hnext h).2
          omega
  | succ fuel ih =>
      unfold exhaust
      cases hnext : step a with
      | none => exact .stop hnext
      | some b =>
          obtain ⟨hb, hless⟩ := hstep a b hnext h
          exact .next hnext (ih b hb (by omega))

end ScalarSsa
