import ScalarSsa.Proofs.Number.Zeros
import ScalarSsa.Proofs.Pass.ControlRuns
import ScalarSsa.Proofs.Pass.Preservation

/-!
# The standard pipeline cannot be seen

**Input.** A function that can be run.

**Definitions.** `Function.foldStages` lists the functions that the standard pipeline looks
for a fold in.  A function is `zerosApart` if none of its phis merges both zeros.

**Results.** `refines_standard`: what the standard pipeline makes of a function does the
same in no more steps, up to a relation that holds between the constants that phis merge
where they fold.  Both zeros count as one there (`agreeing_zeroLike`), and where they are
apart, nothing but the number of steps differs (`agreeing_of_zerosApart`).
-/

namespace ScalarSsa

/-- Whether an instruction is a phi that merges both zeros. -/
def InstrKind.mergesZeros : InstrKind → Bool
  | .phi _ incoming =>
    (incoming.any fun edge => decide (edge.1 = .const 0.0)) && incoming.any fun edge =>
      decide (edge.1 = .const (-0.0))
  | _ => false

/-- Whether no phi merges both zeros. -/
def Function.zerosApart (f : Function) : Bool :=
  f.instrs.all fun i => !i.kind.mergesZeros

/-- What comes up while a step is repeated. -/
def stages {α : Type} (step : α → Option α) : (fuel : Nat) → α → List α
  | 0, a => [a]
  | fuel + 1, a =>
    match step a with
    | some b => a :: stages step fuel b
    | none => [a]

/-- The functions that the standard pipeline looks for a fold in. -/
def Function.foldStages (f : Function) : List Function :=
  let simplified := (Pass.branches.run (Pass.folding.run f).function).function
  stages Pass.foldOnce? f.instrCount f ++
    stages Pass.foldOnce? simplified.instrCount simplified

open Machine

variable {rel : Float → Float → Prop} {f : Function}

/-! ## Zeros that meet in a phi -/

/-- Operands that are the same are one operand, or zeros. -/
theorem operandLike_of_same
    {x y : Operand}
    (h : x.same y = true) :
    OperandLike ZeroLike x y := by
  unfold Operand.same at h
  split at h
  · exact .inr ⟨_, _, rfl, rfl, zeroLike_of_beq h⟩
  · exact .inl (congrArg Operand.bool (beq_iff_eq.1 h))
  · exact .inl (congrArg Operand.arg (beq_iff_eq.1 h))
  · exact .inl (congrArg Operand.result (beq_iff_eq.1 h))
  · cases h

theorem agreeing_zeroLike
    (f : Function) :
    f.Agreeing ZeroLike :=
  fun _ _ _ _ _ _ _ _ _ hsame => operandLike_of_same hsame

theorem eq_of_zeroLike
    {x y : Float}
    (h : ZeroLike x y)
    (hxy : ¬(x = 0.0 ∧ y = -0.0))
    (hyx : ¬(y = 0.0 ∧ x = -0.0)) :
    x = y := by
  rcases h with h | ⟨rfl | rfl, rfl | rfl⟩
  · exact h
  · rfl
  · exact absurd ⟨rfl, rfl⟩ hxy
  · exact absurd ⟨rfl, rfl⟩ hyx
  · rfl

theorem agreeing_of_zerosApart
    (h : f.zerosApart = true) :
    f.Agreeing Eq := by
  intro i hi type incoming hkind o hfold edge hedge hsame
  have hapart : ∀ x ∈ incoming, ∀ y ∈ incoming,
      ¬(x.1 = .const 0.0 ∧ y.1 = .const (-0.0)) := by
    rintro x hx y hy ⟨hpos, hneg⟩
    have hno := List.all_eq_true.1 h i hi
    simp only [hkind, InstrKind.mergesZeros, Bool.not_eq_true', Bool.and_eq_false_iff,
      List.any_eq_false,
      decide_eq_true_eq] at hno
    rcases hno with hno | hno
    · exact hno x hx hpos
    · exact hno y hy hneg
  obtain ⟨other, hother, rfl⟩ := List.mem_map.1 (Pass.phi_agreed hkind hfold).1
  rcases operandLike_of_same hsame with heq | ⟨x, y, hx, hy, hxy⟩
  · exact .inl heq
  · refine .inr ⟨x, y, hx, hy, eq_of_zeroLike hxy ?_ ?_⟩
    · rintro ⟨rfl, rfl⟩
      exact hapart edge hedge other hother ⟨hx, hy⟩
    · rintro ⟨rfl, rfl⟩
      exact hapart other hother edge hedge ⟨hy, hx⟩

/-! ## Passes and the pipeline -/

namespace Pass

section

variable (hrel : Tolerance rel) (hf : Runnable f)

include hrel hf

/--
Whatever steps lead to, if each of them leads from one function that can be run to another
that refines it.
-/
theorem refines_exhaust
    {step : Function → Option Function}
    {P : Function → Prop}
    (hstep : ∀ g g', Runnable g → P g → step g = some g' → P g' ∧ Runnable g' ∧
      Refines rel g g')
    (hP : P f)
    (fuel : Nat) :
    Runnable (exhaust step fuel f) ∧ Refines rel f (exhaust step fuel f) := by
  refine (exhaust_invariant (P := fun g => P g ∧ Runnable g ∧ Refines rel f g) ?_ fuel f
    ⟨hP, hf, hf.refines_self hrel⟩).2
  rintro g g' hg ⟨hPg, hrunnable, hrefines⟩
  obtain ⟨hP', hrunnable', hrefines'⟩ := hstep g g' hrunnable hPg hg
  exact ⟨hP', hrunnable', hrefines.trans hrel hrefines'⟩

theorem refines_folds
    (fuel : Nat)
    (hagreeing : ∀ g ∈ stages foldOnce? fuel f, g.Agreeing rel) :
    Runnable (exhaust foldOnce? fuel f) ∧ Refines rel f (exhaust foldOnce? fuel f) := by
  induction fuel generalizing f with
  | zero => exact ⟨hf, hf.refines_self hrel⟩
  | succ fuel ih =>
      unfold stages at hagreeing
      unfold exhaust
      cases hstep : foldOnce? f with
      | none => exact ⟨hf, hf.refines_self hrel⟩
      | some g =>
          simp only [hstep, List.forall_mem_cons] at hagreeing
          obtain ⟨hg, hrefines⟩ := refines_foldOnce? hrel hf hagreeing.1 hstep
          obtain ⟨hlast, hrefines'⟩ := ih hg hagreeing.2
          exact ⟨hlast, hrefines.trans hrel hrefines'⟩

theorem refines_folding
    (hagreeing : ∀ g ∈ stages foldOnce? f.instrCount f, g.Agreeing rel) :
    Runnable (folding.run f).function ∧ Refines rel f (folding.run f).function :=
  refines_folds hrel hf f.instrCount hagreeing

theorem refines_branches :
    Runnable (branches.run f).function ∧ Refines rel f (branches.run f).function := by
  obtain ⟨hsettled, hrefines⟩ := refines_settleAll hrel hf
  obtain ⟨hpruned, hrefines'⟩ := refines_pruneAll hrel hsettled
  have hall : (pruneAll (settleAll f)).AllReachable :=
    allReachable_pruneAll hsettled.wellFormed
  have hmerge : ∀ g g', Runnable g → g.AllReachable → mergeOnce? g = some g' →
      g'.AllReachable ∧ Runnable g' ∧ Refines rel g g' := fun g g' hg hall hstep =>
    ⟨(wellFormed_mergeOnce? hg.wellFormed hall hstep).2,
      refines_mergeOnce? hrel hg hall hstep⟩
  obtain ⟨hmerged, hrefines''⟩ :=
    refines_exhaust hrel hpruned hmerge hall (pruneAll (settleAll f)).blocks.length
  exact ⟨hmerged, (hrefines.trans hrel hrefines').trans hrel hrefines''⟩

theorem refines_unused :
    Runnable (unused.run f).function ∧ Refines rel f (unused.run f).function := by
  refine exhaust_invariant (P := fun p : Function × List Note =>
    Runnable p.1 ∧ Refines rel f p.1) ?_ f.instrCount (f, [])
    ⟨hf, hf.refines_self hrel⟩
  rintro ⟨g, journal⟩ p hstep ⟨hg, hrefines⟩
  obtain ⟨g', hround, rfl⟩ := Option.map_eq_some_iff.1 hstep
  obtain rfl := eq_keepUsed_of_removeUnused? hround
  obtain ⟨hg', hrefines'⟩ := refines_keepUsed hrel hg
  exact ⟨hg', hrefines.trans hrel hrefines'⟩

/-- What the standard pipeline makes of a function does the same in no more steps. -/
theorem refines_standard
    (hagreeing : ∀ g ∈ f.foldStages, g.Agreeing rel) :
    Runnable (Pipeline.run .standard f).function ∧
      Refines rel f (Pipeline.run .standard f).function := by
  obtain ⟨hfirst, hsecond⟩ := List.forall_mem_append.1 hagreeing
  obtain ⟨hfolded, h₁⟩ := refines_folding hrel hf hfirst
  obtain ⟨hbranches, h₂⟩ := refines_branches hrel hfolded
  obtain ⟨hfolded', h₃⟩ := refines_folding hrel hbranches hsecond
  obtain ⟨hunused, h₄⟩ := refines_unused hrel hfolded'
  rw [Pipeline.run, Version.function_run]
  simp only [Pipeline.standard, List.foldl_cons, List.foldl_nil]
  exact ⟨hunused, ((h₁.trans hrel h₂).trans hrel h₃).trans hrel h₄⟩

end

end Pass

end ScalarSsa
