import ScalarSsa.Proofs.Lowering.Steps

/-!
# Scopes around branches

**Input.** A conditional whose branches may bind names, and may fail.

**Definitions.** A computation `KeepsScope` if it leaves the scope in which it starts in
force, whether or not it fails.

**Results.** `keepsScope_conditional`: whatever the branches of a conditional bind
is seen neither by the other branch nor afterwards.  `keepsScope_lowerExpr`:
expressions keep the scope.
-/

namespace ScalarSsa
namespace Lowering

variable {α β : Type} {scope : Scope}

/-- The scope stays in force, whether or not the computation fails. -/
def KeepsScope (scope : Scope) (x : Lowering α) : Prop :=
  ∀ c : Context, c.scope = scope → Leaves x c fun d => d.scope = scope

namespace KeepsScope

theorem pure
    (a : α) :
    KeepsScope scope (Pure.pure a) :=
  fun _ hc => hc

theorem bind
    {x : Lowering α}
    {next : α → Lowering β}
    (h : KeepsScope scope x)
    (hnext : ∀ a, KeepsScope scope (next a)) :
    KeepsScope scope (x >>= next) :=
  fun c hc => (h c hc).bind fun a d hd => hnext a d hd

theorem get_bind
    {next : Context → Lowering α}
    (h : ∀ c : Context, c.scope = scope → KeepsScope scope (next c)) :
    KeepsScope scope (MonadState.get >>= next) :=
  fun c hc => .get_bind (h c hc c hc)

end KeepsScope

/-! ## Steps of lowering -/

theorem keepsScope_fail
    (e : LowerError) :
    KeepsScope scope (fail e : Lowering α) :=
  fun _ hc => hc

theorem keepsScope_onBuilder
    (op : StateM Builder α) :
    KeepsScope scope (liftM (onBuilder op)) :=
  fun _ hc => hc

theorem keepsScope_build
    (op : Build α) :
    KeepsScope scope (build op) := by
  intro c hc
  unfold Leaves
  rcases hop : op.run.run c.builder with ⟨e | a, b⟩
  · rw [run_build_error hop]
    exact hc
  · rw [run_build_ok hop]
    exact hc

theorem keepsScope_insertionPoint :
    KeepsScope scope insertionPoint := by
  refine .get_bind fun c _ => ?_
  cases c.builder.cursor with
  | none => exact keepsScope_fail _
  | some cursor => exact .pure cursor

theorem keepsScope_here
    (o : Operand) :
    KeepsScope scope (here o) :=
  keepsScope_insertionPoint.bind fun _ => .pure _

theorem keepsScope_built
    (op : Build Operand) :
    KeepsScope scope (do here (← build op)) :=
  (keepsScope_build op).bind keepsScope_here

theorem keepsScope_named
    (name : String) :
    KeepsScope scope (named name) := by
  refine .get_bind fun c _ => ?_
  cases c.scope.find? name with
  | none => exact keepsScope_fail _
  | some o => exact keepsScope_here o

theorem keepsScope_operation
    (op : Char)
    (x y : Operand) :
    KeepsScope scope (operation op x y) := by
  unfold operation
  split
  · exact keepsScope_built (Builder.arith .add x y)
  split
  · exact keepsScope_built (Builder.arith .sub x y)
  split
  · exact keepsScope_built (Builder.arith .mul x y)
  split
  · exact keepsScope_built (Builder.lessThan x y)
  · exact keepsScope_fail (.unknownOperator op)

theorem keepsScope_callee
    (name : String)
    (given : Nat) :
    KeepsScope scope (callee name given) := by
  refine .get_bind fun c _ => ?_
  simp only
  cases c.module.find? name with
  | none => exact keepsScope_fail _
  | some id =>
      simp only
      split
      · exact .pure id
      · exact keepsScope_fail _

/-- The scope is in force again after a branch, whatever the branch binds. -/
theorem keepsScope_restoring
    (scope : Scope)
    (branch : Lowering α) :
    KeepsScope scope (restoring scope branch) := by
  intro c _
  unfold Leaves
  rw [run_restoring]

/-! ## Conditionals and expressions -/

/--
What is bound in one branch is seen neither in the other one nor after the conditional.
-/
theorem keepsScope_conditional
    (x : Operand)
    (thenBranch elseBranch : Lowering Lowered) :
    KeepsScope scope (conditional x thenBranch elseBranch) := by
  refine (keepsScope_build _).bind fun flag => ?_
  refine keepsScope_insertionPoint.bind fun origin => ?_
  refine (keepsScope_build _).bind fun thenBlock => ?_
  refine (keepsScope_build _).bind fun elseBlock => ?_
  refine (keepsScope_build _).bind fun merge => ?_
  refine .get_bind fun c hc => ?_
  simp only [hc]
  refine (keepsScope_onBuilder _).bind fun _ => ?_
  refine (keepsScope_restoring scope thenBranch).bind fun thenEnd => ?_
  refine (keepsScope_onBuilder _).bind fun _ => ?_
  refine (keepsScope_restoring scope elseBranch).bind fun elseEnd => ?_
  refine (keepsScope_onBuilder _).bind fun _ => ?_
  refine (keepsScope_build _).bind fun value => ?_
  refine (keepsScope_onBuilder _).bind fun _ => ?_
  refine (keepsScope_build _).bind fun _ => ?_
  refine (keepsScope_onBuilder _).bind fun _ => ?_
  refine (keepsScope_build _).bind fun _ => ?_
  refine (keepsScope_onBuilder _).bind fun _ => ?_
  refine (keepsScope_build _).bind fun _ => ?_
  refine (keepsScope_onBuilder _).bind fun _ => ?_
  exact fun _ hd => hd

mutual

/-- Lowering an expression keeps the scope, with success or without. -/
theorem keepsScope_lowerExpr :
    ∀ e : Expr, KeepsScope scope (lowerExpr e)
  | .number x => keepsScope_here (.const x)
  | .var name => keepsScope_named name
  | .binary op lhs rhs => by
      rw [lowerExpr]
      refine (keepsScope_lowerExpr lhs).bind fun l => ?_
      exact (keepsScope_lowerExpr rhs).bind fun r =>
        keepsScope_operation op l.operand r.operand
  | .call name args => by
      rw [lowerExpr]
      refine (keepsScope_callee name args.length).bind fun id => ?_
      exact (keepsScope_lowerArgs args).bind fun operands => keepsScope_built _
  | .cond test thenBranch elseBranch => by
      rw [lowerExpr]
      exact (keepsScope_lowerExpr test).bind fun t => keepsScope_conditional t.operand _ _

theorem keepsScope_lowerArgs :
    ∀ es : List Expr, KeepsScope scope (lowerArgs es)
  | [] => .pure []
  | e :: rest => by
      rw [lowerArgs]
      refine (keepsScope_lowerExpr e).bind fun l => ?_
      exact (keepsScope_lowerArgs rest).bind fun operands => .pure _

end

end Lowering
end ScalarSsa
