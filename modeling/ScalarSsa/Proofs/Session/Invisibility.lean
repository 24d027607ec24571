import Mathlib.Data.Fintype.Sum
import Mathlib.Data.Nat.Nth
import Mathlib.Order.Interval.Finset.Nat
import ScalarSsa.Proofs.Lowering.Renumbering
import ScalarSsa.Proofs.Machine.Renaming
import ScalarSsa.Proofs.Session.Expressions
import ScalarSsa.Proofs.Session.Transcripts

/-!
# Sessions without their failures

**Input.** Items, and the same items without some of the definitions and declarations that
fail among them.

**Definitions.** `Omissible` items are those that may be left out, and `wasted` are the
numbers of the identifiers that they use up.  The session that has handled all items and the
one that has handled the remaining ones are `Alongside` if the functions of both are the
same up to a renumbering, which skips the numbers that were wasted.

**Results.** `Alongside.kept`: an item that both sessions handle has the same result and the
same host calls in both.  `Alongside.omitted`: an item that is left out is not missed.
`failures_are_invisible` concludes that the transcripts of the remaining items are the same
and that both sessions end with the same functions, up to one renumbering.
-/

namespace ScalarSsa

open Lowering

/-- The error with the function that it mentions renamed. -/
def SessionError.rename (ρ : FuncId → FuncId) : SessionError → SessionError
  | .lower e => .lower (e.rename ρ)
  | .exec fault => .exec (fault.rename ρ)

/-! ## Numbers that are skipped -/

namespace FuncId

theorem ext_number
    {a b : FuncId}
    (h : a.number = b.number) :
    a = b := by
  obtain ⟨i⟩ := a
  obtain ⟨j⟩ := b
  exact congrArg FuncId.mk (UInt32.toNat_inj.1 h)

theorem number_lt
    (id : FuncId) :
    id.number < UInt32.size :=
  id.index.toNat_lt

instance : Finite FuncId :=
  Finite.of_injective (fun id : FuncId => (⟨id.number, id.number_lt⟩ : Fin UInt32.size))
    fun _ _ h =>
    ext_number (Fin.mk.inj h)

theorem ofCount_number
    (id : FuncId) :
    ofCount id.number = id :=
  ext_number (number_ofCount id.number_lt)

/--
The renumbering that spreads the numbers from zero on over those that are not
skipped, in their order.
-/
def Skips (skipped : Finset Nat) (ρ : FuncId → FuncId) : Prop :=
  ∀ n < UInt32.size, n ∉ skipped → ρ (.ofCount (Nat.count (· ∉ skipped) n)) = .ofCount n

theorem exists_skips
    (skipped : Finset Nat) :
    ∃ ρ : Equiv.Perm FuncId, Skips skipped ρ := by
  have : Fintype FuncId := Fintype.ofFinite FuncId
  -- the way back is injective where nothing is skipped, so it extends to a permutation
  let rank : FuncId → FuncId := fun id => .ofCount (Nat.count (· ∉ skipped) id.number)
  have hnumber : ∀ id, (rank id).number = Nat.count (· ∉ skipped) id.number := fun id =>
    number_ofCount (Nat.lt_of_le_of_lt (Nat.count_le _) id.number_lt)
  have hrank : Set.InjOn rank {id | id.number ∉ skipped} := by
    intro a ha b hb heq
    have hcount := congrArg number heq
    rw [hnumber, hnumber] at hcount
    exact ext_number (Nat.count_injective ha hb hcount)
  obtain ⟨g, hg⟩ :=
    Set.MapsTo.exists_equiv_extend_of_card_eq (t := Finset.univ) Finset.card_univ.symm
    (fun id _ => by simp) hrank
  refine ⟨(g.trans (Equiv.subtypeUnivEquiv Finset.mem_univ)).symm, fun n hn hkept => ?_⟩
  rw [Equiv.symm_apply_eq]
  have hcount := number_ofCount hn
  have himage := hg (.ofCount n) (by rw [Set.mem_ofPred_eq, hcount]; exact hkept)
  change _ = (g (.ofCount n) : FuncId)
  rw [himage]
  simp only [rank, hcount]

/-- The order of the identifiers that were issued is kept. -/
theorem Skips.number_lt
    {skipped : Finset Nat}
    {ρ : FuncId → FuncId}
    (hρ : Skips skipped ρ)
    {n : Nat}
    (hn : n < UInt32.size)
    {a b : FuncId}
    (hab : a.number < b.number)
    (hb : b.number < Nat.count (· ∉ skipped) n) :
    (ρ a).number < (ρ b).number := by
  have hinfinite : (Set.ofPred (· ∉ skipped)).Infinite :=
    skipped.finite_toSet.infinite_compl
  have hnumber : ∀ id : FuncId, id.number < Nat.count (· ∉ skipped) n →
      (ρ id).number = Nat.nth (· ∉ skipped) id.number := by
    intro id hid
    have hlt : Nat.nth (· ∉ skipped) id.number < UInt32.size :=
      Nat.lt_trans (Nat.nth_lt_of_lt_count hid) hn
    have himage := hρ _ hlt (Nat.nth_mem_of_infinite hinfinite id.number)
    rw [Nat.count_nth_of_infinite hinfinite, ofCount_number] at himage
    rw [himage, number_ofCount hlt]
  rw [hnumber a (Nat.lt_trans hab hb), hnumber b hb]
  exact Nat.nth_strictMono hinfinite hab

end FuncId

namespace Session

variable {ρ : FuncId → FuncId}

/-! ## Expressions -/

/-- A function without arguments comes to the same under another identifier. -/
theorem outcome_renumbered
    (hρ : Function.Injective ρ)
    {c d : Context}
    (hmodule : Module.Renumbered ρ c.module d.module)
    (hsettings : d.settings = c.settings)
    (id : FuncId)
    (evaluate : Bool) :
    outcome d (ρ id) evaluate = (outcome c id evaluate).mapError (ExecFault.rename ρ) ∧
      outcomeCalls d (ρ id) evaluate = outcomeCalls c id evaluate := by
  cases evaluate with
  | false =>
      refine ⟨?_, rfl⟩
      have htext : ((d.module.function? (ρ id)).map Function.text) =
          (c.module.function? id).map Function.text := by
        rw [hmodule.function?_eq hρ, Option.map_map]
        exact congrArg (fun text => Option.map text _) (funext fun f => f.text_rename ρ)
      simp only [outcome, Bool.false_eq_true, if_false, htext]
      rfl
  | true =>
      obtain ⟨r, r', p, _, hrun, hrun', rfl, halike⟩ :=
        Machine.agree_call (hmodule.function?_eq hρ) c.settings.limits id [] ⟨0, []⟩
      have heval : evaluation c id = (r, p) := hrun
      have heval' : evaluation d (ρ id) = (r', p) := by
        rw [evaluation, hsettings]
        exact hrun'
      simp only [outcome, outcomeCalls, if_true, heval, heval', and_true]
      cases halike with
      | ok h =>
          rw [h]
          rfl
      | error fault => rfl

/-- What comes of an expression that is lowered. -/
theorem handleExpr_of_lowered
    {c c' : Context}
    (h : c.Tidy)
    (hmild : c.Mild)
    (hbound : c.module.nextId < UInt32.size)
    {e : Expr}
    {id : FuncId}
    (hlower : (lowerDefinition (asDefinition e)).run.run c = (.ok id, c'))
    (evaluate : Bool) :
    ∃ f c'', c'.module.function? id = some f ∧
      (handleExpr e evaluate).run c = ((outcome c' id evaluate).mapError .exec, c'') ∧
      c''.module = c'.module.erase f ∧
      c.madeSince c'' = (outcomeCalls c' id evaluate).reverse := by
  rcases lowerDefinition_cases h.module.coherent h.module.pristine h.cursor hbound hmild
    (asDefinition e) with
    ⟨fault, d, hfailed, -⟩ | ⟨id', d, hdone, hdefined⟩
  · cases hlower.symm.trans hfailed
  · cases hlower.symm.trans hdone
    obtain ⟨f, hf, -⟩ := erase_settled h.module hbound hmild hdefined
    obtain ⟨later, hlater, notes, hnotes, hrun⟩ := run_handleExpr_ok hlower hf evaluate
    have hsilent := silent_lowerDefinition h.cursor (asDefinition e)
    rw [hlower] at hsilent
    refine ⟨f, _, hf, hrun, rfl, Context.madeSince_eq ?_⟩
    exact hsilent.hostCalls_append (hlater.append hnotes.hostless)
      (List.append_assoc _ _ _).symm

/-- An expression issues what its definition does. -/
theorem issued_handleExpr
    {c : Context}
    (h : c.Tidy)
    (hmild : c.Mild)
    (hbound : c.module.nextId < UInt32.size)
    (e : Expr)
    (evaluate : Bool) :
    ((handleExpr e evaluate).run c).2.module.nextId =
      ((lowerDefinition (asDefinition e)).run.run c).2.module.nextId := by
  rcases hlower : (lowerDefinition (asDefinition e)).run.run c with ⟨fault | id, c'⟩
  · rw [run_handleExpr_error hlower]
  · obtain ⟨f, c'', -, hrun, hmodule, -⟩ :=
      handleExpr_of_lowered h hmild hbound hlower evaluate
    rw [hrun, hmodule]
    rfl

/-! ## Items -/

/--
Handling something in two contexts comes to the same up to a renumbering, and issues
as many identifiers.
-/
structure Echoes (ρ : FuncId → FuncId) (c d : Context)
    (x y : Except SessionError Outcome × Context) : Prop where
  result : y.1 = x.1.mapError (SessionError.rename ρ)
  calls : d.madeSince y.2 = c.madeSince x.2
  together : Context.Together ρ c d x.2 y.2

theorem Echoes.of_silent
    {c d c' d' : Context}
    (htogether : Context.Together ρ c d c' d')
    (hsilent : c.Silent c')
    (hsilent' : d.Silent d')
    (r : Except SessionError Outcome) :
    Echoes ρ c d (r, c') (r.mapError (SessionError.rename ρ), d') := by
  refine ⟨rfl, ?_, htogether⟩
  rw [hsilent.madeSince_eq, hsilent'.madeSince_eq]

section Items

variable {c d : Context} (h : c.Renumbered ρ d) (hρ : Function.Injective ρ)

include h hρ

theorem echoes_declaration
    (s : Signature)
    (evaluate : Bool)
    (hfresh : d.module.nextId <
      ((handleItem (.declaration s) evaluate).run d).2.module.nextId →
      ρ c.module.freshId = d.module.freshId) :
    Echoes ρ c d ((handleItem (.declaration s) evaluate).run c)
      ((handleItem (.declaration s) evaluate).run d) := by
  have hsilent := silent_lowerSignature c s
  have hsilent' := silent_lowerSignature d s
  rw [run_declaration_eq_after, Context.after] at hfresh
  rcases hrun : (lowerSignature s).run.run c with ⟨r, c'⟩
  rcases hrun' : (lowerSignature s).run.run d with ⟨r', d'⟩
  rw [hrun] at hsilent
  rw [hrun'] at hsilent' hfresh
  obtain ⟨halike, htogether⟩ := h.lowerSignature hρ s hrun hrun' hfresh
  cases halike with
  | ok _ =>
      rw [run_declaration_ok hrun, run_declaration_ok hrun']
      exact .of_silent htogether hsilent hsilent' _
  | error e =>
      rw [run_declaration_error hrun, run_declaration_error hrun']
      exact .of_silent htogether hsilent hsilent' _

variable (hbound : c.module.nextId < UInt32.size) (hbound' : d.module.nextId < UInt32.size)

include hbound hbound'

theorem echoes_definition
    (def' : Definition)
    (evaluate : Bool)
    (hfresh : d.module.nextId <
      ((handleItem (.definition def') evaluate).run d).2.module.nextId →
      ρ c.module.freshId = d.module.freshId) :
    Echoes ρ c d ((handleItem (.definition def') evaluate).run c)
      ((handleItem (.definition def') evaluate).run d) := by
  have hsilent := silent_lowerDefinition h.tidy.cursor def'
  have hsilent' := silent_lowerDefinition h.tidy'.cursor def'
  rw [run_definition_eq_after, Context.after] at hfresh
  rcases hrun : (lowerDefinition def').run.run c with ⟨r, c'⟩
  rcases hrun' : (lowerDefinition def').run.run d with ⟨r', d'⟩
  rw [hrun] at hsilent
  rw [hrun'] at hsilent' hfresh
  obtain ⟨halike, htogether⟩ := h.lowerDefinition hρ hbound hbound' def' hrun hrun' hfresh
  cases halike with
  | ok _ =>
      rw [run_definition_ok hrun, run_definition_ok hrun']
      exact .of_silent htogether hsilent hsilent' _
  | error e =>
      rw [run_definition_error hrun, run_definition_error hrun']
      exact .of_silent htogether hsilent hsilent' _

/--
An expression is lowered and run or shown in both contexts, and its functions
are erased from both.
-/
theorem echoes_handleExpr
    (e : Expr)
    (evaluate : Bool)
    (hfresh : d.module.nextId < ((handleExpr e evaluate).run d).2.module.nextId →
      ρ c.module.freshId = d.module.freshId) :
    Echoes ρ c d ((handleExpr e evaluate).run c) ((handleExpr e evaluate).run d) := by
  have hsilent := silent_lowerDefinition h.tidy.cursor (asDefinition e)
  have hsilent' := silent_lowerDefinition h.tidy'.cursor (asDefinition e)
  rw [issued_handleExpr h.tidy' h.mild.2 hbound'] at hfresh
  rcases hrun : (lowerDefinition (asDefinition e)).run.run c with ⟨r, c'⟩
  rcases hrun' : (lowerDefinition (asDefinition e)).run.run d with ⟨r', d'⟩
  have hsettings : d'.settings = c'.settings := by
    have hsteady := steady_lowerDefinition h.tidy.cursor (asDefinition e)
    have hsteady' := steady_lowerDefinition h.tidy'.cursor (asDefinition e)
    rw [hrun] at hsteady
    rw [hrun'] at hsteady'
    rw [hsteady'.settings, hsteady.settings, h.settings]
  rw [hrun] at hsilent
  rw [hrun'] at hsilent' hfresh
  obtain ⟨halike, htogether⟩ :=
    h.lowerDefinition hρ hbound hbound' (asDefinition e) hrun hrun' hfresh
  cases halike with
  | error fault =>
      rw [run_handleExpr_error hrun, run_handleExpr_error hrun']
      exact .of_silent htogether hsilent hsilent' _
  | @ok id id' hid =>
      subst hid
      obtain ⟨f, c'', hf, hhandled, hmodule, hcalls⟩ :=
        handleExpr_of_lowered h.tidy h.mild.1 hbound hrun evaluate
      obtain ⟨f', d'', hf', hhandled', hmodule', hcalls'⟩ :=
        handleExpr_of_lowered h.tidy' h.mild.2 hbound' hrun' evaluate
      obtain rfl : f.rename ρ = f' := by
        rw [htogether.module.function?_eq hρ, hf] at hf'
        exact Option.some.inj hf'
      obtain ⟨houtcome, hmade⟩ :=
        outcome_renumbered hρ htogether.module hsettings id evaluate
      rw [hhandled, hhandled']
      refine ⟨?_, ?_, ?_, ?_⟩
      · rw [houtcome]
        cases outcome c' id evaluate <;> rfl
      · rw [hcalls, hcalls', hmade]
      · rw [hmodule, hmodule']
        exact htogether.module.erase hρ f
      · rw [hmodule, hmodule']
        exact htogether.issued

/-- An item that is handled in both contexts has the same result and the same host calls. -/
theorem echoes_handleItem
    (item : Item)
    (evaluate : Bool)
    (hfresh : d.module.nextId < ((handleItem item evaluate).run d).2.module.nextId →
      ρ c.module.freshId = d.module.freshId) :
    Echoes ρ c d ((handleItem item evaluate).run c) ((handleItem item evaluate).run d) := by
  cases item with
  | definition def' => exact echoes_definition h hρ hbound hbound' def' evaluate hfresh
  | declaration s => exact echoes_declaration h hρ s evaluate hfresh
  | expression e => exact echoes_handleExpr h hρ hbound hbound' e evaluate hfresh

end Items

/-! ## Items that are left out -/

/-- An item that may be left out: it is no expression, and it has failed. -/
def Omissible (item : Item) (r : Except SessionError Outcome) : Prop :=
  (∀ e, item ≠ .expression e) ∧ ∃ e, r = .error e

/-- A failed definition or declaration leaves functions and names as they were. -/
theorem kept_of_omissible
    {c : Context}
    (h : c.Tidy)
    (hmild : c.Mild)
    (hbound : c.module.nextId < UInt32.size)
    {item : Item}
    {evaluate : Bool}
    (homissible : Omissible item ((handleItem item evaluate).run c).1) :
    ((handleItem item evaluate).run c).2.module.functions = c.module.functions ∧
      ((handleItem item evaluate).run c).2.module.names = c.module.names := by
  obtain ⟨hitem, e, hfailed⟩ := homissible
  cases item with
  | definition def' =>
      rcases hrun : (lowerDefinition def').run.run c with ⟨fault | id, c'⟩
      · rw [run_definition_error hrun]
        exact Context.kept_of_failed h hmild hbound hrun
      · rw [run_definition_ok hrun] at hfailed
        cases hfailed
  | declaration s =>
      rcases lowerSignature_cases c s with ⟨fault, -, hrun⟩ | ⟨id, m, notes, -, -, -, hrun⟩
      · rw [run_declaration_error hrun]
        exact ⟨rfl, rfl⟩
      · rw [run_declaration_ok hrun] at hfailed
        cases hfailed
  | expression e => exact absurd rfl (hitem e)

/-- The elements of a list that have a mark. -/
def picked {α : Type} (marks : List Bool) (xs : List α) : List α :=
  ((marks.zip xs).filter (·.1)).map (·.2)

theorem picked_cons_true
    {α : Type}
    (marks : List Bool)
    (x : α)
    (xs : List α) :
    picked (true :: marks) (x :: xs) = x :: picked marks xs :=
  rfl

/-- The numbers of the identifiers that are issued for the items without a mark. -/
def wasted (s : Session) : List Bool → List Item → Finset Nat
  | mark :: marks, item :: items =>
    let next := ((handleNoting item).run s).2
    if mark then next.wasted marks items
    else Finset.Ico s.module.nextId next.module.nextId ∪ next.wasted marks items
  | _, _ => ∅

/-- What is wasted later has later numbers. -/
theorem le_of_mem_wasted
    {s : Session}
    (hcursor : s.context.builder.cursor = none)
    {marks : List Bool}
    {items : List Item}
    {n : Nat}
    (hn : n ∈ s.wasted marks items) :
    s.module.nextId ≤ n := by
  induction items generalizing s marks with
  | nil => cases marks <;> simp [wasted] at hn
  | cons item items ih =>
      have hsteady := steady_handleNoting hcursor item
      have hissued : s.module.nextId ≤ ((handleNoting item).run s).2.module.nextId :=
        hsteady.issued
      cases marks with
      | nil => simp [wasted] at hn
      | cons mark marks =>
          cases mark with
          | true => exact hissued.trans (ih hsteady.cursor hn)
          | false =>
              rcases Finset.mem_union.1 hn with hn | hn
              · exact (Finset.mem_Ico.1 hn).1
              · exact hissued.trans (ih hsteady.cursor hn)

/-! ## Two sessions -/

/--
The second session has the functions of the first, and its numbers are those of the first
with some skipped.
-/
structure Alongside (skipped : Finset Nat) (ρ : FuncId → FuncId)
    (s t : Session) : Prop where
  evaluate : t.evaluate = s.evaluate
  context : s.context.Renumbered ρ t.context
  issued : s.module.nextId = Nat.count (· ∉ skipped) t.module.nextId

/--
As one of several, an item has the same result and the same host calls in both sessions.
-/
theorem echoes_handleNoting
    {s t : Session}
    (h : s.context.Renumbered ρ t.context)
    (hρ : Function.Injective ρ)
    (hevaluate : t.evaluate = s.evaluate)
    (hbound : s.module.nextId < UInt32.size)
    (hbound' : t.module.nextId < UInt32.size)
    (item : Item)
    (hfresh : t.module.nextId < ((handleNoting item).run t).2.module.nextId →
      ρ s.module.freshId = t.module.freshId) :
    Echoes ρ s.context t.context
      (((handleNoting item).run s).1, ((handleNoting item).run s).2.context)
      (((handleNoting item).run t).1, ((handleNoting item).run t).2.context) := by
  obtain ⟨notes, hnotes, hrun⟩ := run_handleNoting item s
  obtain ⟨notes', hnotes', hrun'⟩ := run_handleNoting item t
  rw [hrun'] at hfresh
  have hechoes := echoes_handleItem h hρ hbound hbound' item t.evaluate hfresh
  rw [hrun, hrun', ← hevaluate]
  refine ⟨hechoes.result, ?_, ⟨hechoes.together.module, hechoes.together.issued⟩⟩
  rw [Context.madeSince_noted hnotes, Context.madeSince_noted hnotes', hechoes.calls]

namespace Alongside

variable {skipped : Finset Nat} {s t : Session} (h : Alongside skipped ρ s t)

include h

theorem issued_le :
    s.module.nextId ≤ t.module.nextId :=
  h.issued ▸ Nat.count_le _

/--
An item that both sessions handle has the same result and the same host calls in both.
-/
theorem kept
    (hρ : Function.Injective ρ)
    (hskips : FuncId.Skips skipped ρ)
    (item : Item)
    (hbound : ((handleNoting item).run t).2.module.nextId < UInt32.size)
    (hkept : ∀ n, t.module.nextId ≤ n → n < ((handleNoting item).run t).2.module.nextId →
      n ∉ skipped) :
    Echoes ρ s.context t.context
      (((handleNoting item).run s).1, ((handleNoting item).run s).2.context)
        (((handleNoting item).run t).1, ((handleNoting item).run t).2.context) ∧
      Alongside skipped ρ ((handleNoting item).run s).2 ((handleNoting item).run t).2 := by
  have hsteady := steady_handleNoting h.context.tidy.cursor item
  have hsteady' := steady_handleNoting h.context.tidy'.cursor item
  have hissued : t.module.nextId ≤ ((handleNoting item).run t).2.module.nextId :=
    hsteady'.issued
  have hbound' : t.module.nextId < UInt32.size := Nat.lt_of_le_of_lt hissued hbound
  have hechoes :=
    echoes_handleNoting h.context hρ h.evaluate
      (Nat.lt_of_le_of_lt h.issued_le hbound') hbound' item
    fun hnew => by
      have hnext := hskips _ hbound' (hkept _ (Nat.le_refl _) hnew)
      rwa [← h.issued] at hnext
  have hboth : ((handleNoting item).run t).2.module.nextId + s.module.nextId =
      t.module.nextId + ((handleNoting item).run s).2.module.nextId :=
        hechoes.together.issued
  -- none of the new numbers is skipped, so both sessions have issued as many
  have hcount : Nat.count (· ∉ skipped) ((handleNoting item).run t).2.module.nextId =
      s.module.nextId +
        (((handleNoting item).run t).2.module.nextId - t.module.nextId) := by
    obtain ⟨k, hk⟩ := Nat.exists_eq_add_of_le hissued
    rw [hk] at hkept ⊢
    rw [Nat.count_add, Nat.count_of_forall fun n hn =>
      hkept _ (Nat.le_add_right _ n) (by omega), h.issued]
    omega
  have hle := h.issued_le
  refine ⟨hechoes, ?_, h.context.step hsteady hsteady' ?_ ?_ hechoes.together.module, ?_⟩
  · rw [evaluate_handleNoting, evaluate_handleNoting, h.evaluate]
  · exact tidy_handleNoting h.context.tidy h.context.mild.1 item (by omega)
  · exact tidy_handleNoting h.context.tidy' h.context.mild.2 item hbound
  · omega

/-- An item that is left out is not missed. -/
theorem omitted
    (item : Item)
    (hbound : ((handleNoting item).run t).2.module.nextId < UInt32.size)
    (homissible : Omissible item ((handleNoting item).run t).1)
    (hskipped : ∀ n, t.module.nextId ≤ n → n < ((handleNoting item).run t).2.module.nextId →
      n ∈ skipped) :
    Alongside skipped ρ s ((handleNoting item).run t).2 := by
  have hsteady := steady_handleNoting h.context.tidy'.cursor item
  have hissued : t.module.nextId ≤ ((handleNoting item).run t).2.module.nextId :=
    hsteady.issued
  have htidy := tidy_handleNoting h.context.tidy' h.context.mild.2 item hbound
  have hsame : ((handleNoting item).run t).2.module.functions = t.module.functions ∧
      ((handleNoting item).run t).2.module.names = t.module.names := by
    obtain ⟨notes, -, hrun⟩ := run_handleNoting item t
    rw [hrun] at homissible ⊢
    exact kept_of_omissible h.context.tidy' h.context.mild.2
      (Nat.lt_of_le_of_lt hissued hbound) homissible
  refine ⟨?_, ⟨h.context.tidy, htidy, ?_, ?_, h.context.known, ?_, ?_⟩, ?_⟩
  · rw [evaluate_handleNoting, h.evaluate]
  · rw [hsteady.settings, h.context.settings]
  · rw [hsteady.passes, h.context.passes]
  · exact hsame.1.trans h.context.module.functions
  · exact hsame.2.trans h.context.module.names
  · obtain ⟨k, hk⟩ := Nat.exists_eq_add_of_le hissued
    rw [hk] at hskipped ⊢
    rw [Nat.count_add, Nat.count_of_forall_not fun n hn =>
      not_not.2 (hskipped _ (Nat.le_add_right _ n) (by omega)),
      h.issued, Nat.add_zero]

/-- Both sessions handle the items that remain alike, and the other items are not missed. -/
theorem transcript
    (hρ : Function.Injective ρ)
    (hskips : FuncId.Skips skipped ρ)
    {marks : List Bool}
    {items : List Item}
    (hskipped : ∀ n, t.module.nextId ≤ n → (n ∈ skipped ↔ n ∈ t.wasted marks items))
    (homitted : List.Forall₂ (fun mark entry =>
      mark = true ∨ Omissible entry.1 entry.2) marks
      (items.zip ((handleAll items).run t).1))
    (hbound : ((handleAll items).run t).2.module.nextId < UInt32.size) :
    picked marks (t.transcript items) =
        (s.transcript (picked marks items)).map (fun entry =>
          (entry.1.mapError (SessionError.rename ρ), entry.2)) ∧
      Alongside skipped ρ ((handleAll (picked marks items)).run s).2
        ((handleAll items).run t).2 := by
  induction items generalizing s t marks with
  | nil =>
      cases homitted
      exact ⟨rfl, h⟩
  | cons item items ih =>
      have hsteady := steady_handleNoting h.context.tidy'.cursor item
      have hissued : t.module.nextId ≤ ((handleNoting item).run t).2.module.nextId :=
        hsteady.issued
      have hnext : ((handleNoting item).run t).2.module.nextId < UInt32.size :=
        Nat.lt_of_le_of_lt (steady_handleAll hsteady.cursor items).issued hbound
      rw [run_handleAll_cons, List.zip_cons_cons] at homitted
      obtain ⟨mark, marks, hfirst, hrest, rfl⟩ := List.forall₂_cons_right_iff.1 homitted
      -- numbers that are wasted later are not below the next one
      have hlater : ∀ n ∈ ((handleNoting item).run t).2.wasted marks items,
          ((handleNoting item).run t).2.module.nextId ≤ n :=
            fun n hn => le_of_mem_wasted hsteady.cursor hn
      cases mark with
      | true =>
          obtain ⟨hechoes, halong⟩ := h.kept hρ hskips item hnext fun n hn hlt hmem =>
            absurd (hlater n ((hskipped n hn).1 hmem)) (Nat.not_le.2 hlt)
          obtain ⟨htranscript, hend⟩ :=
            ih halong (fun n hn => hskipped n (hissued.trans hn)) hrest hbound
          refine ⟨?_, hend⟩
          rw [transcript_cons, picked_cons_true, picked_cons_true, transcript_cons,
            List.map_cons, htranscript]
          exact congrArg (· :: _) (Prod.ext hechoes.result hechoes.calls)
      | false =>
          have homissible := hfirst.resolve_left Bool.false_ne_true
          have halong := h.omitted item hnext homissible fun n hn hlt =>
            (hskipped n hn).2 (Finset.mem_union_left _ (Finset.mem_Ico.2 ⟨hn, hlt⟩))
          refine ih halong (fun n hn => ?_) hrest hbound
          rw [hskipped n (hissued.trans hn)]
          constructor
          · intro hmem
            rcases Finset.mem_union.1 hmem with hmem | hmem
            · exact absurd hn (Nat.not_le.2 (Finset.mem_Ico.1 hmem).2)
            · exact hmem
          · exact Finset.mem_union_right _

end Alongside

/-! ## Sessions that start afresh -/

/-- Declarations have nothing to rename but their own identifiers. -/
theorem rename_of_bare
    {f : Function}
    (hblocks : f.blocks = [])
    (hid : ρ f.id = f.id) :
    f.rename ρ = f := by
  obtain ⟨id, name, params, blocks, nextValue, nextBlock⟩ := f
  subst hblocks
  simp only [Function.rename, List.map_nil, hid]

/--
A session that has only declarations goes along with itself, if nothing was skipped so far.
-/
theorem alongside_self
    {skipped : Finset Nat}
    (hskips : FuncId.Skips skipped ρ)
    {s : Session}
    (htidy : s.context.Tidy)
    (hknown : ∀ pass ∈ s.context.passes, pass ∈ [Pass.folding, Pass.branches, Pass.unused])
    (hbare : ∀ f ∈ s.module.functions, f.blocks = [])
    (hskipped : ∀ n ∈ skipped, s.module.nextId ≤ n) :
    Alongside skipped ρ s s := by
  have hcount : ∀ n ≤ s.module.nextId, Nat.count (· ∉ skipped) n = n := fun n hn =>
    Nat.count_of_forall fun k hk hmem => absurd (hskipped k hmem) (by omega)
  have hfixed : ∀ f ∈ s.module.functions, ρ f.id = f.id := by
    intro f hf
    have hbelow : f.id.number < s.module.nextId := htidy.module.coherent.below f hf
    have himage := hskips f.id.number f.id.number_lt fun hmem =>
      absurd (hskipped _ hmem) (Nat.not_le.2 hbelow)
    rwa [hcount _ hbelow.le, FuncId.ofCount_number] at himage
  refine ⟨rfl, ⟨htidy, htidy, rfl, rfl, hknown, ?_, ?_⟩, (hcount _ (Nat.le_refl _)).symm⟩
  · exact ((List.map_congr_left fun f hf => rename_of_bare (hbare f hf) (hfixed f hf)).trans
      (List.map_id _)).symm
  · have hnames : s.context.module.names = _ := htidy.module.coherent.names_eq
    rw [hnames, List.map_map]
    exact List.map_congr_left fun f hf => congrArg (f.name, ·) (hfixed f hf).symm

/--
Definitions and declarations that fail are invisible.  Leave out some or all of them: in a
session that starts afresh, with or without the host functions, every other item has the
same result and the same host calls, and in the end there are the same functions in the same
order, up to a renumbering that keeps the order of the identifiers.  The texts are the same.
-/
theorem failures_are_invisible
    (settings : Settings)
    (passes : Pipeline)
    (hpasses : ∀ pass ∈ passes, pass ∈ [Pass.folding, Pass.branches, Pass.unused])
    (items : List Item)
    (marks : List Bool)
    (host evaluate : Bool)
    {s : Session}
    (hs : s = .fresh settings passes host evaluate)
    (hbound : ((handleAll items).run s).2.module.nextId < UInt32.size)
    (homitted : List.Forall₂ (fun mark entry =>
      mark = true ∨ Omissible entry.1 entry.2) marks
      (items.zip ((handleAll items).run s).1)) :
    (∀ list ∈ [items, picked marks items], (s.transcript list).map (·.1) =
      ((handleAll list).run s).1 ∧
      (s.transcript list).flatMap (·.2) =
        ((handleAll list).run s).2.context.builder.journal.hostCalls) ∧
    ∃ ρ : Equiv.Perm FuncId,
      (∀ a b : FuncId, a.number < b.number →
        b.number < ((handleAll (picked marks items)).run s).2.module.nextId →
        (ρ a).number < (ρ b).number) ∧
      picked marks (s.transcript items) =
        (s.transcript (picked marks items)).map (fun entry =>
          (entry.1.mapError (SessionError.rename ρ), entry.2)) ∧
      Module.Renumbered ρ ((handleAll (picked marks items)).run s).2.module
        ((handleAll items).run s).2.module ∧
      ((handleAll items).run s).2.module.text =
        ((handleAll (picked marks items)).run s).2.module.text := by
  have htidy : s.context.Tidy := hs ▸ tidy_fresh settings passes host evaluate
  have hsame : s.context.passes = passes := hs ▸ passes_fresh settings passes host evaluate
  have hcalls : s.context.builder.journal.hostCalls = [] :=
    hs ▸ hostCalls_fresh settings passes host evaluate
  have hbare : ∀ f ∈ s.module.functions, f.blocks = [] := by
    rw [hs]
    exact fun f hf => (bare_of_mem_fresh settings passes host evaluate hf).1
  refine ⟨fun list _ => ?_, ?_⟩
  · have hlog := transcript_eq_handleAll htidy.cursor list
    rw [hcalls, List.nil_append] at hlog
    exact hlog
  · obtain ⟨ρ, hskips⟩ := FuncId.exists_skips (s.wasted marks items)
    have hstart : Alongside (s.wasted marks items) ρ s s :=
      alongside_self hskips htidy (hsame ▸ hpasses) hbare fun n hn =>
        le_of_mem_wasted htidy.cursor hn
    obtain ⟨htranscript, hend⟩ :=
      hstart.transcript ρ.injective hskips (fun _ _ => Iff.rfl) homitted hbound
    refine ⟨ρ, fun a b hab hb => ?_, htranscript, hend.context.module,
      hend.context.module.text_eq⟩
    exact hskips.number_lt hbound hab (hend.issued ▸ hb)

/--
Definitions with mistakes, one of them of a function that was declared before, and
their corrections.
-/
def retried : List Item :=
  [.declaration ⟨"step", ["x"]⟩,
    .definition ⟨⟨"step", ["n"]⟩, .binary '+' (.var "m") (.number 1.0)⟩,
    .definition ⟨⟨"show", ["n"]⟩, .call "printd" [.call "stp" [.var "n"]]⟩,
    .definition ⟨⟨"show", ["n"]⟩, .call "printd" [.call "step" [.var "n"]]⟩,
    .definition ⟨⟨"step", ["n"]⟩, .binary '+' (.var "n") (.number 1.0)⟩,
    .declaration ⟨"show", ["a", "b"]⟩,
    .expression (.call "show" [.number 2.0]),
    .definition ⟨⟨"step", ["k"]⟩, .var "k"⟩]

/-- All of them but the mistakes; the last one stays. -/
def retriedMarks : List Bool :=
  [true, false, false, true, true, false, true, true]

/-- A session with the host functions. -/
def retrying : Session :=
  .fresh ⟨true, true, 8, 100⟩ .standard true true

theorem retried_without_mistakes :
    ((handleAll retried).run retrying).1 =
        [.ok (.declared "step"), .error (.lower (.unknownVariable "m")),
          .error (.lower (.unknownFunction "stp")),
          .ok (.defined "show"), .ok (.defined "step"),
          .error (.lower (.redefinition "show")),
          .ok (.evaluated 0.0), .error (.lower (.redefinition "step"))] ∧
      ((handleAll retried).run retrying).2.module.functions.map (·.id.number) =
        [0, 1, 2, 3, 4, 5, 7] ∧
      ((handleAll (picked retriedMarks retried)).run retrying).2.module.functions.map
        (·.id.number) =
        [0, 1, 2, 3, 4, 5, 6] ∧
      retrying.transcript (picked retriedMarks retried) =
        [(.ok (.declared "step"), []), (.ok (.defined "show"), []),
          (.ok (.defined "step"), []),
          (.ok (.evaluated 0.0), [⟨"printd", [3.0]⟩]),
            (.error (.lower (.redefinition "step")), [])] ∧
      ∃ ρ : Equiv.Perm FuncId,
        picked retriedMarks (retrying.transcript retried) =
          (retrying.transcript (picked retriedMarks retried)).map
          (fun entry => (entry.1.mapError (SessionError.rename ρ), entry.2)) ∧
        Module.Renumbered ρ
          ((handleAll (picked retriedMarks retried)).run retrying).2.module
          ((handleAll retried).run retrying).2.module := by
  have hresults : ((handleAll retried).run retrying).1 =
      [.ok (.declared "step"), .error (.lower (.unknownVariable "m")),
        .error (.lower (.unknownFunction "stp")),
        .ok (.defined "show"), .ok (.defined "step"),
        .error (.lower (.redefinition "show")),
        .ok (.evaluated 0.0), .error (.lower (.redefinition "step"))] := by decide +kernel
  have homitted :
      List.Forall₂ (fun mark entry => mark = true ∨ Omissible entry.1 entry.2) retriedMarks
      (retried.zip ((handleAll retried).run retrying).1) := by
    rw [hresults]
    simp [retriedMarks, retried, Omissible]
  have hstandard : ∀ pass ∈ Pipeline.standard,
      pass ∈ [Pass.folding, Pass.branches, Pass.unused] := by
    simp [Pipeline.standard]
  obtain ⟨-, ρ, -, htranscript, hmodule, -⟩ :=
    failures_are_invisible ⟨true, true, 8, 100⟩ .standard hstandard retried
    retriedMarks true true (s := retrying) rfl (by decide +kernel) homitted
  exact ⟨hresults, by decide +kernel, by decide +kernel, by decide +kernel, ρ,
    htranscript, hmodule⟩

end Session

end ScalarSsa
