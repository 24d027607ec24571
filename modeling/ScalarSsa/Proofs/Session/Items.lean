import ScalarSsa.Session
import ScalarSsa.Proofs.Lowering.Attempts

/-!
# Handling items

**Input.** A session and an item, or the context of a session and an expression.

**Results.** Equations for what handling an item does, given what lowering does.
`run_handleExpr_ok`: an expression that is lowered is run or shown, and its function is
erased again.  `steady_handleItem`: identifiers that were issued stay issued, and settings
and passes stay as they are.
-/

namespace ScalarSsa

open Lowering

namespace Session

/-! ## Running and showing -/

variable {c c' : Context} {id : FuncId} {f : Function}

/-- The run of a function without arguments, with its steps and its host calls. -/
def evaluation (c : Context) (id : FuncId) : Except ExecFault Float × Machine.Progress :=
  (Machine.call c.module c.settings.limits id []).run.run ⟨0, []⟩

/-- What comes of the function of an expression. -/
def outcome (c : Context) (id : FuncId) (evaluate : Bool) : Except ExecFault Outcome :=
  if evaluate then (evaluation c id).1.map .evaluated
  else .ok (.discarded (((c.module.function? id).map Function.text).getD ""))

/-- The host calls that are made for the function of an expression, the newest first. -/
def outcomeCalls (c : Context) (id : FuncId) (evaluate : Bool) : List HostCall :=
  if evaluate then (evaluation c id).2.hostCalls else []

theorem run_settle
    (id : FuncId)
    (evaluate : Bool)
    (c : Context) :
    ∃ notes, Journal.Quiet notes ∧ (settle id evaluate).run c =
      (outcome c id evaluate, { c with
      builder := ⟨c.module, c.builder.cursor,
        notes ++ ((outcomeCalls c id evaluate).map .host ++ c.builder.journal)⟩ }) := by
  cases evaluate with
  | false => exact ⟨[], fun _ h => (by cases h), rfl⟩
  | true => exact ⟨[_], Journal.Quiet.cons (fun _ h => (by cases h)) _, rfl⟩

theorem run_delete?
    (hf : c.module.function? id = some f) :
    ∃ note, (onBuilder (Builder.delete? id)).run c = (some f, { c with
      builder :=
        ⟨c.module.erase f, c.builder.cursor, .note note :: c.builder.journal⟩ }) := by
  obtain ⟨note, hdelete⟩ := Builder.run_delete? (b := c.builder) hf
  refine ⟨note, ?_⟩
  change (((Builder.delete? id).run c.builder).1,
    { c with builder := ((Builder.delete? id).run c.builder).2 }) = _
  rw [hdelete]
  rfl

theorem run_delete?_missing
    (hf : c.module.function? id = none) :
    (onBuilder (Builder.delete? id)).run c = (none, c) := by
  have hdelete := Builder.run_delete?_missing (b := c.builder) hf
  change (((Builder.delete? id).run c.builder).1,
    { c with builder := ((Builder.delete? id).run c.builder).2 }) = _
  rw [hdelete]

theorem run_handleExpr_error
    {e : Expr}
    {evaluate : Bool}
    {fault : LowerError}
    (h : (lowerDefinition (asDefinition e)).run.run c = (.error fault, c')) :
    (handleExpr e evaluate).run c = (.error (.lower fault), c') := by
  rw [handleExpr, run_state_bind h]
  rfl

/-- An expression that is lowered is run or shown, and then its function is erased. -/
theorem run_handleExpr_ok
    {e : Expr}
    (h : (lowerDefinition (asDefinition e)).run.run c = (.ok id, c'))
    (hf : c'.module.function? id = some f)
    (evaluate : Bool) :
    ∃ later, Journal.Hostless later ∧ ∃ notes, Journal.Quiet notes ∧
      (handleExpr e evaluate).run c =
      ((outcome c' id evaluate).mapError .exec, { c' with
        builder := ⟨c'.module.erase f, c'.builder.cursor, later ++ (notes ++
          ((outcomeCalls c' id evaluate).map .host ++ c'.builder.journal))⟩ }) := by
  obtain ⟨notes, hnotes, hsettle⟩ := run_settle id evaluate c'
  obtain ⟨note, hdelete⟩ := run_delete? (c := { c' with
    builder :=
      ⟨c'.module, c'.builder.cursor,
        notes ++ ((outcomeCalls c' id evaluate).map .host ++ c'.builder.journal)⟩ }) hf
  cases hout : outcome c' id evaluate with
  | ok o =>
      refine ⟨[.note note], (Journal.Quiet.cons (fun _ h => (by cases h)) _).hostless,
        notes, hnotes, ?_⟩
      rw [handleExpr, run_state_bind h, run_state_bind hsettle,
        run_state_bind hdelete, hout]
      rfl
  | error fault =>
      refine ⟨[.report fault.report, .note note], ?_, notes, hnotes, ?_⟩
      · exact (Journal.Quiet.cons (fun _ h => (by cases h)) note).hostless.cons
          (by rintro _ ⟨⟩)
      · rw [handleExpr, run_state_bind h, run_state_bind hsettle,
          run_state_bind hdelete, hout]
        rfl

/-! ## Items -/

theorem steady_delete?
    (hcursor : c.builder.cursor = none)
    (id : FuncId) :
    c.Steady ((onBuilder (Builder.delete? id)).run c).2 := by
  cases hf : c.module.function? id with
  | some f =>
      obtain ⟨note, hrun⟩ := run_delete? hf
      rw [hrun]
      exact ⟨Nat.le_refl _, hcursor, rfl, rfl⟩
  | none =>
      rw [run_delete?_missing hf]
      exact ⟨Nat.le_refl _, hcursor, rfl, rfl⟩

theorem steady_handleExpr
    (hcursor : c.builder.cursor = none)
    (e : Expr)
    (evaluate : Bool) :
    c.Steady ((handleExpr e evaluate).run c).2 := by
  have hsteady := steady_lowerDefinition hcursor (asDefinition e)
  rcases hlower : (lowerDefinition (asDefinition e)).run.run c with ⟨fault | id, c'⟩
  · rw [hlower] at hsteady
    rw [run_handleExpr_error hlower]
    exact hsteady
  · rw [hlower] at hsteady
    obtain ⟨notes, -, hsettle⟩ := run_settle id evaluate c'
    have hdelete := steady_delete? (c := { c' with
      builder := ⟨c'.module, c'.builder.cursor,
        notes ++ ((outcomeCalls c' id evaluate).map .host ++ c'.builder.journal)⟩ })
          hsteady.cursor id
    rcases hdeleted : (onBuilder (Builder.delete? id)).run { c' with
      builder := ⟨c'.module, c'.builder.cursor,
        notes ++ ((outcomeCalls c' id evaluate).map .host ++ c'.builder.journal)⟩
          } with ⟨removed, c''⟩
    rw [hdeleted] at hdelete
    have hboth : c.Steady c'' :=
      hsteady.trans ⟨hdelete.issued, hdelete.cursor, hdelete.settings, hdelete.passes⟩
    rw [handleExpr, run_state_bind hlower, run_state_bind hsettle, run_state_bind hdeleted]
    cases outcome c' id evaluate with
    | ok o => exact hboth
    | error fault => exact ⟨hboth.issued, hboth.cursor, hboth.settings, hboth.passes⟩

theorem steady_handleItem
    (hcursor : c.builder.cursor = none)
    (item : Item)
    (evaluate : Bool) :
    c.Steady ((handleItem item evaluate).run c).2 := by
  cases item with
  | definition d =>
      have hsteady := steady_lowerDefinition hcursor d
      rcases hrun : (lowerDefinition d).run.run c with ⟨fault | id, c'⟩
      all_goals
        rw [hrun] at hsteady
        rw [handleItem, run_state_bind hrun]
        exact hsteady
  | declaration s =>
      have hsteady := steady_lowerSignature hcursor s
      rcases hrun : (lowerSignature s).run.run c with ⟨fault | id, c'⟩
      all_goals
        rw [hrun] at hsteady
        rw [handleItem, run_state_bind hrun]
        exact hsteady
  | expression e => exact steady_handleExpr hcursor e evaluate

section Sessions

variable {evaluate : Bool} {e : LowerError}

theorem run_definition_ok
    {d : Definition}
    (h : (lowerDefinition d).run.run c = (.ok id, c')) :
    (handleItem (.definition d) evaluate).run c =
      (.ok (.defined d.signature.name), c') := by
  simp only [handleItem, StateT.run_bind, h]
  rfl

theorem run_definition_error
    {d : Definition}
    (h : (lowerDefinition d).run.run c = (.error e, c')) :
    (handleItem (.definition d) evaluate).run c = (.error (.lower e), c') := by
  simp only [handleItem, StateT.run_bind, h]
  rfl

theorem run_declaration_ok
    {s : Signature}
    (h : (lowerSignature s).run.run c = (.ok id, c')) :
    (handleItem (.declaration s) evaluate).run c = (.ok (.declared s.name), c') := by
  simp only [handleItem, StateT.run_bind, h]
  rfl

theorem run_declaration_error
    {s : Signature}
    (h : (lowerSignature s).run.run c = (.error e, c')) :
    (handleItem (.declaration s) evaluate).run c = (.error (.lower e), c') := by
  simp only [handleItem, StateT.run_bind, h]
  rfl

theorem run_handle
    (item : Item)
    (s : Session) :
    (handle item).run s = (((handleItem item s.evaluate).run s.context).1,
      { s with context := ((handleItem item s.evaluate).run s.context).2 }) :=
  rfl

theorem run_handleNoting_ok
    {item : Item}
    {s : Session}
    {o : Outcome}
    (h : (handleItem item s.evaluate).run s.context = (.ok o, c')) :
    (handleNoting item).run s = (.ok o, { s with context := c' }) := by
  have hrun := run_handle item s
  rw [h] at hrun
  simp only [handleNoting, StateT.run_bind, hrun]
  rfl

theorem run_handleNoting_error
    {item : Item}
    {s : Session}
    {fault : SessionError}
    (h : (handleItem item s.evaluate).run s.context = (.error fault, c')) :
    ∃ note, (handleNoting item).run s =
      (.error fault,
        { s with context := c'.mapBuilder (Builder.record (.note note)) }) := by
  have hrun := run_handle item s
  rw [h] at hrun
  refine ⟨⟨.debug, .session, "item failed: " ++ fault.message⟩, ?_⟩
  simp only [handleNoting, StateT.run_bind, hrun]
  rfl

/-- As one of several, an item is handled as by itself; a failure is noted. -/
theorem run_handleNoting
    (item : Item)
    (s : Session) :
    ∃ notes, Journal.Quiet notes ∧ (handleNoting item).run s =
      (((handleItem item s.evaluate).run s.context).1, { s with
        context := ((handleItem item s.evaluate).run s.context).2.mapBuilder fun b =>
          { b with journal := notes ++ b.journal } }) := by
  rcases hrun : (handleItem item s.evaluate).run s.context with ⟨fault | o, c'⟩
  · obtain ⟨note, hnoting⟩ := run_handleNoting_error hrun
    exact ⟨[.note note], Journal.Quiet.cons (fun _ h => (by cases h)) note, hnoting⟩
  · exact ⟨[], fun _ h => (by cases h), run_handleNoting_ok hrun⟩

theorem evaluate_handleNoting
    (item : Item)
    (s : Session) :
    ((handleNoting item).run s).2.evaluate = s.evaluate := by
  obtain ⟨notes, -, hrun⟩ := run_handleNoting item s
  rw [hrun]

theorem steady_handleNoting
    {s : Session}
    (hcursor : s.context.builder.cursor = none)
    (item : Item) :
    s.context.Steady ((handleNoting item).run s).2.context := by
  obtain ⟨notes, -, hrun⟩ := run_handleNoting item s
  have hsteady := steady_handleItem hcursor item s.evaluate
  rw [hrun]
  exact ⟨hsteady.issued, hsteady.cursor, hsteady.settings, hsteady.passes⟩

end Sessions

theorem run_handleAll_cons
    (item : Item)
    (rest : List Item)
    (s : Session) :
    (handleAll (item :: rest)).run s =
      (((handleNoting item).run s).1 ::
        ((handleAll rest).run ((handleNoting item).run s).2).1,
        ((handleAll rest).run ((handleNoting item).run s).2).2) :=
  rfl

theorem steady_handleAll
    {s : Session}
    (hcursor : s.context.builder.cursor = none)
    (items : List Item) :
    s.context.Steady ((handleAll items).run s).2.context := by
  induction items generalizing s with
  | nil => exact ⟨Nat.le_refl _, hcursor, rfl, rfl⟩
  | cons item items ih =>
      have hfirst := steady_handleNoting hcursor item
      rw [run_handleAll_cons]
      exact hfirst.trans (ih hfirst.cursor)

end Session

end ScalarSsa
