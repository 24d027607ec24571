import ScalarSsa.Proofs.Session.Items

/-!
# One report for each failure

**Input.** A session in any state: its module, cursor, scope and passes may be anything.

**Definitions.** `Context.Tells` says which reports the journal of a later context has in
addition.  A computation is `Candid` in a context if it reports the error with which it
fails, once, and nothing else.

**Results.** A sequence of candid computations is candid, since a failure is reported
where it is found and ends the sequence there, and so is a computation that only cleans
up after a failure.  `candid_lowerExpr` and `candid_lowerDefinition` say so of lowering,
by induction on expressions.  `reports_are_errors`: the reports of a session are the
errors that it returns.
-/

namespace ScalarSsa

/-! ## Reports in a journal -/

namespace Journal

theorem reports_append
    (later earlier : Journal) :
    reports (later ++ earlier) = reports earlier ++ reports later := by
  simp [reports]

theorem Quiet.reports_eq
    {notes : Journal}
    (h : notes.Quiet) :
    notes.reports = [] := by
  rw [reports, List.filterMap_eq_nil_iff]
  intro e he
  obtain ⟨note, rfl⟩ := h e (List.mem_reverse.mp he)
  rfl

theorem reports_map_host
    (calls : List HostCall) :
    reports (calls.map .host) = [] := by
  rw [reports, List.filterMap_eq_nil_iff]
  intro e he
  obtain ⟨call, -, rfl⟩ := List.mem_map.mp (List.mem_reverse.mp he)
  rfl

end Journal

/-- The report of the error that a result is, if it is one. -/
def told {ε α : Type} (report : ε → Report) : Except ε α → List Report
  | .ok _ => []
  | .error e => [report e]

namespace Context

/-- A later context, in which some reports have been made. -/
structure Tells (c d : Context) (reports : List Report) : Prop where
  settings : d.settings = c.settings
  passes : d.passes = c.passes
  journal : ∃ events, d.builder.journal = events ++ c.builder.journal ∧
    Journal.reports events = reports

namespace Tells

variable {c d d' : Context} {reports reports' : List Report}

theorem refl
    (c : Context) :
    c.Tells c [] :=
  ⟨rfl, rfl, [], rfl, rfl⟩

theorem trans
    (h : c.Tells d reports)
    (h' : d.Tells d' reports') :
    c.Tells d' (reports ++ reports') := by
  obtain ⟨events, hevents, rfl⟩ := h.journal
  obtain ⟨events', hevents', rfl⟩ := h'.journal
  refine ⟨h'.settings.trans h.settings, h'.passes.trans h.passes, events' ++ events, ?_, ?_⟩
  · rw [hevents', hevents, List.append_assoc]
  · rw [Journal.reports_append]

/-- What tells nothing may come before. -/
theorem after
    (h : d.Tells d' reports)
    (hfirst : c.Tells d []) :
    c.Tells d' reports :=
  hfirst.trans h

/-- Notes tell nothing. -/
theorem of_quiet
    {notes : Journal}
    (hnotes : notes.Quiet)
    (hsettings : d.settings = c.settings)
    (hpasses : d.passes = c.passes)
    (hjournal : d.builder.journal = notes ++ c.builder.journal) :
    c.Tells d [] :=
  ⟨hsettings, hpasses, notes, hjournal, hnotes.reports_eq⟩

end Tells

end Context

/-! ## Operations of the builder only take notes -/

namespace Builder

/-- A later builder, with nothing but notes added to its journal. -/
def Noted (b b' : Builder) : Prop :=
  ∃ notes, Journal.Quiet notes ∧ b'.journal = notes ++ b.journal

theorem Noted.refl
    (b : Builder) :
    b.Noted b :=
  ⟨[], fun _ h => (by cases h), rfl⟩

variable {b₀ b : Builder} (h : b₀.Noted b)

include h

theorem Noted.note
    {b' : Builder}
    {note : Note}
    (hjournal : b'.journal = .note note :: b.journal) :
    b₀.Noted b' := by
  obtain ⟨notes, hquiet, hb⟩ := h
  exact ⟨.note note :: notes, hquiet.cons note, by rw [hjournal, hb]; rfl⟩

theorem leaves_currentFunction :
    Leaves currentFunction b b₀.Noted := by
  refine Leaves.get_bind ?_
  cases b.cursor with
  | none => exact h
  | some cursor =>
      simp only
      cases b.module.function? cursor.func with
      | none => exact h
      | some f => exact h

theorem leaves_requireOpen
    (f : Function)
    (block : BlockId) :
    Leaves (requireOpen f block) b b₀.Noted := by
  rw [requireOpen_eq]
  cases f.openError? block with
  | none => exact h
  | some e => exact h

theorem leaves_push
    (kind : InstrKind) :
    Leaves (push kind) b b₀.Noted := by
  refine (leaves_currentFunction h).bind fun current d hd => ?_
  refine Leaves.lift_bind rfl ?_
  have hissued : b₀.Noted (d.mapFunction current.1.id Function.issueValue) := hd
  exact (leaves_requireOpen hissued current.1 current.2).bind fun _ d hd => hd

theorem leaves_terminate
    (term : Terminator) :
    Leaves (terminate term) b b₀.Noted := by
  refine (leaves_currentFunction h).bind fun current d hd => ?_
  exact (leaves_requireOpen hd current.1 current.2).bind fun _ d hd => hd

theorem leaves_appendBlock
    (id : FuncId)
    (label : String) :
    Leaves (appendBlock id label) b b₀.Noted := by
  refine Leaves.get_bind ?_
  cases b.module.function? id with
  | none => exact h
  | some f => exact Leaves.lift_bind rfl (.pure (h.note rfl))

theorem leaves_lessThan
    (lhs rhs : Operand) :
    Leaves (lessThan lhs rhs) b b₀.Noted :=
  (leaves_push h _).bind fun _ _ hd => leaves_push hd _

theorem leaves_call
    (callee : FuncId)
    (args : List Operand) :
    Leaves (call callee args) b b₀.Noted := by
  refine Leaves.get_bind ?_
  cases b.module.function? callee with
  | none => exact h
  | some f => exact leaves_push h _

end Builder

/-! ## Candid computations -/

/-- A computation reports the error with which it fails, and nothing else. -/
def Candid {α : Type} (x : Lowering α) (c : Context) : Prop :=
  c.Tells (x.run.run c).2 (told LowerError.report (x.run.run c).1)

namespace Candid

variable {α β : Type} {x : Lowering α} {c : Context}

theorem pure
    (a : α)
    (c : Context) :
    Candid (Pure.pure a) c :=
  .refl c

theorem get_bind
    {next : Context → Lowering α}
    (h : Candid (next c) c) :
    Candid (MonadState.get >>= next) c := by
  unfold Candid
  rw [run_bind_ok (run_get c)]
  exact h

theorem bind
    {next : α → Lowering β}
    (h : Candid x c)
    (hnext : ∀ a d, c.Tells d [] → Candid (next a) d) :
    Candid (x >>= next) c := by
  unfold Candid at h ⊢
  rcases hx : x.run.run c with ⟨e | a, d⟩
  · rw [hx] at h
    rw [run_bind_error hx]
    exact h
  · rw [hx] at h
    rw [run_bind_ok hx]
    exact (hnext a d h).after h

theorem lift
    {op : StateM Context α}
    (h : c.Tells (op.run c).2 []) :
    Candid (liftM op) c :=
  h

/-- A computation that only cleans up after a failure. -/
theorem tryCatch
    {cleanup : LowerError → StateM Context Unit}
    (h : Candid x c)
    (hcleanup : ∀ e (d : Context), d.Tells ((cleanup e).run d).2 []) :
    Candid (MonadExcept.tryCatch x fun e => do liftM (cleanup e); throw e) c := by
  unfold Candid at h ⊢
  rcases hx : x.run.run c with ⟨e | a, d⟩
  · rw [hx] at h
    have hthrow : (do liftM (cleanup e); throw e : Lowering α).run.run d =
        (.error e, ((cleanup e).run d).2) :=
      run_bind_ok (run_lift rfl)
    rw [run_tryCatch_error hx, hthrow]
    have hboth := h.trans (hcleanup e d)
    rwa [List.append_nil] at hboth
  · rw [hx] at h
    rw [run_tryCatch_ok hx]
    exact h

end Candid

namespace Lowering

variable {α : Type} {c : Context}

/-! ## Expressions -/

theorem candid_fail
    (e : LowerError)
    (c : Context) :
    Candid (fail e : Lowering α) c :=
  ⟨rfl, rfl, [.report e.report], rfl, rfl⟩

theorem candid_build
    {op : Build α}
    (hop : ∀ b, Leaves op b b.Noted)
    (c : Context) :
    Candid (build op) c := by
  obtain ⟨notes, hquiet, hjournal⟩ := hop c.builder
  unfold Candid
  rcases hrun : op.run.run c.builder with ⟨e | a, b⟩
  · rw [hrun] at hjournal
    rw [run_build_error hrun]
    have hbuilt : c.Tells { c with builder := b } [] := .of_quiet hquiet rfl rfl hjournal
    exact (candid_fail (α := α) (.insertPoint e) _).after hbuilt
  · rw [hrun] at hjournal
    rw [run_build_ok hrun]
    exact .of_quiet hquiet rfl rfl hjournal

theorem candid_push
    (kind : InstrKind)
    (c : Context) :
    Candid (build (Builder.push kind)) c :=
  candid_build (fun b => Builder.leaves_push (.refl b) kind) c

theorem candid_terminate
    (term : Terminator)
    (c : Context) :
    Candid (build (Builder.terminate term)) c :=
  candid_build (fun b => Builder.leaves_terminate (.refl b) term) c

theorem candid_appendBlock
    (id : FuncId)
    (label : String)
    (c : Context) :
    Candid (build (Builder.appendBlock id label)) c :=
  candid_build (fun b => Builder.leaves_appendBlock (.refl b) id label) c

theorem candid_moveTo
    (id : FuncId)
    (block : BlockId)
    (c : Context) :
    Candid (liftM (moveTo id block)) c :=
  .lift ⟨rfl, rfl, [], rfl, rfl⟩

theorem candid_insertionPoint
    (c : Context) :
    Candid insertionPoint c := by
  refine .get_bind ?_
  cases c.builder.cursor with
  | none => exact candid_fail _ c
  | some cursor => exact .pure _ c

theorem candid_here
    (o : Operand)
    (c : Context) :
    Candid (here o) c :=
  (candid_insertionPoint c).bind fun _ d _ => .pure _ d

theorem candid_built
    {op : Build Operand}
    (hop : ∀ b, Leaves op b b.Noted)
    (c : Context) :
    Candid (do here (← build op)) c :=
  (candid_build hop c).bind fun o d _ => candid_here o d

theorem candid_named
    (name : String)
    (c : Context) :
    Candid (named name) c := by
  refine .get_bind ?_
  cases c.scope.find? name with
  | none => exact candid_fail _ c
  | some o => exact candid_here o c

theorem candid_operation
    (op : Char)
    (lhs rhs : Operand)
    (c : Context) :
    Candid (operation op lhs rhs) c := by
  have harith : ∀ a, Candid (do here (← build (Builder.arith a lhs rhs))) c :=
    fun a => candid_built (fun b => Builder.leaves_push (.refl b) _) c
  unfold operation
  by_cases hadd : op = '+'
  · rw [if_pos hadd]
    exact harith .add
  rw [if_neg hadd]
  by_cases hsub : op = '-'
  · rw [if_pos hsub]
    exact harith .sub
  rw [if_neg hsub]
  by_cases hmul : op = '*'
  · rw [if_pos hmul]
    exact harith .mul
  rw [if_neg hmul]
  by_cases hless : op = '<'
  · rw [if_pos hless]
    exact candid_built (fun b => Builder.leaves_lessThan (.refl b) lhs rhs) c
  rw [if_neg hless]
  exact candid_fail _ c

theorem candid_callee
    (name : String)
    (given : Nat)
    (c : Context) :
    Candid (callee name given) c := by
  refine .get_bind ?_
  simp only
  cases c.module.find? name with
  | none => exact candid_fail _ c
  | some id =>
      simp only
      split
      · exact .pure _ c
      · exact candid_fail _ c

theorem candid_restoring
    {branch : Lowering α}
    (h : Candid branch c)
    (scope : Scope) :
    Candid (restoring scope branch) c := by
  unfold Candid at h ⊢
  rw [run_restoring]
  exact ⟨h.settings, h.passes, h.journal⟩

theorem candid_conditional
    {thenBranch elseBranch : Lowering Lowered}
    (hthen : ∀ c, Candid thenBranch c)
    (helse : ∀ c, Candid elseBranch c)
    (test : Operand)
    (c : Context) :
    Candid (conditional test thenBranch elseBranch) c := by
  refine (candid_push _ c).bind fun flag _ _ => ?_
  refine (candid_insertionPoint _).bind fun origin _ _ => ?_
  refine (candid_appendBlock _ "then" _).bind fun thenBlock _ _ => ?_
  refine (candid_appendBlock _ "else" _).bind fun elseBlock _ _ => ?_
  refine (candid_appendBlock _ "ifcont" _).bind fun merge _ _ => ?_
  refine .get_bind ?_
  refine (candid_moveTo _ thenBlock _).bind fun _ _ _ => ?_
  refine (candid_restoring (hthen _) _).bind fun thenEnd _ _ => ?_
  refine (candid_moveTo _ elseBlock _).bind fun _ _ _ => ?_
  refine (candid_restoring (helse _) _).bind fun elseEnd _ _ => ?_
  refine (candid_moveTo _ merge _).bind fun _ _ _ => ?_
  refine (candid_push _ _).bind fun value _ _ => ?_
  refine (candid_moveTo _ thenEnd.block _).bind fun _ _ _ => ?_
  refine (candid_terminate _ _).bind fun _ _ _ => ?_
  refine (candid_moveTo _ elseEnd.block _).bind fun _ _ _ => ?_
  refine (candid_terminate _ _).bind fun _ _ _ => ?_
  refine (candid_moveTo _ origin.block _).bind fun _ _ _ => ?_
  refine (candid_terminate _ _).bind fun _ _ _ => ?_
  refine (candid_moveTo _ merge _).bind fun _ _ _ => ?_
  refine Candid.bind (.lift ?_) fun _ d _ => .pure _ d
  exact ⟨rfl, rfl, [.note _], rfl, rfl⟩

mutual

/-- Lowering an expression reports the failure that ends it, however deep it is found. -/
theorem candid_lowerExpr
    (e : Expr)
    (c : Context) :
    Candid (lowerExpr e) c := by
  cases e with
  | number x =>
      rw [lowerExpr]
      exact candid_here _ c
  | var name =>
      rw [lowerExpr]
      exact candid_named name c
  | binary op lhs rhs =>
      rw [lowerExpr]
      refine (candid_lowerExpr lhs c).bind fun l d _ => ?_
      refine (candid_lowerExpr rhs d).bind fun r d _ => ?_
      exact candid_operation op l.operand r.operand d
  | call name args =>
      rw [lowerExpr]
      refine (candid_callee name args.length c).bind fun id d _ => ?_
      refine (candid_lowerArgs args d).bind fun operands d _ => ?_
      exact candid_built (fun b => Builder.leaves_call (.refl b) id operands) d
  | cond test thenBranch elseBranch =>
      rw [lowerExpr]
      refine (candid_lowerExpr test c).bind fun t d _ => ?_
      exact candid_conditional (candid_lowerExpr thenBranch)
        (candid_lowerExpr elseBranch) t.operand d

theorem candid_lowerArgs
    (es : List Expr)
    (c : Context) :
    Candid (lowerArgs es) c := by
  cases es with
  | nil =>
      rw [lowerArgs]
      exact .pure _ c
  | cons e rest =>
      rw [lowerArgs]
      refine (candid_lowerExpr e c).bind fun l d _ => ?_
      exact (candid_lowerArgs rest d).bind fun operands d _ => .pure _ d

end

/-! ## Signatures and definitions -/

theorem tells_install
    (s : Signature)
    (c : Context) :
    c.Tells ((install s).run c).2 [] := by
  unfold install
  rw [run_stateGet_bind]
  cases existing? c.module s.name with
  | none => exact ⟨rfl, rfl, [.note _], rfl, rfl⟩
  | some known => exact ⟨rfl, rfl, [], rfl, rfl⟩

theorem candid_declareSignature
    (s : Signature)
    (c : Context) :
    Candid (declareSignature s) c := by
  refine .get_bind ?_
  cases signatureError? c.module s with
  | some e => exact candid_fail e c
  | none =>
      refine Candid.bind (.lift (tells_install s c)) fun declared d _ => ?_
      exact Candid.bind (.lift ⟨rfl, rfl, [], rfl, rfl⟩) fun _ d _ => .pure _ d

theorem candid_lowerSignature
    (s : Signature)
    (c : Context) :
    Candid (lowerSignature s) c :=
  (candid_declareSignature s c).bind fun _ d _ => .pure _ d

theorem candid_checkWhen
    (wanted : Bool)
    (id : FuncId)
    (c : Context) :
    Candid (checkWhen wanted id) c := by
  cases wanted with
  | false => exact .pure _ c
  | true =>
      refine .get_bind ?_
      simp only
      cases c.module.function? id with
      | none => exact candid_fail _ c
      | some f =>
          simp only
          cases c.module.verify f with
          | ok _ => exact .pure _ c
          | error e => exact candid_fail _ c

theorem tells_optimize
    (id : FuncId)
    (c : Context) :
    c.Tells ((optimize id).run c).2 [] := by
  cases hf : c.module.function? id with
  | none =>
      rw [run_optimize_missing hf]
      exact .refl c
  | some f =>
      rw [run_optimize hf]
      exact .of_quiet (PassResult.quiet_journal _) rfl rfl rfl

theorem candid_lowerBody
    (id : FuncId)
    (body : Expr)
    (c : Context) :
    Candid (lowerBody id body) c := by
  rw [lowerBody_eq]
  have hemit : Candid (emitBody id body) c := by
    refine (candid_appendBlock id "entry" c).bind fun entry _ _ => ?_
    refine (candid_moveTo id entry _).bind fun _ _ _ => ?_
    refine (candid_lowerExpr body _).bind fun result _ _ => ?_
    exact candid_terminate _ _
  refine hemit.bind fun _ d hd => .get_bind ?_
  refine (candid_checkWhen d.settings.verify id d).bind fun _ d' hd' => ?_
  cases hoptimize : d.settings.optimize with
  | false => exact .pure _ d'
  | true =>
      refine Candid.bind (.lift (tells_optimize id d')) fun _ d'' _ => ?_
      exact candid_checkWhen d.settings.verify id d''

theorem tells_delete?
    (id : FuncId)
    (c : Context) :
    c.Tells ((onBuilder (Builder.delete? id)).run c).2 [] := by
  cases hf : c.module.function? id with
  | none =>
      rw [Session.run_delete?_missing hf]
      exact .refl c
  | some f =>
      obtain ⟨note, hrun⟩ := Session.run_delete? hf
      rw [hrun]
      exact ⟨rfl, rfl, [.note note], rfl, rfl⟩

theorem tells_discard
    (id : FuncId)
    (previous : Option (List String))
    (c : Context) :
    c.Tells ((discard id previous).run c).2 [] := by
  cases previous with
  | some params =>
      rw [run_discard_some]
      exact ⟨rfl, rfl, [], rfl, rfl⟩
  | none =>
      have hrun : ((discard id none).run c).2 =
          ((onBuilder (Builder.delete? id)).run { c with
        builder := { c.builder with cursor := none }, scope := [] }).2 := rfl
      rw [hrun]
      exact (tells_delete? id _).after ⟨rfl, rfl, [], rfl, rfl⟩

/-- What a failed definition is undone with reports nothing. -/
theorem candid_lowerDefinition
    (d : Definition)
    (c : Context) :
    Candid (lowerDefinition d) c := by
  refine Candid.bind (.lift ⟨rfl, rfl, [], rfl, rfl⟩) fun _ c₁ h₁ => ?_
  refine (candid_declareSignature d.signature c₁).bind fun declared c₂ h₂ => ?_
  have hbody : Candid (lowerBody declared.1 d.body) c₂ :=
    candid_lowerBody declared.1 d.body c₂
  refine (hbody.tryCatch fun _ d => tells_discard declared.1 declared.2 d).bind
    fun _ c₃ _ => ?_
  exact Candid.bind (.lift ⟨rfl, rfl, [.note _], rfl, rfl⟩) fun _ c₄ _ => .pure _ c₄

end Lowering

/-! ## Sessions -/

namespace Session

open Lowering

variable {c : Context}

theorem tells_settle
    (id : FuncId)
    (evaluate : Bool)
    (c : Context) :
    c.Tells ((settle id evaluate).run c).2 [] := by
  obtain ⟨notes, hquiet, hrun⟩ := run_settle id evaluate c
  rw [hrun]
  refine ⟨rfl, rfl, notes ++ (outcomeCalls c id evaluate).map .host, ?_, ?_⟩
  · rw [List.append_assoc]
  · rw [Journal.reports_append, Journal.reports_map_host, hquiet.reports_eq,
      List.append_nil]

/--
An expression fails when it is lowered or when it is run, and either is reported once.
-/
theorem tells_handleExpr
    (e : Expr)
    (evaluate : Bool)
    (c : Context) :
    c.Tells ((handleExpr e evaluate).run c).2
      (told SessionError.report ((handleExpr e evaluate).run c).1) := by
  have hlower := candid_lowerDefinition (asDefinition e) c
  unfold Candid at hlower
  rcases hrun : (lowerDefinition (asDefinition e)).run.run c with ⟨fault | id, c₁⟩
  · rw [hrun] at hlower
    rw [run_handleExpr_error hrun]
    exact hlower
  · rw [hrun] at hlower
    rcases hsettle : (settle id evaluate).run c₁ with ⟨result, c₂⟩
    rcases hdelete : (onBuilder (Builder.delete? id)).run c₂ with ⟨removed, c₃⟩
    have hsettled : c₁.Tells c₂ [] := by
      simpa [hsettle] using tells_settle id evaluate c₁
    have hdeleted : c₂.Tells c₃ [] := by
      simpa [hdelete] using tells_delete? id c₂
    have hquiet : c.Tells c₃ [] := (hlower.trans hsettled).trans hdeleted
    rw [handleExpr, run_state_bind hrun, run_state_bind hsettle, run_state_bind hdelete]
    cases result with
    | ok o => exact hquiet
    | error fault =>
        have hreport : c₃.Tells (c₃.mapBuilder (Builder.record (.report fault.report)))
            [fault.report] :=
          ⟨rfl, rfl, [.report fault.report], rfl, rfl⟩
        exact hreport.after hquiet

theorem tells_handleItem
    (item : Item)
    (evaluate : Bool)
    (c : Context) :
    c.Tells ((handleItem item evaluate).run c).2
      (told SessionError.report ((handleItem item evaluate).run c).1) := by
  cases item with
  | definition d =>
      have hlower := candid_lowerDefinition d c
      unfold Candid at hlower
      rcases hrun : (lowerDefinition d).run.run c with ⟨fault | id, c'⟩
      all_goals rw [hrun] at hlower
      · rw [run_definition_error hrun]
        exact hlower
      · rw [run_definition_ok hrun]
        exact hlower
  | declaration s =>
      have hlower := candid_lowerSignature s c
      unfold Candid at hlower
      rcases hrun : (lowerSignature s).run.run c with ⟨fault | id, c'⟩
      all_goals rw [hrun] at hlower
      · rw [run_declaration_error hrun]
        exact hlower
      · rw [run_declaration_ok hrun]
        exact hlower
  | expression e => exact tells_handleExpr e evaluate c

theorem tells_handleNoting
    (item : Item)
    (s : Session) :
    s.context.Tells ((handleNoting item).run s).2.context
      (told SessionError.report ((handleNoting item).run s).1) := by
  obtain ⟨notes, hquiet, hrun⟩ := run_handleNoting item s
  have hitem := tells_handleItem item s.evaluate s.context
  rw [hrun]
  have hnoted :=
    hitem.trans
      (.of_quiet
        (d := Context.mapBuilder (fun b => { b with journal := notes ++ b.journal })
    ((handleItem item s.evaluate).run s.context).2) hquiet rfl rfl rfl)
  rwa [List.append_nil] at hnoted

theorem tells_handleAll
    (items : List Item)
    (s : Session) :
    s.context.Tells ((handleAll items).run s).2.context
      (((handleAll items).run s).1.flatMap (told SessionError.report)) := by
  induction items generalizing s with
  | nil => exact .refl _
  | cons item items ih =>
      have hfirst := tells_handleNoting item s
      rw [run_handleAll_cons, List.flatMap_cons]
      exact hfirst.trans (ih _)

/--
Whatever the state of a session is, handling an item makes one report if it fails, which is
that of the returned error, and none if it succeeds; so the reports made for a list of items
are those of the returned errors, in their order.
-/
theorem reports_are_errors
    (s : Session) :
    (∀ item, ∃ events,
      ((handle item).run s).2.context.builder.journal = events ++
        s.context.builder.journal ∧
        Journal.reports events = told SessionError.report ((handle item).run s).1) ∧
    ∀ items, ∃ events,
      ((handleAll items).run s).2.context.builder.journal = events ++
        s.context.builder.journal ∧
        Journal.reports events =
          ((handleAll items).run s).1.flatMap (told SessionError.report) := by
  constructor
  · intro item
    exact (tells_handleItem item s.evaluate s.context).journal
  · intro items
    exact (tells_handleAll items s).journal

/--
A session whose cursor is in a function that does not exist and whose scope was left over.
-/
def strayed : Session :=
  ⟨⟨⟨.empty, some ⟨⟨7⟩, ⟨3⟩⟩, []⟩, [("y", .arg 9)], .standard, ⟨true, true, 8, 100⟩⟩, true⟩

/--
Items that fail in their signature, in an operand of a call, and when they are run, between
others that do not.
-/
def mixed : List Item :=
  [.declaration ⟨"f", ["x", "x"]⟩, .declaration ⟨"f", ["x"]⟩,
    .definition ⟨⟨"g", ["x"]⟩, .call "f" [.binary '+' (.var "x") (.var "y")]⟩,
    .expression (.number 1.0),
    .expression (.call "f" [.number 1.0])]

theorem strayed_reports :
    ∃ events,
      ((handleAll mixed).run strayed).2.context.builder.journal = events ++
        strayed.context.builder.journal ∧
        Journal.reports events =
          [⟨.error, "kaleido.lower", "duplicate parameter 'x' in prototype 'f'"⟩,
            ⟨.error, "kaleido.lower", "Unknown variable name 'y'"⟩,
            ⟨.error, "kaleido.exec",
              "no host implementation for external function 'f'"⟩] := by
  obtain ⟨events, hjournal, hreports⟩ := (reports_are_errors strayed).2 mixed
  refine ⟨events, hjournal, hreports.trans ?_⟩
  decide +kernel

end Session

end ScalarSsa
