import ScalarSsa.Lowering.Definition
import ScalarSsa.Proofs.Lowering.Emission
import ScalarSsa.Proofs.Ssa.Building

/-!
# The steps of lowering

**Input.** A context whose module holds a function under construction.

**Definitions.** `Context.at` is the context with a function and a cursor as a `Site` says.

**Results.** Every operation of the builder takes a context at a site to the context at the
next one, so that a lowering that succeeds has emitted what `Emits` says:
`ensures_lowerExpr`.
-/

namespace ScalarSsa

namespace Builder

variable {b : Builder} {cursor : Cursor} {f : Function}

/-! ## Builders at a site -/

/-- The builder with a function and a cursor as a site says, and some more notes. -/
def atSite (b : Builder) (s : Site) (notes : Journal) : Builder :=
  ⟨b.module.mapFunction s.func.id fun _ => s.func, some ⟨s.func.id, s.block⟩,
    notes ++ b.journal⟩

/-- The function at a site is one of the builder's, with a body under construction. -/
structure Declares (b : Builder) (s : Site) (g : Function) : Prop where
  function : b.module.function? s.func.id = some g
  header : g.header = s.func.header

section Site

variable {s : Site} {notes : Journal} {g : Function}

/-- Changing the function at a site changes the site. -/
theorem mapFunction_atSite
    (change : Function → Function)
    (hid : (change s.func).id = s.func.id) :
    (b.atSite s notes).mapFunction s.func.id change =
      b.atSite ⟨change s.func, s.block⟩ notes := by
  simp only [Builder.atSite, mapFunction, hid]
  rw [Module.mapFunction_mapFunction _ _ fun _ _ => rfl]

variable (h : b.Declares s g)

include h

theorem function?_atSite :
    (b.atSite s notes).module.function? s.func.id = some s.func := by
  rw [Builder.atSite, Module.function?_mapFunction _ _ _ fun _ _ => rfl, h.function]
  simp [Module.id_of_function? h.function]

/-- Every function of a builder at a site is one of the builder's, up to its body. -/
theorem exists_of_function?_atSite
    {f : Function}
    {id : FuncId}
    (hf : (b.atSite s notes).module.function? id = some f) :
    ∃ f', b.module.function? id = some f' ∧ f'.header = f.header := by
  rw [Builder.atSite, Module.function?_mapFunction _ _ _ fun _ _ => rfl] at hf
  obtain ⟨f', hf', heq⟩ := Option.map_eq_some_iff.1 hf
  refine ⟨f', hf', ?_⟩
  by_cases hid : f'.id = s.func.id
  · rw [if_pos hid] at heq
    subst heq
    have hsame := h.function
    rw [← hid, Module.id_of_function? hf', hf'] at hsame
    cases hsame
    exact h.header
  · rw [if_neg hid] at heq
    rw [heq]

theorem arity_atSite
    (id : FuncId) :
    ((b.atSite s notes).module.function? id).map Function.arity =
      (b.module.function? id).map Function.arity := by
  rw [Builder.atSite, Module.function?_mapFunction _ _ _ fun _ _ => rfl, Option.map_map]
  cases hf : b.module.function? id with
  | none => rfl
  | some f =>
      by_cases hid : f.id = s.func.id
      · have hsame := h.function
        rw [← hid, Module.id_of_function? hf, hf] at hsame
        cases hsame
        have hparams : g.params = s.func.params :=
          congrArg (fun header => header.2.2) h.header
        simp [hid, Function.arity, hparams]
      · simp [hid]

theorem ensures_push
    (kind : InstrKind) :
    Ensures (push kind) (b.atSite s notes) fun o b' =>
      o = .result s.next ∧ b' = b.atSite (s.push kind) notes := by
  intro o b' hrun
  rw [run_push rfl (function?_atSite h)] at hrun
  cases herror : s.func.openError? s.block with
  | some e =>
      simp only [herror] at hrun
      cases hrun
  | none =>
      simp only [herror] at hrun
      cases hrun
      refine ⟨rfl, ?_⟩
      rw [mapFunction_atSite Function.issueValue rfl]
      exact mapFunction_atSite (s := ⟨s.func.issueValue, s.block⟩) _ rfl

theorem ensures_terminate
    (term : Terminator) :
    Ensures (terminate term) (b.atSite s notes) fun _ b' =>
      b' = b.atSite (s.close term) notes := by
  intro o b' hrun
  rw [run_terminate rfl (function?_atSite h)] at hrun
  cases herror : s.func.openError? s.block with
  | some e =>
      simp only [herror] at hrun
      cases hrun
  | none =>
      simp only [herror] at hrun
      cases hrun
      exact mapFunction_atSite _ rfl

/-- A block is appended, and a note is taken of it. -/
theorem ensures_appendBlock
    (label : String) :
    Ensures (appendBlock s.func.id label) (b.atSite s notes) fun id b' =>
      id = s.fresh 0 ∧ ∃ note,
        b' = b.atSite ⟨s.func.appendBlock label, s.block⟩ (.note note :: notes) := by
  obtain ⟨text, happend⟩ := run_appendBlock (function?_atSite h) label
  intro id b' hrun
  rw [happend, mapFunction_atSite (fun f => f.appendBlock label) rfl] at hrun
  cases hrun
  exact ⟨rfl, ⟨.trace, .builder, text⟩, rfl⟩

theorem ensures_lessThan
    (x y : Operand) :
    Ensures (lessThan x y) (b.atSite s notes) fun o b' =>
      o = .result (s.push (.compare .ult x y)).next ∧
      b' = b.atSite ((s.push (.compare .ult x y)).push (.promote (.result s.next)))
        notes := by
  refine Ensures.bind (ensures_push h (.compare .ult x y)) ?_
  rintro _ _ ⟨rfl, rfl⟩
  exact ensures_push (s := s.push (.compare .ult x y)) ⟨h.function, h.header⟩ _

/-- A call names the function that it calls. -/
theorem ensures_call
    (callee : FuncId)
    (args : List Operand) :
    Ensures (call callee args) (b.atSite s notes) fun o b' =>
      o = .result s.next ∧ ∃ f, b.module.function? callee = some f ∧
        b' = b.atSite (s.push (.call callee f.name args)) notes := by
  intro o b' hrun
  cases hf : (b.atSite s notes).module.function? callee with
  | none =>
      rw [call, run_bind_ok (run_get _)] at hrun
      simp only [hf] at hrun
      cases hrun
  | some f =>
      obtain ⟨f', hf', hheader⟩ := exists_of_function?_atSite h hf
      have hname : f'.name = f.name := congrArg (fun header => header.2.1) hheader
      rw [run_call hf] at hrun
      obtain ⟨ho, hb'⟩ := ensures_push h _ o b' hrun
      exact ⟨ho, f', hf', by rw [hname]; exact hb'⟩

end Site

theorem Declares.of_header
    {s t : Site}
    {g : Function}
    (h : b.Declares s g)
    (hsame : t.func.header = s.func.header) :
    b.Declares t g := by
  have hid : t.func.id = s.func.id := congrArg (fun header => header.1) hsame
  exact ⟨hid ▸ h.function, h.header.trans hsame.symm⟩

end Builder

/-! ## Contexts at a site -/

/-- The context with its builder at a site. -/
def Context.atSite (c : Context) (s : Site) (notes : Journal) : Context :=
  { c with builder := c.builder.atSite s notes }

/-- A journal that holds nothing but notes. -/
def Journal.Quiet (notes : Journal) : Prop :=
  ∀ e ∈ notes, ∃ note, e = .note note

theorem Journal.Quiet.cons
    {notes : Journal}
    (h : notes.Quiet)
    (note : Note) :
    Journal.Quiet (.note note :: notes) := by
  intro e he
  rcases List.mem_cons.1 he with rfl | he
  · exact ⟨note, rfl⟩
  · exact h e he

/-- The events of a pass are notes. -/
theorem PassResult.quiet_journal
    (result : PassResult) :
    result.journal.Quiet := by
  intro e he
  obtain ⟨note, -, rfl⟩ := List.mem_map.1 he
  exact ⟨note, rfl⟩

theorem Journal.Quiet.append
    {notes notes' : Journal}
    (h : notes.Quiet)
    (h' : notes'.Quiet) :
    Journal.Quiet (notes ++ notes') := by
  intro e he
  rcases List.mem_append.1 he with he | he
  · exact h e he
  · exact h' e he

namespace Lowering

variable {α : Type}

theorem run_build_ok
    {op : Build α}
    {c : Context}
    {a : α}
    {b : Builder}
    (h : op.run.run c.builder = (.ok a, b)) :
    (build op).run.run c = (.ok a, { c with builder := b }) := by
  have hrun : (onBuilder op.run).run c =
      ((op.run.run c.builder).1, { c with builder := (op.run.run c.builder).2 }) := rfl
  rw [h] at hrun
  simp only [build, ExceptT.run_mk, StateT.run_bind, hrun]
  rfl

theorem run_build_error
    {op : Build α}
    {c : Context}
    {e : InsertError}
    {b : Builder}
    (h : op.run.run c.builder = (.error e, b)) :
    (build op).run.run c =
      (.error (.insertPoint e),
        { c with builder := b.record (.report (LowerError.report (.insertPoint e))) }) := by
  have hrun : (onBuilder op.run).run c =
      ((op.run.run c.builder).1, { c with builder := (op.run.run c.builder).2 }) := rfl
  rw [h] at hrun
  simp only [build, ExceptT.run_mk, StateT.run_bind, hrun]
  rfl

/-- What an operation of the builder ensures. -/
theorem ensures_build
    {op : Build α}
    {c : Context}
    {post : α → Builder → Prop}
    (h : Ensures op c.builder post) :
    Ensures (build op) c fun a d => ∃ b, post a b ∧ d = { c with builder := b } := by
  intro a d hrun
  rcases hop : op.run.run c.builder with ⟨_ | a', b⟩
  · rw [run_build_error hop] at hrun
    cases hrun
  · rw [run_build_ok hop] at hrun
    cases hrun
    exact ⟨b, h a b hop, rfl⟩

/-- The given scope is in force after a branch. -/
theorem run_restoring
    (scope : Scope)
    (branch : Lowering α)
    (c : Context) :
    (restoring scope branch).run.run c =
      ((branch.run.run c).1, { (branch.run.run c).2 with scope := scope }) :=
  rfl

/-- Nothing is put back where nothing was bound. -/
theorem ensures_restoring
    {branch : Lowering α}
    {c : Context}
    {scope : Scope}
    {post : α → Context → Prop}
    (h : Ensures branch c post)
    (hscope : ∀ a d, post a d → d.scope = scope) :
    Ensures (restoring scope branch) c post := by
  intro a d hrun
  rcases hbranch : branch.run.run c with ⟨r, d'⟩
  rw [run_restoring, hbranch] at hrun
  cases hrun
  have hpost := h a d' hbranch
  rw [← hscope a d' hpost]
  exact hpost

theorem ensures_fail
    (e : LowerError)
    (c : Context)
    (post : α → Context → Prop) :
    Ensures (fail e) c post := by
  intro a d hrun
  cases hrun

section Site

variable {c : Context} {s : Site} {notes : Journal} {g : Function}

theorem ensures_moveTo
    (block : BlockId) :
    Ensures (liftM (moveTo s.func.id block) : Lowering Unit) (c.atSite s notes) fun _ d =>
      d = c.atSite (s.moveTo block) notes :=
  .lift rfl

theorem ensures_moveTo_of_id
    (t : Site)
    (block : BlockId)
    (hid : t.func.id = s.func.id) :
    Ensures (liftM (moveTo s.func.id block) : Lowering Unit) (c.atSite t notes) fun _ d =>
      d = c.atSite (t.moveTo block) notes :=
  hid ▸ ensures_moveTo block

theorem ensures_insertionPoint :
    Ensures insertionPoint (c.atSite s notes) fun cursor d =>
      cursor = ⟨s.func.id, s.block⟩ ∧ d = c.atSite s notes := by
  refine Ensures.get_bind ?_
  exact .pure ⟨rfl, rfl⟩

theorem ensures_here
    (o : Operand) :
    Ensures (here o) (c.atSite s notes) fun l d =>
      l = ⟨o, s.block⟩ ∧ d = c.atSite s notes := by
  refine Ensures.bind ensures_insertionPoint ?_
  rintro _ _ ⟨rfl, rfl⟩
  exact .pure ⟨rfl, rfl⟩

theorem ensures_named
    (name : String) :
    Ensures (named name) (c.atSite s notes) fun l d =>
      c.scope.find? name = some l.operand ∧ l.block = s.block ∧ d = c.atSite s notes := by
  refine Ensures.get_bind ?_
  have hscope : (c.atSite s notes).scope = c.scope := rfl
  simp only [hscope]
  cases hname : c.scope.find? name with
  | none => exact ensures_fail _ _ _
  | some o =>
      refine (ensures_here o).mono ?_
      rintro _ _ ⟨rfl, rfl⟩
      exact ⟨rfl, rfl, rfl⟩

/-- What an operation of the builder at a site leads to. -/
theorem ensures_built
    {op : Build Operand}
    {o : Operand}
    {t : Site}
    (hop : Ensures op (c.builder.atSite s notes) fun o' b =>
      o' = o ∧ b = c.builder.atSite t notes) :
    Ensures (do here (← build op)) (c.atSite s notes) fun l d =>
      l = ⟨o, t.block⟩ ∧ d = c.atSite t notes := by
  refine Ensures.bind (ensures_build hop) ?_
  rintro _ _ ⟨_, ⟨rfl, rfl⟩, rfl⟩
  exact ensures_here _

variable (h : c.builder.Declares s g)

include h

theorem ensures_operation
    (op : Char)
    (x y : Operand) :
    Ensures (operation op x y) (c.atSite s notes) fun l d =>
      (∃ a, Arith.ofChar? op = some a ∧ l = ⟨.result s.next, s.block⟩ ∧
        d = c.atSite (s.push (.arith a x y)) notes) ∨
      op = '<' ∧ l = ⟨.result (s.push (.compare .ult x y)).next, s.block⟩ ∧
        d = c.atSite ((s.push (.compare .ult x y)).push (.promote (.result s.next)))
          notes := by
  have harith : ∀ a, Arith.ofChar? op = some a →
      Ensures (do here (← build (Builder.arith a x y))) (c.atSite s notes) fun l d =>
        ∃ a, Arith.ofChar? op = some a ∧ l = ⟨.result s.next, s.block⟩ ∧
          d = c.atSite (s.push (.arith a x y)) notes :=
    fun a ha => (ensures_built (Builder.ensures_push h _)).mono fun _ _ hpost =>
      ⟨a, ha, hpost⟩
  unfold operation
  by_cases hadd : op = '+'
  · rw [if_pos hadd]
    exact (harith .add (by simp [Arith.ofChar?, hadd])).mono fun _ _ hpost => .inl hpost
  · rw [if_neg hadd]
    by_cases hsub : op = '-'
    · rw [if_pos hsub]
      exact (harith .sub (by simp [Arith.ofChar?, hsub])).mono fun _ _ hpost => .inl hpost
    · rw [if_neg hsub]
      by_cases hmul : op = '*'
      · rw [if_pos hmul]
        exact (harith .mul (by simp [Arith.ofChar?, hmul])).mono fun _ _ hpost => .inl hpost
      · rw [if_neg hmul]
        by_cases hless : op = '<'
        · rw [if_pos hless]
          exact (ensures_built (Builder.ensures_lessThan h x y)).mono fun _ _ hpost =>
            .inr ⟨hless, hpost⟩
        · rw [if_neg hless]
          exact ensures_fail _ _ _

theorem ensures_callee
    (name : String)
    (given : Nat) :
    Ensures (callee name given) (c.atSite s notes) fun id d =>
      d = c.atSite s notes ∧ c.module.find? name = some id ∧
        ∀ f, c.module.function? id = some f → f.arity = given := by
  refine Ensures.get_bind ?_
  have hnames : (c.atSite s notes).module.find? name = c.module.find? name := rfl
  simp only [hnames]
  cases hname : c.module.find? name with
  | none => exact ensures_fail _ _ _
  | some id =>
      have harity : ((c.atSite s notes).module.function? id).map Function.arity =
          (c.module.function? id).map Function.arity := Builder.arity_atSite h id
      simp only [harity]
      split
      · next hexpected =>
        refine .pure ⟨rfl, rfl, fun f hf => ?_⟩
        simpa [hf] using hexpected
      · exact ensures_fail _ _ _

end Site

/-! ## Expressions -/

/-- The context after expressions were lowered from `s` to `t`. -/
def Emitted (c : Context) (es : List Expr) (s : Site) (os : List Operand) (t : Site)
    (d : Context) : Prop :=
  Emits c.module c.scope es s os t ∧ ∃ notes, notes.Quiet ∧ d = c.atSite t notes

/-- What lowering an expression at a site ensures. -/
def EmitsAt (c : Context) (e : Expr) (s : Site) : Prop :=
  ∀ notes, Journal.Quiet notes →
    Ensures (lowerExpr e) (c.atSite s notes) fun l d =>
      ∃ t, Emitted c [e] s [l.operand] t d ∧ l.block = t.block

/-- A branch binds nothing, so that nothing is put back after it. -/
theorem EmitsAt.restoring
    {c : Context}
    {e : Expr}
    {s : Site}
    (h : EmitsAt c e s)
    {notes : Journal}
    (hnotes : notes.Quiet) :
    Ensures (restoring c.scope (lowerExpr e)) (c.atSite s notes) fun l d =>
      ∃ t, Emitted c [e] s [l.operand] t d ∧ l.block = t.block := by
  refine ensures_restoring (h notes hnotes) ?_
  rintro l _ ⟨t, ⟨-, notes, -, rfl⟩, -⟩
  rfl

section Conditional

variable {c : Context} {s : Site} {g : Function} (h : c.builder.Declares s g)

include h

theorem ensures_append
    (t : Site)
    (label : String)
    (notes : Journal)
    (hheader : t.func.header = s.func.header) :
    Ensures (build (Builder.appendBlock s.func.id label)) (c.atSite t notes) fun id d =>
      id = t.fresh 0 ∧ ∃ note,
        d = c.atSite ⟨t.func.appendBlock label, t.block⟩ (.note note :: notes) := by
  have hid : t.func.id = s.func.id := congrArg (fun header => header.1) hheader
  have hop : Ensures (Builder.appendBlock t.func.id label) (c.builder.atSite t notes) _ :=
    Builder.ensures_appendBlock (h.of_header hheader) label
  rw [hid] at hop
  refine (ensures_build hop).mono ?_
  rintro _ _ ⟨_, ⟨rfl, note, rfl⟩, rfl⟩
  exact ⟨rfl, note, rfl⟩

theorem ensures_close
    (t : Site)
    (term : Terminator)
    (notes : Journal)
    (hheader : t.func.header = s.func.header) :
    Ensures (build (Builder.terminate term)) (c.atSite t notes) fun _ d =>
      d = c.atSite (t.close term) notes := by
  refine (ensures_build (Builder.ensures_terminate (h.of_header hheader) term)).mono ?_
  rintro _ _ ⟨_, rfl, rfl⟩
  rfl

/-- The three blocks of a conditional are appended. -/
theorem ensures_fork
    {notes : Journal}
    (hnotes : notes.Quiet)
    {α : Type}
    {next : BlockId → BlockId → BlockId → Lowering α}
    {post : α → Context → Prop}
    (x : Operand)
    (hnext : ∀ notes, Journal.Quiet notes →
      Ensures (next (s.fresh 0) (s.fresh 1) (s.fresh 2))
        (c.atSite ((s.fork x).moveTo s.block) notes) post) :
    Ensures (do
      let thenBlock ← build (Builder.appendBlock s.func.id "then")
      let elseBlock ← build (Builder.appendBlock s.func.id "else")
      let merge ← build (Builder.appendBlock s.func.id "ifcont")
      next thenBlock elseBlock merge)
        (c.atSite (s.push (.compare .one x (.const 0.0))) notes) post := by
  refine Ensures.bind (ensures_append h _ _ _ rfl) ?_
  rintro _ _ ⟨rfl, note₁, rfl⟩
  refine Ensures.bind (ensures_append h _ _ _ rfl) ?_
  rintro _ _ ⟨rfl, note₂, rfl⟩
  refine Ensures.bind (ensures_append h _ _ _ rfl) ?_
  rintro _ _ ⟨rfl, note₃, rfl⟩
  exact hnext _ (((hnotes.cons note₁).cons note₂).cons note₃)

/-- The branches of a conditional are joined. -/
theorem ensures_join
    {notes : Journal}
    {u v : Site}
    {y z : Operand}
    (hheader : v.func.header = s.func.header)
    (note : Note) :
    Ensures (do
      moveTo s.func.id (s.fresh 2)
      let value ← build (Builder.phi .double [(y, u.block), (z, v.block)])
      moveTo s.func.id u.block
      build (Builder.jump (s.fresh 2))
      moveTo s.func.id v.block
      build (Builder.jump (s.fresh 2))
      moveTo s.func.id s.block
      build (Builder.branch (.result s.next) (s.fresh 0) (s.fresh 1))
      moveTo s.func.id (s.fresh 2)
      record (.note note)
      return ⟨value, s.fresh 2⟩ : Lowering Lowered) (c.atSite v notes) fun l d =>
        l = ⟨.result v.next, s.fresh 2⟩ ∧
          d = c.atSite (s.join u v y z) (.note note :: notes) := by
  have hid : v.func.id = s.func.id := congrArg (fun header => header.1) hheader
  refine Ensures.bind (ensures_moveTo_of_id v _ hid) ?_
  rintro _ _ rfl
  have hmerge : c.builder.Declares (v.moveTo (s.fresh 2)) g := h.of_header hheader
  refine Ensures.bind (ensures_build (Builder.ensures_push hmerge _)) ?_
  rintro _ _ ⟨_, ⟨rfl, rfl⟩, rfl⟩
  refine Ensures.bind (ensures_moveTo_of_id _ _ hid) ?_
  rintro _ _ rfl
  refine Ensures.bind (ensures_close h _ _ _ hheader) ?_
  rintro _ _ rfl
  refine Ensures.bind (ensures_moveTo_of_id _ _ hid) ?_
  rintro _ _ rfl
  refine Ensures.bind (ensures_close h _ _ _ hheader) ?_
  rintro _ _ rfl
  refine Ensures.bind (ensures_moveTo_of_id _ _ hid) ?_
  rintro _ _ rfl
  refine Ensures.bind (ensures_close h _ _ _ hheader) ?_
  rintro _ _ rfl
  refine Ensures.bind (ensures_moveTo_of_id _ _ hid) ?_
  rintro _ _ rfl
  intro l d hrun
  cases hrun
  exact ⟨rfl, rfl⟩

/-- A conditional is lowered as its branches are. -/
theorem ensures_conditional
    {notes : Journal}
    (hnotes : notes.Quiet)
    {thenBranch elseBranch : Expr}
    {x : Operand}
    (hthen : EmitsAt c thenBranch (s.fork x))
    (helse : ∀ u : Site, u.func.header = s.func.header →
      EmitsAt c elseBranch (u.moveTo (s.fresh 1))) :
    Ensures (conditional x (lowerExpr thenBranch) (lowerExpr elseBranch))
      (c.atSite s notes) fun l d =>
      ∃ u v y z, Emits c.module c.scope [thenBranch] (s.fork x) [y] u ∧
        Emits c.module c.scope [elseBranch] (u.moveTo (s.fresh 1)) [z] v ∧
        l = ⟨.result v.next, s.fresh 2⟩ ∧ ∃ notes, notes.Quiet ∧
        d = c.atSite (s.join u v y z) notes := by
  refine Ensures.bind (ensures_build (Builder.ensures_push h _)) ?_
  rintro _ _ ⟨_, ⟨rfl, rfl⟩, rfl⟩
  refine Ensures.bind
    (ensures_insertionPoint (s := s.push (.compare .one x (.const 0.0)))) ?_
  rintro _ _ ⟨rfl, rfl⟩
  refine ensures_fork h hnotes x fun notes hnotes => ?_
  refine Ensures.get_bind ?_
  refine Ensures.bind (ensures_moveTo (s := (s.fork x).moveTo s.block) (s.fresh 0)) ?_
  rintro _ _ rfl
  refine Ensures.bind (hthen.restoring hnotes) ?_
  rintro ⟨y, _⟩ _ ⟨u, ⟨hu, notes, hnotes, rfl⟩, rfl⟩
  have hheader : u.func.header = s.func.header := hu.header_eq
  have hid : u.func.id = s.func.id := congrArg (fun header => header.1) hheader
  refine Ensures.bind (hid ▸ ensures_moveTo (s := u) (s.fresh 1)) ?_
  rintro _ _ rfl
  refine Ensures.bind ((helse u hheader).restoring hnotes) ?_
  rintro ⟨z, _⟩ _ ⟨v, ⟨hv, notes, hnotes, rfl⟩, rfl⟩
  refine (ensures_join h (hv.header_eq.trans hheader) _).mono ?_
  rintro _ _ ⟨rfl, rfl⟩
  exact ⟨u, v, y, z, hu, hv, rfl, _, hnotes.cons _, rfl⟩

end Conditional

mutual

/-- A lowering that succeeds has emitted what it should. -/
theorem ensures_lowerExpr
    {c : Context}
    {g : Function} :
    ∀ (e : Expr) {s : Site}, c.builder.Declares s g → EmitsAt c e s
  | .number x, s, _, notes, hnotes => by
      refine (ensures_here (.const x)).mono ?_
      rintro _ _ ⟨rfl, rfl⟩
      exact ⟨s, ⟨.number, notes, hnotes, rfl⟩, rfl⟩
  | .var name, s, _, notes, hnotes => by
      refine (ensures_named name).mono ?_
      rintro l _ ⟨hname, hblock, rfl⟩
      exact ⟨s, ⟨.var hname, notes, hnotes, rfl⟩, hblock⟩
  | .binary op lhs rhs, s, h, notes, hnotes => by
      refine Ensures.bind (ensures_lowerExpr lhs h notes hnotes) ?_
      rintro ⟨x, _⟩ _ ⟨t, ⟨hlhs, notes, hnotes, rfl⟩, rfl⟩
      have ht := h.of_header hlhs.header_eq
      refine Ensures.bind (ensures_lowerExpr rhs ht notes hnotes) ?_
      rintro ⟨y, _⟩ _ ⟨u, ⟨hrhs, notes, hnotes, rfl⟩, rfl⟩
      refine (ensures_operation (ht.of_header hrhs.header_eq) op x y).mono ?_
      rintro _ _ (⟨a, hop, rfl, rfl⟩ | ⟨rfl, rfl, rfl⟩)
      · exact ⟨_, ⟨.arith hop hlhs hrhs, notes, hnotes, rfl⟩, rfl⟩
      · exact ⟨_, ⟨.less hlhs hrhs, notes, hnotes, rfl⟩, rfl⟩
  | .call name args, s, h, notes, hnotes => by
      refine Ensures.bind (ensures_callee h name args.length) ?_
      rintro id _ ⟨rfl, hname, harity⟩
      refine Ensures.bind (ensures_lowerArgs args h notes hnotes) ?_
      rintro xs _ ⟨t, hargs, notes, hnotes, rfl⟩
      refine Ensures.bind
        (ensures_build (Builder.ensures_call (h.of_header hargs.header_eq) id xs)) ?_
      rintro _ _ ⟨_, ⟨rfl, f, hf, rfl⟩, rfl⟩
      refine (ensures_here (s := t.push (.call id f.name xs)) (.result t.next)).mono ?_
      rintro _ _ ⟨rfl, rfl⟩
      exact ⟨_, ⟨.call hname hf (harity f hf) hargs, notes, hnotes, rfl⟩, rfl⟩
  | .cond test thenBranch elseBranch, s, h, notes, hnotes => by
      refine Ensures.bind (ensures_lowerExpr test h notes hnotes) ?_
      rintro ⟨x, _⟩ _ ⟨t, ⟨htest, notes, hnotes, rfl⟩, rfl⟩
      have ht := h.of_header htest.header_eq
      have hthen := ensures_lowerExpr thenBranch (s := t.fork x) (ht.of_header rfl)
      refine (ensures_conditional ht hnotes hthen fun u hu =>
        ensures_lowerExpr elseBranch (ht.of_header hu)).mono ?_
      rintro _ _ ⟨u, v, y, z, hu, hv, rfl, notes, hnotes, rfl⟩
      exact ⟨_, ⟨.cond htest hu hv, notes, hnotes, rfl⟩, rfl⟩

/-- Arguments are emitted one after the other. -/
theorem ensures_lowerArgs
    {c : Context}
    {g : Function} :
    ∀ (es : List Expr) {s : Site}, c.builder.Declares s g → ∀ notes, Journal.Quiet notes →
      Ensures (lowerArgs es) (c.atSite s notes) fun os d => ∃ t, Emitted c es s os t d
  | [], s, _, notes, hnotes => .pure ⟨s, .nil, notes, hnotes, rfl⟩
  | e :: rest, s, h, notes, hnotes => by
      refine Ensures.bind (ensures_lowerExpr e h notes hnotes) ?_
      rintro ⟨x, _⟩ _ ⟨t, ⟨hhead, notes, hnotes, rfl⟩, rfl⟩
      refine Ensures.bind
        (ensures_lowerArgs rest (h.of_header hhead.header_eq) notes hnotes) ?_
      rintro xs _ ⟨u, htail, notes, hnotes, rfl⟩
      exact .pure ⟨u, .cons hhead htail, notes, hnotes, rfl⟩

end

end Lowering

end ScalarSsa
