import ScalarSsa.Proofs.Lowering.Renaming
import ScalarSsa.Proofs.Lowering.Steps

/-!
# Lowering in two contexts at once

**Input.** Two contexts in which the same expression is lowered, and the names that the
functions of the first one have in the second one.

**Definitions.** A relation between builders is `Uniform` if the operations of the builder
keep it and find nothing by which they could tell the two apart, other than the
identifiers of functions.

**Results.** `agree_lowerExpr`: in contexts whose builders are related uniformly, an
expression is lowered to the same operand or fails in the same way, and the builders stay
related.  A relation that holds only between equal builders gives what lowering keeps
whether or not it fails.
-/

namespace ScalarSsa

/-! ## Operations of the builder -/

/-- What is seen of a function from outside: its name and its parameters. -/
def Function.title (f : Function) : String × List String :=
  (f.name, f.params)

namespace Builder

/--
The operations of a builder keep a relation and cannot see through it while they work on
certain functions.
-/
structure Uniform (works : FuncId → Prop) (ρ : FuncId → FuncId)
    (R : Builder → Builder → Prop) : Prop where
  cursor : ∀ {b b' : Builder}, R b b' → b'.cursor = b.cursor.map (Cursor.rename ρ)
  inside : ∀ {b b' : Builder} {cursor : Cursor}, R b b' → b.cursor = some cursor →
    works cursor.func
  current : ∀ {b b' : Builder} {id : FuncId}, R b b' → works id →
    b'.module.function? (ρ id) = (b.module.function? id).map (Function.rename ρ)
  names : ∀ {b b' : Builder} (name : String), R b b' →
    b'.module.find? name = (b.module.find? name).map ρ
  titles : ∀ {b b' : Builder} (id : FuncId), R b b' →
    (b'.module.function? (ρ id)).map Function.title =
      (b.module.function? id).map Function.title
  change : ∀ {b b' : Builder} {id : FuncId} {change change' : Function → Function},
    R b b' → works id →
    (∀ f, (change f).header = f.header) → (∀ f, (change' f).header = f.header) →
    (∀ f, change' (f.rename ρ) = (change f).rename ρ) →
    R (b.mapFunction id change) (b'.mapFunction (ρ id) change')
  move : ∀ {b b' : Builder} {id : FuncId} (block : BlockId), R b b' → works id →
    R { b with cursor := some ⟨id, block⟩ } { b' with cursor := some ⟨ρ id, block⟩ }
  record : ∀ {b b' : Builder} {e e' : Event}, R b b' → (∀ call, e ≠ .host call) →
    (∀ call, e' ≠ .host call) →
    R (b.record e) (b'.record e')

variable {works : FuncId → Prop} {ρ : FuncId → FuncId} {R : Builder → Builder → Prop}
  (hU : Uniform works ρ R)
variable {b b' : Builder} (h : R b b')

include h

theorem agree_requireOpen
    (f : Function)
    (block : BlockId) :
    Agree (InsertError.rename ρ) R (requireOpen f block) b
      (requireOpen (f.rename ρ) block) b' Eq := by
  rw [requireOpen_eq, requireOpen_eq, Function.openError?, Function.openError?,
    Function.block?_rename]
  cases f.block? block with
  | none => exact .throw _ h
  | some c =>
      by_cases hterm : c.isTerminated = true
      · simp only [Option.map_some, Block.isTerminated, Block.term_rename] at hterm ⊢
        simp only [hterm, if_true]
        exact .throw _ h
      · simp only [Option.map_some, Block.isTerminated, Block.term_rename] at hterm ⊢
        simp only [hterm, Bool.false_eq_true, if_false]
        exact .pure h rfl

include hU

theorem agree_currentFunction :
    Agree (InsertError.rename ρ) R currentFunction b currentFunction b'
      fun current current' =>
      current' = (current.1.rename ρ, current.2) ∧ works current.1.id := by
  refine Agree.get_bind ?_
  simp only [hU.cursor h]
  cases hcursor : b.cursor with
  | none => exact .throw _ h
  | some cursor =>
      have hworks := hU.inside h hcursor
      simp only [Option.map_some, Cursor.rename, hU.current h hworks]
      cases hf : b.module.function? cursor.func with
      | none => exact .throw _ h
      | some f =>
          refine .pure h ⟨rfl, ?_⟩
          rw [Module.id_of_function? hf]
          exact hworks

theorem agree_push
    (kind : InstrKind) :
    Agree (InsertError.rename ρ) R (push kind) b (push (kind.rename ρ)) b' Eq := by
  refine (agree_currentFunction hU h).bind ?_
  rintro ⟨f, block⟩ _ c c' ⟨rfl, hf⟩ hc
  have hissued : R (c.mapFunction f.id Function.issueValue)
      (c'.mapFunction (ρ f.id) Function.issueValue) :=
    hU.change hc hf (fun _ => rfl) (fun _ => rfl) fun _ => rfl
  refine Agree.lift_bind
    rfl rfl ((agree_requireOpen hissued f block).bind_eq fun _ e e' he => ?_)
  refine Agree.lift_bind
    rfl rfl (.pure (hU.change he hf (fun _ => rfl) (fun _ => rfl) fun g => ?_) rfl)
  exact Function.mapBlock_rename ρ
    (Block.insert_rename ρ ⟨.ofCount f.nextValue, kind⟩) g block

theorem agree_terminate
    (term : Terminator) :
    Agree (InsertError.rename ρ) R (terminate term) b (terminate term) b' Eq := by
  refine (agree_currentFunction hU h).bind ?_
  rintro ⟨f, block⟩ _ c c' ⟨rfl, hf⟩ hc
  refine (agree_requireOpen hc f block).bind_eq fun _ e e' he => ?_
  refine Agree.lift rfl rfl (hU.change he hf (fun _ => rfl) (fun _ => rfl) fun g => ?_) rfl
  have hterm : ∀ c : Block, { c.rename ρ with term := some term } =
    ({ c with term := some term } : Block).rename ρ :=
    fun _ => rfl
  exact Function.mapBlock_rename ρ hterm g block

theorem agree_appendBlock
    {id : FuncId}
    (hworks : works id)
    (label : String) :
    Agree (InsertError.rename ρ) R (appendBlock id label) b
      (appendBlock (ρ id) label) b' Eq := by
  refine Agree.get_bind ?_
  simp only [hU.current h hworks]
  cases b.module.function? id with
  | none => exact .throw _ h
  | some f =>
      refine Agree.lift_bind
        rfl rfl (.pure (hU.record ?_ (by rintro _ ⟨⟩) (by rintro _ ⟨⟩)) rfl)
      exact hU.change h hworks (fun _ => rfl) (fun _ => rfl) fun g =>
        g.appendBlock_rename ρ label

theorem agree_lessThan
    (x y : Operand) :
    Agree (InsertError.rename ρ) R (lessThan x y) b (lessThan x y) b' Eq :=
  (agree_push hU h _).bind_eq fun _ _ _ hd => agree_push hU hd _

theorem agree_call
    (callee : FuncId)
    (args : List Operand) :
    Agree (InsertError.rename ρ) R (call callee args) b (call (ρ callee) args) b' Eq := by
  refine Agree.get_bind ?_
  have htitles := hU.titles callee h
  cases hf : b.module.function? callee with
  | none =>
      rw [hf] at htitles
      rw [Option.map_eq_none_iff.1 htitles]
      exact .throw _ h
  | some f =>
      rw [hf] at htitles
      obtain ⟨f', hf', htitle⟩ := Option.map_eq_some_iff.1 htitles
      simp only [hf', show f'.name = f.name from congrArg (·.1) htitle]
      exact agree_push hU h _

end Builder

/-! ## Lowering -/

/-- Two contexts that differ from given ones in their builders only, which are related. -/
def Context.Over (R : Builder → Builder → Prop) (c₀ d₀ c d : Context) : Prop :=
  ∃ b b', R b b' ∧ c = { c₀ with builder := b } ∧ d = { d₀ with builder := b' }

theorem Context.Over.scopes
    {R : Builder → Builder → Prop}
    {c₀ d₀ c d : Context}
    (h : Over R c₀ d₀ c d) :
    c.scope = c₀.scope ∧ d.scope = d₀.scope := by
  obtain ⟨b, b', -, rfl, rfl⟩ := h
  exact ⟨rfl, rfl⟩

namespace Lowering

open Context

variable {α : Type} {works : FuncId → Prop} {ρ : FuncId → FuncId}
  {R : Builder → Builder → Prop}
variable {c₀ d₀ c d : Context}

theorem agree_build
    {op op' : Build α}
    {rel : α → α → Prop}
    (hU : Builder.Uniform works ρ R)
    (h : Over R c₀ d₀ c d)
    (hop : ∀ b b', R b b' → Agree (InsertError.rename ρ) R op b op' b' rel) :
    Agree (LowerError.rename ρ) (Over R c₀ d₀) (build op) c (build op') d rel := by
  obtain ⟨b, b', hb, rfl, rfl⟩ := h
  obtain ⟨r, r', e, e', hrun, hrun', he, halike⟩ := hop b b' hb
  cases halike with
  | ok ha =>
      exact ⟨_, _, _, _, run_build_ok hrun, run_build_ok hrun',
        ⟨e, e', he, rfl, rfl⟩, .ok ha⟩
  | error err =>
      refine ⟨_, _, _, _, run_build_error hrun, run_build_error hrun',
        ⟨_, _, hU.record he ?_ ?_, rfl, rfl⟩,
        .error (LowerError.insertPoint err)⟩
      · rintro _ ⟨⟩
      · rintro _ ⟨⟩

theorem agree_fail
    {rel : α → α → Prop}
    (hU : Builder.Uniform works ρ R)
    (h : Over R c₀ d₀ c d)
    (e : LowerError) :
    Agree (LowerError.rename ρ) (Over R c₀ d₀) (fail e) c (fail (e.rename ρ)) d rel := by
  obtain ⟨b, b', hb, rfl, rfl⟩ := h
  refine Agree.lift_bind rfl rfl (.throw e ⟨_, _, hU.record hb ?_ ?_, rfl, rfl⟩)
  · rintro _ ⟨⟩
  · rintro _ ⟨⟩

/-- Contexts that differ in their builders only keep their scopes. -/
theorem agree_restoring
    {branch branch' : Lowering α}
    {ren : LowerError → LowerError}
    {rel : α → α → Prop}
    (h : Agree ren (Over R c₀ d₀) branch c branch' d rel) :
    Agree ren (Over R c₀ d₀) (restoring c₀.scope branch) c
      (restoring d₀.scope branch') d rel := by
  obtain ⟨r, r', _, _, hrun, hrun', ⟨b, b', hb, rfl, rfl⟩, halike⟩ := h
  refine ⟨r, r', _, _, ?_, ?_, ⟨b, b', hb, rfl, rfl⟩, halike⟩
  · rw [run_restoring, hrun]
  · rw [run_restoring, hrun']

section Agreement

variable (hU : Builder.Uniform works ρ R) (h : Over R c₀ d₀ c d)

include hU h

theorem agree_insertionPoint :
    Agree (LowerError.rename ρ) (Over R c₀ d₀) insertionPoint c insertionPoint d
      fun cursor cursor' =>
      cursor' = cursor.rename ρ ∧ works cursor.func := by
  obtain ⟨b, b', hb, rfl, rfl⟩ := h
  refine Agree.get_bind ?_
  simp only [hU.cursor hb]
  cases hcursor : b.cursor with
  | none => exact agree_fail hU ⟨b, b', hb, rfl, rfl⟩ _
  | some cursor => exact .pure ⟨b, b', hb, rfl, rfl⟩ ⟨rfl, hU.inside hb hcursor⟩

theorem agree_moveTo_bind
    {next next' : Lowering α}
    {rel : α → α → Prop}
    {func : FuncId}
    (hfunc : works func)
    (block : BlockId)
    (hnext : ∀ c d, Over R c₀ d₀ c d →
      Agree (LowerError.rename ρ) (Over R c₀ d₀) next c next' d rel) :
    Agree (LowerError.rename ρ) (Over R c₀ d₀)
      (liftM (moveTo func block) >>= fun _ => next) c
      (liftM (moveTo (ρ func) block) >>= fun _ => next') d rel := by
  obtain ⟨b, b', hb, rfl, rfl⟩ := h
  exact Agree.lift_bind rfl rfl (hnext _ _ ⟨_, _, hU.move block hb hfunc, rfl, rfl⟩)

theorem agree_here
    (o : Operand) :
    Agree (LowerError.rename ρ) (Over R c₀ d₀) (here o) c (here o) d Eq := by
  refine (agree_insertionPoint hU h).bind ?_
  rintro cursor _ _ _ ⟨rfl, -⟩ hd
  exact .pure hd rfl

theorem agree_built
    {op op' : Build Operand}
    (hop : ∀ b b', R b b' → Agree (InsertError.rename ρ) R op b op' b' Eq) :
    Agree (LowerError.rename ρ) (Over R c₀ d₀) (do here (← build op)) c
      (do here (← build op')) d Eq :=
  (agree_build hU h hop).bind_eq fun o _ _ hd => agree_here hU hd o

theorem agree_named
    (hscope : c₀.scope = d₀.scope)
    (name : String) :
    Agree (LowerError.rename ρ) (Over R c₀ d₀) (named name) c (named name) d Eq := by
  have hsame : c.scope = d.scope := by
    obtain ⟨b, b', -, rfl, rfl⟩ := h
    exact hscope
  refine Agree.get_bind ?_
  simp only [hsame]
  cases d.scope.find? name with
  | none => exact agree_fail hU h (.unknownVariable name)
  | some o => exact agree_here hU h o

theorem agree_operation
    (op : Char)
    (x y : Operand) :
    Agree (LowerError.rename ρ) (Over R c₀ d₀) (operation op x y) c
      (operation op x y) d Eq := by
  unfold operation
  by_cases hadd : op = '+'
  · rw [if_pos hadd]
    exact agree_built hU h fun _ _ hb => Builder.agree_push hU hb (.arith .add x y)
  · rw [if_neg hadd]
    by_cases hsub : op = '-'
    · rw [if_pos hsub]
      exact agree_built hU h fun _ _ hb => Builder.agree_push hU hb (.arith .sub x y)
    · rw [if_neg hsub]
      by_cases hmul : op = '*'
      · rw [if_pos hmul]
        exact agree_built hU h fun _ _ hb => Builder.agree_push hU hb (.arith .mul x y)
      · rw [if_neg hmul]
        by_cases hless : op = '<'
        · rw [if_pos hless]
          exact agree_built hU h fun _ _ hb => Builder.agree_lessThan hU hb x y
        · rw [if_neg hless]
          exact agree_fail hU h (.unknownOperator op)

theorem agree_callee
    (name : String)
    (given : Nat) :
    Agree (LowerError.rename ρ) (Over R c₀ d₀) (callee name given) c (callee name given) d
      fun id id' => id' = ρ id := by
  have hb : R c.builder d.builder := by
    obtain ⟨b, b', hb, rfl, rfl⟩ := h
    exact hb
  have hnames : d.module.find? name = (c.module.find? name).map ρ := hU.names name hb
  refine Agree.get_bind ?_
  simp only [hnames]
  cases c.module.find? name with
  | none => exact agree_fail hU h (.unknownFunction name)
  | some id =>
      have harity : (d.module.function? (ρ id)).map Function.arity =
          (c.module.function? id).map Function.arity := by
        have htitles := congrArg (Option.map fun title => title.2.length) (hU.titles id hb)
        rw [Option.map_map, Option.map_map] at htitles
        exact htitles
      simp only [Option.map_some, harity]
      by_cases hgiven : ((c.module.function? id).map Function.arity).getD 0 = given
      · simp only [if_pos hgiven]
        exact .pure h rfl
      · simp only [if_neg hgiven]
        exact agree_fail hU h (.arityMismatch name _ given)

theorem agree_conditional
    {thenBranch elseBranch : Lowering Lowered}
    (hthen : ∀ c d, Over R c₀ d₀ c d →
      Agree (LowerError.rename ρ) (Over R c₀ d₀) thenBranch c thenBranch d Eq)
    (helse : ∀ c d, Over R c₀ d₀ c d →
      Agree (LowerError.rename ρ) (Over R c₀ d₀) elseBranch c elseBranch d Eq)
    (x : Operand) :
    Agree (LowerError.rename ρ) (Over R c₀ d₀) (conditional x thenBranch elseBranch) c
      (conditional x thenBranch elseBranch) d Eq := by
  have happend : ∀ {func : FuncId} (label : String), works func → ∀ c d, Over R c₀ d₀ c d →
      Agree (LowerError.rename ρ) (Over R c₀ d₀) (build (Builder.appendBlock func label)) c
        (build (Builder.appendBlock (ρ func) label)) d Eq :=
    fun label hfunc _ _ hc => agree_build hU hc fun _ _ hb =>
      Builder.agree_appendBlock hU hb hfunc label
  have hterminate : ∀ (term : Terminator) (c d : Context), Over R c₀ d₀ c d →
      Agree (LowerError.rename ρ) (Over R c₀ d₀) (build (Builder.terminate term)) c
        (build (Builder.terminate term)) d Eq :=
    fun term _ _ hc => agree_build hU hc fun _ _ hb => Builder.agree_terminate hU hb term
  refine (agree_build hU h fun _ _ hb =>
    Builder.agree_push hU hb (.compare .one x (.const 0.0))).bind_eq fun flag _ _ h => ?_
  refine (agree_insertionPoint hU h).bind ?_
  rintro origin _ _ _ ⟨rfl, hfunc⟩ h
  refine (happend "then" hfunc _ _ h).bind_eq fun thenBlock _ _ h => ?_
  refine (happend "else" hfunc _ _ h).bind_eq fun elseBlock _ _ h => ?_
  refine (happend "ifcont" hfunc _ _ h).bind_eq fun merge _ _ h => ?_
  refine Agree.get_bind ?_
  simp only [h.scopes.1, h.scopes.2]
  refine agree_moveTo_bind hU h hfunc thenBlock fun _ _ h => ?_
  refine (agree_restoring (hthen _ _ h)).bind_eq fun thenEnd _ _ h => ?_
  refine agree_moveTo_bind hU h hfunc elseBlock fun _ _ h => ?_
  refine (agree_restoring (helse _ _ h)).bind_eq fun elseEnd _ _ h => ?_
  refine agree_moveTo_bind hU h hfunc merge fun _ _ h => ?_
  refine (agree_build hU h fun _ _ hb => Builder.agree_push hU hb
    (.phi .double
      [(thenEnd.operand, thenEnd.block), (elseEnd.operand, elseEnd.block)])).bind_eq
    fun value _ _ h => ?_
  refine agree_moveTo_bind hU h hfunc thenEnd.block fun _ _ h => ?_
  refine (hterminate _ _ _ h).bind_eq fun _ _ _ h => ?_
  refine agree_moveTo_bind hU h hfunc elseEnd.block fun _ _ h => ?_
  refine (hterminate _ _ _ h).bind_eq fun _ _ _ h => ?_
  refine agree_moveTo_bind hU h hfunc origin.block fun _ _ h => ?_
  refine (hterminate _ _ _ h).bind_eq fun _ _ _ h => ?_
  refine agree_moveTo_bind hU h hfunc merge fun _ _ h => ?_
  obtain ⟨b, b', hb, rfl, rfl⟩ := h
  refine Agree.lift_bind rfl rfl (.pure ⟨_, _, hU.record hb ?_ ?_, rfl, rfl⟩ rfl)
  · rintro _ ⟨⟩
  · rintro _ ⟨⟩

end Agreement

mutual

/-- Related contexts lower an expression alike. -/
theorem agree_lowerExpr
    (hU : Builder.Uniform works ρ R)
    (hscope : c₀.scope = d₀.scope)
    (e : Expr)
    (c d : Context)
    (h : Over R c₀ d₀ c d) :
    Agree (LowerError.rename ρ) (Over R c₀ d₀) (lowerExpr e) c (lowerExpr e) d Eq := by
  cases e with
  | number x => exact agree_here hU h _
  | var name => exact agree_named hU h hscope name
  | binary op lhs rhs =>
      rw [lowerExpr]
      refine (agree_lowerExpr hU hscope lhs c d h).bind_eq fun l _ _ h => ?_
      refine (agree_lowerExpr hU hscope rhs _ _ h).bind_eq fun r _ _ h => ?_
      exact agree_operation hU h op l.operand r.operand
  | call name args =>
      rw [lowerExpr]
      refine (agree_callee hU h name args.length).bind ?_
      rintro id _ _ _ rfl h
      refine (agree_lowerArgs hU hscope args _ _ h).bind_eq fun operands _ _ h => ?_
      exact agree_built hU h fun _ _ hb => Builder.agree_call hU hb id operands
  | cond test thenBranch elseBranch =>
      rw [lowerExpr]
      refine (agree_lowerExpr hU hscope test c d h).bind_eq fun t _ _ h => ?_
      exact agree_conditional hU h (agree_lowerExpr hU hscope thenBranch)
        (agree_lowerExpr hU hscope elseBranch) t.operand

theorem agree_lowerArgs
    (hU : Builder.Uniform works ρ R)
    (hscope : c₀.scope = d₀.scope)
    (es : List Expr)
    (c d : Context)
    (h : Over R c₀ d₀ c d) :
    Agree (LowerError.rename ρ) (Over R c₀ d₀) (lowerArgs es) c (lowerArgs es) d Eq := by
  cases es with
  | nil =>
      rw [lowerArgs]
      exact .pure h rfl
  | cons e rest =>
      rw [lowerArgs]
      refine (agree_lowerExpr hU hscope e c d h).bind_eq fun l _ _ h => ?_
      refine (agree_lowerArgs hU hscope rest _ _ h).bind_eq fun operands _ _ h => ?_
      exact .pure h rfl

end

end Lowering

/-! ## Changing one function -/

theorem Module.map_title_mapFunction
    {m : Module}
    {id : FuncId}
    {change : Function → Function}
    (h : ∀ f, (change f).header = f.header)
    (g : FuncId) :
    ((m.mapFunction id change).function? g).map Function.title =
      (m.function? g).map Function.title := by
  have hid : ∀ f : Function, f.id = id → (change f).id = id :=
    fun f hf => (congrArg (·.1) (h f)).trans hf
  rw [Module.function?_mapFunction _ _ _ hid, Option.map_map]
  congr 1
  funext f
  simp only [Function.comp_apply]
  split
  · exact congrArg (·.2) (h f)
  · rfl

/-- A journal without host calls. -/
def Journal.Hostless (events : Journal) : Prop :=
  ∀ call, .host call ∉ events

theorem Journal.Quiet.hostless
    {notes : Journal}
    (h : notes.Quiet) :
    notes.Hostless := by
  intro call hmem
  obtain ⟨note, hnote⟩ := h _ hmem
  cases hnote

theorem Journal.Hostless.cons
    {events : Journal}
    (h : events.Hostless)
    {e : Event}
    (he : ∀ call, e ≠ .host call) :
    Journal.Hostless (e :: events) := by
  intro call hmem
  rcases List.mem_cons.1 hmem with heq | hmem
  · exact he call heq.symm
  · exact h call hmem

theorem Journal.Hostless.append
    {events events' : Journal}
    (h : events.Hostless)
    (h' : events'.Hostless) :
    Journal.Hostless (events ++ events') := by
  intro call hmem
  rcases List.mem_append.1 hmem with hmem | hmem
  · exact h call hmem
  · exact h' call hmem

/--
Two builders came from two others by the same changes to one function, which may have
another name in the second.
-/
structure Builder.Changed (ρ : FuncId → FuncId) (b₀ b₀' : Builder) (id : FuncId)
    (b b' : Builder) : Prop where
  module : ∃ change change', (∀ f, (change f).header = f.header) ∧
    (∀ f, (change' f).header = f.header) ∧
    (∀ f, change' (f.rename ρ) = (change f).rename ρ) ∧
    b.module = b₀.module.mapFunction id change ∧
    b'.module = b₀'.module.mapFunction (ρ id) change'
  cursor : b'.cursor = b.cursor.map (Cursor.rename ρ)
  inside : ∀ cursor, b.cursor = some cursor → cursor.func = id
  journal : ∃ events, Journal.Hostless events ∧ b.journal = events ++ b₀.journal
  journal' : ∃ events, Journal.Hostless events ∧ b'.journal = events ++ b₀'.journal

namespace Builder.Changed

variable {ρ : FuncId → FuncId} {b₀ b₀' : Builder} {id : FuncId}

theorem refl
    (hcursor : b₀.cursor = none)
    (hcursor' : b₀'.cursor = none) :
    Changed ρ b₀ b₀' id b₀ b₀' := by
  have hsame : ∀ (m : Module) (id : FuncId), m = m.mapFunction id fun f => f := by
    intro m id
    simp [Module.mapFunction]
  refine ⟨⟨fun f => f, fun f => f, fun _ => rfl, fun _ => rfl, fun _ =>
    rfl, hsame _ _, hsame _ _⟩, ?_, ?_,
    ⟨[], by simp [Journal.Hostless], rfl⟩, [], by simp [Journal.Hostless], rfl⟩
  · rw [hcursor, hcursor']
    rfl
  · intro cursor hsome
    rw [hcursor] at hsome
    cases hsome

/-- Both journals are continued. -/
theorem append
    {b b' : Builder}
    (h : Changed ρ b₀ b₀' id b b')
    {events events' : Journal}
    (hevents : events.Hostless)
    (hevents' : events'.Hostless) :
    Changed ρ b₀ b₀' id { b with journal := events ++ b.journal }
      { b' with journal := events' ++ b'.journal } := by
  obtain ⟨older, holder, hb⟩ := h.journal
  obtain ⟨older', holder', hb'⟩ := h.journal'
  refine ⟨h.module, h.cursor, h.inside, ⟨events ++ older, hevents.append holder, ?_⟩,
    events' ++ older',
    hevents'.append holder', ?_⟩
  · rw [hb, List.append_assoc]
  · rw [hb', List.append_assoc]

/-- Builders that were changed alike cannot be told apart. -/
theorem uniform
    (hcurrent : b₀'.module.function? (ρ id) =
      (b₀.module.function? id).map (Function.rename ρ))
    (hnames : ∀ name, b₀'.module.find? name = (b₀.module.find? name).map ρ)
    (htitles : ∀ g, (b₀'.module.function? (ρ g)).map Function.title =
      (b₀.module.function? g).map Function.title) :
    Uniform (· = id) ρ (Changed ρ b₀ b₀' id) where
  cursor h := h.cursor
  inside h hcursor := h.inside _ hcursor
  current := by
    rintro b b' id h rfl
    obtain ⟨change, change', hchange, hchange', hcommute, hb, hb'⟩ := h.module
    have hid : ∀ f : Function, f.id = id → (change f).id = id :=
      fun f hf => (congrArg (·.1) (hchange f)).trans hf
    have hid' : ∀ f : Function, f.id = ρ id → (change' f).id = ρ id :=
      fun f hf => (congrArg (·.1) (hchange' f)).trans hf
    rw [hb, hb', Module.function?_mapFunction _ _ _ hid,
      Module.function?_mapFunction _ _ _ hid', hcurrent]
    cases hf : b₀.module.function? id with
    | none => rfl
    | some f =>
        have hfid := Module.id_of_function? hf
        simp [hfid, hcommute]
  names := by
    intro b b' name h
    obtain ⟨change, change', -, -, -, hb, hb'⟩ := h.module
    rw [hb, hb']
    exact hnames name
  titles := by
    intro b b' g h
    obtain ⟨change, change', hchange, hchange', -, hb, hb'⟩ := h.module
    rw [hb, hb', Module.map_title_mapFunction hchange,
      Module.map_title_mapFunction hchange', htitles]
  change := by
    rintro b b' id more more' h rfl hmore hmore' hcommute
    obtain ⟨change, change', hchange, hchange', hcommute', hb, hb'⟩ := h.module
    have hid : ∀ f : Function, f.id = id → (change f).id = id :=
      fun f hf => (congrArg (·.1) (hchange f)).trans hf
    have hid' : ∀ f : Function, f.id = ρ id → (change' f).id = ρ id :=
      fun f hf => (congrArg (·.1) (hchange' f)).trans hf
    refine ⟨⟨fun f => more (change f), fun f => more' (change' f), fun f =>
      (hmore _).trans (hchange f),
      fun f => (hmore' _).trans (hchange' f), fun f =>
        by simp only [hcommute', hcommute], ?_, ?_⟩, h.cursor, h.inside, h.journal,
      h.journal'⟩
    · rw [← Module.mapFunction_mapFunction change more hid, ← hb]
      rfl
    · rw [← Module.mapFunction_mapFunction change' more' hid', ← hb']
      rfl
  move := by
    rintro b b' _ block h rfl
    refine ⟨h.module, rfl, ?_, h.journal, h.journal'⟩
    rintro cursor hcursor
    cases hcursor
    rfl
  record := by
    intro b b' e e' h he he'
    obtain ⟨events, hevents, hb⟩ := h.journal
    obtain ⟨events', hevents', hb'⟩ := h.journal'
    exact ⟨h.module, h.cursor, h.inside,
      ⟨e :: events, hevents.cons he, by simp [record, hb]⟩,
      e' :: events', hevents'.cons he', by simp [record, hb']⟩

end Builder.Changed

end ScalarSsa
