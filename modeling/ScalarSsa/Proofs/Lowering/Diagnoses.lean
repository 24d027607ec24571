import ScalarSsa.Proofs.Lowering.Histories
import ScalarSsa.Proofs.Lowering.Validity

/-!
# What is wrong with a definition

**Input.** A context that any requests have led to, and a definition.

**Definitions.** A context `Knows` a signature if its scope has the parameters and its
module the functions that a body under this signature may use.

**Results.** `reports_lowerExpr`: lowering an expression fails with the first fault of its
steps, or it succeeds; no block is missing or terminated when an instruction goes into it.
`lowerDefinition_first_violation`: a definition is lowered if and only if it is valid, and
otherwise the error is its first violation.
-/

namespace ScalarSsa

/-! ## Blocks that take instructions -/

theorem Function.openError?_eq_none
    {f : Function}
    {id : BlockId}
    (h : ∃ b, f.block? id = some b ∧ b.term = none) :
    f.openError? id = none := by
  obtain ⟨b, hb, hterm⟩ := h
  simp [openError?, hb, Block.isTerminated, hterm]

namespace Builder

variable {b : Builder} {s : Site} {notes : Journal} {g : Function} (h : b.Declares s g)

include h

theorem reports_push
    (hopen : ∃ block, s.func.block? s.block = some block ∧ block.term = none)
    (kind : InstrKind) :
    Reports (push kind) (b.atSite s notes) none := by
  have hcursor : (b.atSite s notes).cursor = some ⟨s.func.id, s.block⟩ := rfl
  have hrun := run_push hcursor (function?_atSite h) kind
  simp only [Function.openError?_eq_none hopen] at hrun
  exact ⟨_, _, hrun⟩

theorem reports_terminate
    (hopen : ∃ block, s.func.block? s.block = some block ∧ block.term = none)
    (term : Terminator) :
    Reports (terminate term) (b.atSite s notes) none := by
  have hcursor : (b.atSite s notes).cursor = some ⟨s.func.id, s.block⟩ := rfl
  have hrun := run_terminate hcursor (function?_atSite h) term
  simp only [Function.openError?_eq_none hopen] at hrun
  exact ⟨_, _, hrun⟩

theorem reports_appendBlock
    (label : String) :
    Reports (appendBlock s.func.id label) (b.atSite s notes) none := by
  obtain ⟨text, hrun⟩ := run_appendBlock (function?_atSite h) label
  exact ⟨_, _, hrun⟩

theorem reports_lessThan
    (hopen : s.Open)
    (x y : Operand) :
    Reports (lessThan x y) (b.atSite s notes) none := by
  refine (reports_push h hopen.cursor (.compare .ult x y)).after (ensures_push h _) ?_
  rintro _ _ ⟨rfl, rfl⟩
  exact reports_push (s := s.push (.compare .ult x y)) ⟨h.function, h.header⟩
    (hopen.push _).cursor _

theorem reports_call
    (hopen : s.Open)
    {callee : FuncId}
    {f : Function}
    (hf : b.module.function? callee = some f)
    (args : List Operand) :
    Reports (call callee args) (b.atSite s notes) none := by
  have harity : ((b.atSite s notes).module.function? callee).map Function.arity = _ :=
    arity_atSite h callee
  rw [hf, Option.map_some] at harity
  obtain ⟨f', hf', -⟩ := Option.map_eq_some_iff.1 harity
  have hpush : Reports (push (.call callee f'.name args)) (b.atSite s notes) none :=
    reports_push h hopen.cursor _
  obtain ⟨o, b', hrun⟩ := hpush
  exact ⟨o, b', by rw [run_call hf', hrun]⟩

end Builder

namespace Lowering

theorem reports_build
    {α : Type}
    {op : Build α}
    {c : Context}
    (h : Reports op c.builder none) :
    Reports (build op) c none := by
  obtain ⟨a, b, hrun⟩ := h
  exact ⟨a, _, run_build_ok hrun⟩

theorem reports_fail
    {α : Type}
    (e : LowerError)
    (c : Context) :
    Reports (fail e : Lowering α) c (some e) :=
  ⟨_, rfl⟩

section Site

variable {c : Context} {s : Site} {notes : Journal} {g : Function}

theorem reports_insertionPoint :
    Reports insertionPoint (c.atSite s notes) none :=
  .get_bind (.pure _ _)

theorem reports_here
    (o : Operand) :
    Reports (here o) (c.atSite s notes) none :=
  reports_insertionPoint.after ensures_insertionPoint fun _ _ _ => .pure _ _

/-- What is built is the operand at its site. -/
theorem reports_built
    {op : Build Operand}
    {o : Operand}
    {t : Site}
    (hreports : Reports op (c.builder.atSite s notes) none)
    (hop : Ensures op (c.builder.atSite s notes) fun o' b =>
      o' = o ∧ b = c.builder.atSite t notes) :
    Reports (do here (← build op)) (c.atSite s notes) none := by
  refine (reports_build (c := c.atSite s notes) hreports).after (ensures_build hop) ?_
  rintro _ _ ⟨_, ⟨rfl, rfl⟩, rfl⟩
  exact reports_here _

/-! ## What a body may use -/

/--
The scope has the parameters of a signature, and the module the functions that a
body under it may use.
-/
structure Knows (c : Context) (m : Module) (signature : Signature) : Prop where
  params : ∀ name, (c.scope.find? name).isSome ↔ name ∈ signature.params
  missing : ∀ name, signature.arityOf? m name = none → c.module.find? name = none
  found : ∀ name arity, signature.arityOf? m name = some arity →
    ∃ id f, c.module.find? name = some id ∧ c.module.function? id = some f ∧ f.arity = arity

variable {m : Module} {signature : Signature}

theorem reports_named
    (hknows : Knows c m signature)
    (name : String) :
    Reports (named name) (c.atSite s notes) (Step.fault? m signature (.mention name)) := by
  refine .get_bind ?_
  have hscope : (c.atSite s notes).scope = c.scope := rfl
  have hparam := hknows.params name
  simp only [hscope, Step.fault?]
  cases hname : c.scope.find? name with
  | none =>
      rw [if_neg (by simpa [hname] using hparam)]
      exact reports_fail _ _
  | some o =>
      rw [if_pos (by simpa [hname] using hparam)]
      exact reports_here o

variable (h : c.builder.Declares s g)

include h

theorem reports_operation
    (hopen : s.Open)
    (op : Char)
    (x y : Operand) :
    Reports (operation op x y) (c.atSite s notes)
      (Step.fault? m signature (.operator op)) := by
  have harith : ∀ a,
      Reports (do here (← build (Builder.arith a x y))) (c.atSite s notes) none :=
    fun _ => reports_built (Builder.reports_push h hopen.cursor _)
      (Builder.ensures_push h _)
  simp only [Step.fault?, List.mem_cons, List.not_mem_nil, or_false]
  unfold operation
  by_cases hadd : op = '+'
  · simpa [hadd] using harith .add
  · by_cases hsub : op = '-'
    · simpa [hsub] using harith .sub
    · by_cases hmul : op = '*'
      · simpa [hmul] using harith .mul
      · by_cases hless : op = '<'
        · simpa [hless] using reports_built (Builder.reports_lessThan h hopen x y)
            (Builder.ensures_lessThan h x y)
        · simpa [hadd, hsub, hmul, hless] using reports_fail _ _

theorem reports_callee
    (hknows : Knows c m signature)
    (name : String)
    (given : Nat) :
    Reports (callee name given) (c.atSite s notes)
      (Step.fault? m signature (.callee name given)) := by
  refine .get_bind ?_
  have hnames : (c.atSite s notes).module.find? name = c.module.find? name := rfl
  simp only [hnames, Step.fault?]
  cases harity : signature.arityOf? m name with
  | none =>
      simp only [hknows.missing name harity]
      exact reports_fail _ _
  | some expected =>
      obtain ⟨id, f, hid, hf, hexpected⟩ := hknows.found name expected harity
      have hsame : ((c.atSite s notes).module.function? id).map Function.arity =
          (c.module.function? id).map Function.arity := Builder.arity_atSite h id
      simp only [hid, hsame, hf, Option.map_some, Option.getD_some, hexpected]
      by_cases hgiven : expected = given
      · simp only [hgiven, if_true]
        exact .pure _ _
      · simp only [hgiven, if_false]
        exact reports_fail _ _

end Site

/-! ## Conditionals -/

section Conditional

variable {c : Context} {s : Site} {g : Function} (h : c.builder.Declares s g)

include h

theorem reports_append
    (t : Site)
    (label : String)
    (notes : Journal)
    (hheader : t.func.header = s.func.header) :
    Reports (build (Builder.appendBlock s.func.id label)) (c.atSite t notes) none := by
  have hid : t.func.id = s.func.id := congrArg (fun header => header.1) hheader
  have hop : Reports (Builder.appendBlock t.func.id label)
      (c.builder.atSite t notes) none :=
    Builder.reports_appendBlock (h.of_header hheader) label
  rw [hid] at hop
  exact reports_build hop

theorem reports_close
    (t : Site)
    (term : Terminator)
    (notes : Journal)
    (hheader : t.func.header = s.func.header)
    (hopen : ∃ block, t.func.block? t.block = some block ∧ block.term = none) :
    Reports (build (Builder.terminate term)) (c.atSite t notes) none :=
  reports_build (Builder.reports_terminate (h.of_header hheader) hopen term)

/-- The three blocks of a conditional can be appended. -/
theorem reports_fork
    {notes : Journal}
    (hnotes : notes.Quiet)
    {α : Type}
    {next : BlockId → BlockId → BlockId → Lowering α}
    {fault : Option LowerError}
    (x : Operand)
    (hnext : ∀ notes, Journal.Quiet notes →
      Reports (next (s.fresh 0) (s.fresh 1) (s.fresh 2))
        (c.atSite ((s.fork x).moveTo s.block) notes) fault) :
    Reports (do
      let thenBlock ← build (Builder.appendBlock s.func.id "then")
      let elseBlock ← build (Builder.appendBlock s.func.id "else")
      let merge ← build (Builder.appendBlock s.func.id "ifcont")
      next thenBlock elseBlock merge)
        (c.atSite (s.push (.compare .one x (.const 0.0))) notes) fault := by
  refine Reports.after (reports_append h _ _ _ rfl) (ensures_append h _ _ _ rfl) ?_
  rintro _ _ ⟨rfl, note₁, rfl⟩
  refine Reports.after (reports_append h _ _ _ rfl) (ensures_append h _ _ _ rfl) ?_
  rintro _ _ ⟨rfl, note₂, rfl⟩
  refine Reports.after (reports_append h _ _ _ rfl) (ensures_append h _ _ _ rfl) ?_
  rintro _ _ ⟨rfl, note₃, rfl⟩
  exact hnext _ (((hnotes.cons note₁).cons note₂).cons note₃)

/--
The branches of a conditional can be joined, since the blocks that are ended are open.
-/
theorem reports_join
    {notes : Journal}
    {x : Operand}
    {u v : Site}
    {y z : Operand}
    (hheader : v.func.header = s.func.header)
    (hdiamond : Site.Diamond s x u v)
    (note : Note) :
    Reports (do
      moveTo s.func.id (s.fresh 2)
      let value ← build (Builder.phi .double [(y, u.block), (z, v.block)])
      moveTo s.func.id u.block
      build (Builder.jump (s.fresh 2))
      moveTo s.func.id v.block
      build (Builder.jump (s.fresh 2))
      moveTo s.func.id s.block
      build (Builder.branch (.result s.next) (s.fresh 0) (s.fresh 1))
      moveTo s.func.id (s.fresh 2)
      record (.note note)
      return ⟨value, s.fresh 2⟩ : Lowering Lowered) (c.atSite v notes) none := by
  have hid : v.func.id = s.func.id := congrArg (fun header => header.1) hheader
  obtain ⟨hsu, hsv, hsm, huv, hum, hvm⟩ := hdiamond.distinct
  refine Reports.after (Reports.lift _ _) (ensures_moveTo_of_id v _ hid) ?_
  rintro _ _ rfl
  have hmerge : c.builder.Declares (v.moveTo (s.fresh 2)) g := h.of_header hheader
  have hmergeOpen := hdiamond.open_ends (.inr (.inr (.inr rfl)))
  refine (reports_build (Builder.reports_push hmerge hmergeOpen _)).after
    (ensures_build (Builder.ensures_push hmerge _)) ?_
  rintro _ _ ⟨_, ⟨rfl, rfl⟩, rfl⟩
  refine Reports.after (Reports.lift _ _) (ensures_moveTo_of_id _ _ hid) ?_
  rintro _ _ rfl
  refine Reports.after (reports_close h _ _ _ hheader ?_) (ensures_close h _ _ _ hheader) ?_
  · simp only [Site.func_moveTo, Site.block_moveTo, Site.block?_push, hum, if_false]
    exact hdiamond.open_ends (.inr (.inl rfl))
  rintro _ _ rfl
  refine Reports.after (Reports.lift _ _) (ensures_moveTo_of_id _ _ hid) ?_
  rintro _ _ rfl
  refine Reports.after (reports_close h _ _ _ hheader ?_) (ensures_close h _ _ _ hheader) ?_
  · simp only [Site.func_moveTo, Site.block_moveTo, Site.block?_close, Site.block?_push,
      hvm, huv.symm, if_false]
    exact hdiamond.open_ends (.inr (.inr (.inl rfl)))
  rintro _ _ rfl
  refine Reports.after (Reports.lift _ _) (ensures_moveTo_of_id _ _ hid) ?_
  rintro _ _ rfl
  refine Reports.after (reports_close h _ _ _ hheader ?_) (ensures_close h _ _ _ hheader) ?_
  · simp only [Site.func_moveTo, Site.block_moveTo, Site.block?_close, Site.block?_push,
      hsm, hsu, hsv, if_false]
    exact hdiamond.open_ends (.inl rfl)
  rintro _ _ rfl
  exact ⟨_, _, rfl⟩

omit h in
/-- A branch fails as it does without the scope put back after it. -/
theorem reports_restoring
    {branch : Lowering α}
    {d : Context}
    {fault : Option LowerError}
    (hbranch : Reports branch d fault)
    (scope : Scope) :
    Reports (restoring scope branch) d fault := by
  cases fault with
  | some e =>
      obtain ⟨d', hrun⟩ := hbranch
      exact ⟨{ d' with scope := scope }, by rw [run_restoring, hrun]⟩
  | none =>
      obtain ⟨a, d', hrun⟩ := hbranch
      exact ⟨a, { d' with scope := scope }, by rw [run_restoring, hrun]⟩

/-- What is wrong with a conditional is wrong with its branches. -/
theorem reports_conditional
    {notes : Journal}
    (hnotes : notes.Quiet)
    (hopen : s.Open)
    {thenBranch elseBranch : Expr}
    {x : Operand}
    {fault fault' : Option LowerError}
    (hthen : ∀ notes, Journal.Quiet notes →
      Reports (lowerExpr thenBranch) (c.atSite (s.fork x) notes) fault)
    (helse : fault = none → ∀ u y, Emits c.module c.scope [thenBranch] (s.fork x) [y] u →
      ∀ notes, Journal.Quiet notes →
      Reports (lowerExpr elseBranch) (c.atSite (u.moveTo (s.fresh 1)) notes) fault')
    (hjoin : fault = none → fault' = none → ∀ u v y z,
      Emits c.module c.scope [thenBranch] (s.fork x) [y] u →
      Emits c.module c.scope [elseBranch] (u.moveTo (s.fresh 1)) [z] v →
        Site.Diamond s x u v) :
    Reports (conditional x (lowerExpr thenBranch) (lowerExpr elseBranch)) (c.atSite s notes)
      (fault.or fault') := by
  refine (reports_build (Builder.reports_push h hopen.cursor _)).after
    (ensures_build (Builder.ensures_push h _)) ?_
  rintro _ _ ⟨_, ⟨rfl, rfl⟩, rfl⟩
  refine (reports_insertionPoint (s := s.push (.compare .one x (.const 0.0)))).after
    ensures_insertionPoint ?_
  rintro _ _ ⟨rfl, rfl⟩
  refine reports_fork h hnotes x fun notes hnotes => ?_
  refine Reports.get_bind ?_
  refine Reports.after (Reports.lift _ _)
    (ensures_moveTo (s := (s.fork x).moveTo s.block) (s.fresh 0)) ?_
  rintro _ _ rfl
  have hemits : EmitsAt c thenBranch (s.fork x) :=
    ensures_lowerExpr thenBranch (h.of_header rfl)
  refine (reports_restoring (hthen notes hnotes) c.scope).bind (hemits.restoring hnotes) ?_
  rintro hfault ⟨y, _⟩ _ ⟨u, ⟨hu, notes, hnotes, rfl⟩, rfl⟩
  have hheader : u.func.header = s.func.header := hu.header_eq
  have hid : u.func.id = s.func.id := congrArg (fun header => header.1) hheader
  refine Reports.after (Reports.lift _ _) (ensures_moveTo_of_id u (s.fresh 1) hid) ?_
  rintro _ _ rfl
  have hdeclares : c.builder.Declares (u.moveTo (s.fresh 1)) g := h.of_header hheader
  refine (reports_restoring (helse hfault u y hu notes hnotes) c.scope).before
    ((ensures_lowerExpr elseBranch hdeclares).restoring hnotes) ?_
  rintro hfault' ⟨z, _⟩ _ ⟨v, ⟨hv, notes, hnotes, rfl⟩, rfl⟩
  exact reports_join h (hv.header_eq.trans hheader) (hjoin hfault hfault' u v y z hu hv) _

end Conditional

/-! ## Expressions -/

section Expression

variable {c : Context} {m : Module} {signature : Signature} {g : Function}

/--
The steps of an expression can be taken at a site, up to the first fault, without running
out of names for blocks.
-/
def Fits (m : Module) (signature : Signature) (steps : List Step) (s : Site) : Prop :=
  s.func.nextBlock + Step.total Step.blocks (Step.before (Step.fault? m signature) steps) ≤
    UInt32.size

theorem Fits.bound
    {steps : List Step}
    {s : Site}
    (h : Fits m signature steps s) :
    s.func.nextBlock ≤ UInt32.size :=
  Nat.le_trans (Nat.le_add_right _ _) h

/--
What follows some expressions fits at the site that they lead to, and this site is open.
-/
theorem Fits.after
    {rest : List Step}
    {es : List Expr}
    {s t : Site}
    {os : List Operand}
    (h : Fits m signature (Expr.stepsAll es ++ rest) s)
    (hnone : (Expr.stepsAll es).findSome? (Step.fault? m signature) = none)
    (hopen : s.Open)
    (hemits : Emits c.module c.scope es s os t) :
    Fits m signature rest t ∧ t.Open ∧ s.Extends t := by
  have hrest : Fits m signature rest t := by
    unfold Fits
    rw [hemits.issues.1]
    exact ((Step.room_append h).2 hnone).2
  exact ⟨hrest, hemits.open_extends hopen hrest.bound⟩

theorem Fits.afterExpr
    {rest : List Step}
    {e : Expr}
    {s t : Site}
    {o : Operand}
    (h : Fits m signature (e.steps ++ rest) s)
    (hnone : e.steps.findSome? (Step.fault? m signature) = none)
    (hopen : s.Open)
    (hemits : Emits c.module c.scope [e] s [o] t) :
    Fits m signature rest t ∧ t.Open ∧ s.Extends t := by
  have hsteps : Expr.stepsAll [e] = e.steps := by simp [Expr.stepsAll]
  rw [← hsteps] at h hnone
  exact h.after hnone hopen hemits

mutual

/-- Lowering an expression reports the first fault of its steps. -/
theorem reports_lowerExpr
    (hknows : Knows c m signature) :
    ∀ (e : Expr) {s : Site}, c.builder.Declares s g → s.Open → Fits m signature e.steps s →
      ∀ notes, Journal.Quiet notes →
        Reports (lowerExpr e) (c.atSite s notes)
          (e.steps.findSome? (Step.fault? m signature))
  | .number x, s, _, _, _, notes, _ => reports_here (.const x)
  | .var name, s, _, _, _, notes, _ => by
      rw [Expr.steps, List.findSome?_singleton]
      exact reports_named hknows name
  | .binary op lhs rhs, s, h, hopen, hfits, notes, hnotes => by
      rw [Expr.steps, List.findSome?_append, List.findSome?_append,
        List.findSome?_singleton]
      refine Reports.bind
        (reports_lowerExpr hknows lhs h hopen (Step.room_append hfits).1 notes hnotes)
        (ensures_lowerExpr lhs h notes hnotes) ?_
      rintro hlhs ⟨x, _⟩ _ ⟨t, ⟨hemits, notes, hnotes, rfl⟩, rfl⟩
      have ht := h.of_header hemits.header_eq
      obtain ⟨hfits, hopen, -⟩ := hfits.afterExpr hlhs hopen hemits
      refine Reports.bind
        (reports_lowerExpr hknows rhs ht hopen (Step.room_append hfits).1 notes hnotes)
        (ensures_lowerExpr rhs ht notes hnotes) ?_
      rintro hrhs ⟨y, _⟩ _ ⟨u, ⟨hemits', notes, hnotes, rfl⟩, rfl⟩
      obtain ⟨-, hopen, -⟩ := hfits.afterExpr hrhs hopen hemits'
      exact reports_operation (ht.of_header hemits'.header_eq) hopen op x y
  | .call name args, s, h, hopen, hfits, notes, hnotes => by
      rw [Expr.steps, findSome?_cons_or, List.findSome?_append, List.findSome?_singleton]
      refine Reports.bind (reports_callee h hknows name args.length)
        (ensures_callee h name args.length) ?_
      rintro hcallee id _ ⟨rfl, hname, harity⟩
      have hfits := Step.room_cons hfits hcallee
      refine Reports.bind
        (reports_lowerArgs hknows args h hopen (Step.room_append hfits).1 notes hnotes)
        (ensures_lowerArgs args h notes hnotes) ?_
      rintro hargs xs _ ⟨t, hemits, notes, hnotes, rfl⟩
      obtain ⟨-, hopen, -⟩ := Fits.after hfits hargs hopen hemits
      obtain ⟨arity, harity'⟩ : ∃ arity, signature.arityOf? m name = some arity := by
        refine Option.ne_none_iff_exists'.1 fun hmissing => ?_
        rw [hknows.missing name hmissing] at hname
        cases hname
      obtain ⟨id', f, hname', hf, -⟩ := hknows.found name arity harity'
      obtain rfl : id' = id := Option.some.inj (hname'.symm.trans hname)
      have ht := h.of_header hemits.header_eq
      refine Reports.after (reports_build (Builder.reports_call ht hopen hf xs))
        (ensures_build (Builder.ensures_call ht id' xs)) ?_
      rintro _ _ ⟨_, ⟨rfl, f', hf', rfl⟩, rfl⟩
      exact reports_here (s := t.push (.call id' f'.name xs)) (.result t.next)
  | .cond test thenBranch elseBranch, s, h, hopen, hfits, notes, hnotes => by
      have hjoin : [Step.join].findSome? (Step.fault? m signature) = none := rfl
      have hfork : Step.fault? m signature .fork = none := rfl
      rw [Expr.steps, List.findSome?_append, findSome?_cons_or, hfork, Option.none_or,
        List.findSome?_append,
        List.findSome?_append, hjoin, Option.or_none]
      refine Reports.bind
        (reports_lowerExpr hknows test h hopen (Step.room_append hfits).1 notes hnotes)
        (ensures_lowerExpr test h notes hnotes) ?_
      rintro htest ⟨x, _⟩ _ ⟨t, ⟨hemits, notes, hnotes, rfl⟩, rfl⟩
      have ht := h.of_header hemits.header_eq
      obtain ⟨hfits, hopen, -⟩ := hfits.afterExpr htest hopen hemits
      have hfits :
          Fits m signature (thenBranch.steps ++ (elseBranch.steps ++ [.join])) (t.fork x) :=
        Step.room_cons hfits hfork
      have hforkOpen : (t.fork x).Open := hopen.fork hfits.bound x
      refine reports_conditional ht hnotes hopen
        (reports_lowerExpr hknows thenBranch (ht.of_header rfl) hforkOpen
          (Step.room_append hfits).1) ?_ ?_
      · intro hthen u y hu
        obtain ⟨hfits', huOpen, hextends⟩ := hfits.afterExpr hthen hforkOpen hu
        exact reports_lowerExpr hknows elseBranch (ht.of_header hu.header_eq)
          (Site.Diamond.open_else hopen hfits.bound huOpen hextends)
          (Step.room_append hfits').1
      · intro hthen helse u v y z hu hv
        obtain ⟨hfits', huOpen, hextends⟩ := hfits.afterExpr hthen hforkOpen hu
        have helseOpen := Site.Diamond.open_else hopen hfits.bound huOpen hextends
        have hfits' : Fits m signature (elseBranch.steps ++ [.join])
            (u.moveTo (t.fresh 1)) := hfits'
        obtain ⟨hfits'', hvOpen, hextends'⟩ := hfits'.afterExpr helse helseOpen hv
        exact ⟨hopen, huOpen, hextends, hvOpen, hextends', hu.nextBlock_le,
          hv.nextBlock_le, hfits''.bound⟩

/-- Lowering arguments reports the first fault of their steps. -/
theorem reports_lowerArgs
    (hknows : Knows c m signature) :
    ∀ (es : List Expr) {s : Site}, c.builder.Declares s g → s.Open →
      Fits m signature (Expr.stepsAll es) s →
      ∀ notes, Journal.Quiet notes →
        Reports (lowerArgs es) (c.atSite s notes)
          ((Expr.stepsAll es).findSome? (Step.fault? m signature))
  | [], s, _, _, _, notes, _ => .pure _ _
  | e :: rest, s, h, hopen, hfits, notes, hnotes => by
      rw [Expr.stepsAll, List.findSome?_append]
      refine Reports.bind
        (reports_lowerExpr hknows e h hopen (Step.room_append hfits).1 notes hnotes)
        (ensures_lowerExpr e h notes hnotes) ?_
      rintro hhead ⟨x, _⟩ _ ⟨t, ⟨hemits, notes, hnotes, rfl⟩, rfl⟩
      obtain ⟨hfits, hopen, -⟩ := hfits.afterExpr hhead hopen hemits
      refine Reports.before
        (reports_lowerArgs hknows rest (h.of_header hemits.header_eq) hopen
          hfits notes hnotes)
        (ensures_lowerArgs rest (h.of_header hemits.header_eq) notes hnotes) ?_
      exact fun _ _ _ _ => .pure _ _

end

end Expression

/-! ## Definitions -/

section Body

variable {c : Context} {id : FuncId}

/-- Putting in a body reports the first fault of its steps. -/
theorem reports_emitBody
    {m : Module}
    {signature : Signature}
    (hknows : Knows c m signature)
    {name : String}
    {params : List String}
    (hf : c.module.function? id = some (.declaration id name params))
    (body : Expr)
    (hfits : Fits m signature body.steps (.start (.declaration id name params))) :
    Reports (emitBody id body) c (body.steps.findSome? (Step.fault? m signature)) := by
  obtain ⟨note, hrun⟩ := run_emitBody hf body
  have hdeclares : c.builder.Declares (.start (.declaration id name params))
      (.declaration id name params) :=
    ⟨hf, rfl⟩
  have hopen := Site.open_start id name params
  have hquiet : Journal.Quiet [.note note] := Journal.Quiet.cons (fun _ h => by cases h) _
  refine .of_run_eq hrun ?_
  refine Reports.before (reports_lowerExpr hknows body hdeclares hopen hfits _ hquiet)
    (ensures_lowerExpr body hdeclares _ hquiet) ?_
  rintro hnone ⟨o, _⟩ _ ⟨t, ⟨hemits, notes, hnotes, rfl⟩, rfl⟩
  rw [← List.append_nil body.steps] at hfits
  obtain ⟨-, htOpen, -⟩ := hfits.afterExpr hnone hopen hemits
  exact reports_build
    (Builder.reports_terminate (hdeclares.of_header hemits.header_eq) htOpen.cursor _)

theorem reports_checkWhen
    {f : Function}
    (wanted : Bool)
    (hf : c.module.function? id = some f)
    (hverify : c.module.verify f = .ok ()) :
    Reports (checkWhen wanted id) c none := by
  cases wanted with
  | false => exact .pure _ _
  | true => exact ⟨_, _, run_check_ok hf hverify⟩

/-- A function that keeps all rules before and after the passes settles. -/
theorem reports_settleBody
    {f : Function}
    (hf : c.module.function? id = some f)
    (hverify : c.module.verify f = .ok ())
    (hid : (c.settled f).id = id)
    (hsettled : (c.module.mapFunction id fun _ => c.settled f).verify (c.settled f) =
      .ok ()) :
    Reports (settleBody id) c none := by
  refine .get_bind
    (Reports.after (reports_checkWhen _ hf hverify) (ensures_checkWhen _ _ _)
      fun _ d hd => ?_)
  rw [hd]
  cases hoptimize : c.settings.optimize with
  | false => exact .pure _ _
  | true =>
      have hfunction : (Pipeline.run c.passes f).function = c.settled f := by
        rw [Context.settled, if_pos hoptimize]
      refine Reports.lift_bind (run_optimize hf)
        (reports_checkWhen _ ?_ (hfunction ▸ hsettled))
      change (c.module.mapFunction id fun _ => _).function? id = _
      rw [Module.function?_mapFunction _ _ _ fun _ _ => hfunction ▸ hid, hf]
      simp [Module.id_of_function? hf]

end Body

section Definition

variable {c : Context} {m m' : Module} {s : Signature} {id : FuncId}

/--
A module in which a signature was installed knows the functions that a
body under it may use.
-/
theorem Installed.knows
    (h : Installed m s id c.module)
    (hm : m.Coherent)
    (hm' : c.module.Coherent)
    (hf : c.module.function? id = some (.declaration id s.name s.params))
    (hvalid : signatureError? m s = none)
    (hscope : c.scope = Scope.bindParams [] 0 s.params) :
    Knows c m s := by
  refine ⟨fun name => ?_, fun name hname => ?_, fun name arity hname => ?_⟩
  · rw [hscope, Scope.isSome_find?_bindParams]
    simp [Scope.find?]
  · unfold Signature.arityOf? at hname
    split at hname
    · cases hname
    · next hne =>
      refine hm'.find?_eq_none_iff.2 fun g hg hgname => ?_
      rcases h.mem_cases hm' hf hg with rfl | ⟨hgm, -, -⟩
      · exact hne hgname.symm
      · have hnone := List.find?_eq_none.1 (Option.map_eq_none_iff.1 hname) g hgm
        exact hnone (by simpa using hgname)
  · unfold Signature.arityOf? at hname
    split at hname
    · next heq =>
      refine ⟨id, _, ?_, hf, Option.some.inj hname⟩
      exact hm'.find?_eq_some_iff.2 ⟨_, Module.mem_of_function? hf, heq.symm, rfl⟩
    · obtain ⟨f, hfind, rfl⟩ := Option.map_eq_some_iff.1 hname
      have hfname : f.name = name := by simpa using List.find?_some hfind
      have hmem := List.mem_of_find?_eq_some hfind
      have hgrows := h.grows hm hm' hvalid
      obtain ⟨f', hf', -, harity⟩ :=
        hgrows.functions f.id f (hm.function?_eq_some_iff.2 ⟨hmem, rfl⟩)
      exact ⟨f.id, f',
        hgrows.names name f.id (hm.find?_eq_some_iff.2 ⟨f, hmem, hfname, rfl⟩), hf', harity⟩

/--
A lowered function passes the check in every module that knows more functions, before and
after the passes.
-/
theorem verify_lowered
    (hpasses : ∀ pass ∈ c.passes, pass ∈ [Pass.folding, Pass.branches, Pass.unused])
    {d : Definition}
    {f : Function}
    (h : Lowers m d f)
    (hblocks : f.nextBlock ≤ UInt32.size)
    (hvalues : f.nextValue ≤ UInt32.size)
    (hgrows : m.Grows m') :
    m'.verify f = .ok () ∧ m'.verify (c.settled f) = .ok () := by
  have hdescends : f.Descends (c.settled f) :=
    Context.Mild.descends (fun _ pass hpass => Pass.gentle_of_mem (hpasses pass hpass)) f
  obtain ⟨hwf, hcalls, -⟩ := (h.mono hgrows).wellFormed hblocks hvalues
  obtain ⟨hwf', hcalls', -⟩ := Context.wellFormed_settled hpasses (h.mono hgrows)
    (hdescends.issued_eq.2.trans_le hblocks) (hdescends.issued_eq.1.trans_le hvalues)
  exact ⟨(Verify.verify_eq_ok_iff hwf.ids_nodup _).2 ⟨hwf, hcalls.callsMatch⟩,
    (Verify.verify_eq_ok_iff hwf'.ids_nodup _).2 ⟨hwf', hcalls'.callsMatch⟩⟩

/--
Lowering a body reports the first fault of its steps: whatever was put in passes the checks.
-/
theorem reports_lowerBody
    {d : Definition}
    (hpasses : ∀ pass ∈ c.passes, pass ∈ [Pass.folding, Pass.branches, Pass.unused])
    (h : Installed m d.signature id c.module)
    (hm : m.Coherent)
    (hm' : c.module.Coherent)
    (hf : c.module.function? id =
      some (.declaration id d.signature.name d.signature.params))
    (hvalid : signatureError? m d.signature = none)
    (hscope : c.scope = Scope.bindParams [] 0 d.signature.params)
    (hblocks :
      1 + Step.total Step.blocks (Step.before (Step.fault? m d.signature) d.body.steps) ≤
        UInt32.size)
    (hvalues :
      Step.total Step.values (Step.before (Step.fault? m d.signature) d.body.steps) ≤
        UInt32.size) :
    Reports (lowerBody id d.body) c
      (d.body.steps.findSome? (Step.fault? m d.signature)) := by
  have hknows := h.knows hm hm' hf hvalid hscope
  rw [lowerBody_eq]
  refine Reports.before (reports_emitBody hknows hf d.body hblocks)
    (ensures_emitBody hf d.body) ?_
  rintro hnone _ _ ⟨o, t, notes, -, hemits, rfl⟩
  have hheader : (t.close (.ret o)).func.header =
      (id, d.signature.name, d.signature.params) := hemits.header_eq
  have hid : (t.close (.ret o)).func.id = id := congrArg (·.1) hheader
  have hlowers : Lowers c.module d (t.close (.ret o)).func := by
    refine ⟨(of_signatureError?_eq_none hvalid).1, o, t, rfl, ?_⟩
    rw [hid, ← hscope]
    exact hemits
  have hsettledHeader : (c.settled (t.close (.ret o)).func).header =
      (id, d.signature.name, d.signature.params) :=
    (Context.Mild.descends (fun _ pass hpass => Pass.gentle_of_mem (hpasses pass hpass))
      _).header_eq.trans hheader
  obtain ⟨hissuedBlocks, hissuedValues⟩ := hemits.issues
  simp only [Expr.stepsAll, List.append_nil] at hissuedBlocks hissuedValues
  rw [Step.before_of_none hnone] at hblocks hvalues
  have hb : (t.close (.ret o)).func.nextBlock ≤ UInt32.size :=
    hissuedBlocks.trans_le hblocks
  have hv : (t.close (.ret o)).func.nextValue ≤ UInt32.size :=
    hissuedValues.trans_le ((Nat.zero_add _).trans_le hvalues)
  obtain ⟨hmodule, hfunction⟩ := module_atSite hf hheader notes
  have hverify :=
    (verify_lowered hpasses hlowers hb hv (Module.Grows.mapFunction hf hheader)).1
  have hverify' :=
    (verify_lowered hpasses hlowers hb hv (Module.Grows.mapFunction hf hsettledHeader)).2
  refine reports_settleBody hfunction (hmodule ▸ hverify) (congrArg (·.1) hsettledHeader) ?_
  rw [hmodule, Module.mapFunction_mapFunction _ _ fun _ _ => hid]
  exact hverify'

/-- A definition reports its first violation. -/
theorem reports_lowerDefinition
    (h : c.Tidy)
    (hpasses : ∀ pass ∈ c.passes, pass ∈ [Pass.folding, Pass.branches, Pass.unused])
    (hbound : c.module.nextId < UInt32.size)
    (d : Definition)
    (hblocks : Step.total Step.blocks (d.performed c.module) ≤ UInt32.size)
    (hvalues : Step.total Step.values (d.performed c.module) ≤ UInt32.size) :
    Reports (lowerDefinition d) c (d.violation? c.module) := by
  have hm := h.module.coherent
  rw [violation?_eq hm]
  cases hvalid : signatureError? c.module d.signature with
  | some e => exact ⟨_, run_lowerDefinition_rejected hvalid⟩
  | none =>
      rw [Option.none_or]
      rw [performed_eq hm hvalid, Step.total_append] at hblocks hvalues
      obtain ⟨id, m, notes, hdeclare, hinstalled, -⟩ :=
        run_declareSignature (c := { c with scope := [] }) hvalid
      obtain ⟨hcoherent, hf⟩ := hinstalled.function?_eq hm h.module.pristine hbound hvalid
      let c₁ : Context := { c with
        builder := ⟨m, c.builder.cursor, notes ++ c.builder.journal⟩
        scope := Scope.bindParams [] 0 d.signature.params }
      have hbody :
          Reports (lowerBody id d.body) c₁
            (d.body.steps.findSome? (Step.fault? c.module d.signature)) :=
        reports_lowerBody (c := c₁) hpasses hinstalled hm hcoherent hf hvalid rfl hblocks
          (Nat.le_trans (Nat.le_add_left _ _) hvalues)
      cases hfault : d.body.steps.findSome? (Step.fault? c.module d.signature) with
      | some e =>
          rw [hfault] at hbody
          obtain ⟨c₂, hrun⟩ := hbody
          exact ⟨_, run_lowerDefinition_failed hdeclare hrun⟩
      | none =>
          rw [hfault] at hbody
          obtain ⟨_, c₂, hrun⟩ := hbody
          obtain ⟨note, hdone⟩ := run_lowerDefinition_done hdeclare hrun
          exact ⟨_, _, hdone⟩

end Definition

end Lowering

/-! ## After any requests -/

open Lowering

namespace Context

/--
After any requests, a definition is lowered if and only if it is valid.  Otherwise
the error is the fault of the first step that has one; neither the builder nor the
check ever reports one.
-/
theorem lowerDefinition_first_violation
    (settings : Settings)
    (passes : Pipeline)
    (hpasses : ∀ pass ∈ passes, pass ∈ [Pass.folding, Pass.branches, Pass.unused])
    (requests : List Request)
    (c : Context)
    (hc : (initial settings passes).afterAll requests = c)
    (hfunctions : c.module.nextId < UInt32.size)
    (d : Definition)
    (hblocks : Step.total Step.blocks (d.performed c.module) ≤ UInt32.size)
    (hvalues : Step.total Step.values (d.performed c.module) ≤ UInt32.size) :
    ((∃ id c', (lowerDefinition d).run.run c = (.ok id, c')) ↔ d.Valid c.module) ∧
      (∀ e, (∃ c', (lowerDefinition d).run.run c = (.error e, c')) ↔
        d.violation? c.module = some e) ∧
      ∀ e c', (lowerDefinition d).run.run c = (.error e, c') →
        e.kind ≠ .invalidInsertPoint ∧ e.kind ≠ .verification := by
  subst hc
  have hmild : (initial settings passes).Mild := fun _ pass hpass =>
    Pass.gentle_of_mem (hpasses pass hpass)
  obtain ⟨htidy, hbuilt⟩ := tidy_initial settings passes
  obtain ⟨htidy', -⟩ := develops_afterAll htidy hmild hbuilt requests hfunctions
  have hsame := (steady_afterAll htidy.cursor requests).passes
  have hreports :=
    reports_lowerDefinition htidy' (hsame ▸ hpasses) hfunctions d hblocks hvalues
  refine ⟨hreports.ok_iff.trans (violation?_eq_none_iff htidy'.module.coherent d),
    hreports.error_iff, ?_⟩
  intro e c' hrun
  exact kind_of_violation? ((hreports.error_iff e).1 ⟨c', hrun⟩)

/-- A function with four mistakes, of which the number of arguments is met first. -/
def mistaken : Definition :=
  ⟨⟨"f", ["a"]⟩, .binary '/' (.call "sin" [.var "b", .call "g" []]) (.var "c")⟩

/-- A function that calls itself and one that is declared only. -/
def mutualCall : Definition :=
  ⟨⟨"f", ["a"]⟩,
    .cond (.binary '<' (.var "a") (.number 1.0)) (.call "g" []) (.call "f" [.var "a"])⟩

/-- The functions that the two definitions may use. -/
def declarations : List Request :=
  [.hostFunctions, .declaration ⟨"f", ["x"]⟩, .declaration ⟨"g", []⟩]

theorem mutualCall_valid :
    mutualCall.Valid
      ((initial ⟨true, true, 8, 100⟩ .standard).afterAll declarations).module := by
  refine ⟨by decide +kernel, by decide, by decide +kernel, ?_⟩
  refine .cond (.binary (by decide) (.var (by decide)) (.number 1.0))
    (.call (.inr (by decide +kernel)) (by simp)) ?_
  refine .call (.inl ⟨rfl, rfl⟩) fun arg harg => ?_
  obtain rfl := List.mem_singleton.1 harg
  exact .var (by decide)

theorem first_violation_of_mistaken :
    (∃ c',
        (lowerDefinition mistaken).run.run
            ((initial ⟨true, true, 8, 100⟩ .standard).afterAll declarations) =
          (.error (.arityMismatch "sin" 1 2), c')) ∧
      ∃ id c',
        (lowerDefinition mutualCall).run.run
            ((initial ⟨true, true, 8, 100⟩ .standard).afterAll declarations) =
          (.ok id, c') := by
  have hmistaken := lowerDefinition_first_violation ⟨true, true, 8, 100⟩ .standard
    (by simp [Pipeline.standard]) declarations _ rfl (by decide +kernel) mistaken
    (by decide +kernel) (by decide +kernel)
  have hmutual := lowerDefinition_first_violation ⟨true, true, 8, 100⟩ .standard
    (by simp [Pipeline.standard]) declarations _ rfl (by decide +kernel) mutualCall
    (by decide +kernel) (by decide +kernel)
  exact ⟨(hmistaken.2.1 _).2 (by decide +kernel), hmutual.1.2 mutualCall_valid⟩

end Context

end ScalarSsa
