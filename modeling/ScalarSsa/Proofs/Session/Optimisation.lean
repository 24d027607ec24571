import ScalarSsa.Proofs.Lowering.Counterparts
import ScalarSsa.Proofs.Pass.Unobservable
import ScalarSsa.Proofs.Session.Expressions
import ScalarSsa.Proofs.Session.Transcripts

/-!
# Sessions with and without the pipeline

**Input.** Items that are handled by two sessions, one of which runs the standard pipeline
over its functions.

**Definitions.** The `transcript` of a session has the result of each item and the host
calls that were made for it.  `Throughout` says something of each definition and each
expression in the context in which its turn comes.  Contexts are `Parallel` if each function
of the first one is refined by its counterpart in the second one.

**Results.** `Parallel.handleItem`: an item leads from parallel contexts to parallel
contexts, with related results unless the step limit ends the first run.
`optimisation_unobservable` concludes that the transcripts differ at most in the signs of
zeros, and not at all if no phi merges both zeros where it could be folded.
-/

namespace ScalarSsa

open Lowering Machine

namespace Context

/-- The function that a definition is lowered to, if it can be. -/
def lowered? (c : Context) (d : Definition) : Option Function :=
  match (lowerDefinition d).run.run c with
  | (.ok id, c') => c'.module.function? id
  | (.error _, _) => none

/--
No phi merges both zeros where the standard pipeline looks for a fold in the
function of a definition.
-/
def KeepsZerosApart (c : Context) (d : Definition) : Prop :=
  ∀ f ∈ c.lowered? d, ∀ g ∈ f.foldStages, g.zerosApart = true

instance (c : Context) (d : Definition) : Decidable (c.KeepsZerosApart d) :=
  inferInstanceAs (Decidable (∀ f ∈ c.lowered? d, ∀ g ∈ f.foldStages, g.zerosApart = true))

end Context

/-- The blocks and the values that are issued for a definition have names of their own. -/
def Definition.Affordable (m : Module) (d : Definition) : Prop :=
  Step.total Step.blocks (d.performed m) ≤ UInt32.size ∧
    Step.total Step.values (d.performed m) ≤ UInt32.size

instance (m : Module) (d : Definition) : Decidable (d.Affordable m) :=
  inferInstanceAs (Decidable (_ ∧ _))

namespace Session

/-! ## Conditions on items -/

/-- The definition that an item is lowered as. -/
def definitionOf? : Item → Option Definition
  | .definition d => some d
  | .declaration _ => none
  | .expression e => some (asDefinition e)

/--
Something holds of each definition and each expression in the context in
which its turn comes.
-/
def Throughout (P : Context → Definition → Prop) (s : Session) : List Item → Prop
  | [] => True
  | item :: rest =>
    (∀ d ∈ definitionOf? item, P s.context d) ∧
      Throughout P ((handleNoting item).run s).2 rest

instance Throughout.decidable (P : Context → Definition → Prop)
    [∀ c d, Decidable (P c d)] (s : Session) :
    (items : List Item) → Decidable (s.Throughout P items)
  | [] => isTrue trivial
  | item :: rest =>
    have : Decidable (Throughout P ((handleNoting item).run s).2 rest) :=
      Throughout.decidable P _ rest
    inferInstanceAs (Decidable (_ ∧ _))

theorem Throughout.mono
    {P Q : Context → Definition → Prop}
    (hPQ : ∀ c d, P c d → Q c d)
    {s : Session}
    {items : List Item}
    (h : s.Throughout P items) :
    s.Throughout Q items := by
  induction items generalizing s with
  | nil => trivial
  | cons item items ih => exact ⟨fun d hd => hPQ _ d (h.1 d hd), ih h.2⟩

/-- Two results are the same, or two related values. -/
inductive OutcomeLike (rel : Float → Float → Prop) :
    Except SessionError Outcome → Except SessionError Outcome → Prop
  | same (r : Except SessionError Outcome) : OutcomeLike rel r r
  | evaluated {x y : Float} (h : rel x y) : OutcomeLike rel (.ok (.evaluated x))
      (.ok (.evaluated y))

/-- Two entries of transcripts have related results and host calls. -/
structure EntryLike (rel : Float → Float → Prop)
    (p q : Except SessionError Outcome × List HostCall) : Prop where
  outcome : OutcomeLike rel p.1 q.1
  calls : List.Forall₂ (CallLike rel) p.2 q.2

theorem EntryLike.eq
    {p q : Except SessionError Outcome × List HostCall}
    (h : EntryLike Eq p q) :
    q = p := by
  obtain ⟨r, calls⟩ := p
  obtain ⟨r', calls'⟩ := q
  obtain ⟨houtcome, hcalls⟩ := h
  obtain rfl : calls' = calls := Ending.Matches.callLike_eq_iff.1 hcalls
  cases houtcome with
  | same => rfl
  | evaluated h => rw [h]

/-! ## Parallel contexts -/

/--
The functions of the second context are those of the first one after the standard pipeline,
and refine them.
-/
structure Parallel (rel : Float → Float → Prop) (c d : Context) :
    Prop extends Context.Counterpart c d where
  optimised : d.settings.optimize = true
  standard : d.passes = .standard
  limits : d.settings.limits = c.settings.limits
  refined : ∀ f ∈ c.module.functions, Refines rel f (d.bodies f) ∧
    Refines rel (d.bodies f) (d.bodies f)

namespace Parallel

variable {rel : Float → Float → Prop} {c d : Context} (h : Parallel rel c d)

include h

/-- What leaves counterparts whose functions are refined leaves parallel contexts. -/
theorem step
    {c' d' : Context}
    (hsteady : c.Steady c')
    (hsteady' : d.Steady d')
    (htidy : c'.module.Tidy)
    (hmodule : d'.module = c'.module.transform d.bodies)
    (hrefined : ∀ f ∈ c'.module.functions, Refines rel f (d.bodies f) ∧
      Refines rel (d.bodies f) (d.bodies f)) :
    Parallel rel c' d' := by
  have hbodies : d'.bodies = d.bodies := by
    funext f
    rw [Context.bodies, Context.bodies, hsteady'.settled_eq]
  refine ⟨⟨⟨htidy, hsteady.cursor⟩, hsteady'.cursor, ?_, ?_, ?_, ?_⟩, ?_, ?_, ?_, ?_⟩
  · rw [hsteady.settings, h.plain]
  · rw [hsteady.passes, hsteady'.passes, h.passes_eq]
  · rw [hsteady'.passes]
    exact h.passes
  · rw [hbodies, hmodule]
  · rw [hsteady'.settings, h.optimised]
  · rw [hsteady'.passes, h.standard]
  · rw [hsteady.settings, hsteady'.settings, h.limits]
  · rw [hbodies]
    exact hrefined

/-- The pipeline refines what a definition is lowered to. -/
theorem refines_lowered
    (hrel : Tolerance rel)
    {m : Module}
    {def' : Definition}
    {f : Function}
    (hlowers : Lowers m def' f)
    (hblocks : f.nextBlock ≤ UInt32.size)
    (hvalues : f.nextValue ≤ UInt32.size)
    (hagreeing : ∀ g ∈ f.foldStages, g.Agreeing rel) :
    Refines rel f (d.bodies f) ∧ Refines rel (d.bodies f) (d.bodies f) := by
  obtain ⟨hwf, -, hplain⟩ := hlowers.wellFormed hblocks hvalues
  have hbody : f.entry? ≠ none := by
    rw [hlowers.entry?_eq]
    exact Option.some_ne_none _
  obtain ⟨hrunnable, hrefines⟩ := Pass.refines_standard hrel ⟨hwf, hplain, hbody⟩ hagreeing
  have hbodies : d.bodies f = (Pipeline.run .standard f).function := by
    simp [Context.bodies, Context.settled, hlowers.hasBody, h.optimised, h.standard]
  rw [hbodies]
  exact ⟨hrefines, hrunnable.refines_self hrel⟩

/-- A definition leaves parallel contexts. -/
theorem lowerDefinition
    (hrel : Tolerance rel)
    (hbound : c.module.nextId < UInt32.size)
    (def' : Definition)
    (haffordable : def'.Affordable c.module)
    (hagreeing : ∀ f ∈ c.lowered? def', ∀ g ∈ f.foldStages, g.Agreeing rel) :
    (∃ e c' d', (Lowering.lowerDefinition def').run.run c = (.error e, c') ∧
        (Lowering.lowerDefinition def').run.run d = (.error e, d') ∧ c.Silent c' ∧
          d.Silent d' ∧ Parallel rel c' d') ∨
      ∃ id f c' d', (Lowering.lowerDefinition def').run.run c = (.ok id, c') ∧
        (Lowering.lowerDefinition def').run.run d = (.ok id, d') ∧ c.Silent c' ∧
        d.Silent d' ∧ Parallel rel c' d' ∧
        c'.module.function? id = some f := by
  have hsteady := steady_lowerDefinition h.tidy.cursor def'
  have hsteady' := steady_lowerDefinition h.cursor def'
  have hsilent := silent_lowerDefinition h.tidy.cursor def'
  have hsilent' := silent_lowerDefinition h.cursor def'
  rcases h.toCounterpart.lowerDefinition hbound def' haffordable.1 haffordable.2 with
    ⟨e, c', d', hrun, hrun', hundone, hundone', hmodule⟩ |
    ⟨hviolation, id, c', d', hrun, hrun', hdefined, hdefined', hmodule⟩
  · rw [hrun] at hsteady hsilent
    rw [hrun'] at hsteady' hsilent'
    refine .inl ⟨e, c', d', hrun, hrun', hsilent, hsilent', ?_⟩
    obtain ⟨issued, events, hissued, -, rfl⟩ := hundone
    exact h.step hsteady hsteady' (h.tidy.module.issue hissued) hmodule h.refined
  · rw [hrun] at hsteady hsilent
    rw [hrun'] at hsteady' hsilent'
    obtain ⟨m, f, hlowers, hf, hcases⟩ := h.function_of_defined hbound hdefined
    obtain ⟨-, -, -, htidy, -⟩ := erase_settled h.tidy.module hbound h.mild.1 hdefined
    refine .inr ⟨id, f, c', d', hrun, hrun', hsilent, hsilent', ?_, hf⟩
    refine h.step hsteady hsteady' htidy hmodule fun g hg => ?_
    rcases hcases g hg with rfl | hold
    · -- all steps were taken, so what they issue bounds the identifiers of the function
      have hperformed : def'.performed c.module = def'.steps :=
        Step.before_of_none hviolation
      obtain ⟨hblocks, hvalues⟩ := haffordable
      rw [hperformed] at hblocks hvalues
      have hlowered : c.lowered? def' = some g := by
        simp only [Context.lowered?, hrun, hf]
      exact h.refines_lowered hrel hlowers (hlowers.issues.1.trans_le hblocks)
        (hlowers.issues.2.trans_le hvalues)
        (hagreeing g hlowered)
    · exact h.refined g hold

/-- Each call in the first context is matched in the second one. -/
theorem follows
    (limit remaining : Nat) :
    Follows rel (Calls c.module limit remaining) (Calls d.module limit remaining) := by
  refine (Follows.calls ?_ ?_ ?_ limit remaining).1
  · intro id f hf
    refine ⟨d.bodies f, ?_, (h.refined f (Module.mem_of_function? hf)).1⟩
    rw [h.module, h.bodyChange.function?_transform, hf, Option.map_some]
  · intro id hf
    rw [h.module, h.bodyChange.function?_transform, hf, Option.map_none]
  · intro id g hg
    rw [h.module, h.bodyChange.function?_transform] at hg
    obtain ⟨f, hf, rfl⟩ := Option.map_eq_some_iff.1 hg
    exact (h.refined f (Module.mem_of_function? hf)).2

/-- A run that the step limit does not end comes to the like in the second context. -/
theorem outcome
    {id : FuncId}
    (hends : ∀ limit, (outcome c id true).mapError SessionError.exec ≠
      .error (.exec (.stepLimit limit))) :
    OutcomeLike rel ((Session.outcome c id true).mapError .exec)
      ((Session.outcome d id true).mapError .exec) ∧
      List.Forall₂ (CallLike rel) (outcomeCalls c id true) (outcomeCalls d id true) := by
  have hlimit : (evaluation c id).1 ≠ .error (.stepLimit c.settings.limits.steps) := by
    intro heq
    refine hends c.settings.limits.steps ?_
    simp only [Session.outcome, heq, if_true]
    rfl
  obtain ⟨o, o', hmatches, hrun, hrun'⟩ := (h.follows _ _).run .nil hlimit
  have heval : evaluation c id = (o.result, Progress.at ⟨0, []⟩ o) := hrun
  have heval' : evaluation d id = (o'.result, Progress.at ⟨0, []⟩ o') := by
    rw [evaluation, h.limits]
    exact hrun'
  simp only [Session.outcome, outcomeCalls, if_true, heval, heval', Progress.at,
    List.append_nil]
  refine ⟨?_, hmatches.calls⟩
  obtain ⟨steps, calls, result⟩ := o
  obtain ⟨steps', calls', result'⟩ := o'
  cases hmatches.result with
  | ok hx => exact .evaluated hx
  | error fault => exact .same _

end Parallel

/-! ## Items -/

/--
What handling something in two contexts comes to: related results, unless the step limit
ends the first run.
-/
structure Alike (rel : Float → Float → Prop) (c d : Context)
    (x y : Except SessionError Outcome × Context) : Prop where
  parallel : Parallel rel x.2 y.2
  entry : (∀ limit, x.1 ≠ .error (.exec (.stepLimit limit))) →
    EntryLike rel (x.1, c.madeSince x.2) (y.1, d.madeSince y.2)

/-- The same result without host calls. -/
theorem Alike.of_silent
    {rel : Float → Float → Prop}
    {c d c' d' : Context}
    (hparallel : Parallel rel c' d')
    (hsilent : c.Silent c')
    (hsilent' : d.Silent d')
    (r : Except SessionError Outcome) :
    Alike rel c d (r, c') (r, d') := by
  refine ⟨hparallel, fun _ => ⟨.same r, ?_⟩⟩
  rw [hsilent.madeSince_eq, hsilent'.madeSince_eq]
  exact .nil

namespace Parallel

variable {rel : Float → Float → Prop} {c d : Context} (h : Parallel rel c d)

include h

/-- A declaration is handled alike if the host carries the relation along. -/
theorem declaration
    {s : Signature}
    (hhost : HostCarries rel s.name)
    (hbound : ((handleItem (.declaration s) true).run c).2.module.nextId < UInt32.size) :
    Alike rel c d ((handleItem (.declaration s) true).run c)
      ((handleItem (.declaration s) true).run d) := by
  have htidy := (tidy_handleItem h.tidy h.mild.1 (.declaration s) true hbound).module
  have hsteady := steady_handleItem h.tidy.cursor (.declaration s) true
  have hsteady' := steady_handleItem h.cursor (.declaration s) true
  have hissued : c.module.nextId < UInt32.size := Nat.lt_of_le_of_lt hsteady.issued hbound
  rcases lowerSignature_cases c s with ⟨e, herror, hrun⟩
    | ⟨id, m, notes, hvalid, hinstalled, hnotes, hrun⟩
  · rcases lowerSignature_cases d s with ⟨e', herror', hrun'⟩
      | ⟨id', m', notes', hvalid', -⟩
    · obtain rfl : e' = e :=
        Option.some.inj (herror'.symm.trans ((h.signatureError?_eq s).trans herror))
      rw [run_declaration_error hrun] at hsteady htidy ⊢
      rw [run_declaration_error hrun'] at hsteady' ⊢
      have hreport : Journal.Hostless [.report e'.report] := by simp [Journal.Hostless]
      exact .of_silent (h.step hsteady hsteady' htidy h.module h.refined) ⟨_, hreport, rfl⟩
        ⟨_, hreport, rfl⟩ _
    · cases herror.symm.trans ((h.signatureError?_eq s).symm.trans hvalid')
  · rcases lowerSignature_cases d s with ⟨e', herror', -⟩
      | ⟨id', m', notes', -, hinstalled', hnotes', hrun'⟩
    · cases hvalid.symm.trans ((h.signatureError?_eq s).symm.trans herror')
    · rw [run_declaration_ok hrun] at hsteady htidy ⊢
      rw [run_declaration_ok hrun'] at hsteady' ⊢
      obtain ⟨rfl, rfl⟩ := h.installed hvalid hinstalled hinstalled'
      refine .of_silent (h.step hsteady hsteady' htidy rfl fun f hf => ?_)
        ⟨_, hnotes.hostless, rfl⟩
        ⟨_, hnotes'.hostless, rfl⟩ _
      obtain ⟨hm, hdeclared⟩ :=
        hinstalled.function?_eq h.tidy.module.coherent h.tidy.module.pristine hissued hvalid
      rcases hinstalled.mem_cases hm hdeclared hf with rfl | ⟨hold, -⟩
      · rw [h.bodyChange.bare _ rfl]
        exact ⟨.host rfl hhost, .host rfl hhost⟩
      · exact h.refined f hold

section Lowered

variable (hrel : Tolerance rel) (hbound : c.module.nextId < UInt32.size)

include hrel hbound

theorem definition
    {def' : Definition}
    (haffordable : def'.Affordable c.module)
    (hagreeing : ∀ f ∈ c.lowered? def', ∀ g ∈ f.foldStages, g.Agreeing rel) :
    Alike rel c d ((handleItem (.definition def') true).run c)
      ((handleItem (.definition def') true).run d) := by
  rcases h.lowerDefinition hrel hbound def' haffordable hagreeing with
    ⟨e, c', d', hrun, hrun', hsilent, hsilent', hparallel⟩
      | ⟨id, f, c', d', hrun, hrun', hsilent, hsilent', hparallel, -⟩
  · rw [run_definition_error hrun, run_definition_error hrun']
    exact .of_silent hparallel hsilent hsilent' _
  · rw [run_definition_ok hrun, run_definition_ok hrun']
    exact .of_silent hparallel hsilent hsilent' _

/-- An expression is run in parallel contexts, and its functions are erased from both. -/
theorem expression
    {e : Expr}
    (haffordable : (asDefinition e).Affordable c.module)
    (hagreeing : ∀ f ∈ c.lowered? (asDefinition e), ∀ g ∈ f.foldStages, g.Agreeing rel) :
    Alike rel c d ((handleItem (.expression e) true).run c)
      ((handleItem (.expression e) true).run d) := by
  change Alike rel c d ((handleExpr e true).run c) ((handleExpr e true).run d)
  rcases h.lowerDefinition hrel hbound (asDefinition e) haffordable hagreeing with
    ⟨fault, c', d', hrun, hrun', hsilent, hsilent', hparallel⟩ |
    ⟨id, f, c', d', hrun, hrun', hsilent, hsilent', hparallel, hf⟩
  · rw [run_handleExpr_error hrun, run_handleExpr_error hrun']
    exact .of_silent hparallel hsilent hsilent' _
  · have hf' : d'.module.function? id = some (d'.bodies f) := by
      rw [hparallel.module, hparallel.bodyChange.function?_transform, hf, Option.map_some]
    obtain ⟨later, hlater, notes, hnotes, hhandled⟩ := run_handleExpr_ok hrun hf true
    obtain ⟨later', hlater', notes', hnotes', hhandled'⟩ := run_handleExpr_ok hrun' hf' true
    have hmade : c.madeSince ((handleExpr e true).run c).2 =
        (outcomeCalls c' id true).reverse := by
      rw [hhandled]
      exact Context.madeSince_eq
        (hsilent.hostCalls_append (hlater.append hnotes.hostless)
          (List.append_assoc _ _ _).symm)
    have hmade' : d.madeSince ((handleExpr e true).run d).2 =
        (outcomeCalls d' id true).reverse := by
      rw [hhandled']
      exact Context.madeSince_eq
        (hsilent'.hostCalls_append (hlater'.append hnotes'.hostless)
          (List.append_assoc _ _ _).symm)
    -- the contexts are parallel while the functions are run, and again when
    -- both have been erased
    refine ⟨?_, fun hends => ⟨?_, ?_⟩⟩
    · rw [hhandled, hhandled']
      refine hparallel.step ⟨Nat.le_refl _, hparallel.tidy.cursor, rfl, rfl⟩
        ⟨Nat.le_refl _, hparallel.cursor, rfl, rfl⟩
        (hparallel.tidy.module.erase (Module.mem_of_function? hf)) ?_ fun g hg =>
          hparallel.refined g (List.mem_of_mem_eraseP hg)
      change d'.module.erase (d'.bodies f) = (c'.module.erase f).transform d'.bodies
      rw [hparallel.bodyChange.erase_transform, ← hparallel.module]
    · rw [hhandled] at hends
      rw [hhandled, hhandled']
      exact (hparallel.outcome hends).1
    · rw [hhandled] at hends
      rw [hmade, hmade']
      exact List.forall₂_reverse_iff.2 (hparallel.outcome hends).2

end Lowered

/-- Every item is handled alike. -/
theorem handleItem
    (hrel : Tolerance rel)
    (item : Item)
    (hbound : ((handleItem item true).run c).2.module.nextId < UInt32.size)
    (hhost : ∀ s, item = .declaration s → HostCarries rel s.name)
    (haffordable : ∀ def' ∈ definitionOf? item, def'.Affordable c.module)
    (hagreeing : ∀ def' ∈ definitionOf? item, ∀ f ∈ c.lowered? def', ∀ g ∈ f.foldStages,
      g.Agreeing rel) :
    Alike rel c d ((Session.handleItem item true).run c)
      ((Session.handleItem item true).run d) := by
  have hissued :=
    Nat.lt_of_le_of_lt (steady_handleItem h.tidy.cursor item true).issued hbound
  cases item with
  | definition def' =>
      exact h.definition hrel hissued (haffordable def' rfl) (hagreeing def' rfl)
  | declaration s => exact h.declaration (hhost s rfl) hbound
  | expression e => exact h.expression hrel hissued (haffordable _ rfl) (hagreeing _ rfl)

end Parallel

/-! ## Sessions -/

section Sessions

variable {rel : Float → Float → Prop} (hrel : Tolerance rel)

/-- Notes that are taken of a failure change nothing. -/
theorem alike_handleNoting
    {s t : Session}
    {item : Item}
    (hs : s.evaluate = true)
    (ht : t.evaluate = true)
    (h : Alike rel s.context t.context ((handleItem item true).run s.context)
      ((handleItem item true).run t.context)) :
    Alike rel s.context t.context
      (((handleNoting item).run s).1, ((handleNoting item).run s).2.context)
      (((handleNoting item).run t).1, ((handleNoting item).run t).2.context) := by
  obtain ⟨notes, hnotes, hrun⟩ := run_handleNoting item s
  obtain ⟨notes', hnotes', hrun'⟩ := run_handleNoting item t
  rw [hs] at hrun
  rw [ht] at hrun'
  rw [hrun, hrun']
  refine ⟨?_, fun hends => ?_⟩
  · exact h.parallel.step ⟨Nat.le_refl _, h.parallel.tidy.cursor, rfl, rfl⟩
      ⟨Nat.le_refl _, h.parallel.cursor, rfl, rfl⟩ h.parallel.tidy.module h.parallel.module
      h.parallel.refined
  · rw [Context.madeSince_noted hnotes, Context.madeSince_noted hnotes']
    exact h.entry hends

include hrel

/-- Sessions whose contexts are parallel have transcripts that are alike, item by item. -/
theorem transcript_like
    {s t : Session}
    (h : Parallel rel s.context t.context)
    (hs : s.evaluate = true)
    (ht : t.evaluate = true)
    {items : List Item}
    (hbound : ((handleAll items).run s).2.module.nextId < UInt32.size)
    (hhost : ∀ signature, .declaration signature ∈ items → HostCarries rel signature.name)
    (haffordable : s.Throughout (fun c def' => def'.Affordable c.module) items)
    (hagreeing : s.Throughout (fun c def' => ∀ f ∈ c.lowered? def', ∀ g ∈ f.foldStages,
      g.Agreeing rel) items) :
    List.Forall₂ (fun p q => (∀ limit, p.1 ≠ .error (.exec (.stepLimit limit))) →
      EntryLike rel p q)
      (s.transcript items) (t.transcript items) := by
  induction items generalizing s t with
  | nil => exact .nil
  | cons item items ih =>
      have hsteady := steady_handleNoting h.tidy.cursor item
      have hissued :=
        Nat.lt_of_le_of_lt (steady_handleAll hsteady.cursor items).issued hbound
      have hissued' : ((handleItem item true).run s.context).2.module.nextId <
          UInt32.size := by
        obtain ⟨notes, -, hrun⟩ := run_handleNoting item s
        rw [hrun, hs] at hissued
        exact hissued
      have hitem := alike_handleNoting hs ht (h.handleItem hrel item hissued'
        (fun signature heq => hhost signature (heq ▸ List.mem_cons_self))
          haffordable.1 hagreeing.1)
      exact .cons hitem.entry (ih hitem.parallel ((evaluate_handleNoting item s).trans hs)
        ((evaluate_handleNoting item t).trans ht) hbound
        (fun signature hmem => hhost signature (List.mem_cons_of_mem _ hmem))
          haffordable.2 hagreeing.2)

end Sessions

/--
Sessions are parallel before their first item, if the host carries the relation along.
-/
theorem parallel_fresh
    {rel : Float → Float → Prop}
    (settings : Settings)
    {host : Bool}
    (hhost : ∀ h ∈ HostFunction.provided host, HostCarries rel h.name) :
    Parallel rel (fresh { settings with optimize := false } .standard host true).context
      (fresh { settings with optimize := true } .standard host true).context := by
  have hbare : ∀ f ∈
      (fresh { settings with optimize := false } .standard host true).module.functions,
      f.hasBody = false := by
    intro f hf
    simp [Function.hasBody, (bare_of_mem_fresh _ _ _ _ hf).1]
  have hbodies : ∀ f ∈
      (fresh { settings with optimize := false } .standard host true).module.functions,
      (fresh { settings with optimize := true } .standard host true).context.bodies f = f :=
    fun f hf => if_neg (by simp [hbare f hf])
  have hstandard : ∀ pass ∈ Pipeline.standard,
      pass ∈ [Pass.folding, Pass.branches, Pass.unused] := by
    simp [Pipeline.standard]
  refine ⟨⟨tidy_fresh _ _ _ _, (tidy_fresh _ _ _ _).cursor, ?_, ?_, ?_, ?_⟩, ?_, ?_, ?_, ?_⟩
  · rw [settings_fresh]
  · rw [passes_fresh, passes_fresh]
  · rw [passes_fresh]
    exact hstandard
  · have hmodule : (fresh { settings with optimize := true } .standard host true).module =
        (fresh { settings with optimize := false } .standard host true).module := by
      rw [module_fresh, module_fresh]
    exact hmodule.trans (Module.transform_of_eq hbodies).symm
  · rw [settings_fresh]
  · rw [passes_fresh]
  · rw [settings_fresh, settings_fresh]
    rfl
  · intro f hf
    obtain ⟨hblocks, h, hh, hname⟩ := bare_of_mem_fresh _ _ _ _ hf
    have hcarries : HostCarries rel f.name := hname ▸ hhost h hh
    have hentry : Function.entry? f = none := Function.entry?_eq_none_iff.2 hblocks
    rw [hbodies f hf]
    exact ⟨.host hentry hcarries, .host hentry hcarries⟩

/--
Whether the standard pipeline is run cannot be seen up to the signs of zeros.  Of two
fresh sessions that differ only in this, the transcripts are alike item by item, an item
apart that has too few steps without the pipeline.  A phi that merges both zeros is
folded to the first of them, so zeros may differ in their signs; where no phi does so,
nothing differs at all.
-/
theorem optimisation_unobservable
    (settings : Settings)
    (host : Bool)
    (items : List Item)
    {plain optimised : Session}
    (hplain : plain = .fresh { settings with optimize := false } .standard host true)
    (hoptimised : optimised = .fresh { settings with optimize := true } .standard host true)
    (hbound : ((handleAll items).run plain).2.module.nextId < UInt32.size)
    (haffordable : plain.Throughout (fun c d => d.Affordable c.module) items) :
    (∀ s ∈ [plain, optimised], (s.transcript items).map (·.1) =
      ((handleAll items).run s).1 ∧
      (s.transcript items).flatMap (·.2) =
        ((handleAll items).run s).2.context.builder.journal.hostCalls) ∧
    ((∀ h ∈ [HostFunction.sin, .cos],
        (∃ signature, .declaration signature ∈ Program.provided host ++ items ∧
          h.name = signature.name) →
          ZeroLike (h.apply 0.0) (h.apply (-0.0))) →
      List.Forall₂ (fun p q => (∀ limit, p.1 ≠ .error (.exec (.stepLimit limit))) →
        EntryLike ZeroLike p q)
        (plain.transcript items) (optimised.transcript items)) ∧
    (plain.Throughout Context.KeepsZerosApart items →
      List.Forall₂ (fun p q => (∀ limit, p.1 ≠ .error (.exec (.stepLimit limit))) → q = p)
        (plain.transcript items) (optimised.transcript items)) := by
  have hparallel : ∀ rel, (∀ h ∈ HostFunction.provided host, HostCarries rel h.name) →
      Parallel rel plain.context optimised.context := by
    rw [hplain, hoptimised]
    exact fun rel hhost => parallel_fresh settings hhost
  have hevaluate : plain.evaluate = true ∧ optimised.evaluate = true := by
    rw [hplain, hoptimised]
    exact ⟨evaluate_fresh _ _ _ _, evaluate_fresh _ _ _ _⟩
  refine ⟨?_, fun hzeros => ?_, fun hapart => ?_⟩
  · have hstarts : ∀ s ∈ [plain, optimised],
        s.context.builder.cursor = none ∧ s.context.builder.journal.hostCalls = [] := by
      rw [hplain, hoptimised]
      simp [(tidy_fresh _ _ _ _).cursor, hostCalls_fresh]
    intro s hs
    obtain ⟨hcursor, hcalls⟩ := hstarts s hs
    have htranscript := transcript_eq_handleAll hcursor items
    rw [hcalls, List.nil_append] at htranscript
    exact htranscript
  · have hcarries : ∀ signature, .declaration signature ∈ Program.provided host ++ items →
        HostCarries ZeroLike signature.name := fun signature hmem =>
      hostCarries_zeroLike fun h hh hname => hzeros h hh ⟨signature, hmem, hname⟩
    refine transcript_like tolerance_zeroLike (hparallel _ fun h hh =>
      ?_) hevaluate.1 hevaluate.2
      hbound (fun signature hmem => hcarries signature (List.mem_append_right _ hmem))
        haffordable
      (haffordable.mono fun _ _ _ _ _ _ _ => agreeing_zeroLike _)
    exact hcarries h.signature (List.mem_append_left _ (List.mem_map_of_mem hh))
  · refine (transcript_like .eq (hparallel _ fun h _ => hostCarries_eq _)
      hevaluate.1 hevaluate.2
      hbound (fun signature _ => hostCarries_eq _) haffordable ?_).imp
      fun p q hlike hends => (hlike hends).eq
    exact hapart.mono fun _ _ h f hf g hg => agreeing_of_zerosApart (h f hf g hg)

/-- Zeros with different signs meet in a phi. -/
def oppositeZeros : List Item :=
  [.expression (.cond (.number 0.0) (.number 0.0) (.number (-0.0)))]

theorem optimisation_loses_sign :
    transcript (.fresh ⟨false, true, 1024, 10000000⟩ .standard false true) oppositeZeros =
        [(.ok (.evaluated (-0.0)), [])] ∧
      transcript (.fresh ⟨true, true, 1024, 10000000⟩ .standard false true) oppositeZeros =
        [(.ok (.evaluated 0.0), [])] ∧
      (0.0 : Float) ≠ -0.0 := by
  decide +kernel

/-- A branch that is known, a phi that merges one constant, a host call and an error. -/
def branching : List Item :=
  [.definition ⟨⟨"pick", ["x"]⟩,
      .cond (.binary '<' (.number 1.0) (.number 2.0))
        (.binary '+' (.call "printd" [.var "x"]) (.number 2.0)) (.number (-0.0))⟩,
    .definition ⟨⟨"same", ["x"]⟩, .cond (.var "x") (.number 3.0) (.number 3.0)⟩,
    .expression (.binary '+' (.call "pick" [.number 4.0]) (.call "same" [.number 0.0])),
    .expression (.var "y")]

theorem branching_unobservable :
    transcript (.fresh ⟨false, true, 1024, 10000000⟩ .standard true true) branching =
        [(.ok (.defined "pick"), []), (.ok (.defined "same"), []),
          (.ok (.evaluated 5.0), [⟨"printd", [4.0]⟩]),
            (.error (.lower (.unknownVariable "y")), [])] ∧
      List.Forall₂ (fun p q => (∀ limit, p.1 ≠ .error (.exec (.stepLimit limit))) → q = p)
        (transcript (.fresh ⟨false, true, 1024, 10000000⟩ .standard true true) branching)
        (transcript (.fresh ⟨true, true, 1024, 10000000⟩ .standard true true) branching) ∧
      List.Forall₂
        (fun p q => (∀ limit, p.1 ≠ .error (.exec (.stepLimit limit))) →
          EntryLike ZeroLike p q)
        (transcript (.fresh ⟨false, true, 1024, 10000000⟩ .standard false true)
          oppositeZeros)
        (transcript (.fresh ⟨true, true, 1024, 10000000⟩ .standard false true)
          oppositeZeros) := by
  refine ⟨by decide +kernel, ?_, ?_⟩
  · exact (optimisation_unobservable ⟨true, true, 1024, 10000000⟩ true branching rfl rfl
      (by decide +kernel) (by decide +kernel)).2.2 (by decide +kernel)
  · exact (optimisation_unobservable ⟨true, true, 1024, 10000000⟩ false
      oppositeZeros rfl rfl
      (by decide +kernel) (by decide +kernel)).2.1
      (by simp [oppositeZeros, Program.provided, HostFunction.provided])

end Session

end ScalarSsa
