import ScalarSsa.Proofs.Lowering.Definitions
import ScalarSsa.Proofs.Pass.Shape

/-!
# What comes of a definition

**Input.** A definition that is lowered in a context whose cursor is unset and whose
functions without a body are as they were declared.  The passes, if they run, may be any
that are gentle.

**Definitions.** A context is `Undone` to another one if only the number of functions
issued, the journal, the cursor and the scope may differ, and both are cleared.  It is
`Defined` if it has the function that a definition was lowered to, as the settings want it.

**Results.** `lowerDefinition_cases`: one of the two comes of every definition, and
`lowerSignature_cases` says the like of a signature.
-/

namespace ScalarSsa

namespace Context

/-- No function was issued, and settings and passes are as they were. -/
structure Kept (c d : Context) : Prop where
  issued : d.module.nextId = c.module.nextId
  settings : d.settings = c.settings
  passes : d.passes = c.passes

theorem Kept.trans
    {c d e : Context}
    (h : c.Kept d)
    (h' : d.Kept e) :
    c.Kept e :=
  ⟨h'.issued.trans h.issued, h'.settings.trans h.settings, h'.passes.trans h.passes⟩

/-- What stays as it is from request to request. -/
structure Steady (c d : Context) : Prop where
  issued : c.module.nextId ≤ d.module.nextId
  cursor : d.builder.cursor = none
  settings : d.settings = c.settings
  passes : d.passes = c.passes

theorem Steady.trans
    {c d e : Context}
    (h : c.Steady d)
    (h' : d.Steady e) :
    c.Steady e :=
  ⟨Nat.le_trans h.issued h'.issued, h'.cursor, h'.settings.trans h.settings,
    h'.passes.trans h.passes⟩

end Context

/-! ## Functions that were worked on -/

namespace Context.Touched

variable {id : FuncId} {c d e : Context}

theorem refl
    (c : Context) :
    c.Touched id c :=
  ⟨fun f => f, c.builder.cursor, [], fun _ => rfl, by simp [Journal.Hostless], by
    simp [Module.mapFunction, Context.module]⟩

theorem trans
    (h : c.Touched id d)
    (h' : d.Touched id e) :
    c.Touched id e := by
  obtain ⟨change, cursor, events, hchange, hevents, rfl⟩ := h
  obtain ⟨change', cursor', events', hchange', hevents', rfl⟩ := h'
  have hid : ∀ f : Function, f.id = id → (change f).id = id :=
    fun f hf => (congrArg (·.1) (hchange f)).trans hf
  refine ⟨fun f => change' (change f), cursor', events' ++ events, fun f =>
    (hchange' _).trans (hchange f),
    hevents'.append hevents, ?_⟩
  rw [← Module.mapFunction_mapFunction change change' hid, List.append_assoc]
  rfl

theorem kept
    (h : c.Touched id d) :
    c.Kept d := by
  obtain ⟨change, cursor, events, -, -, rfl⟩ := h
  exact ⟨rfl, rfl, rfl⟩

theorem function?
    (h : c.Touched id d)
    {f : Function}
    (hf : c.module.function? id = some f) :
    ∃ g, d.module.function? id = some g ∧ g.header = f.header := by
  obtain ⟨change, cursor, events, hchange, -, rfl⟩ := h
  have hid : ∀ f : Function, f.id = id → (change f).id = id :=
    fun f hf => (congrArg (·.1) (hchange f)).trans hf
  refine ⟨change f, ?_, hchange f⟩
  change (c.module.mapFunction id change).function? id = _
  rw [Module.function?_mapFunction _ _ _ hid, hf, Option.map_some,
    if_pos (Module.id_of_function? hf)]

/-- An event is recorded. -/
theorem record
    {event : Event}
    (h : ∀ call, event ≠ .host call)
    (c : Context) :
    c.Touched id (c.mapBuilder (Builder.record event)) := by
  refine ⟨fun f => f, c.builder.cursor, [event], fun _ => rfl, ?_, ?_⟩
  · exact Journal.Hostless.cons (by simp [Journal.Hostless]) h
  · simp [Module.mapFunction, Context.module, mapBuilder, Builder.record]

end Context.Touched

/-! ## Checking and transforming -/

/-- The passes of the context are gentle, if its settings let them run. -/
def Context.Mild (c : Context) : Prop :=
  c.settings.optimize = true → ∀ pass ∈ c.passes, pass.Gentle

/-- A function as the settings want it. -/
def Context.settled (c : Context) (f : Function) : Function :=
  if c.settings.optimize = true then (Pipeline.run c.passes f).function else f

/-- The context with a function in the place of one. -/
def Context.put (c : Context) (id : FuncId) (f : Function) (notes : Journal) : Context :=
  { c with builder :=
    ⟨c.module.mapFunction id fun _ => f, c.builder.cursor, notes ++ c.builder.journal⟩ }

theorem Context.Mild.descends
    {c : Context}
    (h : c.Mild)
    (f : Function) :
    f.Descends (c.settled f) := by
  unfold settled
  split
  · next hoptimize => exact Pass.descends_pipeline (h hoptimize) f
  · exact .refl f

namespace Lowering

variable {c : Context} {id : FuncId} {f : Function}

theorem run_check_missing
    (hf : c.module.function? id = none) :
    (check id).run.run c =
      (.error (.vanished id),
        c.mapBuilder (Builder.record (.report (LowerError.vanished id).report))) := by
  rw [check, run_bind_ok (run_get c)]
  simp only [hf]
  rfl

theorem run_check_ok
    (hf : c.module.function? id = some f)
    (hverify : c.module.verify f = .ok ()) :
    (check id).run.run c = (.ok (), c) := by
  rw [check, run_bind_ok (run_get c)]
  simp only [hf, hverify]
  rfl

theorem run_check_error
    {e : Malformed}
    (hf : c.module.function? id = some f)
    (hverify : c.module.verify f = .error e) :
    (check id).run.run c =
      (.error (.malformed e),
        c.mapBuilder (Builder.record (.report (LowerError.malformed e).report))) := by
  rw [check, run_bind_ok (run_get c)]
  simp only [hf, hverify]
  rfl

theorem ensures_check
    (id : FuncId)
    (c : Context) :
    Ensures (check id) c fun _ d => d = c := by
  intro _ d hrun
  cases hf : c.module.function? id with
  | none => cases (run_check_missing hf).symm.trans hrun
  | some f =>
      cases hverify : c.module.verify f with
      | ok _ =>
          cases (run_check_ok hf hverify).symm.trans hrun
          rfl
      | error e => cases (run_check_error hf hverify).symm.trans hrun

theorem leaves_check
    (id : FuncId)
    (c : Context) :
    Leaves (check id) c (c.Touched id) := by
  unfold Leaves
  cases hf : c.module.function? id with
  | none =>
      rw [run_check_missing hf]
      exact .record (by rintro _ ⟨⟩) c
  | some f =>
      cases hverify : c.module.verify f with
      | ok _ =>
          rw [run_check_ok hf hverify]
          exact .refl c
      | error e =>
          rw [run_check_error hf hverify]
          exact .record (by rintro _ ⟨⟩) c

theorem ensures_checkWhen
    (wanted : Bool)
    (id : FuncId)
    (c : Context) :
    Ensures (checkWhen wanted id) c fun _ d => d = c := by
  cases wanted with
  | false => exact .pure rfl
  | true => exact ensures_check id c

theorem leaves_checkWhen
    (wanted : Bool)
    (id : FuncId)
    (c : Context) :
    Leaves (checkWhen wanted id) c (c.Touched id) := by
  cases wanted with
  | false => exact .pure (.refl c)
  | true => exact leaves_check id c

theorem run_optimize
    (hf : c.module.function? id = some f) :
    (optimize id).run c =
      ((), c.put id (Pipeline.run c.passes f).function
        (Pipeline.run c.passes f).journal) := by
  change ((), _) = _
  simp only [hf]
  rfl

theorem run_optimize_missing
    (hf : c.module.function? id = none) :
    (optimize id).run c = ((), c) := by
  change ((), _) = _
  simp only [hf]

theorem kept_optimize
    (id : FuncId)
    (c : Context) :
    c.Kept ((optimize id).run c).2 := by
  cases hf : c.module.function? id with
  | none =>
      rw [run_optimize_missing hf]
      exact ⟨rfl, rfl, rfl⟩
  | some f =>
      rw [run_optimize hf]
      exact ⟨rfl, rfl, rfl⟩

/-- Putting in what descends from a function is working on it. -/
theorem touched_put
    (hf : c.module.function? id = some f)
    {g : Function}
    (hheader : g.header = f.header)
    {notes : Journal}
    (hnotes : notes.Quiet) :
    c.Touched id (c.put id g notes) := by
  refine ⟨fun f => ⟨f.id, f.name, f.params, g.blocks, g.nextValue, g.nextBlock⟩,
    c.builder.cursor, notes, fun _ => rfl,
    hnotes.hostless, ?_⟩
  have hg : g = ⟨f.id, f.name, f.params, g.blocks, g.nextValue, g.nextBlock⟩ := by
    simp only [Function.header, Prod.mk.injEq] at hheader
    obtain ⟨hid, hname, hparams⟩ := hheader
    rw [← hid, ← hname, ← hparams]
  have hmap : (c.module.mapFunction id fun _ => g) = c.module.mapFunction id fun f =>
      ⟨f.id, f.name, f.params, g.blocks, g.nextValue, g.nextBlock⟩ :=
        Module.mapFunction_congr hf hg
  rw [Context.put, hmap]

/--
A function that is accepted before and after the pipeline becomes what the settings want.
-/
theorem ensures_settleBody
    (hf : c.module.function? id = some f) :
    Ensures (settleBody id) c fun _ d => ∃ notes, Journal.Quiet notes ∧
      d = c.put id (c.settled f) notes := by
  refine Ensures.get_bind ((ensures_checkWhen c.settings.verify id c).bind fun _ d hd => ?_)
  rw [hd]
  cases hoptimize : c.settings.optimize with
  | false =>
      refine .pure ⟨[], fun _ h => (by cases h), ?_⟩
      have hsame : (c.module.mapFunction id fun f => f) =
          c.module.mapFunction id fun _ => f :=
        Module.mapFunction_congr hf rfl
      simp only [Context.put, Context.settled, hoptimize, Bool.false_eq_true,
        if_false, ← hsame]
      simp [Module.mapFunction, Context.module]
  | true =>
      have hquiet := (Pipeline.run c.passes f).quiet_journal
      refine Ensures.lift_bind (run_optimize hf) ?_
      have hresult : c.put id (Pipeline.run c.passes f).function
          (Pipeline.run c.passes f).journal =
          c.put id (c.settled f) (Pipeline.run c.passes f).journal := by
        rw [Context.settled, if_pos hoptimize]
      rw [hresult]
      refine (ensures_checkWhen c.settings.verify id _).mono ?_
      rintro _ _ rfl
      exact ⟨_, hquiet, rfl⟩

theorem leaves_settleBody
    (hmild : c.Mild)
    (hf : c.module.function? id = some f) :
    Leaves (settleBody id) c (c.Touched id) := by
  refine Leaves.get_bind ((leaves_checkWhen c.settings.verify id c).bind fun _ d hd => ?_)
  cases hoptimize : c.settings.optimize with
  | false => exact .pure hd
  | true =>
      obtain ⟨g, hg, -⟩ := hd.function? hf
      have hpasses : d.passes = c.passes := by
        obtain ⟨change, cursor, events, -, -, rfl⟩ := hd
        rfl
      have hdescends := Pass.descends_pipeline (hmild hoptimize) g
      have hquiet := (Pipeline.run c.passes g).quiet_journal
      have hput := hd.trans (touched_put hg hdescends.header_eq hquiet)
      refine Leaves.lift_bind (run_optimize hg) ?_
      rw [hpasses]
      exact hput.trans (leaves_checkWhen c.settings.verify id _)

/-- Lowering a body issues no functions, whatever the passes do. -/
theorem leaves_lowerBody_kept
    (id : FuncId)
    (body : Expr)
    (hcursor : c.builder.cursor = none) :
    Leaves (lowerBody id body) c c.Kept := by
  have hcheck : ∀ (wanted : Bool) (d : Context), c.Kept d →
      Leaves (checkWhen wanted id) d c.Kept :=
    fun wanted d hd => hd.trans (leaves_checkWhen wanted id d).kept
  rw [lowerBody_eq]
  refine Leaves.bind (leaves_emitBody hcursor id body).kept fun _ d hd => ?_
  refine Leaves.get_bind ((hcheck d.settings.verify d hd).bind fun _ d' hd' => ?_)
  cases d.settings.optimize with
  | false => exact .pure hd'
  | true =>
      exact Leaves.lift_bind
        rfl (hcheck d.settings.verify _ (hd'.trans (kept_optimize id d')))

theorem leaves_lowerBody
    (hmild : c.Mild)
    (hcursor : c.builder.cursor = none)
    (hf : c.module.function? id = some f)
    (body : Expr) :
    Leaves (lowerBody id body) c (c.Touched id) := by
  rw [lowerBody_eq]
  refine (leaves_emitBody hcursor id body).bind fun _ d hd => ?_
  obtain ⟨g, hg, -⟩ := hd.function? hf
  refine hd.trans (leaves_settleBody ?_ hg)
  obtain ⟨change, cursor, events, -, -, rfl⟩ := hd
  exact hmild

/-! ## Undoing -/

theorem run_discard_some
    (id : FuncId)
    (params : List String)
    (c : Context) :
    ((discard id (some params)).run c).2 = { c with
      builder :=
        ⟨c.module.mapFunction id fun f => { f.clearBody with params := params }, none,
          c.builder.journal⟩
      scope := [] } :=
  rfl

theorem run_discard_none
    (hf : c.module.function? id = some f) :
    ∃ note, ((discard id none).run c).2 = { c with
      builder := ⟨c.module.erase f, none, .note note :: c.builder.journal⟩
      scope := [] } := by
  obtain ⟨note, hdelete⟩ := Builder.run_delete? (b := { c.builder with cursor := none }) hf
  refine ⟨note, ?_⟩
  have hrun : ((discard id none).run c).2 = { c with
      builder := ((Builder.delete? id).run { c.builder with cursor := none }).2
      scope := [] } := rfl
  rw [hrun, hdelete]
  rfl

theorem run_discard_missing
    (hf : c.module.function? id = none) :
    ((discard id none).run c).2 =
      { c with builder := { c.builder with cursor := none }, scope := [] } := by
  have hdelete := Builder.run_delete?_missing (b := { c.builder with cursor := none }) hf
  have hrun : ((discard id none).run c).2 = { c with
      builder := ((Builder.delete? id).run { c.builder with cursor := none }).2
      scope := [] } := rfl
  rw [hrun, hdelete]

theorem kept_discard
    (id : FuncId)
    (previous : Option (List String))
    (c : Context) :
    c.Kept ((discard id previous).run c).2 ∧
      ((discard id previous).run c).2.builder.cursor = none := by
  cases previous with
  | some params => exact ⟨⟨rfl, rfl, rfl⟩, rfl⟩
  | none =>
      cases hf : c.module.function? id with
      | some f =>
          obtain ⟨note, hrun⟩ := run_discard_none hf
          rw [hrun]
          exact ⟨⟨rfl, rfl, rfl⟩, rfl⟩
      | none =>
          rw [run_discard_missing hf]
          exact ⟨⟨rfl, rfl, rfl⟩, rfl⟩

/--
Erasing a function that was declared last, whatever body it has by now, leaves the
functions before it.
-/
theorem erase_declared
    {m : Module}
    (hm : m.Coherent)
    {s : Signature}
    (hfree : m.find? s.name = none)
    (hbound : m.nextId < UInt32.size)
    {change : Function → Function}
    {g : Function}
    (hg : change (.declaration m.freshId s.name s.params) = g)
    (hheader : g.header = (m.freshId, s.name, s.params)) :
    ((m.declare s.name s.params).mapFunction m.freshId change).erase g =
      { m with nextId := m.nextId + 1 } := by
  have hid : g.id = m.freshId := congrArg (·.1) hheader
  have hname : g.name = s.name := congrArg (fun header => header.2.1) hheader
  have hold : ∀ f ∈ m.functions, f.id ≠ m.freshId := by
    intro f hf heq
    have hlt := hm.below f hf
    rw [heq, Module.freshId, FuncId.number_ofCount hbound] at hlt
    exact Nat.lt_irrefl _ hlt
  have hchanged :
      Module.changeFirst m.freshId
        change (m.functions ++ [.declaration m.freshId s.name s.params]) =
      m.functions ++ [g] := by
    rw [Module.changeFirst_append_of_ne hold, ← hg]
    simp [Module.changeFirst, Function.declaration]
  simp only [Module.erase, Module.mapFunction, Module.declare, hchanged, hid, hname,
    Module.mk.injEq]
  refine ⟨?_, ?_, trivial⟩
  · rw [List.eraseP_append_right _ fun f hf => by simpa using hold f hf]
    simp [hid]
  · rw [List.filter_append, List.filter_eq_self.2 fun entry hentry => ?_]
    · simp
    · rw [hm.names_eq] at hentry
      obtain ⟨f, hf, rfl⟩ := List.mem_map.1 hentry
      simpa using hm.find?_eq_none_iff.1 hfree f hf

/-- Undoing a definition restores the module that its signature was installed in. -/
theorem Installed.run_discard
    {m : Module}
    {s : Signature}
    (h : Installed m s id c.module)
    (hm : m.Coherent)
    (hpristine : Pristine m)
    (hbound : m.nextId < UInt32.size)
    (hvalid : signatureError? m s = none)
    {d : Context}
    (htouched : c.Touched id d) :
    ∃ notes, Journal.Quiet notes ∧ ((discard id (previous? m s.name)).run d).2 = { d with
      builder := ⟨{ m with nextId := c.module.nextId }, none, notes ++ d.builder.journal⟩
      scope := [] } := by
  obtain ⟨change, cursor, events, hchange, -, rfl⟩ := htouched
  rcases h with ⟨hfree, rfl, hdeclared⟩ | ⟨hname, hinstalled⟩
  · have hdecl : c.module.function? m.freshId =
        some (.declaration m.freshId s.name s.params) :=
      (Installed.function?_eq (.inl ⟨hfree, rfl, hdeclared⟩) hm hpristine hbound hvalid).2
    have hid : ∀ f : Function, f.id = m.freshId → (change f).id = m.freshId :=
      fun f hf => (congrArg (·.1) (hchange f)).trans hf
    have hfunction : (c.module.mapFunction m.freshId change).function? m.freshId =
        some (change (.declaration m.freshId s.name s.params)) := by
      rw [Module.function?_mapFunction _ _ _ hid, hdecl]
      simp [Function.declaration]
    obtain ⟨note, hrun⟩ := run_discard_none (c := { c with
      builder :=
        ⟨c.module.mapFunction m.freshId change, cursor, events ++ c.builder.journal⟩ })
        hfunction
    refine ⟨[.note note], Journal.Quiet.cons (fun _ h => by cases h) _, ?_⟩
    have herase := erase_declared hm hfree hbound rfl (hchange _)
    rw [← hdeclared] at herase
    have hnext : c.module.nextId = m.nextId + 1 := by rw [hdeclared]; rfl
    rw [previous?, hfree, Option.map_none, hrun, hnext, ← herase]
    rfl
  · obtain ⟨f, hf, hfname, rfl⟩ := hm.find?_eq_some_iff.1 hname
    have hfunction := hm.function?_eq_some_iff.2 ⟨hf, rfl⟩
    have hbody := ((of_signatureError?_eq_none hvalid).2 f.id f hname hfunction).1
    have hprevious : previous? m s.name = some f.params := by
      simp [previous?, hname, hfunction]
    have hrestored : ((c.module.mapFunction f.id change).mapFunction f.id fun g =>
        { g.clearBody with params := f.params }) = m := by
      have hid : ∀ g : Function, g.id = f.id →
          ({ g with params := s.params } : Function).id = f.id := fun _ hg => hg
      have hid' : ∀ g : Function, g.id = f.id →
          (change { g with params := s.params }).id = f.id :=
        fun g hg => (congrArg (·.1) (hchange { g with params := s.params })).trans hg
      rw [hinstalled, Module.mapFunction_mapFunction _ _ hid,
        Module.mapFunction_mapFunction _ _ hid']
      have hsame :
          ({ (change { f with params := s.params }).clearBody with params := f.params } :
            Function) = f := by
        have hheader := hchange { f with params := s.params }
        simp only [Function.header, Prod.mk.injEq] at hheader
        conv_rhs => rw [hpristine f hf hbody]
        simp [Function.clearBody, Function.declaration, hheader]
      have hmap :
          (m.mapFunction f.id fun g =>
            { (change { g with params := s.params }).clearBody with params := f.params }) =
          m.mapFunction f.id fun g => g := Module.mapFunction_congr hfunction hsame
      rw [hmap]
      simp [Module.mapFunction]
    refine ⟨[], fun _ h => (by cases h), ?_⟩
    have hnext : c.module.nextId = m.nextId := by rw [hinstalled]; rfl
    rw [hprevious, run_discard_some, hnext]
    simp only [List.nil_append, Context.mk.injEq, Builder.mk.injEq, and_true]
    exact hrestored

/-! ## Definitions -/

end Lowering

open Lowering

/--
The context is as it was, but for the number of functions issued and the journal; cursor and
scope are cleared.
-/
def Context.Undone (c d : Context) : Prop :=
  ∃ issued events, c.module.nextId ≤ issued ∧ Journal.Hostless events ∧ d = { c with
    builder := ⟨{ c.module with nextId := issued }, none, events ++ c.builder.journal⟩
    scope := [] }

/--
The context has the function that a definition was lowered to, as the settings want it.
-/
def Context.Defined (def' : Definition) (id : FuncId) (c d : Context) : Prop :=
  signatureError? c.module def'.signature = none ∧ ∃ m f notes,
    Installed c.module def'.signature id m ∧
    Lowers m def' f ∧ f.id = id ∧ Journal.Quiet notes ∧ d = { c with
      builder := ⟨m.mapFunction id fun _ => c.settled f, none, notes ++ c.builder.journal⟩
      scope := Scope.bindParams [] 0 def'.signature.params }

namespace Lowering

section Definition

variable {c c₁ c₂ : Context} {d : Definition} {id : FuncId}
  {previous : Option (List String)} {e : LowerError}

theorem run_clearScope
    (c : Context) :
    (liftM (mapScope fun _ => []) : Lowering Unit).run.run c =
      (.ok (), { c with scope := [] }) :=
  rfl

theorem run_lowerDefinition_rejected
    (h : signatureError? c.module d.signature = some e) :
    (lowerDefinition d).run.run c =
      (.error e,
        { c with builder := c.builder.record (.report e.report), scope := [] }) := by
  have hdeclare := run_declareSignature_error (c := { c with scope := [] }) h
  rw [lowerDefinition, run_bind_ok (run_clearScope c), run_bind_error hdeclare]
  rfl

theorem run_lowerDefinition_failed
    (hdeclare : (declareSignature d.signature).run.run { c with scope := [] } =
      (.ok (id, previous), c₁))
    (hbody : (lowerBody id d.body).run.run c₁ = (.error e, c₂)) :
    (lowerDefinition d).run.run c = (.error e, ((discard id previous).run c₂).2) := by
  have hcatch : (tryCatch (lowerBody id d.body) fun e => do
      discard id previous
      throw e : Lowering Unit).run.run c₁ =
      (.error e, ((discard id previous).run c₂).2) := by
    rw [run_tryCatch_error hbody]
    rfl
  rw [lowerDefinition, run_bind_ok (run_clearScope c), run_bind_ok hdeclare,
    run_bind_error hcatch]

theorem run_lowerDefinition_done
    (hdeclare : (declareSignature d.signature).run.run { c with scope := [] } =
      (.ok (id, previous), c₁))
    (hbody : (lowerBody id d.body).run.run c₁ = (.ok (), c₂)) :
    ∃ note, (lowerDefinition d).run.run c =
      (.ok id,
        { c₂ with builder := ⟨c₂.module, none, .note note :: c₂.builder.journal⟩ }) := by
  have hcatch : (tryCatch (lowerBody id d.body) fun e => do
      discard id previous
      throw e : Lowering Unit).run.run c₁ =
      (.ok (), c₂) := by
    rw [run_tryCatch_ok hbody]
  rw [lowerDefinition, run_bind_ok (run_clearScope c), run_bind_ok hdeclare,
    run_bind_ok hcatch]
  exact ⟨_, rfl⟩

/-- Whatever the passes do, identifiers that were issued stay issued. -/
theorem steady_lowerDefinition
    (hcursor : c.builder.cursor = none)
    (d : Definition) :
    c.Steady ((lowerDefinition d).run.run c).2 := by
  cases hvalid : signatureError? c.module d.signature with
  | some e =>
      rw [run_lowerDefinition_rejected hvalid]
      exact ⟨Nat.le_refl _, hcursor, rfl, rfl⟩
  | none =>
      obtain ⟨id, m, notes, hdeclare, hinstalled, -⟩ :=
        run_declareSignature (c := { c with scope := [] }) hvalid
      let c₁ : Context := { c with
        builder := ⟨m, c.builder.cursor, notes ++ c.builder.journal⟩
        scope := Scope.bindParams [] 0 d.signature.params }
      have hkept : c₁.Kept ((lowerBody id d.body).run.run c₁).2 :=
        leaves_lowerBody_kept id d.body (c := c₁) hcursor
      have hissued : c.module.nextId ≤ c₁.module.nextId := hinstalled.nextId_le
      rcases hbody : (lowerBody id d.body).run.run c₁ with ⟨e | _, c₂⟩
      · rw [hbody] at hkept
        rw [run_lowerDefinition_failed hdeclare hbody]
        obtain ⟨hundone, hclear⟩ := kept_discard id (previous? c.module d.signature.name) c₂
        exact ⟨(hkept.trans hundone).issued ▸ hissued, hclear,
          (hkept.trans hundone).settings,
          (hkept.trans hundone).passes⟩
      · rw [hbody] at hkept
        obtain ⟨note, hrun⟩ := run_lowerDefinition_done hdeclare hbody
        rw [hrun]
        exact ⟨Nat.le_trans hissued hkept.issued.ge, rfl, hkept.settings, hkept.passes⟩

/-- The function at a site is in the place of its declaration. -/
theorem module_atSite
    {name : String}
    {params : List String}
    (hf : c.module.function? id = some (.declaration id name params))
    {s : Site}
    (hheader : s.func.header = (id, name, params))
    (notes : Journal) :
    (c.atSite s notes).module = c.module.mapFunction id (fun _ => s.func) ∧
      (c.atSite s notes).module.function? id = some s.func := by
  have hid : s.func.id = id := congrArg (·.1) hheader
  have hmodule : (c.atSite s notes).module = c.module.mapFunction id fun _ => s.func := by
    rw [← hid]
    rfl
  refine ⟨hmodule, ?_⟩
  rw [hmodule, Module.function?_mapFunction _ _ _ fun _ _ => hid, hf]
  simp [Function.declaration]

/-- What comes of a body that is lowered. -/
theorem ensures_lowerBody
    {name : String}
    {params : List String}
    (hf : c.module.function? id = some (.declaration id name params))
    (body : Expr) :
    Ensures (lowerBody id body) c fun _ d => ∃ o t notes, Journal.Quiet notes ∧
      Emits c.module c.scope [body] (.start (.declaration id name params)) [o] t ∧
      d.builder.module =
        c.module.mapFunction id (fun _ => c.settled (t.close (.ret o)).func) ∧
      d.builder.journal = notes ++ c.builder.journal ∧ d.scope = c.scope ∧
      d.passes = c.passes ∧
      d.settings = c.settings := by
  rw [lowerBody_eq]
  refine (ensures_emitBody hf body).bind ?_
  rintro _ _ ⟨o, t, notes, hnotes, hemits, rfl⟩
  have hheader : (t.close (.ret o)).func.header = (id, name, params) := hemits.header_eq
  have hid : (t.close (.ret o)).func.id = id := congrArg (·.1) hheader
  obtain ⟨hmodule, hfunction⟩ := module_atSite hf hheader notes
  refine (ensures_settleBody (c := c.atSite (t.close (.ret o)) notes) hfunction).mono ?_
  rintro _ _ ⟨later, hlater, rfl⟩
  refine ⟨o, t, later ++ notes, hlater.append hnotes, hemits, ?_, ?_, rfl, rfl, rfl⟩
  · simp only [Context.put, hmodule]
    exact Module.mapFunction_mapFunction _ _ fun _ _ => hid
  · simp only [Context.put, List.append_assoc]
    rfl

/-- Every definition is undone, or its function is in its place. -/
theorem lowerDefinition_cases
    (hm : c.module.Coherent)
    (hpristine : Pristine c.module)
    (hcursor : c.builder.cursor = none)
    (hbound : c.module.nextId < UInt32.size)
    (hmild : c.Mild)
    (d : Definition) :
    (∃ e c', (lowerDefinition d).run.run c = (.error e, c') ∧ c.Undone c') ∨
      ∃ id c', (lowerDefinition d).run.run c = (.ok id, c') ∧ c.Defined d id c' := by
  cases hvalid : signatureError? c.module d.signature with
  | some e =>
      refine .inl ⟨e, _, run_lowerDefinition_rejected hvalid, c.module.nextId,
        [.report e.report], Nat.le_refl _, ?_, ?_⟩
      · simp [Journal.Hostless]
      · rw [← hcursor]
        rfl
  | none =>
      obtain ⟨id, m, notes, hdeclare, hinstalled, hnotes⟩ :=
        run_declareSignature (c := { c with scope := [] }) hvalid
      obtain ⟨-, hf⟩ := hinstalled.function?_eq hm hpristine hbound hvalid
      let c₁ : Context := { c with
        builder := ⟨m, c.builder.cursor, notes ++ c.builder.journal⟩
        scope := Scope.bindParams [] 0 d.signature.params }
      rcases hbody : (lowerBody id d.body).run.run c₁ with ⟨e | _, c₂⟩
      · have htouched : c₁.Touched id c₂ := by
          have hleaves := leaves_lowerBody (c := c₁) hmild hcursor hf d.body
          rw [Leaves, hbody] at hleaves
          exact hleaves
        obtain ⟨later, hlater, hdiscard⟩ :=
          hinstalled.run_discard (c := c₁) hm hpristine hbound hvalid htouched
        refine .inl ⟨e, _, run_lowerDefinition_failed hdeclare hbody, m.nextId, ?_⟩
        obtain ⟨change, cursor, events, -, hevents, rfl⟩ := htouched
        refine ⟨later ++ events ++ notes, hinstalled.nextId_le,
          (hlater.hostless.append hevents).append hnotes.hostless,
          hdiscard.trans ?_⟩
        simp only [List.append_assoc, c₁]
        rfl
      · obtain ⟨o, t, later, hlater, hemits, hmodule, hjournal, hscope,
          hpasses, hsettings⟩ :=
          ensures_lowerBody (c := c₁) hf d.body _ _ hbody
        obtain ⟨note, hrun⟩ := run_lowerDefinition_done hdeclare hbody
        have hid : (t.close (.ret o)).func.id = id := congrArg (·.1) hemits.header_eq
        refine .inr ⟨id, _, hrun, hvalid, m, (t.close (.ret o)).func,
          .note note :: (later ++ notes), hinstalled,
          ⟨(of_signatureError?_eq_none hvalid).1, o, t, rfl, ?_⟩, hid,
            (hlater.append hnotes).cons note, ?_⟩
        · rw [hid]
          exact hemits
        · obtain ⟨⟨m₂, cursor₂, journal₂⟩, scope₂, passes₂, settings₂⟩ := c₂
          subst hmodule hjournal hscope hpasses hsettings
          simp only [List.cons_append, List.append_assoc, c₁]
          rfl

/-! ## Signatures -/

/-- A signature is installed, or nothing but the journal is new. -/
theorem lowerSignature_cases
    (c : Context)
    (s : Signature) :
    (∃ e, signatureError? c.module s = some e ∧
        (lowerSignature s).run.run c =
          (.error e, c.mapBuilder (Builder.record (.report e.report)))) ∨
      ∃ id m notes, signatureError? c.module s = none ∧ Installed c.module s id m ∧
        Journal.Quiet notes ∧
        (lowerSignature s).run.run c = (.ok id, { c with
          builder := ⟨m, c.builder.cursor, notes ++ c.builder.journal⟩
          scope := c.scope.bindParams 0 s.params }) := by
  cases hvalid : signatureError? c.module s with
  | some e =>
      refine .inl ⟨e, rfl, ?_⟩
      rw [lowerSignature, run_bind_error (run_declareSignature_error hvalid)]
  | none =>
      obtain ⟨id, m, notes, hdeclare, hinstalled, hnotes⟩ := run_declareSignature hvalid
      refine .inr ⟨id, m, notes, rfl, hinstalled, hnotes, ?_⟩
      rw [lowerSignature, run_bind_ok hdeclare]
      rfl

theorem steady_lowerSignature
    (hcursor : c.builder.cursor = none)
    (s : Signature) :
    c.Steady ((lowerSignature s).run.run c).2 := by
  rcases lowerSignature_cases c s with ⟨e, -, hrun⟩ | ⟨id, m, notes, -, hinstalled, -, hrun⟩
  · rw [hrun]
    exact ⟨Nat.le_refl _, hcursor, rfl, rfl⟩
  · rw [hrun]
    exact ⟨hinstalled.nextId_le, hcursor, rfl, rfl⟩

end Definition

end Lowering

end ScalarSsa
