import ScalarSsa.Proofs.Lowering.Diagnoses

/-!
# Lowering into a module and into its counterpart

**Input.** Two contexts.  The functions of the second one are those of the first one with
their bodies changed, as the settings of the second one want it.

**Definitions.** `Module.transform` changes all functions of a module.  A `BodyChange`
changes bodies only.  Contexts are `Counterpart`s if the module of the second one is that of
the first one, transformed.

**Results.** `Emits.unique`: expressions are lowered in one way only.
`Counterpart.lowerDefinition`: in both contexts a definition has the same error, or it gets
the same identifier, and the modules correspond as before.
-/

namespace ScalarSsa

/-! ## Lowering has one result -/

section Unique

variable {m : Module} {scope : Scope}

/-- An expression is lowered by the rule for its form. -/
def EmitsAs (m : Module) (scope : Scope) (s : Site) (o : Operand) (t : Site) : Expr → Prop
  | .number x => o = .const x ∧ t = s
  | .var name => scope.find? name = some o ∧ t = s
  | .binary op lhs rhs =>
    ∃ x y u v, Emits m scope [lhs] s [x] u ∧ Emits m scope [rhs] u [y] v ∧
      ((∃ a, Arith.ofChar? op = some a ∧ o = .result v.next ∧ t = v.push (.arith a x y)) ∨
        op = '<' ∧ o = .result (v.push (.compare .ult x y)).next ∧
          t = (v.push (.compare .ult x y)).push (.promote (.result v.next)))
  | .call name args => ∃ id g xs u, m.find? name = some id ∧ m.function? id = some g ∧
      Emits m scope args s xs u ∧
      o = .result u.next ∧ t = u.push (.call id g.name xs)
  | .cond test thenBranch elseBranch => ∃ x y z u v w, Emits m scope [test] s [x] u ∧
      Emits m scope [thenBranch] (u.fork x) [y] v ∧
      Emits m scope [elseBranch] (v.moveTo (u.fresh 1)) [z] w ∧
      o = .result w.next ∧ t = u.join v w y z

theorem Emits.of_nil
    {s t : Site}
    {os : List Operand}
    (h : Emits m scope [] s os t) :
    os = [] ∧ t = s := by
  cases h with
  | nil => exact ⟨rfl, rfl⟩

theorem Emits.of_cons
    {e : Expr}
    {rest : List Expr}
    {s t : Site}
    {os : List Operand}
    (h : Emits m scope (e :: rest) s os t) :
    ∃ x xs u, os = x :: xs ∧ Emits m scope [e] s [x] u ∧ Emits m scope rest u xs t := by
  cases h with
  | cons hhead htail => exact ⟨_, _, _, rfl, hhead, htail⟩
  | number => exact ⟨_, _, _, rfl, .number, .nil⟩
  | var hname => exact ⟨_, _, _, rfl, .var hname, .nil⟩
  | arith hop hlhs hrhs => exact ⟨_, _, _, rfl, .arith hop hlhs hrhs, .nil⟩
  | less hlhs hrhs => exact ⟨_, _, _, rfl, .less hlhs hrhs, .nil⟩
  | call hname hcallee harity hargs =>
      exact ⟨_, _, _, rfl, .call hname hcallee harity hargs, .nil⟩
  | cond htest hthen helse => exact ⟨_, _, _, rfl, .cond htest hthen helse, .nil⟩

/-- One expression is lowered by its rule, however many times it was taken for a list. -/
theorem Emits.of_single
    {es : List Expr}
    {s t : Site}
    {os : List Operand}
    (h : Emits m scope es s os t)
    {e : Expr}
    (hes : es = [e]) :
    ∃ o, os = [o] ∧ EmitsAs m scope s o t e := by
  induction h with
  | nil => cases hes
  | cons _ htail ihhead _ =>
      cases hes
      obtain ⟨rfl, rfl⟩ := htail.of_nil
      exact ihhead rfl
  | number =>
      cases hes
      exact ⟨_, rfl, rfl, rfl⟩
  | var hname =>
      cases hes
      exact ⟨_, rfl, hname, rfl⟩
  | arith hop hlhs hrhs =>
      cases hes
      exact ⟨_, rfl, _, _, _, _, hlhs, hrhs, .inl ⟨_, hop, rfl, rfl⟩⟩
  | less hlhs hrhs =>
      cases hes
      exact ⟨_, rfl, _, _, _, _, hlhs, hrhs, .inr ⟨rfl, rfl, rfl⟩⟩
  | call hname hcallee _ hargs =>
      cases hes
      exact ⟨_, rfl, _, _, _, _, hname, hcallee, hargs, rfl, rfl⟩
  | cond htest hthen helse =>
      cases hes
      exact ⟨_, rfl, _, _, _, _, _, _, htest, hthen, helse, rfl, rfl⟩

/-- Expressions are lowered in one way only. -/
theorem Emits.unique
    {es : List Expr}
    {s t t' : Site}
    {os os' : List Operand}
    (h : Emits m scope es s os t)
    (h' : Emits m scope es s os' t') :
    os' = os ∧ t' = t := by
  have hless : Arith.ofChar? '<' = none := rfl
  induction h generalizing os' t' with
  | nil => exact h'.of_nil
  | cons _ _ ihhead ihtail =>
      obtain ⟨x, xs, u, rfl, hhead, htail⟩ := h'.of_cons
      obtain ⟨hx, rfl⟩ := ihhead hhead
      obtain ⟨rfl, rfl⟩ := ihtail htail
      cases hx
      exact ⟨rfl, rfl⟩
  | number =>
      obtain ⟨_, rfl, rfl, rfl⟩ := h'.of_single rfl
      exact ⟨rfl, rfl⟩
  | var hname =>
      obtain ⟨_, rfl, hname', rfl⟩ := h'.of_single rfl
      cases hname.symm.trans hname'
      exact ⟨rfl, rfl⟩
  | arith hop _ _ ihlhs ihrhs =>
      obtain ⟨_, rfl, x, y, u, v, hlhs, hrhs, hform⟩ := h'.of_single rfl
      obtain ⟨hx, rfl⟩ := ihlhs hlhs
      obtain ⟨hy, rfl⟩ := ihrhs hrhs
      cases hx
      cases hy
      rcases hform with ⟨a, ha, rfl, rfl⟩ | ⟨rfl, -⟩
      · cases hop.symm.trans ha
        exact ⟨rfl, rfl⟩
      · cases hless.symm.trans hop
  | less _ _ ihlhs ihrhs =>
      obtain ⟨_, rfl, x, y, u, v, hlhs, hrhs, hform⟩ := h'.of_single rfl
      obtain ⟨hx, rfl⟩ := ihlhs hlhs
      obtain ⟨hy, rfl⟩ := ihrhs hrhs
      cases hx
      cases hy
      rcases hform with ⟨a, ha, -⟩ | ⟨-, rfl, rfl⟩
      · cases hless.symm.trans ha
      · exact ⟨rfl, rfl⟩
  | call hname hcallee _ _ ihargs =>
      obtain ⟨_, rfl, id, g, xs, u, hname', hcallee', hargs, rfl, rfl⟩ := h'.of_single rfl
      cases hname.symm.trans hname'
      cases hcallee.symm.trans hcallee'
      obtain ⟨rfl, rfl⟩ := ihargs hargs
      exact ⟨rfl, rfl⟩
  | cond _ _ _ ihtest ihthen ihelse =>
      obtain ⟨_, rfl, x, y, z, u, v, w, htest, hthen, helse, rfl, rfl⟩ := h'.of_single rfl
      obtain ⟨hx, rfl⟩ := ihtest htest
      cases hx
      obtain ⟨hy, rfl⟩ := ihthen hthen
      cases hy
      obtain ⟨hz, rfl⟩ := ihelse helse
      cases hz
      exact ⟨rfl, rfl⟩

theorem Lowers.unique
    {d : Definition}
    {f f' : Function}
    (h : Lowers m d f)
    (h' : Lowers m d f')
    (hid : f'.id = f.id) :
    f' = f := by
  obtain ⟨o, t, hf, hemits⟩ := h.body
  obtain ⟨o', t', hf', hemits'⟩ := h'.body
  rw [hid] at hemits'
  obtain ⟨ho, rfl⟩ := hemits.unique hemits'
  cases ho
  rw [hf, hf']

end Unique

open Lowering

/-! ## Transformed modules -/

/-- A change that works on bodies only. -/
structure BodyChange (change : Function → Function) : Prop where
  header_eq : ∀ f, (change f).header = f.header
  hasBody_eq : ∀ f, (change f).hasBody = f.hasBody
  bare : ∀ f, f.hasBody = false → change f = f

/-- The module with all functions changed. -/
def Module.transform (m : Module) (change : Function → Function) : Module :=
  { m with functions := m.functions.map change }

/-- A change that leaves the functions as they are leaves the module as it is. -/
theorem Module.transform_of_eq
    {m : Module}
    {change : Function → Function}
    (h : ∀ f ∈ m.functions, change f = f) :
    m.transform change = m := by
  have hfunctions : m.functions.map change = m.functions :=
    (List.map_congr_left h).trans (List.map_id _)
  simp only [transform, hfunctions]

namespace BodyChange

variable {change : Function → Function} (h : BodyChange change)

include h

theorem id_eq
    (f : Function) :
    (change f).id = f.id :=
  congrArg (·.1) (h.header_eq f)

theorem name_eq
    (f : Function) :
    (change f).name = f.name :=
  congrArg (fun header => header.2.1) (h.header_eq f)

theorem arity_eq
    (f : Function) :
    (change f).arity = f.arity :=
  congrArg (fun header => header.2.2.length) (h.header_eq f)

variable (m : Module)

theorem function?_transform
    (id : FuncId) :
    (m.transform change).function? id = (m.function? id).map change := by
  simp [Module.function?, Module.transform, List.find?_map, h.id_eq]

theorem existing?_transform
    (name : String) :
    existing? (m.transform change) name = existing? m name := by
  have hfind : (m.transform change).find? name = m.find? name := rfl
  unfold existing?
  rw [hfind]
  refine Option.map_congr fun id _ => ?_
  rw [h.function?_transform]
  cases m.function? id with
  | none => rfl
  | some f => simp [h.hasBody_eq, h.arity_eq]

theorem signatureError?_transform
    (s : Signature) :
    signatureError? (m.transform change) s = signatureError? m s := by
  simp only [signatureError?, h.existing?_transform]

/-- The faults of steps are found from the outside of functions. -/
theorem fault?_transform
    (s : Signature)
    (step : Step) :
    Step.fault? (m.transform change) s step = Step.fault? m s step := by
  have harity : ∀ name, s.arityOf? (m.transform change) name = s.arityOf? m name := by
    intro name
    simp [Signature.arityOf?, Module.transform, List.find?_map, Function.comp_def,
      h.name_eq, h.arity_eq]
  cases step with
  | callee name given => simp only [Step.fault?, harity]
  | title =>
      simp [Step.fault?, Module.transform, Function.comp_def, h.name_eq, h.hasBody_eq]
  | arity =>
      simp [Step.fault?, Module.transform, List.findSome?_map, Function.comp_def,
        h.name_eq, h.arity_eq]
  | _ => rfl

theorem violation?_transform
    (d : Definition) :
    d.violation? (m.transform change) = d.violation? m := by
  simp only [Definition.violation?, funext (h.fault?_transform m d.signature)]

theorem performed_transform
    (d : Definition) :
    d.performed (m.transform change) = d.performed m := by
  simp only [Definition.performed, funext (h.fault?_transform m d.signature)]

theorem grows_transform :
    (m.transform change).Grows m := by
  refine ⟨fun _ _ hname => hname, fun id f hf => ?_⟩
  rw [h.function?_transform] at hf
  obtain ⟨g, hg, rfl⟩ := Option.map_eq_some_iff.1 hf
  exact ⟨g, hg, (h.name_eq g).symm, (h.arity_eq g).symm⟩

theorem mapFunction_transform
    (id : FuncId)
    (f : Function) :
    (m.mapFunction id fun _ => f).transform change =
      (m.transform change).mapFunction id fun _ => change f := by
  simp only [Module.transform, Module.mapFunction, Module.mk.injEq, and_true]
  symm
  refine Module.changeFirst_map (fun g _ => by rw [h.id_eq]) ?_
  intro g _ _
  rfl

theorem erase_transform
    (f : Function) :
    (m.erase f).transform change = (m.transform change).erase (change f) := by
  simp [Module.transform, Module.erase, List.eraseP_map, Function.comp_def,
    h.id_eq, h.name_eq]

variable {m}

theorem tidy_transform
    (hm : m.Tidy) :
    (m.transform change).Tidy := by
  refine ⟨⟨?_, ?_, ?_, ?_⟩, ?_⟩
  · simpa [Module.transform, Function.comp_def, h.id_eq] using hm.coherent.ids_nodup
  · simpa [Module.transform, Function.comp_def, h.name_eq] using hm.coherent.names_nodup
  · simpa [Module.transform, Function.comp_def, h.id_eq,
      h.name_eq] using hm.coherent.names_eq
  · intro g hg
    obtain ⟨f, hf, rfl⟩ := List.mem_map.1 hg
    rw [h.id_eq]
    exact hm.coherent.below f hf
  · intro g hg hbody
    obtain ⟨f, hf, rfl⟩ := List.mem_map.1 hg
    rw [h.hasBody_eq] at hbody
    rw [h.bare f hbody]
    exact hm.pristine f hf hbody

/--
A signature is installed in a module as in the transformed one, since functions without a
body are not changed.
-/
theorem installed_transform
    (hm : m.Coherent)
    {s : Signature}
    (hvalid : signatureError? m s = none)
    {id : FuncId}
    {m' : Module}
    (hinstalled : Installed m s id m') :
    Installed (m.transform change) s id (m'.transform change) := by
  rcases hinstalled with ⟨hfree, rfl, rfl⟩ | ⟨hname, rfl⟩
  · refine .inl ⟨hfree, rfl, ?_⟩
    have hdecl : change (.declaration m.freshId s.name s.params) =
        .declaration m.freshId s.name s.params :=
      h.bare _ rfl
    simp only [Module.transform, Module.declare, List.map_append, List.map_cons,
      List.map_nil, hdecl]
    rfl
  · refine .inr ⟨hname, ?_⟩
    simp only [Module.transform, Module.mapFunction, Module.mk.injEq, and_true]
    refine (Module.changeFirst_map (fun f _ => by rw [h.id_eq]) fun f hf hid => ?_).symm
    have hfunction : m.function? id = some f := hm.function?_eq_some_iff.2 ⟨hf, hid⟩
    have hbody := ((of_signatureError?_eq_none hvalid).2 id f hname hfunction).1
    rw [h.bare f hbody]
    exact (h.bare { f with params := s.params } hbody).symm

end BodyChange

theorem Lowering.Installed.unique
    {m m₁ m₂ : Module}
    {s : Signature}
    {id₁ id₂ : FuncId}
    (h₁ : Installed m s id₁ m₁)
    (h₂ : Installed m s id₂ m₂) :
    id₂ = id₁ ∧ m₂ = m₁ := by
  rcases h₁ with ⟨hfree, rfl, rfl⟩ | ⟨hname, rfl⟩
  · rcases h₂ with ⟨-, rfl, rfl⟩ | ⟨hname, -⟩
    · exact ⟨rfl, rfl⟩
    · cases hfree.symm.trans hname
  · rcases h₂ with ⟨hfree, -⟩ | ⟨hname', rfl⟩
    · cases hfree.symm.trans hname
    · cases hname.symm.trans hname'
      exact ⟨rfl, rfl⟩

/-! ## Identifiers -/

/-- A lowered function has issued what the steps of its definition issue. -/
theorem Lowers.issues
    {m : Module}
    {d : Definition}
    {f : Function}
    (h : Lowers m d f) :
    f.nextBlock = Step.total Step.blocks d.steps ∧
      f.nextValue = Step.total Step.values d.steps := by
  obtain ⟨o, t, hf, hemits⟩ := h.body
  obtain ⟨hblocks, hvalues⟩ := hemits.issues
  simp only [Expr.stepsAll, List.append_nil] at hblocks hvalues
  have hentry :
      (Site.start (.declaration f.id d.signature.name d.signature.params)).func.nextBlock =
        1 ∧
      (Site.start (.declaration f.id d.signature.name d.signature.params)).func.nextValue =
        0 := ⟨rfl, rfl⟩
  rw [hentry.1] at hblocks
  rw [hentry.2] at hvalues
  have hissued : f.nextBlock = t.func.nextBlock ∧ f.nextValue = t.func.nextValue := by
    rw [hf]
    exact ⟨rfl, rfl⟩
  have hstart : Step.total Step.blocks [.title, .params, .arity, .entry] = 1 ∧
      Step.total Step.values [.title, .params, .arity, .entry] = 0 := ⟨rfl, rfl⟩
  rw [hissued.1, hissued.2, hblocks, hvalues, Definition.steps, Step.total_append,
    Step.total_append, hstart.1, hstart.2]
  exact ⟨rfl, rfl⟩

/--
A definition whose signature can be declared issues what its signature does, whatever
comes of its body.
-/
theorem issued_lowerDefinition
    {c : Context}
    (hcursor : c.builder.cursor = none)
    {d : Definition}
    (hvalid : signatureError? c.module d.signature = none) :
    ∃ id m, Installed c.module d.signature id m ∧
      ((lowerDefinition d).run.run c).2.module.nextId = m.nextId := by
  obtain ⟨id, m, notes, hdeclare, hinstalled, -⟩ :=
    run_declareSignature (c := { c with scope := [] }) hvalid
  refine ⟨id, m, hinstalled, ?_⟩
  let c₁ : Context := { c with
    builder := ⟨m, c.builder.cursor, notes ++ c.builder.journal⟩
    scope := Scope.bindParams [] 0 d.signature.params }
  have hkept : c₁.Kept ((lowerBody id d.body).run.run c₁).2 :=
    leaves_lowerBody_kept id d.body (c := c₁) hcursor
  rcases hbody : (lowerBody id d.body).run.run c₁ with ⟨e | _, c₂⟩
  · rw [hbody] at hkept
    rw [run_lowerDefinition_failed hdeclare hbody]
    exact (hkept.trans (kept_discard id (previous? c.module d.signature.name) c₂).1).issued
  · rw [hbody] at hkept
    obtain ⟨note, hrun⟩ := run_lowerDefinition_done hdeclare hbody
    rw [hrun]
    exact hkept.issued

/-! ## Contexts -/

namespace Context

/-- A function with its body as the settings want it. -/
def bodies (c : Context) (f : Function) : Function :=
  if f.hasBody = true then c.settled f else f

/--
The second context has the functions of the first one, with their bodies as its
settings want them.
-/
structure Counterpart (c d : Context) : Prop where
  tidy : c.Tidy
  cursor : d.builder.cursor = none
  plain : c.settings.optimize = false
  passes_eq : c.passes = d.passes
  passes : ∀ pass ∈ d.passes, pass ∈ [Pass.folding, Pass.branches, Pass.unused]
  module : d.module = c.module.transform d.bodies

namespace Counterpart

variable {c d : Context} (h : c.Counterpart d)

include h

theorem mild :
    c.Mild ∧ d.Mild :=
  ⟨fun _ pass hpass => Pass.gentle_of_mem (h.passes pass (h.passes_eq ▸ hpass)),
    fun _ pass hpass => Pass.gentle_of_mem (h.passes pass hpass)⟩

theorem settled_eq
    (f : Function) :
    c.settled f = f := by
  simp [settled, h.plain]

theorem bodyChange :
    BodyChange d.bodies := by
  refine ⟨fun f => ?_, fun f => ?_, fun f hbody => ?_⟩
  · unfold bodies
    split
    · exact (h.mild.2.descends f).header_eq
    · rfl
  · unfold bodies
    split
    · exact (h.mild.2.descends f).hasBody_eq
    · rfl
  · simp [bodies, hbody]

theorem tidy' :
    d.Tidy :=
  ⟨h.module ▸ h.bodyChange.tidy_transform h.tidy.module, h.cursor⟩

theorem signatureError?_eq
    (s : Signature) :
    signatureError? d.module s = signatureError? c.module s := by
  rw [h.module, h.bodyChange.signatureError?_transform]

/-- A signature is installed alike. -/
theorem installed
    {s : Signature}
    (hvalid : signatureError? c.module s = none)
    {id id' : FuncId}
    {m m' : Module}
    (hinstalled : Installed c.module s id m)
    (hinstalled' : Installed d.module s id' m') :
    id' = id ∧ m' = m.transform d.bodies := by
  have htransformed :=
    h.bodyChange.installed_transform h.tidy.module.coherent hvalid hinstalled
  rw [← h.module] at htransformed
  exact htransformed.unique hinstalled'

/-- As many identifiers of functions are issued. -/
theorem nextId_lowerDefinition
    (def' : Definition) :
    ((lowerDefinition def').run.run d).2.module.nextId =
      ((lowerDefinition def').run.run c).2.module.nextId := by
  cases hvalid : signatureError? c.module def'.signature with
  | some e =>
      rw [run_lowerDefinition_rejected hvalid,
        run_lowerDefinition_rejected ((h.signatureError?_eq _).trans hvalid)]
      change d.module.nextId = c.module.nextId
      rw [h.module]
      rfl
  | none =>
      obtain ⟨id, m, hinstalled, hissued⟩ := issued_lowerDefinition h.tidy.cursor hvalid
      obtain ⟨id', m', hinstalled', hissued'⟩ :=
        issued_lowerDefinition h.cursor ((h.signatureError?_eq _).trans hvalid)
      rw [hissued, hissued', (h.installed hvalid hinstalled hinstalled').2]
      rfl

/-- A definition that is undone leaves counterparts. -/
theorem module_of_undone
    {c' d' : Context}
    (hundone : c.Undone c')
    (hundone' : d.Undone d')
    (hissued : d'.module.nextId = c'.module.nextId) :
    d'.module = c'.module.transform d.bodies := by
  obtain ⟨issued, events, -, -, rfl⟩ := hundone
  obtain ⟨issued', events', -, -, rfl⟩ := hundone'
  obtain rfl : issued' = issued := hissued
  change ({ d.module with nextId := issued' } : Module) = _
  rw [h.module]
  rfl

/-- A definition that is lowered leaves counterparts. -/
theorem module_of_defined
    {def' : Definition}
    {id id' : FuncId}
    {c' d' : Context}
    (hdefined : c.Defined def' id c')
    (hdefined' : d.Defined def' id' d') :
    id' = id ∧ d'.module = c'.module.transform d.bodies := by
  obtain ⟨hvalid, m, f, notes, hinstalled, hlowers, hid, -, rfl⟩ := hdefined
  obtain ⟨-, m', f', notes', hinstalled', hlowers', hid', -, rfl⟩ := hdefined'
  obtain ⟨rfl, rfl⟩ := h.installed hvalid hinstalled hinstalled'
  obtain rfl : f' = f :=
    hlowers.unique (hlowers'.mono (h.bodyChange.grows_transform m)) (hid'.trans hid.symm)
  have hbodies : d.settled f' = d.bodies f' := by
    simp [bodies, hlowers.hasBody]
  refine ⟨rfl, ?_⟩
  change (m.transform d.bodies).mapFunction id' (fun _ => d.settled f') =
    (m.mapFunction id' fun _ => c.settled f').transform d.bodies
  rw [h.settled_eq, hbodies, h.bodyChange.mapFunction_transform]

/-- The function that a definition was lowered to, and the functions beside it. -/
theorem function_of_defined
    (hbound : c.module.nextId < UInt32.size)
    {def' : Definition}
    {id : FuncId}
    {c' : Context}
    (hdefined : c.Defined def' id c') :
    ∃ m f, Lowers m def' f ∧ c'.module.function? id = some f ∧
      ∀ g ∈ c'.module.functions, g = f ∨ g ∈ c.module.functions := by
  obtain ⟨hvalid, m, f, notes, hinstalled, hlowers, hid, -, rfl⟩ := hdefined
  obtain ⟨hm, hf⟩ :=
    hinstalled.function?_eq h.tidy.module.coherent h.tidy.module.pristine hbound hvalid
  obtain ⟨hcoherent, -, -, hmem, hcases⟩ :=
    hinstalled.put h.tidy.module.coherent hm hf hvalid (hlowers.header_eq_of_id hid)
  refine ⟨m, f, hlowers, ?_, fun g hg => ?_⟩
  · change (m.mapFunction id fun _ => c.settled f).function? id = some f
    rw [h.settled_eq]
    exact hcoherent.function?_eq_some_iff.2 ⟨hmem, hid⟩
  · change g ∈ (m.mapFunction id fun _ => c.settled f).functions at hg
    rw [h.settled_eq] at hg
    rcases hcases g hg with rfl | ⟨hold, -⟩
    · exact .inl rfl
    · exact .inr hold

/-- In both contexts a definition has the same error or gets the same identifier. -/
theorem lowerDefinition
    (hbound : c.module.nextId < UInt32.size)
    (def' : Definition)
    (hblocks : Step.total Step.blocks (def'.performed c.module) ≤ UInt32.size)
    (hvalues : Step.total Step.values (def'.performed c.module) ≤ UInt32.size) :
    (∃ e c' d', (Lowering.lowerDefinition def').run.run c = (.error e, c') ∧
        (Lowering.lowerDefinition def').run.run d = (.error e, d') ∧
        c.Undone c' ∧ d.Undone d' ∧
        d'.module = c'.module.transform d.bodies) ∨
      def'.violation? c.module = none ∧ ∃ id c' d',
        (Lowering.lowerDefinition def').run.run c = (.ok id, c') ∧
        (Lowering.lowerDefinition def').run.run d = (.ok id, d') ∧ c.Defined def' id c' ∧
        d.Defined def' id d' ∧
        d'.module = c'.module.transform d.bodies := by
  have hbound' : d.module.nextId < UInt32.size := by
    rw [h.module]
    exact hbound
  have hperformed : def'.performed d.module = def'.performed c.module := by
    rw [h.module, h.bodyChange.performed_transform]
  have hreports :=
    reports_lowerDefinition h.tidy (h.passes_eq ▸ h.passes) hbound def' hblocks hvalues
  have hreports' :=
    reports_lowerDefinition h.tidy' h.passes hbound' def' (hperformed ▸ hblocks)
      (hperformed ▸ hvalues)
  rw [h.module, h.bodyChange.violation?_transform] at hreports'
  have hcases :=
    lowerDefinition_cases h.tidy.module.coherent h.tidy.module.pristine h.tidy.cursor
      hbound h.mild.1 def'
  have hcases' :=
    lowerDefinition_cases h.tidy'.module.coherent h.tidy'.module.pristine h.cursor
      hbound' h.mild.2 def'
  cases hviolation : def'.violation? c.module with
  | some e =>
      rw [hviolation] at hreports hreports'
      obtain ⟨c', hrun⟩ := hreports
      obtain ⟨d', hrun'⟩ := hreports'
      rcases hcases with ⟨e₁, c₁, hrun₁, hundone⟩ | ⟨id, c₁, hrun₁, -⟩
      · rcases hcases' with ⟨e₂, d₁, hrun₂, hundone'⟩ | ⟨id, d₁, hrun₂, -⟩
        · cases hrun.symm.trans hrun₁
          cases hrun'.symm.trans hrun₂
          have hissued := h.nextId_lowerDefinition def'
          rw [hrun, hrun'] at hissued
          exact .inl ⟨e, c', d', hrun, hrun', hundone, hundone',
            h.module_of_undone hundone hundone' hissued⟩
        · cases hrun'.symm.trans hrun₂
      · cases hrun.symm.trans hrun₁
  | none =>
      rw [hviolation] at hreports hreports'
      obtain ⟨id, c', hrun⟩ := hreports
      obtain ⟨id', d', hrun'⟩ := hreports'
      rcases hcases with ⟨e, c₁, hrun₁, -⟩ | ⟨id₁, c₁, hrun₁, hdefined⟩
      · cases hrun.symm.trans hrun₁
      · rcases hcases' with ⟨e, d₁, hrun₂, -⟩ | ⟨id₂, d₁, hrun₂, hdefined'⟩
        · cases hrun'.symm.trans hrun₂
        · cases hrun.symm.trans hrun₁
          cases hrun'.symm.trans hrun₂
          obtain ⟨rfl, hmodule⟩ := h.module_of_defined hdefined hdefined'
          exact .inr ⟨rfl, _, c', d', hrun, hrun', hdefined, hdefined', hmodule⟩

end Counterpart

end Context

end ScalarSsa
