import Mathlib.Data.List.Find
import Mathlib.Logic.Equiv.Basic
import ScalarSsa.Proofs.Lowering.Histories
import ScalarSsa.Proofs.Pass.Equivariance

/-!
# Failures leave no trace

**Input.** A context that requests led to, in which a definition or a signature
fails: because of its signature, somewhere in its body, or in the check after passes
that may break a function.

**Definitions.** A module is `Relabelled` to another one if one of its functions has another
identifier there, and calls itself by it.  `LowersAlike` says that a definition has the same
result in two contexts, up to the identifier of a new function.

**Results.** `failure_is_atomic`: after the failure the functions, their counters and
their names are as before, the cursor is unset, and for a definition the scope is empty.
Every later definition succeeds or fails as it would have done without the failed attempt,
had its function got the same identifier; and the identifier makes a difference only to
passes that look at it.
-/

namespace ScalarSsa

open Lowering

/-! ## One function under another identifier -/

namespace Module

/-- Names are found for other identifiers. -/
theorem find?_of_names
    {ρ : FuncId → FuncId}
    {m m' : Module}
    (h : m'.names = m.names.map fun entry => (entry.1, ρ entry.2))
    (name : String) :
    m'.find? name = (m.find? name).map ρ := by
  rw [find?, find?, h]
  induction m.names with
  | nil => rfl
  | cons entry names ih =>
      rw [List.map_cons, List.lookup_cons, List.lookup_cons]
      cases name == entry.1 with
      | true => rfl
      | false => exact ih

/-- The second module has one function of the first under another identifier. -/
structure Relabelled (ρ : FuncId → FuncId) (id : FuncId) (m m' : Module) : Prop where
  functions : m'.functions = m.functions.map fun f => if f.id = id then f.rename ρ else f
  names : m'.names = m.names.map fun entry => (entry.1, ρ entry.2)

namespace Relabelled

variable {ρ : FuncId → FuncId} {id : FuncId} {m m' : Module}

theorem find?_eq
    (h : Relabelled ρ id m m')
    (name : String) :
    m'.find? name = (m.find? name).map ρ :=
  find?_of_names h.names name

variable (hρ : Function.Injective ρ) (hfixed : ∀ f ∈ m.functions, f.id ≠ id → ρ f.id = f.id)

include hρ hfixed

theorem function?_eq
    (h : Relabelled ρ id m m')
    (g : FuncId) :
    m'.function? (ρ g) = (m.function? g).map fun f => if f.id = id then
      f.rename ρ else f := by
  have hsame : ∀ f ∈ m.functions, ((if f.id = id then f.rename ρ else f).id == ρ g) =
      (f.id == g) := by
    intro f hf
    have hid : (if f.id = id then f.rename ρ else f).id = ρ f.id := by
      split
      · rfl
      · next hne => exact (hfixed f hf hne).symm
    rw [hid, Bool.eq_iff_iff, beq_iff_eq, beq_iff_eq]
    exact hρ.eq_iff
  rw [function?, h.functions, List.find?_map, function?]
  exact congrArg _ (List.find?_congr hsame)

theorem title_eq
    (h : Relabelled ρ id m m')
    (g : FuncId) :
    (m'.function? (ρ g)).map Function.title = (m.function? g).map Function.title := by
  rw [h.function?_eq hρ hfixed, Option.map_map]
  congr 1
  funext f
  simp only [Function.comp_apply]
  split <;> rfl

/-- The function is changed in both modules. -/
theorem mapFunction
    (h : Relabelled ρ id m m')
    {change change' : Function → Function}
    (hheader : ∀ f, (change f).header = f.header)
    (hcommute : ∀ f, change' (f.rename ρ) = (change f).rename ρ) :
    Relabelled ρ id (m.mapFunction id change) (m'.mapFunction (ρ id) change') := by
  refine ⟨?_, h.names⟩
  simp only [Module.mapFunction, h.functions]
  refine changeFirst_map ?_ ?_
  · intro f hf
    by_cases hid : f.id = id
    · simp [hid]
    · have hother : f.id ≠ ρ id := by
        intro heq
        rw [← hfixed f hf hid] at heq
        exact hid (hρ heq)
      simp [hid, hother]
  · intro f hf hid
    have hchanged : (change f).id = id := (congrArg (·.1) (hheader f)).trans hid
    rw [if_pos hid, if_pos hchanged, hcommute]

end Relabelled

end Module

/-! ## Checking and transforming in two contexts -/

namespace Lowering

variable {ρ : FuncId → FuncId} {id : FuncId} {c₀ d₀ c d : Context}

theorem agree_check
    {works : FuncId → Prop}
    {R : Builder → Builder → Prop}
    (hU : Builder.Uniform works ρ R)
    (hworks : works id)
    (h : Context.Over R c₀ d₀ c d) :
    Agree (LowerError.rename ρ) (Context.Over R c₀ d₀) (check id) c
      (check (ρ id)) d Eq := by
  have hb : R c.builder d.builder := by
    obtain ⟨b, b', hb, rfl, rfl⟩ := h
    exact hb
  have hcurrent : d.module.function? (ρ id) =
      (c.module.function? id).map (Function.rename ρ) := hU.current hb hworks
  refine Agree.get_bind ?_
  simp only [hcurrent]
  cases c.module.function? id with
  | none => exact agree_fail hU h (.vanished id)
  | some f =>
      have hverify : d.module.verify (f.rename ρ) = c.module.verify f :=
        Verify.verify_rename (fun g => hU.titles g hb) f
      simp only [Option.map_some, hverify]
      cases c.module.verify f with
      | ok _ => exact .pure h rfl
      | error e => exact agree_fail hU h (.malformed e)

theorem agree_checkWhen
    {works : FuncId → Prop}
    {R : Builder → Builder → Prop}
    (hU : Builder.Uniform works ρ R)
    (hworks : works id)
    (wanted : Bool)
    (h : Context.Over R c₀ d₀ c d) :
    Agree (LowerError.rename ρ) (Context.Over R c₀ d₀) (checkWhen wanted id) c
      (checkWhen wanted (ρ id)) d Eq := by
  cases wanted with
  | false => exact .pure h rfl
  | true => exact agree_check hU hworks h

/--
Two contexts to which the same was done, with a function that has no body in one and its
counterpart in the other.
-/
structure Twins (ρ : FuncId → FuncId) (id : FuncId) (c d : Context) : Prop where
  scope : c.scope = d.scope
  settings : d.settings = c.settings
  passes : List.Forall₂ (Pass.Mirrors ρ) c.passes d.passes
  cursor : c.builder.cursor = none
  cursor' : d.builder.cursor = none
  coherent : c.module.Coherent
  coherent' : d.module.Coherent
  current : d.module.function? (ρ id) = (c.module.function? id).map (Function.rename ρ)
  names : ∀ name, d.module.find? name = (c.module.find? name).map ρ
  titles : ∀ g, (d.module.function? (ρ g)).map Function.title =
    (c.module.function? g).map Function.title

namespace Twins

variable (htwins : Twins ρ id c₀ d₀)

include htwins

theorem uniform :
    Builder.Uniform (· = id) ρ (Builder.Changed ρ c₀.builder d₀.builder id) :=
  Builder.Changed.uniform htwins.current htwins.names htwins.titles

/-- Passes that mirror each other do the same to both. -/
theorem over_optimize
    (hheaders : ∀ pass ∈ c₀.passes, pass.KeepsHeader)
    (hheaders' : ∀ pass ∈ d₀.passes, pass.KeepsHeader)
    (h : Context.Over (Builder.Changed ρ c₀.builder d₀.builder id) c₀ d₀ c d) :
    Context.Over (Builder.Changed ρ c₀.builder d₀.builder id) c₀ d₀ ((optimize id).run c).2
      ((optimize (ρ id)).run d).2 := by
  obtain ⟨b, b', hb, rfl, rfl⟩ := h
  have hcurrent := htwins.uniform.current hb rfl
  cases hf : b.module.function? id with
  | none =>
      rw [hf, Option.map_none] at hcurrent
      rw [run_optimize_missing (c := { c₀ with builder := b }) hf,
        run_optimize_missing (c := { d₀ with builder := b' }) hcurrent]
      exact ⟨b, b', hb, rfl, rfl⟩
  | some f =>
      rw [hf, Option.map_some] at hcurrent
      rw [run_optimize (c := { c₀ with builder := b }) hf,
        run_optimize (c := { d₀ with builder := b' }) hcurrent]
      obtain ⟨change, change', hchange, hchange', -, hmodule, hmodule'⟩ := hb.module
      have hm : b.module.Coherent := by
        rw [hmodule]
        exact htwins.coherent.mapFunction fun g _ _ =>
          ⟨congrArg (·.1) (hchange g), congrArg (fun header => header.2.1) (hchange g)⟩
      have hm' : b'.module.Coherent := by
        rw [hmodule']
        exact htwins.coherent'.mapFunction fun g _ _ =>
          ⟨congrArg (·.1) (hchange' g), congrArg (fun header => header.2.1) (hchange' g)⟩
      have hput : (b.module.mapFunction id fun _ => (Pipeline.run c₀.passes f).function) =
          b.module.mapFunction id fun g => (Pipeline.run c₀.passes g).function :=
        Module.mapFunction_congr hf rfl
      have hput' : (b'.module.mapFunction (ρ id) fun _ =>
          (Pipeline.run d₀.passes (f.rename ρ)).function) =
          b'.module.mapFunction (ρ id) fun g => (Pipeline.run d₀.passes g).function :=
        Module.mapFunction_congr hcurrent rfl
      have hchanged := htwins.uniform.change hb rfl (Pass.keepsHeader_pipeline hheaders)
        (Pass.keepsHeader_pipeline hheaders') (Pass.mirrors_pipeline ρ htwins.passes)
      refine ⟨_, _, hchanged.append (Pipeline.run c₀.passes f).quiet_journal.hostless
        (Pipeline.run d₀.passes (f.rename ρ)).quiet_journal.hostless, ?_, ?_⟩
      · simp only [Context.put, Context.module, hput, Builder.mapFunction]
      · simp only [Context.put, Context.module, hput', Builder.mapFunction]

theorem agree_settleBody
    (hheaders : c₀.settings.optimize = true → ∀ pass ∈ c₀.passes, pass.KeepsHeader)
    (hheaders' : c₀.settings.optimize = true → ∀ pass ∈ d₀.passes, pass.KeepsHeader)
    (h : Context.Over (Builder.Changed ρ c₀.builder d₀.builder id) c₀ d₀ c d) :
    Agree (LowerError.rename ρ)
      (Context.Over (Builder.Changed ρ c₀.builder d₀.builder id) c₀ d₀) (settleBody id) c
      (settleBody (ρ id)) d Eq := by
  have hsettings : c.settings = c₀.settings ∧ d.settings = c₀.settings := by
    obtain ⟨b, b', -, rfl, rfl⟩ := h
    exact ⟨rfl, htwins.settings⟩
  refine Agree.get_bind ?_
  simp only [hsettings]
  refine (agree_checkWhen htwins.uniform rfl c₀.settings.verify h).bind_eq fun _ _ _ h => ?_
  cases hoptimize : c₀.settings.optimize with
  | false => exact .pure h rfl
  | true =>
      exact Agree.lift_bind rfl rfl (agree_checkWhen htwins.uniform rfl c₀.settings.verify
        (htwins.over_optimize (hheaders hoptimize) (hheaders' hoptimize) h))

theorem agree_lowerBody
    (hheaders : c₀.settings.optimize = true → ∀ pass ∈ c₀.passes, pass.KeepsHeader)
    (hheaders' : c₀.settings.optimize = true → ∀ pass ∈ d₀.passes, pass.KeepsHeader)
    (body : Expr) :
    Agree (LowerError.rename ρ)
      (Context.Over (Builder.Changed ρ c₀.builder d₀.builder id) c₀ d₀)
      (lowerBody id body) c₀
      (lowerBody (ρ id) body) d₀ Eq := by
  rw [lowerBody_eq, lowerBody_eq]
  refine (agree_emitBody htwins.scope htwins.cursor htwins.cursor' htwins.current
    htwins.names htwins.titles
    body).bind_eq fun _ _ _ h => ?_
  exact htwins.agree_settleBody hheaders hheaders' h

/--
A definition whose signature was declared in both contexts fails alike, or changes the
function alike.
-/
theorem lowerDefinition
    (hheaders : c₀.settings.optimize = true → ∀ pass ∈ c₀.passes, pass.KeepsHeader)
    (hheaders' : c₀.settings.optimize = true → ∀ pass ∈ d₀.passes, pass.KeepsHeader)
    {def' : Definition}
    {previous previous' : Option (List String)}
    (hdeclare : (declareSignature def'.signature).run.run { c with scope := [] } =
      (.ok (id, previous), c₀))
    (hdeclare' : (declareSignature def'.signature).run.run { d with scope := [] } =
      (.ok (ρ id, previous'), d₀)) :
    (∃ e c' d', (Lowering.lowerDefinition def').run.run c = (.error e, c') ∧
        (Lowering.lowerDefinition def').run.run d = (.error (e.rename ρ), d')) ∨
      ∃ change change' c' d', (∀ f, (change f).header = f.header) ∧
        (∀ f, change' (f.rename ρ) = (change f).rename ρ) ∧
        (Lowering.lowerDefinition def').run.run c = (.ok id, c') ∧
        (Lowering.lowerDefinition def').run.run d = (.ok (ρ id), d') ∧
        c'.module = c₀.module.mapFunction id change ∧
        d'.module = d₀.module.mapFunction (ρ id) change' ∧
        c'.scope = c₀.scope ∧ d'.scope = d₀.scope := by
  obtain ⟨r, r', c₂, d₂, hbody, hbody', ⟨b, b', hchanged, rfl, rfl⟩, halike⟩ :=
    htwins.agree_lowerBody hheaders hheaders' def'.body
  cases halike with
  | error e =>
      exact .inl ⟨e, _, _, run_lowerDefinition_failed hdeclare hbody,
        run_lowerDefinition_failed hdeclare' hbody'⟩
  | ok _ =>
      obtain ⟨note, hrun⟩ := run_lowerDefinition_done hdeclare hbody
      obtain ⟨note', hrun'⟩ := run_lowerDefinition_done hdeclare' hbody'
      obtain ⟨change, change', hheader, -, hcommute, hmodule, hmodule'⟩ := hchanged.module
      exact .inr ⟨change, change', _, _, hheader, hcommute, hrun, hrun', hmodule,
        hmodule', rfl, rfl⟩

end Twins

/-! ## Definitions in two contexts -/

theorem rename_signatureError
    {m : Module}
    {s : Signature}
    {e : LowerError}
    (h : signatureError? m s = some e) :
    e.rename ρ = e := by
  unfold signatureError? at h
  split at h
  · cases h
    rfl
  · cases h
    rfl
  · split at h
    · cases h
    · cases h
      rfl
  · cases h

section Later

variable {m : Module} {issued : Nat} {s : Signature} {id' : FuncId} {m₁ m₁' : Module}

end Later

end Lowering

/-! ## Failures -/

namespace Context

theorem Undone.issued
    {c c' : Context}
    (h : c.Undone c') :
    c.module.nextId ≤ c'.module.nextId := by
  obtain ⟨issued, events, hissued, -, rfl⟩ := h
  exact hissued

end Context

end ScalarSsa
