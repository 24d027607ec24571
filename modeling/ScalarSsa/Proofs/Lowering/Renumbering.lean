import ScalarSsa.Proofs.Lowering.Atomicity
import ScalarSsa.Proofs.Lowering.Counterparts
import ScalarSsa.Ssa.Text

/-!
# Lowering with other identifiers

**Input.** Two contexts, the second of which has the functions of the first under
other identifiers.

**Definitions.** Modules are `Renumbered` if they have the same functions and names in
the same order, up to an injective renaming of identifiers.  `Together` says of two
pairs of contexts that this holds after as before, and that the same number of
identifiers was issued.

**Results.** `Renumbered.lowerDefinition` and `Renumbered.lowerSignature`: the same
definition and the same signature fail alike or give like functions, if the next identifiers
correspond whenever one is issued.  `Renumbered.text_eq`: modules that differ in their
identifiers only are written alike.
-/

namespace ScalarSsa

open Lowering

/-! ## Texts -/

section Text

variable (ρ : FuncId → FuncId)

theorem InstrKind.text_rename
    (kind : InstrKind) :
    (kind.rename ρ).text = kind.text := by
  cases kind <;> rfl

theorem Block.lines_rename
    (b : Block) :
    (b.rename ρ).lines = b.lines := by
  have htext : ∀ i : Instr, (i.rename ρ).text = i.text := by
    intro i
    rw [Instr.text, Instr.text, Instr.kind_rename, InstrKind.text_rename, Instr.dest_rename]
  simp only [Block.lines, Block.id_rename, Block.label_rename, Block.term_rename,
    Block.instrs_rename, List.map_map,
    Function.comp_def, htext]

theorem Function.text_rename
    (f : Function) :
    (f.rename ρ).text = f.text := by
  have hheading : ∀ opening, (f.rename ρ).heading opening = f.heading opening :=
    fun _ => rfl
  simp only [Function.text, Function.lines, Function.hasBody_rename, hheading,
    Function.blocks_rename, List.flatMap_map,
    Block.lines_rename]

end Text

/-! ## Modules -/

namespace Module

/-- The second module has the functions of the first under other identifiers. -/
structure Renumbered (ρ : FuncId → FuncId) (m m' : Module) : Prop where
  functions : m'.functions = m.functions.map (Function.rename ρ)
  names : m'.names = m.names.map fun entry => (entry.1, ρ entry.2)

namespace Renumbered

variable {ρ : FuncId → FuncId} {m m' : Module}

theorem text_eq
    (h : Renumbered ρ m m') :
    m'.text = m.text := by
  rw [Module.text, Module.text, h.functions, List.map_map]
  exact congrArg _ (List.map_congr_left fun f _ => f.text_rename ρ)

theorem find?_eq
    (h : Renumbered ρ m m')
    (name : String) :
    m'.find? name = (m.find? name).map ρ :=
  find?_of_names h.names name

theorem declare
    (h : Renumbered ρ m m')
    (hfresh : ρ m.freshId = m'.freshId)
    (name : String)
    (params : List String) :
    Renumbered ρ (m.declare name params) (m'.declare name params) := by
  constructor
  · simp only [Module.declare, h.functions, List.map_append, List.map_cons,
      List.map_nil, ← hfresh]
    rfl
  · simp only [Module.declare, h.names, List.map_append, List.map_cons,
      List.map_nil, ← hfresh]

variable (hρ : Function.Injective ρ)

include hρ

theorem function?_eq
    (h : Renumbered ρ m m')
    (g : FuncId) :
    m'.function? (ρ g) = (m.function? g).map (Function.rename ρ) := by
  have hsame : ∀ f ∈ m.functions, ((f.rename ρ).id == ρ g) = (f.id == g) := by
    intro f _
    rw [Function.id_rename, Bool.eq_iff_iff, beq_iff_eq, beq_iff_eq]
    exact hρ.eq_iff
  rw [function?, h.functions, List.find?_map, function?]
  exact congrArg _ (List.find?_congr hsame)

theorem title_eq
    (h : Renumbered ρ m m')
    (g : FuncId) :
    (m'.function? (ρ g)).map Function.title = (m.function? g).map Function.title := by
  rw [h.function?_eq hρ, Option.map_map]
  rfl

theorem mapFunction
    (h : Renumbered ρ m m')
    (id : FuncId)
    {change change' : Function → Function}
    (hcommute : ∀ f, change' (f.rename ρ) = (change f).rename ρ) :
    Renumbered ρ (m.mapFunction id change) (m'.mapFunction (ρ id) change') := by
  refine ⟨?_, h.names⟩
  simp only [Module.mapFunction, h.functions]
  exact changeFirst_map (fun _ _ => hρ.eq_iff) fun f _ _ => hcommute f

theorem erase
    (h : Renumbered ρ m m')
    (f : Function) :
    Renumbered ρ (m.erase f) (m'.erase (f.rename ρ)) := by
  have hsame : ∀ g : Function, ((g.rename ρ).id == (f.rename ρ).id) = (g.id == f.id) := by
    intro g
    rw [Function.id_rename, Function.id_rename, Bool.eq_iff_iff, beq_iff_eq, beq_iff_eq]
    exact hρ.eq_iff
  constructor
  · simp only [Module.erase, h.functions, List.eraseP_map, Function.comp_def, hsame]
  · simp only [Module.erase, h.names, List.filter_map, Function.comp_def,
      Function.name_rename]

theorem signatureError?_eq
    (h : Renumbered ρ m m')
    (s : Signature) :
    signatureError? m' s = signatureError? m s := by
  have hexisting : existing? m' s.name = (existing? m s.name).map fun known =>
    (ρ known.1, known.2) := by
    unfold existing?
    rw [h.find?_eq]
    cases m.find? s.name with
    | none => rfl
    | some id =>
        simp only [Option.map_some, h.function?_eq hρ]
        cases m.function? id with
        | none => rfl
        | some f => simp
  unfold signatureError?
  rw [hexisting]
  rcases existing? m s.name with _ | ⟨id, _ | _, arity⟩
    <;> cases repeatedParam? [] s.params <;> rfl

/-- What a signature gets in both modules. -/
theorem installed
    (h : Renumbered ρ m m')
    {s : Signature}
    {id id' : FuncId}
    {m₁ m₁' : Module}
    (hinstalled : Installed m s id m₁)
    (hinstalled' : Installed m' s id' m₁')
    (hfresh : m'.nextId < m₁'.nextId → ρ m.freshId = m'.freshId) :
    id' = ρ id ∧ Renumbered ρ m₁ m₁' ∧ m₁'.nextId + m.nextId = m'.nextId + m₁.nextId := by
  have hfind := h.find?_eq s.name
  rcases hinstalled with ⟨hfree, rfl, rfl⟩ | ⟨hname, rfl⟩
  · rcases hinstalled' with ⟨-, rfl, rfl⟩ | ⟨hname', -⟩
    · have hnew := hfresh (Nat.lt_succ_self _)
      refine ⟨hnew.symm, h.declare hnew s.name s.params, ?_⟩
      change m'.nextId + 1 + m.nextId = m'.nextId + (m.nextId + 1)
      omega
    · rw [hname', hfree] at hfind
      cases hfind
  · rcases hinstalled' with ⟨hfree', -, -⟩ | ⟨hname', rfl⟩
    · rw [hfree', hname] at hfind
      cases hfind
    · rw [hname', hname] at hfind
      obtain rfl := Option.some.inj hfind
      exact ⟨rfl, h.mapFunction hρ id fun _ => rfl, rfl⟩

end Renumbered

end Module

/-! ## Contexts -/

namespace Context

/--
The second context has the functions of the first under other identifiers;
both are in order.
-/
structure Renumbered (ρ : FuncId → FuncId) (c d : Context) : Prop where
  tidy : c.Tidy
  tidy' : d.Tidy
  settings : d.settings = c.settings
  passes : d.passes = c.passes
  known : ∀ pass ∈ c.passes, pass ∈ [Pass.folding, Pass.branches, Pass.unused]
  module : Module.Renumbered ρ c.module d.module

/--
Both contexts have gone on to contexts whose functions correspond, and as many
identifiers were issued.
-/
structure Together (ρ : FuncId → FuncId) (c d c' d' : Context) : Prop where
  module : Module.Renumbered ρ c'.module d'.module
  issued : d'.module.nextId + c.module.nextId = d.module.nextId + c'.module.nextId

/-- A definition that fails leaves functions and names as they were. -/
theorem kept_of_failed
    {c c' : Context}
    (h : c.Tidy)
    (hmild : c.Mild)
    (hbound : c.module.nextId < UInt32.size)
    {def' : Definition}
    {e : LowerError}
    (hrun : (lowerDefinition def').run.run c = (.error e, c')) :
    c'.module.functions = c.module.functions ∧ c'.module.names = c.module.names := by
  rcases lowerDefinition_cases h.module.coherent h.module.pristine h.cursor
    hbound hmild def' with
    ⟨e', d, hfailed, issued, events, -, -, rfl⟩ | ⟨id, d, hdone, -⟩
  · cases hrun.symm.trans hfailed
    exact ⟨rfl, rfl⟩
  · cases hrun.symm.trans hdone

namespace Renumbered

variable {ρ : FuncId → FuncId} {c d : Context}

theorem mild
    (h : c.Renumbered ρ d) :
    c.Mild ∧ d.Mild := by
  have hgentle : ∀ pass ∈ c.passes, pass.Gentle := fun pass hpass =>
    Pass.gentle_of_mem (h.known pass hpass)
  exact ⟨fun _ => hgentle, fun _ => h.passes ▸ hgentle⟩

/-- What keeps settings and passes and leaves tables in order keeps contexts renumbered. -/
theorem step
    (h : c.Renumbered ρ d)
    {c' d' : Context}
    (hsteady : c.Steady c')
    (hsteady' : d.Steady d')
    (htidy : c'.Tidy)
    (htidy' : d'.Tidy)
    (hmodule : Module.Renumbered ρ c'.module d'.module) :
    c'.Renumbered ρ d' := by
  refine ⟨htidy, htidy', ?_, ?_, ?_, hmodule⟩
  · rw [hsteady.settings, hsteady'.settings, h.settings]
  · rw [hsteady.passes, hsteady'.passes, h.passes]
  · rw [hsteady.passes]
    exact h.known

variable (hρ : Function.Injective ρ)

include hρ

/-- A signature fails alike in both contexts, or gets corresponding functions. -/
theorem lowerSignature
    (h : c.Renumbered ρ d)
    (s : Signature)
    {r r' : Except LowerError FuncId}
    {c' d' : Context}
    (hrun : (Lowering.lowerSignature s).run.run c = (r, c'))
    (hrun' : (Lowering.lowerSignature s).run.run d = (r', d'))
    (hfresh : d.module.nextId < d'.module.nextId → ρ c.module.freshId = d.module.freshId) :
    Alike (LowerError.rename ρ) (fun id id' => id' = ρ id) r r' ∧ Together ρ c d c' d' := by
  have hsame := h.module.signatureError?_eq hρ s
  rcases lowerSignature_cases c s with ⟨e, he, hc⟩
    | ⟨id, m, notes, hvalid, hinstalled, -, hc⟩
  · rcases lowerSignature_cases d s with ⟨e', he', hd⟩ | ⟨id', m', notes', hvalid', -⟩
    · obtain rfl : e' = e := Option.some.inj (he'.symm.trans (hsame.trans he))
      cases hrun.symm.trans hc
      cases hrun'.symm.trans hd
      exact ⟨.error_self (rename_signatureError he), h.module, rfl⟩
    · cases hvalid'.symm.trans (hsame.trans he)
  · rcases lowerSignature_cases d s with ⟨e', he', -⟩
      | ⟨id', m', notes', -, hinstalled', -, hd⟩
    · cases he'.symm.trans (hsame.trans hvalid)
    · cases hrun.symm.trans hc
      cases hrun'.symm.trans hd
      obtain ⟨hid, hmodule, hissued⟩ := h.module.installed hρ hinstalled hinstalled' hfresh
      exact ⟨.ok hid, hmodule, hissued⟩

/-- A definition fails alike in both contexts, or gives corresponding functions. -/
theorem lowerDefinition
    (h : c.Renumbered ρ d)
    (hbound : c.module.nextId < UInt32.size)
    (hbound' : d.module.nextId < UInt32.size)
    (def' : Definition)
    {r r' : Except LowerError FuncId}
    {c' d' : Context}
    (hrun : (Lowering.lowerDefinition def').run.run c = (r, c'))
    (hrun' : (Lowering.lowerDefinition def').run.run d = (r', d'))
    (hfresh : d.module.nextId < d'.module.nextId → ρ c.module.freshId = d.module.freshId) :
    Alike (LowerError.rename ρ) (fun id id' => id' = ρ id) r r' ∧ Together ρ c d c' d' := by
  have hsame := h.module.signatureError?_eq hρ def'.signature
  cases hvalid : signatureError? c.module def'.signature with
  | some e =>
      cases hrun.symm.trans (run_lowerDefinition_rejected hvalid)
      cases hrun'.symm.trans (run_lowerDefinition_rejected (hsame.trans hvalid))
      exact ⟨.error_self (rename_signatureError hvalid), h.module, rfl⟩
  | none =>
      have hvalid' := hsame.trans hvalid
      obtain ⟨id, m, notes, hdeclare, hinstalled, -⟩ :=
        run_declareSignature (c := { c with scope := [] }) hvalid
      obtain ⟨id', m', notes', hdeclare', hinstalled', -⟩ :=
        run_declareSignature (c := { d with scope := [] }) hvalid'
      obtain ⟨hcoherent, -⟩ :=
        hinstalled.function?_eq h.tidy.module.coherent h.tidy.module.pristine hbound hvalid
      obtain ⟨hcoherent', -⟩ :=
        hinstalled'.function?_eq h.tidy'.module.coherent
          h.tidy'.module.pristine hbound' hvalid'
      have hissued : c'.module.nextId = m.nextId := by
        obtain ⟨id₁, m₁, hinstalled₁, hissued⟩ :=
          issued_lowerDefinition h.tidy.cursor hvalid
        rw [hrun] at hissued
        rw [hissued, (hinstalled.unique hinstalled₁).2]
      have hissued' : d'.module.nextId = m'.nextId := by
        obtain ⟨id₁, m₁, hinstalled₁, hissued⟩ :=
          issued_lowerDefinition h.tidy'.cursor hvalid'
        rw [hrun'] at hissued
        rw [hissued, (hinstalled'.unique hinstalled₁).2]
      obtain ⟨rfl, hmodule, hnext⟩ :=
        h.module.installed hρ hinstalled hinstalled' (hissued' ▸ hfresh)
      rw [← hissued, ← hissued'] at hnext
      have hmirrors : List.Forall₂ (Pass.Mirrors ρ) c.passes d.passes := by
        rw [h.passes]
        exact List.forall₂_same.2 fun pass hpass => Pass.blind_of_mem (h.known pass hpass) ρ
      have htwins : Twins ρ id
          { c with
            builder := ⟨m, c.builder.cursor, notes ++ c.builder.journal⟩
            scope := Scope.bindParams [] 0 def'.signature.params }
          { d with
            builder := ⟨m', d.builder.cursor, notes' ++ d.builder.journal⟩
            scope := Scope.bindParams [] 0 def'.signature.params } :=
        ⟨rfl, h.settings, hmirrors, h.tidy.cursor, h.tidy'.cursor, hcoherent, hcoherent',
          hmodule.function?_eq hρ id,
          hmodule.find?_eq, hmodule.title_eq hρ⟩
      rcases htwins.lowerDefinition (fun hoptimize pass hpass f =>
        (h.mild.1 hoptimize pass hpass f).header_eq)
          (fun hoptimize pass hpass f =>
            (h.mild.2 (h.settings ▸ hoptimize) pass hpass f).header_eq)
          hdeclare hdeclare' with
        ⟨e, c₂, d₂, hfailed, hfailed'⟩ |
        ⟨change, change', c₂, d₂, -, hcommute, hdone, hdone', hmodule₂, hmodule₂', -, -⟩
      · cases hrun.symm.trans hfailed
        cases hrun'.symm.trans hfailed'
        obtain ⟨hfunctions, hnames⟩ := kept_of_failed h.tidy h.mild.1 hbound hfailed
        obtain ⟨hfunctions', hnames'⟩ := kept_of_failed h.tidy' h.mild.2 hbound' hfailed'
        refine ⟨.error e, ⟨?_, ?_⟩, hnext⟩
        · rw [hfunctions', hfunctions, h.module.functions]
        · rw [hnames', hnames, h.module.names]
      · cases hrun.symm.trans hdone
        cases hrun'.symm.trans hdone'
        refine ⟨.ok rfl, ?_, hnext⟩
        rw [hmodule₂, hmodule₂']
        exact hmodule.mapFunction hρ id hcommute

end Renumbered

end Context

end ScalarSsa
