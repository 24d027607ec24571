import ScalarSsa.Proofs.Session.Items
import ScalarSsa.Proofs.Session.Start

/-!
# Modules and the programs they came from

**Input.** A session that has handled declarations and definitions without a failure.

**Definitions.** A module `Represents` items if its functions are what lowering makes of the
definitions among them, and the declared names without a definition have no body.

**Results.** Handling an item keeps the module in step with the items.
`call_eq_evaluation`: a call of a function of the module ends as the program evaluates,
unless the step limit cuts it off.
-/

namespace ScalarSsa

/-! ## Programs with one more item -/

namespace Program

theorem definition?_append_definition
    (items : List Item)
    (d : Definition)
    (name : String) :
    definition? (items ++ [.definition d]) name =
      (definition? items name).or (if d.signature.name = name then some d else none) := by
  simp only [definition?, List.findSome?_append, List.findSome?_cons, List.findSome?_nil]
  by_cases h : d.signature.name = name <;> simp [h]

theorem definition?_append_declaration
    (items : List Item)
    (s : Signature)
    (name : String) :
    definition? (items ++ [.declaration s]) name = definition? items name := by
  simp [definition?, List.findSome?_append]

theorem declaration?_append_definition
    (items : List Item)
    (d : Definition)
    (name : String) :
    declaration? (items ++ [.definition d]) name = declaration? items name := by
  simp [declaration?, List.findSome?_append]

theorem declaration?_append_declaration
    (items : List Item)
    (s : Signature)
    (name : String) :
    declaration? (items ++ [.declaration s]) name =
      (declaration? items name).or (if s.name = name then some s else none) := by
  simp only [declaration?, List.findSome?_append, List.findSome?_cons, List.findSome?_nil]
  by_cases h : s.name = name <;> simp [h]

end Program

/-! ## Modules of programs -/

open Program Lowering

/-- The functions of a module are those of the items, lowered. -/
structure Represents (items : List Item) (m : Module) : Prop where
  coherent : m.Coherent
  pristine : Pristine m
  known : ∀ name, (definition? items name).isSome ∨ (declaration? items name).isSome → ∃ id,
    m.find? name = some id
  defined : ∀ f ∈ m.functions, ∀ d, definition? items f.name = some d → Lowers m d f
  declared : ∀ f ∈ m.functions, definition? items f.name = none →
    f.hasBody = false ∧ ∃ s, declaration? items f.name = some s ∧ s.arity = f.arity

namespace Represents

variable {items : List Item} {m m' : Module} {s : Signature} {id : FuncId}

theorem empty :
    Represents [] Module.empty :=
  ⟨.empty, by simp [Pristine, Module.empty], by simp [definition?,
    declaration?], by simp [Module.empty],
    by simp [Module.empty]⟩

/--
A name that can still be declared has no definition, and is declared with the
same arity if at all.
-/
theorem of_valid
    (h : Represents items m)
    (hvalid : signatureError? m s = none) :
    definition? items s.name = none ∧ ∀ s', declaration? items s.name = some s' →
      s'.arity = s.arity := by
  have hbodiless : ∀ id, m.find? s.name = some id →
      ∃ f ∈ m.functions, f.name = s.name ∧ f.hasBody = false ∧ f.arity = s.arity := by
    intro id hid
    obtain ⟨f, hf, hname, rfl⟩ := h.coherent.find?_eq_some_iff.1 hid
    have hfunction := h.coherent.function?_eq_some_iff.2 ⟨hf, rfl⟩
    exact ⟨f, hf, hname, (of_signatureError?_eq_none hvalid).2 f.id f hid hfunction⟩
  have hundefined : definition? items s.name = none := by
    cases hd : definition? items s.name with
    | none => rfl
    | some d =>
        obtain ⟨id, hid⟩ := h.known s.name (.inl (by rw [hd]; rfl))
        obtain ⟨f, hf, hname, hbody, -⟩ := hbodiless id hid
        have hlowers := h.defined f hf d (hname ▸ hd)
        rw [hlowers.hasBody] at hbody
        cases hbody
  refine ⟨hundefined, fun s' hs' => ?_⟩
  obtain ⟨id, hid⟩ := h.known s.name (.inr (by rw [hs']; rfl))
  obtain ⟨f, hf, hname, -, harity⟩ := hbodiless id hid
  obtain ⟨-, s'', hs'', harity'⟩ := h.declared f hf (by rw [hname]; exact hundefined)
  rw [hname, hs'] at hs''
  cases hs''
  exact harity'.trans harity

theorem known_of_grows
    (h : Represents items m)
    (hgrows : m.Grows m')
    {name : String}
    (hname : (definition? items name).isSome ∨ (declaration? items name).isSome) :
    ∃ id, m'.find? name = some id := by
  obtain ⟨id, hid⟩ := h.known name hname
  exact ⟨id, hgrows.names name id hid⟩

/-- Declaring a signature. -/
theorem declare
    (h : Represents items m)
    (hbound : m.nextId < UInt32.size)
    (hvalid : signatureError? m s = none)
    (hinstalled : Installed m s id m') :
    Represents (items ++ [.declaration s]) m' := by
  obtain ⟨hm', hf⟩ := hinstalled.function?_eq h.coherent h.pristine hbound hvalid
  have hgrows := hinstalled.grows h.coherent hm' hvalid
  obtain ⟨hundefined, hsame⟩ := h.of_valid hvalid
  refine ⟨hm', ?_, ?_, ?_, ?_⟩
  · intro g hg hbody
    rcases hinstalled.mem_cases hm' hf hg with rfl | ⟨hg, -⟩
    · rfl
    · exact h.pristine g hg hbody
  · intro name hname
    rw [definition?_append_declaration, declaration?_append_declaration] at hname
    by_cases hs : s.name = name
    · exact ⟨id, hm'.find?_eq_some_iff.2 ⟨_, Module.mem_of_function? hf, hs, rfl⟩⟩
    · rw [if_neg hs, Option.or_none] at hname
      exact h.known_of_grows hgrows hname
  · intro g hg d hd
    rw [definition?_append_declaration] at hd
    rcases hinstalled.mem_cases hm' hf hg with rfl | ⟨hg, -⟩
    · change definition? items s.name = some d at hd
      rw [hundefined] at hd
      cases hd
    · exact (h.defined g hg d hd).mono hgrows
  · intro g hg hd
    rw [definition?_append_declaration] at hd
    rw [declaration?_append_declaration]
    rcases hinstalled.mem_cases hm' hf hg with rfl | ⟨hg, -, hname⟩
    · refine ⟨rfl, ?_⟩
      change ∃ s',
        (declaration? items s.name).or (if s.name = s.name then some s else none) =
          some s' ∧
        s'.arity = s.arity
      cases hs' : declaration? items s.name with
      | none => exact ⟨s, by simp, rfl⟩
      | some s' => exact ⟨s', rfl, hsame s' hs'⟩
    · rw [if_neg fun heq => hname heq.symm, Option.or_none]
      exact h.declared g hg hd

/-- Defining a function. -/
theorem define
    (h : Represents items m)
    (hbound : m.nextId < UInt32.size)
    {d : Definition}
    (hvalid : signatureError? m d.signature = none)
    (hinstalled : Installed m d.signature id m')
    {f : Function}
    (hlowers : Lowers m' d f)
    (hid : f.id = id) :
    Represents (items ++ [.definition d]) (m'.mapFunction id fun _ => f) := by
  obtain ⟨hm', hf⟩ := hinstalled.function?_eq h.coherent h.pristine hbound hvalid
  obtain ⟨hundefined, -⟩ := h.of_valid hvalid
  obtain ⟨hcoherent, hbody, hgrows, hmem, hcases⟩ :=
    hinstalled.put h.coherent hm' hf hvalid (hlowers.header_eq_of_id hid)
  have hfname := hlowers.header_eq.1
  refine ⟨hcoherent, ?_, ?_, ?_, ?_⟩
  · intro g hg hgbody
    rcases hcases g hg with rfl | ⟨hg, -⟩
    · rw [hlowers.hasBody] at hgbody
      cases hgbody
    · exact h.pristine g hg hgbody
  · intro name hname
    rw [definition?_append_definition, declaration?_append_definition] at hname
    by_cases hd : d.signature.name = name
    · exact ⟨id, hcoherent.find?_eq_some_iff.2 ⟨f, hmem, hfname.trans hd, hid⟩⟩
    · rw [if_neg hd, Option.or_none] at hname
      exact h.known_of_grows hgrows hname
  · intro g hg e he
    rw [definition?_append_definition] at he
    rcases hcases g hg with rfl | ⟨hg, -, hname⟩
    · rw [hfname, hundefined, if_pos rfl, Option.none_or] at he
      cases he
      exact hlowers.mono hbody
    · rw [if_neg fun heq => hname heq.symm, Option.or_none] at he
      exact (h.defined g hg e he).mono hgrows
  · intro g hg hnone
    rw [definition?_append_definition] at hnone
    rw [declaration?_append_definition]
    rcases hcases g hg with rfl | ⟨hg, -, hname⟩
    · rw [hfname, if_pos rfl, hundefined] at hnone
      cases hnone
    · rw [if_neg fun heq => hname heq.symm, Option.or_none] at hnone
      exact h.declared g hg hnone

/-- Declaring a host function whose name is free. -/
theorem provide
    (h : Represents items m)
    (hbound : m.nextId < UInt32.size)
    (host : HostFunction)
    (hfree : m.find? host.name = none) :
    Represents (items ++ [.declaration host.signature]) (m.provide host) := by
  have hinstalled : Installed m host.signature m.freshId (m.provide host) := by
    refine .inl ⟨hfree, rfl, ?_⟩
    simp only [Module.provide, hfree]
    rfl
  exact h.declare hbound (signatureError?_host hfree) hinstalled

/-- A fresh session has the functions with which a program starts. -/
theorem fresh
    (settings : Settings)
    (passes : Pipeline)
    (host evaluate : Bool) :
    Represents (provided host) (Session.fresh settings passes host evaluate).module := by
  rw [Session.module_fresh]
  cases host with
  | false => exact .empty
  | true =>
      have hsin := Represents.empty.provide (by decide) .sin rfl
      have hcos := hsin.provide (by decide) .cos (by decide)
      have hsqrt := hcos.provide (by decide) .sqrt (by decide)
      have hputchard := hsqrt.provide (by decide) .putchard (by decide)
      exact hputchard.provide (by decide) .printd (by decide)

end Represents

/-! ## Calls -/

/-- A call of a function of the module ends as the program evaluates. -/
theorem Represents.calls
    {items : List Item}
    {m : Module}
    (h : Represents items m)
    (hsmall : m.Small)
    (hpositions : ∀ f ∈ m.functions, f.arity ≤ UInt32.size)
    (limit remaining : Nat)
    {f : Function}
    (hf : f ∈ m.functions)
    {args : List Float}
    (hargs : f.arity = args.length) :
    ∃ steps, Machine.Calls m limit remaining f.id args
      ⟨steps, (Program.call items limit remaining f.name args).calls,
        (Program.call items limit remaining f.name args).result⟩ := by
  induction remaining generalizing f args with
  | zero => exact ⟨0, rfl⟩
  | succ remaining ih =>
      have hfunction := h.coherent.function?_eq_some_iff.2 ⟨hf, rfl⟩
      simp only [Machine.Calls, hfunction, Program.call]
      cases hd : definition? items f.name with
      | some d =>
          have hlowers := h.defined f hf d hd
          have harity : d.signature.arity = args.length := by
            rw [← hargs, Function.arity, hlowers.header_eq.2]
            rfl
          have hposition : d.signature.params.length ≤ UInt32.size :=
            hlowers.header_eq.2 ▸ hpositions f hf
          simp only [if_pos harity]
          refine hlowers.answers (hsmall.blocks f hf).le (hsmall.values f hf).le
            hposition ?_ hargs
          intro name id g xs hname hg hxs
          obtain ⟨hmem, rfl⟩ := h.coherent.function?_eq_some_iff.1 hg
          obtain ⟨g', hmem', rfl, hid⟩ := h.coherent.find?_eq_some_iff.1 hname
          obtain rfl := h.coherent.eq_of_id_eq hmem' hmem hid
          exact ih hmem hxs
      | none =>
          obtain ⟨hbody, s, hs, harity⟩ := h.declared f hf hd
          have hentry : Function.entry? f = none := by
            simpa [Function.hasBody, Function.entry?] using hbody
          simp only [hs, if_pos (harity.trans hargs), Machine.Answers, if_pos hargs, hentry]
          exact ⟨0, rfl⟩

/-! ## Sessions -/

namespace Session

/-- An item that is lowered and stays. -/
def IsKept : Item → Prop
  | .expression _ => False
  | _ => True

instance : DecidablePred IsKept
  | .definition _ => isTrue trivial
  | .declaration _ => isTrue trivial
  | .expression _ => isFalse id

/-- The context after an item that stays, if it was handled without a failure. -/
theorem of_handleNoting_ok
    {item : Item}
    (hkept : IsKept item)
    {s s' : Session}
    {o : Outcome}
    (h : (handleNoting item).run s = (.ok o, s')) :
    (∃ d id, item = .definition d ∧ (lowerDefinition d).run.run s.context =
      (.ok id, s'.context)) ∨
      ∃ g id, item = .declaration g ∧ (lowerSignature g).run.run s.context =
        (.ok id, s'.context) := by
  cases item with
  | definition d =>
      rcases hrun : (lowerDefinition d).run.run s.context with ⟨e | id, c⟩
      · obtain ⟨note, hnoting⟩ := run_handleNoting_error (run_definition_error hrun)
        cases h.symm.trans hnoting
      · cases h.symm.trans (run_handleNoting_ok (run_definition_ok hrun))
        exact .inl ⟨d, id, rfl, hrun⟩
  | declaration g =>
      rcases hrun : (lowerSignature g).run.run s.context with ⟨e | id, c⟩
      · obtain ⟨note, hnoting⟩ := run_handleNoting_error (run_declaration_error hrun)
        cases h.symm.trans hnoting
      · cases h.symm.trans (run_handleNoting_ok (run_declaration_ok hrun))
        exact .inr ⟨g, id, rfl, hrun⟩
  | expression e => exact hkept.elim

theorem steady_of_ok
    {item : Item}
    (hkept : IsKept item)
    {s s' : Session}
    {o : Outcome}
    (hcursor : s.context.builder.cursor = none)
    (h : (handleNoting item).run s = (.ok o, s')) :
    s.context.Steady s'.context := by
  rcases of_handleNoting_ok hkept h with ⟨d, id, -, hrun⟩ | ⟨g, id, -, hrun⟩
  · have hsteady := steady_lowerDefinition hcursor d
    rw [hrun] at hsteady
    exact hsteady
  · have hsteady := steady_lowerSignature hcursor g
    rw [hrun] at hsteady
    exact hsteady

/-- Handling an item keeps the module in step with the items. -/
theorem represents_of_ok
    {items : List Item}
    {item : Item}
    (hkept : IsKept item)
    {s s' : Session}
    {o : Outcome}
    (hcursor : s.context.builder.cursor = none)
    (hplain : s.context.settings.optimize = false)
    (hbound : s.module.nextId < UInt32.size)
    (hrep : Represents items s.module)
    (h : (handleNoting item).run s = (.ok o, s')) :
    Represents (items ++ [item]) s'.module := by
  rcases of_handleNoting_ok hkept h with ⟨d, id, rfl, hrun⟩ | ⟨g, id, rfl, hrun⟩
  · have hmild : s.context.Mild := fun hoptimize => by
      rw [hplain] at hoptimize
      cases hoptimize
    rcases lowerDefinition_cases hrep.coherent hrep.pristine hcursor hbound hmild d with
      ⟨e, c', hrun', -⟩ | ⟨id', c', hrun', hdefined⟩
    · cases hrun.symm.trans hrun'
    · cases hrun.symm.trans hrun'
      obtain ⟨hvalid, m, f, notes, hinstalled, hlowers, hid, -, hcontext⟩ := hdefined
      rw [Session.module, hcontext, Context.settled, hplain]
      exact hrep.define hbound hvalid hinstalled hlowers hid
  · rcases lowerSignature_cases s.context g with ⟨e, -, hrun'⟩
      | ⟨id', m, notes, hvalid, hinstalled, -, hrun'⟩
    · cases hrun.symm.trans hrun'
    · have hcontext := congrArg (·.2) (hrun.symm.trans hrun')
      rw [Session.module, show s'.context = _ from hcontext]
      exact hrep.declare hbound hvalid hinstalled

section Items

variable {s : Session} {rest : List Item}

/-- Identifiers that were issued stay issued. -/
theorem nextId_le_handleAll
    (hkept : ∀ item ∈ rest, IsKept item)
    (hok : ∀ r ∈ ((handleAll rest).run s).1, ∃ o, r = .ok o)
    (hcursor : s.context.builder.cursor = none)
    (hplain : s.context.settings.optimize = false) :
    s.module.nextId ≤ ((handleAll rest).run s).2.module.nextId := by
  induction rest generalizing s with
  | nil => exact Nat.le_refl _
  | cons item rest ih =>
      rw [run_handleAll_cons] at hok ⊢
      rcases hfirst : (handleNoting item).run s with ⟨r, s'⟩
      rw [hfirst] at hok
      obtain ⟨o, rfl⟩ := hok r List.mem_cons_self
      have hsteady := steady_of_ok (hkept item List.mem_cons_self) hcursor hfirst
      refine Nat.le_trans hsteady.issued
        (ih (fun i hi => hkept i (List.mem_cons_of_mem _ hi))
        (fun r hr => hok r (List.mem_cons_of_mem _ hr)) hsteady.cursor ?_)
      rw [hsteady.settings]
      exact hplain

/-- Handling items keeps the module in step with them, as long as none fails. -/
theorem represents_handleAll
    {items : List Item}
    (hkept : ∀ item ∈ rest, IsKept item)
    (hok : ∀ r ∈ ((handleAll rest).run s).1, ∃ o, r = .ok o)
    (hcursor : s.context.builder.cursor = none)
    (hplain : s.context.settings.optimize = false)
    (hrep : Represents items s.module)
    (hbound : ((handleAll rest).run s).2.module.nextId < UInt32.size) :
    Represents (items ++ rest) ((handleAll rest).run s).2.module := by
  induction rest generalizing items s with
  | nil =>
      rw [List.append_nil]
      exact hrep
  | cons item rest ih =>
      have hissued :=
        Nat.lt_of_le_of_lt (nextId_le_handleAll hkept hok hcursor hplain) hbound
      rw [run_handleAll_cons] at hok hbound ⊢
      rcases hfirst : (handleNoting item).run s with ⟨r, s'⟩
      rw [hfirst] at hok hbound
      obtain ⟨o, rfl⟩ := hok r List.mem_cons_self
      have hsteady := steady_of_ok (hkept item List.mem_cons_self) hcursor hfirst
      have hnext :=
        represents_of_ok (hkept item List.mem_cons_self) hcursor hplain hissued hrep hfirst
      rw [List.append_cons]
      refine ih (fun i hi => hkept i (List.mem_cons_of_mem _ hi)) (fun r hr =>
        hok r (List.mem_cons_of_mem _ hr))
        hsteady.cursor ?_ hnext hbound
      rw [hsteady.settings]
      exact hplain

end Items

/-! ## Correctness -/

/--
Functions that were lowered without the pipeline end as their definitions evaluate, in a
program that starts with the host functions or without them.  They need a certain number of
steps, and only a run that has not as many ends with the step limit.
-/
theorem call_eq_evaluation
    {settings : Settings}
    (hplain : settings.optimize = false)
    (passes : Pipeline)
    (host evaluate : Bool)
    {items : List Item}
    (hkept : ∀ item ∈ items, IsKept item)
    {results : List (Except SessionError Outcome)}
    {s : Session}
    (hrun : (handleAll items).run (.fresh settings passes host evaluate) = (results, s))
    (hok : ∀ r ∈ results, ∃ o, r = .ok o)
    (hsmall : s.module.Small)
    (hpositions : ∀ g ∈ s.module.functions, g.arity ≤ UInt32.size)
    {f : Function}
    (hf : f ∈ s.module.functions)
    {args : List Float}
    (hargs : args.length = f.arity)
    (depth : Nat) :
    ∃ needed, ∀ (steps : Nat) (p : Machine.Progress),
      p.steps + needed ≤ steps ∨
          ((Machine.call s.module ⟨depth, steps⟩ f.id args).run.run p).1 ≠
            .error (.stepLimit steps) →
        (Machine.call s.module ⟨depth, steps⟩ f.id args).run.run p =
          ((Program.call (provided host ++ items) depth depth f.name args).result,
            ⟨p.steps + needed,
              (Program.call (provided host ++ items) depth depth f.name args).calls ++
                p.hostCalls⟩) := by
  have hrep : Represents (provided host ++ items) s.module := by
    have hall := represents_handleAll (s := .fresh settings passes host evaluate) hkept
      (by rw [hrun]; exact hok) (tidy_fresh settings passes host evaluate).cursor
      (by rw [settings_fresh]; exact hplain) (.fresh settings passes host evaluate)
      (by rw [hrun]; exact hsmall.functions)
    rw [hrun] at hall
    exact hall
  obtain ⟨needed, hcalls⟩ := hrep.calls hsmall hpositions depth depth hf hargs.symm
  refine ⟨needed, fun steps p hends => ?_⟩
  have hrealises :=
    @Machine.Calls.realises s.module ⟨depth, steps⟩ depth f.id args _ hcalls p
  by_cases hfits : needed = 0 ∨ p.steps + needed ≤ steps
  · exact hrealises.fits hfits
  · rw [not_or, Nat.not_le] at hfits
    obtain ⟨taken, made, -, hcut⟩ := hrealises.cut hfits.1 hfits.2
    rcases hends with hle | hne
    · omega
    · refine absurd ?_ hne
      rw [Machine.call, hcut]

/--
Two functions that call each other, the later one declared before the other is defined, and
the host at the end.
-/
def parity : List Item :=
  [.declaration ⟨"odd", ["n"]⟩,
    .definition ⟨⟨"even", ["n"]⟩,
      .cond (.var "n") (.call "odd" [.binary '-' (.var "n") (.number 1.0)])
        (.binary '+' (.call "printd" [.number 4.0]) (.number 1.0))⟩,
    .definition ⟨⟨"odd", ["m"]⟩,
      .cond (.var "m") (.call "even" [.binary '-' (.var "m") (.number 1.0)]) (.number 0.0)⟩]

/-- The session that has handled both. -/
def paritySession : Session :=
  ((handleAll parity).run (.fresh ⟨false, true, 8, 100⟩ .standard true false)).2

theorem parity_of_three :
    ((handleAll parity).run (.fresh ⟨false, true, 8, 100⟩ .standard true false)).1 =
        [.ok (.declared "odd"), .ok (.defined "even"), .ok (.defined "odd")] ∧
      ∃ needed, ∀ (steps : Nat) (p : Machine.Progress),
        p.steps + needed ≤ steps ∨
            ((Machine.call paritySession.module ⟨8, steps⟩ ⟨5⟩ [3.0]).run.run p).1 ≠
              .error (.stepLimit steps) →
          (Machine.call paritySession.module ⟨8, steps⟩ ⟨5⟩ [3.0]).run.run p =
            (.ok 1.0, ⟨p.steps + needed, ⟨"printd", [4.0]⟩ :: p.hostCalls⟩) := by
  have hresults :
      ((handleAll parity).run (.fresh ⟨false, true, 8, 100⟩ .standard true false)).1 =
      [.ok (.declared "odd"), .ok (.defined "even"), .ok (.defined "odd")] := by
        decide +kernel
  have hsmall : paritySession.module.Small :=
    ⟨by decide +kernel, by decide +kernel, by decide +kernel⟩
  have hpositions : ∀ g ∈ paritySession.module.functions, g.arity ≤ UInt32.size := by
    decide +kernel
  have hfunction : paritySession.module.functions[5]?.map (fun f =>
    (f.id, f.name, f.arity)) =
      some (⟨5⟩, "odd", 1) := by decide +kernel
  obtain ⟨f, hf, hheader⟩ := Option.map_eq_some_iff.1 hfunction
  obtain ⟨hid, hname, harity⟩ : f.id = ⟨5⟩ ∧ f.name = "odd" ∧ f.arity = 1 := by
    simpa using hheader
  have hresult : (Program.call (provided true ++ parity) 8 8 "odd" [3.0]).result =
      .ok 1.0 := by
    decide +kernel
  have hcalls : (Program.call (provided true ++ parity) 8 8 "odd" [3.0]).calls =
      [⟨"printd", [4.0]⟩] := by decide +kernel
  refine ⟨hresults, ?_⟩
  have hrun : (handleAll parity).run (.fresh ⟨false, true, 8, 100⟩ .standard true false) =
      ([.ok (.declared "odd"), .ok (.defined "even"), .ok (.defined "odd")],
        paritySession) :=
    Prod.ext hresults (by rw [paritySession])
  have hlength : ([3.0] : List Float).length = f.arity := harity.symm
  have hcorrect :=
    call_eq_evaluation rfl .standard true false (by decide) hrun (by simp) hsmall
    hpositions (List.mem_of_getElem? hf) hlength 8
  rw [hid, hname, hresult, hcalls] at hcorrect
  exact hcorrect

end Session

end ScalarSsa
