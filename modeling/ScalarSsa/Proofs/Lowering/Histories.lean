import ScalarSsa.Proofs.Lowering.Attempts
import ScalarSsa.Proofs.Lowering.WellFormedBodies

/-!
# Contexts and their histories

**Input.** Requests to declare, to define and to provide the host functions, each of which
may fail, from the empty context on.

**Definitions.** `Context.afterAll` is the context that requests lead to.  A module
`Develops` into another one by installing signatures and by lowering definitions; requests
that fail only issue identifiers.  A module is `Built` if every body in it was lowered from
a definition, its names being looked up in this very module.

**Results.** `develops_afterAll`: requests lead from module to module by such developments,
which keep a module built.  `afterAll_wellFormed`: whatever the settings are, the check
accepts every function after every request.
-/

namespace ScalarSsa

open Lowering

/-! ## Requests -/

/-- What a context can be asked for. -/
inductive Request where
  | definition (d : Definition)
  | declaration (s : Signature)
  | hostFunctions

namespace Context

/-- The context after a request, whether or not it failed. -/
def after (c : Context) : Request → Context
  | .definition d => ((lowerDefinition d).run.run c).2
  | .declaration s => ((lowerSignature s).run.run c).2
  | .hostFunctions => (declareHost.run c).2

/-- The context after all of some requests. -/
def afterAll (c : Context) (requests : List Request) : Context :=
  requests.foldl after c

end Context

/-! ## Host functions -/

/-- The signature of a host function. -/
def HostFunction.signature (h : HostFunction) : Signature :=
  ⟨h.name, (List.range h.arity).map fun i => "x" ++ toString i⟩

/-- The module with a host function declared, unless its name is taken. -/
def Module.provide (m : Module) (h : HostFunction) : Module :=
  match m.find? h.name with
  | some _ => m
  | none => m.declare h.name h.signature.params

theorem signatureError?_host
    {m : Module}
    {h : HostFunction}
    (hfree : m.find? h.name = none) :
    signatureError? m h.signature = none := by
  have hexisting : existing? m h.signature.name = none := by
    simp [existing?, HostFunction.signature, hfree]
  have hparams : repeatedParam? [] h.signature.params = none := rfl
  simp only [signatureError?, hexisting, hparams]

theorem run_declare?_taken
    {c : Context}
    {name : String}
    {id : FuncId}
    (h : c.module.find? name = some id)
    (params : List String) :
    (onBuilder (Builder.declare? name params)).run c = (none, c) := by
  change (((Builder.declare? name params).run c.builder).1, { c with
    builder := ((Builder.declare? name params).run c.builder).2 }) = _
  rw [Builder.run_declare?_taken h]

theorem run_declare?_free
    {c : Context}
    {name : String}
    (h : c.module.find? name = none)
    (params : List String) :
    ∃ note, (onBuilder (Builder.declare? name params)).run c =
      (some c.module.freshId, { c with
        builder := ⟨c.module.declare name params, c.builder.cursor,
          .note note :: c.builder.journal⟩ }) := by
  obtain ⟨note, hdeclare⟩ := Builder.run_declare?_free (b := c.builder) h params
  refine ⟨note, ?_⟩
  change (((Builder.declare? name params).run c.builder).1, { c with
    builder := ((Builder.declare? name params).run c.builder).2 }) = _
  rw [hdeclare]
  rfl

theorem run_declareHostFunctions
    (hosts : List HostFunction)
    (c : Context) :
    ∃ names notes, Journal.Quiet notes ∧ (declareHostFunctions hosts).run c =
      (names, { c with
        builder := ⟨hosts.foldl Module.provide c.module, c.builder.cursor,
          notes ++ c.builder.journal⟩ }) := by
  induction hosts generalizing c with
  | nil => exact ⟨[], [], fun _ h => (by cases h), rfl⟩
  | cons h hosts ih =>
      cases hfind : c.module.find? h.name with
      | some id =>
          obtain ⟨names, notes, hquiet, hrun⟩ := ih c
          refine ⟨names, notes, hquiet, ?_⟩
          have hprovide : c.module.provide h = c.module := by
            simp only [Module.provide, hfind]
          rw [declareHostFunctions, StateT.run_bind, run_declare?_taken hfind,
            List.foldl_cons, hprovide]
          exact hrun
      | none =>
          obtain ⟨note, hdeclare⟩ := run_declare?_free hfind h.signature.params
          obtain ⟨names, notes, hquiet, hrun⟩ := ih { c with
            builder :=
              ⟨c.module.declare h.name h.signature.params, c.builder.cursor,
                .note note :: c.builder.journal⟩ }
          refine ⟨h.name :: names, notes ++ [.note note],
            hquiet.append (Journal.Quiet.cons (fun _ h => by cases h) _), ?_⟩
          have hprovide : c.module.provide h =
              c.module.declare h.name h.signature.params := by
            simp only [Module.provide, hfind]
          rw [declareHostFunctions, StateT.run_bind,
            show (onBuilder (Builder.declare? h.name
            ((List.range h.arity).map fun i => "x" ++ toString i))).run c = _ from hdeclare,
              List.foldl_cons, hprovide,
            List.append_assoc]
          change (h.name :: ((declareHostFunctions hosts).run _).1,
            ((declareHostFunctions hosts).run _).2) = _
          rw [hrun]
          rfl

/-- Providing the host functions changes only the module and the journal. -/
theorem run_declareHost
    (c : Context) :
    ∃ names notes, Journal.Quiet notes ∧ declareHost.run c = (names, { c with
      builder := ⟨HostFunction.all.foldl Module.provide c.module, c.builder.cursor,
        notes ++ c.builder.journal⟩ }) := by
  obtain ⟨names, notes, hquiet, hrun⟩ := run_declareHostFunctions HostFunction.all c
  refine ⟨names, _ :: notes, hquiet.cons
    ⟨.debug, .hostDeclaration, "declared host functions: " ++ Text.quotedList names⟩, ?_⟩
  rw [declareHost, StateT.run_bind, hrun]
  rfl

/-! ## Developments -/

namespace Module

/--
Changes of a module by requests; `settled` is what the settings make of a
function that was lowered.
-/
inductive Develops (settled : Function → Function) : Module → Module → Prop
  | issue {m : Module} {issued : Nat} (h : m.nextId ≤ issued) :
      Develops settled m { m with nextId := issued }
  | install {m m' : Module} {s : Signature} {id : FuncId}
      (hvalid : signatureError? m s = none)
      (hinstalled : Installed m s id m') : Develops settled m m'
  | define {m m' : Module} {d : Definition} {id : FuncId} {f : Function}
      (hvalid : signatureError? m d.signature = none)
      (hinstalled : Installed m d.signature id m')
      (hlowers : Lowers m' d f) (hid : f.id = id) :
        Develops settled m (m'.mapFunction id fun _ => settled f)
  | trans {m m' m'' : Module} (h : Develops settled m m') (h' : Develops settled m' m'') :
      Develops settled m m''

/-- The functions can be found, and those without a body are as they were declared. -/
structure Tidy (m : Module) : Prop where
  coherent : m.Coherent
  pristine : Pristine m

theorem Tidy.issue
    {m : Module}
    (h : m.Tidy)
    {issued : Nat}
    (hissued : m.nextId ≤ issued) :
    Tidy { m with nextId := issued } :=
  ⟨⟨h.coherent.ids_nodup, h.coherent.names_nodup, h.coherent.names_eq,
    fun f hf => Nat.lt_of_lt_of_le (h.coherent.below f hf) hissued⟩, h.pristine⟩

/-- Every body was lowered from a definition, its names being looked up in the module. -/
def Built (settled : Function → Function) (m : Module) : Prop :=
  ∀ f ∈ m.functions, f.hasBody = true → ∃ d g, Lowers m d g ∧ f = settled g

namespace Develops

variable {settled : Function → Function} {m m' : Module}

theorem refl
    (m : Module) :
    Develops settled m m :=
  .issue (Nat.le_refl m.nextId)

theorem nextId_le
    (h : Develops settled m m') :
    m.nextId ≤ m'.nextId := by
  induction h with
  | issue h => exact h
  | install _ hinstalled => exact hinstalled.nextId_le
  | define _ hinstalled _ _ => exact hinstalled.nextId_le
  | trans _ _ ih ih' => exact Nat.le_trans ih ih'

/-- Developments keep a module tidy. -/
theorem tidy
    (hsettled : ∀ f : Function, f.Descends (settled f))
    (h : Develops settled m m')
    (hbound : m'.nextId < UInt32.size)
    (htidy : m.Tidy) :
    m'.Tidy := by
  induction h with
  | issue h => exact htidy.issue h
  | @install m m' s id hvalid hinstalled =>
      have hissued := Nat.lt_of_le_of_lt hinstalled.nextId_le hbound
      obtain ⟨hm', hf⟩ :=
        hinstalled.function?_eq htidy.coherent htidy.pristine hissued hvalid
      refine ⟨hm', fun g hg hbody => ?_⟩
      rcases hinstalled.mem_cases hm' hf hg with rfl | ⟨hg, -⟩
      · rfl
      · exact htidy.pristine g hg hbody
  | @define m m' d id f hvalid hinstalled hlowers hid =>
      have hissued := Nat.lt_of_le_of_lt hinstalled.nextId_le hbound
      obtain ⟨hm', hf⟩ :=
        hinstalled.function?_eq htidy.coherent htidy.pristine hissued hvalid
      have hheader := (hsettled f).header_eq.trans (hlowers.header_eq_of_id hid)
      obtain ⟨hcoherent, -, -, -, hcases⟩ :=
        hinstalled.put htidy.coherent hm' hf hvalid hheader
      refine ⟨hcoherent, fun g hg hbodiless => ?_⟩
      rcases hcases g hg with rfl | ⟨hg, -⟩
      · rw [(hsettled f).hasBody_eq, hlowers.hasBody] at hbodiless
        cases hbodiless
      · exact htidy.pristine g hg hbodiless
  | trans _ h' ih ih' =>
      exact ih' hbound (ih (Nat.lt_of_le_of_lt h'.nextId_le hbound) htidy)

/--
Developments keep a module built: what was compiled against a function goes on finding it.
-/
theorem built
    (hsettled : ∀ f : Function, f.Descends (settled f))
    (h : Develops settled m m')
    (hbound : m'.nextId < UInt32.size)
    (htidy : m.Tidy)
    (hbuilt : m.Built settled) :
    m'.Built settled := by
  induction h with
  | issue h =>
      intro f hf hbody
      obtain ⟨d, g, hlowers, hsame⟩ := hbuilt f hf hbody
      exact ⟨d, g, hlowers.mono ⟨fun _ _ hname => hname, fun _ f hf => ⟨f, hf, rfl, rfl⟩⟩,
        hsame⟩
  | @install m m' s id hvalid hinstalled =>
      have hissued := Nat.lt_of_le_of_lt hinstalled.nextId_le hbound
      obtain ⟨hm', hf⟩ :=
        hinstalled.function?_eq htidy.coherent htidy.pristine hissued hvalid
      intro g hg hbody
      rcases hinstalled.mem_cases hm' hf hg with rfl | ⟨hg, -⟩
      · cases hbody
      · obtain ⟨d, f, hlowers, hsame⟩ := hbuilt g hg hbody
        exact ⟨d, f, hlowers.mono (hinstalled.grows htidy.coherent hm' hvalid), hsame⟩
  | @define m m' d id f hvalid hinstalled hlowers hid =>
      have hissued := Nat.lt_of_le_of_lt hinstalled.nextId_le hbound
      obtain ⟨hm', hf⟩ :=
        hinstalled.function?_eq htidy.coherent htidy.pristine hissued hvalid
      have hheader := (hsettled f).header_eq.trans (hlowers.header_eq_of_id hid)
      obtain ⟨-, hbody, hgrows, -, hcases⟩ :=
        hinstalled.put htidy.coherent hm' hf hvalid hheader
      intro g hg hgbody
      rcases hcases g hg with rfl | ⟨hg, -⟩
      · exact ⟨d, f, hlowers.mono hbody, rfl⟩
      · obtain ⟨d', f', hlowers', hsame⟩ := hbuilt g hg hgbody
        exact ⟨d', f', hlowers'.mono hgrows, hsame⟩
  | trans h h' ih ih' =>
      have hissued := Nat.lt_of_le_of_lt h'.nextId_le hbound
      exact ih' hbound (h.tidy hsettled hissued htidy) (ih hissued htidy hbuilt)

theorem provide
    (hosts : List HostFunction)
    (m : Module) :
    Develops settled m (hosts.foldl Module.provide m) := by
  induction hosts generalizing m with
  | nil => exact .refl m
  | cons h hosts ih =>
      refine .trans ?_ (ih (m.provide h))
      unfold Module.provide
      cases hfind : m.find? h.name with
      | some id => exact .refl m
      | none => exact .install (signatureError?_host hfind) (.inl ⟨hfind, rfl, rfl⟩)

end Develops

end Module

/-! ## Requests and developments -/

namespace Context

/-- The module is tidy and the cursor is unset. -/
structure Tidy (c : Context) : Prop where
  module : c.module.Tidy
  cursor : c.builder.cursor = none

variable {c : Context}

theorem steady_after
    (hcursor : c.builder.cursor = none)
    (r : Request) :
    c.Steady (c.after r) := by
  cases r with
  | definition d => exact steady_lowerDefinition hcursor d
  | declaration s => exact steady_lowerSignature hcursor s
  | hostFunctions =>
      obtain ⟨names, notes, -, hrun⟩ := run_declareHost c
      have hprovided : Module.Develops (fun f => f) c.module
          (HostFunction.all.foldl Module.provide c.module) :=
        .provide HostFunction.all c.module
      simp only [after, hrun]
      exact ⟨hprovided.nextId_le, hcursor, rfl, rfl⟩

/-- A request changes the module by a development. -/
theorem develops_after
    (h : c.Tidy)
    (hmild : c.Mild)
    (hbound : c.module.nextId < UInt32.size)
    (r : Request) :
    Module.Develops c.settled c.module (c.after r).module := by
  cases r with
  | definition d =>
      rcases lowerDefinition_cases h.module.coherent h.module.pristine h.cursor
        hbound hmild d with
        ⟨e, c', hrun, issued, events, hissued, -, rfl⟩ |
        ⟨id, c', hrun, hvalid, m, f, notes, hinstalled, hlowers, hid, -, rfl⟩
      · simp only [after, hrun]
        exact .issue hissued
      · simp only [after, hrun]
        exact .define hvalid hinstalled hlowers hid
  | declaration s =>
      rcases lowerSignature_cases c s with ⟨e, -, hrun⟩
        | ⟨id, m, notes, hvalid, hinstalled, -, hrun⟩
      · simp only [after, hrun]
        exact .refl c.module
      · simp only [after, hrun]
        exact .install hvalid hinstalled
  | hostFunctions =>
      obtain ⟨names, notes, -, hrun⟩ := run_declareHost c
      simp only [after, hrun]
      exact .provide HostFunction.all c.module

theorem Steady.mild
    {d : Context}
    (h : c.Steady d)
    (hmild : c.Mild) :
    d.Mild := by
  unfold Mild
  rw [h.settings, h.passes]
  exact hmild

theorem Steady.settled_eq
    {d : Context}
    (h : c.Steady d) :
    d.settled = c.settled := by
  funext f
  rw [settled, settled, h.settings, h.passes]

theorem steady_afterAll
    (hcursor : c.builder.cursor = none)
    (requests : List Request) :
    c.Steady (c.afterAll requests) := by
  induction requests generalizing c with
  | nil => exact ⟨Nat.le_refl _, hcursor, rfl, rfl⟩
  | cons r requests ih =>
      have hfirst := steady_after hcursor r
      exact hfirst.trans (ih hfirst.cursor)

/-- Requests lead from module to module by developments. -/
theorem develops_afterAll
    (h : c.Tidy)
    (hmild : c.Mild)
    (hbuilt : c.module.Built c.settled)
    (requests : List Request)
    (hbound : (c.afterAll requests).module.nextId < UInt32.size) :
    (c.afterAll requests).Tidy ∧ (c.afterAll requests).module.Built c.settled := by
  induction requests generalizing c with
  | nil => exact ⟨h, hbuilt⟩
  | cons r requests ih =>
      have hsteady := steady_after h.cursor r
      have hrest : (c.after r).module.nextId < UInt32.size :=
        Nat.lt_of_le_of_lt (steady_afterAll hsteady.cursor requests).issued hbound
      have hdevelops := develops_after h hmild (Nat.lt_of_le_of_lt hsteady.issued hrest) r
      have htidy := hdevelops.tidy hmild.descends hrest h.module
      have hbuilt' := hdevelops.built hmild.descends hrest h.module hbuilt
      have hnext :=
        ih ⟨htidy, hsteady.cursor⟩ (hsteady.mild hmild)
          (hsteady.settled_eq ▸ hbuilt') hbound
      rw [hsteady.settled_eq] at hnext
      exact hnext

/-- A context is tidy before its first request. -/
theorem tidy_initial
    (settings : Settings)
    (passes : Pipeline) :
    (initial settings passes).Tidy ∧
      (initial settings passes).module.Built (initial settings passes).settled :=
  ⟨⟨⟨.empty, fun _ hf => by cases hf⟩, rfl⟩, fun _ hf => by cases hf⟩

/-! ## Well-formed modules -/

/-- Calls that were there go where they went. -/
theorem callsFound_of_descends
    {m : Module}
    {f g : Function}
    (h : f.Descends g)
    (hcalls : f.CallsFound m) :
    g.CallsFound m := by
  intro b' hb' i' hi' callee name args' hkind'
  obtain ⟨i, hi, hkind⟩ := h.instrs i' (Function.mem_instrs_iff.2 ⟨b', hb', hi'⟩)
  obtain ⟨args, hcall, hlength⟩ := hkind.call callee name args' hkind'
  obtain ⟨b, hb, hib⟩ := Function.mem_instrs_iff.1 hi
  obtain ⟨target, htarget, hname, harity⟩ := hcalls b hb i hib callee name args hcall
  exact ⟨target, htarget, hname, harity.trans hlength.symm⟩

/-- A declaration keeps all rules, since it has no blocks. -/
theorem wellFormed_declaration
    (id : FuncId)
    (name : String)
    (params : List String) :
    (Function.declaration id name params).WellFormed := by
  constructor <;> simp [Function.declaration, Function.blockIds, Function.results,
    Function.instrs]

/--
What the settings make of a lowered function is well formed, and its calls
go where they went.
-/
theorem wellFormed_settled
    (hpasses : ∀ pass ∈ c.passes, pass ∈ [Pass.folding, Pass.branches, Pass.unused])
    {m : Module}
    {d : Definition}
    {f : Function}
    (h : Lowers m d f)
    (hblocks : (c.settled f).nextBlock ≤ UInt32.size)
    (hvalues : (c.settled f).nextValue ≤ UInt32.size) :
    (c.settled f).WellFormed ∧ (c.settled f).CallsFound m ∧
      Machine.EntryPlain (c.settled f) := by
  have hdescends : f.Descends (c.settled f) :=
    Mild.descends (fun _ pass hpass => Pass.gentle_of_mem (hpasses pass hpass)) f
  obtain ⟨hwf, hcalls, hplain⟩ :=
    h.wellFormed (hdescends.issued_eq.2 ▸ hblocks) (hdescends.issued_eq.1 ▸ hvalues)
  refine ⟨?_, callsFound_of_descends hdescends hcalls,
    hdescends.entryPlain hwf.ids_nodup hplain⟩
  unfold settled
  split
  · exact (Pass.Version.run_pipeline hpasses
      ⟨hwf, hcalls.callsMatch, rfl, rfl, rfl⟩).wellFormed
  · exact hwf

/--
After any requests, failed ones among them, and whatever is checked and transformed on the
way, the check accepts every function; no entry has a phi, and every call goes to a function
of the module that bears the recorded name and takes as many arguments as it is given.
-/
theorem afterAll_wellFormed
    (settings : Settings)
    (passes : Pipeline)
    (hpasses : ∀ pass ∈ passes, pass ∈ [Pass.folding, Pass.branches, Pass.unused])
    (requests : List Request)
    (hsmall : ((initial settings passes).afterAll requests).module.Small) :
    ((initial settings passes).afterAll requests).module.malformed = [] ∧
      ∀ f ∈ ((initial settings passes).afterAll requests).module.functions,
        f.WellFormed ∧ Machine.EntryPlain f ∧
          f.CallsFound ((initial settings passes).afterAll requests).module := by
  have hmild : (initial settings passes).Mild := fun _ pass hpass =>
    Pass.gentle_of_mem (hpasses pass hpass)
  obtain ⟨htidy, hbuilt⟩ := tidy_initial settings passes
  obtain ⟨htidy', hbuilt'⟩ := develops_afterAll htidy hmild hbuilt requests hsmall.functions
  have hall : ∀ f ∈ ((initial settings passes).afterAll requests).module.functions,
      f.WellFormed ∧ Machine.EntryPlain f ∧
        f.CallsFound ((initial settings passes).afterAll requests).module := by
    intro f hf
    cases hbody : f.hasBody with
    | true =>
        obtain ⟨d, g, hlowers, rfl⟩ := hbuilt' f hf hbody
        obtain ⟨hwf, hcalls, hplain⟩ :=
          wellFormed_settled hpasses hlowers (Nat.le_of_lt (hsmall.blocks _ hf))
          (Nat.le_of_lt (hsmall.values _ hf))
        exact ⟨hwf, hplain, hcalls⟩
    | false =>
        rw [htidy'.module.pristine f hf hbody]
        exact ⟨wellFormed_declaration f.id f.name f.params, fun b hb =>
          (by cases hb), fun b hb => (by cases hb)⟩
  refine ⟨?_, hall⟩
  refine List.filterMap_eq_nil_iff.2 fun f hf => ?_
  obtain ⟨hwf, -, hcalls⟩ := hall f hf
  rw [(Verify.verify_eq_ok_iff hwf.ids_nodup _).2 ⟨hwf, hcalls.callsMatch⟩]

/--
A function is called before it has a body, is declared again, fails to be defined and is
defined at last.
-/
def forwardRequests : List Request :=
  [.hostFunctions,
    .declaration ⟨"odd", ["n"]⟩,
    .definition ⟨⟨"even", ["n"]⟩,
      .cond (.var "n") (.call "odd" [.binary '-' (.var "n") (.number 1.0)])
        (.call "cos" [.number 0.0])⟩,
    .definition ⟨⟨"odd", ["k"]⟩, .cond (.var "k") (.call "even" [.var "n"]) (.number 0.0)⟩,
    .declaration ⟨"odd", ["m"]⟩,
    .definition ⟨⟨"even", ["x"]⟩, .var "x"⟩,
    .definition ⟨⟨"odd", ["x"]⟩,
      .cond (.binary '<' (.number 2.0) (.number 1.0)) (.number 7.0)
        (.call "even" [.binary '-' (.var "x") (.number 1.0)])⟩]

theorem forwardRequests_wellFormed :
    ((initial ⟨true, false, 8, 100⟩ .standard).afterAll
      forwardRequests).module.functions.map
        (fun f => (f.name, f.params, f.hasBody)) =
      [("sin", ["x0"], false), ("cos", ["x0"], false), ("sqrt", ["x0"], false),
        ("putchard", ["x0"], false),
        ("printd", ["x0"], false), ("odd", ["x"], true), ("even", ["n"], true)] ∧
    ((initial ⟨true, false, 8, 100⟩ .standard).afterAll forwardRequests).module.malformed =
      [] :=
  ⟨by decide +kernel,
    (afterAll_wellFormed ⟨true, false, 8, 100⟩ .standard
      (by simp [Pipeline.standard]) forwardRequests
      ⟨by decide +kernel, by decide +kernel, by decide +kernel⟩).1⟩

end Context

end ScalarSsa
