import ScalarSsa.Proofs.Session.Expressions

/-!
# Functions that have a body stay

**Input.** A session that has handled items of all kinds, with or without failures, possibly
after host functions were declared.

**Definitions.** A module `Retains` the functions of another one if those with a body are in
it as they were.

**Results.** `Develops.retains` and `retains_handleItem`: whatever is installed, lowered,
undone or erased for an item is a function that had no body before the item.
`definition_is_permanent`: the name of a definition that was handled is bound to the same
function in every later state of the session.
-/

namespace ScalarSsa

open Lowering

namespace Module

/-- The functions with a body are in the other module as they were. -/
def Retains (m m' : Module) : Prop :=
  ∀ f ∈ m.functions, f.hasBody = true → f ∈ m'.functions

namespace Retains

variable {m m' m'' : Module}

theorem of_eq
    (h : m'.functions = m.functions) :
    m.Retains m' := by
  intro f hf _
  rwa [h]

theorem trans
    (h : m.Retains m')
    (h' : m'.Retains m'') :
    m.Retains m'' :=
  fun f hf hbody => h' f (h f hf hbody) hbody

/-- Functions other than the one that is changed are retained. -/
theorem mapFunction
    {id : FuncId}
    (h : m.Retains m')
    (hid : ∀ f ∈ m.functions, f.hasBody = true → f.id ≠ id)
    (change : Function → Function) :
    m.Retains (m'.mapFunction id change) := by
  intro f hf hbody
  exact mem_changeFirst_of_ne (h f hf hbody) (hid f hf hbody)

/-- Functions without a body can be erased. -/
theorem erase
    (hm : m.Coherent)
    {g : Function}
    (hg : g ∈ m.functions)
    (hbodiless : g.hasBody = false) :
    m.Retains (m.erase g) := by
  intro f hf hbody
  have hid : f.id ≠ g.id := by
    intro heq
    rw [hm.eq_of_id_eq hf hg heq, hbodiless] at hbody
    cases hbody
  exact (List.mem_eraseP_of_neg (by simpa using hid)).2 hf

end Retains

/-- A signature never gets the identifier of a function that has a body. -/
theorem id_ne_of_installed
    {m m' : Module}
    (hm : m.Coherent)
    (hbound : m.nextId < UInt32.size)
    {s : Signature}
    (hvalid : signatureError? m s = none)
    {id : FuncId}
    (hinstalled : Installed m s id m')
    {f : Function}
    (hf : f ∈ m.functions)
    (hbody : f.hasBody = true) :
    f.id ≠ id := by
  rintro rfl
  rcases hinstalled with ⟨-, hid, -⟩ | ⟨hname, -⟩
  · -- the identifier is new
    have hlt := hm.below f hf
    rw [hid, Module.freshId, FuncId.number_ofCount hbound] at hlt
    omega
  · -- the name is that of a declaration
    have hfunction := hm.function?_eq_some_iff.2 ⟨hf, rfl⟩
    have hbodiless := ((of_signatureError?_eq_none hvalid).2 f.id f hname hfunction).1
    rw [hbody] at hbodiless
    cases hbodiless

theorem retains_of_installed
    {m m' : Module}
    (hm : m.Coherent)
    (hbound : m.nextId < UInt32.size)
    {s : Signature}
    (hvalid : signatureError? m s = none)
    {id : FuncId}
    (hinstalled : Installed m s id m') :
    m.Retains m' := by
  have hid : ∀ f ∈ m.functions, f.hasBody = true → f.id ≠ id :=
    fun f hf hbody => id_ne_of_installed hm hbound hvalid hinstalled hf hbody
  rcases hinstalled with ⟨-, -, rfl⟩ | ⟨-, rfl⟩
  · exact fun f hf _ => List.mem_append_left _ hf
  · exact (Retains.of_eq rfl).mapFunction hid _

/-- Developments retain the functions that have a body. -/
theorem Develops.retains
    {settled : Function → Function}
    {m m' : Module}
    (hsettled : ∀ f : Function, f.Descends (settled f))
    (h : Develops settled m m')
    (hbound : m'.nextId < UInt32.size)
    (htidy : m.Tidy) :
    m.Retains m' := by
  induction h with
  | issue _ => exact .of_eq rfl
  | install hvalid hinstalled =>
      have hissued := Nat.lt_of_le_of_lt hinstalled.nextId_le hbound
      exact retains_of_installed htidy.coherent hissued hvalid hinstalled
  | define hvalid hinstalled hlowers hid =>
      have hissued := Nat.lt_of_le_of_lt hinstalled.nextId_le hbound
      exact (retains_of_installed htidy.coherent hissued hvalid hinstalled).mapFunction
        (fun f hf hbody =>
          id_ne_of_installed htidy.coherent hissued hvalid hinstalled hf hbody) _
  | trans h h' ih ih' =>
      have hissued := Nat.lt_of_le_of_lt h'.nextId_le hbound
      exact (ih hissued htidy).trans (ih' hbound (h.tidy hsettled hissued htidy))

end Module

namespace Session

variable {c c' : Context}

/-! ## Items -/

theorem retains_handleExpr
    (h : c.Tidy)
    (hbound : c.module.nextId < UInt32.size)
    (hmild : c.Mild)
    (e : Expr)
    (evaluate : Bool) :
    c.module.Retains ((handleExpr e evaluate).run c).2.module := by
  rcases hrun : (handleExpr e evaluate).run c with ⟨r, c'⟩
  obtain ⟨-, hkept, herased⟩ := module_handleExpr h hbound hmild hrun
  by_cases hsame : c.module.find? anonymous = none ∨ ∃ fault, r = .error (.lower fault)
  · exact .of_eq (hkept hsame).1
  · -- the declaration that the expression took over has no body
    obtain ⟨hfound, hlowered⟩ := not_or.1 hsame
    obtain ⟨id, hid⟩ := Option.ne_none_iff_exists'.1 hfound
    obtain ⟨g, hg, hname, -⟩ := h.module.coherent.find?_eq_some_iff.1 hid
    obtain ⟨hbodiless, -, hfunctions, -⟩ :=
      herased (fun fault hfault => hlowered ⟨fault, hfault⟩) g hg hname
    exact (Module.Retains.erase h.module.coherent hg hbodiless).trans (.of_eq hfunctions)

/-- An item never touches a function that had a body before. -/
theorem retains_handleItem
    (h : c.Tidy)
    (hmild : c.Mild)
    (item : Item)
    (evaluate : Bool)
    (hbound : ((handleItem item evaluate).run c).2.module.nextId < UInt32.size) :
    c.module.Retains ((handleItem item evaluate).run c).2.module := by
  have hissued :=
    Nat.lt_of_le_of_lt (steady_handleItem h.cursor item evaluate).issued hbound
  cases item with
  | definition d =>
      rw [run_definition_eq_after] at hbound ⊢
      exact (Context.develops_after h hmild hissued (.definition d)).retains
        hmild.descends hbound h.module
  | declaration s =>
      rw [run_declaration_eq_after] at hbound ⊢
      exact (Context.develops_after h hmild hissued (.declaration s)).retains
        hmild.descends hbound h.module
  | expression e => exact retains_handleExpr h hissued hmild e evaluate

theorem retains_handleAll
    {s : Session}
    (h : s.context.Tidy)
    (hmild : s.context.Mild)
    (items : List Item)
    (hbound : ((handleAll items).run s).2.module.nextId < UInt32.size) :
    s.module.Retains ((handleAll items).run s).2.module := by
  induction items generalizing s with
  | nil => exact .of_eq rfl
  | cons item items ih =>
      have hsteady := steady_handleNoting h.cursor item
      rw [run_handleAll_cons] at hbound ⊢
      have hissued :=
        Nat.lt_of_le_of_lt (steady_handleAll hsteady.cursor items).issued hbound
      have htidy : ((handleNoting item).run s).2.context.Tidy :=
        tidy_handleAll h hmild [item] hissued
      refine Module.Retains.trans ?_ (ih htidy (hsteady.mild hmild) hbound)
      obtain ⟨notes, -, hrun⟩ := run_handleNoting item s
      rw [hrun] at hissued ⊢
      exact retains_handleItem h hmild item s.evaluate hissued

/-! ## Definitions -/

/-- A definition that is lowered gets a function with its signature and a body. -/
theorem exists_function_of_defined
    (h : c.module.Tidy)
    (hbound : c.module.nextId < UInt32.size)
    (hmild : c.Mild)
    {d : Definition}
    {id : FuncId}
    (hdefined : c.Defined d id c') :
    ∃ f ∈ c'.module.functions, f.id = id ∧ f.name = d.signature.name ∧
      f.params = d.signature.params ∧
      f.hasBody = true := by
  obtain ⟨hvalid, m, f, notes, hinstalled, hlowers, hid, -, rfl⟩ := hdefined
  obtain ⟨hm, hf⟩ := hinstalled.function?_eq h.coherent h.pristine hbound hvalid
  have hheader := (hmild.descends f).header_eq.trans (hlowers.header_eq_of_id hid)
  obtain ⟨-, -, -, hmem, -⟩ := hinstalled.put h.coherent hm hf hvalid hheader
  refine ⟨c.settled f, hmem, congrArg (·.1) hheader,
    congrArg (fun header => header.2.1) hheader,
    congrArg (fun header => header.2.2) hheader, ?_⟩
  rw [(hmild.descends f).hasBody_eq]
  exact hlowers.hasBody

/-- A definition that is handled successfully was lowered. -/
theorem lowered_of_handle
    {d : Definition}
    {o : Outcome}
    {s t : Session}
    (h : (handle (.definition d)).run s = (.ok o, t)) :
    ∃ id c', (lowerDefinition d).run.run s.context = (.ok id, c') ∧
      t = { s with context := c' } := by
  rw [run_handle] at h
  rcases hrun : (lowerDefinition d).run.run s.context with ⟨fault | id, c'⟩
  · rw [run_definition_error hrun] at h
    cases h
  · rw [run_definition_ok hrun] at h
    cases h
    exact ⟨id, c', rfl, rfl⟩

/-- From a tidy context on, a function that was defined stays what it is. -/
theorem retains_definition
    {s t : Session}
    (h : s.context.Tidy)
    (hmild : s.context.Mild)
    {d : Definition}
    {o : Outcome}
    (ht : (handle (.definition d)).run s = (.ok o, t))
    (after : List Item)
    (hbound : ((handleAll after).run t).2.module.nextId < UInt32.size) :
    ∃ id f, t.module.find? d.signature.name = some id ∧ t.module.function? id = some f ∧
      f.params = d.signature.params ∧ f.hasBody = true ∧
      ((handleAll after).run t).2.module.find? d.signature.name = some id ∧
      ((handleAll after).run t).2.module.function? id = some f := by
  obtain ⟨id, c', hlower, rfl⟩ := lowered_of_handle ht
  have hsteady : s.context.Steady c' := by
    have hall := steady_lowerDefinition h.cursor d
    rwa [hlower] at hall
  have hbound' : c'.module.nextId < UInt32.size :=
    Nat.lt_of_le_of_lt
      (steady_handleAll (s := { s with context := c' }) hsteady.cursor after).issued hbound
  have hissued : s.context.module.nextId < UInt32.size :=
    Nat.lt_of_le_of_lt hsteady.issued hbound'
  rcases lowerDefinition_cases h.module.coherent h.module.pristine h.cursor
    hissued hmild d with
    ⟨e, c'', hfailed, -⟩ | ⟨id', c'', hdone, hdefined⟩
  · cases hlower.symm.trans hfailed
  · cases hlower.symm.trans hdone
    have htidy : c'.Tidy :=
      ⟨(erase_settled h.module hissued hmild hdefined).choose_spec.2.2.1, hsteady.cursor⟩
    have hmild' : c'.Mild := hsteady.mild hmild
    obtain ⟨f, hf, hid, hname, hparams, hbody⟩ :=
      exists_function_of_defined h.module hissued hmild hdefined
    have hlater := tidy_handleAll (s := { s with context := c' }) htidy hmild' after hbound
    have hf' :=
      retains_handleAll (s := { s with context := c' }) htidy hmild' after hbound f hf hbody
    -- in both modules the function is found by its name and by its identifier
    exact ⟨id, f, htidy.module.coherent.find?_eq_some_iff.2 ⟨f, hf, hname, hid⟩,
      htidy.module.coherent.function?_eq_some_iff.2 ⟨hf, hid⟩, hparams, hbody,
      hlater.module.coherent.find?_eq_some_iff.2 ⟨f, hf', hname, hid⟩,
      hlater.module.coherent.function?_eq_some_iff.2 ⟨hf', hid⟩⟩

/--
Once a definition was handled successfully, its name is bound to the same identifier in
every later state of the session, and the function of this identifier is the one that it was
right after the definition, with its parameters and its body.
-/
theorem definition_is_permanent
    (settings : Settings)
    (passes : Pipeline)
    (hpasses : ∀ pass ∈ passes, pass ∈ [Pass.folding, Pass.branches, Pass.unused] ∨
      pass.DropsTerminators)
    (evaluate : Bool)
    (requests : List Request)
    (before after : List Item)
    (d : Definition)
    {o : Outcome}
    {s t u : Session}
    (hs : s =
      ((handleAll before).run
        ⟨(Context.initial settings passes).afterAll requests, evaluate⟩).2)
    (ht : (handle (.definition d)).run s = (.ok o, t))
    (hu : u = ((handleAll after).run t).2)
    (hbound : u.module.nextId < UInt32.size) :
    ∃ id f, t.module.find? d.signature.name = some id ∧ t.module.function? id = some f ∧
      f.params = d.signature.params ∧ f.hasBody = true ∧
      u.module.find? d.signature.name = some id ∧ u.module.function? id = some f := by
  have hgentle : ∀ pass ∈ passes, pass.Gentle := fun pass hpass =>
    (hpasses pass hpass).elim Pass.gentle_of_mem Pass.DropsTerminators.gentle
  obtain ⟨htidy, hbuilt⟩ := Context.tidy_initial settings passes
  have hmild : (Context.initial settings passes).Mild := fun _ => hgentle
  have hsteady₀ := Context.steady_afterAll htidy.cursor requests
  have hsteady := steady_handleAll
    (s := ⟨(Context.initial settings passes).afterAll requests, evaluate⟩)
    hsteady₀.cursor before
  rw [← hs] at hsteady
  obtain ⟨id, c', hlower, hcontext⟩ := lowered_of_handle ht
  have hsteady' : s.context.Steady t.context := by
    have hall := steady_lowerDefinition hsteady.cursor d
    rw [hlower] at hall
    rw [hcontext]
    exact hall
  -- the numbers of functions issued only grow, so they are below the bound in all states
  have hissued : s.module.nextId < UInt32.size := by
    rw [hu] at hbound
    exact Nat.lt_of_le_of_lt
      (hsteady'.trans (steady_handleAll hsteady'.cursor after)).issued hbound
  have hissued₀ := Nat.lt_of_le_of_lt hsteady.issued hissued
  obtain ⟨htidy₀, -⟩ := Context.develops_afterAll htidy hmild hbuilt requests hissued₀
  have htidy' : s.context.Tidy := by
    rw [hs]
    exact tidy_handleAll htidy₀ (hsteady₀.mild hmild) before (hs ▸ hissued)
  rw [hu]
  exact retains_definition htidy' (hsteady.mild (hsteady₀.mild hmild)) ht
    after (hu ▸ hbound)

/-- The session in which a square was declared, after the host functions. -/
def beforeSquare : Session :=
  ((handleAll [.declaration ⟨"square", ["n"]⟩]).run
    ⟨(Context.initial ⟨true, true, 8, 100⟩ .standard).afterAll [.hostFunctions], true⟩).2

/-- The square. -/
def square : Definition :=
  ⟨⟨"square", ["x"]⟩, .binary '*' (.var "x") (.var "x")⟩

/--
Another definition and declarations of the same name, a call with too many
arguments, and a call.
-/
def afterSquare : List Item :=
  [.definition ⟨⟨"square", ["y"]⟩, .var "y"⟩, .declaration ⟨"square", ["y"]⟩,
    .declaration ⟨"square", []⟩,
    .expression (.call "square" [.number 1.0, .number 2.0]),
      .expression (.call "square" [.number 3.0])]

theorem square_is_permanent :
    ((handle (.definition square)).run beforeSquare).1 = .ok (.defined "square") ∧
      ((handleAll afterSquare).run ((handle (.definition square)).run beforeSquare).2).1 =
        [.error (.lower (.redefinition "square")), .error (.lower (.redefinition "square")),
          .error (.lower (.redefinition "square")),
          .error (.lower (.arityMismatch "square" 1 2)),
          .ok (.evaluated 9.0)] ∧
      ∃ id f, ((handle (.definition square)).run beforeSquare).2.module.find? "square" =
        some id ∧
        ((handle (.definition square)).run beforeSquare).2.module.function? id = some f ∧
        f.params = ["x"] ∧
        f.hasBody = true ∧
        ((handleAll afterSquare).run
          ((handle (.definition square)).run beforeSquare).2).2.module.find? "square" =
          some id ∧
        ((handleAll afterSquare).run
          ((handle (.definition square)).run beforeSquare).2).2.module.function? id =
          some f := by
  have hdefined : ((handle (.definition square)).run beforeSquare).1 =
      .ok (.defined "square") := by decide +kernel
  have hknown : ∀ pass ∈ Pipeline.standard,
      pass ∈ [Pass.folding, Pass.branches, Pass.unused] := by
    simp [Pipeline.standard]
  refine ⟨hdefined, by decide +kernel, ?_⟩
  exact definition_is_permanent ⟨true, true, 8, 100⟩ .standard (fun pass hpass =>
    .inl (hknown pass hpass)) true
    [.hostFunctions] [.declaration ⟨"square", ["n"]⟩] afterSquare square
      rfl (Prod.ext hdefined rfl) rfl
    (by decide +kernel)

end Session

end ScalarSsa
