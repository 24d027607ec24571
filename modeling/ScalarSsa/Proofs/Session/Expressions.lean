import ScalarSsa.Proofs.Session.Items
import ScalarSsa.Proofs.Session.Start

/-!
# Sessions and their expressions

**Input.** A session that has handled items of all kinds, with or without failures,
and an expression.

**Results.** `tidy_handleAll`: whatever items are handled, the table of functions stays in
order.  `expression_leaves_module`: the functions and the names are then those from before,
unless the name that is used for expressions was declared.  In that case the declaration is
taken over and erased in the end, and calls that were compiled against it lose their target.
-/

namespace ScalarSsa

open Lowering

/-! ## Erasing functions -/

namespace Module

/-- It does not matter what is done to a function that is erased. -/
theorem erase_mapFunction
    (m : Module)
    {f g : Function}
    (hid : f.id = g.id)
    (hname : f.name = g.name)
    {change : Function → Function}
    (hchange : ∀ h, h.id = g.id → (change h).id = g.id) :
    (m.mapFunction g.id change).erase f = m.erase g := by
  simp only [Module.erase, Module.mapFunction, hid, hname, Module.mk.injEq, and_true]
  induction m.functions with
  | nil => rfl
  | cons h rest ih =>
      by_cases hh : h.id = g.id
      · simp [changeFirst, hh, hchange h hh]
      · simp [changeFirst, hh, ih]

theorem Tidy.erase
    {m : Module}
    (h : m.Tidy)
    {f : Function}
    (hf : f ∈ m.functions) :
    (m.erase f).Tidy :=
  ⟨h.coherent.erase hf, fun g hg hbody => h.pristine g (List.mem_of_mem_eraseP hg) hbody⟩

end Module

namespace Session

variable {c c' : Context} {id : FuncId}

/-! ## The function of an expression -/

/-- The function that an expression becomes, and the module without it. -/
theorem erase_settled
    (h : c.module.Tidy)
    (hbound : c.module.nextId < UInt32.size)
    (hmild : c.Mild)
    {d : Definition}
    (hdefined : c.Defined d id c') :
    ∃ f, c'.module.function? id = some f ∧ f.name = d.signature.name ∧ c'.module.Tidy ∧
      (c.module.find? d.signature.name = none →
        c'.module.erase f = { c.module with nextId := c.module.nextId + 1 }) ∧
      ∀ g ∈ c.module.functions, g.name = d.signature.name → g.hasBody = false ∧
        g.arity = d.signature.arity ∧
        c'.module.erase f = c.module.erase g := by
  obtain ⟨hvalid, m, f, notes, hinstalled, hlowers, hid, -, rfl⟩ := hdefined
  obtain ⟨hm, hf⟩ := hinstalled.function?_eq h.coherent h.pristine hbound hvalid
  have hheader := (hmild.descends f).header_eq.trans (hlowers.header_eq_of_id hid)
  obtain ⟨hcoherent, -, -, hmem, hcases⟩ := hinstalled.put h.coherent hm hf hvalid hheader
  have hsettledId : (c.settled f).id = id := congrArg (·.1) hheader
  have hsettledName : (c.settled f).name = d.signature.name :=
    congrArg (fun header => header.2.1) hheader
  refine ⟨c.settled f, hcoherent.function?_eq_some_iff.2 ⟨hmem, hsettledId⟩, hsettledName,
    ⟨hcoherent, ?_⟩, ?_, ?_⟩
  · intro g hg hbody
    rcases hcases g hg with rfl | ⟨hg, -⟩
    · rw [(hmild.descends f).hasBody_eq, hlowers.hasBody] at hbody
      cases hbody
    · exact h.pristine g hg hbody
  · intro hfree
    rcases hinstalled with ⟨-, rfl, rfl⟩ | ⟨hname, -⟩
    · exact erase_declared h.coherent hfree hbound rfl hheader
    · rw [hfree] at hname
      cases hname
  · intro g hg hgname
    have hfind := h.coherent.find?_eq_some_iff.2 ⟨g, hg, hgname, rfl⟩
    obtain ⟨hbodiless, harity⟩ :=
      (of_signatureError?_eq_none hvalid).2 g.id g hfind
        (h.coherent.function?_eq_some_iff.2 ⟨hg, rfl⟩)
    refine ⟨hbodiless, harity, ?_⟩
    rcases hinstalled with ⟨hfree, -, -⟩ | ⟨hname, rfl⟩
    · rw [hfind] at hfree
      cases hfree
    · obtain rfl : g.id = id := Option.some.inj (hfind.symm.trans hname)
      refine (Module.erase_mapFunction _ hsettledId (hsettledName.trans hgname.symm)
        fun _ _ => hsettledId).trans ?_
      exact Module.erase_mapFunction _ rfl rfl fun _ hh => hh

/-- What an expression leaves of the module. -/
theorem module_handleExpr
    (h : c.Tidy)
    (hbound : c.module.nextId < UInt32.size)
    (hmild : c.Mild)
    {e : Expr}
    {evaluate : Bool}
    {r : Except SessionError Outcome}
    (hrun : (handleExpr e evaluate).run c = (r, c')) :
    c'.module.Tidy ∧
      ((c.module.find? anonymous = none ∨ ∃ fault, r = .error (.lower fault)) →
        c'.module.functions = c.module.functions ∧ c'.module.names = c.module.names) ∧
      ((∀ fault, r ≠ .error (.lower fault)) → ∀ g ∈ c.module.functions, g.name = anonymous →
        g.hasBody = false ∧ g.arity = 0 ∧ c'.module.functions =
          (c.module.erase g).functions ∧
          c'.module.names = (c.module.erase g).names) := by
  rcases lowerDefinition_cases h.module.coherent h.module.pristine h.cursor hbound hmild
    (asDefinition e) with
    ⟨fault, d, hlower, issued, events, hissued, -, rfl⟩ | ⟨id, d, hlower, hdefined⟩
  · cases hrun.symm.trans (run_handleExpr_error hlower)
    exact ⟨h.module.issue hissued, fun _ => ⟨rfl, rfl⟩, fun hlowered =>
      absurd rfl (hlowered fault)⟩
  · obtain ⟨f, hf, hname, htidy, hfree, htaken⟩ :=
      erase_settled h.module hbound hmild hdefined
    obtain ⟨later, -, notes, -, hhandled⟩ := run_handleExpr_ok hlower hf evaluate
    obtain ⟨rfl, rfl⟩ := Prod.ext_iff.1 (hrun.symm.trans hhandled)
    have hlowered : ∀ fault, (outcome d id evaluate).mapError SessionError.exec ≠
        .error (.lower fault) := by
      intro fault heq
      cases hout : outcome d id evaluate with
      | ok o => rw [hout] at heq; cases heq
      | error fault' => rw [hout] at heq; cases heq
    refine ⟨htidy.erase (Module.mem_of_function? hf), ?_, fun _ g hg hgname => ?_⟩
    · rintro (hnone | ⟨fault, hfault⟩)
      · have herase := hfree hnone
        exact ⟨congrArg (·.functions) herase, congrArg (·.names) herase⟩
      · exact absurd hfault (hlowered fault)
    · obtain ⟨hbody, harity, herase⟩ := htaken g hg hgname
      exact ⟨hbody, harity, congrArg (·.functions) herase, congrArg (·.names) herase⟩

/-! ## Sessions -/

theorem run_definition_eq_after
    (d : Definition)
    (evaluate : Bool)
    (c : Context) :
    ((handleItem (.definition d) evaluate).run c).2 = c.after (.definition d) := by
  simp only [Context.after]
  rcases hrun : (lowerDefinition d).run.run c with ⟨fault | id, c'⟩
  · rw [run_definition_error hrun]
  · rw [run_definition_ok hrun]

theorem run_declaration_eq_after
    (s : Signature)
    (evaluate : Bool)
    (c : Context) :
    ((handleItem (.declaration s) evaluate).run c).2 = c.after (.declaration s) := by
  simp only [Context.after]
  rcases hrun : (lowerSignature s).run.run c with ⟨fault | id, c'⟩
  · rw [run_declaration_error hrun]
  · rw [run_declaration_ok hrun]

theorem tidy_handleItem
    (h : c.Tidy)
    (hmild : c.Mild)
    (item : Item)
    (evaluate : Bool)
    (hbound : ((handleItem item evaluate).run c).2.module.nextId < UInt32.size) :
    ((handleItem item evaluate).run c).2.Tidy := by
  have hsteady := steady_handleItem h.cursor item evaluate
  have hissued := Nat.lt_of_le_of_lt hsteady.issued hbound
  refine ⟨?_, hsteady.cursor⟩
  cases item with
  | definition d =>
      rw [run_definition_eq_after] at hbound ⊢
      exact (Context.develops_after h hmild hissued (.definition d)).tidy
        hmild.descends hbound h.module
  | declaration s =>
      rw [run_declaration_eq_after] at hbound ⊢
      exact (Context.develops_after h hmild hissued (.declaration s)).tidy
        hmild.descends hbound h.module
  | expression e => exact (module_handleExpr h hissued hmild rfl).1

theorem tidy_handleNoting
    {s : Session}
    (h : s.context.Tidy)
    (hmild : s.context.Mild)
    (item : Item)
    (hbound : ((handleNoting item).run s).2.module.nextId < UInt32.size) :
    ((handleNoting item).run s).2.context.Tidy := by
  obtain ⟨notes, -, hrun⟩ := run_handleNoting item s
  rw [hrun] at hbound ⊢
  have htidy := tidy_handleItem h hmild item s.evaluate hbound
  exact ⟨htidy.module, htidy.cursor⟩

/-- Whatever items are handled, the table of functions stays in order. -/
theorem tidy_handleAll
    {s : Session}
    (h : s.context.Tidy)
    (hmild : s.context.Mild)
    (items : List Item)
    (hbound : ((handleAll items).run s).2.module.nextId < UInt32.size) :
    ((handleAll items).run s).2.context.Tidy := by
  induction items generalizing s with
  | nil => exact h
  | cons item items ih =>
      have hsteady := steady_handleNoting h.cursor item
      rw [run_handleAll_cons] at hbound ⊢
      have hissued :=
        Nat.lt_of_le_of_lt (steady_handleAll hsteady.cursor items).issued hbound
      exact ih (tidy_handleNoting h hmild item hissued) (hsteady.mild hmild) hbound

/--
In a session that started afresh, with or without the host functions, an expression leaves
the functions and the names as they were, if it cannot be lowered or if the name that is
used for expressions is free, and only then.  If the name is that of a declaration without
parameters, this declaration is erased when the expression has been run or shown, whether or
not the run failed.
-/
theorem expression_leaves_module
    (settings : Settings)
    (passes : Pipeline)
    (hpasses : ∀ pass ∈ passes, pass ∈ [Pass.folding, Pass.branches, Pass.unused])
    (host evaluate : Bool)
    (items : List Item)
    {s : Session}
    (hs : s = ((handleAll items).run (.fresh settings passes host evaluate)).2)
    (hbound : s.module.nextId < UInt32.size)
    (e : Expr)
    {r : Except SessionError Outcome}
    {s' : Session}
    (hrun : (handle (.expression e)).run s = (r, s')) :
    (s'.module.functions = s.module.functions ∧ s'.module.names = s.module.names ↔
      s.module.find? anonymous = none ∨ ∃ fault, r = .error (.lower fault)) ∧
    ∀ f ∈ s.module.functions, f.name = anonymous → (∀ fault, r ≠ .error (.lower fault)) →
      f.hasBody = false ∧ f.arity = 0 ∧ s'.module.functions =
        s.module.functions.filter (fun g => g.id != f.id) ∧
        s'.module.names = s.module.names.filter fun entry => entry.1 != anonymous := by
  have hmild₀ : (fresh settings passes host evaluate).context.Mild := by
    intro _ pass hpass
    rw [passes_fresh] at hpass
    exact Pass.gentle_of_mem (hpasses pass hpass)
  have htidy₀ := tidy_fresh settings passes host evaluate
  have htidy : s.context.Tidy := by
    rw [hs]
    exact tidy_handleAll htidy₀ hmild₀ items (hs ▸ hbound)
  have hmild : s.context.Mild := by
    rw [hs]
    exact (steady_handleAll htidy₀.cursor items).mild hmild₀
  rcases hexpr : (handleExpr e s.evaluate).run s.context with ⟨r', c'⟩
  obtain ⟨rfl, rfl⟩ : r' = r ∧ { s with context := c' } = s' := by
    have hhandle : (handle (.expression e)).run s =
        (((handleExpr e s.evaluate).run s.context).1,
        { s with context := ((handleExpr e s.evaluate).run s.context).2 }) := rfl
    rw [hexpr] at hhandle
    exact Prod.ext_iff.1 (hhandle.symm.trans hrun)
  obtain ⟨-, hkept, herased⟩ := module_handleExpr htidy hbound hmild hexpr
  have htaken : ∀ f ∈ s.module.functions, f.name = anonymous →
      (∀ fault, r' ≠ .error (.lower fault)) →
      f.hasBody = false ∧ f.arity = 0 ∧ c'.module.functions =
        s.module.functions.filter (fun g => g.id != f.id) ∧
        c'.module.names = s.module.names.filter fun entry => entry.1 != anonymous := by
    intro f hf hname hlowered
    obtain ⟨hbody, harity, hfunctions, hnames⟩ := herased hlowered f hf hname
    refine ⟨hbody, harity,
      hfunctions.trans (Module.eraseP_eq_filter htidy.module.coherent.ids_nodup f.id), ?_⟩
    rw [hnames, ← hname]
    rfl
  refine ⟨⟨fun hsame => ?_, hkept⟩, htaken⟩
  -- a function that was erased is missed
  by_contra hnone
  obtain ⟨hfound, hlowered⟩ := not_or.1 hnone
  obtain ⟨id, hid⟩ := Option.ne_none_iff_exists'.1 hfound
  obtain ⟨f, hf, hname, -⟩ := htidy.module.coherent.find?_eq_some_iff.1 hid
  obtain ⟨-, -, hfunctions, -⟩ := htaken f hf hname fun fault hfault =>
    hlowered ⟨fault, hfault⟩
  have hgone : f ∈ s.module.functions.filter fun g => g.id != f.id := by
    rw [← hfunctions]
    exact hsame.1 ▸ hf
  simp at hgone

/-- A declaration of the name that is used for expressions, and a function that calls it. -/
def reserved : List Item :=
  [.declaration ⟨anonymous, []⟩, .definition ⟨⟨"f", []⟩, .call anonymous []⟩]

/-- The session that has handled both. -/
def reservedSession : Session :=
  ((handleAll reserved).run (.fresh ⟨true, true, 8, 100⟩ .standard false true)).2

/-- The names of the functions after an expression, and what the check says. -/
theorem expression_erases_declaration :
    reservedSession.module.functions.map (·.name) = [anonymous, "f"] ∧
      reservedSession.module.malformed = [] ∧
      ((handle (.expression (.number 1.0))).run reservedSession).1 = .ok (.evaluated 1.0) ∧
      ((handle (.expression (.number 1.0))).run reservedSession).2.module.functions.map
        (·.name) = ["f"] ∧
      ((handle (.expression (.number 1.0))).run reservedSession).2.module.malformed =
        [⟨"f", [.missingCallee anonymous]⟩] := by
  decide +kernel

/-- The session with the host functions and a function that calls itself. -/
def endless : Session :=
  ((handleAll
    [.definition
      ⟨⟨"g", []⟩, .binary '+' (.call "printd" [.number 1.0]) (.call "g" [])⟩]).run
    (.fresh ⟨true, true, 8, 100⟩ .standard true true)).2

/-- Without a declaration of that name the module is as it was, also when the run fails. -/
theorem expression_keeps_function :
    ((handle (.expression (.call "g" []))).run endless).1 = .error (.exec (.depthLimit 8)) ∧
      ((handle (.expression (.call "g" []))).run endless).2.module.functions =
        endless.module.functions := by
  refine ⟨by decide +kernel, ?_⟩
  have hkept :=
    (expression_leaves_module ⟨true, true, 8, 100⟩ .standard (by simp [Pipeline.standard])
    true true
      [.definition ⟨⟨"g", []⟩, .binary '+' (.call "printd" [.number 1.0]) (.call "g" [])⟩]
    (s := endless) rfl (by decide +kernel) (.call "g" []) Prod.mk.eta.symm).1.2
      (.inl (by decide +kernel))
  exact hkept.1

end Session

end ScalarSsa
