import ScalarSsa.Proofs.Lowering.Bodies
import ScalarSsa.Proofs.Lowering.Lockstep

/-!
# Lowering signatures and definitions

**Input.** A context, and a signature or a definition that is lowered in it.

**Definitions.** `Installed` says which function a signature gets: the declaration that
bears its name, or a new one.

**Results.** `run_declareSignature`: a signature without an error is installed.
`ensures_emitBody`: the body that a function gets is the one that was emitted.
`agree_emitBody`: two contexts with the same declaration get the same body, or fail alike.
-/

namespace ScalarSsa

/-! ## Modules that get a function -/

namespace Module

theorem Grows.mapFunction
    {m : Module}
    {id : FuncId}
    {f g : Function}
    (hg : m.function? id = some g)
    (hheader : f.header = g.header) :
    m.Grows (m.mapFunction id fun _ => f) := by
  have hid : f.id = id := (congrArg (·.1) hheader).trans (id_of_function? hg)
  refine ⟨fun name func hname => hname, fun func h hh => ?_⟩
  rw [Module.function?_mapFunction _ _ _ fun _ _ => hid, hh, Option.map_some]
  refine ⟨_, rfl, ?_⟩
  by_cases hfunc : h.id = id
  · rw [if_pos hfunc]
    obtain rfl : g = h := by
      rw [← id_of_function? hh, hfunc, hg] at hh
      exact Option.some.inj hh
    exact ⟨congrArg (fun header => header.2.1) hheader,
      congrArg (fun header => header.2.2.length) hheader⟩
  · rw [if_neg hfunc]
    exact ⟨rfl, rfl⟩

end Module

/--
One function was worked on, which has kept its header; apart from it only the cursor and the
journal are new.
-/
def Context.Touched (id : FuncId) (c d : Context) : Prop :=
  ∃ change cursor events, (∀ f, (change f).header = f.header) ∧ Journal.Hostless events ∧
    d = { c with builder :=
      ⟨c.module.mapFunction id change, cursor, events ++ c.builder.journal⟩ }

namespace Lowering

/-! ## Signatures -/

theorem repeatedParam?_eq_none_iff
    (seen params : List String) :
    repeatedParam? seen params = none ↔ params.Nodup ∧ ∀ param ∈ params, param ∉ seen := by
  induction params generalizing seen with
  | nil => simp [repeatedParam?]
  | cons param rest ih =>
      rw [repeatedParam?]
      by_cases hseen : param ∈ seen
      · simp [hseen]
      · simp only [List.contains_iff_mem, hseen, if_false, ih, List.nodup_cons,
          List.mem_cons, not_or]
        constructor
        · rintro ⟨hnodup, hall⟩
          refine ⟨⟨fun hmem => (hall param hmem).1 rfl, hnodup⟩, ?_⟩
          rintro p (rfl | hp)
          · exact hseen
          · exact (hall p hp).2
        · rintro ⟨⟨hnot, hnodup⟩, hall⟩
          exact ⟨hnodup, fun p hp => ⟨fun heq => hnot (heq ▸ hp), hall p (.inr hp)⟩⟩

/--
A signature without an error has distinct parameters, and its name is free or that of a
declaration of its arity.
-/
theorem of_signatureError?_eq_none
    {m : Module}
    {s : Signature}
    (h : signatureError? m s = none) :
    s.params.Nodup ∧ ∀ id f, m.find? s.name = some id → m.function? id = some f →
      f.hasBody = false ∧ f.arity = s.arity := by
  have hparams : repeatedParam? [] s.params = none := by
    cases hrepeated : repeatedParam? [] s.params with
    | none => rfl
    | some param =>
        simp only [signatureError?, hrepeated] at h
        split at h <;> simp_all
  refine ⟨((repeatedParam?_eq_none_iff [] s.params).1 hparams).1, fun id f hname hf => ?_⟩
  have hexisting : existing? m s.name = some (id, f.hasBody, f.arity) := by
    simp [existing?, hname, hf]
  simp only [signatureError?, hexisting, hparams] at h
  cases hbody : f.hasBody with
  | true => simp [hbody] at h
  | false =>
      simp only [hbody] at h
      split at h
      · next harity => exact ⟨rfl, harity⟩
      · cases h

/-- The function that a signature gets, and the module with it. -/
def Installed (m : Module) (s : Signature) (id : FuncId) (m' : Module) : Prop :=
  m.find? s.name = none ∧ id = m.freshId ∧ m' = m.declare s.name s.params ∨
    m.find? s.name = some id ∧ m' = m.mapFunction id fun f => { f with params := s.params }

theorem existing?_map_fst
    (m : Module)
    (name : String) :
    (existing? m name).map (·.1) = m.find? name := by
  unfold existing?
  cases m.find? name with
  | none => rfl
  | some id => cases hf : m.function? id <;> simp [hf]

/-- The names that the parameters of a name's function have. -/
def previous? (m : Module) (name : String) : Option (List String) :=
  (m.find? name).map fun id => ((m.function? id).map (·.params)).getD []

theorem run_install
    (c : Context)
    (s : Signature) :
    ∃ id m notes, (install s).run c =
        ((id, previous? c.module s.name),
          { c with builder := ⟨m, c.builder.cursor, notes ++ c.builder.journal⟩ }) ∧
      Installed c.module s id m ∧ Journal.Quiet notes := by
  have hname := existing?_map_fst c.module s.name
  cases hexisting : existing? c.module s.name with
  | none =>
      rw [hexisting] at hname
      refine ⟨c.module.freshId, c.module.declare s.name s.params,
        [.note ⟨.trace, .table, "declared function '" ++ s.name ++ "' as " ++
          c.module.freshId.text⟩], ?_,
        .inl ⟨hname.symm, rfl, rfl⟩, Journal.Quiet.cons (fun _ h => by cases h) _⟩
      rw [install, run_stateGet_bind, previous?, ← hname]
      simp only [hexisting]
      rfl
  | some known =>
      rw [hexisting] at hname
      refine ⟨known.1,
        c.module.mapFunction known.1 (fun f => { f with params := s.params }), [], ?_,
        .inr ⟨hname.symm, rfl⟩, fun _ h => by cases h⟩
      rw [install, run_stateGet_bind, previous?, ← hname]
      simp only [hexisting]
      rfl

/-- A signature without an error is installed and its parameters are bound. -/
theorem run_declareSignature
    {c : Context}
    {s : Signature}
    (hvalid : signatureError? c.module s = none) :
    ∃ id m notes, (declareSignature s).run.run c =
        (.ok (id, previous? c.module s.name), { c with
          builder := ⟨m, c.builder.cursor, notes ++ c.builder.journal⟩
          scope := c.scope.bindParams 0 s.params }) ∧
      Installed c.module s id m ∧ Journal.Quiet notes := by
  obtain ⟨id, m, notes, hinstall, hinstalled, hnotes⟩ := run_install c s
  refine ⟨id, m, notes, ?_, hinstalled, hnotes⟩
  have hdone : (do
      let declared ← install s
      mapScope fun scope => scope.bindParams 0 s.params
      return declared : Lowering (FuncId × Option (List String))).run.run c =
      (.ok ((install s).run c).1,
        { ((install s).run c).2 with scope :=
          ((install s).run c).2.scope.bindParams 0 s.params }) := rfl
  rw [declareSignature, run_bind_ok (run_get c)]
  simp only [hvalid]
  rw [hdone, hinstall]

theorem run_declareSignature_error
    {c : Context}
    {s : Signature}
    {e : LowerError}
    (h : signatureError? c.module s = some e) :
    (declareSignature s).run.run c =
      (.error e, c.mapBuilder (Builder.record (.report e.report))) := by
  rw [declareSignature, run_bind_ok (run_get c)]
  simp only [h]
  rfl

/-! ## Bodies -/

/-- Puts a body into a function that has none. -/
def emitBody (id : FuncId) (body : Expr) : Lowering Unit := do
  let entry ← build (Builder.appendBlock id "entry")
  moveTo id entry
  let result ← lowerExpr body
  build (Builder.ret result.operand)

/-- Checks a function, if this is wanted. -/
def checkWhen (wanted : Bool) (id : FuncId) : Lowering Unit :=
  if wanted then check id else pure ()

/-- Checks and transforms a function as the settings say. -/
def settleBody (id : FuncId) : Lowering Unit := do
  let settings := (← get).settings
  checkWhen settings.verify id
  if settings.optimize then
    optimize id
    checkWhen settings.verify id

theorem lowerBody_eq
    (id : FuncId)
    (body : Expr) :
    lowerBody id body = emitBody id body >>= fun _ => settleBody id := by
  simp only [lowerBody, emitBody, bind_assoc]
  refine bind_congr fun _ => bind_congr fun _ => bind_congr fun _ => bind_congr fun _ =>
    bind_congr fun c => ?_
  cases hverify : c.settings.verify <;> simp [checkWhen, hverify]

/-- A body is put in from the first block on. -/
theorem run_emitBody
    {c : Context}
    {id : FuncId}
    {name : String}
    {params : List String}
    (hf : c.module.function? id = some (.declaration id name params))
    (body : Expr) :
    ∃ note, (emitBody id body).run.run c =
      (lowerExpr body >>= fun result => build (Builder.ret result.operand)).run.run
        (c.atSite (.start (.declaration id name params)) [.note note]) := by
  obtain ⟨text, happend⟩ := Builder.run_appendBlock hf "entry"
  refine ⟨⟨.trace, .builder, text⟩, ?_⟩
  have hstart : ({ c with
      builder :=
        { (c.builder.mapFunction id fun f => f.appendBlock "entry").note .trace
          .builder text with
        cursor := some ⟨id, .ofCount 0⟩ } } : Context) =
      c.atSite (.start (.declaration id name params)) [.note ⟨.trace, .builder, text⟩] := by
    have hmap : c.module.mapFunction id (fun f => f.appendBlock "entry") =
        c.module.mapFunction id fun _ =>
          (Function.declaration id name params).appendBlock "entry" :=
      Module.mapFunction_congr hf rfl
    simp only [Context.atSite, Builder.atSite, Builder.mapFunction,
      Builder.note, Builder.record]
    change Context.mk
      ⟨c.module.mapFunction id (fun f => f.appendBlock "entry"), _, _⟩ _ _ _ = _
    rw [hmap]
    rfl
  rw [emitBody, run_bind_ok (run_build_ok happend), ← hstart]
  rfl

/-- The body that was put in is the one that was emitted, and its value is returned. -/
theorem ensures_emitBody
    {c : Context}
    {id : FuncId}
    {name : String}
    {params : List String}
    (hf : c.module.function? id = some (.declaration id name params))
    (body : Expr) :
    Ensures (emitBody id body) c fun _ d => ∃ o t notes, Journal.Quiet notes ∧
      Emits c.module c.scope [body] (.start (.declaration id name params)) [o] t ∧
      d = c.atSite (t.close (.ret o)) notes := by
  obtain ⟨note, hrun⟩ := run_emitBody hf body
  have hdeclares : c.builder.Declares (.start (.declaration id name params))
      (.declaration id name params) :=
    ⟨hf, rfl⟩
  have hquiet : Journal.Quiet [.note note] := Journal.Quiet.cons (fun _ h => by cases h) _
  unfold Ensures
  rw [hrun]
  refine Ensures.bind (ensures_lowerExpr body hdeclares _ hquiet) ?_
  rintro ⟨o, _⟩ _ ⟨t, ⟨hemits, notes, hnotes, rfl⟩, rfl⟩
  refine (ensures_build
    (Builder.ensures_terminate (hdeclares.of_header hemits.header_eq) (.ret o))).mono ?_
  rintro _ _ ⟨_, rfl, rfl⟩
  exact ⟨o, t, notes, hnotes, hemits, rfl⟩

/--
Two contexts that have the same function without a body get the same body, or fail alike.
-/
theorem agree_emitBody
    {ρ : FuncId → FuncId}
    {c d : Context}
    (hscope : c.scope = d.scope)
    (hcursor : c.builder.cursor = none)
    (hcursor' : d.builder.cursor = none)
    {id : FuncId}
    (hcurrent : d.module.function? (ρ id) = (c.module.function? id).map (Function.rename ρ))
    (hnames : ∀ name, d.module.find? name = (c.module.find? name).map ρ)
    (htitles : ∀ g, (d.module.function? (ρ g)).map Function.title =
      (c.module.function? g).map Function.title)
    (body : Expr) :
    Agree (LowerError.rename ρ)
      (Context.Over (Builder.Changed ρ c.builder d.builder id) c d) (emitBody id body) c
      (emitBody (ρ id) body) d Eq := by
  have hU := Builder.Changed.uniform hcurrent hnames htitles
  have h : Context.Over (Builder.Changed ρ c.builder d.builder id) c d c d :=
    ⟨_, _, .refl hcursor hcursor', rfl, rfl⟩
  refine (agree_build hU h fun _ _ hb =>
    Builder.agree_appendBlock hU hb rfl "entry").bind_eq fun entry _ _ h => ?_
  refine agree_moveTo_bind hU h rfl entry fun _ _ h => ?_
  refine (agree_lowerExpr hU hscope body _ _ h).bind_eq fun result _ _ h => ?_
  exact agree_build hU h fun _ _ hb => Builder.agree_terminate hU hb _

/-- What a body leaves behind whether or not it was put in. -/
theorem leaves_emitBody
    {c : Context}
    (hcursor : c.builder.cursor = none)
    (id : FuncId)
    (body : Expr) :
    Leaves (emitBody id body) c (c.Touched id) := by
  have hagree : Agree (LowerError.rename fun g => g)
      (Context.Over (Builder.Changed (fun g => g) c.builder c.builder id) c c)
      (emitBody id body) c (emitBody id body) c Eq := by
    refine agree_emitBody rfl hcursor hcursor ?_ (fun name => ?_) (fun g => rfl) body
    · cases c.module.function? id <;> simp
    · simp
  obtain ⟨b, b', hb, hrun, -⟩ := hagree.leaves
  obtain ⟨change, change', hchange, -, -, hmodule, -⟩ := hb.module
  obtain ⟨events, hevents, hjournal⟩ := hb.journal
  refine ⟨change, b.cursor, events, hchange, hevents, ?_⟩
  rw [hrun]
  obtain ⟨m, cursor, journal⟩ := b
  subst hmodule hjournal
  rfl

/-! ## Definitions -/

/-- Functions without a body are as they were declared. -/
def Pristine (m : Module) : Prop :=
  ∀ f ∈ m.functions, f.hasBody = false → f = .declaration f.id f.name f.params

/-- The function that a signature gets is a declaration with its name and its parameters. -/
theorem Installed.function?_eq
    {m m' : Module}
    {s : Signature}
    {id : FuncId}
    (h : Installed m s id m')
    (hm : m.Coherent)
    (hpristine : Pristine m)
    (hbound : m.nextId < UInt32.size)
    (hvalid : signatureError? m s = none) :
    m'.Coherent ∧ m'.function? id = some (.declaration id s.name s.params) := by
  rcases h with ⟨hfree, rfl, rfl⟩ | ⟨hname, rfl⟩
  · have hm' := hm.declare hfree hbound s.params
    exact ⟨hm', hm'.function?_eq_some_iff.2 ⟨by simp [Module.declare], rfl⟩⟩
  · have hm' : (m.mapFunction id fun f => { f with params := s.params }).Coherent :=
      hm.mapFunction fun f _ _ => ⟨rfl, rfl⟩
    refine ⟨hm', ?_⟩
    obtain ⟨f, hf, hfname, rfl⟩ := hm.find?_eq_some_iff.1 hname
    have hfunction := hm.function?_eq_some_iff.2 ⟨hf, rfl⟩
    have hbody := ((of_signatureError?_eq_none hvalid).2 f.id f hname hfunction).1
    have hnew : ({ f with params := s.params } : Function) =
      .declaration f.id s.name s.params := by
      rw [← hfname]
      exact congrArg (fun g : Function => { g with params := s.params })
        (hpristine f hf hbody)
    exact hm'.function?_eq_some_iff.2
      ⟨hm.mem_mapFunction.2 ⟨f, hf, by rw [if_pos rfl]; exact hnew⟩, rfl⟩

/-! ## Modules in which a signature was installed -/

variable {m m' : Module} {s : Signature} {id : FuncId}

theorem Installed.nextId_le
    (h : Installed m s id m') :
    m.nextId ≤ m'.nextId := by
  rcases h with ⟨-, -, rfl⟩ | ⟨-, rfl⟩
  · exact Nat.le_succ _
  · exact Nat.le_refl _

/-- The functions of a module in which a signature was installed. -/
theorem Installed.mem_cases
    (h : Installed m s id m')
    (hm : m'.Coherent)
    (hf : m'.function? id = some (.declaration id s.name s.params))
    {g : Function}
    (hg : g ∈ m'.functions) :
    g = .declaration id s.name s.params ∨ g ∈ m.functions ∧ g.id ≠ id ∧
      g.name ≠ s.name := by
  by_cases hid : g.id = id
  · exact .inl (hm.eq_of_id_eq hg (Module.mem_of_function? hf) hid)
  · refine .inr ⟨?_, hid, fun hname => ?_⟩
    · rcases h with ⟨-, rfl, rfl⟩ | ⟨-, rfl⟩
      · rcases List.mem_append.1 hg with hg | hg
        · exact hg
        · rw [List.mem_singleton.1 hg] at hid
          exact absurd rfl hid
      · rcases Module.of_mem_changeFirst hg with hg | ⟨f, -, hfid, rfl⟩
        · exact hg
        · exact absurd hfid hid
    · exact hid
        (congrArg Function.id (hm.eq_of_name_eq hg (Module.mem_of_function? hf) hname))

theorem Installed.grows
    (h : Installed m s id m')
    (hm : m.Coherent)
    (hm' : m'.Coherent)
    (hvalid : signatureError? m s = none) :
    m.Grows m' := by
  rcases h with ⟨-, rfl, rfl⟩ | ⟨hname, rfl⟩
  · have hmem : ∀ f ∈ m.functions, f ∈ (m.declare s.name s.params).functions :=
      fun f hf => List.mem_append_left _ hf
    refine ⟨fun name id hid => ?_, fun id f hf => ?_⟩
    · obtain ⟨f, hf, hfacts⟩ := hm.find?_eq_some_iff.1 hid
      exact hm'.find?_eq_some_iff.2 ⟨f, hmem f hf, hfacts⟩
    · obtain ⟨hf, hfid⟩ := hm.function?_eq_some_iff.1 hf
      exact ⟨f, hm'.function?_eq_some_iff.2 ⟨hmem f hf, hfid⟩, rfl, rfl⟩
  · refine ⟨fun _ _ hid => hid, fun g f hf => ?_⟩
    have hid : ∀ f : Function, f.id = id → ({ f with params := s.params } : Function).id =
      id := fun _ hf => hf
    rw [Module.function?_mapFunction _ _ _ hid, hf, Option.map_some]
    refine ⟨_, rfl, ?_⟩
    by_cases hfid : f.id = id
    · rw [if_pos hfid]
      obtain rfl : g = id := (Module.id_of_function? hf).symm.trans hfid
      exact ⟨rfl, ((of_signatureError?_eq_none hvalid).2 g f hname hf).2.symm⟩
    · rw [if_neg hfid]
      exact ⟨rfl, rfl⟩

/--
A function with a signature's name and parameters is put in the place of its declaration.
-/
theorem Installed.put
    (h : Installed m s id m')
    (hm : m.Coherent)
    (hm' : m'.Coherent)
    (hf : m'.function? id = some (.declaration id s.name s.params))
    (hvalid : signatureError? m s = none)
    {g : Function}
    (hheader : g.header = (id, s.name, s.params)) :
    (m'.mapFunction id fun _ => g).Coherent ∧ m'.Grows (m'.mapFunction id fun _ => g) ∧
      m.Grows (m'.mapFunction id fun _ => g) ∧
      g ∈ (m'.mapFunction id fun _ => g).functions ∧
      ∀ h ∈ (m'.mapFunction id fun _ => g).functions, h = g ∨ h ∈ m.functions ∧ h.id ≠ id ∧
        h.name ≠ s.name := by
  have hbody := Module.Grows.mapFunction hf hheader
  refine ⟨?_, hbody, (h.grows hm hm' hvalid).trans hbody, ?_, ?_⟩
  · refine hm'.mapFunction fun f hfm hfid => ?_
    rw [hm'.eq_of_id_eq hfm (Module.mem_of_function? hf) hfid]
    exact ⟨congrArg (·.1) hheader, congrArg (fun header => header.2.1) hheader⟩
  · exact hm'.mem_mapFunction.2 ⟨_, Module.mem_of_function? hf, if_pos rfl⟩
  · intro f' hf'
    obtain ⟨f, hfm, rfl⟩ := hm'.mem_mapFunction.1 hf'
    by_cases hfid : f.id = id
    · exact .inl (if_pos hfid)
    · rw [if_neg hfid]
      rcases h.mem_cases hm' hf hfm with rfl | hold
      · exact absurd rfl hfid
      · exact .inr hold

end Lowering
end ScalarSsa
