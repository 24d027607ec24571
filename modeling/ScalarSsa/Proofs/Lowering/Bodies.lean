import ScalarSsa.Proofs.Lowering.Simulation

/-!
# Lowered bodies

**Input.** A definition, and the module in which the names of its body are looked up.

**Definitions.** `Lowers` says that a function is what lowering makes of a definition: its
body was emitted from the function's first block on, and its value is returned.

**Results.** `Lowers.mono`: a module that knows more functions changes nothing.
`Lowers.answers`: a call of the function ends as the body evaluates.
-/

namespace ScalarSsa

/-! ## Names of parameters -/

namespace Scope

theorem find?_bind
    (scope : Scope)
    (param name : String)
    (o : Operand) :
    (scope.bind param o).find? name = if name = param then some o
      else scope.find? name := by
  by_cases h : name = param
  · simp [find?, bind, h]
  · have hne : (name == param) = false := by simpa using h
    simp only [find?, bind, List.lookup_cons, hne, h, if_false]
    exact Machine.Frame.lookup_filter_ne h scope

/-- A name stands for its parameter, or for what it stood for before. -/
theorem find?_bindParams
    {params : List String}
    {scope : Scope}
    {position : Nat}
    {name : String}
    {o : Operand}
    (h : (scope.bindParams position params).find? name = some o) :
    scope.find? name = some o ∨
      ∃ i, params[i]? = some name ∧ o = .arg ((position + i) % UInt32.size) := by
  induction params generalizing scope position with
  | nil => exact .inl h
  | cons param rest ih =>
      rcases ih h with hold | ⟨i, hi, rfl⟩
      · rw [find?_bind] at hold
        split at hold
        · next heq =>
          cases hold
          exact .inr ⟨0, by simp [heq], rfl⟩
        · exact .inl hold
      · refine .inr ⟨i + 1, by simpa using hi, ?_⟩
        rw [Nat.add_assoc, Nat.add_comm 1 i]

/-- The names that stand for something are the parameters and those before them. -/
theorem isSome_find?_bindParams
    (scope : Scope)
    (position : Nat)
    (params : List String)
    (name : String) :
    ((scope.bindParams position params).find? name).isSome ↔ (scope.find? name).isSome ∨
      name ∈ params := by
  induction params generalizing scope position with
  | nil => simp [bindParams]
  | cons param rest ih =>
      rw [bindParams, ih, find?_bind, List.mem_cons]
      by_cases h : name = param
      · simp [h]
      · simp [h]

end Scope

/-- The value of a name among distinct parameters is the argument at its place. -/
theorem lookup_zip_of_nodup
    {params : List String}
    {args : List Float}
    (hnodup : params.Nodup)
    {i : Nat}
    {name : String}
    {x : Float}
    (hname : params[i]? = some name)
    (hx : args[i]? = some x) :
    (params.zip args).lookup name = some x := by
  induction params generalizing args i with
  | nil => simp at hname
  | cons param rest ih =>
      cases args with
      | nil => simp at hx
      | cons arg args =>
          rw [List.nodup_cons] at hnodup
          cases i with
          | zero =>
              simp only [List.getElem?_cons_zero, Option.some.injEq] at hname hx
              simp [hname, hx]
          | succ i =>
              simp only [List.getElem?_cons_succ] at hname hx
              have hne : (name == param) = false := by
                have hmem := List.mem_of_getElem? hname
                simpa using fun heq : name = param => hnodup.1 (heq ▸ hmem)
              simp [List.lookup_cons, hne, ih hnodup.2 hname hx]

/-! ## Modules that know more functions -/

/--
The later module knows the functions of the earlier one under the same names and
with the same arity.
-/
structure Module.Grows (m m' : Module) : Prop where
  names : ∀ name id, m.find? name = some id → m'.find? name = some id
  functions : ∀ id f, m.function? id = some f → ∃ f', m'.function? id = some f' ∧
    f'.name = f.name ∧ f'.arity = f.arity

namespace Module.Grows

variable {m m' m'' : Module}

theorem trans
    (h : m.Grows m')
    (h' : m'.Grows m'') :
    m.Grows m'' := by
  refine ⟨fun name id hname => h'.names name id (h.names name id hname), fun id f hf => ?_⟩
  obtain ⟨f', hf', hname, harity⟩ := h.functions id f hf
  obtain ⟨f'', hf'', hname', harity'⟩ := h'.functions id f' hf'
  exact ⟨f'', hf'', hname'.trans hname, harity'.trans harity⟩

end Module.Grows

theorem Emits.mono
    {m m' : Module}
    {scope : Scope}
    {es : List Expr}
    {s t : Site}
    {os : List Operand}
    (hgrows : m.Grows m')
    (h : Emits m scope es s os t) :
    Emits m' scope es s os t := by
  induction h with
  | nil => exact .nil
  | cons _ _ ihhead ihtail => exact .cons ihhead ihtail
  | number => exact .number
  | var hname => exact .var hname
  | arith hop _ _ ihlhs ihrhs => exact .arith hop ihlhs ihrhs
  | less _ _ ihlhs ihrhs => exact .less ihlhs ihrhs
  | call hname hcallee harity _ ihargs =>
      obtain ⟨g', hg', hname', harity'⟩ := hgrows.functions _ _ hcallee
      rw [← hname']
      exact .call (hgrows.names _ _ hname) hg' (harity'.trans harity) ihargs
  | cond _ _ _ ihtest ihthen ihelse => exact .cond ihtest ihthen ihelse

/-! ## Bodies -/

/-- The site at which the body of a declaration starts. -/
def Site.start (f : Function) : Site :=
  ⟨f.appendBlock "entry", .ofCount f.nextBlock⟩

theorem Site.open_start
    (id : FuncId)
    (name : String)
    (params : List String) :
    (Site.start (.declaration id name params)).Open := by
  refine ⟨by simp [start, Function.blockIds, Function.appendBlock, Function.declaration],
    ?_, .empty (.ofCount 0) "entry", rfl, rfl⟩
  intro block hblock
  simp only [start, Function.blockIds, Function.appendBlock, Function.declaration,
    Block.empty, List.nil_append,
    List.map_cons, List.map_nil, List.mem_singleton] at hblock
  subst hblock
  exact Nat.zero_lt_one

/--
A function is what lowering makes of a definition, the names in its body being
looked up in a module.
-/
structure Lowers (m : Module) (d : Definition) (f : Function) : Prop where
  distinct : d.signature.params.Nodup
  body : ∃ o t, f = (t.close (.ret o)).func ∧
    Emits m (Scope.bindParams [] 0 d.signature.params) [d.body]
      (.start (.declaration f.id d.signature.name d.signature.params)) [o] t

namespace Lowers

variable {m m' : Module} {d : Definition} {f : Function}

theorem mono
    (h : Lowers m d f)
    (hgrows : m.Grows m') :
    Lowers m' d f := by
  obtain ⟨o, t, hf, hemits⟩ := h.body
  exact ⟨h.distinct, o, t, hf, hemits.mono hgrows⟩

theorem header_eq
    (h : Lowers m d f) :
    f.name = d.signature.name ∧ f.params = d.signature.params := by
  obtain ⟨o, t, hf, hemits⟩ := h.body
  have hheader : f.header = (f.id, d.signature.name, d.signature.params) :=
    (congrArg Function.header hf).trans hemits.header_eq
  exact ⟨congrArg (fun header => header.2.1) hheader,
    congrArg (fun header => header.2.2) hheader⟩

theorem header_eq_of_id
    (h : Lowers m d f)
    {id : FuncId}
    (hid : f.id = id) :
    f.header = (id, d.signature.name, d.signature.params) := by
  obtain ⟨hname, hparams⟩ := h.header_eq
  rw [Function.header, hid, hname, hparams]

/-- A lowered function starts in the block in which its body starts. -/
theorem entry?_eq
    (h : Lowers m d f) :
    f.entry? = some (.ofCount 0) := by
  obtain ⟨o, t, hf, hemits⟩ := h.body
  obtain ⟨more, hmore⟩ := hemits.blockIds_append
  have hids : f.blockIds = .ofCount 0 :: more := by
    rw [hf, Site.blockIds_close, hmore]
    rfl
  have hhead : f.entry? = f.blockIds.head? := by
    simp [ Function.entry?, Function.blockIds]
  rw [hhead, hids]
  rfl

theorem hasBody
    (h : Lowers m d f) :
    f.hasBody = true := by
  have hentry := h.entry?_eq
  cases hblocks : f.blocks with
  | nil => simp [ Function.entry?, hblocks] at hentry
  | cons b rest => simp [Function.hasBody, hblocks]

end Lowers

/-- What came of returning a value at a site came of the site. -/
theorem Site.completes_close
    {s : Site}
    (h : s.Open)
    (term : Terminator) :
    s.Completes (s.close term).func := by
  obtain ⟨b, hb, hterm⟩ := h.cursor
  have hclosed : (s.close term).func.block? s.block =
      some { b with term := some term } := by
    rw [block?_close, if_pos rfl, hb, Option.map_some]
  refine ⟨fun id c hc hsome => ?_, _, [], hclosed, ⟨b, hb, by simp⟩, by simp⟩
  rw [block?_close, if_neg, hc]
  rintro rfl
  rw [hb] at hc
  cases hc
  simp [hterm] at hsome

section Answers

open Machine

variable {m : Module} {d : Definition} {f : Function}
  {call : FuncId → List Float → Ending → Prop}
variable {evalCall : String → List Float → Evaluation Float}

/-- A call of a lowered function ends as its body evaluates. -/
theorem Lowers.answers
    (h : Lowers m d f)
    (hblocks : f.nextBlock ≤ UInt32.size)
    (hvalues : f.nextValue ≤ UInt32.size)
    (hpositions : d.signature.params.length ≤ UInt32.size)
    (hcall : ∀ name id g xs, m.find? name = some id → m.function? id = some g →
      g.arity = xs.length →
      ∃ steps, call id xs ⟨steps, (evalCall name xs).calls, (evalCall name xs).result⟩)
    {args : List Float}
    (hargs : f.arity = args.length) :
    ∃ steps,
      Answers call f args
        ⟨steps, (d.body.eval evalCall (d.signature.params.zip args)).calls,
          (d.body.eval evalCall (d.signature.params.zip args)).result⟩ := by
  obtain ⟨o, t, hf, hemits⟩ := h.body
  have hparams : d.signature.params.length = args.length := by
    rw [← h.header_eq.2]
    exact hargs
  have hscope : ∀ name o, (Scope.bindParams [] 0 d.signature.params).find? name = some o →
      ∃ position x, o = .arg position ∧ args[position]? = some x ∧
        (d.signature.params.zip args).lookup name = some x := by
    intro name o ho
    rcases Scope.find?_bindParams ho with hnone | ⟨i, hi, rfl⟩
    · simp [Scope.find?] at hnone
    · obtain ⟨hlt, -⟩ := List.getElem?_eq_some_iff.1 hi
      rw [Nat.zero_add, Nat.mod_eq_of_lt (Nat.lt_of_lt_of_le hlt hpositions)]
      refine ⟨i, args[i], rfl, by simp, ?_⟩
      exact lookup_zip_of_nodup h.distinct hi (by simp)
  have hopen := Site.open_start f.id d.signature.name d.signature.params
  have hblocks' : t.func.nextBlock ≤ UInt32.size := by
    rw [hf] at hblocks
    exact hblocks
  have hvalues' : t.func.nextValue ≤ UInt32.size := by
    rw [hf] at hvalues
    exact hvalues
  obtain ⟨hend, hext⟩ := hemits.open_extends hopen hblocks'
  have hdone : t.Completes f := hf ▸ Site.completes_close hend (.ret o)
  have hfaithful : Faithful call f evalCall _ args [d.body] _ [o] t :=
    faithful_of_emits hscope hcall hemits
  obtain ⟨b, rest, hhere⟩ := (hdone.of_extends hopen hext).cursor
  have hempty : b.phis = [] ∧ b.body = rest := by
    obtain ⟨-, ⟨c, hc, hrest⟩, hplain⟩ := hhere
    cases hc
    exact Block.phis_and_body hrest (by simp) hplain
  have hsimulates :
      Simulates call f _ t ⟨args, []⟩
        (d.body.eval evalCall (d.signature.params.zip args)) _ :=
    hfaithful.expr hopen hblocks' hvalues' hdone rfl
  have hrun := hsimulates b rest hhere
  have henter : ∀ ending, Runs call f ⟨args, []⟩ (.inside b rest) ending →
      Answers call f args ending := by
    intro ending hending
    rw [Answers, if_pos hargs, h.entry?_eq]
    refine .enter hhere.block (enter_of_no_phis _ _ hempty.1) ?_
    rwa [hempty.2]
  cases hresult : (d.body.eval evalCall (d.signature.params.zip args)).result with
  | error e =>
      simp only [hresult] at hrun
      obtain ⟨steps, hfails⟩ := hrun
      exact ⟨steps, henter _ hfails⟩
  | ok x =>
      simp only [hresult] at hrun
      obtain ⟨later, c, after, ⟨hc, ⟨c', hc', hafter⟩, -⟩, -, hread, steps, hpasses⟩ := hrun
      have hclosed : f.block? t.block = some { c' with term := some (.ret o) } := by
        rw [hf, Site.block?_close, if_pos rfl, hc', Option.map_some]
      rw [hc] at hclosed
      cases hclosed
      obtain rfl : after = [] := by simpa using hafter
      have hret : runTerm later f { c' with term := some (.ret o) } = .ok (.done x) := by
        simp only [runTerm, hread]
        rfl
      exact ⟨_, henter _ (hpasses _ (.done hret))⟩

end Answers

end ScalarSsa
