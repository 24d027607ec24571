import ScalarSsa.Verify.Check
import ScalarSsa.Proofs.Flow.Dominators

/-!
# Well-formed functions

**Input.** A module and a function whose blocks have distinct names.

**Definitions.** `WellFormed` states the rules that a function has to keep by itself, in
terms of trails and of splittings of a block's instructions rather than of computed sets and
places.  `CallsMatch` states the only rule that looks at the module.

**Results.** `verify_eq_ok_iff`: the check accepts exactly the well-formed functions
whose calls match.
-/

namespace ScalarSsa

namespace Function

/-- A value is computed in a block on the way to another one, before that one starts. -/
def ComputedBefore (f : Function) (v : ValueId) (id : BlockId) : Prop :=
  ∃ d ∈ f.blocks, d.id ≠ id ∧ v ∈ d.results ∧ f.Dominates d.id id

/-- A value is computed when a block ends. -/
def ComputedBy (f : Function) (v : ValueId) (id : BlockId) : Prop :=
  ∃ d ∈ f.blocks, v ∈ d.results ∧ f.Dominates d.id id

/-- The rules for a function by itself. -/
structure WellFormed (f : Function) : Prop where
  ids_nodup : f.blockIds.Nodup
  results_nodup : f.results.Nodup
  entry_free : ∀ entry, f.entry? = some entry → ∀ b ∈ f.blocks, entry ∉ b.successors
  terminated : ∀ b ∈ f.blocks, b.term ≠ none
  targets : ∀ b ∈ f.blocks, ∀ target ∈ b.successors, target ∈ f.blockIds
  typed : ∀ b ∈ f.blocks, ∀ i ∈ b.instrs, ∀ u ∈ i.kind.uses, f.HasType u.1 u.2
  term_typed : ∀ b ∈ f.blocks, ∀ u ∈ b.termUses, f.HasType u.1 u.2
  phis_first : ∀ b ∈ f.blocks, ∀ i ∈ b.body, i.kind.isPhi = false
  /-- A phi has edges from the predecessors and from no other block. -/
  phi_edges : ∀ b ∈ f.blocks, ∀ i ∈ b.instrs, ∀ type incoming, i.kind = .phi type incoming →
    ∀ pred, pred ∈ incoming.map (·.2) ↔ pred ∈ f.predecessors b.id
  /-- What an instruction uses is computed earlier in its block or before its block. -/
  uses : ∀ b ∈ f.blocks, f.Reachable b.id → ∀ pre i post, b.instrs = pre ++ i :: post →
    i.kind.isPhi = false →
    ∀ v, .result v ∈ i.kind.operands → v ∈ pre.map (·.dest) ∨ f.ComputedBefore v b.id
  ends : ∀ b ∈ f.blocks, f.Reachable b.id → ∀ v, .result v ∈ b.termOperands →
    f.ComputedBy v b.id
  /-- What comes over an edge is computed when the predecessor ends. -/
  edges : ∀ b ∈ f.blocks, ∀ i ∈ b.instrs, ∀ type incoming, i.kind = .phi type incoming →
    ∀ v pred, (.result v, pred) ∈ incoming → f.Reachable pred → f.ComputedBy v pred

/-- Every callee exists and takes as many arguments as it is given. -/
def CallsMatch (m : Module) (f : Function) : Prop :=
  ∀ b ∈ f.blocks, ∀ i ∈ b.instrs, ∀ callee name args, i.kind = .call callee name args →
    ∃ target, m.function? callee = some target ∧ target.arity = args.length

end Function

namespace Verify

open ScalarSsa.Function

variable {f : Function}

/-! ## Splittings of a block's instructions -/

theorem mem_zipIdx_iff_split
    {α : Type}
    {l : List α}
    {a : α}
    {n : Nat} :
    (a, n) ∈ l.zipIdx ↔ ∃ pre post, l = pre ++ a :: post ∧ pre.length = n := by
  rw [List.mk_mem_zipIdx_iff_getElem?]
  constructor
  · intro h
    obtain ⟨hlt, rfl⟩ := List.getElem?_eq_some_iff.mp h
    refine ⟨l.take n, l.drop (n + 1), ?_, ?_⟩
    · rw [← List.drop_eq_getElem_cons hlt, List.take_append_drop]
    · rw [List.length_take]
      omega
  · rintro ⟨pre, post, rfl, rfl⟩
    simp

/-- The phis all stand at the start if there is none behind the first other instruction. -/
theorem phis_at_start_iff
    {b : Block} :
    (∀ pre i post, b.instrs = pre ++ i :: post → i.kind.isPhi = true →
      pre.length < b.phis.length) ↔
      ∀ i ∈ b.body, i.kind.isPhi = false := by
  constructor
  · intro h i hi
    obtain ⟨l, r, hbody⟩ := List.append_of_mem hi
    have hsplit : b.instrs = (b.phis ++ l) ++ i :: r := by
      rw [← b.phis_append_body, hbody, List.append_assoc]
    by_contra hphi
    have hlt := h _ _ _ hsplit (by simpa using hphi)
    rw [List.length_append] at hlt
    omega
  · intro h pre i post hsplit hphi
    by_contra hle
    have hat : b.instrs[pre.length]? = some i := by simp [hsplit]
    rw [← b.phis_append_body, List.getElem?_append_right (by omega)] at hat
    rw [h i (List.mem_of_getElem? hat)] at hphi
    cases hphi

/-- The first of two splittings at a result is the shorter one. -/
theorem mem_pre_iff
    {b : Block}
    (hnodup : b.results.Nodup)
    {pre pre' post post' : List Instr}
    {i j : Instr}
    (hsplit : b.instrs = pre ++ i :: post)
    (hsplit' : b.instrs = pre' ++ j :: post') :
    j.dest ∈ pre.map (·.dest) ↔ pre'.length < pre.length := by
  constructor
  · intro hmem
    by_contra hle
    have hpre : pre <+: pre' :=
      List.prefix_of_prefix_length_le ⟨_, hsplit.symm⟩ ⟨_, hsplit'.symm⟩ (by omega)
    have hmem' : j.dest ∈ pre'.map (·.dest) := (hpre.map _).subset hmem
    rw [Block.results, hsplit', List.map_append, List.map_cons, List.nodup_append] at hnodup
    exact hnodup.2.2 _ hmem' _ List.mem_cons_self rfl
  · intro hlt
    have hat : b.instrs[pre'.length]? = some j := by simp [hsplit']
    rw [hsplit, List.getElem?_append_left hlt] at hat
    exact List.mem_map_of_mem (List.mem_of_getElem? hat)

/-! ## The rules one by one -/

theorem entryProblems_eq_nil_iff :
    entryProblems f = [] ↔ ∀ entry, f.entry? = some entry → ∀ b ∈ f.blocks,
      entry ∉ b.successors := by
  unfold entryProblems
  cases hentry : f.entry? with
  | none => simp
  | some entry =>
      have hempty : (f.predecessors entry).isEmpty = true ↔ ∀ b ∈ f.blocks,
          entry ∉ b.successors := by
        simp [predecessors, List.filter_eq_nil_iff]
      by_cases h : (f.predecessors entry).isEmpty = true
      · simpa [h] using hempty.mp h
      · simpa [h] using fun hall => h (hempty.mpr hall)

theorem repeatProblems_eq_nil_iff
    (seen : List ValueId)
    (instrs : List Instr) :
    repeatProblems seen instrs = [] ↔
      (instrs.map (·.dest)).Nodup ∧ ∀ i ∈ instrs, i.dest ∉ seen := by
  induction instrs generalizing seen with
  | nil => simp [repeatProblems]
  | cons i rest ih =>
      by_cases h : i.dest ∈ seen
      · simp [repeatProblems, h]
      · simp only [repeatProblems, List.contains_iff_mem, h, if_false, ih, List.map_cons,
          List.nodup_cons,
          List.mem_map, List.mem_cons, not_or, not_exists, not_and, forall_eq_or_imp,
            not_false_eq_true, true_and]
        constructor
        · rintro ⟨hnodup, hfresh⟩
          exact ⟨⟨fun j hj => (hfresh j hj).1, hnodup⟩, fun j hj => (hfresh j hj).2⟩
        · rintro ⟨⟨hne, hnodup⟩, hfresh⟩
          exact ⟨hnodup, fun j hj => ⟨hne j hj, hfresh j hj⟩⟩

theorem operandProblems_eq_nil_iff
    (hresults : f.results.Nodup)
    (role : Role)
    (expected : ValueType)
    (operand : Operand) :
    operandProblems f role expected operand = [] ↔ f.HasType operand expected := by
  rw [← typeOf?_eq_some_iff hresults]
  unfold operandProblems
  cases f.typeOf? operand with
  | none => simp
  | some actual => by_cases h : actual = expected <;> simp [h]

theorem termProblems_eq_nil_iff
    (hresults : f.results.Nodup)
    (block : BlockId)
    (term : Terminator) :
    termProblems f block term = [] ↔
      (∀ target ∈ term.successors, target ∈ f.blockIds) ∧ ∀ u ∈ term.uses,
        f.HasType u.1 u.2 := by
  unfold termProblems
  cases term <;>
    simp [Terminator.uses, operandProblems_eq_nil_iff hresults, List.filter_eq_nil_iff]

theorem edgeProblems_eq_nil_iff
    (hresults : f.results.Nodup)
    (block : BlockId)
    (phi : ValueId)
    (type : ValueType)
    (edge : Operand × BlockId) :
    edgeProblems f block phi type edge = [] ↔ f.HasType edge.1 type ∧
      edge.2 ∈ f.predecessors block := by
  simp [edgeProblems, operandProblems_eq_nil_iff hresults]

theorem phiProblems_eq_nil_iff
    (hresults : f.results.Nodup)
    (b : Block)
    (place : Nat)
    (phi : ValueId)
    (type : ValueType)
    (incoming : List (Operand × BlockId)) :
    phiProblems f b place phi type incoming = [] ↔
      place < b.phis.length ∧ (∀ edge ∈ incoming, f.HasType edge.1 type) ∧
        ∀ pred, pred ∈ incoming.map (·.2) ↔ pred ∈ f.predecessors b.id := by
  simp only [phiProblems, List.append_eq_nil_iff, List.flatMap_eq_nil_iff,
    List.map_eq_nil_iff,
    List.filter_eq_nil_iff, edgeProblems_eq_nil_iff hresults, Bool.not_eq_true',
    List.contains_eq_mem,
    decide_eq_false_iff_not, not_not]
  have hplace : (if place < b.phis.length then [] else [Problem.latePhi phi b.id]) = [] ↔
      place < b.phis.length := by
    by_cases h : place < b.phis.length <;> simp [h]
  rw [hplace]
  constructor
  · rintro ⟨⟨hlt, hedges⟩, hpreds⟩
    refine ⟨hlt, fun edge he => (hedges edge he).1, fun pred => ⟨?_, hpreds pred⟩⟩
    intro hmem
    obtain ⟨edge, he, rfl⟩ := List.mem_map.mp hmem
    exact (hedges edge he).2
  · rintro ⟨hlt, htyped, hpreds⟩
    exact ⟨⟨hlt, fun edge he => ⟨htyped edge he, (hpreds _).mp (List.mem_map_of_mem he)⟩⟩,
      fun pred => (hpreds pred).mpr⟩

theorem calleeProblems_eq_nil_iff
    (m : Module)
    (callee : FuncId)
    (name : String)
    (given : Nat) :
    calleeProblems m callee name given = [] ↔
      ∃ target, m.function? callee = some target ∧ target.arity = given := by
  unfold calleeProblems
  cases m.function? callee with
  | none => simp
  | some target => by_cases h : target.arity = given <;> simp [h]

/-! ## Blocks -/

/-- What the rules for a block by itself ask of an instruction. -/
def Placed (m : Module) (f : Function) (b : Block) (i : Instr) (place : Nat) : Prop :=
  (∀ u ∈ i.kind.uses, f.HasType u.1 u.2) ∧
    (i.kind.isPhi = true → place < b.phis.length) ∧
    (∀ type incoming, i.kind = .phi type incoming →
      ∀ pred, pred ∈ incoming.map (·.2) ↔ pred ∈ f.predecessors b.id) ∧
    ∀ callee name args, i.kind = .call callee name args →
      ∃ target, m.function? callee = some target ∧ target.arity = args.length

theorem instrProblems_eq_nil_iff
    (hresults : f.results.Nodup)
    (m : Module)
    (b : Block)
    (i : Instr)
    (place : Nat) :
    instrProblems m f b i place = [] ↔ Placed m f b i place := by
  unfold instrProblems Placed
  cases hkind : i.kind with
  | arith op lhs rhs =>
      simp [InstrKind.uses, InstrKind.isPhi, operandProblems_eq_nil_iff hresults]
  | compare pred lhs rhs =>
      simp [InstrKind.uses, InstrKind.isPhi, operandProblems_eq_nil_iff hresults]
  | promote src =>
      simp [InstrKind.uses, InstrKind.isPhi, operandProblems_eq_nil_iff hresults]
  | call callee name args =>
      simp only [InstrKind.uses, InstrKind.isPhi, operandProblems_eq_nil_iff hresults,
        List.append_eq_nil_iff,
        List.flatMap_eq_nil_iff, calleeProblems_eq_nil_iff, List.forall_mem_map]
      constructor
      · rintro ⟨hcallee, hargs⟩
        refine ⟨hargs, by simp, by simp, ?_⟩
        rintro _ _ _ ⟨⟩
        exact hcallee
      · rintro ⟨hargs, -, -, hcallee⟩
        exact ⟨hcallee _ _ _ rfl, hargs⟩
  | phi type incoming =>
      simp only [InstrKind.uses, InstrKind.isPhi, phiProblems_eq_nil_iff hresults,
        List.forall_mem_map]
      constructor
      · rintro ⟨hlt, htyped, hpreds⟩
        refine ⟨htyped, fun _ => hlt, ?_, by simp⟩
        rintro _ _ ⟨⟩
        exact hpreds
      · rintro ⟨htyped, hlt, hpreds, -⟩
        exact ⟨hlt trivial, htyped, hpreds _ _ rfl⟩

theorem blockProblems_eq_nil_iff
    (hresults : f.results.Nodup)
    (m : Module)
    (b : Block) :
    blockProblems m f b = [] ↔
      b.term ≠ none ∧ (∀ target ∈ b.successors, target ∈ f.blockIds) ∧
      (∀ u ∈ b.termUses, f.HasType u.1 u.2) ∧
        ∀ pre i post, b.instrs = pre ++ i :: post → Placed m f b i pre.length := by
  unfold blockProblems Block.successors Block.termUses
  cases b.term with
  | none => simp
  | some term =>
      simp only [List.append_eq_nil_iff, termProblems_eq_nil_iff hresults,
        List.flatMap_eq_nil_iff, Prod.forall,
        instrProblems_eq_nil_iff hresults, mem_zipIdx_iff_split, ne_eq, reduceCtorEq,
        not_false_eq_true, true_and,
        and_assoc]
      refine and_congr_right fun _ => and_congr_right fun _ => ?_
      constructor
      · intro h pre i post hsplit
        exact h i pre.length ⟨pre, post, hsplit, rfl⟩
      · rintro h i _ ⟨pre, post, hsplit, rfl⟩
        exact h pre i post hsplit

/-! ## Dominance -/

/-- The place of a definition, with its block. -/
theorem exists_definition
    {v : ValueId}
    (hv : v ∈ f.results) :
    ∃ d ∈ f.blocks, ∃ pre j post, d.instrs = pre ++ j :: post ∧ j.dest = v ∧
      f.definition? v = some (d.id, pre.length) := by
  cases hdef : f.definition? v with
  | none =>
      obtain ⟨b, hb, hmem⟩ := mem_results_iff.mp hv
      exact absurd hmem (findDefinition_eq_none_iff.mp hdef b hb)
  | some site =>
      obtain ⟨home, place⟩ := site
      obtain ⟨d, hd, rfl, pre, j, post, hsplit, rfl, hdest⟩ := findDefinition_eq_some hdef
      exact ⟨d, hd, pre, j, post, hsplit, hdest, rfl⟩

theorem mem_results_of_split
    {b : Block}
    {pre post : List Instr}
    {i : Instr}
    (h : b.instrs = pre ++ i :: post) :
    i.dest ∈ b.results := by
  simp [Block.results, h]

theorem useProblems_eq_nil_iff
    (hids : f.blockIds.Nodup)
    (hresults : f.results.Nodup)
    {b : Block}
    (hb : b ∈ f.blocks)
    (hreach : f.Reachable b.id)
    {pre post : List Instr}
    {i : Instr}
    (hsplit : b.instrs = pre ++ i :: post)
    {v : ValueId}
    (hv : v ∈ f.results)
    (user : ValueId) :
    useProblems f f.dominators b.id user pre.length (.result v) = [] ↔
      v ∈ pre.map (·.dest) ∨ f.ComputedBefore v b.id := by
  obtain ⟨d, hd, pre', j, post', hsplit', rfl, hdef⟩ := exists_definition hv
  have hmem := mem_results_of_split hsplit'
  simp only [useProblems, Operand.result?, hdef]
  by_cases hid : d.id = b.id
  · obtain rfl := block_eq_of_id_eq hids hd hb hid
    rw [mem_pre_iff (results_nodup_of_mem hresults hb) hsplit hsplit']
    have hno : ¬ f.ComputedBefore j.dest d.id := by
      rintro ⟨d', hd', hne, hmem', -⟩
      exact hne (congrArg Block.id (block_eq_of_mem_results hresults hd' hd hmem' hmem))
    by_cases hlt : pre'.length < pre.length <;> simp [hlt, hno]
  · have hnot : j.dest ∉ pre.map (·.dest) := by
      intro hin
      have hin' : j.dest ∈ b.results := by
        rw [Block.results, hsplit, List.map_append]
        exact List.mem_append_left _ hin
      exact hid (congrArg Block.id (block_eq_of_mem_results hresults hd hb hmem hin'))
    have hiff : f.ComputedBefore j.dest b.id ↔ f.dominators.dominates d.id b.id = true := by
      rw [dominates_iff hids]
      constructor
      · rintro ⟨d', hd', -, hmem', hdom⟩
        obtain rfl := block_eq_of_mem_results hresults hd' hd hmem' hmem
        exact ⟨List.mem_map_of_mem hb, hreach, hdom⟩
      · rintro ⟨-, -, hdom⟩
        exact ⟨d, hd, hid, hmem, hdom⟩
    rw [hiff]
    by_cases hdom : f.dominators.dominates d.id b.id = true <;> simp [hid, hnot, hdom]

/--
The home of a definition dominates a reachable block if the value is computed
when that block ends.
-/
theorem computedBy_iff
    (hids : f.blockIds.Nodup)
    (hresults : f.results.Nodup)
    {d : Block}
    (hd : d ∈ f.blocks)
    {v : ValueId}
    (hv : v ∈ d.results)
    {id : BlockId}
    (hid : id ∈ f.blockIds)
    (hreach : f.Reachable id) :
    f.ComputedBy v id ↔ f.dominators.dominates d.id id = true := by
  rw [dominates_iff hids]
  constructor
  · rintro ⟨d', hd', hmem', hdom⟩
    obtain rfl := block_eq_of_mem_results hresults hd' hd hmem' hv
    exact ⟨hid, hreach, hdom⟩
  · rintro ⟨-, -, hdom⟩
    exact ⟨d, hd, hv, hdom⟩

theorem endUseProblems_eq_nil_iff
    (hids : f.blockIds.Nodup)
    (hresults : f.results.Nodup)
    {b : Block}
    (hb : b ∈ f.blocks)
    (hreach : f.Reachable b.id)
    {v : ValueId}
    (hv : v ∈ f.results) :
    endUseProblems f f.dominators b.id (.result v) = [] ↔ f.ComputedBy v b.id := by
  obtain ⟨d, hd, pre', j, post', hsplit', rfl, hdef⟩ := exists_definition hv
  rw [computedBy_iff hids hresults hd (mem_results_of_split hsplit')
    (List.mem_map_of_mem hb) hreach]
  by_cases hdom : f.dominators.dominates d.id b.id = true <;>
    simp [endUseProblems, Operand.result?, hdef, hdom]

theorem edgeUseProblems_eq_nil_iff
    (hids : f.blockIds.Nodup)
    (hresults : f.results.Nodup)
    {v : ValueId}
    (hv : v ∈ f.results)
    {pred : BlockId}
    (hpred : pred ∈ f.blockIds)
    (phi : ValueId) :
    edgeUseProblems f f.dominators phi (.result v, pred) = [] ↔
      (f.Reachable pred → f.ComputedBy v pred) := by
  obtain ⟨d, hd, pre', j, post', hsplit', rfl, hdef⟩ := exists_definition hv
  have hmem := mem_results_of_split hsplit'
  have hsome : (f.dominators.of? pred).isSome = true ↔ f.Reachable pred := by
    simp [isSome_dominators_iff hids, hpred]
  by_cases hreach : f.Reachable pred
  · rw [computedBy_iff hids hresults hd hmem hpred hreach]
    by_cases hdom : f.dominators.dominates d.id pred = true <;>
      simp [edgeUseProblems, Operand.result?, hdef, hdom, hsome, hreach]
  · simp [edgeUseProblems, Operand.result?, hdef, hsome, hreach]

/-- What the dominance rules ask of a block. -/
structure Ordered (f : Function) (b : Block) : Prop where
  uses : ∀ pre i post, b.instrs = pre ++ i :: post → i.kind.isPhi = false →
    ∀ v, .result v ∈ i.kind.operands → v ∈ pre.map (·.dest) ∨ f.ComputedBefore v b.id
  ends : ∀ v, .result v ∈ b.termOperands → f.ComputedBy v b.id
  edges : ∀ i ∈ b.instrs, ∀ type incoming, i.kind = .phi type incoming →
    ∀ v pred, (.result v, pred) ∈ incoming → f.Reachable pred → f.ComputedBy v pred

/-- Rules about operands concern results only. -/
theorem flatMap_eq_nil_iff_results
    {operands : List Operand}
    {rule : Operand → List Problem}
    (hrule : ∀ o, o.result? = none → rule o = []) :
    operands.flatMap rule = [] ↔ ∀ v, .result v ∈ operands → rule (.result v) = [] := by
  rw [List.flatMap_eq_nil_iff]
  constructor
  · intro h v hv
    exact h _ hv
  · intro h o ho
    cases o with
    | result v => exact h v ho
    | const x => exact hrule _ rfl
    | bool b => exact hrule _ rfl
    | arg position => exact hrule _ rfl

theorem instrUseProblems_eq_nil_iff
    (hids : f.blockIds.Nodup)
    (hresults : f.results.Nodup)
    {b : Block}
    (hb : b ∈ f.blocks)
    (hreach : f.Reachable b.id)
    {pre post : List Instr}
    {i : Instr}
    (hsplit : b.instrs = pre ++ i :: post)
    (htyped : ∀ u ∈ i.kind.uses, f.HasType u.1 u.2)
    (hpreds : ∀ type incoming, i.kind = .phi type incoming →
      ∀ pred, pred ∈ incoming.map (·.2) ↔ pred ∈ f.predecessors b.id) :
    instrUseProblems f f.dominators b.id i pre.length = [] ↔
      (i.kind.isPhi = false → ∀ v, .result v ∈ i.kind.operands →
        v ∈ pre.map (·.dest) ∨ f.ComputedBefore v b.id) ∧
      ∀ type incoming, i.kind = .phi type incoming →
        ∀ v pred, (.result v, pred) ∈ incoming → f.Reachable pred →
          f.ComputedBy v pred := by
  have hdefined : ∀ v, .result v ∈ i.kind.operands → v ∈ f.results := by
    intro v hv
    obtain ⟨type, hu⟩ := InstrKind.exists_use_of_mem_operands hv
    exact (htyped _ hu).mem_results
  have hplain :
      i.kind.operands.flatMap (useProblems f f.dominators b.id i.dest pre.length) = [] ↔
      ∀ v, .result v ∈ i.kind.operands → v ∈ pre.map (·.dest) ∨
        f.ComputedBefore v b.id := by
    rw [flatMap_eq_nil_iff_results (by intro o ho; simp [useProblems, ho])]
    refine forall_congr' fun v => forall_congr' fun hv => ?_
    exact useProblems_eq_nil_iff hids hresults hb hreach hsplit (hdefined v hv) i.dest
  unfold instrUseProblems
  cases hkind : i.kind with
  | arith op lhs rhs => simpa [hkind, InstrKind.isPhi] using hplain
  | compare pred lhs rhs => simpa [hkind, InstrKind.isPhi] using hplain
  | promote src => simpa [hkind, InstrKind.isPhi] using hplain
  | call callee name args => simpa [hkind, InstrKind.isPhi] using hplain
  | phi type incoming =>
      have hpred : ∀ o pred, (o, pred) ∈ incoming → pred ∈ f.blockIds := by
        intro o pred he
        have hmem := (hpreds type incoming hkind pred).mp (List.mem_map_of_mem he)
        obtain ⟨p, hp, rfl, -⟩ := mem_predecessors_iff.mp hmem
        exact List.mem_map_of_mem hp
      have hin : ∀ v pred, (.result v, pred) ∈ incoming → v ∈ f.results := by
        intro v pred he
        refine hdefined v ?_
        rw [hkind]
        exact List.mem_map_of_mem he
      simp only [InstrKind.isPhi, Bool.true_eq_false, false_implies, true_and,
        List.flatMap_eq_nil_iff]
      constructor
      · rintro h _ _ ⟨⟩ v pred he
        exact (edgeUseProblems_eq_nil_iff hids hresults (hin v pred he) (hpred _ _ he)
          i.dest).mp (h _ he)
      · intro h edge he
        obtain ⟨o, pred⟩ := edge
        cases o with
        | result v =>
            exact (edgeUseProblems_eq_nil_iff hids hresults (hin v pred he)
              (hpred _ _ he) i.dest).mpr
              (h _ _ rfl v pred he)
        | const x => rfl
        | bool b => rfl
        | arg position => rfl

theorem dominanceProblems_eq_nil_iff
    (hids : f.blockIds.Nodup)
    (hresults : f.results.Nodup)
    {m : Module}
    {b : Block}
    (hb : b ∈ f.blocks)
    (hblock : blockProblems m f b = []) :
    dominanceProblems f f.dominators b = [] ↔ (f.Reachable b.id → Ordered f b) := by
  obtain ⟨-, -, hterm, hplaced⟩ := (blockProblems_eq_nil_iff hresults m b).mp hblock
  have hsome : (f.dominators.of? b.id).isSome = true ↔ f.Reachable b.id := by
    have hmem : b.id ∈ f.blockIds := List.mem_map_of_mem hb
    simp [isSome_dominators_iff hids, hmem]
  by_cases hreach : f.Reachable b.id
  · have hends : b.termOperands.flatMap (endUseProblems f f.dominators b.id) = [] ↔
        ∀ v, .result v ∈ b.termOperands → f.ComputedBy v b.id := by
      rw [flatMap_eq_nil_iff_results (by intro o ho; simp [endUseProblems, ho])]
      refine forall_congr' fun v => forall_congr' fun hv => ?_
      obtain ⟨type, hu⟩ := Block.exists_use_of_mem_termOperands hv
      exact endUseProblems_eq_nil_iff hids hresults hb hreach (hterm _ hu).mem_results
    have hinstr : ∀ pre i post, b.instrs = pre ++ i :: post → _ := fun pre i post hsplit =>
      instrUseProblems_eq_nil_iff hids hresults hb hreach hsplit
        (hplaced pre i post hsplit).1
        (hplaced pre i post hsplit).2.2.1
    simp only [dominanceProblems, hsome.mpr hreach, if_true, List.append_eq_nil_iff, hends,
      List.flatMap_eq_nil_iff, Prod.forall, mem_zipIdx_iff_split, hreach, true_implies]
    constructor
    · rintro ⟨hall, hend⟩
      have hsplits : ∀ pre i post, (hsplit : b.instrs = pre ++ i :: post) → _ :=
        fun pre i post hsplit =>
        (hinstr pre i post hsplit).mp (hall i pre.length ⟨pre, post, hsplit, rfl⟩)
      refine ⟨fun pre i post hsplit => (hsplits pre i post hsplit).1, hend, ?_⟩
      intro i hi
      obtain ⟨pre, post, hsplit⟩ := List.append_of_mem hi
      exact (hsplits pre i post hsplit).2
    · rintro ⟨huses, hend, hedges⟩
      refine ⟨?_, hend⟩
      rintro i _ ⟨pre, post, hsplit, rfl⟩
      exact (hinstr pre i post hsplit).mpr
        ⟨huses pre i post hsplit, hedges i (by simp [hsplit])⟩
  · simp [dominanceProblems, hsome, hreach]

/-! ## The whole check -/

theorem blocks_ruled_iff
    (hresults : f.results.Nodup)
    (m : Module) :
    (∀ b ∈ f.blocks, blockProblems m f b = []) ↔
      (∀ b ∈ f.blocks, b.term ≠ none) ∧
      (∀ b ∈ f.blocks, ∀ target ∈ b.successors, target ∈ f.blockIds) ∧
      (∀ b ∈ f.blocks, ∀ i ∈ b.instrs, ∀ u ∈ i.kind.uses, f.HasType u.1 u.2) ∧
      (∀ b ∈ f.blocks, ∀ u ∈ b.termUses, f.HasType u.1 u.2) ∧
      (∀ b ∈ f.blocks, ∀ i ∈ b.body, i.kind.isPhi = false) ∧
      (∀ b ∈ f.blocks, ∀ i ∈ b.instrs, ∀ type incoming, i.kind = .phi type incoming →
        ∀ pred, pred ∈ incoming.map (·.2) ↔ pred ∈ f.predecessors b.id) ∧
      CallsMatch m f := by
  simp only [blockProblems_eq_nil_iff hresults]
  constructor
  · intro h
    have hplaced : ∀ b ∈ f.blocks, ∀ i ∈ b.instrs, ∃ place, Placed m f b i place := by
      intro b hb i hi
      obtain ⟨pre, post, hsplit⟩ := List.append_of_mem hi
      exact ⟨_, (h b hb).2.2.2 pre i post hsplit⟩
    refine ⟨fun b hb => (h b hb).1, fun b hb => (h b hb).2.1, ?_, fun b hb =>
      (h b hb).2.2.1, ?_, ?_, ?_⟩
    · intro b hb i hi
      obtain ⟨place, htyped, -⟩ := hplaced b hb i hi
      exact htyped
    · intro b hb
      exact phis_at_start_iff.mp fun pre i post hsplit =>
        ((h b hb).2.2.2 pre i post hsplit).2.1
    · intro b hb i hi
      obtain ⟨place, -, -, hpreds, -⟩ := hplaced b hb i hi
      exact hpreds
    · intro b hb i hi
      obtain ⟨place, -, -, -, hcalls⟩ := hplaced b hb i hi
      exact hcalls
  · rintro ⟨hterm, htargets, htyped, hends, hphis, hpreds, hcalls⟩ b hb
    refine ⟨hterm b hb, htargets b hb, hends b hb, ?_⟩
    intro pre i post hsplit
    have hi : i ∈ b.instrs := by simp [hsplit]
    exact ⟨htyped b hb i hi, phis_at_start_iff.mpr (hphis b hb) pre i post hsplit,
      hpreds b hb i hi,
      hcalls b hb i hi⟩

theorem problems_eq_nil_iff
    (hids : f.blockIds.Nodup)
    (m : Module) :
    problems m f = [] ↔ f.WellFormed ∧ CallsMatch m f := by
  by_cases hbody : f.hasBody = true
  swap
  · -- a declaration keeps every rule, since it has no block
    have hblocks : f.blocks = [] := by simpa [hasBody] using hbody
    have hproblems : problems m f = [] := by simp [problems, hbody]
    refine iff_of_true hproblems
      ⟨⟨hids, ?_, ?_, ?_, ?_, ?_, ?_, ?_, ?_, ?_, ?_, ?_⟩, ?_⟩ <;>
      simp [hblocks, results, instrs, CallsMatch]
  simp only [problems, hbody, if_true, List.append_eq_nil_iff, entryProblems_eq_nil_iff,
    repeatProblems_eq_nil_iff, List.flatMap_eq_nil_iff]
  constructor
  · rintro ⟨⟨⟨hentry, hresults, -⟩, hblocks⟩, hdominance⟩
    have hordered : ∀ b ∈ f.blocks, f.Reachable b.id → Ordered f b := fun b hb =>
      (dominanceProblems_eq_nil_iff hids hresults hb (hblocks b hb)).mp (hdominance b hb)
    obtain ⟨hterm, htargets, htyped, hends, hphis, hpreds, hcalls⟩ :=
      (blocks_ruled_iff hresults m).mp hblocks
    refine ⟨⟨hids, hresults, hentry, hterm, htargets, htyped, hends, hphis, hpreds,
      fun b hb hreach => (hordered b hb hreach).uses, fun b hb hreach =>
        (hordered b hb hreach).ends, ?_⟩, hcalls⟩
    intro b hb i hi type incoming hkind v pred he hreach
    have hmem := (hpreds b hb i hi type incoming hkind pred).mp (List.mem_map_of_mem he)
    obtain ⟨p, hp, rfl, hsucc⟩ := mem_predecessors_iff.mp hmem
    have hreach' : f.Reachable b.id :=
      hreach.step ((mem_successors_iff hids).mpr ⟨p, hp, rfl, hsucc⟩)
    exact (hordered b hb hreach').edges i hi type incoming hkind v p.id he hreach
  · rintro ⟨hwf, hcalls⟩
    have hblocks := (blocks_ruled_iff hwf.results_nodup m).mpr
      ⟨hwf.terminated, hwf.targets, hwf.typed, hwf.term_typed, hwf.phis_first,
        hwf.phi_edges, hcalls⟩
    refine ⟨⟨⟨hwf.entry_free, hwf.results_nodup, by simp⟩, hblocks⟩, ?_⟩
    intro b hb
    exact (dominanceProblems_eq_nil_iff hids hwf.results_nodup hb (hblocks b hb)).mpr
      fun hreach =>
      ⟨hwf.uses b hb hreach, hwf.ends b hb hreach, hwf.edges b hb⟩

/-- The check accepts exactly the well-formed functions whose calls match. -/
theorem verify_eq_ok_iff
    (hids : f.blockIds.Nodup)
    (m : Module) :
    m.verify f = .ok () ↔ f.WellFormed ∧ CallsMatch m f := by
  rw [← problems_eq_nil_iff hids m]
  unfold Module.verify
  cases problems m f <;> simp

end Verify

end ScalarSsa
