import Mathlib.Logic.Equiv.Basic
import ScalarSsa.Proofs.Lowering.Renaming
import ScalarSsa.Proofs.Lowering.Lockstep
import ScalarSsa.Pass.Pipeline
import ScalarSsa.Verify.Check

/-!
# Passes and the check under other identifiers

**Input.** A function, well formed or not, and other identifiers for functions.

**Definitions.** A pass `Mirrors` another one under a renaming if it does to a renamed
function what the other one does to the function.  A pass is `Blind` if it mirrors itself,
whatever the renaming is.  Every pass mirrors one: `Pass.under`, which is shown the
functions under their other identifiers.

**Results.** `Pass.blind_of_mem`: the three passes are blind.  `Pass.mirrors_pipeline`:
a pipeline mirrors the one whose passes its own mirror.  `verify_rename`: the check
finds the same problems in a function under another identifier, if the functions of the
modules correspond.
-/

namespace ScalarSsa

variable (ρ : FuncId → FuncId)

/-! ## Parts of a function -/

@[simp] theorem Instr.dest_rename (i : Instr) : (i.rename ρ).dest = i.dest := rfl

@[simp] theorem Instr.kind_rename (i : Instr) : (i.rename ρ).kind = i.kind.rename ρ := rfl

namespace InstrKind

@[simp] theorem type_rename (kind : InstrKind) : (kind.rename ρ).type = kind.type := by
  cases kind <;> rfl

@[simp] theorem operands_rename (kind : InstrKind) : (kind.rename ρ).operands =
    kind.operands := by
  cases kind <;> rfl

@[simp] theorem isPure_rename (kind : InstrKind) : (kind.rename ρ).isPure =
    kind.isPure := by
  cases kind <;> rfl

theorem mapOperands_rename
    (g : Operand → Operand)
    (kind : InstrKind) :
    (kind.rename ρ).mapOperands g = (kind.mapOperands g).rename ρ := by
  cases kind <;> rfl

theorem mapIncoming_rename
    (g : List (Operand × BlockId) → List (Operand × BlockId))
    (kind : InstrKind) :
    (kind.rename ρ).mapIncoming g = (kind.mapIncoming g).rename ρ := by
  cases kind <;> rfl

end InstrKind

namespace Block

@[simp] theorem instrs_rename (b : Block) : (b.rename ρ).instrs =
    b.instrs.map (Instr.rename ρ) := rfl

@[simp] theorem successors_rename (b : Block) : (b.rename ρ).successors =
    b.successors := rfl

@[simp] theorem termOperands_rename (b : Block) : (b.rename ρ).termOperands =
    b.termOperands := rfl

theorem mapOperands_rename
    (g : Operand → Operand)
    (b : Block) :
    (b.rename ρ).mapOperands g = (b.mapOperands g).rename ρ := by
  simp [mapOperands, rename, Instr.rename, Function.comp_def, InstrKind.mapOperands_rename]

theorem mapIncoming_rename
    (g : List (Operand × BlockId) → List (Operand × BlockId))
    (b : Block) :
    (b.rename ρ).mapIncoming g = (b.mapIncoming g).rename ρ := by
  simp [mapIncoming, rename, Instr.rename, Function.comp_def, InstrKind.mapIncoming_rename]

/-- Instructions are left out by what they compute and where they put it. -/
theorem filterInstrs_rename
    {keep : Instr → Bool}
    (h : ∀ i, keep (i.rename ρ) = keep i)
    (b : Block) :
    ({ b.rename ρ with instrs := (b.rename ρ).instrs.filter keep } : Block) =
      ({ b with instrs := b.instrs.filter keep } : Block).rename ρ := by
  simp [rename, List.filter_map, Function.comp_def, h]

end Block

namespace Function

@[simp] theorem blocks_rename (f : Function) : (f.rename ρ).blocks =
    f.blocks.map (Block.rename ρ) := rfl

@[simp] theorem arity_rename (f : Function) : (f.rename ρ).arity = f.arity := rfl

@[simp] theorem hasBody_rename (f : Function) : (f.rename ρ).hasBody = f.hasBody := by
  simp [hasBody]

@[simp] theorem blockIds_rename (f : Function) : (f.rename ρ).blockIds = f.blockIds := by
  simp [blockIds, Function.comp_def]

@[simp] theorem entry?_rename (f : Function) : Function.entry? (f.rename ρ) = f.entry? := by
  simp [ entry?, Function.comp_def]

@[simp] theorem instrs_rename (f : Function) : (f.rename ρ).instrs =
    f.instrs.map (Instr.rename ρ) := by
  simp [instrs, List.flatMap_map, List.map_flatMap]

@[simp] theorem instrCount_rename (f : Function) : (f.rename ρ).instrCount =
    f.instrCount := by
  simp [instrCount]

@[simp] theorem successors_rename (f : Function) : (f.rename ρ).successors =
    f.successors := by
  funext id
  unfold successors
  rw [block?_rename]
  cases f.block? id <;> rfl

@[simp] theorem predecessors_rename (f : Function) : (f.rename ρ).predecessors =
    f.predecessors := by
  funext id
  rw [predecessors, predecessors, blocks_rename, List.filter_map, List.map_map]
  rfl

@[simp] theorem reachable_rename (f : Function) : (f.rename ρ).reachable = f.reachable := by
  simp [reachable, searchBound]

@[simp] theorem reachableBlocks_rename (f : Function) : (f.rename ρ).reachableBlocks =
    f.reachableBlocks := by
  simp [reachableBlocks]

@[simp] theorem nextSets?_rename (f : Function) : (f.rename ρ).nextSets? = f.nextSets? := by
  have hbelow : (f.rename ρ).setBelow = f.setBelow := by
    funext sets id
    simp [setBelow]
  have hrenew : (f.rename ρ).renewSet = f.renewSet := by
    funext ⟨sets, changed⟩ id
    simp only [renewSet, hbelow]
  funext sets
  simp [nextSets?, innerBlocks, hrenew]

@[simp] theorem dominators_rename (f : Function) : (f.rename ρ).dominators =
    f.dominators := by
  simp [dominators, firstSets]

theorem eraseBlock_rename
    (f : Function)
    (id : BlockId) :
    (f.rename ρ).eraseBlock id = (f.eraseBlock id).rename ρ := by
  simp [eraseBlock, rename, List.filter_map, Function.comp_def]

theorem replaceUses_rename
    (f : Function)
    (source target : Operand) :
    (f.rename ρ).replaceUses source target = (f.replaceUses source target).rename ρ :=
  mapBlocks_rename ρ (Block.mapOperands_rename ρ _) f

theorem eraseResult_rename
    (f : Function)
    (id : ValueId) :
    (f.rename ρ).eraseResult id = (f.eraseResult id).rename ρ :=
  mapBlocks_rename ρ (Block.filterInstrs_rename ρ fun _ => rfl) f

theorem dropEdges_rename
    (f : Function)
    (id pred : BlockId) :
    (f.rename ρ).dropEdges id pred = (f.dropEdges id pred).rename ρ :=
  mapBlock_rename ρ (Block.mapIncoming_rename ρ _) f id

theorem retargetEdges_rename
    (f : Function)
    (id source target : BlockId) :
    (f.rename ρ).retargetEdges id source target =
      (f.retargetEdges id source target).rename ρ :=
  mapBlock_rename ρ (Block.mapIncoming_rename ρ _) f id

/-- Steps that do the same under other identifiers, one after the other. -/
theorem foldl_rename
    {α : Type}
    {step : Function → α → Function}
    (h : ∀ f a, step (f.rename ρ) a = (step f a).rename ρ)
    (as : List α)
    (f : Function) :
    as.foldl step (f.rename ρ) = (as.foldl step f).rename ρ := by
  induction as generalizing f with
  | nil => rfl
  | cons a as ih => rw [List.foldl_cons, List.foldl_cons, h, ih]

end Function

/-- A step that does the same to counterparts, repeated. -/
theorem exhaust_map
    {α : Type}
    {step : α → Option α}
    {g : α → α}
    (h : ∀ a, step (g a) = (step a).map g)
    (fuel : Nat)
    (a : α) :
    exhaust step fuel (g a) = g (exhaust step fuel a) := by
  induction fuel generalizing a with
  | zero => rfl
  | succ fuel ih =>
      rw [exhaust, exhaust, h]
      cases step a with
      | none => rfl
      | some b => exact ih b

/-! ## The passes -/

namespace Pass

/-- The second pass does to a renamed function what the first one does to the function. -/
def Mirrors (pass mirror : Pass) : Prop :=
  ∀ f : Function, (mirror.run (f.rename ρ)).function = (pass.run f).function.rename ρ

/-- The pass does the same to a function under another identifier. -/
def Blind (pass : Pass) : Prop :=
  ∀ ρ : FuncId → FuncId, pass.Mirrors ρ pass

/-- The pass keeps the identifier, the name and the parameters. -/
def KeepsHeader (pass : Pass) : Prop :=
  ∀ f : Function, (pass.run f).function.header = f.header

theorem keepsHeader_pipeline
    {passes : Pipeline}
    (h : ∀ pass ∈ passes, pass.KeepsHeader)
    (f : Function) :
    (Pipeline.run passes f).function.header = f.header := by
  suffices hfold : ∀ before : PassResult,
      (passes.foldl Pipeline.runPass before).function.header = before.function.header from
    hfold ⟨f, false, []⟩
  induction passes with
  | nil => exact fun _ => rfl
  | cons pass passes ih =>
      intro before
      refine (ih (fun p hp => h p (List.mem_cons_of_mem _ hp)) _).trans ?_
      exact h pass List.mem_cons_self before.function

theorem foldInstr?_rename
    (i : Instr) :
    foldInstr? (i.rename ρ) = foldInstr? i := by
  obtain ⟨dest, kind⟩ := i
  cases kind <;> rfl

theorem foldOnce?_rename
    (f : Function) :
    foldOnce? (f.rename ρ) = (foldOnce? f).map (Function.rename ρ) := by
  have hfoldable : foldable? (f.rename ρ) = foldable? f := by
    simp [foldable?, List.findSome?_map, Function.comp_def, foldInstr?_rename]
  unfold foldOnce?
  rw [hfoldable, Option.map_map]
  congr 1
  funext ⟨id, o⟩
  simp only [Function.comp_apply, Function.eraseResult_rename, Function.replaceUses_rename]

theorem blind_folding :
    Pass.folding.Blind := by
  intro ρ f
  simp only [Pass.folding, Function.instrCount_rename]
  exact exhaust_map (foldOnce?_rename ρ) f.instrCount f

theorem settle_rename
    (f : Function)
    (id : BlockId) :
    settle (f.rename ρ) id = (settle f id).rename ρ := by
  have hsettled : ((f.rename ρ).block? id).bind settled? = (f.block? id).bind settled? := by
    rw [Function.block?_rename]
    cases f.block? id <;> rfl
  unfold settle
  rw [hsettled]
  cases (f.block? id).bind settled? with
  | none => rfl
  | some ends =>
      have hjump :
          (f.rename ρ).mapBlock id (fun b => { b with term := some (.jump ends.1) }) =
          (f.mapBlock id fun b => { b with term := some (.jump ends.1) }).rename ρ := by
        refine Function.mapBlock_rename ρ (fun b => ?_) f id
        rfl
      simp only [hjump]
      split
      · rfl
      · exact Function.dropEdges_rename ρ _ _ _

theorem prune_rename
    (f : Function)
    (id : BlockId) :
    prune (f.rename ρ) id = (prune f id).rename ρ := by
  unfold prune
  rw [Function.block?_rename]
  cases f.block? id with
  | none => rfl
  | some b =>
      simp only [Option.map_some, Block.successors_rename, Function.eraseBlock_rename]
      exact Function.foldl_rename ρ (fun g target =>
        Function.dropEdges_rename ρ g target id) b.successors _

theorem mergeTarget?_rename
    (f : Function)
    (b : Block) :
    mergeTarget? (f.rename ρ) (b.rename ρ) = mergeTarget? f b := by
  have hterm : ∀ pred, ((f.rename ρ).block? pred).bind (·.term) =
      (f.block? pred).bind (·.term) := by
    intro pred
    rw [Function.block?_rename]
    cases f.block? pred <;> rfl
  simp only [mergeTarget?, Function.entry?_rename, Function.predecessors_rename,
    Block.id_rename, hterm]

theorem phiReplacements_rename
    (b : Block) :
    phiReplacements (b.rename ρ) = phiReplacements b := by
  simp only [phiReplacements, Block.instrs_rename, List.filterMap_map]
  congr 1
  funext i
  obtain ⟨dest, kind⟩ := i
  cases kind <;> rfl

theorem merge_rename
    (f : Function)
    (pred : BlockId)
    (b : Block) :
    merge (f.rename ρ) pred (b.rename ρ) = (merge f pred b).rename ρ := by
  have hjoined : ((f.rename ρ).eraseBlock b.id).mapBlock pred (fun p =>
        { p with
          instrs := p.instrs ++ (b.rename ρ).instrs.filter fun i => !i.kind.isPhi
          term := b.term }) =
      ((f.eraseBlock b.id).mapBlock pred fun p =>
        { p with
          instrs := p.instrs ++ b.instrs.filter fun i => !i.kind.isPhi
          term := b.term }).rename ρ := by
    rw [Function.eraseBlock_rename]
    refine Function.mapBlock_rename ρ (fun p => ?_) _ pred
    simp [Block.rename, List.filter_map, Function.comp_def]
  simp only [merge, Block.id_rename, Block.term_rename, Block.successors_rename,
    phiReplacements_rename, hjoined]
  rw [Function.foldl_rename ρ fun g edge =>
    Function.replaceUses_rename ρ g (.result edge.1) edge.2]
  exact Function.foldl_rename ρ (fun g target =>
    Function.retargetEdges_rename ρ g target b.id pred) b.successors _

theorem mergeOnce?_rename
    (f : Function) :
    mergeOnce? (f.rename ρ) = (mergeOnce? f).map (Function.rename ρ) := by
  have hmergeable : mergeable? (f.rename ρ) = (mergeable? f).map fun found =>
    (found.1, found.2.rename ρ) := by
    simp only [mergeable?, Function.blocks_rename, List.findSome?_map, List.map_findSome?]
    congr 1
    funext b
    simp only [Function.comp_apply, mergeTarget?_rename, Option.map_map]
    rfl
  unfold mergeOnce?
  rw [hmergeable, Option.map_map, Option.map_map]
  congr 1
  funext ⟨pred, b⟩
  exact merge_rename ρ f pred b

theorem blind_branches :
    Pass.branches.Blind := by
  intro ρ f
  have hsettled : settleAll (f.rename ρ) = (settleAll f).rename ρ := by
    unfold settleAll
    rw [Function.blockIds_rename]
    exact Function.foldl_rename ρ (settle_rename ρ) f.blockIds f
  have hpruned : ∀ g : Function, pruneAll (g.rename ρ) = (pruneAll g).rename ρ := by
    intro g
    unfold pruneAll unreachable
    rw [Function.reachable_rename, Function.blockIds_rename]
    exact Function.foldl_rename ρ (prune_rename ρ) _ g
  simp only [Pass.branches, hsettled, hpruned, Function.blocks_rename, List.length_map]
  exact exhaust_map (mergeOnce?_rename ρ) _ _

theorem removeUnused?_rename
    (f : Function) :
    removeUnused? (f.rename ρ) = (removeUnused? f).map (Function.rename ρ) := by
  have husedBy : ∀ i : Instr, usedBy (i.rename ρ) = usedBy i := by
    intro i
    simp [usedBy]
  have hused : used (f.rename ρ) = used f := by
    simp [used, List.flatMap_map, husedBy]
  have hkept : keepUsed (used f) (f.rename ρ) = (keepUsed (used f) f).rename ρ :=
    Function.mapBlocks_rename ρ (Block.filterInstrs_rename ρ fun i => by simp) f
  simp only [removeUnused?, hused, hkept, Function.instrCount_rename]
  split <;> rfl

theorem blind_unused :
    Pass.unused.Blind := by
  intro ρ f
  have hstep : ∀ p : Function × List Note, removeUnusedNoting? (p.1.rename ρ, p.2) =
      (removeUnusedNoting? p).map fun q => (q.1.rename ρ, q.2) := by
    rintro ⟨g, notes⟩
    simp only [removeUnusedNoting?, removeUnused?_rename, Option.map_map]
    congr 1
    funext g'
    simp
  have hexhaust :=
    exhaust_map (g := fun p : Function × List Note => (p.1.rename ρ, p.2)) hstep
      f.instrCount (f, [])
  simp only [Pass.unused, Function.instrCount_rename]
  exact congrArg (·.1) hexhaust

theorem blind_of_mem
    {pass : Pass}
    (h : pass ∈ [Pass.folding, Pass.branches, Pass.unused]) :
    pass.Blind := by
  simp only [List.mem_cons, List.not_mem_nil, or_false] at h
  rcases h with rfl | rfl | rfl
  · exact blind_folding
  · exact blind_branches
  · exact blind_unused

/-- A pipeline mirrors the one whose passes its own mirror. -/
theorem mirrors_pipeline
    {passes mirrors : Pipeline}
    (h : List.Forall₂ (Mirrors ρ) passes mirrors)
    (f : Function) :
    (Pipeline.run mirrors (f.rename ρ)).function =
      (Pipeline.run passes f).function.rename ρ := by
  suffices hfold : ∀ before before' : PassResult,
      before'.function = before.function.rename ρ →
        (mirrors.foldl Pipeline.runPass before').function =
          (passes.foldl Pipeline.runPass before).function.rename ρ from
    hfold ⟨f, false, []⟩ ⟨f.rename ρ, false, []⟩ rfl
  induction h with
  | nil => exact fun _ _ hbefore => hbefore
  | @cons pass mirror passes mirrors hpass _ ih =>
      intro before before' hbefore
      refine ih (Pipeline.runPass before pass) (Pipeline.runPass before' mirror) ?_
      change (mirror.run before'.function).function =
        (pass.run before.function).function.rename ρ
      rw [hbefore]
      exact hpass before.function

end Pass

/-! ## The check -/

namespace Verify

@[simp] theorem typeOf?_rename (f : Function) : (f.rename ρ).typeOf? = f.typeOf? := by
  funext o
  cases o with
  | result id => simp [Function.typeOf?, Function.instr?, List.find?_map, Function.comp_def]
  | _ => rfl

@[simp] theorem definition?_rename (f : Function) : (f.rename ρ).definition? =
    f.definition? := by
  funext id
  have hblocks : ∀ blocks : List Block,
      Function.findDefinition id (blocks.map (Block.rename ρ)) =
        Function.findDefinition id blocks := by
    intro blocks
    induction blocks with
    | nil => rfl
    | cons b blocks ih =>
        simp only [List.map_cons, Function.findDefinition, ih, Block.instrs_rename,
          List.findIdx?_map, Block.id_rename]
        rfl
  exact hblocks f.blocks

theorem repeatProblems_rename
    (seen : List ValueId)
    (instrs : List Instr) :
    repeatProblems seen (instrs.map (Instr.rename ρ)) = repeatProblems seen instrs := by
  induction instrs generalizing seen with
  | nil => rfl
  | cons i rest ih => simp only [List.map_cons, repeatProblems, ih, Instr.dest_rename]

variable {ρ} {m m' : Module}
variable (h : ∀ g, (m'.function? (ρ g)).map Function.title =
  (m.function? g).map Function.title)

include h

theorem calleeProblems_rename
    (callee : FuncId)
    (name : String)
    (given : Nat) :
    calleeProblems m' (ρ callee) name given = calleeProblems m callee name given := by
  have harity : (m'.function? (ρ callee)).map Function.arity =
      (m.function? callee).map Function.arity := by
    have htitles := congrArg (Option.map fun title => title.2.length) (h callee)
    rw [Option.map_map, Option.map_map] at htitles
    exact htitles
  unfold calleeProblems
  cases hf : m.function? callee with
  | none =>
      rw [hf, Option.map_none, Option.map_eq_none_iff] at harity
      rw [harity]
  | some f =>
      rw [hf, Option.map_some, Option.map_eq_some_iff] at harity
      obtain ⟨f', hf', harity⟩ := harity
      rw [hf']
      simp only [harity]

theorem instrProblems_rename
    (f : Function)
    (b : Block)
    (i : Instr)
    (place : Nat) :
    instrProblems m' (f.rename ρ) (b.rename ρ) (i.rename ρ) place =
      instrProblems m f b i place := by
  have hoperand : operandProblems (f.rename ρ) = operandProblems f := by
    funext role expected o
    simp only [operandProblems, typeOf?_rename]
  have hedge : edgeProblems (f.rename ρ) = edgeProblems f := by
    funext block phi type edge
    simp only [edgeProblems, hoperand, Function.predecessors_rename]
  obtain ⟨dest, kind⟩ := i
  cases kind with
  | phi type incoming =>
      simp [instrProblems, Instr.rename, InstrKind.rename, phiProblems, hedge,
        Block.phis_rename]
  | call callee name args =>
      simp [instrProblems, Instr.rename, InstrKind.rename, hoperand,
        calleeProblems_rename h]
  | _ => simp [instrProblems, Instr.rename, InstrKind.rename, hoperand]

theorem blockProblems_rename
    (f : Function)
    (b : Block) :
    blockProblems m' (f.rename ρ) (b.rename ρ) = blockProblems m f b := by
  have hterm : termProblems (f.rename ρ) = termProblems f := by
    funext block term
    simp only [termProblems, Function.blockIds_rename, operandProblems, typeOf?_rename]
  simp only [blockProblems, Block.term_rename, hterm, Block.instrs_rename, List.zipIdx_map,
    List.flatMap_map,
    Block.id_rename, Block.label_rename, Prod.map_fst, Prod.map_snd,
      instrProblems_rename h, id_eq]

omit h in
theorem dominanceProblems_rename
    (f : Function)
    (sets : DominatorSets)
    (b : Block) :
    dominanceProblems (f.rename ρ) sets (b.rename ρ) = dominanceProblems f sets b := by
  have hinstr : ∀ (i : Instr) (place : Nat),
      instrUseProblems (f.rename ρ) sets b.id (i.rename ρ) place =
        instrUseProblems f sets b.id i place := by
    intro i place
    have hedge : edgeUseProblems (f.rename ρ) = edgeUseProblems f := by
      funext sets phi edge
      simp only [edgeUseProblems, definition?_rename]
    have huse : useProblems (f.rename ρ) = useProblems f := by
      funext sets block user place o
      simp only [useProblems, definition?_rename]
    obtain ⟨dest, kind⟩ := i
    cases kind
      <;> simp [instrUseProblems, Instr.rename, InstrKind.rename,
        InstrKind.operands, hedge, huse]
  have hend : endUseProblems (f.rename ρ) = endUseProblems f := by
    funext sets block o
    simp only [endUseProblems, definition?_rename]
  simp only [dominanceProblems, Block.id_rename, Block.instrs_rename,
    Block.termOperands_rename, List.zipIdx_map,
    List.flatMap_map, Prod.map_fst, Prod.map_snd, hinstr, hend, id_eq]

/-- The check says the same of a function under another identifier. -/
theorem verify_rename
    (f : Function) :
    m'.verify (f.rename ρ) = m.verify f := by
  have hentry : entryProblems (f.rename ρ) = entryProblems f := by
    simp only [entryProblems, Function.entry?_rename, Function.predecessors_rename]
  have hproblems : problems m' (f.rename ρ) = problems m f := by
    simp only [problems, Function.hasBody_rename, hentry, Function.instrs_rename,
      repeatProblems_rename,
      Function.blocks_rename, List.flatMap_map, blockProblems_rename h,
      Function.dominators_rename,
      dominanceProblems_rename]
  unfold Module.verify
  rw [hproblems]
  rfl

end Verify

end ScalarSsa
