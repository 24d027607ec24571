import ScalarSsa.Ssa.Module
import Mathlib.Data.List.Nodup
import Mathlib.Data.List.Pairwise

/-!
# Blocks, results and uses of a function

**Results.** The functions that search a function's blocks are described by membership:
`block?_eq_some_iff` and `mem_successors_iff` for distinct block names, `instr?_eq_some_iff`
for distinct results, and `findDefinition_eq_some`.  `InstrKind.uses` and `Terminator.uses`
give every operand with the type that its place asks for, and `HasType` says that an operand
exists and has a type.
-/

namespace ScalarSsa

namespace Operand

/-- The operands that are the same as a result are that result. -/
theorem same_result_iff
    (o : Operand)
    (id : ValueId) :
    o.same (.result id) = true ↔ o = .result id := by
  cases o <;> simp [same]

@[simp] theorem replace_result_self
    (id : ValueId)
    (target : Operand) :
    replace (.result id) target (.result id) = target := by
  simp [replace, same]

theorem replace_of_ne
    {id : ValueId}
    {target o : Operand}
    (h : o ≠ .result id) :
    replace (.result id) target o = o := by
  have hsame : o.same (.result id) ≠ true := fun hs => h ((o.same_result_iff id).mp hs)
  simp [replace, hsame]

end Operand

namespace InstrKind

/-- The operands with the types that they have to have. -/
def uses : InstrKind → List (Operand × ValueType)
  | .arith _ lhs rhs => [(lhs, .double), (rhs, .double)]
  | .compare _ lhs rhs => [(lhs, .double), (rhs, .double)]
  | .promote src => [(src, .bool)]
  | .call _ _ args => args.map fun o => (o, .double)
  | .phi type incoming => incoming.map fun edge => (edge.1, type)

theorem uses_map_fst
    (kind : InstrKind) :
    kind.uses.map (·.1) = kind.operands := by
  cases kind <;> simp [uses, operands, Function.comp_def]

theorem mem_operands_of_mem_uses
    {kind : InstrKind}
    {u : Operand × ValueType}
    (h : u ∈ kind.uses) :
    u.1 ∈ kind.operands := by
  rw [← uses_map_fst]
  exact List.mem_map_of_mem h

theorem exists_use_of_mem_operands
    {kind : InstrKind}
    {o : Operand}
    (h : o ∈ kind.operands) :
    ∃ type, (o, type) ∈ kind.uses := by
  rw [← uses_map_fst] at h
  obtain ⟨⟨o, type⟩, hu, rfl⟩ := List.mem_map.mp h
  exact ⟨type, hu⟩

@[simp] theorem uses_mapOperands
    (g : Operand → Operand)
    (kind : InstrKind) :
    (kind.mapOperands g).uses = kind.uses.map fun u => (g u.1, u.2) := by
  cases kind <;> simp [uses, mapOperands, Function.comp_def]

@[simp] theorem operands_mapOperands
    (g : Operand → Operand)
    (kind : InstrKind) :
    (kind.mapOperands g).operands = kind.operands.map g := by
  cases kind <;> simp [operands, mapOperands, Function.comp_def]

@[simp] theorem type_mapOperands
    (g : Operand → Operand)
    (kind : InstrKind) :
    (kind.mapOperands g).type = kind.type := by
  cases kind <;> rfl

@[simp] theorem isPhi_mapOperands
    (g : Operand → Operand)
    (kind : InstrKind) :
    (kind.mapOperands g).isPhi = kind.isPhi := by
  cases kind <;> rfl

theorem mapOperands_eq_phi
    {g : Operand → Operand}
    {kind : InstrKind}
    {type : ValueType}
    {incoming : List (Operand × BlockId)}
    (h : kind.mapOperands g = .phi type incoming) :
    ∃ old, kind = .phi type old ∧ incoming = old.map fun edge => (g edge.1, edge.2) := by
  cases kind with
  | phi type' old =>
      simp only [mapOperands, phi.injEq] at h
      exact ⟨old, by rw [h.1], h.2.symm⟩
  | _ => cases h

theorem mapOperands_eq_call
    {g : Operand → Operand}
    {kind : InstrKind}
    {callee : FuncId}
    {name : String}
    {args : List Operand}
    (h : kind.mapOperands g = .call callee name args) :
    ∃ old, kind = .call callee name old ∧ args = old.map g := by
  cases kind with
  | call callee' name' old =>
      simp only [mapOperands, call.injEq] at h
      exact ⟨old, by rw [h.1, h.2.1], h.2.2.symm⟩
  | _ => cases h

@[simp] theorem type_mapIncoming
    (g : List (Operand × BlockId) → List (Operand × BlockId))
    (kind : InstrKind) :
    (kind.mapIncoming g).type = kind.type := by
  cases kind <;> rfl

@[simp] theorem isPhi_mapIncoming
    (g : List (Operand × BlockId) → List (Operand × BlockId))
    (kind : InstrKind) :
    (kind.mapIncoming g).isPhi = kind.isPhi := by
  cases kind <;> rfl

theorem mapIncoming_eq_phi
    {g : List (Operand × BlockId) → List (Operand × BlockId)}
    {kind : InstrKind}
    {type : ValueType}
    {incoming : List (Operand × BlockId)}
    (h : kind.mapIncoming g = .phi type incoming) :
    ∃ old, kind = .phi type old ∧ incoming = g old := by
  cases kind with
  | phi type' old =>
      simp only [mapIncoming, phi.injEq] at h
      exact ⟨old, by rw [h.1], h.2.symm⟩
  | _ => cases h

theorem mapIncoming_eq_call
    {g : List (Operand × BlockId) → List (Operand × BlockId)}
    {kind : InstrKind}
    {callee : FuncId}
    {name : String}
    {args : List Operand}
    (h : kind.mapIncoming g = .call callee name args) :
    kind = .call callee name args := by
  cases kind with
  | call _ _ _ => exact h
  | _ => cases h

theorem mapIncoming_of_not_phi
    (g : List (Operand × BlockId) → List (Operand × BlockId))
    {kind : InstrKind}
    (h : kind.isPhi = false) :
    kind.mapIncoming g = kind := by
  cases kind <;> simp_all [mapIncoming, isPhi]

end InstrKind

namespace Terminator

/-- The operands with the types that they have to have. -/
def uses : Terminator → List (Operand × ValueType)
  | .jump _ => []
  | .branch cond _ _ => [(cond, .bool)]
  | .ret value => [(value, .double)]

theorem uses_map_fst
    (term : Terminator) :
    term.uses.map (·.1) = term.operands := by
  cases term <;> rfl

@[simp] theorem uses_mapOperands
    (g : Operand → Operand)
    (term : Terminator) :
    (term.mapOperands g).uses = term.uses.map fun u => (g u.1, u.2) := by
  cases term <;> rfl

@[simp] theorem operands_mapOperands
    (g : Operand → Operand)
    (term : Terminator) :
    (term.mapOperands g).operands = term.operands.map g := by
  cases term <;> rfl

@[simp] theorem successors_mapOperands
    (g : Operand → Operand)
    (term : Terminator) :
    (term.mapOperands g).successors = term.successors := by
  cases term <;> rfl

end Terminator

namespace Block

/-- The results of the instructions in order. -/
def results (b : Block) : List ValueId :=
  b.instrs.map (·.dest)

/-- The operands of the terminator with the types that they have to have. -/
def termUses (b : Block) : List (Operand × ValueType) :=
  match b.term with
  | some term => term.uses
  | none => []

theorem phis_append_body
    (b : Block) :
    b.phis ++ b.body = b.instrs :=
  List.takeWhile_append_dropWhile

theorem isPhi_of_mem_phis
    {b : Block}
    {i : Instr}
    (h : i ∈ b.phis) :
    i.kind.isPhi = true := by
  have hall := List.all_takeWhile (p := fun i : Instr => i.kind.isPhi) (l := b.instrs)
  exact List.all_eq_true.mp hall i h

theorem mem_instrs_of_mem_phis
    {b : Block}
    {i : Instr}
    (h : i ∈ b.phis) :
    i ∈ b.instrs := by
  rw [← b.phis_append_body]
  exact List.mem_append_left _ h

/-- The phis of a block are those before its plain instructions. -/
theorem phis_and_body
    {b : Block}
    {first rest : List Instr}
    (hinstrs : b.instrs = first ++ rest)
    (hfirst : ∀ i ∈ first, i.kind.isPhi = true)
    (hrest : ∀ i ∈ rest, i.kind.isPhi = false) :
    b.phis = first ∧ b.body = rest := by
  have hnone : rest.takeWhile (fun i => i.kind.isPhi) = [] ∧
      rest.dropWhile (fun i => i.kind.isPhi) = rest := by
    cases rest with
    | nil => exact ⟨rfl, rfl⟩
    | cons i rest => simp [hrest i List.mem_cons_self]
  rw [Block.phis, Block.body, hinstrs, List.takeWhile_append_of_pos hfirst,
    List.dropWhile_append_of_pos hfirst,
    hnone.1, hnone.2]
  simp

/--
There is no phi behind the phis at the start if no phi has another instruction before it.
-/
theorem body_plain_iff
    {b : Block} :
    (∀ i ∈ b.body, i.kind.isPhi = false) ↔
      b.instrs.Pairwise fun i j => j.kind.isPhi = true → i.kind.isPhi = true := by
  have hphis : ∀ i ∈ b.phis, i.kind.isPhi = true := fun i hi => isPhi_of_mem_phis hi
  constructor
  · intro h
    rw [← b.phis_append_body, List.pairwise_append]
    refine ⟨?_, ?_, fun i hi _ _ _ => hphis i hi⟩
    · exact List.Pairwise.imp_of_mem (fun hi _ _ _ => hphis _ hi)
        (List.pairwise_of_forall (R := fun _ _ => True) (by simp))
    · refine List.Pairwise.imp_of_mem (fun _ hj _ hphi => ?_)
        (List.pairwise_of_forall (R := fun _ _ => True) (by simp))
      rw [h _ hj] at hphi
      cases hphi
  · intro h i hi
    cases hbody : b.body with
    | nil => simp [hbody] at hi
    | cons first rest =>
        -- the first instruction of the body is no phi
        have hfirst : first.kind.isPhi = false := by
          have hhead := List.head?_dropWhile_not (fun i : Instr => i.kind.isPhi) b.instrs
          rw [show b.instrs.dropWhile _ = _ from hbody] at hhead
          exact hhead
        rw [← b.phis_append_body, List.pairwise_append, hbody] at h
        rw [hbody] at hi
        rcases List.mem_cons.mp hi with rfl | hi
        · exact hfirst
        · have hrel := (List.pairwise_cons.mp h.2.1).1 i hi
          cases hphi : i.kind.isPhi with
          | false => rfl
          | true => exact absurd (hrel hphi) (by simp [hfirst])

/-- An operand of the terminator is one that has to have a type. -/
theorem exists_use_of_mem_termOperands
    {b : Block}
    {o : Operand}
    (h : o ∈ b.termOperands) :
    ∃ type, (o, type) ∈ b.termUses := by
  unfold termOperands at h
  unfold termUses
  cases hterm : b.term with
  | none => simp [hterm] at h
  | some term =>
      simp only [hterm] at h ⊢
      rw [← term.uses_map_fst] at h
      obtain ⟨⟨o, type⟩, hu, rfl⟩ := List.mem_map.mp h
      exact ⟨type, hu⟩

theorem mem_termOperands_of_mem_termUses
    {b : Block}
    {u : Operand × ValueType}
    (h : u ∈ b.termUses) :
    u.1 ∈ b.termOperands := by
  unfold termUses at h
  unfold termOperands
  cases hterm : b.term with
  | none => simp [hterm] at h
  | some term =>
      simp only [hterm] at h ⊢
      rw [← term.uses_map_fst]
      exact List.mem_map_of_mem h

end Block

namespace Function

variable {f : Function}

/-- The results of all instructions in order. -/
def results (f : Function) : List ValueId :=
  f.instrs.map (·.dest)

theorem mem_instrs_iff
    {i : Instr} :
    i ∈ f.instrs ↔ ∃ b ∈ f.blocks, i ∈ b.instrs :=
  List.mem_flatMap

theorem results_eq_flatMap
    (f : Function) :
    f.results = f.blocks.flatMap Block.results := by
  simp only [results, instrs, List.map_flatMap]
  rfl

theorem mem_results_iff
    {v : ValueId} :
    v ∈ f.results ↔ ∃ b ∈ f.blocks, v ∈ b.results := by
  rw [results_eq_flatMap, List.mem_flatMap]

/-! ## Blocks -/

theorem mem_blockIds_iff
    {id : BlockId} :
    id ∈ f.blockIds ↔ ∃ b ∈ f.blocks, b.id = id :=
  List.mem_map

theorem block_eq_of_id_eq
    (hids : f.blockIds.Nodup)
    {b b' : Block}
    (hb : b ∈ f.blocks)
    (hb' : b' ∈ f.blocks)
    (h : b.id = b'.id) :
    b = b' :=
  List.inj_on_of_nodup_map hids hb hb' h

theorem mem_of_block?_eq_some
    {id : BlockId}
    {b : Block}
    (h : f.block? id = some b) :
    b ∈ f.blocks ∧ b.id = id :=
  ⟨List.mem_of_find?_eq_some h, by simpa using List.find?_some h⟩

/-- If block names are distinct, the block of a name is the one that bears it. -/
theorem block?_eq_some_iff
    (hids : f.blockIds.Nodup)
    {id : BlockId}
    {b : Block} :
    f.block? id = some b ↔ b ∈ f.blocks ∧ b.id = id := by
  constructor
  · exact mem_of_block?_eq_some
  · rintro ⟨hb, rfl⟩
    cases hfound : f.block? b.id with
    | none =>
        have hnone := List.find?_eq_none.mp hfound b hb
        simp at hnone
    | some b' =>
        obtain ⟨hb', hid⟩ := mem_of_block?_eq_some hfound
        rw [block_eq_of_id_eq hids hb' hb hid]

theorem block?_eq_none_iff
    {id : BlockId} :
    f.block? id = none ↔ id ∉ f.blockIds := by
  simp [block?, blockIds, List.find?_eq_none]

theorem exists_of_mem_successors
    {id target : BlockId}
    (h : target ∈ f.successors id) :
    ∃ b ∈ f.blocks, b.id = id ∧ target ∈ b.successors := by
  unfold successors at h
  cases hb : f.block? id with
  | none => simp [hb] at h
  | some b =>
      obtain ⟨hmem, hid⟩ := mem_of_block?_eq_some hb
      exact ⟨b, hmem, hid, by simpa [hb] using h⟩

theorem mem_successors_iff
    (hids : f.blockIds.Nodup)
    {id target : BlockId} :
    target ∈ f.successors id ↔ ∃ b ∈ f.blocks, b.id = id ∧ target ∈ b.successors := by
  constructor
  · exact exists_of_mem_successors
  · rintro ⟨b, hmem, hid, h⟩
    simp [successors, (block?_eq_some_iff hids).mpr ⟨hmem, hid⟩, h]

theorem mem_predecessors_iff
    {id pred : BlockId} :
    pred ∈ f.predecessors id ↔ ∃ b ∈ f.blocks, b.id = pred ∧ id ∈ b.successors := by
  simp only [predecessors, List.mem_map, List.mem_filter, List.contains_iff_mem]
  constructor
  · rintro ⟨b, ⟨hb, hs⟩, hid⟩
    exact ⟨b, hb, hid, hs⟩
  · rintro ⟨b, hb, hid, hs⟩
    exact ⟨b, ⟨hb, hs⟩, hid⟩

theorem mem_blocks_of_entry?
    {entry : BlockId}
    (h : f.entry? = some entry) :
    entry ∈ f.blockIds := by
  unfold entry? at h
  obtain ⟨b, hb, rfl⟩ := Option.map_eq_some_iff.mp h
  exact List.mem_map_of_mem (List.mem_of_head? hb)

theorem hasBody_iff_entry? :
    f.hasBody = true ↔ ∃ entry, f.entry? = some entry := by
  unfold hasBody entry?
  cases f.blocks <;> simp

theorem entry?_eq_none_iff :
    f.entry? = none ↔ f.blocks = [] := by
  unfold entry?
  cases f.blocks <;> simp

/-! ## Results -/

/-- If results are distinct, a value is defined in one block only. -/
theorem block_eq_of_mem_results
    (hresults : f.results.Nodup)
    {b b' : Block}
    (hb : b ∈ f.blocks)
    (hb' : b' ∈ f.blocks)
    {v : ValueId}
    (h : v ∈ b.results)
    (h' : v ∈ b'.results) :
    b = b' := by
  by_contra hne
  rw [results_eq_flatMap, List.nodup_flatMap] at hresults
  have hsymm : Std.Symm (Function.onFun List.Disjoint Block.results) :=
    ⟨fun _ _ hd _ hx hy => hd hy hx⟩
  exact hresults.2.forall hb hb' hne h h'

theorem results_nodup_of_mem
    (hresults : f.results.Nodup)
    {b : Block}
    (hb : b ∈ f.blocks) :
    b.results.Nodup := by
  rw [results_eq_flatMap, List.nodup_flatMap] at hresults
  exact hresults.1 b hb

theorem phis_nodup_of_mem
    {f : Function}
    (h : f.results.Nodup)
    {b : Block}
    (hb : b ∈ f.blocks) :
    (b.phis.map (·.dest)).Nodup := by
  have hall := results_nodup_of_mem h hb
  rw [Block.results, ← b.phis_append_body, List.map_append] at hall
  exact hall.of_append_left

/-- If results are distinct, the instruction of a result is the one that defines it. -/
theorem instr?_eq_some_iff
    (hresults : f.results.Nodup)
    {v : ValueId}
    {i : Instr} :
    f.instr? v = some i ↔ i ∈ f.instrs ∧ i.dest = v := by
  constructor
  · intro h
    exact ⟨List.mem_of_find?_eq_some h, by simpa using List.find?_some h⟩
  · rintro ⟨hi, rfl⟩
    cases hfound : f.instr? i.dest with
    | none =>
        have hnone := List.find?_eq_none.mp hfound i hi
        simp at hnone
    | some j =>
        have hj : j ∈ f.instrs := List.mem_of_find?_eq_some hfound
        have hdest : j.dest = i.dest := by simpa using List.find?_some hfound
        rw [List.inj_on_of_nodup_map hresults hj hi hdest]

theorem findDefinition_eq_none_iff
    {v : ValueId}
    {blocks : List Block} :
    findDefinition v blocks = none ↔ ∀ b ∈ blocks, v ∉ b.results := by
  induction blocks with
  | nil => simp [findDefinition]
  | cons b blocks ih =>
      cases hplace : b.instrs.findIdx? fun i => i.dest == v with
      | none =>
          have hnot : v ∉ b.results := by
            simpa [Block.results, List.findIdx?_eq_none_iff] using hplace
          simp [findDefinition, hplace, ih, hnot]
      | some place =>
          have hmem : v ∈ b.results := by
            obtain ⟨hlt, hdest, -⟩ := List.findIdx?_eq_some_iff_getElem.mp hplace
            exact List.mem_map.mpr ⟨_, List.getElem_mem hlt, by simpa using hdest⟩
          simp [findDefinition, hplace, hmem]

/-- The place of a definition splits the block at the first instruction with that result. -/
theorem findDefinition_eq_some
    {v : ValueId}
    {blocks : List Block}
    {home : BlockId}
    {place : Nat}
    (h : findDefinition v blocks = some (home, place)) :
    ∃ b ∈ blocks, b.id = home ∧
      ∃ pre i post, b.instrs = pre ++ i :: post ∧ pre.length = place ∧ i.dest = v := by
  induction blocks with
  | nil => simp [findDefinition] at h
  | cons b blocks ih =>
      cases hplace : b.instrs.findIdx? fun i => i.dest == v with
      | none =>
          simp only [findDefinition, hplace] at h
          obtain ⟨b', hb', hrest⟩ := ih h
          exact ⟨b', List.mem_cons_of_mem _ hb', hrest⟩
      | some place' =>
          simp only [findDefinition, hplace, Option.some.injEq, Prod.mk.injEq] at h
          obtain ⟨rfl, rfl⟩ := h
          obtain ⟨hlt, hdest, -⟩ := List.findIdx?_eq_some_iff_getElem.mp hplace
          refine ⟨b, List.mem_cons_self, rfl, b.instrs.take place', b.instrs[place'],
            b.instrs.drop (place' + 1), ?_, ?_, by simpa using hdest⟩
          · rw [← List.drop_eq_getElem_cons hlt, List.take_append_drop]
          · rw [List.length_take]
            omega

/-! ## Types -/

/-- An operand exists and has a type. -/
def HasType (f : Function) : Operand → ValueType → Prop
  | .const _, type => type = .double
  | .bool _, type => type = .bool
  | .arg position, type => position < f.arity ∧ type = .double
  | .result v, type => ∃ i ∈ f.instrs, i.dest = v ∧ i.kind.type = type

theorem typeOf?_eq_some_iff
    (hresults : f.results.Nodup)
    {o : Operand}
    {type : ValueType} :
    f.typeOf? o = some type ↔ f.HasType o type := by
  cases o with
  | const x => simp [typeOf?, HasType, eq_comm]
  | bool b => simp [typeOf?, HasType, eq_comm]
  | arg position => simp [typeOf?, HasType, eq_comm]
  | result v =>
      simp only [typeOf?, HasType, Option.map_eq_some_iff]
      constructor
      · rintro ⟨i, hi, ht⟩
        obtain ⟨hmem, hdest⟩ := (instr?_eq_some_iff hresults).mp hi
        exact ⟨i, hmem, hdest, ht⟩
      · rintro ⟨i, hmem, hdest, ht⟩
        exact ⟨i, (instr?_eq_some_iff hresults).mpr ⟨hmem, hdest⟩, ht⟩

theorem HasType.mem_results
    {v : ValueId}
    {type : ValueType}
    (h : f.HasType (.result v) type) :
    v ∈ f.results := by
  obtain ⟨i, hi, hdest, -⟩ := h
  exact List.mem_map.mpr ⟨i, hi, hdest⟩

end Function

/-! ## Changed blocks -/

namespace Function

variable {f : Function} {change : Block → Block}

theorem blockIds_mapBlocks
    (hid : ∀ b, (change b).id = b.id) :
    (f.mapBlocks change).blockIds = f.blockIds := by
  simp [blockIds, mapBlocks, Function.comp_def, hid]

theorem block?_mapBlocks
    (hid : ∀ b, (change b).id = b.id)
    (id : BlockId) :
    (f.mapBlocks change).block? id = (f.block? id).map change := by
  simp only [block?, mapBlocks, List.find?_map, Function.comp_def, hid]

theorem entry?_mapBlocks
    (hid : ∀ b, (change b).id = b.id) :
    Function.entry? (f.mapBlocks change) = f.entry? := by
  simp [ entry?, mapBlocks, Function.comp_def, hid]

theorem successors_mapBlocks
    (hid : ∀ b, (change b).id = b.id)
    (hsucc : ∀ b, (change b).successors = b.successors)
    (id : BlockId) :
    (f.mapBlocks change).successors id = f.successors id := by
  unfold successors
  rw [block?_mapBlocks hid]
  cases f.block? id <;> simp [hsucc]

theorem predecessors_mapBlocks
    (hid : ∀ b, (change b).id = b.id)
    (hsucc : ∀ b, (change b).successors = b.successors)
    (id : BlockId) :
    (f.mapBlocks change).predecessors id = f.predecessors id := by
  simp [predecessors, mapBlocks, List.filter_map, Function.comp_def, hid, hsucc]

theorem mem_mapBlocks_iff
    {b : Block} :
    b ∈ (f.mapBlocks change).blocks ↔ ∃ c ∈ f.blocks, change c = b :=
  List.mem_map

/-- Results are distinct if they are so in each block and no two blocks share one. -/
theorem results_nodup_iff
    (hids : f.blockIds.Nodup) :
    f.results.Nodup ↔
      (∀ b ∈ f.blocks, b.results.Nodup) ∧
        ∀ b ∈ f.blocks, ∀ c ∈ f.blocks, b ≠ c → ∀ v ∈ b.results, v ∉ c.results := by
  constructor
  · intro h
    refine ⟨fun b hb => results_nodup_of_mem h hb, ?_⟩
    intro b hb c hc hne v hv hv'
    exact hne (block_eq_of_mem_results h hb hc hv hv')
  · rintro ⟨heach, hdisjoint⟩
    rw [results_eq_flatMap, List.nodup_flatMap]
    refine ⟨heach, (List.Nodup.of_map _ hids).pairwise_of_forall_ne ?_⟩
    intro b hb c hc hne v hv hv'
    exact hdisjoint b hb c hc hne v hv hv'

/--
Results stay distinct if every block has only results of a block that bore its
identifier before.
-/
theorem results_nodup_of_origins
    {g : Function}
    (hresults : f.results.Nodup)
    (hids : g.blockIds.Nodup)
    (horigin : ∀ c ∈ g.blocks, ∃ b ∈ f.blocks, b.id = c.id ∧ c.results.Sublist b.results) :
    g.results.Nodup := by
  rw [results_nodup_iff hids]
  constructor
  · intro c hc
    obtain ⟨b, hb, -, hsub⟩ := horigin c hc
    exact (results_nodup_of_mem hresults hb).sublist hsub
  · intro c hc d hd hne v hv hv'
    obtain ⟨b, hb, hbid, hsub⟩ := horigin c hc
    obtain ⟨e, he, heid, hsub'⟩ := horigin d hd
    have hsame : b = e :=
      block_eq_of_mem_results hresults hb he (hsub.subset hv) (hsub'.subset hv')
    have hid : c.id = d.id := by rw [← hbid, ← heid, hsame]
    exact hne (List.inj_on_of_nodup_map hids hc hd hid)

end Function

namespace Module

/-- If identifiers are distinct, the function of an identifier is the one that bears it. -/
theorem function?_of_mem
    {m : Module}
    (hids : (m.functions.map (·.id)).Nodup)
    {f : Function}
    (hf : f ∈ m.functions) :
    m.function? f.id = some f := by
  cases hfound : m.function? f.id with
  | none =>
      have hnone := List.find?_eq_none.mp hfound f hf
      simp at hnone
  | some g =>
      have hid : g.id = f.id := by simpa using List.find?_some hfound
      rw [List.inj_on_of_nodup_map hids (List.mem_of_find?_eq_some hfound) hf hid]

/-- The function of an identifier after a function was changed. -/
theorem function?_mapFunction
    (m : Module)
    (id callee : FuncId)
    {change : Function → Function}
    (hchange : ∀ f, f.id = id → (change f).id = id) :
    (m.mapFunction id change).function? callee =
      (m.function? callee).map fun f => if f.id = id then change f else f := by
  simp only [function?, mapFunction]
  induction m.functions with
  | nil => rfl
  | cons f rest ih =>
      by_cases hid : f.id = id
      · by_cases hcallee : f.id = callee
        · simp [changeFirst, hid, hchange f hid, ← hcallee]
        · -- the functions behind the changed one are not looked at for its identifier
          have hne : id ≠ callee := hid ▸ hcallee
          have hrest : (rest.find? fun g => g.id == callee).map (fun g => if g.id = id then
              change g else g) =
              rest.find? fun g => g.id == callee := by
            cases hg : rest.find? fun g => g.id == callee with
            | none => rfl
            | some g =>
                have hgid : g.id = callee := by simpa using List.find?_some hg
                rw [Option.map_some, if_neg (hgid ▸ Ne.symm hne)]
          simp [changeFirst, hid, hchange f hid, hne, hrest]
      · by_cases hcallee : f.id = callee
        · simp [changeFirst, hcallee, hcallee ▸ hid]
        · simp [changeFirst, hid, hcallee, ih]

end Module

end ScalarSsa
