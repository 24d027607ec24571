import ScalarSsa.Pass.Branches
import ScalarSsa.Proofs.Verify.WellFormed

/-!
# Removing blocks and edges

**Input.** A well-formed function, the blocks and the incoming edges to keep,
and new terminators.

**Definitions.** `Function.thin` removes blocks and edges.  `Function.Thins` says that the
parts to be kept fit together: no kept block leads to a removed one, phis keep exactly the
edges that remain, and no value that is still used is removed.

**Results.** `WellFormed.thin`: the function stays well formed.  Both the settling of
branches and the removal of unreachable blocks are of this kind.
-/

namespace ScalarSsa

namespace Block

/-- The block with only the incoming edges from some blocks. -/
def dropIncoming (keepEdge : BlockId → Bool) (b : Block) : Block :=
  b.mapIncoming fun incoming => incoming.filter fun edge => keepEdge edge.2

/-- The block with only the incoming edges from some blocks, and with another terminator. -/
def thin (keepEdge : BlockId → Bool) (term : Option Terminator) (b : Block) : Block :=
  { b.dropIncoming keepEdge with term := term }

variable {keepEdge : BlockId → Bool} {term : Option Terminator} {b : Block}

@[simp] theorem thin_id : (b.thin keepEdge term).id = b.id :=
  rfl

@[simp] theorem thin_term : (b.thin keepEdge term).term = term :=
  rfl

theorem instrs_thin :
    (b.thin keepEdge term).instrs = b.instrs.map fun i =>
      { i with
        kind := i.kind.mapIncoming fun incoming =>
          incoming.filter fun edge => keepEdge edge.2 } :=
  rfl

@[simp] theorem results_thin : (b.thin keepEdge term).results = b.results := by
  simp [results, instrs_thin, Function.comp_def]

theorem dropIncoming_of_all
    (h : ∀ pred, keepEdge pred = true) :
    b.dropIncoming keepEdge = b := by
  have hkind : ∀ kind : InstrKind,
      (kind.mapIncoming fun incoming => incoming.filter fun edge => keepEdge edge.2) =
        kind := by
    intro kind
    cases kind <;> simp [InstrKind.mapIncoming, h]
  simp [dropIncoming, mapIncoming, hkind]

end Block

/-- Fewer incoming edges mean fewer uses. -/
theorem InstrKind.uses_mapIncoming_filter
    {keep : Operand × BlockId → Bool}
    {kind : InstrKind}
    {u : Operand × ValueType}
    (h : u ∈ (kind.mapIncoming fun incoming => incoming.filter keep).uses) :
    u ∈ kind.uses := by
  cases kind with
  | phi type incoming =>
      obtain ⟨edge, he, rfl⟩ := List.mem_map.mp h
      exact List.mem_map.mpr ⟨edge, (List.mem_filter.mp he).1, rfl⟩
  | _ => exact h

namespace Function

variable
  {f : Function}
  {keepBlock : BlockId → Bool}
  {keepEdge : BlockId → BlockId → Bool}
  {term : Block → Option Terminator}

/--
The function with only some blocks and some incoming edges of each block, and with
other terminators.
-/
def thin (f : Function) (keepBlock : BlockId → Bool) (keepEdge : BlockId → BlockId → Bool)
    (term : Block → Option Terminator) : Function :=
  { f with
    blocks := (f.blocks.filter fun b => keepBlock b.id).map fun b =>
      b.thin (keepEdge b.id) (term b) }

theorem mem_thin_iff
    {b : Block} :
    b ∈ (f.thin keepBlock keepEdge term).blocks ↔
      ∃ c ∈ f.blocks, keepBlock c.id = true ∧ c.thin (keepEdge c.id) (term c) = b := by
  simp only [thin, List.mem_map, List.mem_filter, and_assoc]

theorem blockIds_thin :
    (f.thin keepBlock keepEdge term).blockIds = f.blockIds.filter keepBlock := by
  simp [thin, blockIds, List.filter_map, Function.comp_def]

/-- The parts of a function that are kept fit together. -/
structure Thins (f : Function) (keepBlock : BlockId → Bool)
    (keepEdge : BlockId → BlockId → Bool)
    (term : Block → Option Terminator) : Prop where
  entry : ∀ entry, f.entry? = some entry → keepBlock entry = true
  terminated : ∀ b ∈ f.blocks, term b ≠ none
  successors : ∀ b ∈ f.blocks, keepBlock b.id = true →
    ∀ target ∈ (b.thin (keepEdge b.id) (term b)).successors, target ∈ b.successors ∧
      keepBlock target = true
  termUses : ∀ b ∈ f.blocks, ∀ u ∈ (b.thin (keepEdge b.id) (term b)).termUses,
    u ∈ b.termUses
  /-- The edges from predecessors that are kept are those that still lead to the block. -/
  edges : ∀ b ∈ f.blocks, keepBlock b.id = true → ∀ p ∈ f.blocks, b.id ∈ p.successors →
    (keepEdge b.id p.id = true ↔
      keepBlock p.id = true ∧ b.id ∈ (p.thin (keepEdge p.id) (term p)).successors)
  /-- The definitions of the values that are still used are kept. -/
  live : ∀ b ∈ f.blocks, keepBlock b.id = true →
    ∀ i ∈ (b.thin (keepEdge b.id) (term b)).instrs,
    ∀ v, .result v ∈ i.kind.operands → ∃ d ∈ f.blocks, keepBlock d.id = true ∧ v ∈ d.results
  live_end : ∀ b ∈ f.blocks, keepBlock b.id = true → ∀ v, .result v ∈ b.termOperands →
    ∃ d ∈ f.blocks, keepBlock d.id = true ∧ v ∈ d.results

section Thin

variable (hids : f.blockIds.Nodup) (h : f.Thins keepBlock keepEdge term)

include h

theorem entry?_thin :
    Function.entry? (f.thin keepBlock keepEdge term) = f.entry? := by
  have hentry := h.entry
  unfold entry? thin at *
  cases hblocks : f.blocks with
  | nil => rfl
  | cons first rest =>
      have hkeep : keepBlock first.id = true := hentry first.id (by simp [hblocks])
      simp [hkeep]

include hids

theorem successors_thin_subset
    {b c : BlockId}
    (hc : c ∈ (f.thin keepBlock keepEdge term).successors b) :
    c ∈ f.successors b := by
  obtain ⟨d, hd, rfl, hcd⟩ := exists_of_mem_successors hc
  obtain ⟨e, he, hkeep, rfl⟩ := mem_thin_iff.mp hd
  exact (mem_successors_iff hids).mpr ⟨e, he, rfl, (h.successors e he hkeep c hcd).1⟩

theorem reachable_of_thin
    {b : BlockId}
    (hb : (f.thin keepBlock keepEdge term).Reachable b) :
    f.Reachable b :=
  hb.mono (by simp [entry?_thin h]) fun _ _ => successors_thin_subset hids h

theorem dominates_thin
    {upper lower : BlockId}
    (hdom : f.Dominates upper lower) :
    (f.thin keepBlock keepEdge term).Dominates upper lower :=
  hdom.anti (by simp [entry?_thin h]) fun _ _ => successors_thin_subset hids h

end Thin

/-- The block that defines a value is kept. -/
def Survives (f : Function) (keepBlock : BlockId → Bool) (v : ValueId) : Prop :=
  ∃ d ∈ f.blocks, keepBlock d.id = true ∧ v ∈ d.results

theorem HasType.thin
    (hresults : f.results.Nodup)
    {o : Operand}
    {type : ValueType}
    (h : f.HasType o type)
    (hlive : ∀ v, o = .result v → f.Survives keepBlock v) :
    (f.thin keepBlock keepEdge term).HasType o type := by
  cases o with
  | const x => exact h
  | bool b => exact h
  | arg position => exact h
  | result v =>
      obtain ⟨i, hi, rfl, rfl⟩ := h
      obtain ⟨d, hd, hkeep, hv⟩ := hlive i.dest rfl
      obtain ⟨j, hj, hdest⟩ := List.mem_map.mp hv
      obtain rfl : j = i :=
        List.inj_on_of_nodup_map hresults (mem_instrs_iff.mpr ⟨d, hd, hj⟩) hi hdest
      refine ⟨_,
        mem_instrs_iff.mpr ⟨_, mem_thin_iff.mpr ⟨d, hd, hkeep, rfl⟩,
          List.mem_map_of_mem hj⟩, rfl, ?_⟩
      exact InstrKind.type_mapIncoming _ _

/-! ## Well-formedness, rule by rule -/

section Rules

variable (hwf : f.WellFormed) (h : f.Thins keepBlock keepEdge term)

include hwf h

theorem computedBy_thin
    {v : ValueId}
    {id : BlockId}
    (hcomputed : f.ComputedBy v id)
    (hlive : f.Survives keepBlock v) :
    (f.thin keepBlock keepEdge term).ComputedBy v id := by
  obtain ⟨d, hd, hv, hdom⟩ := hcomputed
  obtain ⟨e, he, hkeep, hv'⟩ := hlive
  obtain rfl := block_eq_of_mem_results hwf.results_nodup hd he hv hv'
  exact ⟨_, mem_thin_iff.mpr ⟨d, hd, hkeep, rfl⟩, by simpa using hv,
    dominates_thin hwf.ids_nodup h hdom⟩

theorem computedBefore_thin
    {v : ValueId}
    {id : BlockId}
    (hcomputed : f.ComputedBefore v id)
    (hlive : f.Survives keepBlock v) :
    (f.thin keepBlock keepEdge term).ComputedBefore v id := by
  obtain ⟨d, hd, hne, hv, hdom⟩ := hcomputed
  obtain ⟨e, he, hkeep, hv'⟩ := hlive
  obtain rfl := block_eq_of_mem_results hwf.results_nodup hd he hv hv'
  exact ⟨_, mem_thin_iff.mpr ⟨d, hd, hkeep, rfl⟩,
    hne, by simpa using hv, dominates_thin hwf.ids_nodup h hdom⟩

omit hwf h

theorem forall_mem_thin
    {P : Block → Prop}
    (hall : ∀ b ∈ f.blocks, keepBlock b.id = true → P (b.thin (keepEdge b.id) (term b))) :
    ∀ b ∈ (f.thin keepBlock keepEdge term).blocks, P b := by
  intro b hb
  obtain ⟨c, hc, hkeep, rfl⟩ := mem_thin_iff.mp hb
  exact hall c hc hkeep

theorem phis_first_thin
    {b : Block}
    {kept : BlockId → Bool}
    {last : Option Terminator}
    (hplain : ∀ i ∈ b.body, i.kind.isPhi = false) :
    ∀ i ∈ (b.thin kept last).body, i.kind.isPhi = false := by
  rw [Block.body_plain_iff] at hplain ⊢
  rw [Block.instrs_thin, List.pairwise_map]
  exact hplain.imp (by simp)

include hwf

theorem blockIds_nodup_thin :
    (f.thin keepBlock keepEdge term).blockIds.Nodup := by
  rw [blockIds_thin]
  exact hwf.ids_nodup.filter _

theorem results_nodup_thin :
    (f.thin keepBlock keepEdge term).results.Nodup := by
  refine results_nodup_of_origins hwf.results_nodup (blockIds_nodup_thin hwf)
    (forall_mem_thin fun b hb _ => ⟨b, hb, rfl, ?_⟩)
  rw [Block.results_thin]

include h

theorem typed_thin
    {b : Block}
    (hb : b ∈ f.blocks)
    (hkeep : keepBlock b.id = true)
    {i : Instr}
    (hi : i ∈ (b.thin (keepEdge b.id) (term b)).instrs)
    {u : Operand × ValueType}
    (hu : u ∈ i.kind.uses) :
    (f.thin keepBlock keepEdge term).HasType u.1 u.2 := by
  have hlive := h.live b hb hkeep i hi
  obtain ⟨j, hj, rfl⟩ := List.mem_map.mp hi
  refine (hwf.typed b hb j hj u (InstrKind.uses_mapIncoming_filter hu)).thin
    hwf.results_nodup ?_
  intro v hv
  exact hlive v (hv ▸ InstrKind.mem_operands_of_mem_uses hu)

theorem term_typed_thin
    {b : Block}
    (hb : b ∈ f.blocks)
    (hkeep : keepBlock b.id = true)
    {u : Operand × ValueType}
    (hu : u ∈ (b.thin (keepEdge b.id) (term b)).termUses) :
    (f.thin keepBlock keepEdge term).HasType u.1 u.2 := by
  have hold := h.termUses b hb u hu
  refine (hwf.term_typed b hb u hold).thin hwf.results_nodup ?_
  intro v hv
  exact h.live_end b hb hkeep v (hv ▸ Block.mem_termOperands_of_mem_termUses hold)

/-- The edges that a phi keeps come from the predecessors that are left. -/
theorem phi_edges_thin
    {b : Block}
    (hb : b ∈ f.blocks)
    (hkeep : keepBlock b.id = true)
    {i : Instr}
    (hi : i ∈ (b.thin (keepEdge b.id) (term b)).instrs)
    {type : ValueType}
    {incoming : List (Operand × BlockId)}
    (hkind : i.kind = .phi type incoming)
    (pred : BlockId) :
    pred ∈ incoming.map (·.2) ↔
      pred ∈ (f.thin keepBlock keepEdge term).predecessors b.id := by
  obtain ⟨j, hj, rfl⟩ := List.mem_map.mp hi
  obtain ⟨old, hold, rfl⟩ := InstrKind.mapIncoming_eq_phi hkind
  have hpreds := hwf.phi_edges b hb j hj type old hold
  rw [mem_predecessors_iff]
  constructor
  · intro hmem
    obtain ⟨⟨o, source⟩, he, rfl⟩ := List.mem_map.mp hmem
    obtain ⟨he, hkeepEdge⟩ := List.mem_filter.mp he
    obtain ⟨p, hp, rfl, hsucc⟩ :=
      mem_predecessors_iff.mp ((hpreds source).mp (List.mem_map_of_mem he))
    obtain ⟨hkeep', hsucc'⟩ := (h.edges b hb hkeep p hp hsucc).mp hkeepEdge
    exact ⟨_, mem_thin_iff.mpr ⟨p, hp, hkeep', rfl⟩, rfl, hsucc'⟩
  · rintro ⟨p', hp', rfl, hsucc'⟩
    obtain ⟨p, hp, hkeep', rfl⟩ := mem_thin_iff.mp hp'
    have hsucc := (h.successors p hp hkeep' b.id hsucc').1
    have hin := (hpreds p.id).mpr (mem_predecessors_iff.mpr ⟨p, hp, rfl, hsucc⟩)
    obtain ⟨edge, he, hid⟩ := List.mem_map.mp hin
    refine List.mem_map.mpr ⟨edge, List.mem_filter.mpr ⟨he, ?_⟩, hid⟩
    rw [hid]
    exact (h.edges b hb hkeep p hp hsucc).mpr ⟨hkeep', hsucc'⟩

theorem uses_thin
    {b : Block}
    (hb : b ∈ f.blocks)
    (hkeep : keepBlock b.id = true)
    (hreach : f.Reachable b.id)
    {pre post : List Instr}
    {i : Instr}
    (hsplit : (b.thin (keepEdge b.id) (term b)).instrs = pre ++ i :: post)
    (hplain : i.kind.isPhi = false)
    {v : ValueId}
    (hv : .result v ∈ i.kind.operands) :
    v ∈ pre.map (·.dest) ∨ (f.thin keepBlock keepEdge term).ComputedBefore v b.id := by
  have hlive := h.live b hb hkeep i (by simp [hsplit]) v hv
  obtain ⟨pre', rest', hsplit', rfl, hrest⟩ := List.map_eq_append_iff.mp hsplit
  obtain ⟨j, post', rfl, rfl, rfl⟩ := List.map_eq_cons_iff.mp hrest
  have hplain' : j.kind.isPhi = false := by simpa using hplain
  simp only [InstrKind.mapIncoming_of_not_phi _ hplain'] at hv
  rcases hwf.uses b hb hreach pre' j post' hsplit' hplain' v hv with hpre | hbefore
  · left
    simpa [Function.comp_def] using hpre
  · exact .inr (computedBefore_thin hwf h hbefore hlive)

theorem ends_thin
    {b : Block}
    (hb : b ∈ f.blocks)
    (hkeep : keepBlock b.id = true)
    (hreach : f.Reachable b.id)
    {v : ValueId}
    (hv : .result v ∈ (b.thin (keepEdge b.id) (term b)).termOperands) :
    (f.thin keepBlock keepEdge term).ComputedBy v b.id := by
  obtain ⟨type, hu⟩ := Block.exists_use_of_mem_termOperands hv
  have hold := Block.mem_termOperands_of_mem_termUses (h.termUses b hb _ hu)
  exact computedBy_thin hwf h (hwf.ends b hb hreach v hold) (h.live_end b hb hkeep v hold)

theorem edges_thin
    {b : Block}
    (hb : b ∈ f.blocks)
    (hkeep : keepBlock b.id = true)
    {i : Instr}
    (hi : i ∈ (b.thin (keepEdge b.id) (term b)).instrs)
    {type : ValueType}
    {incoming : List (Operand × BlockId)}
    (hkind : i.kind = .phi type incoming)
    {v : ValueId}
    {pred : BlockId}
    (hin : (.result v, pred) ∈ incoming)
    (hreach : f.Reachable pred) :
    (f.thin keepBlock keepEdge term).ComputedBy v pred := by
  have hoperand : .result v ∈ i.kind.operands := by
    rw [hkind]
    exact List.mem_map.mpr ⟨_, hin, rfl⟩
  have hlive := h.live b hb hkeep i hi v hoperand
  obtain ⟨j, hj, rfl⟩ := List.mem_map.mp hi
  obtain ⟨old, hold, rfl⟩ := InstrKind.mapIncoming_eq_phi hkind
  have hcomputed :=
    hwf.edges b hb j hj type old hold v pred (List.mem_filter.mp hin).1 hreach
  exact computedBy_thin hwf h hcomputed hlive

/-- If the kept parts fit together, the function stays well formed. -/
theorem WellFormed.thin :
    (f.thin keepBlock keepEdge term).WellFormed where
  ids_nodup := blockIds_nodup_thin hwf
  results_nodup := results_nodup_thin hwf
  entry_free := by
    intro entry hentry
    rw [entry?_thin h] at hentry
    refine forall_mem_thin fun b hb hkeep hmem => ?_
    exact hwf.entry_free entry hentry b hb (h.successors b hb hkeep entry hmem).1
  terminated := forall_mem_thin fun b hb _ => h.terminated b hb
  targets := by
    refine forall_mem_thin fun b hb hkeep target htarget => ?_
    obtain ⟨hsucc, hkept⟩ := h.successors b hb hkeep target htarget
    rw [blockIds_thin]
    exact List.mem_filter.mpr ⟨hwf.targets b hb target hsucc, hkept⟩
  typed := forall_mem_thin fun b hb hkeep i hi u hu => typed_thin hwf h hb hkeep hi hu
  term_typed := forall_mem_thin fun b hb hkeep u hu => term_typed_thin hwf h hb hkeep hu
  phis_first := forall_mem_thin fun b hb _ => phis_first_thin (hwf.phis_first b hb)
  phi_edges := forall_mem_thin fun b hb hkeep i hi type incoming hkind =>
    phi_edges_thin hwf h hb hkeep hi hkind
  uses := forall_mem_thin fun b hb hkeep hreach pre i post hsplit hplain v hv =>
    uses_thin hwf h hb hkeep (reachable_of_thin hwf.ids_nodup h hreach) hsplit hplain hv
  ends := forall_mem_thin fun b hb hkeep hreach v hv =>
    ends_thin hwf h hb hkeep (reachable_of_thin hwf.ids_nodup h hreach) hv
  edges := forall_mem_thin fun b hb hkeep i hi type incoming hkind v pred hin hreach =>
    edges_thin hwf h hb hkeep hi hkind hin (reachable_of_thin hwf.ids_nodup h hreach)

end Rules

theorem CallsMatch.thin
    {m : Module}
    (h : f.CallsMatch m) :
    (f.thin keepBlock keepEdge term).CallsMatch m := by
  intro b hb i hi callee name args hkind
  obtain ⟨c, hc, -, rfl⟩ := mem_thin_iff.mp hb
  obtain ⟨j, hj, rfl⟩ := List.mem_map.mp hi
  exact h c hc j hj callee name args (InstrKind.mapIncoming_eq_call hkind)

end Function

end ScalarSsa
