import ScalarSsa.Pass.Branches
import ScalarSsa.Proofs.Verify.WellFormed

/-!
# Joining a block to its only predecessor

**Input.** A well-formed function with a block `b` that has no phi and one predecessor,
which jumps to it.

**Definitions.** `Function.join` puts the instructions of `b` behind those of the
predecessor and removes `b`; edges that came from `b` come from the predecessor.  `joinedId`
sends `b` to the predecessor and every other block to itself.

**Results.** `trail_join` and `exists_trail_of_join`: trails of the joined function are the
trails of the old one with `b` left out.  `dominates_join`: dominance carries over along
`joinedId`.  `WellFormed.join`: the function stays well formed.
-/

namespace ScalarSsa

namespace Block

/-- The block with another one's instructions and terminator behind its own instructions. -/
def join (upper lower : Block) : Block :=
  { upper with instrs := upper.instrs ++ lower.instrs, term := lower.term }

/-- The block with the incoming edges that come from `source` coming from `target`. -/
def renameIncoming (source target : BlockId) (b : Block) : Block :=
  b.mapIncoming fun incoming => incoming.map fun edge =>
    (edge.1, if edge.2 = source then target else edge.2)

end Block

theorem InstrKind.uses_renameIncoming
    (rename : BlockId → BlockId)
    (kind : InstrKind) :
    (kind.mapIncoming fun incoming => incoming.map fun edge =>
      (edge.1, rename edge.2)).uses = kind.uses := by
  cases kind <;> simp [InstrKind.mapIncoming, InstrKind.uses, Function.comp_def]

theorem InstrKind.operands_renameIncoming
    (rename : BlockId → BlockId)
    (kind : InstrKind) :
    (kind.mapIncoming fun incoming => incoming.map fun edge =>
      (edge.1, rename edge.2)).operands = kind.operands := by
  cases kind <;> simp [InstrKind.mapIncoming, InstrKind.operands, Function.comp_def]

/-- The block that the instructions of a block belong to after `b` was joined to `pred`. -/
def joinedId (pred : BlockId) (b : Block) (id : BlockId) : BlockId :=
  if id = b.id then pred else id

namespace Function

variable {f : Function} {pred : BlockId} {b : Block}

/-- The block that a block other than `b` becomes when `b` is joined to `pred`. -/
def joinedBlock (pred : BlockId) (b c : Block) : Block :=
  (if c.id = pred then c.join b else c).renameIncoming b.id pred

/-- The function with `b` joined to `pred`. -/
def join (f : Function) (pred : BlockId) (b : Block) : Function :=
  { f with blocks := (f.blocks.filter fun c => c.id != b.id).map (joinedBlock pred b) }

/-- A block has one predecessor, which jumps to it. -/
structure Mergeable (f : Function) (pred : BlockId) (b : Block) : Prop where
  mem : b ∈ f.blocks
  upper : ∃ p ∈ f.blocks, p.id = pred ∧ p.term = some (.jump b.id)
  only : ∀ c ∈ f.blocks, b.id ∈ c.successors → c.id = pred
  ne : pred ≠ b.id
  entry : f.entry? ≠ some b.id

/-- A block that can be merged has no phi. -/
structure Joinable (f : Function) (pred : BlockId) (b : Block) :
    Prop extends Mergeable f pred b where
  plain : ∀ i ∈ b.instrs, i.kind.isPhi = false

/-! ## Joined blocks -/

section Blocks

variable {c : Block}

@[simp] theorem joinedBlock_id : (joinedBlock pred b c).id = c.id := by
  by_cases h : c.id = pred
    <;> simp [joinedBlock, Block.renameIncoming, Block.mapIncoming, Block.join, h]

theorem joinedBlock_term :
    (joinedBlock pred b c).term = if c.id = pred then b.term else c.term := by
  by_cases h : c.id = pred
    <;> simp [joinedBlock, Block.renameIncoming, Block.mapIncoming, Block.join, h]

theorem joinedBlock_successors :
    (joinedBlock pred b c).successors = if c.id = pred then b.successors
      else c.successors := by
  by_cases h : c.id = pred <;> simp [Block.successors, joinedBlock_term, h]

/-- An instruction with the edges from `b` coming from `pred`. -/
def joinedInstr (pred : BlockId) (b : Block) (i : Instr) : Instr :=
  { i with
    kind := i.kind.mapIncoming fun incoming => incoming.map fun edge =>
      (edge.1, joinedId pred b edge.2) }

theorem joinedBlock_instrs :
    (joinedBlock pred b c).instrs =
      (if c.id = pred then c.instrs ++ b.instrs else c.instrs).map
        (joinedInstr pred b) := by
  by_cases h : c.id = pred
  · simp only [joinedBlock, if_pos h]
    rfl
  · simp only [joinedBlock, if_neg h]
    rfl

theorem joinedBlock_results :
    (joinedBlock pred b c).results = if c.id = pred then c.results ++ b.results
      else c.results := by
  by_cases h : c.id = pred
    <;> simp [Block.results, joinedBlock_instrs, h, joinedInstr, Function.comp_def]

end Blocks

theorem mem_join_iff
    {c : Block} :
    c ∈ (f.join pred b).blocks ↔ ∃ d ∈ f.blocks, d.id ≠ b.id ∧
      joinedBlock pred b d = c := by
  simp [join, and_assoc]

theorem blockIds_join :
    (f.join pred b).blockIds = f.blockIds.filter fun id => id != b.id := by
  simp [join, blockIds, List.filter_map, Function.comp_def]

namespace Mergeable

theorem reachable_iff
    (hids : f.blockIds.Nodup)
    (h : f.Mergeable pred b) :
    f.Reachable b.id ↔ f.Reachable pred := by
  constructor
  · rintro ⟨path, htrail⟩
    cases htrail with
    | start hentry => exact absurd hentry h.entry
    | step htrail edge =>
        obtain ⟨c, hc, rfl, hsucc⟩ := exists_of_mem_successors edge
        rw [← h.only c hc hsucc]
        exact ⟨_, htrail⟩
  · intro hreach
    obtain ⟨p, hp, rfl, hterm⟩ := h.upper
    exact hreach.step ((mem_successors_iff hids).mpr
      ⟨p, hp, rfl, by simp [Block.successors, hterm, Terminator.successors]⟩)

/-- The way to the block leads through its predecessor, directly before it. -/
theorem exists_pred
    (h : f.Mergeable pred b)
    {path : List BlockId}
    (htrail : f.Trail (b.id :: path)) :
    ∃ rest, path = pred :: rest := by
  cases htrail with
  | start hentry => exact absurd hentry h.entry
  | step htrail edge =>
      obtain ⟨c, hc, rfl, hsucc⟩ := exists_of_mem_successors edge
      exact ⟨_, by rw [h.only c hc hsucc]⟩

theorem dominates_block
    (h : f.Mergeable pred b) :
    f.Dominates pred b.id := by
  intro path htrail
  obtain ⟨rest, rfl⟩ := h.exists_pred htrail
  simp

theorem edge
    (hids : f.blockIds.Nodup)
    (h : f.Mergeable pred b) :
    b.id ∈ f.successors pred := by
  obtain ⟨p, hp, rfl, hterm⟩ := h.upper
  exact (mem_successors_iff hids).mpr
    ⟨p, hp, rfl, by simp [Block.successors, hterm, Terminator.successors]⟩

theorem eq_of_edge
    (hids : f.blockIds.Nodup)
    (h : f.Mergeable pred b)
    {id : BlockId}
    (hid : id ∈ f.successors pred) :
    id = b.id := by
  obtain ⟨p, hp, rfl, hterm⟩ := h.upper
  obtain ⟨c, hc, hcp, hsucc⟩ := exists_of_mem_successors hid
  rw [block_eq_of_id_eq hids hc hp hcp] at hsucc
  simpa [Block.successors, hterm, Terminator.successors] using hsucc

/-- The block does not dominate its predecessor. -/
theorem not_dominates
    (hids : f.blockIds.Nodup)
    (h : f.Mergeable pred b)
    (hreach : f.Reachable pred) :
    ¬ f.Dominates b.id pred := by
  intro hdom
  exact h.ne (h.dominates_block.antisymm hdom ((h.reachable_iff hids).mpr hreach))

end Mergeable

/-! ## Trails -/

theorem ids_nodup_join
    (hids : f.blockIds.Nodup) :
    (f.join pred b).blockIds.Nodup := by
  rw [blockIds_join]
  exact hids.filter _

section Trails

variable (hids : f.blockIds.Nodup) (h : f.Mergeable pred b)

include h

theorem entry?_join :
    Function.entry? (f.join pred b) = f.entry? := by
  have hentry := h.entry
  unfold entry? join at *
  cases hblocks : f.blocks with
  | nil => rfl
  | cons first rest =>
      have hne : first.id ≠ b.id := by simpa [hblocks] using hentry
      simp [hne]

theorem mem_filter_joinedId
    {upper id : BlockId}
    {path : List BlockId}
    (htrail : f.Trail (id :: path))
    (hmem : upper ∈ id :: path) :
    joinedId pred b upper ∈ (id :: path).filter fun id => id != b.id := by
  have hkeep : (pred != b.id) = true := by simpa using h.ne
  by_cases hu : upper = b.id
  · -- where `b` is on a trail, so is its predecessor
    rw [joinedId, if_pos hu]
    obtain ⟨l, r, he, -⟩ := exists_last_of_mem hmem
    rw [he] at htrail ⊢
    rw [hu] at htrail
    obtain ⟨rest, rfl⟩ := h.exists_pred htrail.of_append
    refine List.mem_filter.mpr ⟨?_, hkeep⟩
    simp
  · rw [joinedId, if_neg hu]
    exact List.mem_filter.mpr ⟨hmem, by simpa using hu⟩

include hids

/-- The joined block goes where `b` went, and every other block where it went before. -/
theorem mem_successors_join_iff
    {id target : BlockId} :
    target ∈ (f.join pred b).successors id ↔
      id ≠ b.id ∧ if id = pred then target ∈ f.successors b.id
        else target ∈ f.successors id := by
  rw [mem_successors_iff (ids_nodup_join hids)]
  have hb : target ∈ f.successors b.id ↔ target ∈ b.successors := by
    rw [mem_successors_iff hids]
    constructor
    · rintro ⟨c, hc, hid, hsucc⟩
      rwa [block_eq_of_id_eq hids hc h.mem hid] at hsucc
    · intro hsucc
      exact ⟨b, h.mem, rfl, hsucc⟩
  constructor
  · rintro ⟨c, hc, rfl, hsucc⟩
    obtain ⟨d, hd, hne, rfl⟩ := mem_join_iff.mp hc
    rw [joinedBlock_id, joinedBlock_successors] at *
    refine ⟨hne, ?_⟩
    by_cases hp : d.id = pred
    · rw [if_pos hp] at hsucc ⊢
      exact hb.mpr hsucc
    · rw [if_neg hp] at hsucc ⊢
      exact (mem_successors_iff hids).mpr ⟨d, hd, rfl, hsucc⟩
  · rintro ⟨hne, hsucc⟩
    by_cases hp : id = pred
    · rw [if_pos hp] at hsucc
      obtain ⟨p, hpmem, hpid, -⟩ := h.upper
      refine ⟨_,
        mem_join_iff.mpr
          ⟨p, hpmem, by rw [hpid]; exact h.ne, rfl⟩, by rw [joinedBlock_id, hpid, hp], ?_⟩
      rw [joinedBlock_successors, if_pos hpid]
      exact hb.mp hsucc
    · rw [if_neg hp] at hsucc
      obtain ⟨d, hd, rfl, hsucc⟩ := (mem_successors_iff hids).mp hsucc
      refine ⟨_, mem_join_iff.mpr ⟨d, hd, hne, rfl⟩, joinedBlock_id, ?_⟩
      rwa [joinedBlock_successors, if_neg hp]

/-- A trail with `b` left out is a trail of the joined function. -/
theorem trail_join
    {path : List BlockId}
    (htrail : f.Trail path) :
    (f.join pred b).Trail (path.filter fun id => id != b.id) := by
  induction htrail with
  | @start entry hentry =>
      have hne : entry ≠ b.id := by
        rintro rfl
        exact h.entry hentry
      simpa [hne] using Trail.start (by rwa [entry?_join h])
  | @step last next path htrail edge ih =>
      by_cases hnext : next = b.id
      · simpa [hnext] using ih
      by_cases hlast : last = b.id
      · subst hlast
        obtain ⟨rest, rfl⟩ := h.exists_pred htrail
        have hkeep : (pred != b.id) = true := by simpa using h.ne
        simp only [List.filter_cons, hkeep, if_true, bne_self_eq_false, Bool.false_eq_true,
          if_false] at ih ⊢
        rw [if_pos (by simpa using hnext)]
        exact .step ih ((mem_successors_join_iff hids h).mpr ⟨h.ne, by rwa [if_pos rfl]⟩)
      · have hpred : last ≠ pred := by
          rintro rfl
          exact hnext (h.eq_of_edge hids edge)
        rw [List.filter_cons, if_pos (by simpa using hlast)] at ih
        rw [List.filter_cons, if_pos (by simpa using hnext), List.filter_cons,
          if_pos (by simpa using hlast)]
        exact .step ih ((mem_successors_join_iff hids h).mpr ⟨hlast, by rwa [if_neg hpred]⟩)

/-- A trail of the joined function comes from a trail that leaves out `b`. -/
theorem exists_trail_of_join
    {id : BlockId}
    {path : List BlockId}
    (htrail : (f.join pred b).Trail (id :: path)) :
    ∃ rest, f.Trail (id :: rest) ∧ path = rest.filter fun id => id != b.id := by
  generalize hwhole : id :: path = whole at htrail
  induction htrail generalizing id path with
  | start hentry =>
      cases hwhole
      rw [entry?_join h] at hentry
      exact ⟨[], .start hentry, rfl⟩
  | @step last next path' htrail edge ih =>
      cases hwhole
      obtain ⟨rest, htrail', rfl⟩ := ih rfl
      obtain ⟨hne, hedge⟩ := (mem_successors_join_iff hids h).mp edge
      have hkeep : (last != b.id) = true := by simpa using hne
      by_cases hp : last = pred
      · rw [if_pos hp] at hedge
        refine ⟨b.id :: last :: rest, .step (.step htrail' (hp ▸ h.edge hids)) hedge, ?_⟩
        simp [hne]
      · rw [if_neg hp] at hedge
        exact ⟨last :: rest, .step htrail' hedge, by simp [hne]⟩

theorem reachable_of_join
    {id : BlockId}
    (hreach : (f.join pred b).Reachable id) :
    f.Reachable id := by
  obtain ⟨path, htrail⟩ := hreach
  obtain ⟨rest, htrail', -⟩ := exists_trail_of_join hids h htrail
  exact ⟨rest, htrail'⟩

theorem reachable_of_joinedId
    {id : BlockId}
    (hreach : (f.join pred b).Reachable (joinedId pred b id)) :
    f.Reachable id := by
  by_cases hid : id = b.id
  · rw [joinedId, if_pos hid] at hreach
    rw [hid]
    exact (h.reachable_iff hids).mpr (reachable_of_join hids h hreach)
  · rw [joinedId, if_neg hid] at hreach
    exact reachable_of_join hids h hreach

theorem reachable_join
    {id : BlockId}
    (hreach : f.Reachable id)
    (hne : id ≠ b.id) :
    (f.join pred b).Reachable id := by
  obtain ⟨path, htrail⟩ := hreach
  have hjoined := trail_join hids h htrail
  rw [List.filter_cons, if_pos (by simpa using hne)] at hjoined
  exact ⟨_, hjoined⟩

/-- Dominance carries over to the joined function. -/
theorem dominates_join
    {upper lower : BlockId}
    (hdom : f.Dominates upper lower) :
    (f.join pred b).Dominates (joinedId pred b upper) (joinedId pred b lower) := by
  intro path htrail
  obtain ⟨rest, htrail', rfl⟩ := exists_trail_of_join hids h htrail
  by_cases hl : lower = b.id
  · subst hl
    rw [joinedId, if_pos rfl] at htrail' ⊢
    have hmem :=
      mem_filter_joinedId h (.step htrail' (h.edge hids))
        (hdom _ (.step htrail' (h.edge hids)))
    have hkeep : (pred != b.id) = true := by simpa using h.ne
    simpa [List.filter_cons, hkeep] using hmem
  · have hlower : joinedId pred b lower = lower := by rw [joinedId, if_neg hl]
    rw [hlower] at htrail' ⊢
    have hmem := mem_filter_joinedId h htrail' (hdom _ htrail')
    rwa [List.filter_cons, if_pos (by simpa using hl)] at hmem

end Trails

/-! ## Well-formedness -/

section WellFormed

variable (hwf : f.WellFormed) (h : f.Mergeable pred b)

include h

/-- The block leads neither to itself nor to anything that only its predecessor leads to. -/
theorem not_mem_successors_join
    {c : Block}
    (hc : c ∈ f.blocks) :
    b.id ∉ (joinedBlock pred b c).successors := by
  rw [joinedBlock_successors]
  by_cases hp : c.id = pred
  · rw [if_pos hp]
    intro hsucc
    exact h.ne (h.only b h.mem hsucc).symm
  · rw [if_neg hp]
    intro hsucc
    exact hp (h.only c hc hsucc)

include hwf

/-- Every block's instructions are in the block that it was joined to. -/
theorem exists_joined
    {d : Block}
    (hd : d ∈ f.blocks) :
    ∃ c ∈ (f.join pred b).blocks, c.id = joinedId pred b d.id ∧ ∀ i ∈ d.instrs,
      joinedInstr pred b i ∈ c.instrs := by
  by_cases hdb : d.id = b.id
  · obtain rfl := block_eq_of_id_eq hwf.ids_nodup hd h.mem hdb
    obtain ⟨p, hp, hid, -⟩ := h.upper
    refine ⟨_,
      mem_join_iff.mpr ⟨p, hp, by rw [hid]; exact h.ne, rfl⟩, by simp [joinedId, hid], ?_⟩
    intro i hi
    rw [joinedBlock_instrs, if_pos hid]
    exact List.mem_map_of_mem (List.mem_append_right _ hi)
  · refine ⟨_, mem_join_iff.mpr ⟨d, hd, hdb, rfl⟩, by simp [joinedId, hdb], ?_⟩
    intro i hi
    rw [joinedBlock_instrs]
    refine List.mem_map_of_mem ?_
    by_cases hp : d.id = pred
    · rw [if_pos hp]
      exact List.mem_append_left _ hi
    · rwa [if_neg hp]

theorem hasType_join
    {o : Operand}
    {type : ValueType}
    (htype : f.HasType o type) :
    (f.join pred b).HasType o type := by
  cases o with
  | const x => exact htype
  | bool c => exact htype
  | arg position => exact htype
  | result v =>
      obtain ⟨i, hi, hdest, rfl⟩ := htype
      obtain ⟨d, hd, hid⟩ := mem_instrs_iff.mp hi
      obtain ⟨c, hc, -, hin⟩ := exists_joined hwf h hd
      exact ⟨_, mem_instrs_iff.mpr ⟨c, hc, hin i hid⟩, hdest,
        InstrKind.type_mapIncoming _ _⟩

theorem computedBy_join
    {v : ValueId}
    {id : BlockId}
    (hcomputed : f.ComputedBy v id) :
    (f.join pred b).ComputedBy v (joinedId pred b id) := by
  obtain ⟨d, hd, hv, hdom⟩ := hcomputed
  obtain ⟨c, hc, hid, hin⟩ := exists_joined hwf h hd
  obtain ⟨i, hi, hdest⟩ := List.mem_map.mp hv
  refine ⟨c, hc, List.mem_map.mpr ⟨_, hin i hi, hdest⟩, ?_⟩
  rw [hid]
  exact dominates_join hwf.ids_nodup h hdom

/--
What is computed before a block is computed before the block that it was joined to, unless
that computes it.
-/
theorem computedBefore_join
    {v : ValueId}
    {id : BlockId}
    (hreach : f.Reachable id)
    (hcomputed : f.ComputedBefore v id) :
    (f.join pred b).ComputedBefore v (joinedId pred b id) ∨
      id = b.id ∧ ∃ p ∈ f.blocks, p.id = pred ∧ v ∈ p.results := by
  obtain ⟨d, hd, hne, hv, hdom⟩ := hcomputed
  by_cases hsame : joinedId pred b d.id = joinedId pred b id
  · right
    by_cases hid : id = b.id
    · refine ⟨hid, d, hd, ?_, hv⟩
      rw [hid] at hne
      rwa [joinedId, joinedId, if_neg hne, if_pos hid] at hsame
    · -- then the definition is in `b` and the block at hand is its predecessor, which `b`
      -- would dominate
      rw [joinedId, joinedId, if_neg hid] at hsame
      by_cases hdb : d.id = b.id
      · rw [if_pos hdb] at hsame
        rw [hdb, ← hsame] at hdom
        rw [← hsame] at hreach
        exact absurd hdom (h.not_dominates hwf.ids_nodup hreach)
      · rw [if_neg hdb] at hsame
        exact absurd hsame hne
  · left
    obtain ⟨c, hc, hid, hin⟩ := exists_joined hwf h hd
    obtain ⟨i, hi, hdest⟩ := List.mem_map.mp hv
    refine ⟨c, hc, by rwa [hid], List.mem_map.mpr ⟨_, hin i hi, hdest⟩, ?_⟩
    rw [hid]
    exact dominates_join hwf.ids_nodup h hdom

theorem results_nodup_join :
    (f.join pred b).results.Nodup := by
  have hdisjoint : ∀ c ∈ f.blocks, ∀ d ∈ f.blocks, ∀ v, v ∈ c.results →
      v ∈ d.results → c = d :=
    fun c hc d hd v hv hv' => block_eq_of_mem_results hwf.results_nodup hc hd hv hv'
  rw [results_nodup_iff (ids_nodup_join hwf.ids_nodup)]
  constructor
  · intro c hc
    obtain ⟨d, hd, hne, rfl⟩ := mem_join_iff.mp hc
    rw [joinedBlock_results]
    by_cases hp : d.id = pred
    · rw [if_pos hp, List.nodup_append]
      refine ⟨results_nodup_of_mem hwf.results_nodup hd,
        results_nodup_of_mem hwf.results_nodup h.mem, ?_⟩
      rintro v hv _ hv' rfl
      exact hne (congrArg Block.id (hdisjoint d hd b h.mem v hv hv'))
    · rw [if_neg hp]
      exact results_nodup_of_mem hwf.results_nodup hd
  · intro c' hc' d' hd' hne v hv hv'
    obtain ⟨c, hc, hcb, rfl⟩ := mem_join_iff.mp hc'
    obtain ⟨d, hd, hdb, rfl⟩ := mem_join_iff.mp hd'
    -- the block that defines a value tells where it was joined to
    have hhome : ∀ e ∈ f.blocks, e.id ≠ b.id → v ∈ (joinedBlock pred b e).results →
        ∃ home ∈ f.blocks, v ∈ home.results ∧ e.id = joinedId pred b home.id := by
      intro e he heb hve
      rw [joinedBlock_results] at hve
      by_cases hp : e.id = pred
      · rw [if_pos hp] at hve
        rcases List.mem_append.mp hve with hve | hve
        · exact ⟨e, he, hve, by rw [joinedId, if_neg heb]⟩
        · exact ⟨b, h.mem, hve, by rw [joinedId, if_pos rfl, hp]⟩
      · rw [if_neg hp] at hve
        exact ⟨e, he, hve, by rw [joinedId, if_neg heb]⟩
    obtain ⟨home, hhome₁, hv₁, hid₁⟩ := hhome c hc hcb hv
    obtain ⟨home', hhome₂, hv₂, hid₂⟩ := hhome d hd hdb hv'
    obtain rfl := hdisjoint _ hhome₁ _ hhome₂ v hv₁ hv₂
    exact hne (by rw [block_eq_of_id_eq hwf.ids_nodup hc hd (hid₁.trans hid₂.symm)])

/-- The predecessors of a block other than `b` in the joined function. -/
theorem mem_predecessors_join_iff
    {c : Block}
    (hcb : c.id ≠ b.id)
    {source : BlockId} :
    source ∈ (f.join pred b).predecessors c.id ↔
      ∃ old ∈ f.predecessors c.id, joinedId pred b old = source := by
  constructor
  · intro hsource
    obtain ⟨d', hd', rfl, hsucc⟩ := mem_predecessors_iff.mp hsource
    obtain ⟨d, hd, hdb, rfl⟩ := mem_join_iff.mp hd'
    rw [joinedBlock_successors] at hsucc
    rw [joinedBlock_id]
    by_cases hp : d.id = pred
    · rw [if_pos hp] at hsucc
      exact ⟨b.id,
        mem_predecessors_iff.mpr ⟨b, h.mem, rfl, hsucc⟩, by rw [joinedId, if_pos rfl, hp]⟩
    · rw [if_neg hp] at hsucc
      exact ⟨d.id,
        mem_predecessors_iff.mpr ⟨d, hd, rfl, hsucc⟩, by rw [joinedId, if_neg hdb]⟩
  · rintro ⟨old, hold, rfl⟩
    obtain ⟨d, hd, rfl, hsucc⟩ := mem_predecessors_iff.mp hold
    obtain ⟨p, hp, hpid, hterm⟩ := h.upper
    by_cases hdb : d.id = b.id
    · obtain rfl := block_eq_of_id_eq hwf.ids_nodup hd h.mem hdb
      refine mem_predecessors_iff.mpr
        ⟨_, mem_join_iff.mpr ⟨p, hp, by rw [hpid]; exact h.ne, rfl⟩, ?_, ?_⟩
      · rw [joinedBlock_id, joinedId, if_pos rfl, hpid]
      · rwa [joinedBlock_successors, if_pos hpid]
    · have hdp : d.id ≠ pred := by
        intro hdp
        obtain rfl := block_eq_of_id_eq hwf.ids_nodup hd hp (hdp.trans hpid.symm)
        rw [Block.successors, hterm] at hsucc
        exact hcb (List.mem_singleton.mp hsucc)
      refine mem_predecessors_iff.mpr ⟨_, mem_join_iff.mpr ⟨d, hd, hdb, rfl⟩, ?_, ?_⟩
      · rw [joinedBlock_id, joinedId, if_neg hdb]
      · rwa [joinedBlock_successors, if_neg hdp]

end WellFormed

/-- An instruction of a joined block comes from the block or from `b`. -/
theorem exists_of_mem_joinedBlock
    {d : Block}
    {i : Instr}
    (hi : i ∈ (joinedBlock pred b d).instrs) :
    ∃ j, joinedInstr pred b j = i ∧ (j ∈ d.instrs ∨ d.id = pred ∧ j ∈ b.instrs) := by
  rw [joinedBlock_instrs] at hi
  obtain ⟨j, hj, rfl⟩ := List.mem_map.mp hi
  refine ⟨j, rfl, ?_⟩
  by_cases hp : d.id = pred
  · rw [if_pos hp] at hj
    exact (List.mem_append.mp hj).imp_right fun hb => ⟨hp, hb⟩
  · rw [if_neg hp] at hj
    exact .inl hj

/--
A splitting of a joined block is a splitting of the block, or one of `b` with the whole
block before it.
-/
theorem split_of_joinedBlock
    {d : Block}
    {pre post : List Instr}
    {i : Instr}
    (hsplit : (joinedBlock pred b d).instrs = pre ++ i :: post) :
    ∃ j, joinedInstr pred b j = i ∧
      ((∃ pre' post', d.instrs = pre' ++ j :: post' ∧ pre.map (·.dest) =
        pre'.map (·.dest)) ∨
        d.id = pred ∧ ∃ pre' post', b.instrs = pre' ++ j :: post' ∧
          pre.map (·.dest) = d.results ++ pre'.map (·.dest)) := by
  have hdests : ∀ l : List Instr, (l.map (joinedInstr pred b)).map (·.dest) =
      l.map (·.dest) := by
    intro l
    simp [joinedInstr, Function.comp_def]
  rw [joinedBlock_instrs] at hsplit
  obtain ⟨left, right, hinstrs, rfl, hright⟩ := List.map_eq_append_iff.mp hsplit
  obtain ⟨j, rest, rfl, rfl, rfl⟩ := List.map_eq_cons_iff.mp hright
  refine ⟨j, rfl, ?_⟩
  rw [hdests]
  by_cases hp : d.id = pred
  · rw [if_pos hp] at hinstrs
    rcases List.append_eq_append_iff.mp hinstrs with ⟨extra, rfl, hb⟩ | ⟨extra, hd, hb⟩
    · exact .inr ⟨hp, extra, rest, hb, by rw [List.map_append, Block.results]⟩
    · cases extra with
      | nil =>
          rw [List.append_nil] at hd
          exact .inr ⟨hp, [], rest, by simpa using hb.symm, by rw [Block.results, hd]; simp⟩
      | cons first extra =>
          obtain ⟨rfl, -⟩ := List.cons.inj hb
          exact .inl ⟨left, extra, hd, rfl⟩
  · rw [if_neg hp] at hinstrs
    exact .inl ⟨left, rest, hinstrs, rfl⟩

/-! ## Well-formedness, rule by rule -/

/--
What holds of every block with `b` joined to it holds of the blocks of the joined function.
-/
theorem forall_mem_join
    {P : Block → Prop}
    (hall : ∀ d ∈ f.blocks, d.id ≠ b.id → P (joinedBlock pred b d)) :
    ∀ c ∈ (f.join pred b).blocks, P c := by
  intro c hc
  obtain ⟨d, hd, hdb, rfl⟩ := mem_join_iff.mp hc
  exact hall d hd hdb

/-- A joined block ends as one of the blocks that it is made of. -/
theorem exists_end_of_joinedBlock
    (h : f.Mergeable pred b)
    {d : Block}
    (hd : d ∈ f.blocks)
    (hdb : d.id ≠ b.id) :
    ∃ c ∈ f.blocks, joinedId pred b c.id = d.id ∧ (joinedBlock pred b d).term = c.term := by
  by_cases hp : d.id = pred
  · exact ⟨b, h.mem, by rw [joinedId, if_pos rfl, hp], by rw [joinedBlock_term, if_pos hp]⟩
  · exact ⟨d, hd, by rw [joinedId, if_neg hdb], by rw [joinedBlock_term, if_neg hp]⟩

theorem phis_first_joinedBlock
    {d : Block}
    (hd : ∀ i ∈ d.body, i.kind.isPhi = false)
    (hb : ∀ i ∈ b.instrs, i.kind.isPhi = false) :
    ∀ i ∈ (joinedBlock pred b d).body, i.kind.isPhi = false := by
  have hsame : ∀ i, (joinedInstr pred b i).kind.isPhi = i.kind.isPhi := by
    simp [joinedInstr]
  rw [Block.body_plain_iff, joinedBlock_instrs, List.pairwise_map]
  simp only [hsame]
  by_cases hp : d.id = pred
  · rw [if_pos hp, List.pairwise_append]
    refine ⟨Block.body_plain_iff.mp hd,
      List.pairwise_of_forall_mem_list fun i _ j hj hphi => ?_, fun i _ j hj hphi => ?_⟩
    all_goals
      rw [hb j hj] at hphi
      cases hphi
  · rw [if_neg hp]
    exact Block.body_plain_iff.mp hd

/-- A phi of a joined block is one of the block itself, since `b` has none. -/
theorem Joinable.exists_phi
    (h : f.Joinable pred b)
    {d : Block}
    {i : Instr}
    (hi : i ∈ (joinedBlock pred b d).instrs)
    {type : ValueType}
    {incoming : List (Operand × BlockId)}
    (hkind : i.kind = .phi type incoming) :
    ∃ j ∈ d.instrs, ∃ old, j.kind = .phi type old ∧
      incoming = old.map fun edge => (edge.1, joinedId pred b edge.2) := by
  obtain ⟨j, rfl, hj⟩ := exists_of_mem_joinedBlock hi
  obtain ⟨old, hold, hincoming⟩ := InstrKind.mapIncoming_eq_phi hkind
  rcases hj with hj | ⟨-, hj⟩
  · exact ⟨j, hj, old, hold, hincoming⟩
  · have hplain := h.plain j hj
    rw [hold] at hplain
    cases hplain

section Rules

variable (hwf : f.WellFormed) {d : Block} (hd : d ∈ f.blocks) (hdb : d.id ≠ b.id)

include hwf hd hdb

theorem targets_join
    (h : f.Mergeable pred b)
    {target : BlockId}
    (htarget : target ∈ (joinedBlock pred b d).successors) :
    target ∈ (f.join pred b).blockIds := by
  have hne : target ≠ b.id := by
    rintro rfl
    exact not_mem_successors_join h hd htarget
  obtain ⟨c, hc, -, hterm⟩ := exists_end_of_joinedBlock h hd hdb
  rw [Block.successors, hterm] at htarget
  rw [blockIds_join]
  exact List.mem_filter.mpr ⟨hwf.targets c hc target htarget, by simpa using hne⟩

theorem phi_edges_join
    (h : f.Joinable pred b)
    {i : Instr}
    (hi : i ∈ (joinedBlock pred b d).instrs)
    {type : ValueType}
    {incoming : List (Operand × BlockId)}
    (hkind : i.kind = .phi type incoming)
    (source : BlockId) :
    source ∈ incoming.map (·.2) ↔ source ∈ (f.join pred b).predecessors d.id := by
  obtain ⟨j, hj, old, hold, rfl⟩ := h.exists_phi hi hkind
  rw [mem_predecessors_join_iff hwf h.toMergeable hdb]
  simp only [← hwf.phi_edges d hd j hj type old hold, List.map_map, List.mem_map]
  constructor
  · rintro ⟨edge, he, rfl⟩
    exact ⟨edge.2, ⟨edge, he, rfl⟩, rfl⟩
  · rintro ⟨_, ⟨edge, he, rfl⟩, rfl⟩
    exact ⟨edge, he, rfl⟩

theorem uses_join
    (h : f.Mergeable pred b)
    (hreach : (f.join pred b).Reachable d.id)
    {pre post : List Instr}
    {i : Instr}
    (hsplit : (joinedBlock pred b d).instrs = pre ++ i :: post)
    (hplain : i.kind.isPhi = false)
    {v : ValueId}
    (hv : .result v ∈ i.kind.operands) :
    v ∈ pre.map (·.dest) ∨ (f.join pred b).ComputedBefore v d.id := by
  obtain ⟨j, rfl, hcases⟩ := split_of_joinedBlock hsplit
  rw [joinedInstr, InstrKind.operands_renameIncoming] at hv
  have hplain' : j.kind.isPhi = false := by simpa [joinedInstr] using hplain
  rcases hcases with ⟨pre', post', hsplit', hpre⟩ | ⟨hp, pre', post', hsplit', hpre⟩
  · have hreach' := reachable_of_join hwf.ids_nodup h hreach
    rw [hpre]
    rcases hwf.uses d hd hreach' pre' j post' hsplit' hplain' v hv with hin | hbefore
    · exact .inl hin
    · rcases computedBefore_join hwf h hreach' hbefore with hbefore | ⟨hid, -⟩
      · rw [joinedId, if_neg hdb] at hbefore
        exact .inr hbefore
      · exact absurd hid hdb
  · -- an instruction of `b` has those of the whole predecessor before it
    have hreach' : f.Reachable b.id :=
      (h.reachable_iff hwf.ids_nodup).mpr (hp ▸ reachable_of_join hwf.ids_nodup h hreach)
    rw [hpre]
    rcases hwf.uses b h.mem hreach' pre' j post' hsplit' hplain' v hv with hin | hbefore
    · exact .inl (List.mem_append_right _ hin)
    · rcases computedBefore_join hwf h hreach' hbefore with hbefore
        | ⟨-, p, hpmem, hpid, hvp⟩
      · rw [joinedId, if_pos rfl] at hbefore
        rw [hp]
        exact .inr hbefore
      · obtain rfl := block_eq_of_id_eq hwf.ids_nodup hpmem hd (hpid.trans hp.symm)
        exact .inl (List.mem_append_left _ hvp)

theorem ends_join
    (h : f.Mergeable pred b)
    (hreach : (f.join pred b).Reachable d.id)
    {v : ValueId}
    (hv : .result v ∈ (joinedBlock pred b d).termOperands) :
    (f.join pred b).ComputedBy v d.id := by
  obtain ⟨c, hc, hid, hterm⟩ := exists_end_of_joinedBlock h hd hdb
  rw [Block.termOperands, hterm] at hv
  rw [← hid] at hreach ⊢
  exact computedBy_join hwf h
    (hwf.ends c hc (reachable_of_joinedId hwf.ids_nodup h hreach) v hv)

omit hdb in
theorem edges_join
    (h : f.Joinable pred b)
    {i : Instr}
    (hi : i ∈ (joinedBlock pred b d).instrs)
    {type : ValueType}
    {incoming : List (Operand × BlockId)}
    (hkind : i.kind = .phi type incoming)
    {v : ValueId}
    {source : BlockId}
    (hin : (.result v, source) ∈ incoming)
    (hreach : (f.join pred b).Reachable source) :
    (f.join pred b).ComputedBy v source := by
  obtain ⟨j, hj, old, hold, rfl⟩ := h.exists_phi hi hkind
  obtain ⟨⟨o, oldSource⟩, he, hedge⟩ := List.mem_map.mp hin
  obtain ⟨rfl, rfl⟩ := Prod.mk.inj hedge
  have hreach' := reachable_of_joinedId hwf.ids_nodup h.toMergeable hreach
  exact computedBy_join hwf h.toMergeable
    (hwf.edges d hd j hj type old hold v oldSource he hreach')

end Rules

/-- Joining a block without phis to its only predecessor keeps a function well formed. -/
theorem WellFormed.join
    (hwf : f.WellFormed)
    (h : f.Joinable pred b) :
    (f.join pred b).WellFormed where
  ids_nodup := ids_nodup_join hwf.ids_nodup
  results_nodup := results_nodup_join hwf h.toMergeable
  entry_free := by
    intro entry hentry
    rw [entry?_join h.toMergeable] at hentry
    refine forall_mem_join fun d hd hdb => ?_
    obtain ⟨c, hc, -, hterm⟩ := exists_end_of_joinedBlock h.toMergeable hd hdb
    rw [Block.successors, hterm]
    exact hwf.entry_free entry hentry c hc
  terminated := by
    refine forall_mem_join fun d hd hdb => ?_
    obtain ⟨c, hc, -, hterm⟩ := exists_end_of_joinedBlock h.toMergeable hd hdb
    rw [hterm]
    exact hwf.terminated c hc
  targets := forall_mem_join fun _ hd hdb _ htarget =>
    targets_join hwf hd hdb h.toMergeable htarget
  typed := by
    refine forall_mem_join fun d hd _ i hi u hu => ?_
    obtain ⟨j, rfl, hj⟩ := exists_of_mem_joinedBlock hi
    rw [joinedInstr, InstrKind.uses_renameIncoming] at hu
    rcases hj with hj | ⟨-, hj⟩
    · exact hasType_join hwf h.toMergeable (hwf.typed d hd j hj u hu)
    · exact hasType_join hwf h.toMergeable (hwf.typed b h.mem j hj u hu)
  term_typed := by
    refine forall_mem_join fun d hd hdb u hu => ?_
    obtain ⟨c, hc, -, hterm⟩ := exists_end_of_joinedBlock h.toMergeable hd hdb
    rw [Block.termUses, hterm] at hu
    exact hasType_join hwf h.toMergeable (hwf.term_typed c hc u hu)
  phis_first := forall_mem_join fun d hd _ =>
    phis_first_joinedBlock (hwf.phis_first d hd) h.plain
  phi_edges := forall_mem_join fun _ hd hdb _ hi _ _ hkind source => by
    rw [joinedBlock_id]
    exact phi_edges_join hwf hd hdb h hi hkind source
  uses := forall_mem_join fun _ hd hdb hreach _ _ _ hsplit hplain _ hv => by
    rw [joinedBlock_id] at hreach ⊢
    exact uses_join hwf hd hdb h.toMergeable hreach hsplit hplain hv
  ends := forall_mem_join fun _ hd hdb hreach _ hv => by
    rw [joinedBlock_id] at hreach ⊢
    exact ends_join hwf hd hdb h.toMergeable hreach hv
  edges := forall_mem_join fun _ hd _ _ hi _ _ hkind _ _ hin hreach =>
    edges_join hwf hd h hi hkind hin hreach

theorem allReachable_join
    (hids : f.blockIds.Nodup)
    (h : f.Mergeable pred b)
    (hall : ∀ c ∈ f.blocks, f.Reachable c.id) :
    ∀ c ∈ (f.join pred b).blocks, (f.join pred b).Reachable c.id := by
  intro c hc
  obtain ⟨d, hd, hdb, rfl⟩ := mem_join_iff.mp hc
  rw [joinedBlock_id]
  exact reachable_join hids h (hall d hd) hdb

theorem CallsMatch.join
    {m : Module}
    (hcalls : f.CallsMatch m)
    (h : f.Mergeable pred b) :
    (f.join pred b).CallsMatch m := by
  intro c hc i hi callee name args hkind
  obtain ⟨d, hd, -, rfl⟩ := mem_join_iff.mp hc
  obtain ⟨j, rfl, hj⟩ := exists_of_mem_joinedBlock hi
  have hkind' : j.kind = .call callee name args := InstrKind.mapIncoming_eq_call hkind
  rcases hj with hj | ⟨-, hj⟩
  · exact hcalls d hd j hj callee name args hkind'
  · exact hcalls b h.mem j hj callee name args hkind'

end Function

end ScalarSsa
