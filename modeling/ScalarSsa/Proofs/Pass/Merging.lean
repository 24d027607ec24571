import ScalarSsa.Proofs.Pass.Folding
import ScalarSsa.Proofs.Pass.Branches
import ScalarSsa.Proofs.Pass.Joining

/-!
# Merging blocks keeps functions well formed

**Input.** A well-formed function in which every block is reachable.

**Results.** `merge_eq_join`: a merge puts the operands that come in from the only
predecessor in the places of the block's phis, and then joins the block, which has no
phi left, to the predecessor.  Both parts keep a function well formed, and so does the
merge (`wellFormed_mergeOnce?`).  Since every block is reachable, the operands that come
in are never results of the block itself, which is what makes the order of the
replacements irrelevant.
-/

namespace ScalarSsa

/-! ## Replacements one after the other -/

namespace Operand

/-- The operand after several replacements, one after the other. -/
def replaceAll (replacements : List (ValueId × Operand)) (o : Operand) : Operand :=
  replacements.foldl (fun o (id, target) => replace (.result id) target o) o

theorem replaceAll_of_not_mem
    {replacements : List (ValueId × Operand)}
    {o : Operand}
    (h : ∀ w, o = .result w → replacements.lookup w = none) :
    replaceAll replacements o = o := by
  induction replacements with
  | nil => rfl
  | cons first rest ih =>
      obtain ⟨v, target⟩ := first
      have hne : o ≠ .result v := by
        intro ho
        have hnone := h v ho
        rw [lookup_cons_if, if_pos rfl] at hnone
        cases hnone
      have hrest : ∀ w, o = .result w → rest.lookup w = none := by
        intro w hw
        have hnone := h w hw
        rw [lookup_cons_if] at hnone
        by_cases hwv : w = v
        · exact absurd (hwv ▸ hw) hne
        · rwa [if_neg hwv] at hnone
      have hstep : replaceAll ((v, target) :: rest) o =
          replaceAll rest (replace (.result v) target o) := rfl
      rw [hstep, replace_of_ne hne, ih hrest]

/-- If no target is itself replaced, the replacements can be made all at once. -/
theorem replaceAll_eq_subst
    {replacements : List (ValueId × Operand)}
    (h : ∀ entry ∈ replacements, ∀ w, entry.2 = .result w → replacements.lookup w = none)
    (o : Operand) :
    replaceAll replacements o = o.subst replacements := by
  induction replacements generalizing o with
  | nil => cases o <;> rfl
  | cons first rest ih =>
      obtain ⟨v, target⟩ := first
      have hstep : replaceAll ((v, target) :: rest) o =
          replaceAll rest (replace (.result v) target o) := rfl
      have hstays : ∀ entry ∈ (v, target) :: rest, ∀ w, entry.2 = .result w →
          rest.lookup w = none := by
        intro entry he w hw
        have hnone := h entry he w hw
        rw [lookup_cons_if] at hnone
        by_cases hwv : w = v
        · rw [if_pos hwv] at hnone
          cases hnone
        · rwa [if_neg hwv] at hnone
      rw [hstep]
      by_cases ho : o = .result v
      · subst ho
        rw [replace_result_self, replaceAll_of_not_mem (hstays _ List.mem_cons_self)]
        simp [subst]
      · rw [replace_of_ne ho, ih fun entry he w hw =>
          hstays entry (List.mem_cons_of_mem _ he) w hw]
        cases o with
        | result w =>
            have hwv : w ≠ v := by
              rintro rfl
              exact ho rfl
            simp [subst, lookup_cons_if, hwv]
        | _ => rfl

end Operand

namespace Block

theorem mapOperands_mapOperands
    (first second : Operand → Operand)
    (b : Block) :
    (b.mapOperands first).mapOperands second = b.mapOperands fun o => second (first o) := by
  have hkind : ∀ kind : InstrKind,
      (kind.mapOperands first).mapOperands second = kind.mapOperands fun o =>
        second (first o) := by
    intro kind
    cases kind <;> simp [InstrKind.mapOperands, Function.comp_def]
  have hterm : ∀ term : Terminator,
      (term.mapOperands first).mapOperands second = term.mapOperands fun o =>
        second (first o) := by
    intro term
    cases term <;> rfl
  simp [mapOperands, hkind, hterm, Function.comp_def]

theorem mapOperands_self
    (b : Block) :
    (b.mapOperands fun o => o) = b := by
  have hkind : ∀ kind : InstrKind, (kind.mapOperands fun o => o) = kind := by
    intro kind
    cases kind <;> simp [InstrKind.mapOperands]
  have hterm : b.term.map (Terminator.mapOperands fun o => o) = b.term := by
    cases b.term with
    | none => rfl
    | some term => cases term <;> rfl
  simp [mapOperands, hkind, hterm]

/-- A block without edges from `source` does not change when they are renamed. -/
theorem renameIncoming_of_absent
    {source target : BlockId}
    {b : Block}
    (h : ∀ i ∈ b.instrs, ∀ type incoming, i.kind = .phi type incoming →
      source ∉ incoming.map (·.2)) :
    b.renameIncoming source target = b := by
  have hinstrs : (b.instrs.map fun i => { i with
      kind := i.kind.mapIncoming fun incoming =>
        incoming.map fun edge => (edge.1, if edge.2 = source then target else edge.2) }) =
          b.instrs := by
    conv_rhs => rw [← List.map_id b.instrs]
    refine List.map_congr_left fun i hi => ?_
    cases hkind : i.kind with
    | phi type incoming =>
        have hsame :
            (incoming.map fun edge =>
              (edge.1, if edge.2 = source then target else edge.2)) = incoming := by
          conv_rhs => rw [← List.map_id incoming]
          refine List.map_congr_left fun edge he => ?_
          have hne : edge.2 ≠ source := by
            rintro rfl
            exact h i hi type incoming hkind (List.mem_map_of_mem he)
          rw [if_neg hne]
          rfl
        simp only [InstrKind.mapIncoming, hsame, ← hkind]
        rfl
    | _ =>
        simp only [InstrKind.mapIncoming, ← hkind]
        rfl
  simp [renameIncoming, mapIncoming, hinstrs]

theorem renameIncoming_renameIncoming
    {source target : BlockId}
    (hne : target ≠ source)
    (b : Block) :
    (b.renameIncoming source target).renameIncoming source target =
      b.renameIncoming source target := by
  refine renameIncoming_of_absent ?_
  intro i hi type incoming hkind
  obtain ⟨j, hj, rfl⟩ := List.mem_map.mp hi
  obtain ⟨old, hold, rfl⟩ := InstrKind.mapIncoming_eq_phi hkind
  intro hmem
  simp only [List.map_map, List.mem_map, Function.comp_apply] at hmem
  obtain ⟨edge, he, hsource⟩ := hmem
  by_cases hs : edge.2 = source
  · rw [if_pos hs] at hsource
    exact hne hsource
  · rw [if_neg hs] at hsource
    exact hs hsource

end Block

namespace Function

variable {f : Function}

theorem foldl_replaceUses
    (f : Function)
    (replacements : List (ValueId × Operand)) :
    replacements.foldl (fun g (id, o) => g.replaceUses (.result id) o) f =
      f.mapBlocks (Block.mapOperands (Operand.replaceAll replacements)) := by
  induction replacements generalizing f with
  | nil =>
      have hself : ∀ b : Block, b.mapOperands (Operand.replaceAll []) = b :=
        Block.mapOperands_self
      simp only [List.foldl_nil, mapBlocks, funext hself, List.map_id']
  | cons first rest ih =>
      obtain ⟨v, target⟩ := first
      rw [List.foldl_cons, ih]
      simp only [replaceUses, mapBlocks, List.map_map]
      congr 1
      refine List.map_congr_left fun b _ => ?_
      exact Block.mapOperands_mapOperands _ _ b

theorem foldl_retargetEdges
    (f : Function)
    {source target : BlockId}
    (hne : target ≠ source)
    (blocks : List BlockId) :
    blocks.foldl (fun g id => g.retargetEdges id source target) f =
      f.mapBlocks fun b => if b.id ∈ blocks then b.renameIncoming source target else b := by
  induction blocks generalizing f with
  | nil => simp [mapBlocks]
  | cons id blocks ih =>
      rw [List.foldl_cons, ih]
      simp only [retargetEdges, mapBlock, mapBlocks, List.map_map]
      congr 1
      refine List.map_congr_left fun b _ => ?_
      have hrename : ∀ c : Block, (c.mapIncoming fun incoming =>
          incoming.map fun edge => (edge.1, if edge.2 = source then target else edge.2)) =
          c.renameIncoming source target := fun _ => rfl
      simp only [Function.comp_apply, hrename]
      by_cases hid : b.id = id
      · have hid' : (b.renameIncoming source target).id = b.id := rfl
        have hmem : b.id ∈ id :: blocks := by simp [hid]
        rw [if_pos hid, hid', if_pos hmem]
        by_cases hin : b.id ∈ blocks
        · rw [if_pos hin, Block.renameIncoming_renameIncoming hne]
        · rw [if_neg hin]
      · rw [if_neg hid]
        simp [hid]

end Function

/-! ## The merge -/

namespace Pass

open ScalarSsa.Function

variable {f : Function} {pred : BlockId} {b : Block}

theorem mergeable_of_mergeTarget?
    (hb : b ∈ f.blocks)
    (h : mergeTarget? f b = some pred) :
    f.Mergeable pred b := by
  unfold mergeTarget? at h
  split at h
  · cases h
  next hentry =>
    split at h
    next first hpreds =>
      by_cases hself : first = b.id
      · rw [if_pos hself] at h
        cases h
      rw [if_neg hself] at h
      by_cases hjump : (f.block? first).bind (·.term) = some (.jump b.id)
      · rw [if_pos hjump] at h
        cases h
        obtain ⟨p, hp, hterm⟩ := Option.bind_eq_some_iff.mp hjump
        obtain ⟨hmem, hid⟩ := mem_of_block?_eq_some hp
        refine ⟨hb, ⟨p, hmem, hid, hterm⟩, ?_, hself, hentry⟩
        intro c hc hsucc
        have hpred : c.id ∈ f.predecessors b.id :=
          mem_predecessors_iff.mpr ⟨c, hc, rfl, hsucc⟩
        rw [hpreds] at hpred
        exact List.mem_singleton.mp hpred
      · rw [if_neg hjump] at h
        cases h
    · cases h

/-- The replacements of a block are the first operands of its phis. -/
theorem mem_phiReplacements_iff
    {v : ValueId}
    {o : Operand} :
    (v, o) ∈ phiReplacements b ↔
      ∃ i ∈ b.instrs, i.dest = v ∧ ∃ type source rest,
        i.kind = .phi type ((o, source) :: rest) := by
  unfold phiReplacements
  rw [List.mem_filterMap]
  constructor
  · rintro ⟨i, hi, h⟩
    split at h
    · next type first source rest hkind =>
        cases h
        exact ⟨i, hi, rfl, type, source, rest, hkind⟩
    · cases h
  · rintro ⟨i, hi, rfl, type, source, rest, hkind⟩
    exact ⟨i, hi, by rw [hkind]⟩

theorem reachable_pred
    (h : f.Mergeable pred b)
    (hall : f.AllReachable) :
    f.Reachable pred := by
  obtain ⟨p, hp, rfl, -⟩ := h.upper
  exact hall p hp

section Merge

variable (hwf : f.WellFormed) (h : f.Mergeable pred b)

include hwf h

/-- The edges of a block that can be merged come from its predecessor. -/
theorem source_eq_pred
    {i : Instr}
    (hi : i ∈ b.instrs)
    {type : ValueType}
    {incoming : List (Operand × BlockId)}
    (hkind : i.kind = .phi type incoming)
    {edge : Operand × BlockId}
    (he : edge ∈ incoming) :
    edge.2 = pred := by
  have hpred :=
    (hwf.phi_edges b h.mem i hi type incoming hkind edge.2).mp (List.mem_map_of_mem he)
  obtain ⟨p, hp, hid, hsucc⟩ := mem_predecessors_iff.mp hpred
  rw [← hid]
  exact h.only p hp hsucc

theorem incoming_ne_nil
    {i : Instr}
    (hi : i ∈ b.instrs)
    {type : ValueType}
    {incoming : List (Operand × BlockId)}
    (hkind : i.kind = .phi type incoming) :
    incoming ≠ [] := by
  obtain ⟨p, hp, hid, hterm⟩ := h.upper
  have hmem : pred ∈ incoming.map (·.2) := by
    refine (hwf.phi_edges b h.mem i hi type incoming hkind pred).mpr
      (mem_predecessors_iff.mpr ⟨p, hp, hid, ?_⟩)
    simp [Block.successors, hterm, Terminator.successors]
  rintro rfl
  simp at hmem

/-- The replaced results of a block are those of its phis. -/
theorem lookup_phiReplacements_isNone_iff
    {i : Instr}
    (hi : i ∈ b.instrs) :
    ((phiReplacements b).lookup i.dest).isNone = !i.kind.isPhi := by
  cases hkind : i.kind with
  | phi type incoming =>
      obtain ⟨⟨o, source⟩, rest, rfl⟩ :=
        List.exists_cons_of_ne_nil (incoming_ne_nil hwf h hi hkind)
      have hmem : (i.dest, o) ∈ phiReplacements b :=
        mem_phiReplacements_iff.mpr ⟨i, hi, rfl, type, source, rest, hkind⟩
      cases hlookup : (phiReplacements b).lookup i.dest with
      | none =>
          have hne := List.lookup_eq_none_iff.mp hlookup _ hmem
          simp at hne
      | some _ => rfl
  | _ =>
      cases hlookup : (phiReplacements b).lookup i.dest with
      | none => rfl
      | some o =>
          obtain ⟨j, hj, hdest, type, source, rest, hkind'⟩ :=
            mem_phiReplacements_iff.mp (mem_of_lookup_eq_some hlookup)
          obtain rfl :=
            List.inj_on_of_nodup_map
              (results_nodup_of_mem hwf.results_nodup h.mem) hj hi hdest
          rw [hkind] at hkind'
          cases hkind'

variable (hall : f.AllReachable)

include hall

/-- What comes into a block that can be merged may take the place of its phi. -/
theorem replaces_of_phiReplacements
    {v : ValueId}
    {o : Operand}
    (hmem : (v, o) ∈ phiReplacements b) :
    f.Replaces (phiReplacements b) v o := by
  obtain ⟨i, hi, rfl, type, source, rest, hkind⟩ := mem_phiReplacements_iff.mp hmem
  have hedge : (o, source) ∈ (o, source) :: rest := List.mem_cons_self
  have hsource : source = pred := source_eq_pred hwf h hi hkind hedge
  have hreach : f.Reachable source := hsource ▸ reachable_pred h hall
  have htype : f.HasType o type := by
    refine hwf.typed b h.mem i hi (o, type) ?_
    rw [hkind]
    exact List.mem_cons_self
  -- the block that computes the operand dominates the predecessor, so it is
  -- not the block itself
  have hhome : ∀ w, o = .result w → ∃ d ∈ f.blocks, w ∈ d.results ∧ d.id ≠ b.id ∧
      f.Dominates d.id b.id := by
    rintro w rfl
    obtain ⟨d, hd, hw, hdom⟩ := hwf.edges b h.mem i hi type _ hkind w source hedge hreach
    rw [hsource] at hdom
    refine ⟨d, hd, hw, ?_, hdom.trans h.dominates_block⟩
    intro hid
    rw [hid] at hdom
    exact h.not_dominates hwf.ids_nodup (reachable_pred h hall) hdom
  constructor
  · intro j hj hdest
    have hi' : i ∈ f.instrs := mem_instrs_iff.mpr ⟨b, h.mem, hi⟩
    obtain rfl := List.inj_on_of_nodup_map hwf.results_nodup hj hi' hdest
    rw [hkind]
    exact htype
  · intro w hw
    obtain ⟨d, hd, hwd, hne, -⟩ := hhome w hw
    cases hlookup : (phiReplacements b).lookup w with
    | none => rfl
    | some o' =>
        obtain ⟨j, hj, rfl, -⟩ := mem_phiReplacements_iff.mp (mem_of_lookup_eq_some hlookup)
        have hwb : j.dest ∈ b.results := List.mem_map_of_mem hj
        exact absurd (congrArg Block.id
          (block_eq_of_mem_results hwf.results_nodup hd h.mem hwd hwb)) hne
  · intro w hw
    obtain ⟨d, hd, hwd, hne, hdom⟩ := hhome w hw
    exact ⟨d, hd, b, h.mem, hwd, List.mem_map_of_mem hi, fun _ => ⟨hne, hdom⟩⟩

theorem wellFormed_substitute_phis :
    (f.substitute (phiReplacements b)).WellFormed :=
  hwf.substitute fun _ _ hlookup =>
    replaces_of_phiReplacements hwf h hall (mem_of_lookup_eq_some hlookup)

end Merge

/-- A block with the results of `b`'s phis replaced by what comes in. -/
def phisReplaced (b c : Block) : Block :=
  c.rewrite (fun i => ((phiReplacements b).lookup i.dest).isNone)
    (Operand.subst (phiReplacements b))

/-- Replacing the phis leaves a block that can be joined to its predecessor. -/
theorem joinable_phisReplaced
    (hwf : f.WellFormed)
    (h : f.Mergeable pred b) :
    (f.substitute (phiReplacements b)).Joinable pred (phisReplaced b b) := by
  have hmem : ∀ c ∈ f.blocks,
      phisReplaced b c ∈ (f.substitute (phiReplacements b)).blocks := fun c hc =>
    List.mem_map_of_mem hc
  refine ⟨⟨hmem b h.mem, ?_, ?_, h.ne, ?_⟩, ?_⟩
  · obtain ⟨p, hp, hid, hterm⟩ := h.upper
    refine ⟨_, hmem p hp, hid, ?_⟩
    simp [phisReplaced, Block.rewrite, Block.mapOperands, hterm, Terminator.mapOperands]
  · intro c hc hsucc
    obtain ⟨d, hd, rfl⟩ := mem_mapBlocks_iff.mp hc
    rw [Block.successors_rewrite] at hsucc
    exact h.only d hd hsucc
  · rw [substitute, entry?_rewrite]
    exact h.entry
  · intro i hi
    obtain ⟨j, hj, rfl⟩ := List.mem_map.mp hi
    obtain ⟨hjb, hkeep⟩ := List.mem_filter.mp hj
    rw [lookup_phiReplacements_isNone_iff hwf h hjb] at hkeep
    simpa using hkeep

/-- Only the block itself loses instructions when its phis are replaced. -/
theorem phisReplaced_of_ne
    (hwf : f.WellFormed)
    (hb : b ∈ f.blocks)
    {c : Block}
    (hc : c ∈ f.blocks)
    (hne : c.id ≠ b.id) :
    phisReplaced b c = c.mapOperands (Operand.subst (phiReplacements b)) := by
  have hkeep : ∀ i ∈ c.instrs, ((phiReplacements b).lookup i.dest).isNone = true := by
    intro i hi
    cases hlookup : (phiReplacements b).lookup i.dest with
    | none => rfl
    | some o =>
        obtain ⟨j, hj, hdest, -⟩ :=
          mem_phiReplacements_iff.mp (mem_of_lookup_eq_some hlookup)
        have hin : i.dest ∈ b.results := hdest ▸ List.mem_map_of_mem hj
        exact absurd (congrArg Block.id (block_eq_of_mem_results hwf.results_nodup hc hb
          (List.mem_map_of_mem hi) hin)) hne
  rw [phisReplaced, Block.rewrite, List.filter_eq_self.mpr hkeep]

/--
Putting the block's other instructions behind its predecessor's and then replacing operands.
-/
theorem mapOperands_moved
    (hwf : f.WellFormed)
    (h : f.Mergeable pred b)
    {c : Block}
    (hc : c ∈ f.blocks)
    (hne : c.id ≠ b.id) :
    Block.mapOperands (Operand.subst (phiReplacements b))
        (if c.id = pred then
          { c with
            instrs := c.instrs ++ b.instrs.filter fun i => !i.kind.isPhi
            term := b.term }
        else c) =
      if c.id = pred then (phisReplaced b c).join (phisReplaced b b)
      else phisReplaced b c := by
  have hmoved : (b.instrs.filter fun i => !i.kind.isPhi) =
      b.instrs.filter fun i => ((phiReplacements b).lookup i.dest).isNone :=
    List.filter_congr fun i hi => (lookup_phiReplacements_isNone_iff hwf h hi).symm
  rw [phisReplaced_of_ne hwf h.mem hc hne]
  by_cases hp : c.id = pred
  · rw [if_pos hp, if_pos hp, hmoved]
    simp [Block.join, Block.mapOperands, phisReplaced, Block.rewrite]
  · rw [if_neg hp, if_neg hp]

/-- A block that the merged one does not lead to has no edge from it. -/
theorem joinedBlock_of_not_mem
    (hwf : f.WellFormed)
    (h : f.Mergeable pred b)
    (hall : f.AllReachable)
    {c : Block}
    (hc : c ∈ f.blocks)
    (hsucc : c.id ∉ b.successors) :
    joinedBlock pred (phisReplaced b b) (phisReplaced b c) =
      if c.id = pred then (phisReplaced b c).join (phisReplaced b b)
      else phisReplaced b c := by
  refine Block.renameIncoming_of_absent ?_
  intro i hi type incoming hkind hin
  have hic : i ∈ (phisReplaced b c).instrs := by
    by_cases hp : c.id = pred
    · rw [phisReplaced, Block.rewrite_id, if_pos hp] at hi
      rcases List.mem_append.mp hi with hi | hi
      · exact hi
      · have hno := (joinable_phisReplaced hwf h).plain i hi
        rw [hkind] at hno
        cases hno
    · rwa [phisReplaced, Block.rewrite_id, if_neg hp] at hi
  have hpred :=
    ((wellFormed_substitute_phis hwf h hall).phi_edges _ (List.mem_map_of_mem hc) i hic
      type incoming hkind
    b.id).mp hin
  rw [substitute, predecessors_rewrite] at hpred
  obtain ⟨d, hd, hid, hdsucc⟩ := mem_predecessors_iff.mp hpred
  rw [block_eq_of_id_eq hwf.ids_nodup hd h.mem hid] at hdsucc
  exact hsucc hdsucc

/-- A merge replaces the phis of the block and joins it to its predecessor. -/
theorem merge_eq_join
    (hwf : f.WellFormed)
    (h : f.Mergeable pred b)
    (hall : f.AllReachable) :
    merge f pred b = (f.substitute (phiReplacements b)).join pred (phisReplaced b b) := by
  have hstays : ∀ entry ∈ phiReplacements b, ∀ w, entry.2 = .result w →
      (phiReplacements b).lookup w = none :=
    fun entry he => (replaces_of_phiReplacements hwf h hall he).stays
  have hsubst : Operand.replaceAll (phiReplacements b) =
      Operand.subst (phiReplacements b) :=
    funext (Operand.replaceAll_eq_subst hstays)
  simp only [merge, foldl_replaceUses, foldl_retargetEdges _ h.ne, hsubst]
  simp only [eraseBlock, mapBlock, mapBlocks, join, substitute, rewrite, List.map_map,
    List.filter_map]
  congr 1
  refine List.map_congr_left fun c hc => ?_
  obtain ⟨hcmem, hne⟩ := List.mem_filter.mp hc
  have hne' : c.id ≠ b.id := by simpa using hne
  have hid :
      (if c.id = pred then
        (phisReplaced b c).join (phisReplaced b b) else phisReplaced b c).id = c.id := by
    by_cases hp : c.id = pred
    · rw [if_pos hp]
      rfl
    · rw [if_neg hp]
      rfl
  simp only [Function.comp_apply, mapOperands_moved hwf h hcmem hne', hid]
  by_cases hsucc : c.id ∈ b.successors
  · rw [if_pos hsucc]
    rfl
  · rw [if_neg hsucc]
    exact (joinedBlock_of_not_mem hwf h hall hcmem hsucc).symm

/-- A merge, if there is one. -/
theorem mergeOnce?_eq_some
    {g : Function}
    (hmerge : mergeOnce? f = some g) :
    ∃ pred b, f.Mergeable pred b ∧ g = merge f pred b := by
  unfold mergeOnce? at hmerge
  obtain ⟨⟨pred, b⟩, hfound, rfl⟩ := Option.map_eq_some_iff.mp hmerge
  obtain ⟨c, hc, htarget⟩ := List.exists_of_findSome?_eq_some hfound
  obtain ⟨pred', htarget, hpair⟩ := Option.map_eq_some_iff.mp htarget
  cases hpair
  exact ⟨pred, b, mergeable_of_mergeTarget? hc htarget, rfl⟩

theorem allReachable_rewrite
    {keep : Instr → Bool}
    {change : Operand → Operand}
    (hall : f.AllReachable) :
    (f.rewrite keep change).AllReachable := by
  intro c hc
  obtain ⟨d, hd, rfl⟩ := mem_mapBlocks_iff.mp hc
  exact (hall d hd).mono (by simp [entry?_rewrite]) (by simp [successors_rewrite])

/-- A merge keeps a function well formed and every block reachable. -/
theorem wellFormed_mergeOnce?
    {g : Function}
    (hwf : f.WellFormed)
    (hall : f.AllReachable)
    (hmerge : mergeOnce? f = some g) :
    g.WellFormed ∧ g.AllReachable := by
  obtain ⟨pred, b, h, rfl⟩ := mergeOnce?_eq_some hmerge
  have hwf' := wellFormed_substitute_phis hwf h hall
  have hjoin := joinable_phisReplaced hwf h
  rw [merge_eq_join hwf h hall]
  exact ⟨hwf'.join hjoin,
    allReachable_join hwf'.ids_nodup hjoin.toMergeable (allReachable_rewrite hall)⟩

end Pass

end ScalarSsa
