import ScalarSsa.Proofs.Pass.Thinning

/-!
# Settled branches and unreachable blocks

**Results.** `settle_cases` and `pruneAll_eq_without` give the closed forms of the first two
steps that simplify control flow: a settled branch loses one edge, and removing the
unreachable blocks one after the other is removing them all at once.  In both cases the
parts that are kept fit together, so well-formedness is kept (`wellFormed_settleAll`,
`wellFormed_pruneAll`).  After the second step every block is reachable
(`allReachable_pruneAll`).
-/

namespace ScalarSsa

namespace Function

/-- Every block can be reached. -/
def AllReachable (f : Function) : Prop :=
  ∀ b ∈ f.blocks, f.Reachable b.id

end Function

namespace Pass

open ScalarSsa.Function

variable {f : Function}

/-! ## Settled branches -/

/-- The branch of a settled block. -/
theorem settled?_eq_some
    {b : Block}
    {target dropped : BlockId}
    (h : settled? b = some (target, dropped)) :
    ∃ cond thenBlock elseBlock, b.term = some (.branch cond thenBlock elseBlock) ∧
      ((∃ taken, cond = .bool taken ∧ target = (if taken then thenBlock else elseBlock) ∧
          dropped = if taken then elseBlock else thenBlock) ∨
        (thenBlock = target ∧ elseBlock = target ∧ dropped = target)) := by
  have hequal : ∀ thenBlock elseBlock : BlockId,
      (if thenBlock = elseBlock then some (thenBlock, thenBlock) else none) =
        some (target, dropped) →
      thenBlock = target ∧ elseBlock = target ∧ dropped = target := by
    intro thenBlock elseBlock h
    by_cases he : thenBlock = elseBlock
    · rw [if_pos he] at h
      cases h
      exact ⟨rfl, he.symm, rfl⟩
    · rw [if_neg he] at h
      cases h
  unfold settled? at h
  cases hterm : b.term with
  | none => simp [hterm] at h
  | some term =>
      rw [hterm] at h
      cases term with
      | jump target => cases h
      | ret value => cases h
      | branch cond thenBlock elseBlock =>
          refine ⟨cond, thenBlock, elseBlock, rfl, ?_⟩
          cases cond with
          | bool taken =>
              left
              cases taken <;> cases h <;> exact ⟨_, rfl, rfl, rfl⟩
          | const x => exact .inr (hequal _ _ h)
          | arg position => exact .inr (hequal _ _ h)
          | result v => exact .inr (hequal _ _ h)

theorem mem_successors_of_settled?
    {b : Block}
    {target dropped : BlockId}
    (h : settled? b = some (target, dropped))
    (id : BlockId) :
    id ∈ b.successors ↔ id = target ∨ id = dropped := by
  obtain ⟨cond, thenBlock, elseBlock, hterm, hcases⟩ := settled?_eq_some h
  have hsucc : id ∈ b.successors ↔ id = thenBlock ∨ id = elseBlock := by
    by_cases he : thenBlock = elseBlock
      <;> simp [Block.successors, hterm, Terminator.successors, he]
  rw [hsucc]
  rcases hcases with ⟨taken, -, rfl, rfl⟩ | ⟨rfl, rfl, rfl⟩
  · cases taken
    · simp [or_comm]
    · simp
  · rfl

/-- The edge that is lost when the branch of `id` is settled. -/
def settledEdge (id target dropped : BlockId) (block pred : BlockId) : Bool :=
  decide (dropped = target) || !(decide (block = dropped) && decide (pred = id))

/-- The terminators when the branch of `id` is settled. -/
def settledTerm (id target : BlockId) (b : Block) : Option Terminator :=
  if b.id = id then some (.jump target) else b.term

/--
Settling changes nothing, or turns one branch into a jump and drops the edge that is lost.
-/
theorem settle_cases
    (f : Function)
    (id : BlockId) :
    settle f id = f ∨ ∃ b ∈ f.blocks, b.id = id ∧ ∃ target dropped,
      settled? b = some (target, dropped) ∧
      settle f id = f.thin (fun _ => true) (settledEdge id target dropped)
        (settledTerm id target) := by
  unfold settle
  cases hfound : (f.block? id).bind settled? with
  | none => exact .inl rfl
  | some pair =>
      obtain ⟨target, dropped⟩ := pair
      obtain ⟨b, hb, hsettled⟩ := Option.bind_eq_some_iff.mp hfound
      obtain ⟨hmem, hid⟩ := mem_of_block?_eq_some hb
      refine .inr ⟨b, hmem, hid, target, dropped, hsettled, ?_⟩
      by_cases hsame : dropped = target
      · have hall : ∀ c : Block, c.dropIncoming (settledEdge id target dropped c.id) = c :=
          fun c => Block.dropIncoming_of_all fun pred => by simp [settledEdge, hsame]
        simp only [if_pos hsame, mapBlock, mapBlocks, thin, Block.thin, hall,
          List.filter_true]
        congr 1
        refine List.map_congr_left fun c _ => ?_
        by_cases hc : c.id = id <;> simp [settledTerm, hc]
      · have hdrop : ∀ c : Block, c.dropIncoming (settledEdge id target dropped c.id) =
            if c.id = dropped then c.dropIncoming fun pred => pred != id else c := by
          intro c
          by_cases hc : c.id = dropped
          · have hedge : settledEdge id target dropped c.id = fun pred => pred != id := by
              funext pred
              simp only [settledEdge, hsame, hc, decide_false, decide_true,
                Bool.false_or, Bool.true_and]
              rfl
            rw [if_pos hc, hedge]
          · rw [if_neg hc]
            exact Block.dropIncoming_of_all fun pred => by simp [settledEdge, hc]
        simp only [if_neg hsame, dropEdges, mapBlock, mapBlocks, thin, Block.thin, hdrop,
          List.filter_true, List.map_map]
        congr 1
        refine List.map_congr_left fun c _ => ?_
        have hid' : (if c.id = id then { c with term := some (.jump target) } else c).id =
          c.id := by
          by_cases hc : c.id = id
          · rw [if_pos hc]
          · rw [if_neg hc]
        simp only [Function.comp_apply, hid', settledTerm]
        by_cases hd : c.id = dropped
        · simp only [if_pos hd]
          by_cases hc : c.id = id
          · simp only [if_pos hc]
            rfl
          · simp only [if_neg hc]
            rfl
        · simp only [if_neg hd]
          by_cases hc : c.id = id
          · simp only [if_pos hc]
          · simp only [if_neg hc]

/-- A settled branch keeps what is still used. -/
theorem thins_settled
    (hwf : f.WellFormed)
    {b : Block}
    (hb : b ∈ f.blocks)
    {target dropped : BlockId}
    (h : settled? b = some (target, dropped)) :
    f.Thins (fun _ => true) (settledEdge b.id target dropped)
      (settledTerm b.id target) := by
  have hmem := mem_successors_of_settled? h
  have hother : ∀ c ∈ f.blocks, c.id = b.id → c = b :=
    fun c hc hid => block_eq_of_id_eq hwf.ids_nodup hc hb hid
  have hsuccessors : ∀ c ∈ f.blocks, ∀ k,
      (c.thin k (settledTerm b.id target c)).successors =
      if c.id = b.id then [target] else c.successors := by
    intro c _ k
    by_cases hc : c.id = b.id
      <;> simp [Block.successors, settledTerm, hc, Terminator.successors]
  have hdefined : ∀ o type, f.HasType o type → ∀ v, o = .result v →
      f.Survives (fun _ => true) v := by
    rintro _ type htype v rfl
    obtain ⟨d, hd, hv⟩ := mem_results_iff.mp htype.mem_results
    exact ⟨d, hd, rfl, hv⟩
  constructor
  · exact fun _ _ => rfl
  · intro c hc
    by_cases hid : c.id = b.id
    · simp [settledTerm, hid]
    · simpa [settledTerm, hid] using hwf.terminated c hc
  · intro c hc _ t ht
    rw [hsuccessors c hc] at ht
    refine ⟨?_, rfl⟩
    by_cases hid : c.id = b.id
    · rw [if_pos hid] at ht
      rw [hother c hc hid, hmem]
      exact .inl (List.mem_singleton.mp ht)
    · rwa [if_neg hid] at ht
  · intro c hc u hu
    by_cases hid : c.id = b.id
    · simp [Block.termUses, settledTerm, hid, Terminator.uses] at hu
    · simpa [Block.termUses, settledTerm, hid] using hu
  · intro c _ _ p hp hsucc
    rw [hsuccessors p hp]
    by_cases hid : p.id = b.id
    · rw [hother p hp hid, hmem] at hsucc
      by_cases hsame : dropped = target
      · subst hsame
        simpa [settledEdge, hid] using hsucc
      · rcases hsucc with hc | hc
        · simp [settledEdge, hid, hc, hsame, Ne.symm hsame]
        · simp [settledEdge, hid, hc, hsame]
    · simp [settledEdge, hid, hsucc]
  · intro c hc _ i hi v hv
    obtain ⟨j, hj, rfl⟩ := List.mem_map.mp hi
    obtain ⟨type, hu⟩ := InstrKind.exists_use_of_mem_operands hv
    exact hdefined _ _ (hwf.typed c hc j hj _ (InstrKind.uses_mapIncoming_filter hu)) v rfl
  · intro c hc _ v hv
    obtain ⟨type, hu⟩ := Block.exists_use_of_mem_termOperands hv
    exact hdefined _ _ (hwf.term_typed c hc _ hu) v rfl

theorem wellFormed_settle
    (hwf : f.WellFormed)
    (id : BlockId) :
    (settle f id).WellFormed := by
  rcases settle_cases f id with h | ⟨b, hb, rfl, target, dropped, hsettled, h⟩
  · rwa [h]
  · rw [h]
    exact WellFormed.thin hwf (thins_settled hwf hb hsettled)

theorem wellFormed_settleAll
    (hwf : f.WellFormed) :
    (settleAll f).WellFormed := by
  unfold settleAll
  generalize f.blockIds = ids
  induction ids generalizing f with
  | nil => exact hwf
  | cons id ids ih => exact ih (wellFormed_settle hwf id)

/-! ## Unreachable blocks -/

theorem dropIncoming_dropIncoming
    (first second : BlockId → Bool)
    (b : Block) :
    (b.dropIncoming first).dropIncoming second = b.dropIncoming fun pred =>
      first pred && second pred := by
  have hkind : ∀ kind : InstrKind,
      ((kind.mapIncoming fun incoming => incoming.filter fun edge =>
        first edge.2).mapIncoming
        fun incoming => incoming.filter fun edge => second edge.2) =
      kind.mapIncoming fun incoming => incoming.filter fun edge =>
        first edge.2 && second edge.2 := by
    intro kind
    cases kind <;> simp [InstrKind.mapIncoming, List.filter_filter, Bool.and_comm]
  simp [Block.dropIncoming, Block.mapIncoming, hkind]

theorem dropEdges_eq_mapBlocks
    (f : Function)
    (target pred : BlockId) :
    f.dropEdges target pred =
      f.mapBlocks fun b => b.dropIncoming fun p =>
        !(decide (b.id = target) && decide (p = pred)) := by
  simp only [dropEdges, mapBlock]
  congr 1
  funext b
  by_cases hb : b.id = target
  · rw [if_pos hb]
    simp only [hb, decide_true, Bool.true_and]
    rfl
  · rw [if_neg hb, Block.dropIncoming_of_all fun p => by simp [hb]]

/--
Dropping the edges from a block in several blocks, one after the other,
drops them all at once.
-/
theorem foldl_dropEdges
    (f : Function)
    (pred : BlockId)
    (targets : List BlockId) :
    targets.foldl (fun g target => g.dropEdges target pred) f =
      f.mapBlocks fun b => b.dropIncoming fun p =>
        !(decide (b.id ∈ targets) && decide (p = pred)) := by
  induction targets generalizing f with
  | nil =>
      have hall : ∀ b : Block,
          (b.dropIncoming fun p =>
            !(decide (b.id ∈ ([] : List BlockId)) && decide (p = pred))) = b := fun b =>
        Block.dropIncoming_of_all fun p => by simp
      simp only [List.foldl_nil, mapBlocks, hall, List.map_id']
  | cons target targets ih =>
      rw [List.foldl_cons, ih, dropEdges_eq_mapBlocks]
      simp only [mapBlocks, List.map_map]
      congr 1
      refine List.map_congr_left fun b _ => ?_
      simp only [Function.comp_apply, dropIncoming_dropIncoming]
      congr 1
      funext p
      have hid : ∀ keep, (b.dropIncoming keep).id = b.id := fun _ => rfl
      rw [hid]
      by_cases hb : b.id = target <;> by_cases hin : b.id ∈ targets
        <;> by_cases hp : p = pred <;> simp [hb, hin, hp]

/-- The incoming edges that are left when some blocks are removed. -/
def keptEdge (f : Function) (removed : List BlockId) (block pred : BlockId) : Bool :=
  !(decide (pred ∈ removed) && decide (block ∈ f.successors pred))

/-- The function without some blocks and without the edges from them. -/
def without (f : Function) (removed : List BlockId) : Function :=
  f.thin (fun id => !decide (id ∈ removed)) (keptEdge f removed) (·.term)

theorem without_nil
    (f : Function) :
    without f [] = f := by
  have hall : ∀ b : Block, b.thin (keptEdge f [] b.id) b.term = b := by
    intro b
    have hdrop : b.dropIncoming (keptEdge f [] b.id) = b :=
      Block.dropIncoming_of_all fun p => by simp [keptEdge]
    rw [Block.thin, hdrop]
  simp [without, thin, hall]

theorem block?_without
    {removed : List BlockId}
    {id : BlockId}
    (hid : id ∉ removed) :
    (without f removed).block? id = (f.block? id).map fun b =>
      b.thin (keptEdge f removed b.id) b.term := by
  simp only [without, thin, block?, List.find?_map, List.find?_filter,
    Function.comp_def, Block.thin_id]
  congr 2
  funext b
  by_cases hb : b.id = id <;> simp [hb, hid]

/-- Removing one more block. -/
theorem prune_without
    {removed : List BlockId}
    {id : BlockId}
    (hid : id ∉ removed)
    (hmem : id ∈ f.blockIds) :
    prune (without f removed) id = without f (removed ++ [id]) := by
  obtain ⟨b, hb⟩ : ∃ b, f.block? id = some b := by
    cases hb : f.block? id with
    | none => exact absurd hmem (block?_eq_none_iff.mp hb)
    | some b => exact ⟨b, rfl⟩
  have hsucc : f.successors id = b.successors := by simp [Function.successors, hb]
  have hthin : ∀ k, (b.thin k b.term).successors = b.successors := fun _ => rfl
  simp only [prune, block?_without hid, hb, Option.map_some, hthin, foldl_dropEdges]
  simp only [without, thin, eraseBlock, mapBlocks, List.filter_map, List.map_map,
    List.filter_filter]
  have hfilter : (fun c : Block => ((fun b : Block => b.id != id) ∘
      fun b : Block => b.thin (keptEdge f removed b.id) b.term) c &&
        !decide (c.id ∈ removed)) =
      fun c => !decide (c.id ∈ removed ++ [id]) := by
    funext c
    by_cases hc : c.id = id <;> by_cases hin : c.id ∈ removed <;> simp [bne, hc, hin]
  have hself : ∀ (k : BlockId → Bool) (c : Block), c.thin k c.term = c.dropIncoming k :=
    fun _ _ => rfl
  rw [hfilter]
  congr 1
  refine List.map_congr_left fun c _ => ?_
  have hid' : ∀ k, (c.dropIncoming k).id = c.id := fun _ => rfl
  simp only [Function.comp_apply, hself, hid', dropIncoming_dropIncoming]
  congr 1
  funext p
  by_cases hp : p = id
  · subst hp
    simp [keptEdge, hsucc, hid]
  · simp [keptEdge, hp]

/-- Removing blocks one after the other removes them all at once. -/
theorem foldl_prune
    {removed ids : List BlockId}
    (hnodup : (removed ++ ids).Nodup)
    (hmem : ∀ id ∈ ids, id ∈ f.blockIds) :
    ids.foldl prune (without f removed) = without f (removed ++ ids) := by
  induction ids generalizing removed with
  | nil => simp
  | cons id ids ih =>
      have hid : id ∉ removed := by
        intro hin
        exact (List.nodup_append.mp hnodup).2.2 id hin id List.mem_cons_self rfl
      rw [List.foldl_cons, prune_without hid (hmem id List.mem_cons_self),
        ih (by simpa using hnodup) fun i hi => hmem i (List.mem_cons_of_mem _ hi)]
      simp

theorem pruneAll_eq_without
    (hids : f.blockIds.Nodup) :
    pruneAll f = without f (unreachable f) := by
  have hfold : (unreachable f).foldl prune (without f []) =
      without f ([] ++ unreachable f) :=
    foldl_prune (hids.filter _) fun id hid => (List.mem_filter.mp hid).1
  rwa [without_nil] at hfold

theorem mem_unreachable_iff
    {id : BlockId} :
    id ∈ unreachable f ↔ id ∈ f.blockIds ∧ ¬ f.Reachable id := by
  simp [unreachable, mem_reachable_iff]

/-- The blocks of a function that are not unreachable are reachable. -/
theorem kept_iff_reachable
    {b : Block}
    (hb : b ∈ f.blocks) :
    (!decide (b.id ∈ unreachable f)) = true ↔ f.Reachable b.id := by
  have hmem : b.id ∈ f.blockIds := List.mem_map_of_mem hb
  simp [mem_unreachable_iff, hmem]

/-- Without the unreachable blocks what is still used is kept. -/
theorem thins_unreachable
    (hwf : f.WellFormed) :
    f.Thins (fun id => !decide (id ∈ unreachable f))
      (keptEdge f (unreachable f)) (·.term) := by
  have hkept : ∀ id, f.Reachable id → (!decide (id ∈ unreachable f)) = true := by
    intro id hreach
    simp [mem_unreachable_iff, hreach]
  have hdom : ∀ {v id}, f.ComputedBy v id → f.Reachable id →
      f.Survives (fun id => !decide (id ∈ unreachable f)) v := by
    rintro v id ⟨d, hd, hv, hdom⟩ hreach
    exact ⟨d, hd, hkept _ (hdom.reachable hreach), hv⟩
  constructor
  · intro entry hentry
    exact hkept entry ⟨[], .start hentry⟩
  · exact hwf.terminated
  · intro b hb hkeep target htarget
    have hsucc : target ∈ b.successors := htarget
    have hreach := (kept_iff_reachable hb).mp hkeep
    exact ⟨hsucc,
      hkept _ (hreach.step ((mem_successors_iff hwf.ids_nodup).mpr ⟨b, hb, rfl, hsucc⟩))⟩
  · exact fun _ _ _ hu => hu
  · intro b _ _ p hp hsucc
    have hedge : b.id ∈ f.successors p.id :=
      (mem_successors_iff hwf.ids_nodup).mpr ⟨p, hp, rfl, hsucc⟩
    have hsucc' : b.id ∈ (p.thin (keptEdge f (unreachable f) p.id) p.term).successors :=
      hsucc
    simp [keptEdge, hedge, hsucc']
  · intro b hb hkeep i hi v hv
    have hreach := (kept_iff_reachable hb).mp hkeep
    obtain ⟨j, hj, rfl⟩ := List.mem_map.mp hi
    cases hphi : j.kind.isPhi with
    | false =>
        obtain ⟨pre, post, hsplit⟩ := List.append_of_mem hj
        simp only [InstrKind.mapIncoming_of_not_phi _ hphi] at hv
        rcases hwf.uses b hb hreach pre j post hsplit hphi v hv with hin
          | ⟨d, hd, -, hvd, hdomd⟩
        · refine ⟨b, hb, hkeep, ?_⟩
          rw [Block.results, hsplit, List.map_append]
          exact List.mem_append_left _ hin
        · exact hdom ⟨d, hd, hvd, hdomd⟩ hreach
    | true =>
        cases hkind : j.kind with
        | phi type incoming =>
            simp only [hkind, InstrKind.mapIncoming, InstrKind.operands] at hv
            obtain ⟨⟨o, pred⟩, he, rfl⟩ := List.mem_map.mp hv
            obtain ⟨he, hedge⟩ := List.mem_filter.mp he
            have hpred :=
              (hwf.phi_edges b hb j hj type incoming hkind pred).mp (List.mem_map_of_mem he)
            obtain ⟨p, hp, rfl, hsucc⟩ := mem_predecessors_iff.mp hpred
            have hedge' : b.id ∈ f.successors p.id :=
              (mem_successors_iff hwf.ids_nodup).mpr ⟨p, hp, rfl, hsucc⟩
            have hreach' : f.Reachable p.id :=
              (kept_iff_reachable hp).mp (by simpa [keptEdge, hedge'] using hedge)
            exact hdom (hwf.edges b hb j hj type incoming hkind v p.id he hreach') hreach'
        | _ =>
            rw [hkind] at hphi
            cases hphi
  · intro b hb hkeep v hv
    have hreach := (kept_iff_reachable hb).mp hkeep
    exact hdom (hwf.ends b hb hreach v hv) hreach

theorem wellFormed_pruneAll
    (hwf : f.WellFormed) :
    (pruneAll f).WellFormed := by
  rw [pruneAll_eq_without hwf.ids_nodup]
  exact WellFormed.thin hwf (thins_unreachable hwf)

/-- A trail runs through reachable blocks only, so all of it is kept. -/
theorem trail_without
    (hwf : f.WellFormed)
    {path : List BlockId}
    (h : f.Trail path) :
    (without f (unreachable f)).Trail path := by
  have hids : (without f (unreachable f)).blockIds.Nodup := by
    rw [without, blockIds_thin]
    exact hwf.ids_nodup.filter _
  induction h with
  | start hentry =>
      exact .start (by rw [without, entry?_thin (thins_unreachable hwf), hentry])
  | @step b c path htrail edge ih =>
      refine .step ih ((mem_successors_iff hids).mpr ?_)
      obtain ⟨p, hp, rfl, hsucc⟩ := exists_of_mem_successors edge
      exact ⟨_, mem_thin_iff.mpr ⟨p, hp, (kept_iff_reachable hp).mpr ⟨path, htrail⟩, rfl⟩,
        rfl, hsucc⟩

theorem allReachable_pruneAll
    (hwf : f.WellFormed) :
    (pruneAll f).AllReachable := by
  rw [pruneAll_eq_without hwf.ids_nodup]
  intro b hb
  obtain ⟨c, hc, hkeep, rfl⟩ := mem_thin_iff.mp hb
  obtain ⟨path, htrail⟩ := (kept_iff_reachable hc).mp hkeep
  exact ⟨path, trail_without hwf htrail⟩

end Pass

end ScalarSsa
