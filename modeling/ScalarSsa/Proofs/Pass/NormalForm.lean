import ScalarSsa.Proofs.Pass.Descent

/-!
# The normal form of control flow

**Input.** A function that the check accepts and whose phis are all of type double.

**Definitions.** A block is `Undecided` if it does not end in a branch whose target is
known.  A function is `Simplified` if all its blocks are undecided and reachable and no
block can be merged into the one before it.

**Results.** `changed_branches_eq_false`: the pass that simplifies control flow has nothing
to do with a simplified function.  `prepared_mergeOnce?`: merging brings back neither known
branches nor unreachable blocks.  A merge puts operands in the places of phis, but a branch
is made on a comparison, never on a phi of type double.  So the three steps of the pass need
to be taken only once, in their order (`simplified_branches`).
-/

namespace ScalarSsa

/--
The block does not end in a branch on a constant, nor in one to the same block either way.
-/
def Block.Undecided (b : Block) : Prop :=
  ∀ cond thenBlock elseBlock, b.term = some (.branch cond thenBlock elseBlock) →
    (∀ taken, cond ≠ .bool taken) ∧ thenBlock ≠ elseBlock

namespace Function

/-- No block but the entry has as its only predecessor one that jumps to it. -/
def Apart (f : Function) : Prop :=
  ∀ b ∈ f.blocks, f.entry? ≠ some b.id →
    ∀ p ∈ f.blocks, p.term = some (.jump b.id) → f.predecessors b.id ≠ [p.id]

/-- There is no control flow left to simplify. -/
structure Simplified (f : Function) : Prop where
  undecided : ∀ b ∈ f.blocks, b.Undecided
  reached : f.AllReachable
  apart : f.Apart

/-- All phis are of type double. -/
def DoublePhis (f : Function) : Prop :=
  ∀ i ∈ f.instrs, i.kind.isPhi = true → i.kind.type = .double

variable {f g : Function}

/-- Instructions may be changed as long as phis stay phis of the same type. -/
theorem DoublePhis.of_instrs
    (h : f.DoublePhis)
    (hinstrs : ∀ i' ∈ g.instrs, ∃ i ∈ f.instrs, i'.kind.isPhi = i.kind.isPhi ∧
      i'.kind.type = i.kind.type) :
    g.DoublePhis := by
  intro i' hi' hphi
  obtain ⟨i, hi, hsame, htype⟩ := hinstrs i' hi'
  rw [hsame] at hphi
  rw [htype]
  exact h i hi hphi

theorem DoublePhis.thin
    {keepBlock : BlockId → Bool}
    {keepEdge : BlockId → BlockId → Bool}
    {term : Block → Option Terminator}
    (h : f.DoublePhis) :
    (f.thin keepBlock keepEdge term).DoublePhis := by
  refine h.of_instrs fun i' hi' => ?_
  obtain ⟨b', hb', hi'⟩ := mem_instrs_iff.1 hi'
  obtain ⟨b, hb, -, rfl⟩ := mem_thin_iff.1 hb'
  rw [Block.instrs_thin] at hi'
  obtain ⟨i, hi, rfl⟩ := List.mem_map.1 hi'
  exact ⟨i, mem_instrs_iff.2 ⟨b, hb, hi⟩, InstrKind.isPhi_mapIncoming _ _,
    InstrKind.type_mapIncoming _ _⟩

/-- A block that only leads to itself is not reached. -/
theorem not_reachable_of_only_self
    {id : BlockId}
    (hentry : f.entry? ≠ some id)
    (honly : f.predecessors id = [id]) :
    ¬ f.Reachable id := by
  rintro ⟨path, htrail⟩
  induction path with
  | nil =>
      cases htrail with
      | start h => exact hentry h
  | cons c path ih =>
      cases htrail with
      | step htrail edge =>
          have hpred : c ∈ f.predecessors id :=
            mem_predecessors_iff.2 (exists_of_mem_successors edge)
          rw [honly, List.mem_singleton] at hpred
          exact ih (hpred ▸ htrail)

end Function

namespace Pass

open ScalarSsa.Function

variable {f g : Function} {pred : BlockId} {b : Block}

/-! ## What there is nothing to do with -/

theorem settled?_eq_none_iff :
    settled? b = none ↔ b.Undecided := by
  constructor
  · intro hnone cond thenBlock elseBlock hterm
    rw [settled?, hterm] at hnone
    cases cond with
    | bool taken => cases hnone
    | _ => exact ⟨nofun, by simpa using hnone⟩
  · intro hundecided
    cases hsettled : settled? b with
    | none => rfl
    | some pair =>
        obtain ⟨target, dropped⟩ := pair
        obtain ⟨cond, thenBlock, elseBlock, hterm, hknown⟩ := settled?_eq_some hsettled
        obtain ⟨hcond, hne⟩ := hundecided cond thenBlock elseBlock hterm
        rcases hknown with ⟨taken, hbool, -⟩ | ⟨hthen, helse, -⟩
        · exact absurd hbool (hcond taken)
        · exact absurd (hthen.trans helse.symm) hne

theorem mergeTarget?_eq_some_iff :
    mergeTarget? f b = some pred ↔
      f.entry? ≠ some b.id ∧ f.predecessors b.id = [pred] ∧ pred ≠ b.id ∧
        (f.block? pred).bind (·.term) = some (.jump b.id) := by
  unfold mergeTarget?
  by_cases hentry : f.entry? = some b.id
  · simp [hentry]
  · rw [if_neg hentry]
    split
    · next only hpreds =>
        rw [hpreds]
        grind
    · next hpreds =>
        refine iff_of_false nofun ?_
        rintro ⟨-, honly, -⟩
        exact hpreds pred honly

theorem mergeOnce?_eq_none_iff
    (hids : f.blockIds.Nodup)
    (hreached : f.AllReachable) :
    mergeOnce? f = none ↔ f.Apart := by
  have hnone : mergeOnce? f = none ↔ ∀ b ∈ f.blocks, ∀ pred,
      mergeTarget? f b ≠ some pred := by
    rw [mergeOnce?, Option.map_eq_none_iff, mergeable?, List.findSome?_eq_none_iff]
    refine forall₂_congr fun b _ => ?_
    rw [Option.map_eq_none_iff, Option.eq_none_iff_forall_ne_some]
  rw [hnone]
  constructor
  · intro h b hb hentry p hp hterm honly
    by_cases hself : p.id = b.id
    · rw [hself] at honly
      exact not_reachable_of_only_self hentry honly (hreached b hb)
    · refine h b hb p.id (mergeTarget?_eq_some_iff.2 ⟨hentry, honly, hself, ?_⟩)
      rw [(block?_eq_some_iff hids).2 ⟨hp, rfl⟩]
      exact hterm
  · intro hapart b hb pred htarget
    obtain ⟨hentry, honly, -, hjump⟩ := mergeTarget?_eq_some_iff.1 htarget
    obtain ⟨p, hp, hterm⟩ := Option.bind_eq_some_iff.1 hjump
    obtain ⟨hmem, rfl⟩ := mem_of_block?_eq_some hp
    exact hapart b hb hentry p hmem hterm honly

/-- The pass has nothing to do with a simplified function. -/
theorem changed_branches_eq_false
    (hids : f.blockIds.Nodup)
    (h : f.Simplified) :
    (branches.run f).changed = false := by
  have hknown : (f.blocks.any fun b => (settled? b).isSome) = false := by
    rw [List.any_eq_false]
    intro b hb
    simp [settled?_eq_none_iff.2 (h.undecided b hb)]
  have hunreached : unreachable f = [] := by
    rw [List.eq_nil_iff_forall_not_mem]
    intro id hid
    obtain ⟨hmem, hnot⟩ := mem_unreachable_iff.1 hid
    obtain ⟨b, hb, rfl⟩ := mem_blockIds_iff.1 hmem
    exact hnot (h.reached b hb)
  have hsettled : settleAll f = f := (truthful_settleAll hids).same hknown
  have hpruned : pruneAll f = f := (truthful_pruneAll f).same (by simp [hunreached])
  simp [branches, hknown, hsettled, hunreached, hpruned,
    (mergeOnce?_eq_none_iff hids h.reached).2 h.apart]

/-! ## Settling and pruning -/

/--
A block is undecided after its own branch was settled, and stays undecided
when another one is.
-/
theorem undecided_settle
    (hids : f.blockIds.Nodup)
    {id : BlockId}
    {b' : Block}
    (hb' : b' ∈ (settle f id).blocks)
    (h : b'.id = id ∨ ∀ b ∈ f.blocks, b.id = b'.id → b.Undecided) :
    b'.Undecided := by
  rcases settle_cases f id with hsame | ⟨b, hb, rfl, target, dropped, -, hthin⟩
  · rw [hsame] at hb'
    rcases h with rfl | hother
    · -- a known branch would have been settled, and the function would be smaller
      by_contra hknown
      have hless : (settle f b'.id).size < f.size := by
        refine size_settle_lt ?_
        rw [(block?_eq_some_iff hids).2 ⟨hb', rfl⟩, Option.bind_some]
        exact fun hnone => hknown (settled?_eq_none_iff.1 hnone)
      rw [hsame] at hless
      exact Nat.lt_irrefl _ hless
    · exact hother b' hb' rfl
  · rw [hthin] at hb'
    obtain ⟨c, hc, -, rfl⟩ := mem_thin_iff.1 hb'
    intro cond thenBlock elseBlock hterm
    rw [Block.thin_term, settledTerm] at hterm
    split at hterm
    · cases hterm
    · next hne =>
        rcases h with hid | hother
        · exact absurd hid hne
        · exact hother c hc rfl cond thenBlock elseBlock hterm

theorem undecided_foldl_settle
    (hids : f.blockIds.Nodup)
    {ids : List BlockId}
    {b' : Block}
    (hb' : b' ∈ (ids.foldl settle f).blocks)
    (h : b'.id ∈ ids ∨ ∀ b ∈ f.blocks, b.id = b'.id → b.Undecided) :
    b'.Undecided := by
  induction ids generalizing f with
  | nil =>
      rcases h with hmem | hother
      · cases hmem
      · exact hother b' hb' rfl
  | cons id ids ih =>
      refine ih (hids.sublist (trims_settle f id).ids) hb' ?_
      rcases h with hmem | hother
      · rcases List.mem_cons.1 hmem with hid | hmem
        · exact .inr fun c hc hc' => undecided_settle hids hc (.inl (hc'.trans hid))
        · exact .inl hmem
      · exact .inr fun c hc hc' =>
          undecided_settle hids hc (.inr fun b hb hb' => hother b hb (hb'.trans hc'))

/-- What the merging starts from and what it keeps. -/
structure Prepared (f : Function) : Prop where
  wellFormed : f.WellFormed
  reached : f.AllReachable
  undecided : ∀ b ∈ f.blocks, b.Undecided
  phis : f.DoublePhis

theorem doublePhis_settle
    (h : f.DoublePhis)
    (id : BlockId) :
    (settle f id).DoublePhis := by
  rcases settle_cases f id with hsame | ⟨b, hb, rfl, target, dropped, -, hthin⟩
  · rwa [hsame]
  · rw [hthin]
    exact h.thin

theorem doublePhis_settleAll
    (h : f.DoublePhis) :
    (settleAll f).DoublePhis := by
  unfold settleAll
  generalize f.blockIds = ids
  induction ids generalizing f with
  | nil => exact h
  | cons id ids ih => exact ih (doublePhis_settle h id)

theorem prepared_pruneAll
    (hwf : f.WellFormed)
    (hphis : f.DoublePhis) :
    Prepared (pruneAll (settleAll f)) := by
  have hsettled := wellFormed_settleAll hwf
  refine ⟨wellFormed_pruneAll hsettled, allReachable_pruneAll hsettled,
    fun b' hb' => ?_, ?_⟩
  · rw [pruneAll_eq_without hsettled.ids_nodup, without] at hb'
    obtain ⟨b, hb, -, rfl⟩ := mem_thin_iff.1 hb'
    have hmem : b.id ∈ f.blockIds :=
      (Trims.foldl trims_settle f.blockIds f).ids.subset (List.mem_map_of_mem hb)
    have hundecided : b.Undecided := undecided_foldl_settle hwf.ids_nodup hb (.inl hmem)
    exact hundecided
  · rw [pruneAll_eq_without hsettled.ids_nodup]
    exact (doublePhis_settleAll hphis).thin

/-! ## Merging -/

/--
A block of a merged function is one from before, or one from before with the merged
block behind it, up to what takes the places of phis and to the name of the
predecessor in its phis.
-/
theorem of_mem_merge
    (hne : pred ≠ b.id)
    {c' : Block}
    (hc' : c' ∈ (merge f pred b).blocks) :
    ∃ c ∈ f.blocks, ∃ d : Block,
      (d = c ∨
        d = { c with
              instrs := c.instrs ++ b.instrs.filter fun i => !i.kind.isPhi
              term := b.term }) ∧
      (c' = d.mapOperands (Operand.replaceAll (phiReplacements b)) ∨
        c' = (d.mapOperands (Operand.replaceAll (phiReplacements b))).renameIncoming
          b.id pred) := by
  rw [merge, foldl_retargetEdges _ hne, foldl_replaceUses] at hc'
  obtain ⟨_, he, rfl⟩ := mem_mapBlocks_iff.1 hc'
  obtain ⟨d, hd, rfl⟩ := mem_mapBlocks_iff.1 he
  obtain ⟨c, hc, hjoined⟩ := mem_mapBlocks_iff.1 hd
  refine ⟨c, (List.mem_filter.1 hc).1, d, ?_, ?_⟩
  · split at hjoined
    · exact .inr hjoined.symm
    · exact .inl hjoined.symm
  · split
    · exact .inr rfl
    · exact .inl rfl

theorem term_of_mem_merge
    (hne : pred ≠ b.id)
    (hb : b ∈ f.blocks)
    {c' : Block}
    (hc' : c' ∈ (merge f pred b).blocks) :
    ∃ c ∈ f.blocks,
      c'.term =
        c.term.map (Terminator.mapOperands (Operand.replaceAll (phiReplacements b))) := by
  obtain ⟨c, hc, d, hd, hrenamed⟩ := of_mem_merge hne hc'
  have hterm : c'.term =
      d.term.map (Terminator.mapOperands (Operand.replaceAll (phiReplacements b))) := by
    rcases hrenamed with rfl | rfl <;> rfl
  rcases hd with rfl | rfl
  · exact ⟨d, hc, hterm⟩
  · exact ⟨b, hb, hterm⟩

/--
The instructions of a merged function are those from before, and its phis are
of the same types.
-/
theorem instrs_of_mem_merge
    (hne : pred ≠ b.id)
    (hb : b ∈ f.blocks)
    {i' : Instr}
    (hi' : i' ∈ (merge f pred b).instrs) :
    ∃ i ∈ f.instrs, i'.kind.isPhi = i.kind.isPhi ∧ i'.kind.type = i.kind.type := by
  obtain ⟨c', hc', hi'⟩ := mem_instrs_iff.1 hi'
  obtain ⟨c, hc, d, hd, hrenamed⟩ := of_mem_merge hne hc'
  have hkept : ∃ i ∈ d.instrs, i'.kind.isPhi = i.kind.isPhi ∧
      i'.kind.type = i.kind.type := by
    rcases hrenamed with rfl | rfl
    · obtain ⟨i, hi, rfl⟩ := List.mem_map.1 hi'
      exact ⟨i, hi, by simp, by simp⟩
    · obtain ⟨j, hj, rfl⟩ := List.mem_map.1 hi'
      obtain ⟨i, hi, rfl⟩ := List.mem_map.1 hj
      exact ⟨i, hi, by simp, by simp⟩
  obtain ⟨i, hi, hsame⟩ := hkept
  refine ⟨i, ?_, hsame⟩
  rcases hd with rfl | rfl
  · exact mem_instrs_iff.2 ⟨d, hc, hi⟩
  · rcases List.mem_append.1 hi with hi | hi
    · exact mem_instrs_iff.2 ⟨c, hc, hi⟩
    · exact mem_instrs_iff.2 ⟨b, hb, (List.mem_filter.1 hi).1⟩

/-- A branch is made on a comparison, which is not among the phis that are replaced. -/
theorem replaceAll_cond
    (hwf : f.WellFormed)
    (hphis : f.DoublePhis)
    (hb : b ∈ f.blocks)
    {c : Block}
    (hc : c ∈ f.blocks)
    {cond : Operand}
    {thenBlock elseBlock : BlockId}
    (hterm : c.term = some (.branch cond thenBlock elseBlock)) :
    Operand.replaceAll (phiReplacements b) cond = cond := by
  refine Operand.replaceAll_of_not_mem fun v hv => ?_
  have hbool : f.HasType cond .bool :=
    hwf.term_typed c hc (cond, .bool) (by simp [Block.termUses, hterm, Terminator.uses])
  cases hlookup : (phiReplacements b).lookup v with
  | none => rfl
  | some o =>
      obtain ⟨i, hi, hdest, type, source, rest, hkind⟩ :=
        mem_phiReplacements_iff.1 (mem_of_lookup_eq_some hlookup)
      have hmem : i ∈ f.instrs := mem_instrs_iff.2 ⟨b, hb, hi⟩
      have hdouble : f.HasType cond .double := by
        rw [hv]
        exact ⟨i, hmem, hdest, hphis i hmem (by rw [hkind]; rfl)⟩
      cases Machine.hasType_unique hwf.results_nodup hbool hdouble

theorem prepared_mergeOnce?
    (hstep : mergeOnce? f = some g)
    (h : Prepared f) :
    Prepared g := by
  obtain ⟨hwf, hreached⟩ := wellFormed_mergeOnce? h.wellFormed h.reached hstep
  obtain ⟨pred, b, hmergeable, rfl⟩ := mergeOnce?_eq_some hstep
  refine ⟨hwf, hreached, fun c' hc' cond' thenBlock elseBlock hterm' => ?_, ?_⟩
  · obtain ⟨c, hc, hterm⟩ := term_of_mem_merge hmergeable.ne hmergeable.mem hc'
    rw [hterm] at hterm'
    obtain ⟨term, hterm, hmapped⟩ := Option.map_eq_some_iff.1 hterm'
    cases term with
    | branch cond thenBlock' elseBlock' =>
        rw [Terminator.mapOperands,
          replaceAll_cond h.wellFormed h.phis hmergeable.mem hc hterm] at hmapped
        cases hmapped
        exact h.undecided c hc _ _ _ hterm
    | _ => cases hmapped
  · exact h.phis.of_instrs fun i' hi' =>
      instrs_of_mem_merge hmergeable.ne hmergeable.mem hi'

/--
The check accepts a function whose blocks have distinct names and whose phis are all of type
double.  After control flow is simplified no block ends in a branch on a constant or in one
to the same block either way, every block is reachable, the entry is the one from before,
and no other block has as its only predecessor one that jumps to it.  So a second time there
is no change to report and none to make.
-/
theorem simplified_branches
    (m : Module)
    (f : Function)
    (hids : f.blockIds.Nodup)
    (hverify : m.verify f = .ok ())
    (hphis : ∀ i ∈ f.instrs, i.kind.isPhi = true → i.kind.type = .double) :
    (branches.run f).function.Simplified ∧
    Function.entry? (branches.run f).function = f.entry? ∧
    (branches.run (branches.run f).function).changed = false ∧
    (branches.run (branches.run f).function).function = (branches.run f).function := by
  obtain ⟨hwf, -⟩ := (Verify.verify_eq_ok_iff hids m).1 hverify
  have hprepared : Prepared (branches.run f).function :=
    exhaust_invariant (fun _ _ => prepared_mergeOnce?) _ _ (prepared_pruneAll hwf hphis)
  have hids' := hprepared.wellFormed.ids_nodup
  have hstuck : mergeOnce? (branches.run f).function = none := (exhausts_mergeOnce? _).stuck
  have hsimplified : (branches.run f).function.Simplified :=
    ⟨hprepared.undecided, hprepared.reached,
      (mergeOnce?_eq_none_iff hids' hprepared.reached).1 hstuck⟩
  have hunchanged := changed_branches_eq_false hids' hsimplified
  exact ⟨hsimplified, (gentle_branches f).entry?_eq, hunchanged,
    (truthful_branches hids').same hunchanged⟩

theorem showDown_in_normal_form :
    showDownModule.verify showDown = .ok () ∧
      (branches.run showDown).changed = true ∧
      (branches.run showDown).function.Simplified ∧
      Function.entry? (branches.run showDown).function = some ⟨0⟩ ∧
      (branches.run (branches.run showDown).function).changed = false ∧
      (branches.run (branches.run showDown).function).function =
        (branches.run showDown).function :=
  have hverify : showDownModule.verify showDown = .ok () := by decide +kernel
  ⟨hverify, by decide +kernel,
    simplified_branches showDownModule showDown (by decide) hverify (by decide)⟩

end Pass

end ScalarSsa
