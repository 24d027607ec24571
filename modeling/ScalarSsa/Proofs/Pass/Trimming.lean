import ScalarSsa.Proofs.Pass.Shape
import ScalarSsa.Proofs.Ssa.Numbering

/-!
# Results and phis under the passes

**Input.** A function, well formed or not, whose blocks have different names.

**Definitions.** A function `Trims` to another one if the other has no new blocks, no new
results and no result more often, and keeps the phis before all other instructions.

**Results.** `Pass.sound_run`: the three passes keep a function sound, whether or not the
check accepts it.  Merging moves instructions from one block to another, so results may
change places; the other steps only leave things out.
-/

namespace ScalarSsa

/-! ## Blocks -/

namespace Block

/--
The second block has the name of the first one and no results but its, and
keeps the phis first.
-/
structure Trims (b c : Block) : Prop where
  id_eq : c.id = b.id
  results : c.results.Sublist b.results
  phisFirst : b.instrs.Pairwise (fun i j => j.kind.isPhi = true → i.kind.isPhi = true) →
    c.instrs.Pairwise fun i j => j.kind.isPhi = true → i.kind.isPhi = true

namespace Trims

theorem refl
    (b : Block) :
    b.Trims b :=
  ⟨rfl, List.Sublist.refl _, fun h => h⟩

/-- The terminator does not matter. -/
theorem terminate
    (b : Block)
    (term : Option Terminator) :
    b.Trims { b with term := term } :=
  ⟨rfl, List.Sublist.refl _, fun h => h⟩

theorem filter
    (keep : Instr → Bool)
    (b : Block) :
    b.Trims { b with instrs := b.instrs.filter keep } :=
  ⟨rfl, List.filter_sublist.map _, fun h => h.filter keep⟩

/-- Instructions are changed, but not their results, and phis stay phis. -/
theorem mapKinds
    {b c : Block}
    {change : InstrKind → InstrKind}
    (hid : c.id = b.id)
    (hinstrs : c.instrs = b.instrs.map fun i => { i with kind := change i.kind })
    (hphi : ∀ kind, (change kind).isPhi = kind.isPhi) :
    b.Trims c := by
  refine ⟨hid, ?_, fun h => ?_⟩
  · rw [Block.results, hinstrs, List.map_map]
    exact List.Sublist.refl _
  · rw [hinstrs, List.pairwise_map]
    simp only [hphi]
    exact h

theorem mapOperands
    (g : Operand → Operand)
    (b : Block) :
    b.Trims (b.mapOperands g) :=
  mapKinds rfl rfl (InstrKind.isPhi_mapOperands g)

theorem mapIncoming
    (g : List (Operand × BlockId) → List (Operand × BlockId))
    (b : Block) :
    b.Trims (b.mapIncoming g) :=
  mapKinds rfl rfl (InstrKind.isPhi_mapIncoming g)

end Trims

end Block

/-! ## Functions -/

namespace Function

/--
The second function has no blocks and results but those of the first one, and
keeps the phis first.
-/
structure Trims (f g : Function) : Prop where
  ids : g.blockIds.Sublist f.blockIds
  results : f.blockIds.Nodup → g.results.Subperm f.results
  phisFirst : f.PhisFirst → g.PhisFirst

namespace Trims

variable {f g h : Function}

theorem refl
    (f : Function) :
    f.Trims f :=
  ⟨List.Sublist.refl _, fun _ => List.Subperm.refl _, fun hphis => hphis⟩

theorem trans
    (hfg : f.Trims g)
    (hgh : g.Trims h) :
    f.Trims h := by
  refine ⟨hgh.ids.trans hfg.ids, fun hids => ?_, fun hphis =>
    hgh.phisFirst (hfg.phisFirst hphis)⟩
  exact (hgh.results (hids.sublist hfg.ids)).trans (hfg.results hids)

/-- The same steps one after the other. -/
theorem foldl
    {α : Type}
    {step : Function → α → Function}
    (hstep : ∀ g a, Trims g (step g a))
    (as : List α)
    (f : Function) :
    f.Trims (as.foldl step f) := by
  induction as generalizing f with
  | nil => exact .refl f
  | cons a as ih => exact (hstep f a).trans (ih (step f a))

theorem exhaust
    {step : Function → Option Function}
    (hstep : ∀ f g, step f = some g → f.Trims g)
    (fuel : Nat)
    (f : Function) :
    f.Trims (ScalarSsa.exhaust step fuel f) :=
  exhaust_invariant (P := f.Trims) (fun g g' hg h => h.trans (hstep g g' hg))
    fuel f (.refl f)

theorem mapBlocks
    {change : Block → Block}
    (hchange : ∀ b : Block, b.Trims (change b))
    (f : Function) :
    f.Trims (f.mapBlocks change) := by
  refine ⟨?_, fun _ => (results_mapBlocks_sublist fun b _ => (hchange b).results).subperm,
    fun hfirst b' hb' => ?_⟩
  · rw [blockIds_mapBlocks fun b => (hchange b).id_eq]
  · obtain ⟨b, hb, rfl⟩ := mem_mapBlocks_iff.1 hb'
    exact (hchange b).phisFirst (hfirst b hb)

theorem mapBlock
    {change : Block → Block}
    (hchange : ∀ b : Block, b.Trims (change b))
    (id : BlockId)
    (f : Function) :
    f.Trims (f.mapBlock id change) := by
  refine mapBlocks (fun b => ?_) f
  split
  · exact hchange b
  · exact .refl b

theorem eraseBlock
    (id : BlockId)
    (f : Function) :
    f.Trims (f.eraseBlock id) := by
  refine ⟨List.filter_sublist.map _, fun _ => ?_, fun hfirst b hb =>
    hfirst b (List.mem_filter.1 hb).1⟩
  rw [results_eq_flatMap, results_eq_flatMap]
  exact (List.filter_sublist.flatMap _).subperm

theorem sound
    (h : f.Trims g)
    (hissued : g.nextValue = f.nextValue ∧ g.nextBlock = f.nextBlock)
    (hf : f.Sound) :
    g.Sound := by
  refine ⟨h.phisFirst hf.phisFirst, fun hblocks hvalues => ?_⟩
  rw [hissued.2] at hblocks
  rw [hissued.1] at hvalues
  have hn := hf.numbered hblocks hvalues
  have hresults := h.results hn.ids_nodup
  refine ⟨hn.ids_nodup.sublist h.ids, fun id hid =>
    ?_, nodup_of_subperm hresults hn.results_nodup, fun v hv => ?_⟩
  · rw [hissued.2]
    exact hn.ids_below id (h.ids.subset hid)
  · rw [hissued.1]
    exact hn.results_below v (hresults.subset hv)

end Trims

end Function

/-! ## The passes -/

namespace Pass

open ScalarSsa.Function

theorem trims_folding
    (f : Function) :
    f.Trims (Pass.folding.run f).function := by
  refine Trims.exhaust (fun f g hg => ?_) f.instrCount f
  obtain ⟨⟨id, o⟩, -, rfl⟩ := Option.map_eq_some_iff.1 hg
  exact (Trims.mapBlocks (Block.Trims.filter fun i => i.dest != id) f).trans
    (.mapBlocks (Block.Trims.mapOperands _) _)

theorem trims_settle
    (f : Function)
    (id : BlockId) :
    f.Trims (settle f id) := by
  unfold settle
  split
  · exact .refl f
  · next target dropped _ =>
    have hjump : f.Trims (f.mapBlock id fun b => { b with term := some (.jump target) }) :=
      .mapBlock (fun b => .terminate b _) id f
    split
    · exact hjump
    · exact hjump.trans (.mapBlock (Block.Trims.mapIncoming _) _ _)

theorem trims_prune
    (f : Function)
    (id : BlockId) :
    f.Trims (prune f id) := by
  unfold prune
  split
  · exact .refl f
  · exact (Trims.eraseBlock id f).trans
      (.foldl (fun g target => .mapBlock (Block.Trims.mapIncoming _) target g) _ _)

/-- Merging moves the plain instructions of a block to the end of another one. -/
theorem trims_merge
    {f : Function}
    {b : Block}
    (hb : b ∈ f.blocks)
    (pred : BlockId) :
    f.Trims (merge f pred b) := by
  have hjoined : f.Trims ((f.eraseBlock b.id).mapBlock pred fun p =>
      { p with
        instrs := p.instrs ++ b.instrs.filter fun i => !i.kind.isPhi
        term := b.term }) := by
    refine ⟨?_, fun hids => ?_, fun hfirst => ?_⟩
    · rw [blockIds_mapBlock]
      · exact (Trims.eraseBlock b.id f).ids
      · exact fun _ => rfl
    · have hmoved : ((f.eraseBlock b.id).mapBlock pred fun p =>
          { p with
            instrs := p.instrs ++ b.instrs.filter fun i => !i.kind.isPhi
            term := b.term }).results.Subperm
          ((f.eraseBlock b.id).results ++
            (b.instrs.filter fun i => !i.kind.isPhi).map (·.dest)) :=
        results_mapBlock (hids.sublist (Trims.eraseBlock b.id f).ids) fun c _ => by
          rw [Block.results, List.map_append]
          exact List.Subperm.refl _
      refine hmoved.trans (List.Subperm.trans ?_ (results_eraseBlock_perm hids hb).subperm)
      refine List.Subperm.trans ?_ List.perm_append_comm.subperm
      exact (List.subperm_append_left _).2 (List.filter_sublist.map _).subperm
    · refine ((Trims.eraseBlock b.id f).phisFirst hfirst).mapBlock pred fun c _ hc => ?_
      have hplain : ∀ i ∈ b.instrs.filter (fun i => !i.kind.isPhi),
          ¬ i.kind.isPhi = true := by
        intro i hi
        simpa using (List.mem_filter.1 hi).2
      refine List.pairwise_append.2 ⟨hc, ?_, fun _ _ j hj hphi => absurd hphi (hplain j hj)⟩
      exact (hfirst b hb).filter _
  exact hjoined.trans
    (Trims.trans
      (.foldl (fun g _ => .mapBlocks (Block.Trims.mapOperands _) g) (phiReplacements b) _)
    (.foldl (fun g target => .mapBlock (Block.Trims.mapIncoming _) target g)
      b.successors _))

theorem trims_branches
    (f : Function) :
    f.Trims (Pass.branches.run f).function := by
  have hsettled : f.Trims (settleAll f) := .foldl trims_settle f.blockIds f
  refine (hsettled.trans (.foldl trims_prune _ _)).trans
    (Trims.exhaust (fun f g hg => ?_) _ _)
  obtain ⟨⟨pred, b⟩, hmergeable, rfl⟩ := Option.map_eq_some_iff.1 hg
  obtain ⟨c, hc, hfound⟩ := List.exists_of_findSome?_eq_some hmergeable
  obtain ⟨pred', -, heq⟩ := Option.map_eq_some_iff.1 hfound
  cases heq
  exact trims_merge hc pred

theorem trims_unused
    (f : Function) :
    f.Trims (Pass.unused.run f).function := by
  refine exhaust_invariant (P := fun p : Function × List Note => f.Trims p.1) ?_
    f.instrCount (f, []) (.refl f)
  rintro ⟨g, journal⟩ p hstep hg
  obtain ⟨g', hremoved, rfl⟩ := Option.map_eq_some_iff.1 hstep
  rw [eq_keepUsed_of_removeUnused? hremoved]
  exact hg.trans (.mapBlocks (Block.Trims.filter _) g)

/-- The passes keep a function sound. -/
theorem sound_run
    {pass : Pass}
    (h : pass ∈ [Pass.folding, Pass.branches, Pass.unused])
    {f : Function}
    (hf : f.Sound) :
    (pass.run f).function.Sound := by
  have hissued := (gentle_of_mem h f).issued_eq
  simp only [List.mem_cons, List.not_mem_nil, or_false] at h
  rcases h with rfl | rfl | rfl
  · exact (trims_folding f).sound hissued hf
  · exact (trims_branches f).sound hissued hf
  · exact (trims_unused f).sound hissued hf

end Pass

end ScalarSsa
