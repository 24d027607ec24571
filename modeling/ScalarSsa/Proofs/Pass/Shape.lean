import ScalarSsa.Pass.Pipeline
import ScalarSsa.Proofs.Flow.Trails
import ScalarSsa.Proofs.Lowering.Steps
import ScalarSsa.Proofs.Machine.Safety
import ScalarSsa.Proofs.Pass.Preservation

/-!
# What passes never touch

**Input.** A function, well formed or not.

**Definitions.** A function `Descends` from another one if it has the same name, parameters,
counters and entry, no new blocks, and no calls and no phis but those that were there.

**Results.** `Pass.gentle_of_mem`: what the three passes make of a function descends from
it, whether or not it is well formed, and `Pass.DropsTerminators.gentle`: so does what a
pass makes of it that only drops terminators.  A definition that is undone after its
pipeline has run finds the function where it was.
-/

namespace ScalarSsa

/--
An instruction may have come from another one: calls go to the same function,
and a phi was a phi.
-/
structure InstrKind.Descends (kind kind' : InstrKind) : Prop where
  call : ∀ callee name args', kind' = .call callee name args' →
    ∃ args, kind = .call callee name args ∧ args'.length = args.length
  phi : kind'.isPhi = true → kind.isPhi = true

namespace InstrKind.Descends

theorem refl
    (kind : InstrKind) :
    kind.Descends kind :=
  ⟨fun _ _ args h => ⟨args, h, rfl⟩, fun h => h⟩

theorem trans
    {kind kind' kind'' : InstrKind}
    (h : kind.Descends kind')
    (h' : kind'.Descends kind'') :
    kind.Descends kind'' := by
  refine ⟨fun callee name args'' heq => ?_, fun hphi => h.phi (h'.phi hphi)⟩
  obtain ⟨args', heq', hlength'⟩ := h'.call callee name args'' heq
  obtain ⟨args, heq, hlength⟩ := h.call callee name args' heq'
  exact ⟨args, heq, hlength'.trans hlength⟩

theorem mapOperands
    (g : Operand → Operand)
    (kind : InstrKind) :
    kind.Descends (kind.mapOperands g) := by
  refine ⟨fun callee name args' heq => ?_, fun hphi => ?_⟩
  · obtain ⟨args, hkind, rfl⟩ := InstrKind.mapOperands_eq_call heq
    exact ⟨args, hkind, List.length_map _⟩
  · rwa [InstrKind.isPhi_mapOperands] at hphi

theorem mapIncoming
    (g : List (Operand × BlockId) → List (Operand × BlockId))
    (kind : InstrKind) :
    kind.Descends (kind.mapIncoming g) := by
  refine ⟨fun callee name args heq =>
    ⟨args, InstrKind.mapIncoming_eq_call heq, rfl⟩, fun hphi => ?_⟩
  rwa [InstrKind.isPhi_mapIncoming] at hphi

end InstrKind.Descends

namespace Function

/-- The second function may have come from the first one by leaving things out. -/
structure Descends (f g : Function) : Prop where
  header_eq : g.header = f.header
  issued_eq : g.nextValue = f.nextValue ∧ g.nextBlock = f.nextBlock
  entry?_eq : g.entry? = f.entry?
  ids : g.blockIds.Sublist f.blockIds
  instrs : ∀ i' ∈ g.instrs, ∃ i ∈ f.instrs, i.kind.Descends i'.kind
  /-- A block has phis only if it had some. -/
  phis : ∀ b' ∈ g.blocks, ∀ i' ∈ b'.instrs, i'.kind.isPhi = true →
    ∃ b ∈ f.blocks, b.id = b'.id ∧ ∃ i ∈ b.instrs, i.kind.isPhi = true

namespace Descends

variable {f g h : Function}

theorem refl
    (f : Function) :
    f.Descends f :=
  ⟨rfl, ⟨rfl, rfl⟩, rfl, .refl _, fun i hi => ⟨i, hi, .refl i.kind⟩, fun b hb i hi hphi =>
    ⟨b, hb, rfl, i, hi, hphi⟩⟩

theorem trans
    (hfg : f.Descends g)
    (hgh : g.Descends h) :
    f.Descends h := by
  refine ⟨hgh.header_eq.trans hfg.header_eq,
    ⟨hgh.issued_eq.1.trans hfg.issued_eq.1, hgh.issued_eq.2.trans hfg.issued_eq.2⟩,
    hgh.entry?_eq.trans hfg.entry?_eq, hgh.ids.trans hfg.ids, ?_, ?_⟩
  · intro i'' hi''
    obtain ⟨i', hi', hkind'⟩ := hgh.instrs i'' hi''
    obtain ⟨i, hi, hkind⟩ := hfg.instrs i' hi'
    exact ⟨i, hi, hkind.trans hkind'⟩
  · intro b'' hb'' i'' hi'' hphi''
    obtain ⟨b', hb', hid', i', hi', hphi'⟩ := hgh.phis b'' hb'' i'' hi'' hphi''
    obtain ⟨b, hb, hid, hphi⟩ := hfg.phis b' hb' i' hi' hphi'
    exact ⟨b, hb, hid.trans hid', hphi⟩

/-- The same steps one after the other. -/
theorem foldl
    {α : Type}
    {step : Function → α → Function}
    (hstep : ∀ g a, Descends g (step g a))
    (as : List α)
    (f : Function) :
    f.Descends (as.foldl step f) := by
  induction as generalizing f with
  | nil => exact .refl f
  | cons a as ih => exact (hstep f a).trans (ih (step f a))

theorem mapBlocks
    (change : Block → Block)
    (hid : ∀ b, (change b).id = b.id)
    (hinstrs : ∀ b, ∀ i' ∈ (change b).instrs, ∃ i ∈ b.instrs, i.kind.Descends i'.kind)
    (f : Function) :
    f.Descends (f.mapBlocks change) := by
  refine ⟨rfl, ⟨rfl, rfl⟩, entry?_mapBlocks hid, by rw [blockIds_mapBlocks hid], ?_, ?_⟩
  · intro i' hi'
    obtain ⟨b', hb', hib'⟩ := mem_instrs_iff.1 hi'
    obtain ⟨b, hb, rfl⟩ := mem_mapBlocks_iff.1 hb'
    obtain ⟨i, hi, hkind⟩ := hinstrs b i' hib'
    exact ⟨i, mem_instrs_iff.2 ⟨b, hb, hi⟩, hkind⟩
  · intro b' hb' i' hi' hphi
    obtain ⟨b, hb, rfl⟩ := mem_mapBlocks_iff.1 hb'
    obtain ⟨i, hi, hkind⟩ := hinstrs b i' hi'
    exact ⟨b, hb, (hid b).symm, i, hi, hkind.phi hphi⟩

theorem mapBlock
    (id : BlockId)
    (change : Block → Block)
    (hid : ∀ b, (change b).id = b.id)
    (hinstrs : ∀ b, ∀ i' ∈ (change b).instrs, ∃ i ∈ b.instrs, i.kind.Descends i'.kind)
    (f : Function) :
    f.Descends (f.mapBlock id change) := by
  refine mapBlocks _ (fun b => ?_) (fun b i' hi' => ?_) f
  · split
    · exact hid b
    · rfl
  · split at hi'
    · exact hinstrs b i' hi'
    · exact ⟨i', hi', .refl i'.kind⟩

theorem mapOperands
    (g : Operand → Operand)
    (f : Function) :
    f.Descends (f.mapBlocks (Block.mapOperands g)) := by
  refine mapBlocks (Block.mapOperands g) (fun _ => rfl) (fun b i' hi' => ?_) f
  obtain ⟨i, hi, rfl⟩ := List.mem_map.1 hi'
  exact ⟨i, hi, .mapOperands g i.kind⟩

theorem mapIncoming
    (id : BlockId)
    (g : List (Operand × BlockId) → List (Operand × BlockId))
    (f : Function) :
    f.Descends (f.mapBlock id (Block.mapIncoming g)) := by
  refine mapBlock id (Block.mapIncoming g) (fun _ => rfl) (fun b i' hi' => ?_) f
  obtain ⟨i, hi, rfl⟩ := List.mem_map.1 hi'
  exact ⟨i, hi, .mapIncoming g i.kind⟩

/-- Instructions are left out. -/
theorem filterInstrs
    (keep : Instr → Bool)
    (f : Function) :
    f.Descends (f.mapBlocks fun b => { b with instrs := b.instrs.filter keep }) :=
  mapBlocks (fun b => { b with instrs := b.instrs.filter keep }) (fun _ => rfl)
    (fun _ i' hi' => ⟨i', (List.mem_filter.1 hi').1, .refl i'.kind⟩) f

/-- Any block but the entry is left out. -/
theorem eraseBlock
    {id : BlockId}
    (hid : f.entry? ≠ some id) :
    f.Descends (f.eraseBlock id) := by
  have hmem : ∀ b ∈ (f.eraseBlock id).blocks, b ∈ f.blocks :=
    fun b hb => (List.mem_filter.1 hb).1
  refine ⟨rfl, ⟨rfl, rfl⟩, ?_, List.filter_sublist.map _, ?_, fun b hb i hi hphi =>
    ⟨b, hmem b hb, rfl, i, hi, hphi⟩⟩
  · unfold Function.entry? Function.eraseBlock at *
    cases hblocks : f.blocks with
    | nil => rfl
    | cons b rest =>
        have hne : b.id ≠ id := by simpa [hblocks] using hid
        simp [hne]
  · intro i hi
    obtain ⟨b, hb, hib⟩ := mem_instrs_iff.1 hi
    exact ⟨i, mem_instrs_iff.2 ⟨b, hmem b hb, hib⟩, .refl i.kind⟩

/-! ## What descends -/

theorem hasBody_eq
    (h : f.Descends g) :
    g.hasBody = f.hasBody := by
  rw [Bool.eq_iff_iff, hasBody_iff_entry?, hasBody_iff_entry?, h.entry?_eq]

theorem entryPlain
    (h : f.Descends g)
    (hids : f.blockIds.Nodup)
    (hplain : Machine.EntryPlain f) :
    Machine.EntryPlain g := by
  intro b' hb' i' hi'
  by_contra hphi
  obtain ⟨b, hb, hid, i, hi, hphi⟩ :=
    h.phis b' (List.mem_of_head? hb') i' hi' (by simpa using hphi)
  obtain ⟨first, hfirst⟩ : ∃ first, f.blocks.head? = some first := by
    cases hblocks : f.blocks with
    | nil => simp [hblocks] at hb
    | cons first rest => exact ⟨first, rfl⟩
  have hentry := h.entry?_eq
  simp only [ entry?, hb', hfirst, Option.map_some, Option.some.injEq] at hentry
  obtain rfl := block_eq_of_id_eq hids hb (List.mem_of_head? hfirst) (hid.trans hentry)
  rw [hplain b hfirst i hi] at hphi
  cases hphi

end Descends

end Function

/-! ## The passes -/

namespace Pass

open ScalarSsa.Function

/-- What the pass makes of a function descends from it. -/
def Gentle (pass : Pass) : Prop :=
  ∀ f : Function, f.Descends (pass.run f).function

theorem descends_exhaust
    {step : Function → Option Function}
    (hstep : ∀ f g, step f = some g → f.Descends g)
    (fuel : Nat)
    (f : Function) :
    f.Descends (exhaust step fuel f) :=
  exhaust_invariant (P := f.Descends) (fun g g' hg h => h.trans (hstep g g' hg))
    fuel f (.refl f)

theorem gentle_folding :
    Pass.folding.Gentle := by
  refine fun f => descends_exhaust (fun f g hg => ?_) f.instrCount f
  obtain ⟨⟨id, o⟩, -, rfl⟩ := Option.map_eq_some_iff.1 hg
  exact (Descends.filterInstrs _ f).trans (.mapOperands _ _)

theorem descends_settle
    (f : Function)
    (id : BlockId) :
    f.Descends (settle f id) := by
  have hjump : ∀ target,
      f.Descends (f.mapBlock id fun b => { b with term := some (.jump target) }) :=
    fun target =>
      .mapBlock id (fun b => { b with term := some (.jump target) }) (fun _ => rfl)
      (fun _ i hi => ⟨i, hi, .refl i.kind⟩) f
  unfold settle
  split
  · exact .refl f
  · next target dropped _ =>
    split
    · exact hjump target
    · exact (hjump target).trans (.mapIncoming _ _ _)

theorem descends_prune
    {f : Function}
    {id : BlockId}
    (hid : f.entry? ≠ some id) :
    f.Descends (prune f id) := by
  unfold prune
  split
  · exact .refl f
  · exact (Descends.eraseBlock hid).trans (.foldl (fun g target => .mapIncoming _ _ g) _ _)

theorem descends_pruneAll
    (f : Function) :
    f.Descends (pruneAll f) := by
  have hentry : ∀ id ∈ unreachable f, f.entry? ≠ some id := by
    intro id hid heq
    have hreach : f.Reachable id := ⟨[], .start heq⟩
    rw [← mem_reachable_iff] at hreach
    simp [unreachable, hreach] at hid
  unfold pruneAll
  -- the blocks to remove are those of the function as it was before the
  -- first one is removed
  suffices hfold : ∀ (ids : List BlockId) (g : Function), f.Descends g →
      (∀ id ∈ ids, f.entry? ≠ some id) →
      f.Descends (ids.foldl prune g) from hfold _ f (.refl f) hentry
  intro ids
  induction ids with
  | nil => exact fun g hg _ => hg
  | cons id ids ih =>
      intro g hg hids
      refine ih (prune g id) (hg.trans (descends_prune ?_)) fun j hj =>
        hids j (List.mem_cons_of_mem _ hj)
      rw [hg.entry?_eq]
      exact hids id List.mem_cons_self

theorem descends_merge
    {f : Function}
    {pred : BlockId}
    {b : Block}
    (hb : b ∈ f.blocks)
    (hentry : f.entry? ≠ some b.id) :
    f.Descends (merge f pred b) := by
  have hjoined : f.Descends ((f.eraseBlock b.id).mapBlock pred fun p =>
      { p with
        instrs := p.instrs ++ b.instrs.filter fun i => !i.kind.isPhi
        term := b.term }) := by
    have herase := Descends.eraseBlock hentry
    have hcases : ∀ c' ∈ ((f.eraseBlock b.id).mapBlock pred fun p =>
        { p with
          instrs := p.instrs ++ b.instrs.filter fun i => !i.kind.isPhi
          term := b.term }).blocks,
        ∃ c ∈ (f.eraseBlock b.id).blocks, c.id = c'.id ∧
          ∀ i ∈ c'.instrs, i ∈ c.instrs ∨ i ∈ b.instrs ∧ i.kind.isPhi = false := by
      intro c' hc'
      obtain ⟨c, hc, rfl⟩ := mem_mapBlocks_iff.1 hc'
      refine ⟨c, hc, ?_, fun i hi => ?_⟩
      · split <;> rfl
      · split at hi
        · simpa using hi
        · exact .inl hi
    have hids : ∀ c : Block,
        (if c.id = pred then
          { c with
            instrs := c.instrs ++ b.instrs.filter fun i => !i.kind.isPhi
            term := b.term }
        else c).id = c.id := by
      intro c
      split <;> rfl
    refine ⟨rfl, ⟨rfl, rfl⟩, (entry?_mapBlocks hids).trans herase.entry?_eq, ?_, ?_, ?_⟩
    · rw [mapBlock, blockIds_mapBlocks hids]
      exact herase.ids
    · intro i hi
      obtain ⟨c', hc', hic'⟩ := mem_instrs_iff.1 hi
      obtain ⟨c, hc, -, hinstrs⟩ := hcases c' hc'
      rcases hinstrs i hic' with hic | ⟨hib, -⟩
      · exact herase.instrs i (mem_instrs_iff.2 ⟨c, hc, hic⟩)
      · exact ⟨i, mem_instrs_iff.2 ⟨b, hb, hib⟩, .refl i.kind⟩
    · intro c' hc' i hi hphi
      obtain ⟨c, hc, hid, hinstrs⟩ := hcases c' hc'
      rcases hinstrs i hi with hic | ⟨-, hplain⟩
      · exact ⟨c, (List.mem_filter.1 hc).1, hid, i, hic, hphi⟩
      · rw [hplain] at hphi
        cases hphi
  unfold merge
  refine hjoined.trans
    (Descends.trans (.foldl (fun g edge => .mapOperands _ g) (phiReplacements b) _)
    (.foldl (fun g target => .mapIncoming _ _ g) b.successors _))

theorem gentle_branches :
    Pass.branches.Gentle := by
  intro f
  have hsettled : f.Descends (settleAll f) := .foldl descends_settle f.blockIds f
  refine (hsettled.trans (descends_pruneAll _)).trans
    (descends_exhaust (fun f g hg => ?_) _ _)
  obtain ⟨⟨pred, b⟩, hmergeable, rfl⟩ := Option.map_eq_some_iff.1 hg
  obtain ⟨c, hc, hfound⟩ := List.exists_of_findSome?_eq_some hmergeable
  obtain ⟨pred', htarget, heq⟩ := Option.map_eq_some_iff.1 hfound
  cases heq
  refine descends_merge hc fun hentry => ?_
  simp [mergeTarget?, hentry] at htarget

theorem gentle_unused :
    Pass.unused.Gentle := by
  intro f
  refine exhaust_invariant (P := fun p : Function × List Note => f.Descends p.1) ?_
    f.instrCount (f, []) (.refl f)
  rintro ⟨g, notes⟩ p hstep hg
  obtain ⟨g', hremoved, rfl⟩ := Option.map_eq_some_iff.1 hstep
  refine hg.trans ?_
  rw [eq_keepUsed_of_removeUnused? hremoved]
  exact .filterInstrs _ g

theorem gentle_of_mem
    {pass : Pass}
    (h : pass ∈ [Pass.folding, Pass.branches, Pass.unused]) :
    pass.Gentle := by
  simp only [List.mem_cons, List.not_mem_nil, or_false] at h
  rcases h with rfl | rfl | rfl
  · exact gentle_folding
  · exact gentle_branches
  · exact gentle_unused

/-- The pass does nothing but drop terminators. -/
def DropsTerminators (pass : Pass) : Prop :=
  ∀ f : Function, ∃ drop : Block → Bool,
    (pass.run f).function = f.mapBlocks fun b => if drop b then
      { b with term := none } else b

theorem DropsTerminators.gentle
    {pass : Pass}
    (h : pass.DropsTerminators) :
    pass.Gentle := by
  intro f
  obtain ⟨drop, hrun⟩ := h f
  rw [hrun]
  refine .mapBlocks _ (fun b => ?_) (fun b i hi => ⟨i, ?_, .refl i.kind⟩) f
  · split <;> rfl
  · split at hi <;> exact hi

/-- A pipeline of such passes is like one of them. -/
theorem descends_pipeline
    {passes : Pipeline}
    (h : ∀ pass ∈ passes, pass.Gentle)
    (f : Function) :
    f.Descends (Pipeline.run passes f).function := by
  suffices hfold : ∀ before : PassResult, f.Descends before.function →
      f.Descends (passes.foldl Pipeline.runPass before).function from
    hfold ⟨f, false, []⟩ (.refl f)
  induction passes with
  | nil => exact fun before hdescends => hdescends
  | cons pass passes ih =>
      intro before hdescends
      refine ih (fun p hp => h p (List.mem_cons_of_mem _ hp))
        (Pipeline.runPass before pass) ?_
      exact hdescends.trans (h pass List.mem_cons_self before.function)

end Pass

end ScalarSsa
