import Mathlib.Data.List.Flatten
import Mathlib.Data.List.Perm.Subperm
import ScalarSsa.Proofs.Ssa.Building

/-!
# Numbered functions

**Input.** A function under construction, well formed or not.

**Definitions.** A function is `Numbered` if no two of its blocks and no two of its results
share a number, and all of them were issued.  `PhisFirst` says that no phi has another
instruction before it.  `Fills` has a rule for each change that the builder makes to the
inside of a function.

**Results.** Appending a block and filling blocks keep both, as long as there are numbers
left, and do not touch a block that has its terminator.
-/

namespace ScalarSsa

namespace Function

variable {f g : Function}

/-- Blocks and results have different numbers, and none that was not issued. -/
structure Numbered (f : Function) : Prop where
  ids_nodup : f.blockIds.Nodup
  ids_below : ∀ id ∈ f.blockIds, id.number < f.nextBlock
  results_nodup : f.results.Nodup
  results_below : ∀ v ∈ f.results, v.number < f.nextValue

/-- In every block the phis stand before all other instructions. -/
def PhisFirst (f : Function) : Prop :=
  ∀ b ∈ f.blocks, b.instrs.Pairwise fun i j => j.kind.isPhi = true → i.kind.isPhi = true

theorem results_mapBlocks_sublist
    {change : Block → Block}
    (h : ∀ b ∈ f.blocks, (change b).results.Sublist b.results) :
    (f.mapBlocks change).results.Sublist f.results := by
  rw [results_eq_flatMap, results_eq_flatMap]
  simp only [mapBlocks, List.flatMap_map]
  exact List.Sublist.flatMap_right _ h

/-- A block that gets more results gives the function no more than these. -/
theorem results_mapBlock
    (hids : f.blockIds.Nodup)
    {id : BlockId}
    {change : Block → Block}
    {more : List ValueId}
    (hmore : ∀ b ∈ f.blocks, (change b).results.Subperm (b.results ++ more)) :
    (f.mapBlock id change).results.Subperm (f.results ++ more) := by
  rw [results_eq_flatMap, results_eq_flatMap]
  simp only [mapBlock, mapBlocks, List.flatMap_map]
  rw [blockIds] at hids
  revert hids hmore
  induction f.blocks with
  | nil => exact fun _ _ => List.nil_subperm
  | cons b rest ih =>
      intro hids hmore
      rw [List.map_cons, List.nodup_cons] at hids
      rw [List.flatMap_cons, List.flatMap_cons]
      by_cases hb : b.id = id
      · -- no other block bears the name
        have hrest : rest.flatMap (fun c => (if c.id = id then change c else c).results) =
            rest.flatMap Block.results := by
          refine List.flatMap_congr fun c hc => ?_
          rw [if_neg fun hc' => hids.1 (List.mem_map.2 ⟨c, hc, hc'.trans hb.symm⟩)]
        rw [if_pos hb, hrest]
        refine ((hmore b List.mem_cons_self).append (List.Subperm.refl _)).trans
          (List.Perm.subperm ?_)
        rw [List.append_assoc, List.append_assoc]
        exact List.perm_append_comm.append_left _
      · rw [if_neg hb, List.append_assoc]
        exact (List.subperm_append_left _).2 (ih hids.2 fun c hc =>
          hmore c (List.mem_cons_of_mem _ hc))

/-- A block and all others together hold all results of a function. -/
theorem results_eraseBlock_perm
    (hids : f.blockIds.Nodup)
    {b : Block}
    (hb : b ∈ f.blocks) :
    (b.results ++ (f.eraseBlock b.id).results).Perm f.results := by
  have herase : (f.eraseBlock b.id).blocks = f.blocks.erase b := by
    rw [(List.Nodup.of_map _ hids).erase_eq_filter]
    refine List.filter_congr fun c hc => ?_
    rw [Bool.eq_iff_iff, bne_iff_ne, bne_iff_ne, not_iff_not]
    exact ⟨block_eq_of_id_eq hids hc hb, congrArg _⟩
  rw [results_eq_flatMap, results_eq_flatMap, herase, ← List.flatMap_cons]
  exact (List.perm_cons_erase hb).symm.flatMap_right _

theorem nodup_of_subperm
    {values values' : List ValueId}
    (h : values.Subperm values')
    (hnodup : values'.Nodup) :
    values.Nodup := by
  obtain ⟨sub, hperm, hsub⟩ := h
  exact hperm.nodup_iff.1 (hnodup.sublist hsub)

theorem PhisFirst.mapBlock
    (h : f.PhisFirst)
    (id : BlockId)
    {change : Block → Block}
    (hchange : ∀ b ∈ f.blocks,
      b.instrs.Pairwise (fun i j => j.kind.isPhi = true → i.kind.isPhi = true) →
      (change b).instrs.Pairwise fun i j => j.kind.isPhi = true → i.kind.isPhi = true) :
    (f.mapBlock id change).PhisFirst := by
  intro b' hb'
  obtain ⟨b, hb, rfl⟩ := mem_mapBlocks_iff.1 hb'
  split
  · exact hchange b hb (h b hb)
  · exact h b hb

/--
The function has its phis first, and if it issued fewer numbers than there
are, it is numbered.
-/
structure Sound (f : Function) : Prop where
  phisFirst : f.PhisFirst
  numbered : f.nextBlock < UInt32.size → f.nextValue < UInt32.size → f.Numbered

theorem Sound.declaration
    (id : FuncId)
    (name : String)
    (params : List String) :
    (Function.declaration id name params).Sound := by
  refine ⟨?_, fun _ _ => ⟨List.nodup_nil, ?_, List.nodup_nil, ?_⟩⟩
  · intro b hb
    cases hb
  · intro id hid
    cases hid
  · intro v hv
    cases hv

/-! ## Appended blocks -/

theorem Sound.appendBlock
    (h : f.Sound)
    (label : String) :
    (f.appendBlock label).Sound := by
  refine ⟨?_, fun hblocks hvalues => ?_⟩
  · intro b hb
    rcases List.mem_append.1 hb with hb | hb
    · exact h.phisFirst b hb
    · rw [List.mem_singleton.1 hb]
      exact List.Pairwise.nil
  · have hfits : f.nextBlock < UInt32.size := Nat.lt_of_succ_lt hblocks
    have hn := h.numbered hfits hvalues
    refine ⟨?_, ?_, ?_, ?_⟩
    · rw [blockIds_appendBlock]
      refine List.nodup_append.2 ⟨hn.ids_nodup, by simp, fun id hid id' hid' heq => ?_⟩
      -- the new number was not issued before
      have hlt := hn.ids_below id hid
      rw [heq, List.mem_singleton.1 hid', BlockId.number_ofCount hfits] at hlt
      omega
    · intro id hid
      change id.number < f.nextBlock + 1
      rw [blockIds_appendBlock] at hid
      rcases List.mem_append.1 hid with hid | hid
      · have hlt := hn.ids_below id hid
        omega
      · rw [List.mem_singleton.1 hid, BlockId.number_ofCount hfits]
        omega
    · rw [results_appendBlock]
      exact hn.results_nodup
    · intro v hv
      rw [results_appendBlock] at hv
      exact hn.results_below v hv

end Function

/-! ## Inserted instructions -/

namespace Block

theorem results_insert
    (b : Block)
    (i : Instr) :
    (b.insert i).results.Perm (b.results ++ [i.dest]) := by
  unfold insert
  split
  · simp only [results, List.map_append, List.map_cons]
    conv_rhs => rw [← b.phis_append_body, List.map_append, List.append_assoc]
    exact List.Perm.append_left _ (List.perm_append_singleton _ _).symm
  · simp [results]

/-- A phi goes behind the phis, and any other instruction to the end. -/
theorem pairwise_insert
    {b : Block}
    (h : b.instrs.Pairwise fun i j => j.kind.isPhi = true → i.kind.isPhi = true)
    (i : Instr) :
    (b.insert i).instrs.Pairwise fun i j => j.kind.isPhi = true → i.kind.isPhi = true := by
  have hbody := body_plain_iff.2 h
  unfold insert
  split
  · next hi =>
    rw [← b.phis_append_body, List.pairwise_append] at h
    refine List.pairwise_append.2 ⟨h.1, List.pairwise_cons.2 ⟨fun _ _ _ => hi, h.2.1⟩, ?_⟩
    exact fun j hj _ _ _ => isPhi_of_mem_phis hj
  · next hi =>
    refine List.pairwise_append.2 ⟨h, List.pairwise_singleton _ _, fun _ _ j hj hphi => ?_⟩
    rw [List.mem_singleton.1 hj] at hphi
    exact absurd hphi hi

end Block

namespace Function

variable {f g : Function}

/-- A change that the builder makes to the inside of a function. -/
inductive Fills : Function → Function → Prop
  | wasted {f : Function} :
      Fills f f.issueValue
  | pushed {f : Function} {block : BlockId}
      (hopen : f.openError? block = none)
      (kind : InstrKind) :
      Fills f (Site.push ⟨f, block⟩ kind).func
  | closed {f : Function} {block : BlockId}
      (hopen : f.openError? block = none)
      (term : Terminator) :
      Fills f (Site.close ⟨f, block⟩ term).func

/-- The function with a block that has its terminator still has it as it is. -/
def KeepsTerminated (f g : Function) : Prop :=
  ∀ (place : Nat) (b : Block), f.blocks[place]? = some b → b.isTerminated = true →
    g.blocks[place]? = some b

/-- Only a block that is open is changed. -/
theorem keepsTerminated_mapBlock
    (hids : f.blockIds.Nodup)
    {block : BlockId}
    (hopen : f.openError? block = none)
    (change : Block → Block) :
    f.KeepsTerminated (f.mapBlock block change) := by
  intro place b hb hterm
  have hne : b.id ≠ block := by
    rintro rfl
    have hfound := (block?_eq_some_iff hids).2 ⟨List.mem_of_getElem? hb, rfl⟩
    simp [openError?, hfound, hterm] at hopen
  simp [mapBlock, mapBlocks, hb, hne]

theorem keepsTerminated_appendBlock
    (f : Function)
    (label : String) :
    f.KeepsTerminated (f.appendBlock label) := by
  intro place b hb _
  have hlt := (List.getElem?_eq_some_iff.1 hb).1
  rw [appendBlock, List.getElem?_append_left hlt, hb]

namespace Fills

theorem id_eq
    (h : f.Fills g) :
    g.id = f.id := by
  cases h <;> rfl

theorem nextBlock_eq
    (h : f.Fills g) :
    g.nextBlock = f.nextBlock := by
  cases h <;> rfl

theorem nextValue_le
    (h : f.Fills g) :
    f.nextValue ≤ g.nextValue := by
  cases h with
  | wasted => exact Nat.le_succ _
  | pushed _ _ => exact Nat.le_succ _
  | closed _ _ => exact Nat.le_refl _

theorem blockIds_eq
    (h : f.Fills g) :
    g.blockIds = f.blockIds := by
  cases h with
  | wasted => rfl
  | pushed _ kind => exact blockIds_mapBlock (f := f.issueValue) (Block.id_insert _)
  | closed _ term => exact blockIds_mapBlock fun _ => rfl

theorem keepsTerminated
    (h : f.Fills g)
    (hids : f.blockIds.Nodup) :
    f.KeepsTerminated g := by
  cases h with
  | wasted => exact fun _ _ hb _ => hb
  | pushed hopen kind => exact keepsTerminated_mapBlock hids hopen _
  | closed hopen term => exact keepsTerminated_mapBlock hids hopen _

theorem phisFirst
    (h : f.Fills g)
    (hphis : f.PhisFirst) :
    g.PhisFirst := by
  cases h with
  | wasted => exact hphis
  | pushed _ kind => exact hphis.mapBlock _ fun b _ hb => Block.pairwise_insert hb _
  | closed _ term => exact hphis.mapBlock _ fun _ _ hb => hb

/-- The results are those from before, and perhaps the next one. -/
theorem results_subperm
    (h : f.Fills g)
    (hids : f.blockIds.Nodup) :
    g.results.Subperm f.results ∨
      g.nextValue = f.nextValue + 1 ∧
      g.results.Subperm (f.results ++ [.ofCount f.nextValue]) := by
  cases h with
  | wasted => exact .inl (List.Subperm.refl _)
  | pushed _ kind =>
      exact .inr ⟨rfl, results_mapBlock (f := f.issueValue) hids fun b _ =>
        (b.results_insert _).subperm⟩
  | closed _ term =>
      refine .inl (results_mapBlocks_sublist fun b _ => ?_).subperm
      split <;> exact List.Sublist.refl b.results

theorem sound
    (h : f.Fills g)
    (hf : f.Sound) :
    g.Sound := by
  refine ⟨h.phisFirst hf.phisFirst, fun hblocks hvalues => ?_⟩
  have hle := h.nextValue_le
  have hn := hf.numbered (h.nextBlock_eq ▸ hblocks) (by omega)
  have hids : g.blockIds.Nodup := h.blockIds_eq ▸ hn.ids_nodup
  have hidsBelow : ∀ id ∈ g.blockIds, id.number < g.nextBlock := by
    rw [h.blockIds_eq, h.nextBlock_eq]
    exact hn.ids_below
  rcases h.results_subperm hn.ids_nodup with hresults | ⟨hnext, hresults⟩
  · refine ⟨hids, hidsBelow, nodup_of_subperm hresults hn.results_nodup, fun v hv => ?_⟩
    have hlt := hn.results_below v (hresults.subset hv)
    omega
  · have hnumber : (ValueId.ofCount f.nextValue).number = f.nextValue :=
      ValueId.number_ofCount (by omega)
    refine ⟨hids, hidsBelow, nodup_of_subperm hresults ?_, fun v hv => ?_⟩
    · refine List.nodup_append.2 ⟨hn.results_nodup, by simp, fun v hv v' hv' heq => ?_⟩
      have hlt := hn.results_below v hv
      rw [heq, List.mem_singleton.1 hv', hnumber] at hlt
      omega
    · rcases List.mem_append.1 (hresults.subset hv) with hv | hv
      · have hlt := hn.results_below v hv
        omega
      · rw [List.mem_singleton.1 hv, hnumber]
        omega

end Fills

end Function

end ScalarSsa
