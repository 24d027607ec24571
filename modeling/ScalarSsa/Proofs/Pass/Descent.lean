import Mathlib.Algebra.BigOperators.Group.List.Basic
import Mathlib.Algebra.Order.BigOperators.Group.List
import ScalarSsa.Proofs.Pass.Remains
import ScalarSsa.Proofs.Pass.Trimming

/-!
# The passes come to an end and tell whether they changed anything

**Input.** A function, well formed or not, whose blocks have different names, and a list of
the three passes.

**Definitions.** The `size` of a function is the number of its instructions, blocks and
branches together.  What a pass reports is `Truthful` if the function is the same when no
change is reported, and smaller when one is.  A pass `Completes` if each of its loops is
left because there is nothing more to do; no bound on their rounds is part of this.

**Results.** Every single step of a pass makes a function smaller (`size_foldOnce?`,
`size_removeUnused?`, `size_mergeOnce?`, and `size_settle_lt` and `size_prune_lt` where
there is something to do).  So the loops end, the passes are truthful, and a list of passes
can bring a change only as often as the size allows (`Pipeline.run_descends`).
-/

namespace ScalarSsa

/-! ## The size of a function -/

/-- The terminator is a branch. -/
def Terminator.isBranch : Terminator → Bool
  | .branch .. => true
  | _ => false

@[simp] theorem Terminator.isBranch_mapOperands
    (g : Operand → Operand)
    (term : Terminator) :
    (term.mapOperands g).isBranch = term.isBranch := by
  cases term <;> rfl

namespace Block

/-- The block ends in a branch. -/
def isBranching (b : Block) : Bool :=
  b.term.any Terminator.isBranch

/-- The share of a block in the size of its function. -/
def size (b : Block) : Nat :=
  b.instrs.length + 1 + b.isBranching.toNat

@[simp] theorem size_mapOperands
    (g : Operand → Operand)
    (b : Block) :
    (b.mapOperands g).size = b.size := by
  simp [size, isBranching, mapOperands, Option.any_map]

@[simp] theorem size_mapIncoming
    (g : List (Operand × BlockId) → List (Operand × BlockId))
    (b : Block) :
    (b.mapIncoming g).size = b.size := by
  simp [size, isBranching, mapIncoming]

@[simp] theorem isBranching_rewrite
    (keep : Instr → Bool)
    (change : Operand → Operand)
    (b : Block) :
    (b.rewrite keep change).isBranching = b.isBranching := by
  simp [isBranching, rewrite, mapOperands, Option.any_map]

theorem size_jump
    {b : Block}
    {target : BlockId}
    (hterm : b.term = some (.jump target)) :
    b.size = b.instrs.length + 1 := by
  simp [size, isBranching, hterm, Terminator.isBranch]

theorem size_branch
    {b : Block}
    {cond : Operand}
    {thenBlock elseBlock : BlockId}
    (hterm : b.term = some (.branch cond thenBlock elseBlock)) :
    b.size = b.instrs.length + 2 := by
  simp [size, isBranching, hterm, Terminator.isBranch]

end Block

namespace Function

variable {f g : Function}

/-- The number of instructions, blocks and branches together. -/
def size (f : Function) : Nat :=
  f.instrCount + f.blocks.length + f.blocks.countP Block.isBranching

theorem size_eq_sum
    (f : Function) :
    f.size = (f.blocks.map Block.size).sum := by
  unfold size instrCount instrs
  induction f.blocks with
  | nil => rfl
  | cons b rest ih =>
      have hbranching : (if b.isBranching = true then 1 else 0) = b.isBranching.toNat := by
        cases b.isBranching <;> rfl
      rw [List.map_cons, List.sum_cons, ← ih, List.flatMap_cons, List.length_append,
        List.length_cons, List.countP_cons,
        hbranching, Block.size]
      omega

theorem size_mapBlocks_lt
    {change : Block → Block}
    (h : ∀ b ∈ f.blocks, (change b).size ≤ b.size)
    {b : Block}
    (hb : b ∈ f.blocks)
    (hlt : (change b).size < b.size) :
    (f.mapBlocks change).size < f.size := by
  rw [size_eq_sum, size_eq_sum, mapBlocks, List.map_map]
  exact List.sum_lt_sum _ _ h ⟨b, hb, hlt⟩

theorem size_mapBlocks_eq
    {change : Block → Block}
    (h : ∀ b : Block, (change b).size = b.size)
    (f : Function) :
    (f.mapBlocks change).size = f.size := by
  rw [size_eq_sum, size_eq_sum, mapBlocks, List.map_map]
  exact congrArg List.sum (List.map_congr_left fun b _ => h b)

theorem instrCount_rewrite
    (keep : Instr → Bool)
    (change : Operand → Operand)
    (f : Function) :
    (f.rewrite keep change).instrCount = (f.instrs.filter keep).length := by
  simp [instrCount, instrs, rewrite, mapBlocks, List.flatMap_map, Block.instrs_rewrite,
    List.filter_flatMap,
    List.length_flatMap]

/-- Instructions that are removed are all that a rewriting saves. -/
theorem size_rewrite_lt
    {keep : Instr → Bool}
    {change : Operand → Operand}
    (h : (f.rewrite keep change).instrCount < f.instrCount) :
    (f.rewrite keep change).size < f.size := by
  have hlength : (f.rewrite keep change).blocks.length = f.blocks.length :=
    List.length_map _
  have hbranching : (f.rewrite keep change).blocks.countP Block.isBranching =
      f.blocks.countP Block.isBranching := by
    simp [rewrite, mapBlocks, List.countP_map, Function.comp_def]
  rw [size, size, hlength, hbranching]
  omega

@[simp] theorem size_replaceUses
    (f : Function)
    (source target : Operand) :
    (f.replaceUses source target).size = f.size :=
  size_mapBlocks_eq (Block.size_mapOperands _) f

theorem size_mapBlock_mapIncoming
    (f : Function)
    (id : BlockId)
    (change : List (Operand × BlockId) → List (Operand × BlockId)) :
    (f.mapBlock id (Block.mapIncoming change)).size = f.size := by
  refine size_mapBlocks_eq (fun b => ?_) f
  split
  · exact b.size_mapIncoming change
  · rfl

@[simp] theorem size_dropEdges
    (f : Function)
    (id pred : BlockId) :
    (f.dropEdges id pred).size = f.size :=
  f.size_mapBlock_mapIncoming id _

@[simp] theorem size_retargetEdges
    (f : Function)
    (id source target : BlockId) :
    (f.retargetEdges id source target).size = f.size :=
  f.size_mapBlock_mapIncoming id _

theorem size_foldl_eq
    {α : Type}
    {step : Function → α → Function}
    (hstep : ∀ g a, (step g a).size = g.size)
    (as : List α)
    (f : Function) :
    (as.foldl step f).size = f.size := by
  induction as generalizing f with
  | nil => rfl
  | cons a as ih => rw [List.foldl_cons, ih, hstep]

theorem size_foldl_le
    {α : Type}
    {step : Function → α → Function}
    (hstep : ∀ g a, (step g a).size ≤ g.size)
    (as : List α)
    (f : Function) :
    (as.foldl step f).size ≤ f.size := by
  induction as generalizing f with
  | nil => exact Nat.le_refl _
  | cons a as ih => exact (ih (step f a)).trans (hstep f a)

/--
Without a block a function is smaller by that block, or by more if the name is not its own.
-/
theorem size_eraseBlock_add
    {b : Block}
    (hb : b ∈ f.blocks) :
    (f.eraseBlock b.id).size + b.size ≤ f.size := by
  have habsent : b ∉ (f.eraseBlock b.id).blocks := by simp [eraseBlock]
  have hsublist : (f.eraseBlock b.id).blocks.Sublist (f.blocks.erase b) := by
    rw [← List.erase_of_not_mem habsent]
    exact List.filter_sublist.erase b
  have hsum := (hsublist.map Block.size).sum_le_sum fun _ _ => Nat.zero_le _
  rw [size_eq_sum, size_eq_sum, ← List.sum_map_erase Block.size hb]
  omega

/-- A change to a block changes the size of the function by as much. -/
theorem size_mapBlock_add
    (hids : f.blockIds.Nodup)
    {b : Block}
    (hb : b ∈ f.blocks)
    (change : Block → Block) :
    (f.mapBlock b.id change).size + b.size = f.size + (change b).size := by
  obtain ⟨pre, post, hsplit⟩ := List.append_of_mem hb
  rw [blockIds, hsplit, List.map_append, List.map_cons, List.nodup_middle,
    List.nodup_cons, ← List.map_append] at hids
  have hothers : ∀ c ∈ pre ++ post, (if c.id = b.id then change c else c) = c := by
    intro c hc
    exact if_neg fun hid => hids.1 (List.mem_map.2 ⟨c, hc, hid⟩)
  have hpre : (pre.map fun c => if c.id = b.id then change c else c) = pre :=
    (List.map_congr_left fun c hc => hothers c (List.mem_append_left _ hc)).trans
      (List.map_id _)
  have hpost : (post.map fun c => if c.id = b.id then change c else c) = post :=
    (List.map_congr_left fun c hc => hothers c (List.mem_append_right _ hc)).trans
      (List.map_id _)
  rw [size_eq_sum, size_eq_sum, mapBlock, mapBlocks, hsplit]
  simp only [List.map_append, List.map_cons, hpre, hpost, if_true,
    List.sum_append, List.sum_cons]
  omega

end Function

namespace Pass

open ScalarSsa.Function

variable {f g : Function}

/-! ## Single steps -/

/-- A fold removes the instruction that is folded. -/
theorem instrCount_foldOnce?
    (h : foldOnce? f = some g) :
    g.instrCount < f.instrCount := by
  obtain ⟨i, hi, o, -, rfl⟩ := foldOnce?_eq_some h
  rw [substitute, instrCount_rewrite]
  exact List.length_filter_lt_length_iff_exists.2 ⟨i, hi, by simp⟩

theorem size_foldOnce?
    (h : foldOnce? f = some g) :
    g.size < f.size := by
  have hcount := instrCount_foldOnce? h
  obtain ⟨i, -, o, -, rfl⟩ := foldOnce?_eq_some h
  exact size_rewrite_lt hcount

theorem size_removeUnused?
    (h : removeUnused? f = some g) :
    g.size < f.size := by
  have hcount := instrCount_removeUnused? h
  rw [eq_keepUsed_of_removeUnused? h, keepUsed_eq_rewrite] at hcount ⊢
  exact size_rewrite_lt hcount

theorem settle_of_none
    {id : BlockId}
    (h : (f.block? id).bind settled? = none) :
    settle f id = f := by
  simp [settle, h]

theorem size_settle_lt
    {id : BlockId}
    (h : (f.block? id).bind settled? ≠ none) :
    (settle f id).size < f.size := by
  obtain ⟨⟨target, dropped⟩, hfound⟩ := Option.ne_none_iff_exists'.1 h
  obtain ⟨b, hfirst, hsettled⟩ := Option.bind_eq_some_iff.1 hfound
  obtain ⟨hb, rfl⟩ := mem_of_block?_eq_some hfirst
  obtain ⟨cond, thenBlock, elseBlock, hterm, -⟩ := settled?_eq_some hsettled
  have hjump : (f.mapBlock b.id fun c => { c with term := some (.jump target) }).size <
    f.size := by
    refine size_mapBlocks_lt (fun c _ => ?_) hb ?_
    · split
      · rw [Block.size_jump rfl, Block.size]
        exact Nat.le_add_right _ _
      · exact Nat.le_refl _
    · rw [if_pos rfl, Block.size_jump rfl, Block.size_branch hterm]
      exact Nat.lt_succ_self _
  simp only [settle, hfound]
  split
  · exact hjump
  · rwa [size_dropEdges]

theorem prune_of_not_mem
    {id : BlockId}
    (h : id ∉ f.blockIds) :
    prune f id = f := by
  simp [prune, block?_eq_none_iff.2 h]

theorem size_prune_lt
    {id : BlockId}
    (h : id ∈ f.blockIds) :
    (prune f id).size < f.size := by
  cases hfound : f.block? id with
  | none => exact absurd h (block?_eq_none_iff.1 hfound)
  | some b =>
      obtain ⟨hb, rfl⟩ := mem_of_block?_eq_some hfound
      simp only [prune, hfound]
      rw [size_foldl_eq fun g target => g.size_dropEdges target b.id]
      have hadd := size_eraseBlock_add hb
      have hpos : 0 < b.size := by
        rw [Block.size]
        omega
      omega

/-- A merge removes at least the jump to the block that is merged. -/
theorem size_merge_lt
    (hids : f.blockIds.Nodup)
    {pred : BlockId}
    {b : Block}
    (h : f.Mergeable pred b) :
    (merge f pred b).size < f.size := by
  obtain ⟨p, hp, rfl, hterm⟩ := h.upper
  unfold merge
  rw [size_foldl_eq fun g target => g.size_retargetEdges target b.id p.id,
    size_foldl_eq fun g (replacement : ValueId × Operand) => g.size_replaceUses _ _]
  have hp' : p ∈ (f.eraseBlock b.id).blocks := List.mem_filter.2 ⟨hp, by simpa using h.ne⟩
  have herased := size_eraseBlock_add h.mem
  have hjoined :=
    size_mapBlock_add (hids.sublist (Trims.eraseBlock b.id f).ids) hp' fun p =>
    { p with instrs := p.instrs ++ b.instrs.filter fun i => !i.kind.isPhi, term := b.term }
  have hmoved := List.length_filter_le (fun i => !i.kind.isPhi) b.instrs
  rw [Block.size_jump hterm] at hjoined
  simp only [Block.size, Block.isBranching, List.length_append] at hjoined herased
  omega

theorem size_mergeOnce?
    (hids : f.blockIds.Nodup)
    (h : mergeOnce? f = some g) :
    g.blockIds.Nodup ∧ g.size < f.size := by
  obtain ⟨pred, b, hmergeable, rfl⟩ := mergeOnce?_eq_some h
  exact ⟨hids.sublist (trims_merge hmergeable.mem pred).ids, size_merge_lt hids hmergeable⟩

/-! ## Steps for one block after the other -/

section Blockwise

variable {step : Function → BlockId → Function} {active : Function → BlockId → Prop}

theorem foldl_of_idle
    (hidle : ∀ g id, ¬ active g id → step g id = g)
    {ids : List BlockId}
    (h : ∀ id ∈ ids, ¬ active f id) :
    ids.foldl step f = f := by
  induction ids with
  | nil => rfl
  | cons id ids ih =>
      rw [List.foldl_cons, hidle f id (h id List.mem_cons_self)]
      exact ih fun other hother => h other (List.mem_cons_of_mem _ hother)

/-- The first block that there is something to do for makes the function smaller. -/
theorem size_foldl_lt
    (hidle : ∀ g id, ¬ active g id → step g id = g)
    (hactive : ∀ g id, active g id → (step g id).size < g.size)
    {ids : List BlockId}
    (h : ∃ id ∈ ids, active f id) :
    (ids.foldl step f).size < f.size := by
  have hstep : ∀ g id, (step g id).size ≤ g.size := by
    intro g id
    by_cases hid : active g id
    · exact (hactive g id hid).le
    · rw [hidle g id hid]
  induction ids with
  | nil => simp at h
  | cons id ids ih =>
      rw [List.foldl_cons]
      by_cases hid : active f id
      · exact (size_foldl_le hstep ids (step f id)).trans_lt (hactive f id hid)
      · rw [hidle f id hid]
        refine ih ?_
        obtain ⟨other, hother, hsettled⟩ := h
        rcases List.mem_cons.1 hother with rfl | hother
        · exact absurd hsettled hid
        · exact ⟨other, hother, hsettled⟩

end Blockwise

/-! ## What is reported -/

/--
Without a change that is reported the function is the same, and with one it is smaller.
-/
structure Truthful (f : Function) (changed : Bool) (g : Function) : Prop where
  same : changed = false → g = f
  smaller : changed = true → g.size < f.size

namespace Truthful

variable {h : Function} {changed changed' : Bool}

theorem refl
    (f : Function) :
    Truthful f false f :=
  ⟨fun _ => rfl, nofun⟩

theorem le
    (hfg : Truthful f changed g) :
    g.size ≤ f.size := by
  cases changed with
  | false => rw [hfg.same rfl]
  | true => exact (hfg.smaller rfl).le

/-- One change after another one. -/
theorem trans
    (hfg : Truthful f changed g)
    (hgh : Truthful g changed' h) :
    Truthful f (changed || changed') h := by
  constructor
  · intro hnone
    obtain ⟨hfirst, hsecond⟩ := Bool.or_eq_false_iff.1 hnone
    rw [hgh.same hsecond, hfg.same hfirst]
  · intro hsome
    rcases Bool.or_eq_true_iff.1 hsome with hfirst | hsecond
    · exact hgh.le.trans_lt (hfg.smaller hfirst)
    · exact (hgh.smaller hsecond).trans_le hfg.le

/-- A function is the same exactly if no change is reported. -/
theorem changed_eq_false_iff
    (hfg : Truthful f changed g) :
    changed = false ↔ g = f := by
  refine ⟨hfg.same, fun hsame => ?_⟩
  cases changed with
  | false => rfl
  | true =>
      have hsmaller := hfg.smaller rfl
      rw [hsame] at hsmaller
      exact absurd hsmaller (Nat.lt_irrefl _)

/--
A loop whose rounds all make the function smaller changes something exactly if
there is a first round.
-/
theorem of_exhausts
    {α : Type}
    {step : α → Option α}
    {P : α → Prop}
    (view : α → Function)
    (hstep : ∀ a b, step a = some b → P a → P b ∧ (view b).size < (view a).size)
    {a b : α}
    (hab : Exhausts step a b)
    (ha : P a) :
    Truthful (view a) (step a).isSome (view b) := by
  rcases hab.eq_or_lt (fun a => (view a).size) hstep ha with ⟨hnone, rfl⟩ | ⟨hsome, hless⟩
  · rw [hnone]
    exact .refl _
  · rw [hsome]
    exact ⟨nofun, fun _ => hless⟩

end Truthful

theorem truthful_settleAll
    (hids : f.blockIds.Nodup) :
    Truthful f (f.blocks.any fun b => (settled? b).isSome) (settleAll f) := by
  have hidle : ∀ (g : Function) id, ¬ (g.block? id).bind settled? ≠ none →
      settle g id = g :=
    fun g id hid => settle_of_none (not_not.1 hid)
  constructor
  · intro hnone
    refine foldl_of_idle hidle fun id _ => not_not.2 ?_
    cases hfound : f.block? id with
    | none => rfl
    | some b =>
        have hb := List.any_eq_false.1 hnone b (mem_of_block?_eq_some hfound).1
        simpa using hb
  · intro hsome
    obtain ⟨b, hb, hsettled⟩ := List.any_eq_true.1 hsome
    refine size_foldl_lt hidle (fun g id => size_settle_lt)
      ⟨b.id, List.mem_map_of_mem hb, ?_⟩
    rw [(block?_eq_some_iff hids).2 ⟨hb, rfl⟩, Option.bind_some]
    exact Option.isSome_iff_ne_none.1 hsettled

theorem truthful_pruneAll
    (f : Function) :
    Truthful f (!(unreachable f).isEmpty) (pruneAll f) := by
  constructor
  · intro hnone
    have hempty : unreachable f = [] := by simpa using hnone
    simp [pruneAll, hempty]
  · intro hsome
    have hmem : ∀ id ∈ unreachable f, id ∈ f.blockIds :=
      fun id hid => (mem_unreachable_iff.1 hid).1
    obtain ⟨id, hid⟩ := List.exists_mem_of_ne_nil (unreachable f) (by simpa using hsome)
    exact size_foldl_lt (fun g id => prune_of_not_mem) (fun g id => size_prune_lt)
      ⟨id, hid, hmem id hid⟩

/-! ## Loops end by themselves -/

/-- Successors are followed from the blocks to do until there are none left. -/
inductive Searches (next : BlockId → List BlockId) :
    (todo found result : List BlockId) → Prop
  | stop {found : List BlockId} :
      Searches next [] found found
  | seen {id : BlockId} {todo found result : List BlockId}
      (hid : id ∈ found)
      (rest : Searches next todo found result) :
      Searches next (id :: todo) found result
  | new {id : BlockId} {todo found result : List BlockId}
      (hid : id ∉ found)
      (rest : Searches next (next id ++ todo) (id :: found) result) :
      Searches next (id :: todo) found result

theorem searches_search
    (next : BlockId → List BlockId)
    (domain : Finset BlockId)
    (hdomain : ∀ b, b ∉ domain → next b = [])
    (fuel : Nat)
    (todo found : List BlockId)
    (hfuel : pending next domain todo found ≤ fuel) :
    Searches next todo found (search next fuel todo found) := by
  fun_induction search next fuel todo found with
  | case1 todo found =>
      have hzero : todo = [] := by
        apply List.eq_nil_of_length_eq_zero
        simp only [pending] at hfuel
        omega
      subst hzero
      exact .stop
  | case2 fuel found => exact .stop
  | case3 fuel id todo found hid ih =>
      have hless := pending_found next domain id todo found
      exact .seen (by simpa using hid) (ih (by omega))
  | case4 fuel id todo found hid ih =>
      have hnew : id ∉ found := by simpa using hid
      have hless := pending_new next domain hdomain todo hnew
      exact .new hnew (ih (by omega))

theorem searches_reachable
    (f : Function) :
    Searches f.successors f.entry?.toList [] f.reachable :=
  searches_search f.successors f.blockIds.toFinset (fun c hc =>
    f.successors_eq_nil (by simpa using hc)) _ _ _
    f.pending_le_searchBound

theorem exhausts_foldOnce?
    (f : Function) :
    Exhausts foldOnce? f (exhaust foldOnce? f.instrCount f) :=
  exhausts_exhaust (P := fun _ => True) instrCount (fun _ _ hstep _ =>
    ⟨trivial, instrCount_foldOnce? hstep⟩) _ f trivial
    (Nat.le_refl _)

/-- A merge leaves one block less. -/
theorem length_merge_lt
    {pred : BlockId}
    {b : Block}
    (h : f.Mergeable pred b) :
    (merge f pred b).blocks.length < f.blocks.length := by
  rw [merge, foldl_retargetEdges _ h.ne, foldl_replaceUses]
  simp only [mapBlocks, mapBlock, eraseBlock, List.length_map]
  exact List.length_filter_lt_length_iff_exists.2 ⟨b, h.mem, by simp⟩

theorem exhausts_mergeOnce?
    (f : Function) :
    Exhausts mergeOnce? f (exhaust mergeOnce? f.blocks.length f) := by
  refine exhausts_exhaust (P := fun _ => True) (fun g => g.blocks.length)
    (fun g g' hstep _ => ⟨trivial, ?_⟩) _ f trivial
    (Nat.le_refl _)
  obtain ⟨pred, b, hmergeable, rfl⟩ := mergeOnce?_eq_some hstep
  exact length_merge_lt hmergeable

/--
What a pass makes of a function when it goes on for as long as there is something to do.
-/
inductive Completes : Pass → Function → Function → Prop
  | folding {f g : Function}
      (h : Exhausts foldOnce? f g) :
      Completes folding f g
  | branches {f g : Function} {found : List BlockId}
      (hfound : Searches (settleAll f).successors
        (Function.entry? (settleAll f)).toList [] found)
      (h : Exhausts mergeOnce?
        (((settleAll f).blockIds.filter fun id => !found.contains id).foldl prune
          (settleAll f)) g) :
      Completes branches f g
  | unused {f g : Function} {notes : List Note}
      (h : Exhausts removeUnusedNoting? (f, []) (g, notes)) :
      Completes unused f g

/-! ## The passes -/

variable {pass : Pass}

theorem completes_of_mem
    (h : pass ∈ [folding, branches, unused])
    (f : Function) :
    pass.Completes f (pass.run f).function := by
  simp only [List.mem_cons, List.not_mem_nil, or_false] at h
  rcases h with rfl | rfl | rfl
  · exact .folding (exhausts_foldOnce? f)
  · exact .branches (searches_reachable (settleAll f))
      (exhausts_mergeOnce? (pruneAll (settleAll f)))
  · exact .unused (exhausts_removeUnusedNoting? f)

theorem truthful_folding
    (f : Function) :
    Truthful f (folding.run f).changed (folding.run f).function :=
  .of_exhausts (P := fun _ => True) id (fun _ _ hstep _ => ⟨trivial, size_foldOnce? hstep⟩)
    (exhausts_foldOnce? f) trivial

theorem truthful_unused
    (f : Function) :
    Truthful f (unused.run f).changed (unused.run f).function := by
  have hround : ∀ a b, removeUnusedNoting? a = some b → True →
      True ∧ b.1.size < a.1.size := by
    rintro ⟨g, notes⟩ b hstep -
    obtain ⟨g', hround, rfl⟩ := Option.map_eq_some_iff.1 hstep
    exact ⟨trivial, size_removeUnused? hround⟩
  have htruthful :=
    Truthful.of_exhausts (P := fun _ => True) Prod.fst hround
      (exhausts_removeUnusedNoting? f) trivial
  rwa [removeUnusedNoting?, Option.isSome_map] at htruthful

theorem truthful_branches
    (hids : f.blockIds.Nodup) :
    Truthful f (branches.run f).changed (branches.run f).function := by
  have hsettled : (settleAll f).blockIds.Nodup :=
    hids.sublist (Trims.foldl trims_settle f.blockIds f).ids
  have hpruned : (pruneAll (settleAll f)).blockIds.Nodup :=
    hsettled.sublist (Trims.foldl trims_prune _ _).ids
  have hmerged :=
    Truthful.of_exhausts (P := fun g => g.blockIds.Nodup) id (fun _ _ hstep hg =>
      size_mergeOnce? hg hstep)
    (exhausts_mergeOnce? (pruneAll (settleAll f))) hpruned
  exact ((truthful_settleAll hids).trans (truthful_pruneAll (settleAll f))).trans hmerged

theorem truthful_of_mem
    (h : pass ∈ [folding, branches, unused])
    (hids : f.blockIds.Nodup) :
    Truthful f (pass.run f).changed (pass.run f).function := by
  simp only [List.mem_cons, List.not_mem_nil, or_false] at h
  rcases h with rfl | rfl | rfl
  · exact truthful_folding f
  · exact truthful_branches hids
  · exact truthful_unused f

theorem nodup_of_mem
    (h : pass ∈ [folding, branches, unused])
    (hids : f.blockIds.Nodup) :
    (pass.run f).function.blockIds.Nodup := by
  simp only [List.mem_cons, List.not_mem_nil, or_false] at h
  rcases h with rfl | rfl | rfl
  · exact hids.sublist (trims_folding f).ids
  · exact hids.sublist (trims_branches f).ids
  · exact hids.sublist (trims_unused f).ids

end Pass

/-! ## Lists of passes -/

namespace Pipeline

open Pass

/--
What passes make of a function one after the other, each for as long as there
is something to do.
-/
inductive Completes : Pipeline → Function → Function → Prop
  | nil {f : Function} :
      Completes [] f f
  | cons {pass : Pass} {passes : Pipeline} {f g h : Function}
      (first : pass.Completes f g)
      (rest : Completes passes g h) :
      Completes (pass :: passes) f h

/-- Runs all passes once more, if that changes anything. -/
def again? (passes : Pipeline) (f : Function) : Option Function :=
  if (passes.run f).changed then some (passes.run f).function else none

section Lists

variable {passes : Pipeline} {f : Function}

/-- What passes do after others adds up with what those have done. -/
theorem completes_foldl
    (hpasses : ∀ pass ∈ passes, pass ∈ [folding, branches, unused])
    (before : PassResult)
    (hids : before.function.blockIds.Nodup)
    (hbefore : Truthful f before.changed before.function) :
    Completes passes before.function (passes.foldl runPass before).function ∧
      Truthful f (passes.foldl runPass before).changed
        (passes.foldl runPass before).function ∧
      (passes.foldl runPass before).function.blockIds.Nodup := by
  induction passes generalizing before with
  | nil => exact ⟨.nil, hbefore, hids⟩
  | cons pass passes ih =>
      have hpass := hpasses pass List.mem_cons_self
      have hrest : ∀ p ∈ passes, p ∈ [folding, branches, unused] :=
        fun p hp => hpasses p (List.mem_cons_of_mem _ hp)
      obtain ⟨hcompletes, htruthful, hnodup⟩ :=
        ih hrest (runPass before pass) (nodup_of_mem hpass hids)
          (hbefore.trans (truthful_of_mem hpass hids))
      exact ⟨.cons (completes_of_mem hpass before.function) hcompletes, htruthful, hnodup⟩

theorem again?_eq_some
    (hpasses : ∀ pass ∈ passes, pass ∈ [folding, branches, unused])
    (hids : f.blockIds.Nodup)
    {g : Function}
    (h : passes.again? f = some g) :
    g.blockIds.Nodup ∧ g.size < f.size := by
  obtain ⟨-, htruthful, hnodup⟩ := completes_foldl hpasses ⟨f, false, []⟩ hids (.refl f)
  unfold again? at h
  split at h
  · next hchanged =>
      cases h
      exact ⟨hnodup, htruthful.smaller hchanged⟩
  · cases h

/--
The passes of any list run on any function whose blocks have different names, well formed or
not.  Each of their loops ends because there is nothing more to do.  They report no change
exactly if the function is then the very same.  The number of instructions, blocks and
branches together never grows, and gets smaller whenever a change is reported.  So it bounds
how often the list can be run until no change is reported, and it then is run to that end.
-/
theorem run_descends
    (passes : Pipeline)
    (hpasses : ∀ pass ∈ passes, pass ∈ [folding, branches, unused])
    (f : Function)
    (hids : f.blockIds.Nodup) :
    Completes passes f (passes.run f).function ∧
    ((passes.run f).changed = false ↔ (passes.run f).function = f) ∧
    (passes.run f).function.size ≤ f.size ∧
    ((passes.run f).changed = true → (passes.run f).function.size < f.size) ∧
    Exhausts passes.again? f (exhaust passes.again? f.size f) := by
  obtain ⟨hcompletes, htruthful, -⟩ := completes_foldl hpasses ⟨f, false, []⟩ hids (.refl f)
  refine ⟨hcompletes, htruthful.changed_eq_false_iff, htruthful.le, htruthful.smaller, ?_⟩
  exact exhausts_exhaust (P := fun g => g.blockIds.Nodup) Function.size
    (fun g g' hstep hg => again?_eq_some hpasses hg hstep)
    f.size f hids (Nat.le_refl _)

end Lists

/--
A result that is given twice, one that is not given at all, a block that is missing and a
terminator that is missing.
-/
def ruined : Function where
  id := ⟨0⟩
  name := "ruined"
  params := []
  blocks :=
    [⟨⟨0⟩, "entry",
        [⟨⟨0⟩, .arith .add (.const 1.0) (.const 2.0)⟩,
          ⟨⟨0⟩, .arith .mul (.result ⟨9⟩) (.arg 4)⟩],
        some (.branch (.bool false) ⟨7⟩ ⟨1⟩)⟩,
      ⟨⟨1⟩, "open", [⟨⟨1⟩, .phi .bool []⟩, ⟨⟨2⟩, .call ⟨5⟩ "nobody" [.result ⟨0⟩]⟩], none⟩,
      ⟨⟨2⟩, "island", [], some (.jump ⟨2⟩)⟩]
  nextValue := 0
  nextBlock := 0

theorem ruined_descends :
    ruined.size = 8 ∧
      (run standard ruined).changed = true ∧
      Completes standard ruined (run standard ruined).function ∧
      (run standard ruined).function ≠ ruined ∧
      (run standard ruined).function.size < 8 ∧
      Exhausts (again? standard) ruined (exhaust (again? standard) 8 ruined) := by
  have hsize : ruined.size = 8 := by decide
  have hchanged : (run standard ruined).changed = true := by decide +kernel
  obtain ⟨hcompletes, hiff, -, hsmaller, hrepeated⟩ :=
    run_descends standard (by simp [standard]) ruined (by decide)
  rw [hsize] at hsmaller hrepeated
  refine ⟨hsize, hchanged, hcompletes, fun hsame => ?_, hsmaller hchanged, hrepeated⟩
  rw [hiff.2 hsame] at hchanged
  cases hchanged

end Pipeline

end ScalarSsa
