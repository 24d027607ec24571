import ScalarSsa.Proofs.Lowering.Emission
import ScalarSsa.Proofs.Verify.WellFormed

/-!
# Values that are there

**Input.** A function, perhaps still under construction, and a `Supply`: for each block, the
values that are there when it starts.

**Definitions.** A function is `Lawful` for a supply if every use finds its value earlier in
its block or in the supply of its block, and every edge leads to a block that is supplied
with no more than the edge carries.  That is local: a change of one block is checked at that
block, while dominance asks for all trails.

**Results.** `Lawful.dominates`: a block that is supplied with a value is dominated by the
block that computes it.  `Lawful.wellFormed`: a lawful function whose blocks are terminated
is well formed.  `Edited.lawful` and `appendBlock_step`: what has to be checked when a block
is changed, and when one is appended.
-/

namespace ScalarSsa

/-- For each block, the values that are there when it starts. -/
abbrev Supply := BlockId → ValueId → Prop

/-- The supply with values given to one more block. -/
def Supply.give (A : Supply) (id : BlockId) (values : ValueId → Prop) : Supply :=
  fun j v => A j v ∨ j = id ∧ values v

namespace Function

/-- A value is there when a block ends: it came in, or the block computes it. -/
def Supplies (A : Supply) (f : Function) (id : BlockId) (v : ValueId) : Prop :=
  A id v ∨ ∃ b ∈ f.blocks, b.id = id ∧ v ∈ b.results

/--
A call goes to a function of the recorded name that takes as many arguments as it is given.
-/
def CallFound (m : Module) (kind : InstrKind) : Prop :=
  ∀ callee name args, kind = .call callee name args →
    ∃ g, m.function? callee = some g ∧ g.name = name ∧ g.arity = args.length

/--
Every call goes to a function of the recorded name that takes as many
arguments as it is given.
-/
def CallsFound (m : Module) (f : Function) : Prop :=
  ∀ b ∈ f.blocks, ∀ i ∈ b.instrs, CallFound m i.kind

theorem CallsFound.callsMatch
    {m : Module}
    {f : Function}
    (h : f.CallsFound m) :
    CallsMatch m f := by
  intro b hb i hi callee name args hkind
  obtain ⟨g, hg, -, harity⟩ := h b hb i hi callee name args hkind
  exact ⟨g, hg, harity⟩

end Function

/-- The rules for one block; whether it has a terminator is left open. -/
structure Block.Lawful (m : Module) (A : Supply) (f : Function) (b : Block) : Prop where
  fresh : ∀ v ∈ b.results, ¬A b.id v
  uses : ∀ pre i post, b.instrs = pre ++ i :: post → i.kind.isPhi = false →
    ∀ v, .result v ∈ i.kind.operands → v ∈ pre.map (·.dest) ∨ A b.id v
  ends : ∀ v, .result v ∈ b.termOperands → f.Supplies A b.id v
  targets : ∀ target ∈ b.successors, target ∈ f.blockIds
  /-- An edge carries what its target is supplied with. -/
  flows : ∀ target ∈ b.successors, ∀ v, A target v → f.Supplies A b.id v
  typed : ∀ i ∈ b.instrs, ∀ u ∈ i.kind.uses, f.HasType u.1 u.2
  term_typed : ∀ u ∈ b.termUses, f.HasType u.1 u.2
  phis_first : ∀ i ∈ b.body, i.kind.isPhi = false
  edges : ∀ i ∈ b.instrs, ∀ type incoming, i.kind = .phi type incoming →
    ∀ v pred, (.result v, pred) ∈ incoming → f.Supplies A pred v
  calls : ∀ i ∈ b.instrs, Function.CallFound m i.kind

/-- A lawful block stays so with a plain instruction at its end whose operands are there. -/
theorem Block.Lawful.append
    {m : Module}
    {A : Supply}
    {f : Function}
    {b : Block}
    (h : b.Lawful m A f)
    {i : Instr}
    (hplain : i.kind.isPhi = false)
    (hfresh : ¬A b.id i.dest)
    (htyped : ∀ u ∈ i.kind.uses, f.HasType u.1 u.2)
    (huses : ∀ v, .result v ∈ i.kind.operands → v ∈ b.results ∨ A b.id v)
    (hcall : Function.CallFound m i.kind) :
    Block.Lawful m A f { b with instrs := b.instrs ++ [i] } where
  fresh := by
    intro v hv
    simp only [results, List.map_append, List.mem_append, List.map_cons, List.map_nil,
      List.mem_singleton] at hv
    rcases hv with hv | rfl
    · exact h.fresh v hv
    · exact hfresh
  uses := by
    intro pre j post hsplit hj v hv
    rcases List.eq_nil_or_concat post with rfl | ⟨post, last, rfl⟩
    · -- the new instruction: its operands are there at the end of the old block
      obtain ⟨rfl, heq⟩ := List.append_inj' hsplit (by simp)
      obtain rfl : i = j := by simpa using heq
      exact huses v hv
    · have hsplit' : b.instrs ++ [i] = (pre ++ j :: post) ++ [last] := by simpa using hsplit
      exact h.uses pre j post (List.append_inj' hsplit' (by simp)).1 hj v hv
  ends := h.ends
  targets := h.targets
  flows := h.flows
  typed := by
    intro j hj u hu
    rcases List.mem_append.1 hj with hj | hj
    · exact h.typed j hj u hu
    · obtain rfl := List.mem_singleton.1 hj
      exact htyped u hu
  term_typed := h.term_typed
  phis_first := by
    rw [body_plain_iff, List.pairwise_append]
    refine ⟨body_plain_iff.1 h.phis_first, List.pairwise_singleton _ _, ?_⟩
    intro j _ last hlast hphi
    obtain rfl := List.mem_singleton.1 hlast
    simp [hplain] at hphi
  edges := by
    intro j hj type incoming hkind
    rcases List.mem_append.1 hj with hj | hj
    · exact h.edges j hj type incoming hkind
    · obtain rfl := List.mem_singleton.1 hj
      simp [hkind, InstrKind.isPhi] at hplain
  calls := by
    intro j hj
    rcases List.mem_append.1 hj with hj | hj
    · exact h.calls j hj
    · obtain rfl := List.mem_singleton.1 hj
      exact hcall

namespace Function

/-- All blocks keep to the rules, and the supply consists of results of the function. -/
structure Lawful (m : Module) (A : Supply) (f : Function) : Prop where
  results_nodup : f.results.Nodup
  below : ∀ v ∈ f.results, v.number < f.nextValue
  known : ∀ id v, A id v → id ∈ f.blockIds ∧ v ∈ f.results
  blocks : ∀ b ∈ f.blocks, b.Lawful m A f

/-- The phis of every block have edges from its predecessors and from no other block. -/
def PhisMeet (f : Function) : Prop :=
  ∀ b ∈ f.blocks, ∀ i ∈ b.instrs, ∀ type incoming, i.kind = .phi type incoming →
    ∀ pred, pred ∈ incoming.map (·.2) ↔ pred ∈ f.predecessors b.id

/-! ## Dominance -/

namespace Lawful

variable {m : Module} {A : Supply} {f : Function}

theorem mem_results
    (h : f.Lawful m A)
    {id : BlockId}
    {v : ValueId}
    (hv : f.Supplies A id v) :
    v ∈ f.results := by
  rcases hv with hv | ⟨b, hb, -, hmem⟩
  · exact (h.known id v hv).2
  · exact mem_results_iff.2 ⟨b, hb, hmem⟩

/--
A trail to a block that is supplied with a value goes through the block that computes it.
-/
theorem mem_trail
    (h : f.Lawful m A)
    (hentry : ∀ entry, f.entry? = some entry → ∀ v, ¬A entry v)
    {d : Block}
    (hd : d ∈ f.blocks)
    {v : ValueId}
    (hv : v ∈ d.results)
    {id : BlockId}
    {path : List BlockId}
    (htrail : f.Trail (id :: path))
    (hsupply : A id v) :
    d.id ∈ path := by
  generalize hl : id :: path = trail at htrail
  induction htrail generalizing id path with
  | start he =>
      obtain ⟨rfl, -⟩ := List.cons.inj hl
      exact absurd hsupply (hentry _ he v)
  | step htrail edge ih =>
      obtain ⟨rfl, rfl⟩ := List.cons.inj hl
      obtain ⟨b, hb, rfl, htarget⟩ := exists_of_mem_successors edge
      rcases (h.blocks b hb).flows _ htarget v hsupply with hcarried
        | ⟨c, hc, hid, hcomputed⟩
      · exact List.mem_cons_of_mem _ (ih hcarried rfl)
      · obtain rfl := block_eq_of_mem_results h.results_nodup hc hd hcomputed hv
        exact hid ▸ List.mem_cons_self

/--
A block that is supplied with a value is strictly dominated by the block that computes it.
-/
theorem dominates
    (h : f.Lawful m A)
    (hentry : ∀ entry, f.entry? = some entry → ∀ v, ¬A entry v)
    {id : BlockId}
    {v : ValueId}
    (hsupply : A id v) :
    f.ComputedBefore v id := by
  obtain ⟨d, hd, hv⟩ := mem_results_iff.1 (h.known id v hsupply).2
  refine ⟨d, hd, ?_, hv, fun path htrail =>
    List.mem_cons_of_mem _ (h.mem_trail hentry hd hv htrail hsupply)⟩
  rintro rfl
  exact (h.blocks d hd).fresh v hv hsupply

/-- What is there when a block ends is computed on the way to that end. -/
theorem computedBy
    (h : f.Lawful m A)
    (hentry : ∀ entry, f.entry? = some entry → ∀ v, ¬A entry v)
    {id : BlockId}
    {v : ValueId}
    (hv : f.Supplies A id v) :
    f.ComputedBy v id := by
  rcases hv with hv | ⟨b, hb, rfl, hmem⟩
  · obtain ⟨d, hd, -, hmem, hdom⟩ := h.dominates hentry hv
    exact ⟨d, hd, hmem, hdom⟩
  · exact ⟨b, hb, hmem, .refl f b.id⟩

/-- A lawful function whose blocks are all terminated is well formed. -/
theorem wellFormed
    (h : f.Lawful m A)
    (hids : f.blockIds.Nodup)
    (hsupply : ∀ entry, f.entry? = some entry → ∀ v, ¬A entry v)
    (hphis : f.PhisMeet)
    (hentry : ∀ entry, f.entry? = some entry → ∀ b ∈ f.blocks, entry ∉ b.successors)
    (hterm : ∀ b ∈ f.blocks, b.term ≠ none) :
    f.WellFormed where
  ids_nodup := hids
  results_nodup := h.results_nodup
  entry_free := hentry
  terminated := hterm
  targets b hb := (h.blocks b hb).targets
  typed b hb := (h.blocks b hb).typed
  term_typed b hb := (h.blocks b hb).term_typed
  phis_first b hb := (h.blocks b hb).phis_first
  phi_edges := hphis
  uses b hb _ pre i post hsplit hplain v hv :=
    ((h.blocks b hb).uses pre i post hsplit hplain v hv).imp_right (h.dominates hsupply)
  ends b hb _ v hv := h.computedBy hsupply ((h.blocks b hb).ends v hv)
  edges b hb i hi type incoming hkind v pred he _ :=
    h.computedBy hsupply ((h.blocks b hb).edges i hi type incoming hkind v pred he)

end Lawful

theorem mem_predecessors_iff_block?
    {f : Function}
    (hids : f.blockIds.Nodup)
    {id pred : BlockId} :
    pred ∈ f.predecessors id ↔ ∃ b, f.block? pred = some b ∧ id ∈ b.successors := by
  rw [mem_predecessors_iff]
  simp only [block?_eq_some_iff hids, and_assoc]

/-! ## Functions that grow -/

/--
The later function has the blocks of the earlier one with no instruction removed, and
supplies them with the same.
-/
structure Grows (A : Supply) (f : Function) (A' : Supply) (f' : Function) : Prop where
  arity_eq : f'.arity = f.arity
  gives : ∀ id v, A id v → A' id v
  takes : ∀ id ∈ f.blockIds, ∀ v, A' id v → A id v
  instrs : ∀ b ∈ f.blocks, ∃ b' ∈ f'.blocks, b'.id = b.id ∧ ∀ i ∈ b.instrs, i ∈ b'.instrs

namespace Grows

variable {A A' A'' : Supply} {f f' f'' : Function}

theorem refl
    (A : Supply)
    (f : Function) :
    Grows A f A f :=
  ⟨rfl, fun _ _ h => h, fun _ _ _ h => h, fun b hb => ⟨b, hb, rfl, fun _ h => h⟩⟩

theorem blockIds
    (h : Grows A f A' f')
    {id : BlockId}
    (hid : id ∈ f.blockIds) :
    id ∈ f'.blockIds := by
  obtain ⟨b, hb, rfl⟩ := mem_blockIds_iff.1 hid
  obtain ⟨b', hb', hid', -⟩ := h.instrs b hb
  exact mem_blockIds_iff.2 ⟨b', hb', hid'⟩

theorem trans
    (h : Grows A f A' f')
    (h' : Grows A' f' A'' f'') :
    Grows A f A'' f'' := by
  refine ⟨h'.arity_eq.trans h.arity_eq, fun id v hv => h'.gives id v (h.gives id v hv),
    fun id hid v hv => ?_, ?_⟩
  · exact h.takes id hid v (h'.takes id (h.blockIds hid) v hv)
  · intro b hb
    obtain ⟨b', hb', hid', hinstrs'⟩ := h.instrs b hb
    obtain ⟨b'', hb'', hid'', hinstrs''⟩ := h'.instrs b' hb'
    exact ⟨b'', hb'', hid''.trans hid', fun i hi => hinstrs'' i (hinstrs' i hi)⟩

theorem hasType
    (h : Grows A f A' f')
    {o : Operand}
    {type : ValueType}
    (ho : f.HasType o type) :
    f'.HasType o type := by
  cases o with
  | const x => exact ho
  | bool b => exact ho
  | arg position =>
      obtain ⟨hlt, htype⟩ := ho
      exact ⟨by rwa [h.arity_eq], htype⟩
  | result v =>
      obtain ⟨i, hi, hdest, htype⟩ := ho
      obtain ⟨b, hb, hib⟩ := mem_instrs_iff.1 hi
      obtain ⟨b', hb', -, hinstrs⟩ := h.instrs b hb
      exact ⟨i, mem_instrs_iff.2 ⟨b', hb', hinstrs i hib⟩, hdest, htype⟩

theorem supplies
    (h : Grows A f A' f')
    {id : BlockId}
    {v : ValueId}
    (hv : f.Supplies A id v) :
    f'.Supplies A' id v := by
  rcases hv with hv | ⟨b, hb, rfl, hmem⟩
  · exact .inl (h.gives id v hv)
  · obtain ⟨b', hb', hid, hinstrs⟩ := h.instrs b hb
    obtain ⟨i, hi, rfl⟩ := List.mem_map.1 hmem
    exact .inr ⟨b', hb', hid, List.mem_map_of_mem (hinstrs i hi)⟩

/-- A block that did not change still keeps to the rules. -/
theorem lawful_block
    {m : Module}
    (h : Grows A f A' f')
    {b : Block}
    (hb : b ∈ f.blocks)
    (hlawful : b.Lawful m A f) :
    b.Lawful m A' f' where
  fresh v hv hsupply := hlawful.fresh v hv (h.takes b.id (List.mem_map_of_mem hb) v hsupply)
  uses pre i post hsplit hplain v hv :=
    (hlawful.uses pre i post hsplit hplain v hv).imp_right (h.gives b.id v)
  ends v hv := h.supplies (hlawful.ends v hv)
  targets target htarget := h.blockIds (hlawful.targets target htarget)
  flows target htarget v hv :=
    h.supplies
      (hlawful.flows target htarget v
        (h.takes target (hlawful.targets target htarget) v hv))
  typed i hi u hu := h.hasType (hlawful.typed i hi u hu)
  term_typed u hu := h.hasType (hlawful.term_typed u hu)
  phis_first := hlawful.phis_first
  edges i hi type incoming hkind v pred he :=
    h.supplies (hlawful.edges i hi type incoming hkind v pred he)
  calls := hlawful.calls

end Grows

/-! ## One block changed -/

/--
One function is another one with a block exchanged for one that keeps its instructions.
-/
structure Edited (f g : Function) (b c : Block) : Prop where
  mem : b ∈ f.blocks
  blocks : ∀ x, x ∈ g.blocks ↔ x = c ∨ x ∈ f.blocks ∧ x.id ≠ b.id
  ids_eq : g.blockIds = f.blockIds
  params_eq : g.params = f.params
  id_eq : c.id = b.id
  kept : ∀ i ∈ b.instrs, i ∈ c.instrs

theorem mem_mapBlock_iff
    {f : Function}
    (hids : f.blockIds.Nodup)
    {b : Block}
    (hb : b ∈ f.blocks)
    (change : Block → Block)
    (x : Block) :
    x ∈ (f.mapBlock b.id change).blocks ↔ x = change b ∨ x ∈ f.blocks ∧ x.id ≠ b.id := by
  rw [mapBlock, mem_mapBlocks_iff]
  constructor
  · rintro ⟨c, hc, rfl⟩
    by_cases hid : c.id = b.id
    · rw [if_pos hid, block_eq_of_id_eq hids hc hb hid]
      exact .inl rfl
    · rw [if_neg hid]
      exact .inr ⟨hc, hid⟩
  · rintro (rfl | ⟨hx, hid⟩)
    · exact ⟨b, hb, if_pos rfl⟩
    · exact ⟨x, hx, if_neg hid⟩

namespace Edited

variable {m : Module} {A : Supply} {f g : Function} {b c : Block}

theorem grows
    (h : Edited f g b c)
    (hids : f.blockIds.Nodup)
    (A : Supply) :
    Grows A f A g := by
  refine ⟨congrArg List.length h.params_eq, fun _ _ hv => hv, fun _ _ _ hv =>
    hv, fun x hx => ?_⟩
  by_cases hid : x.id = b.id
  · obtain rfl := block_eq_of_id_eq hids hx h.mem hid
    exact ⟨c, (h.blocks c).2 (.inl rfl), h.id_eq, h.kept⟩
  · exact ⟨x, (h.blocks x).2 (.inr ⟨hx, hid⟩), rfl, fun _ hi => hi⟩

theorem mem_results
    (h : Edited f g b c)
    (hids : f.blockIds.Nodup)
    {v : ValueId}
    (hv : v ∈ f.results) :
    v ∈ g.results := by
  obtain ⟨i, hi, rfl⟩ := List.mem_map.1 hv
  obtain ⟨x, hx, hix⟩ := mem_instrs_iff.1 hi
  obtain ⟨y, hy, -, hinstrs⟩ := (h.grows hids fun _ _ => False).instrs x hx
  exact List.mem_map.2 ⟨i, mem_instrs_iff.2 ⟨y, hy, hinstrs i hix⟩, rfl⟩

/--
A lawful function stays so if the changed block is lawful and its new results are new.
-/
theorem lawful
    (h : Edited f g b c)
    (hids : f.blockIds.Nodup)
    (hlawful : f.Lawful m A)
    (hnext : f.nextValue ≤ g.nextValue)
    (hnodup : c.results.Nodup)
    (hnew : ∀ v ∈ c.results, v ∈ b.results ∨ v ∉ f.results)
    (hbelow : ∀ v ∈ c.results, v.number < g.nextValue)
    (hc : c.Lawful m A g) :
    g.Lawful m A := by
  have hgids : g.blockIds.Nodup := by
    rw [h.ids_eq]
    exact hids
  -- no other block has a result of the changed one
  have hapart : ∀ x ∈ f.blocks, x.id ≠ b.id → ∀ v ∈ x.results, v ∉ c.results := by
    intro x hx hid v hv hvc
    rcases hnew v hvc with hvb | hvf
    · exact hid
        (congrArg Block.id (block_eq_of_mem_results hlawful.results_nodup hx h.mem hv hvb))
    · exact hvf (mem_results_iff.2 ⟨x, hx, hv⟩)
  refine ⟨(results_nodup_iff hgids).2 ⟨?_, ?_⟩, ?_, ?_, ?_⟩
  · intro x hx
    rcases (h.blocks x).1 hx with rfl | ⟨hx, -⟩
    · exact hnodup
    · exact results_nodup_of_mem hlawful.results_nodup hx
  · intro x hx y hy hne v hv hv'
    rcases (h.blocks x).1 hx with rfl | ⟨hx, hid⟩
    · rcases (h.blocks y).1 hy with rfl | ⟨hy, hid'⟩
      · exact hne rfl
      · exact hapart y hy hid' v hv' hv
    · rcases (h.blocks y).1 hy with rfl | ⟨hy, hid'⟩
      · exact hapart x hx hid v hv hv'
      · exact hne (block_eq_of_mem_results hlawful.results_nodup hx hy hv hv')
  · intro v hv
    obtain ⟨x, hx, hvx⟩ := mem_results_iff.1 hv
    rcases (h.blocks x).1 hx with rfl | ⟨hx, -⟩
    · exact hbelow v hvx
    · exact Nat.lt_of_lt_of_le (hlawful.below v (mem_results_iff.2 ⟨x, hx, hvx⟩)) hnext
  · intro id v hv
    obtain ⟨hid, hresult⟩ := hlawful.known id v hv
    exact ⟨h.ids_eq ▸ hid, h.mem_results hids hresult⟩
  · intro x hx
    rcases (h.blocks x).1 hx with rfl | ⟨hx, -⟩
    · exact hc
    · exact (h.grows hids A).lawful_block hx (hlawful.blocks x hx)

end Edited

/-! ## One block appended -/

section Append

variable {m : Module} {A : Supply} {f : Function} (label : String) {values : ValueId → Prop}

/-- The supply of an appended block is free to choose. -/
theorem grows_appendBlock
    (hnew : .ofCount f.nextBlock ∉ f.blockIds) :
    Grows A f (A.give (.ofCount f.nextBlock) values) (f.appendBlock label) := by
  refine ⟨rfl, fun _ _ hv => .inl hv, fun id hid v hv => ?_, fun b hb => ?_⟩
  · rcases hv with hv | ⟨rfl, -⟩
    · exact hv
    · exact absurd hid hnew
  · exact ⟨b, List.mem_append_left _ hb, rfl, fun _ hi => hi⟩

/-- Names are issued in order, so the name of an appended block is new. -/
theorem ofCount_not_mem_blockIds
    (hbelow : ∀ id ∈ f.blockIds, id.number < f.nextBlock)
    (hbound : f.nextBlock < UInt32.size) :
    .ofCount f.nextBlock ∉ f.blockIds := by
  intro hmem
  have hlt := hbelow _ hmem
  rw [BlockId.number_ofCount hbound] at hlt
  omega

theorem below_appendBlock
    (hbelow : ∀ id ∈ f.blockIds, id.number < f.nextBlock)
    (hbound : f.nextBlock < UInt32.size) :
    ∀ id ∈ (f.appendBlock label).blockIds, id.number < (f.appendBlock label).nextBlock := by
  intro id hid
  rw [blockIds_appendBlock, List.mem_append, List.mem_singleton] at hid
  change id.number < f.nextBlock + 1
  rcases hid with hid | rfl
  · exact Nat.lt_succ_of_lt (hbelow id hid)
  · rw [BlockId.number_ofCount hbound]
    omega

theorem lawful_appendBlock
    (hlawful : f.Lawful m A)
    (hnew : .ofCount f.nextBlock ∉ f.blockIds)
    (hvalues : ∀ v, values v → v ∈ f.results) :
    (f.appendBlock label).Lawful m (A.give (.ofCount f.nextBlock) values) := by
  have hresults := f.results_appendBlock label
  have hgrows : Grows A f (A.give (.ofCount f.nextBlock) values) (f.appendBlock label) :=
    grows_appendBlock label hnew
  refine ⟨hresults ▸ hlawful.results_nodup, fun v hv =>
    hlawful.below v (hresults ▸ hv), ?_, ?_⟩
  · rintro id v (hv | ⟨rfl, hv⟩)
    · obtain ⟨hid, hmem⟩ := hlawful.known id v hv
      exact ⟨hgrows.blockIds hid, hresults ▸ hmem⟩
    · exact ⟨by simp [blockIds_appendBlock], hresults ▸ hvalues v hv⟩
  · intro b hb
    rcases List.mem_append.1 hb with hb | hb
    · exact hgrows.lawful_block hb (hlawful.blocks b hb)
    · obtain rfl := List.mem_singleton.1 hb
      constructor <;> simp [Block.empty, Block.results, Block.termOperands,
        Block.successors, Block.termUses, Block.body]

theorem phisMeet_appendBlock
    (h : f.PhisMeet) :
    (f.appendBlock label).PhisMeet := by
  intro b hb i hi type incoming hkind pred
  have hpreds : (f.appendBlock label).predecessors b.id = f.predecessors b.id := by
    simp [predecessors, appendBlock, Block.empty, Block.successors]
  rw [hpreds]
  rcases List.mem_append.1 hb with hb | hb
  · exact h b hb i hi type incoming hkind pred
  · obtain rfl := List.mem_singleton.1 hb
    simp [Block.empty] at hi

/-- What appending a block with a supply of known values leaves as it was. -/
theorem appendBlock_step
    (hlawful : f.Lawful m A)
    (hphis : f.PhisMeet)
    (hbelow : ∀ id ∈ f.blockIds, id.number < f.nextBlock)
    (hvalues : ∀ v, values v → v ∈ f.results)
    (hbound : f.nextBlock < UInt32.size) :
    (f.appendBlock label).Lawful m (A.give (.ofCount f.nextBlock) values) ∧
      (f.appendBlock label).PhisMeet ∧
      (∀ id ∈ (f.appendBlock label).blockIds, id.number < (f.appendBlock label).nextBlock) ∧
      (∀ v, values v → v ∈ (f.appendBlock label).results) ∧
      Grows A f (A.give (.ofCount f.nextBlock) values) (f.appendBlock label) := by
  have hnew := ofCount_not_mem_blockIds hbelow hbound
  refine ⟨lawful_appendBlock label hlawful hnew hvalues, phisMeet_appendBlock label hphis,
    below_appendBlock label hbelow hbound, ?_, grows_appendBlock label hnew⟩
  rw [results_appendBlock]
  exact hvalues

end Append

end Function

end ScalarSsa
