import ScalarSsa.Proofs.Verify.WellFormed

/-!
# Removing instructions and replacing operands

**Input.** A well-formed function, the instructions to keep, and what
becomes of each operand.

**Definitions.** `Function.rewrite` leaves blocks and branches alone, so trails and
dominance stay as they are.  `Function.Stands` says when an operand may stand for another
one: its definition is kept, and it is either the same result or defined in a block that
strictly dominates the other's definition.

**Results.** `WellFormed.rewrite`: if every operand that is left stands for the one that it
replaces, the function is still well formed.
-/

namespace ScalarSsa

/--
The block with only the instructions that `keep` holds of, and with every operand changed.
-/
def Block.rewrite (keep : Instr → Bool) (change : Operand → Operand) (b : Block) : Block :=
  Block.mapOperands change { b with instrs := b.instrs.filter keep }

/-- The instruction with every operand changed. -/
def Instr.mapOperands (change : Operand → Operand) (i : Instr) : Instr :=
  { i with kind := i.kind.mapOperands change }

namespace Block

variable {keep : Instr → Bool} {change : Operand → Operand} {b : Block}

@[simp] theorem rewrite_id : (b.rewrite keep change).id = b.id :=
  rfl

theorem instrs_rewrite :
    (b.rewrite keep change).instrs =
      (b.instrs.filter keep).map (Instr.mapOperands change) :=
  rfl

theorem results_rewrite :
    (b.rewrite keep change).results = (b.instrs.filter keep).map (·.dest) := by
  simp [results, instrs_rewrite, Function.comp_def, Instr.mapOperands]

theorem mem_results_rewrite
    {v : ValueId} :
    v ∈ (b.rewrite keep change).results ↔ ∃ i ∈ b.instrs, i.dest = v ∧ keep i = true := by
  simp only [results_rewrite, List.mem_map, List.mem_filter]
  constructor
  · rintro ⟨i, ⟨hi, hkeep⟩, hdest⟩
    exact ⟨i, hi, hdest, hkeep⟩
  · rintro ⟨i, hi, hdest, hkeep⟩
    exact ⟨i, ⟨hi, hkeep⟩, hdest⟩

@[simp] theorem successors_rewrite :
    (b.rewrite keep change).successors = b.successors := by
  simp only [successors, rewrite, mapOperands]
  cases b.term <;> simp

theorem term_rewrite_ne_none :
    (b.rewrite keep change).term ≠ none ↔ b.term ≠ none := by
  simp [rewrite, mapOperands]

theorem termOperands_rewrite :
    (b.rewrite keep change).termOperands = b.termOperands.map change := by
  simp only [termOperands, rewrite, mapOperands]
  cases b.term <;> simp

theorem termUses_rewrite :
    (b.rewrite keep change).termUses = b.termUses.map fun u => (change u.1, u.2) := by
  simp only [termUses, rewrite, mapOperands]
  cases b.term <;> simp

/-- A splitting of the kept instructions comes from one of all instructions. -/
theorem split_of_rewrite
    {pre post : List Instr}
    {i : Instr}
    (h : (b.rewrite keep change).instrs = pre ++ i :: post) :
    ∃ pre' i' post', b.instrs = pre' ++ i' :: post' ∧ keep i' = true ∧
      i'.mapOperands change = i ∧
      pre.map (·.dest) = (pre'.filter keep).map (·.dest) := by
  rw [instrs_rewrite] at h
  obtain ⟨left, right, hfilter, rfl, hright⟩ := List.map_eq_append_iff.mp h
  obtain ⟨i', post', rfl, rfl, -⟩ := List.map_eq_cons_iff.mp hright
  obtain ⟨l, r, hsplit, rfl, hr⟩ := List.filter_eq_append_iff.mp hfilter
  obtain ⟨skipped, r', rfl, hskipped, hkeep, -⟩ := List.filter_eq_cons_iff.mp hr
  refine ⟨l ++ skipped, i', r', by simp [hsplit], hkeep, rfl, ?_⟩
  have hnil : skipped.filter keep = [] := List.filter_eq_nil_iff.mpr hskipped
  simp [hnil, Function.comp_def, Instr.mapOperands]

end Block

namespace Function

variable {f : Function} {keep : Instr → Bool} {change : Operand → Operand}

/--
The function with only the instructions that `keep` holds of, and with
every operand changed.
-/
def rewrite (f : Function) (keep : Instr → Bool) (change : Operand → Operand) : Function :=
  f.mapBlocks (Block.rewrite keep change)

theorem blockIds_rewrite : (f.rewrite keep change).blockIds = f.blockIds :=
  blockIds_mapBlocks fun _ => rfl

theorem entry?_rewrite : Function.entry? (f.rewrite keep change) = f.entry? :=
  entry?_mapBlocks fun _ => rfl

theorem successors_rewrite
    (id : BlockId) :
    (f.rewrite keep change).successors id = f.successors id :=
  successors_mapBlocks (fun _ => Block.rewrite_id) (fun _ => Block.successors_rewrite) id

theorem predecessors_rewrite
    (id : BlockId) :
    (f.rewrite keep change).predecessors id = f.predecessors id :=
  predecessors_mapBlocks (fun _ => Block.rewrite_id) (fun _ => Block.successors_rewrite) id

theorem reachable_of_rewrite
    {b : BlockId}
    (h : (f.rewrite keep change).Reachable b) :
    f.Reachable b :=
  h.mono (by simp [entry?_rewrite]) (by simp [successors_rewrite])

theorem Dominates.rewrite
    {upper lower : BlockId}
    (h : f.Dominates upper lower) :
    (f.rewrite keep change).Dominates upper lower :=
  h.anti (by simp [entry?_rewrite]) (by simp [successors_rewrite])

/-- The instruction that defines a value is kept. -/
def Kept (f : Function) (keep : Instr → Bool) (v : ValueId) : Prop :=
  ∀ i ∈ f.instrs, i.dest = v → keep i = true

theorem mem_results_of_kept
    {b : Block}
    (hb : b ∈ f.blocks)
    {v : ValueId}
    (hv : v ∈ b.results)
    (hkept : f.Kept keep v) :
    v ∈ (b.rewrite keep change).results := by
  obtain ⟨i, hi, hdest⟩ := List.mem_map.mp hv
  exact Block.mem_results_rewrite.mpr
    ⟨i, hi, hdest, hkept i (mem_instrs_iff.mpr ⟨b, hb, hi⟩) hdest⟩

theorem HasType.rewrite
    {o : Operand}
    {type : ValueType}
    (h : f.HasType o type)
    (hkept : ∀ v, o = .result v → f.Kept keep v) :
    (f.rewrite keep change).HasType o type := by
  cases o with
  | const x => exact h
  | bool b => exact h
  | arg position => exact h
  | result v =>
      obtain ⟨i, hi, hdest, htype⟩ := h
      obtain ⟨b, hb, hib⟩ := mem_instrs_iff.mp hi
      refine ⟨i.mapOperands change, ?_, hdest, by simp [Instr.mapOperands, htype]⟩
      refine mem_instrs_iff.mpr ⟨b.rewrite keep change, List.mem_map_of_mem hb, ?_⟩
      exact List.mem_map_of_mem (List.mem_filter.mpr ⟨hib, hkept v rfl i hi hdest⟩)

theorem ComputedBy.rewrite
    {v : ValueId}
    {id : BlockId}
    (h : f.ComputedBy v id)
    (hkept : f.Kept keep v) :
    (f.rewrite keep change).ComputedBy v id := by
  obtain ⟨d, hd, hv, hdom⟩ := h
  exact ⟨d.rewrite keep change, List.mem_map_of_mem hd,
    mem_results_of_kept hd hv hkept, hdom.rewrite⟩

theorem ComputedBefore.rewrite
    {v : ValueId}
    {id : BlockId}
    (h : f.ComputedBefore v id)
    (hkept : f.Kept keep v) :
    (f.rewrite keep change).ComputedBefore v id := by
  obtain ⟨d, hd, hne, hv, hdom⟩ := h
  exact ⟨d.rewrite keep change, List.mem_map_of_mem hd, hne,
    mem_results_of_kept hd hv hkept, hdom.rewrite⟩

/--
The definition of `w` strictly dominates the definition of `v`, unless
that is never reached.
-/
def Precedes (f : Function) (w v : ValueId) : Prop :=
  ∃ upper ∈ f.blocks, ∃ lower ∈ f.blocks, w ∈ upper.results ∧ v ∈ lower.results ∧
    (f.Reachable lower.id → upper.id ≠ lower.id ∧ f.Dominates upper.id lower.id)

/-- An operand may stand for another one. -/
structure Stands (f : Function) (keep : Instr → Bool) (old new : Operand) : Prop where
  typed : ∀ type, f.HasType old type → f.HasType new type
  kept : ∀ w, new = .result w → f.Kept keep w
  ordered : ∀ w, new = .result w → old = .result w ∨ ∃ v, old = .result v ∧ f.Precedes w v

/-- A value that precedes another one is computed wherever the other one is. -/
theorem Precedes.computedBy
    (hresults : f.results.Nodup)
    {w v : ValueId}
    (h : f.Precedes w v)
    {id : BlockId}
    (hreach : f.Reachable id)
    (hv : f.ComputedBy v id) :
    f.ComputedBy w id := by
  obtain ⟨upper, hupper, lower, hlower, hw, hv', hdom⟩ := h
  obtain ⟨d, hd, hvd, hdomd⟩ := hv
  obtain rfl := block_eq_of_mem_results hresults hd hlower hvd hv'
  exact ⟨upper, hupper, hw, (hdom (hdomd.reachable hreach)).2.trans hdomd⟩

/--
A value that precedes another one is computed before every block that the other
one is computed by.
-/
theorem Precedes.computedBefore
    (hresults : f.results.Nodup)
    {w v : ValueId}
    (h : f.Precedes w v)
    {id : BlockId}
    (hreach : f.Reachable id)
    (hv : f.ComputedBy v id) :
    f.ComputedBefore w id := by
  obtain ⟨upper, hupper, lower, hlower, hw, hv', hdom⟩ := h
  obtain ⟨d, hd, hvd, hdomd⟩ := hv
  obtain rfl := block_eq_of_mem_results hresults hd hlower hvd hv'
  obtain ⟨hne, hupper_dom⟩ := hdom (hdomd.reachable hreach)
  refine ⟨upper, hupper, ?_, hw, hupper_dom.trans hdomd⟩
  -- the upper block is not the one at hand, or the two definitions would be in one block
  rintro rfl
  exact hne (hupper_dom.antisymm hdomd (hdomd.reachable hreach))

/-- What is computed when an operand's old value was, for an operand that stands for it. -/
theorem Stands.computedBy
    (hwf : f.WellFormed)
    {old : Operand}
    {w : ValueId}
    (h : f.Stands keep old (.result w))
    {id : BlockId}
    (hreach : f.Reachable id)
    (hold : ∀ v, old = .result v → f.ComputedBy v id) :
    (f.rewrite keep change).ComputedBy w id := by
  refine ComputedBy.rewrite ?_ (h.kept w rfl)
  rcases h.ordered w rfl with hsame | ⟨v, hv, hprec⟩
  · exact hold w hsame
  · exact hprec.computedBy hwf.results_nodup hreach (hold v hv)

/-! ## Well-formedness, rule by rule -/

theorem forall_mem_rewrite
    {P : Block → Prop}
    (h : ∀ b ∈ f.blocks, P (b.rewrite keep change)) :
    ∀ b ∈ (f.rewrite keep change).blocks, P b := by
  intro b hb
  obtain ⟨c, hc, rfl⟩ := mem_mapBlocks_iff.mp hb
  exact h c hc

theorem Stands.hasType
    {o : Operand}
    {type : ValueType}
    (h : f.Stands keep o (change o))
    (hold : f.HasType o type) :
    (f.rewrite keep change).HasType (change o) type :=
  (h.typed type hold).rewrite h.kept

theorem phis_first_rewrite
    {b : Block}
    (h : ∀ i ∈ b.body, i.kind.isPhi = false) :
    ∀ i ∈ (b.rewrite keep change).body, i.kind.isPhi = false := by
  rw [Block.body_plain_iff] at h ⊢
  rw [Block.instrs_rewrite, List.pairwise_map]
  exact (h.sublist List.filter_sublist).imp (by simp [Instr.mapOperands])

section Rules

variable
  (hwf : f.WellFormed)
  (hinstrs : ∀ b ∈ f.blocks, ∀ i ∈ b.instrs, keep i = true → ∀ o ∈ i.kind.operands,
    f.Stands keep o (change o))
  (hends : ∀ b ∈ f.blocks, ∀ o ∈ b.termOperands, f.Stands keep o (change o))

include hwf

theorem results_nodup_rewrite :
    (f.rewrite keep change).results.Nodup := by
  have hids : (f.rewrite keep change).blockIds.Nodup := by
    rw [blockIds_rewrite]
    exact hwf.ids_nodup
  refine results_nodup_of_origins hwf.results_nodup hids (forall_mem_rewrite fun b hb =>
    ⟨b, hb, rfl, ?_⟩)
  rw [Block.results_rewrite]
  exact List.filter_sublist.map _

theorem phi_edges_rewrite
    {b : Block}
    (hb : b ∈ f.blocks)
    {i : Instr}
    (hi : i ∈ (b.rewrite keep change).instrs)
    {type : ValueType}
    {incoming : List (Operand × BlockId)}
    (hkind : i.kind = .phi type incoming)
    (pred : BlockId) :
    pred ∈ incoming.map (·.2) ↔ pred ∈ (f.rewrite keep change).predecessors b.id := by
  obtain ⟨j, hj, rfl⟩ := List.mem_map.mp hi
  have hjb := (List.mem_filter.mp hj).1
  obtain ⟨old, hold, rfl⟩ := InstrKind.mapOperands_eq_phi hkind
  rw [predecessors_rewrite, List.map_map]
  exact hwf.phi_edges b hb j hjb type old hold pred

include hinstrs

theorem typed_rewrite
    {b : Block}
    (hb : b ∈ f.blocks)
    {i : Instr}
    (hi : i ∈ (b.rewrite keep change).instrs)
    {u : Operand × ValueType}
    (hu : u ∈ i.kind.uses) :
    (f.rewrite keep change).HasType u.1 u.2 := by
  obtain ⟨j, hj, rfl⟩ := List.mem_map.mp hi
  obtain ⟨hjb, hkeep⟩ := List.mem_filter.mp hj
  change u ∈ (j.kind.mapOperands change).uses at hu
  rw [InstrKind.uses_mapOperands] at hu
  obtain ⟨old, hold, rfl⟩ := List.mem_map.mp hu
  have hstands := hinstrs b hb j hjb hkeep old.1 (InstrKind.mem_operands_of_mem_uses hold)
  exact hstands.hasType (hwf.typed b hb j hjb old hold)

theorem uses_rewrite
    {b : Block}
    (hb : b ∈ f.blocks)
    (hreach : f.Reachable b.id)
    {pre post : List Instr}
    {i : Instr}
    (hsplit : (b.rewrite keep change).instrs = pre ++ i :: post)
    (hplain : i.kind.isPhi = false)
    {w : ValueId}
    (hw : .result w ∈ i.kind.operands) :
    w ∈ pre.map (·.dest) ∨ (f.rewrite keep change).ComputedBefore w b.id := by
  obtain ⟨pre', j, post', hsplit', hkeep, rfl, hpre⟩ := Block.split_of_rewrite hsplit
  rw [Instr.mapOperands, InstrKind.operands_mapOperands] at hw
  obtain ⟨old, hold, hchange⟩ := List.mem_map.mp hw
  have hstands := hinstrs b hb j (by simp [hsplit']) hkeep old hold
  rw [hchange] at hstands
  have huses :=
    hwf.uses b hb hreach pre' j post' hsplit' (by simpa [Instr.mapOperands] using hplain)
  rcases hstands.ordered w rfl with rfl | ⟨v, rfl, hprec⟩
  · -- the value itself is still used: its definition is kept where it was
    rcases huses w hold with hin | hbefore
    · left
      obtain ⟨k, hk, rfl⟩ := List.mem_map.mp hin
      have hkeep' :=
        hstands.kept k.dest rfl k (mem_instrs_iff.mpr ⟨b, hb, by simp [hsplit', hk]⟩) rfl
      rw [hpre]
      exact List.mem_map_of_mem (List.mem_filter.mpr ⟨hk, hkeep'⟩)
    · exact .inr (hbefore.rewrite (hstands.kept w rfl))
  · -- another value took its place, and is defined in a block further up
    right
    refine (hprec.computedBefore hwf.results_nodup hreach ?_).rewrite (hstands.kept w rfl)
    rcases huses v hold with hin | ⟨d, hd, -, hv, hdom⟩
    · refine ⟨b, hb, ?_, Dominates.refl f b.id⟩
      rw [Block.results, hsplit', List.map_append]
      exact List.mem_append_left _ hin
    · exact ⟨d, hd, hv, hdom⟩

theorem edges_rewrite
    {b : Block}
    (hb : b ∈ f.blocks)
    {i : Instr}
    (hi : i ∈ (b.rewrite keep change).instrs)
    {type : ValueType}
    {incoming : List (Operand × BlockId)}
    (hkind : i.kind = .phi type incoming)
    {w : ValueId}
    {pred : BlockId}
    (hin : (.result w, pred) ∈ incoming)
    (hreach : f.Reachable pred) :
    (f.rewrite keep change).ComputedBy w pred := by
  obtain ⟨j, hj, rfl⟩ := List.mem_map.mp hi
  obtain ⟨hjb, hkeep⟩ := List.mem_filter.mp hj
  obtain ⟨old, hold, rfl⟩ := InstrKind.mapOperands_eq_phi hkind
  obtain ⟨⟨o, source⟩, he, hedge⟩ := List.mem_map.mp hin
  obtain ⟨hchange, rfl⟩ := Prod.mk.inj hedge
  have hoperand : o ∈ j.kind.operands := by
    rw [hold]
    exact List.mem_map_of_mem he
  have hstands := hinstrs b hb j hjb hkeep o hoperand
  rw [hchange] at hstands
  refine hstands.computedBy hwf hreach ?_
  rintro v rfl
  exact hwf.edges b hb j hjb type old hold v source he hreach

omit hinstrs

include hends

theorem term_typed_rewrite
    {b : Block}
    (hb : b ∈ f.blocks)
    {u : Operand × ValueType}
    (hu : u ∈ (b.rewrite keep change).termUses) :
    (f.rewrite keep change).HasType u.1 u.2 := by
  rw [Block.termUses_rewrite] at hu
  obtain ⟨old, hold, rfl⟩ := List.mem_map.mp hu
  have hstands := hends b hb old.1 (Block.mem_termOperands_of_mem_termUses hold)
  exact hstands.hasType (hwf.term_typed b hb old hold)

theorem ends_rewrite
    {b : Block}
    (hb : b ∈ f.blocks)
    (hreach : f.Reachable b.id)
    {w : ValueId}
    (hw : .result w ∈ (b.rewrite keep change).termOperands) :
    (f.rewrite keep change).ComputedBy w b.id := by
  rw [Block.termOperands_rewrite] at hw
  obtain ⟨old, hold, hchange⟩ := List.mem_map.mp hw
  have hstands := hends b hb old hold
  rw [hchange] at hstands
  refine hstands.computedBy hwf hreach ?_
  rintro v rfl
  exact hwf.ends b hb hreach v hold

include hinstrs

/--
If every operand that is left stands for the one that it replaces, the function
stays well formed.
-/
theorem WellFormed.rewrite :
    (f.rewrite keep change).WellFormed where
  ids_nodup := by
    rw [blockIds_rewrite]
    exact hwf.ids_nodup
  results_nodup := results_nodup_rewrite hwf
  entry_free := by
    intro entry hentry
    rw [entry?_rewrite] at hentry
    refine forall_mem_rewrite fun b hb => ?_
    rw [Block.successors_rewrite]
    exact hwf.entry_free entry hentry b hb
  terminated := forall_mem_rewrite fun b hb =>
    Block.term_rewrite_ne_none.mpr (hwf.terminated b hb)
  targets := by
    refine forall_mem_rewrite fun b hb => ?_
    rw [Block.successors_rewrite, blockIds_rewrite]
    exact hwf.targets b hb
  typed := forall_mem_rewrite fun b hb i hi u hu => typed_rewrite hwf hinstrs hb hi hu
  term_typed := forall_mem_rewrite fun b hb u hu => term_typed_rewrite hwf hends hb hu
  phis_first := forall_mem_rewrite fun b hb => phis_first_rewrite (hwf.phis_first b hb)
  phi_edges := forall_mem_rewrite fun b hb i hi type incoming hkind =>
    phi_edges_rewrite hwf hb hi hkind
  uses := forall_mem_rewrite fun b hb hreach pre i post hsplit hplain w hw =>
    uses_rewrite hwf hinstrs hb (reachable_of_rewrite hreach) hsplit hplain hw
  ends := forall_mem_rewrite fun b hb hreach w hw =>
    ends_rewrite hwf hends hb (reachable_of_rewrite hreach) hw
  edges := forall_mem_rewrite fun b hb i hi type incoming hkind w pred hin hreach =>
    edges_rewrite hwf hinstrs hb hi hkind hin (reachable_of_rewrite hreach)

end Rules

/-- Calls keep their callees and the number of their arguments. -/
theorem CallsMatch.rewrite
    {m : Module}
    (h : f.CallsMatch m) :
    (f.rewrite keep change).CallsMatch m := by
  intro b hb i hi callee name args hkind
  obtain ⟨c, hc, rfl⟩ := mem_mapBlocks_iff.mp hb
  obtain ⟨j, hj, rfl⟩ := List.mem_map.mp hi
  obtain ⟨old, hold, rfl⟩ := InstrKind.mapOperands_eq_call hkind
  rw [List.length_map]
  exact h c hc j (List.mem_filter.mp hj).1 callee name old hold

end Function

end ScalarSsa
