import ScalarSsa.Pass.Unused
import ScalarSsa.Proofs.Pass.Rewriting

/-!
# Removing unused instructions keeps functions well formed

**Results.** One round removes no instruction whose result is still used: every operand that
is left stands for itself (`stands_of_kept`), so the round is a rewriting that keeps a
function well formed.
-/

namespace ScalarSsa

@[simp] theorem InstrKind.mapOperands_id
    (kind : InstrKind) :
    kind.mapOperands id = kind := by
  cases kind <;> simp [InstrKind.mapOperands]

@[simp] theorem Terminator.mapOperands_id
    (term : Terminator) :
    term.mapOperands id = term := by
  cases term <;> rfl

/-- A rewriting that changes no operand only removes instructions. -/
theorem rewrite_id_eq_filter
    (keep : Instr → Bool)
    (b : Block) :
    b.rewrite keep id = { b with instrs := b.instrs.filter keep } := by
  have hterm : b.term.map (Terminator.mapOperands id) = b.term := by
    cases b.term <;> simp
  simp [Block.rewrite, Block.mapOperands, hterm]

namespace Pass

open ScalarSsa.Function

variable {f : Function}

/-- The instructions that a round keeps. -/
def needed (f : Function) (i : Instr) : Bool :=
  !i.kind.isPure || (used f).contains i.dest

theorem keepUsed_eq_rewrite
    (f : Function) :
    keepUsed (used f) f = f.rewrite (needed f) id := by
  simp only [rewrite, funext (rewrite_id_eq_filter (needed f))]
  rfl

theorem eq_keepUsed_of_removeUnused?
    {g : Function}
    (h : removeUnused? f = some g) :
    g = keepUsed (used f) f := by
  simp only [removeUnused?] at h
  split at h
  · exact (Option.some.inj h).symm
  · cases h

/-- A round that is made removes an instruction. -/
theorem instrCount_removeUnused?
    {g : Function}
    (h : removeUnused? f = some g) :
    g.instrCount < f.instrCount := by
  simp only [removeUnused?] at h
  split at h
  · next hless =>
      cases h
      exact hless
  · cases h

theorem kept_of_used
    {v : ValueId}
    (h : v ∈ used f) :
    f.Kept (needed f) v := by
  rintro i - rfl
  simp [needed, h]

/-- A result is used by another instruction or by a terminator. -/
theorem mem_used_iff
    {v : ValueId} :
    v ∈ used f ↔
      (∃ i ∈ f.instrs, v ≠ i.dest ∧ .result v ∈ i.kind.operands) ∨ ∃ b ∈ f.blocks,
        .result v ∈ b.termOperands := by
  have hresult : ∀ operands : List Operand, v ∈ operands.filterMap Operand.result? ↔
      .result v ∈ operands := by
    intro operands
    rw [List.mem_filterMap]
    constructor
    · rintro ⟨o, ho, hv⟩
      cases o <;> cases hv
      exact ho
    · intro h
      exact ⟨_, h, rfl⟩
  simp only [used, usedBy, List.mem_flatMap, List.mem_append, List.mem_filter, hresult,
    mem_instrs_iff, bne_iff_ne, ne_eq]
  constructor
  · rintro ⟨b, hb, ⟨i, hi, hv, hne⟩ | hterm⟩
    · exact .inl ⟨i, ⟨b, hb, hi⟩, hne, hv⟩
    · exact .inr ⟨b, hb, hterm⟩
  · rintro (⟨i, ⟨b, hb, hi⟩, hne, hv⟩ | ⟨b, hb, hterm⟩)
    · exact ⟨b, hb, .inl ⟨i, hi, hv, hne⟩⟩
    · exact ⟨b, hb, .inr hterm⟩

/-- What a kept instruction uses is kept, also when it uses its own result. -/
theorem kept_of_operand
    (hresults : f.results.Nodup)
    {b : Block}
    (hb : b ∈ f.blocks)
    {i : Instr}
    (hi : i ∈ b.instrs)
    (hkeep : needed f i = true)
    {v : ValueId}
    (hv : .result v ∈ i.kind.operands) :
    f.Kept (needed f) v := by
  by_cases hne : v = i.dest
  · intro j hj hdest
    have hi' : i ∈ f.instrs := mem_instrs_iff.mpr ⟨b, hb, hi⟩
    rw [List.inj_on_of_nodup_map hresults hj hi' (hdest.trans hne)]
    exact hkeep
  · exact kept_of_used (mem_used_iff.2 (.inl ⟨i, mem_instrs_iff.2 ⟨b, hb, hi⟩, hne, hv⟩))

theorem stands_of_kept
    {keep : Instr → Bool}
    {o : Operand}
    (h : ∀ v, o = .result v → f.Kept keep v) :
    f.Stands keep o (id o) :=
  ⟨fun _ h => h, h, fun _ hw => .inl hw⟩

theorem wellFormed_keepUsed
    (hwf : f.WellFormed) :
    (keepUsed (used f) f).WellFormed := by
  rw [keepUsed_eq_rewrite]
  refine hwf.rewrite ?_ ?_
  · intro b hb i hi hkeep o ho
    refine stands_of_kept ?_
    rintro v rfl
    exact kept_of_operand hwf.results_nodup hb hi hkeep ho
  · intro b hb o ho
    refine stands_of_kept ?_
    rintro v rfl
    exact kept_of_used (mem_used_iff.2 (.inr ⟨b, hb, ho⟩))

end Pass

end ScalarSsa
