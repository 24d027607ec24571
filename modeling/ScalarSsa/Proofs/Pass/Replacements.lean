import ScalarSsa.Proofs.Pass.RewrittenRuns
import ScalarSsa.Proofs.Pass.Merging
import ScalarSsa.Proofs.Pass.Shape
import ScalarSsa.Proofs.Pass.Unused

/-!
# Replaced and removed results cannot be seen

**Input.** A function that can be run and a relation between doubles that
arithmetic carries along.

**Definitions.** `Function.Agreeing` says that where a phi folds, the constants that it
merges are related: folding compares them as numbers, so they need not be the same.

**Results.** The steps of passes that replace or remove results are transparent rewritings.
So a fold (`refines_foldOnce?`), a round that removes what is unused (`refines_keepUsed`)
and the replacement of the phis of a block with one predecessor (`refines_phiReplacements`)
do the same in no more steps.
-/

namespace ScalarSsa

open Machine

variable {rel : Float → Float → Prop} {f : Function}

theorem rewrite_id_eq_self
    (f : Function) :
    f.rewrite (fun _ => true) id = f := by
  simp [Function.rewrite, Function.mapBlocks, funext (rewrite_id_eq_filter fun _ => true)]

/-- The constants that a phi merges are related where it folds. -/
def Function.Agreeing (rel : Float → Float → Prop) (f : Function) : Prop :=
  ∀ i ∈ f.instrs, ∀ type incoming, i.kind = .phi type incoming → ∀ o,
    Pass.foldInstr? i = some o →
    ∀ edge ∈ incoming, edge.1.same o = true → OperandLike rel edge.1 o

namespace Machine

open ScalarSsa.Function

theorem Runnable.of_descends
    {f g : Function}
    (hf : Runnable f)
    (h : f.Descends g)
    (hwf : g.WellFormed) :
    Runnable g :=
  ⟨hwf, h.entryPlain hf.wellFormed.ids_nodup hf.plain, by rw [h.entry?_eq]; exact hf.body⟩

theorem Runnable.rewrite
    {keep : Instr → Bool}
    {change : Operand → Operand}
    (hf : Runnable f)
    (hwf : (f.rewrite keep change).WellFormed) :
    Runnable (f.rewrite keep change) := by
  refine hf.of_descends
    (.mapBlocks (Block.rewrite keep change) (fun _ => rfl) (fun b i' hi' => ?_) f) hwf
  obtain ⟨i, hi, rfl⟩ := List.mem_map.1 hi'
  exact ⟨i, (List.mem_filter.1 hi).1, .mapOperands change i.kind⟩

/-- A function refines itself. -/
theorem Runnable.refines_self
    (hrel : Tolerance rel)
    (hf : Runnable f) :
    Refines rel f f := by
  have hT : Transparent rel f (fun _ => true) id fun _ => True := by
    constructor
    · exact fun _ _ => rfl
    · exact fun _ _ _ _ _ => rfl
    · exact fun _ _ _ _ hno => by cases hno
    · exact fun _ _ _ _ _ _ _ => trivial
    · exact fun _ _ _ _ => trivial
    · exact fun _ _ _ _ hno => by cases hno
    · exact fun _ _ _ _ hno => by cases hno
  have h := hT.refines hrel hf.wellFormed hf.plain hf.body
  rwa [rewrite_id_eq_self] at h

/--
A substitution is transparent if every operand is worth the result that it
takes the place of.
-/
theorem Transparent.substitute
    {replacements : List (ValueId × Operand)}
    (hreplaces : ∀ v o, replacements.lookup v = some o → f.Replaces replacements v o)
    (hpure : ∀ i ∈ f.instrs, ∀ o, replacements.lookup i.dest = some o → ∀ callee name args,
      i.kind ≠ .call callee name args)
    (hworth : ∀ i ∈ f.instrs, ∀ o, replacements.lookup i.dest = some o → Worth rel i o) :
    Transparent rel f (fun i => (replacements.lookup i.dest).isNone)
      (Operand.subst replacements) fun _ => True := by
  have hlookup : ∀ i : Instr, (replacements.lookup i.dest).isNone = false →
      ∃ o, replacements.lookup i.dest = some o ∧
        Operand.subst replacements (.result i.dest) = o := by
    intro i hno
    cases ho : replacements.lookup i.dest with
    | none =>
        rw [ho] at hno
        cases hno
    | some o => exact ⟨o, rfl, by simp [Operand.subst, ho]⟩
  constructor
  · intro o ho
    cases o with
    | result v => exact absurd rfl (ho v)
    | _ => rfl
  · intro b _ i _ hkeep
    simp [Operand.subst, Option.isNone_iff_eq_none.1 hkeep]
  · intro b hb i hi hno
    obtain ⟨o, ho, -⟩ := hlookup i hno
    exact hpure i (mem_instrs_iff.2 ⟨b, hb, hi⟩) o ho
  · exact fun _ _ _ _ _ _ _ => trivial
  · exact fun _ _ _ _ => trivial
  · intro b hb i hi hno _
    obtain ⟨o, ho, hsubst⟩ := hlookup i hno
    rw [hsubst]
    exact hworth i (mem_instrs_iff.2 ⟨b, hb, hi⟩) o ho
  · intro b hb i hi hno _ w hw
    obtain ⟨o, ho, hsubst⟩ := hlookup i hno
    have hreplace := hreplaces _ o ho
    refine ⟨?_, hreplace.precedes w (hsubst.symm.trans hw)⟩
    rintro j - rfl
    exact Option.isNone_iff_eq_none.2 (hreplace.stays _ (hsubst.symm.trans hw))

end Machine

namespace Pass

open ScalarSsa.Function

/-! ## Folds -/

/-- What an instruction folds to is worth what it computes. -/
theorem worth_of_foldInstr?
    (hrel : Tolerance rel)
    {i : Instr}
    {o : Operand}
    (hagree : ∀ type incoming, i.kind = .phi type incoming → ∀ edge ∈ incoming,
      edge.1.same o = true →
      OperandLike rel edge.1 o)
    (h : foldInstr? i = some o) :
    Worth rel i o := by
  constructor
  · intro type incoming hkind pred o' hfind
    rcases (phi_agreed hkind h).2.2 _ (List.mem_of_find?_eq_some hfind) with
      hself | hsame | hsame
    · exact .inl hself
    · exact .inr (.inl hsame)
    · exact .inr (hagree type incoming hkind _ (List.mem_of_find?_eq_some hfind) hsame)
  · intro frame d hd
    unfold foldInstr? at h
    unfold Frame.request at hd
    split at h
    · next hkind =>
        rw [hkind] at hd
        cases h
        cases hd
        exact ⟨_, rfl, .refl hrel _⟩
    · next hkind =>
        rw [hkind] at hd
        cases h
        cases hd
        exact ⟨_, rfl, .refl hrel _⟩
    · next hkind =>
        rw [hkind] at hd
        cases h
        cases hd
        exact ⟨_, rfl, .refl hrel _⟩
    · next hkind =>
        rw [hkind] at hd
        cases hd
    · cases h

theorem not_call_of_foldInstr?
    {i : Instr}
    {o : Operand}
    (h : foldInstr? i = some o)
    (callee : FuncId)
    (name : String)
    (args : List Operand) :
    i.kind ≠ .call callee name args := by
  intro hkind
  simp [foldInstr?, hkind] at h

/-- A fold cannot be seen, up to the relation between the constants that phis merge. -/
theorem refines_foldOnce?
    (hrel : Tolerance rel)
    (hf : Runnable f)
    (hagreeing : f.Agreeing rel)
    {g : Function}
    (h : foldOnce? f = some g) :
    Runnable g ∧ Refines rel f g := by
  have hwf := wellFormed_foldOnce? hf.wellFormed h
  obtain ⟨i, hi, o, hfold, rfl⟩ := foldOnce?_eq_some h
  have hlookup : ∀ v o', [(i.dest, o)].lookup v = some o' → v = i.dest ∧ o' = o := by
    intro v o' hv
    rw [lookup_singleton] at hv
    by_cases hvi : v = i.dest
    · rw [if_pos hvi] at hv
      exact ⟨hvi, (Option.some.inj hv).symm⟩
    · rw [if_neg hvi] at hv
      cases hv
  have hsame : ∀ j ∈ f.instrs, j.dest = i.dest → j = i := fun j hj =>
    List.inj_on_of_nodup_map hf.wellFormed.results_nodup hj hi
  have hT : Transparent rel f (fun j => ([(i.dest, o)].lookup j.dest).isNone)
      (Operand.subst [(i.dest, o)])
      fun _ => True := by
    refine .substitute ?_ ?_ ?_
    · intro v o' hv
      obtain ⟨rfl, rfl⟩ := hlookup v o' hv
      exact replaces_of_foldInstr? hf.wellFormed hi hfold
    · intro j hj o' hv
      obtain ⟨hdest, rfl⟩ := hlookup _ o' hv
      rw [hsame j hj hdest]
      exact not_call_of_foldInstr? hfold
    · intro j hj o' hv
      obtain ⟨hdest, rfl⟩ := hlookup _ o' hv
      rw [hsame j hj hdest]
      exact worth_of_foldInstr? hrel (fun type incoming hkind =>
        hagreeing i hi type incoming hkind _ hfold) hfold
  exact ⟨hf.rewrite hwf, hT.refines hrel hf.wellFormed hf.plain hf.body⟩

/-! ## Phis of blocks with one predecessor -/

/-- What comes in first is worth the phi, since all edges come from one block. -/
theorem worth_of_phiReplacements
    (hwf : f.WellFormed)
    {pred : BlockId}
    {b : Block}
    (h : f.Mergeable pred b)
    {i : Instr}
    (hi : i ∈ b.instrs)
    {type : ValueType}
    {o : Operand}
    {source : BlockId}
    {rest : List (Operand × BlockId)}
    (hkind : i.kind = .phi type ((o, source) :: rest)) :
    Worth rel i o := by
  constructor
  · intro type' incoming hkind' pred' o' hfind
    rw [hkind] at hkind'
    cases hkind'
    have hpred : pred' = pred :=
      source_eq_pred hwf h hi hkind (List.mem_of_find?_eq_some hfind)
    have hedge : (o, source) ∈ (o, source) :: rest := List.mem_cons_self
    have hsource : source = pred := source_eq_pred hwf h hi hkind hedge
    simp only [hpred, hsource, List.find?_cons, beq_self_eq_true] at hfind
    cases hfind
    exact .inr (.inl rfl)
  · intro frame d hd
    rw [Frame.request, hkind] at hd
    cases hd

theorem refines_phiReplacements
    (hrel : Tolerance rel)
    (hf : Runnable f)
    (hall : f.AllReachable)
    {pred : BlockId}
    {b : Block}
    (h : f.Mergeable pred b) :
    Runnable (f.substitute (phiReplacements b)) ∧
      Refines rel f (f.substitute (phiReplacements b)) := by
  have hphi : ∀ i ∈ f.instrs, ∀ o, (phiReplacements b).lookup i.dest =
      some o → i ∈ b.instrs ∧
      ∃ type source rest, i.kind = .phi type ((o, source) :: rest) := by
    intro i hi o ho
    obtain ⟨j, hj, hdest, hkind⟩ := mem_phiReplacements_iff.1 (mem_of_lookup_eq_some ho)
    obtain rfl :=
      List.inj_on_of_nodup_map hf.wellFormed.results_nodup
        (mem_instrs_iff.2 ⟨b, h.mem, hj⟩) hi hdest
    exact ⟨hj, hkind⟩
  have hT : Transparent rel f (fun i => ((phiReplacements b).lookup i.dest).isNone)
      (Operand.subst (phiReplacements b)) fun _ => True := by
    refine .substitute ?_ ?_ ?_
    · exact fun v o ho =>
        replaces_of_phiReplacements hf.wellFormed h hall (mem_of_lookup_eq_some ho)
    · intro i hi o ho callee name args hcall
      obtain ⟨-, type, source, rest, hkind⟩ := hphi i hi o ho
      cases hcall.symm.trans hkind
    · intro i hi o ho
      obtain ⟨hib, type, source, rest, hkind⟩ := hphi i hi o ho
      exact worth_of_phiReplacements hf.wellFormed h hib hkind
  exact ⟨hf.rewrite (wellFormed_substitute_phis hf.wellFormed h hall),
    hT.refines hrel hf.wellFormed hf.plain hf.body⟩

/-! ## Unused results -/

/-- A round that removes unused instructions cannot be seen. -/
theorem refines_keepUsed
    (hrel : Tolerance rel)
    (hf : Runnable f) :
    Runnable (keepUsed (used f) f) ∧ Refines rel f (keepUsed (used f) f) := by
  have hresults := hf.wellFormed.results_nodup
  have hwf := wellFormed_keepUsed hf.wellFormed
  have hkept : ∀ b ∈ f.blocks, ∀ i ∈ b.instrs, f.Kept (needed f) i.dest →
      needed f i = true :=
    fun b hb i hi hk => hk i (mem_instrs_iff.2 ⟨b, hb, hi⟩) rfl
  -- only results that are kept are still used, so nothing has to be said
  -- about the removed ones
  have hT : Transparent rel f (needed f) id (f.Kept (needed f)) := by
    constructor
    · exact fun _ _ => rfl
    · exact fun _ _ _ _ _ => rfl
    · intro b _ i _ hno callee name args hkind
      simp [needed, hkind, InstrKind.isPure] at hno
    · exact fun b hb i hi hkeep v hv => kept_of_operand hresults hb hi hkeep hv
    · exact fun b hb v hv => kept_of_used (mem_used_iff.2 (.inr ⟨b, hb, hv⟩))
    · intro b hb i hi hno hlive
      rw [hkept b hb i hi hlive] at hno
      cases hno
    · intro b hb i hi hno hlive
      rw [hkept b hb i hi hlive] at hno
      cases hno
  rw [keepUsed_eq_rewrite] at hwf ⊢
  exact ⟨hf.rewrite hwf, hT.refines hrel hf.wellFormed hf.plain hf.body⟩

end Pass

end ScalarSsa
