import ScalarSsa.Pass.Folding
import ScalarSsa.Proofs.Flow.Exhaust
import ScalarSsa.Proofs.Pass.Rewriting

/-!
# Folding keeps functions well formed

**Definitions.** `Function.substitute` removes the instructions of some results and puts
operands in their places, all at once.  `Function.Replaces` says when an operand may take
the place of a result.

**Results.** `WellFormed.substitute`: such replacements keep a function well formed.
`replaces_of_foldInstr?`: what an instruction folds to may take its place.  The point is a
phi whose operands, its own result apart, are one result `w`: the first arrival at the phi's
block brings `w`, and every later one comes after the first, so the definition of `w`
strictly dominates the phi.
-/

namespace ScalarSsa

/-- The operand with every result that a list replaces changed. -/
def Operand.subst (replacements : List (ValueId × Operand)) : Operand → Operand
  | .result v => (replacements.lookup v).getD (.result v)
  | o => o

namespace Function

variable {f : Function}

/-- The function with some results removed and operands put in their places. -/
def substitute (f : Function) (replacements : List (ValueId × Operand)) : Function :=
  f.rewrite (fun i => (replacements.lookup i.dest).isNone) (Operand.subst replacements)

/-- An operand may take the place of a result. -/
structure Replaces (f : Function) (replacements : List (ValueId × Operand)) (v : ValueId)
    (o : Operand) : Prop where
  typed : ∀ i ∈ f.instrs, i.dest = v → f.HasType o i.kind.type
  stays : ∀ w, o = .result w → replacements.lookup w = none
  precedes : ∀ w, o = .result w → f.Precedes w v

theorem Stands.of_replaces
    {replacements : List (ValueId × Operand)}
    (h : ∀ v o, replacements.lookup v = some o → f.Replaces replacements v o)
    (old : Operand) :
    f.Stands (fun i => (replacements.lookup i.dest).isNone) old
      (old.subst replacements) := by
  have hsame : ∀ o : Operand, (∀ v, o = .result v → replacements.lookup v = none) →
      f.Stands (fun i => (replacements.lookup i.dest).isNone) o o := by
    intro o hnone
    refine ⟨fun _ h => h, ?_, fun w hw => .inl hw⟩
    rintro w hw i - rfl
    simp [hnone _ hw]
  cases old with
  | const x => exact hsame _ (by simp)
  | bool b => exact hsame _ (by simp)
  | arg position => exact hsame _ (by simp)
  | result v =>
      cases hv : replacements.lookup v with
      | none =>
          have hsubst : (Operand.result v).subst replacements = .result v := by
            simp [Operand.subst, hv]
          rw [hsubst]
          refine hsame _ ?_
          rintro w ⟨⟩
          exact hv
      | some o =>
          have hsubst : (Operand.result v).subst replacements = o := by
            simp [Operand.subst, hv]
          rw [hsubst]
          have hrep := h v o hv
          constructor
          · rintro type ⟨i, hi, hdest, rfl⟩
            exact hrep.typed i hi hdest
          · rintro w hw i - rfl
            simp [hrep.stays _ hw]
          · intro w hw
            exact .inr ⟨v, rfl, hrep.precedes w hw⟩

/--
Replacing results by operands that may take their places keeps a function well formed.
-/
theorem WellFormed.substitute
    (hwf : f.WellFormed)
    {replacements : List (ValueId × Operand)}
    (h : ∀ v o, replacements.lookup v = some o → f.Replaces replacements v o) :
    (f.substitute replacements).WellFormed :=
  WellFormed.rewrite hwf (fun _ _ _ _ _ o _ => .of_replaces h o) fun _ _ o _ =>
    .of_replaces h o

/-! ## Phis whose operands agree -/

/--
If every way to a block has been at another one or at the block itself, the other one
strictly dominates it.
-/
theorem dominates_of_last
    {upper lower : BlockId}
    (hentry : f.entry? ≠ some lower)
    (hlast : ∀ pred path, f.Trail (lower :: pred :: path) → upper ∈ pred :: path ∨
      lower ∈ pred :: path)
    (hreach : f.Reachable lower) :
    upper ≠ lower ∧ f.Dominates upper lower := by
  have hcons : ∀ path, f.Trail (lower :: path) → ∃ pred rest, path = pred :: rest := by
    intro path htrail
    cases htrail with
    | start he => exact absurd he hentry
    | step _ _ => exact ⟨_, _, rfl⟩
  constructor
  · obtain ⟨path, htrail, hfirst⟩ := hreach.first
    obtain ⟨pred, rest, rfl⟩ := hcons path htrail
    intro heq
    rcases hlast pred rest htrail with h | h
    · exact hfirst (heq ▸ h)
    · exact hfirst h
  · -- by induction on the length of the trail: if it has been here before, the trail of
    -- that visit is shorter
    intro path htrail
    generalize hn : path.length = n
    induction n using Nat.strong_induction_on generalizing path with
    | _ n ih =>
        obtain ⟨pred, rest, rfl⟩ := hcons path htrail
        rcases hlast pred rest htrail with h | h
        · exact List.mem_cons_of_mem _ h
        · obtain ⟨l, r, he, -⟩ := exists_last_of_mem h
          have hlen : r.length < n := by
            rw [← hn, he, List.length_append, List.length_cons]
            omega
          have htrail' : f.Trail (lower :: r) := by
            rw [he] at htrail
            exact Trail.of_append (l := lower :: l) htrail
          have hin := ih _ hlen r htrail' rfl
          rw [he]
          exact List.mem_cons_of_mem _ (List.mem_append_right _ hin)

section Phi

variable
  (hwf : f.WellFormed)
  {b : Block}
  (hb : b ∈ f.blocks)
  {i : Instr}
  (hi : i ∈ b.instrs)
  {type : ValueType}
  {incoming : List (Operand × BlockId)}
  (hkind : i.kind = .phi type incoming)

include hwf hb hi hkind

/-- A phi's block has the predecessors that its edges name, so it is not the entry. -/
theorem entry?_ne_of_phi
    {edge : Operand × BlockId}
    (hedge : edge ∈ incoming) :
    f.entry? ≠ some b.id := by
  intro hentry
  have hpred :=
    (hwf.phi_edges b hb i hi type incoming hkind edge.2).mp (List.mem_map_of_mem hedge)
  obtain ⟨p, hp, -, hsucc⟩ := mem_predecessors_iff.mp hpred
  exact hwf.entry_free b.id hentry p hp hsucc

/-- The last edge of a trail to a phi brings a result that was computed on the trail. -/
theorem mem_trail_of_phi
    {w : ValueId}
    {upper : Block}
    (hupper : upper ∈ f.blocks)
    (hmem : w ∈ upper.results)
    {pred : BlockId}
    (hin : (.result w, pred) ∈ incoming)
    {path : List BlockId}
    (htrail : f.Trail (pred :: path)) :
    upper.id ∈ pred :: path := by
  obtain ⟨d, hd, hv, hdom⟩ :=
    hwf.edges b hb i hi type incoming hkind w pred hin ⟨path, htrail⟩
  obtain rfl := block_eq_of_mem_results hwf.results_nodup hd hupper hv hmem
  exact hdom path htrail

/-- A phi that merges nothing but `w` and itself comes after `w`. -/
theorem WellFormed.phi_precedes
    {w : ValueId}
    (hw : .result w ∈ incoming.map (·.1))
    (hagree : ∀ edge ∈ incoming, edge.1 = .result i.dest ∨ edge.1 = .result w) :
    f.Precedes w i.dest := by
  obtain ⟨⟨_, source⟩, hsource, rfl⟩ := List.mem_map.mp hw
  have htype : f.HasType (.result w) type := by
    refine hwf.typed b hb i hi (.result w, type) ?_
    rw [hkind]
    exact List.mem_map.mpr ⟨_, hsource, rfl⟩
  obtain ⟨upper, hupper, hmem⟩ := mem_results_iff.mp htype.mem_results
  have hdest : i.dest ∈ b.results := List.mem_map_of_mem hi
  refine ⟨upper, hupper, b, hb, hmem, hdest,
    dominates_of_last (entry?_ne_of_phi hwf hb hi hkind hsource) ?_⟩
  -- a predecessor on a trail brings `w`, or the trail has been at the phi before
  intro pred path htrail
  cases htrail with
  | step htrail edge =>
      obtain ⟨p, hp, hid, hsucc⟩ := (mem_successors_iff hwf.ids_nodup).mp edge
      have hin : pred ∈ incoming.map (·.2) :=
        (hwf.phi_edges b hb i hi type incoming hkind pred).mpr
          (mem_predecessors_iff.mpr ⟨p, hp, hid, hsucc⟩)
      obtain ⟨⟨o, _⟩, he, rfl⟩ := List.mem_map.mp hin
      rcases hagree _ he with ho | ho
      · right
        simp only at ho
        subst ho
        exact mem_trail_of_phi hwf hb hi hkind hb hdest he htrail
      · left
        simp only at ho
        subst ho
        exact mem_trail_of_phi hwf hb hi hkind hupper hmem he htrail

end Phi

end Function

theorem lookup_cons_if
    (v w : ValueId)
    (o : Operand)
    (rest : List (ValueId × Operand)) :
    ((v, o) :: rest).lookup w = if w = v then some o else rest.lookup w := by
  by_cases h : w = v
  · simp [h]
  · have hne : (w == v) = false := by simpa using h
    simp [List.lookup_cons, hne, h]

theorem lookup_singleton
    (v w : ValueId)
    (o : Operand) :
    [(v, o)].lookup w = if w = v then some o else none :=
  lookup_cons_if v w o []

theorem mem_of_lookup_eq_some
    {v : ValueId}
    {o : Operand}
    {replacements : List (ValueId × Operand)}
    (h : replacements.lookup v = some o) :
    (v, o) ∈ replacements := by
  obtain ⟨l, r, rfl, -⟩ := List.lookup_eq_some_iff.mp h
  simp

namespace Pass

open ScalarSsa.Function

variable {f : Function}

theorem agreed?_eq_some
    {operands : List Operand}
    {o : Operand}
    (h : agreed? operands = some o) :
    o ∈ operands ∧ ∀ x ∈ operands, x = o ∨ x.same o = true := by
  cases operands with
  | nil => cases h
  | cons first rest =>
      by_cases hall : (rest.all fun o => o.same first) = true
      · rw [agreed?, if_pos hall] at h
        cases h
        refine ⟨List.mem_cons_self, ?_⟩
        intro x hx
        rcases List.mem_cons.mp hx with rfl | hx
        · exact .inl rfl
        · exact .inr (List.all_eq_true.mp hall x hx)
      · rw [agreed?, if_neg hall] at h
        cases h

/-- What the operands of a phi agree on is one of them and not the phi's own result. -/
theorem phi_agreed
    {i : Instr}
    {type : ValueType}
    {incoming : List (Operand × BlockId)}
    (hkind : i.kind = .phi type incoming)
    {o : Operand}
    (h : foldInstr? i = some o) :
    o ∈ incoming.map (·.1) ∧ o ≠ .result i.dest ∧
      ∀ edge ∈ incoming, edge.1 = .result i.dest ∨ edge.1 = o ∨ edge.1.same o = true := by
  simp only [foldInstr?, hkind] at h
  obtain ⟨hmem, hall⟩ := agreed?_eq_some h
  obtain ⟨hin, hother⟩ := List.mem_filter.mp hmem
  refine ⟨hin, ?_, ?_⟩
  · rintro rfl
    simp [Operand.same] at hother
  · intro edge he
    by_cases hself : edge.1 = .result i.dest
    · exact .inl hself
    · right
      refine hall _ (List.mem_filter.mpr ⟨List.mem_map_of_mem he, ?_⟩)
      cases hsame : edge.1.same (.result i.dest) with
      | false => rfl
      | true => exact absurd ((Operand.same_result_iff _ _).mp hsame) hself

/-- What an instruction folds to is of its type. -/
theorem hasType_of_foldInstr?
    (hwf : f.WellFormed)
    {b : Block}
    (hb : b ∈ f.blocks)
    {i : Instr}
    (hi : i ∈ b.instrs)
    {o : Operand}
    (h : foldInstr? i = some o) :
    f.HasType o i.kind.type := by
  unfold foldInstr? at h
  split at h
  · next hkind =>
      cases h
      rw [hkind]
      rfl
  · next hkind =>
      cases h
      rw [hkind]
      rfl
  · next hkind =>
      cases h
      rw [hkind]
      rfl
  · next type incoming hkind =>
      have hfold : foldInstr? i = some o := by simp only [foldInstr?, hkind, h]
      obtain ⟨edge, he, rfl⟩ := List.mem_map.mp (phi_agreed hkind hfold).1
      rw [hkind]
      refine hwf.typed b hb i hi (edge.1, type) ?_
      rw [hkind]
      exact List.mem_map.mpr ⟨edge, he, rfl⟩
  · cases h

/-- What an instruction folds to may take its place. -/
theorem replaces_of_foldInstr?
    (hwf : f.WellFormed)
    {i : Instr}
    (hi : i ∈ f.instrs)
    {o : Operand}
    (h : foldInstr? i = some o) :
    f.Replaces [(i.dest, o)] i.dest o := by
  obtain ⟨b, hb, hib⟩ := mem_instrs_iff.mp hi
  have hphi : ∀ w, o = .result w → ∃ type incoming, i.kind = .phi type incoming := by
    rintro w rfl
    unfold foldInstr? at h
    split at h <;> first | cases h | exact ⟨_, _, by assumption⟩
  constructor
  · intro j hj hdest
    obtain rfl := List.inj_on_of_nodup_map hwf.results_nodup hj hi hdest
    exact hasType_of_foldInstr? hwf hb hib h
  · intro w hw
    obtain ⟨type, incoming, hkind⟩ := hphi w hw
    obtain ⟨-, hne, -⟩ := phi_agreed hkind h
    have hne' : w ≠ i.dest := by
      rintro rfl
      exact hne hw
    rw [lookup_singleton, if_neg hne']
  · rintro w rfl
    obtain ⟨type, incoming, hkind⟩ := hphi w rfl
    obtain ⟨hin, -, hagree⟩ := phi_agreed hkind h
    refine hwf.phi_precedes hb hib hkind hin ?_
    intro edge he
    rcases hagree edge he with h | h | h
    · exact .inl h
    · exact .inr h
    · exact .inr ((Operand.same_result_iff _ _).mp h)

theorem substitute_singleton
    (f : Function)
    (v : ValueId)
    (o : Operand) :
    (f.eraseResult v).replaceUses (.result v) o = f.substitute [(v, o)] := by
  have hkeep : (fun i : Instr => i.dest != v) = fun i =>
    ([(v, o)].lookup i.dest).isNone := by
    funext i
    by_cases h : i.dest = v <;> simp [lookup_singleton, h]
  have hchange : Operand.replace (.result v) o = Operand.subst [(v, o)] := by
    funext x
    by_cases h : x = .result v
    · subst h
      simp [Operand.subst]
    · rw [Operand.replace_of_ne h]
      cases x with
      | result w =>
          have hne : w ≠ v := by
            rintro rfl
            exact h rfl
          simp [Operand.subst, lookup_singleton, hne]
      | _ => rfl
  simp only [eraseResult, replaceUses, mapBlocks, substitute, rewrite,
    List.map_map, hkeep, hchange]
  rfl

/-- A fold replaces one result by what its instruction folds to. -/
theorem foldOnce?_eq_some
    {g : Function}
    (h : foldOnce? f = some g) :
    ∃ i ∈ f.instrs, ∃ o, foldInstr? i = some o ∧ g = f.substitute [(i.dest, o)] := by
  unfold foldOnce? at h
  obtain ⟨⟨v, o⟩, hfound, rfl⟩ := Option.map_eq_some_iff.mp h
  obtain ⟨i, hi, hfold⟩ := List.exists_of_findSome?_eq_some hfound
  obtain ⟨o', hfold, hpair⟩ := Option.map_eq_some_iff.mp hfold
  cases hpair
  exact ⟨i, hi, o, hfold, substitute_singleton f _ o⟩

theorem wellFormed_foldOnce?
    {g : Function}
    (hwf : f.WellFormed)
    (h : foldOnce? f = some g) :
    g.WellFormed := by
  obtain ⟨i, hi, o, hfold, rfl⟩ := foldOnce?_eq_some h
  refine hwf.substitute ?_
  intro v o' hlookup
  rw [lookup_singleton] at hlookup
  by_cases hv : v = i.dest
  · rw [if_pos hv] at hlookup
    cases hlookup
    rw [hv]
    exact replaces_of_foldInstr? hwf hi hfold
  · rw [if_neg hv] at hlookup
    cases hlookup

end Pass

end ScalarSsa
