import ScalarSsa.Proofs.Machine.Refinement
import ScalarSsa.Proofs.Pass.Rewriting

/-!
# Runs of rewritten functions

**Input.** A well-formed function, the instructions to keep, and what
becomes of each operand.

**Definitions.** A rewriting is `Transparent` if it keeps all calls, and if what takes the
place of a removed result that is still used is worth what the removed instruction computes.
`Settled` says that at a point of a run each removed result that can be used there has a
value like the one of its replacement.  That is not so everywhere: in a loop, the
replacement may be computed anew before the removed result is.  `Tracks` relates the frames
of the two runs.

**Results.** `Transparent.refines`: the rewritten function does the same in no more steps.
-/

namespace ScalarSsa

theorem Block.phis_rewrite
    {keep : Instr → Bool}
    {change : Operand → Operand}
    {b : Block}
    (h : ∀ i ∈ b.body, i.kind.isPhi = false) :
    (b.rewrite keep change).phis = (b.phis.filter keep).map (Instr.mapOperands change) ∧
      (b.rewrite keep change).body =
        (b.body.filter keep).map (Instr.mapOperands change) := by
  refine Block.phis_and_body ?_ ?_ ?_
  · rw [Block.instrs_rewrite, ← b.phis_append_body, List.filter_append, List.map_append]
  · intro i hi
    obtain ⟨j, hj, rfl⟩ := List.mem_map.1 hi
    simpa [Instr.mapOperands] using Block.isPhi_of_mem_phis (List.mem_filter.1 hj).1
  · intro i hi
    obtain ⟨j, hj, rfl⟩ := List.mem_map.1 hi
    simpa [Instr.mapOperands] using h j (List.mem_filter.1 hj).1

namespace Machine

open ScalarSsa.Function

/-! ## What may be rewritten -/

/-- Two operands are the same or related constants. -/
def OperandLike (rel : Float → Float → Prop) (o o' : Operand) : Prop :=
  o = o' ∨ ∃ x y, o = .const x ∧ o' = .const y ∧ rel x y

/--
An operand is worth what an instruction computes: what comes into a phi, or the value of any
other instruction.
-/
structure Worth (rel : Float → Float → Prop) (i : Instr) (o : Operand) : Prop where
  incoming : ∀ type incoming, i.kind = .phi type incoming → ∀ pred o',
    incoming.find? (fun edge => edge.2 == pred) = some (o', pred) → o' = .result i.dest ∨
      OperandLike rel o' o
  value : ∀ (frame : Frame) d, frame.request i = .ok (.value d) → ∃ d',
    frame.read o = .ok d' ∧ d.Like rel d'

/-- A rewriting that a run cannot see, given the results that are still used. -/
structure Transparent (rel : Float → Float → Prop) (f : Function) (keep : Instr → Bool)
    (change : Operand → Operand)
    (live : ValueId → Prop) : Prop where
  plain : ∀ o, (∀ v, o ≠ .result v) → change o = o
  same : ∀ b ∈ f.blocks, ∀ i ∈ b.instrs, keep i = true →
    change (.result i.dest) = .result i.dest
  calls : ∀ b ∈ f.blocks, ∀ i ∈ b.instrs, keep i = false → ∀ callee name args,
    i.kind ≠ .call callee name args
  instrs : ∀ b ∈ f.blocks, ∀ i ∈ b.instrs, keep i = true → ∀ v,
    .result v ∈ i.kind.operands → live v
  ends : ∀ b ∈ f.blocks, ∀ v, .result v ∈ b.termOperands → live v
  worth : ∀ b ∈ f.blocks, ∀ i ∈ b.instrs, keep i = false → live i.dest →
    Worth rel i (change (.result i.dest))
  stands : ∀ b ∈ f.blocks, ∀ i ∈ b.instrs, keep i = false → live i.dest →
    ∀ w, change (.result i.dest) = .result w → f.Kept keep w ∧ f.Precedes w i.dest

/-- An instruction of a block has run and its result can be used at a point. -/
def Current (f : Function) (d : Block) (i : Instr) : Point → Prop
  | .before none _ => False
  | .before (some pred) _ => f.Dominates d.id pred
  | .inside b rest => d.id ≠ b.id ∧ f.Dominates d.id b.id ∨ d.id = b.id ∧ ∃ pre,
      b.instrs = pre ++ rest ∧ i ∈ pre

section Rewriting

variable
  {rel : Float → Float → Prop}
  {f : Function}
  {keep : Instr → Bool}
  {change : Operand → Operand}
  {live : ValueId → Prop}
  {path : List BlockId}
  {frame frame' : Frame}
  {b : Block}
  {i : Instr}
  {pre rest : List Instr}

variable (rel f keep change live) in
/--
The removed results that can be used at a point have values like those of
their replacements.
-/
def Settled (frame : Frame) (point : Point) : Prop :=
  ∀ d ∈ f.blocks, ∀ i ∈ d.instrs, keep i = false → live i.dest → Current f d i point →
    ∀ x, frame.get? i.dest = some x → ∃ y, frame.read (change (.result i.dest)) =
      .ok y ∧ x.Like rel y

variable (rel f keep) in
/--
The frame of the rewritten function has like arguments and like values of the
results that are kept.
-/
structure Tracks (frame frame' : Frame) : Prop where
  args : List.Forall₂ rel frame.args frame'.args
  kept : ∀ v, f.Kept keep v → ∀ x, frame.get? v = some x → ∃ y,
    frame'.get? v = some y ∧ x.Like rel y

/-! ## Operands -/

theorem kept_of_mem
    (hresults : f.results.Nodup)
    (hb : b ∈ f.blocks)
    (hi : i ∈ b.instrs)
    (hkeep : keep i = true) :
    f.Kept keep i.dest := by
  intro j hj hdest
  rwa [List.inj_on_of_nodup_map hresults hj (mem_instrs_iff.2 ⟨b, hb, hi⟩) hdest]

theorem exists_related
    {xs ys : List Float}
    (h : List.Forall₂ rel xs ys)
    {n : Nat}
    {x : Float}
    (hx : xs[n]? = some x) :
    ∃ y, ys[n]? = some y ∧ rel x y := by
  induction h generalizing n with
  | nil => simp at hx
  | @cons a b xs ys hab _ ih =>
      cases n with
      | zero =>
          simp only [List.getElem?_cons_zero, Option.some.injEq] at hx ⊢
          exact ⟨b, rfl, hx ▸ hab⟩
      | succ n => exact ih hx

/-- An operand that is not removed has like values. -/
theorem Tracks.read
    (hrel : Tolerance rel)
    (h : Tracks rel f keep frame frame')
    {o : Operand}
    (ho : ∀ w, o = .result w → f.Kept keep w)
    {x : Datum}
    (hread : frame.read o = .ok x) :
    ∃ y, frame'.read o = .ok y ∧ x.Like rel y := by
  cases o with
  | const c => exact ⟨x, hread, .refl hrel x⟩
  | bool c => exact ⟨x, hread, .refl hrel x⟩
  | arg position =>
      simp only [Frame.read] at hread ⊢
      cases hx : frame.args[position]? with
      | none =>
          rw [hx] at hread
          cases hread
      | some a =>
          rw [hx] at hread
          cases hread
          obtain ⟨a', ha', hlike⟩ := exists_related h.args hx
          exact ⟨.double a', by rw [ha'], .double hlike⟩
  | result w =>
      obtain ⟨y, hy, hlike⟩ := h.kept w (ho w rfl) x (Frame.get?_of_read hread)
      exact ⟨y, by rw [Frame.read_result, hy], hlike⟩

/-- An operand that is used at a point has a value like the one of what takes its place. -/
theorem Settled.read
    (hrel : Tolerance rel)
    (hresults : f.results.Nodup)
    (hT : Transparent rel f keep change live)
    {point : Point}
    (hs : Settled rel f keep change live frame point)
    (ht : Tracks rel f keep frame frame')
    {o : Operand}
    (ho : ∀ v, o = .result v → live v ∧ ∃ d ∈ f.blocks, ∃ j ∈ d.instrs, j.dest = v ∧
      Current f d j point)
    {x : Datum}
    (hread : frame.read o = .ok x) :
    ∃ y, frame'.read (change o) = .ok y ∧ x.Like rel y := by
  by_cases hv : ∃ v, o = .result v
  · obtain ⟨v, rfl⟩ := hv
    obtain ⟨hlive, d, hd, j, hj, rfl, hcurrent⟩ := ho v rfl
    cases hkeep : keep j with
    | true =>
        have hkept := kept_of_mem hresults hd hj hkeep
        rw [hT.same d hd j hj hkeep]
        refine ht.read hrel ?_ hread
        rintro w ⟨⟩
        exact hkept
    | false =>
        obtain ⟨y, hy, hlike⟩ :=
          hs d hd j hj hkeep hlive hcurrent x (Frame.get?_of_read hread)
        obtain ⟨z, hz, hlike'⟩ :=
          ht.read hrel (fun w hw => (hT.stands d hd j hj hkeep hlive w hw).1) hy
        exact ⟨z, hz, hlike.trans hrel hlike'⟩
  · have hplain : ∀ v, o ≠ .result v := fun v hov => hv ⟨v, hov⟩
    rw [hT.plain o hplain]
    exact ht.read hrel (fun w hw => absurd hw (hplain w)) hread

/-- What an instruction uses can be used where it runs. -/
theorem Within.current
    (hwf : f.WellFormed)
    (h : Within f path frame b pre (i :: rest))
    {v : ValueId}
    (hv : .result v ∈ i.kind.operands) :
    ∃ d ∈ f.blocks, ∃ j ∈ d.instrs, j.dest = v ∧ Current f d j (.inside b (i :: rest)) := by
  rcases hwf.uses b h.mem ⟨path, h.trail⟩ pre i rest h.split
    (h.plain i List.mem_cons_self) v hv with
    hpre | ⟨d, hd, hne, hmem, hdom⟩
  · obtain ⟨j, hj, rfl⟩ := List.mem_map.1 hpre
    exact ⟨b, h.mem, j, by simp [h.split, hj], rfl, .inr ⟨rfl, pre, h.split, hj⟩⟩
  · obtain ⟨j, hj, rfl⟩ := List.mem_map.1 hmem
    exact ⟨d, hd, j, hj, rfl, .inl ⟨hne, hdom⟩⟩

theorem current_of_dominates
    (hsplit : b.instrs = pre ++ [])
    (hids : f.blockIds.Nodup)
    (hb : b ∈ f.blocks)
    {d : Block}
    (hd : d ∈ f.blocks)
    (hdom : f.Dominates d.id b.id)
    {j : Instr}
    (hj : j ∈ d.instrs) :
    Current f d j (.inside b []) := by
  by_cases hid : d.id = b.id
  · obtain rfl := block_eq_of_id_eq hids hd hb hid
    rw [hsplit, List.append_nil] at hj
    exact .inr ⟨rfl, pre, hsplit, hj⟩
  · exact .inl ⟨hid, hdom⟩

/-- What a terminator uses can be used at the end of its block. -/
theorem Within.current_end
    (hwf : f.WellFormed)
    (h : Within f path frame b pre [])
    {v : ValueId}
    (hv : .result v ∈ b.termOperands) :
    ∃ d ∈ f.blocks, ∃ j ∈ d.instrs, j.dest = v ∧ Current f d j (.inside b []) := by
  obtain ⟨d, hd, hmem, hdom⟩ := hwf.ends b h.mem ⟨path, h.trail⟩ v hv
  obtain ⟨j, hj, rfl⟩ := List.mem_map.1 hmem
  exact ⟨d, hd, j, hj, rfl, current_of_dominates h.split hwf.ids_nodup h.mem hd hdom hj⟩

/-! ## Instructions and terminators -/

/-- Two requests are like values, or calls of one function with related arguments. -/
inductive RequestLike (rel : Float → Float → Prop) : Request → Request → Prop
  | value {d d' : Datum} (h : d.Like rel d') : RequestLike rel (.value d) (.value d')
  | call (callee : FuncId) {args args' : List Float} (h : List.Forall₂ rel args args') :
      RequestLike rel (.call callee args) (.call callee args')

section Reading

variable {o o' : Operand}
  (h : ∀ x, frame.read o = .ok x → ∃ y, frame'.read o' = .ok y ∧ x.Like rel y)

include h

theorem readDouble_like
    {x : Float}
    (hx : frame.readDouble o = .ok x) :
    ∃ y, frame'.readDouble o' = .ok y ∧ rel x y := by
  rw [Frame.readDouble_eq] at hx
  cases hread : frame.read o with
  | error e =>
      rw [hread] at hx
      cases hx
  | ok d =>
      rw [hread] at hx
      cases d with
      | bool c => cases hx
      | double a =>
          cases hx
          obtain ⟨y, hy, hlike⟩ := h _ hread
          cases hlike with
          | @double _ a' hrel => exact ⟨a', Frame.readDouble_of_read hy, hrel⟩

theorem readBool_like
    {c : Bool}
    (hc : frame.readBool o = .ok c) :
    frame'.readBool o' = .ok c := by
  rw [Frame.readBool_eq] at hc
  cases hread : frame.read o with
  | error e =>
      rw [hread] at hc
      cases hc
  | ok d =>
      rw [hread] at hc
      cases d with
      | double a => cases hc
      | bool c' =>
          cases hc
          obtain ⟨y, hy, hlike⟩ := h _ hread
          cases hlike with
          | bool => exact Frame.readBool_of_read hy

end Reading

theorem readDoubles_like
    {os : List Operand}
    (h : ∀ o ∈ os, ∀ x, frame.read o = .ok x → ∃ y,
      frame'.read (change o) = .ok y ∧ x.Like rel y)
    {xs : List Float}
    (hxs : frame.readDoubles os = .ok xs) :
    ∃ ys, frame'.readDoubles (os.map change) = .ok ys ∧ List.Forall₂ rel xs ys := by
  induction os generalizing xs with
  | nil =>
      cases hxs
      exact ⟨[], rfl, .nil⟩
  | cons o os ih =>
      obtain ⟨x, xs', hx, hxs', rfl⟩ := Frame.readDoubles_cons_eq_ok hxs
      obtain ⟨y, hy, hlike⟩ := readDouble_like (h o List.mem_cons_self) hx
      obtain ⟨ys, hys, hlikes⟩ := ih (fun o ho => h o (List.mem_cons_of_mem _ ho)) hxs'
      exact ⟨y :: ys, Frame.readDoubles_cons hy hys, .cons hlike hlikes⟩

/-- An instruction whose operands have like values asks for the like. -/
theorem request_mapOperands
    (hrel : Tolerance rel)
    (h : ∀ o ∈ i.kind.operands, ∀ x, frame.read o = .ok x → ∃ y,
      frame'.read (change o) = .ok y ∧ x.Like rel y)
    {r : Request}
    (hr : frame.request i = .ok r) :
    ∃ r', frame'.request (i.mapOperands change) = .ok r' ∧ RequestLike rel r r' := by
  unfold Frame.request at hr ⊢
  simp only [Instr.mapOperands]
  cases hkind : i.kind with
  | arith op lhs rhs =>
      rw [hkind] at hr h
      obtain ⟨x, hx, hr⟩ := of_bind_eq_ok hr
      obtain ⟨y, hy, hr⟩ := of_bind_eq_ok hr
      cases hr
      obtain ⟨x', hx', hxx⟩ := readDouble_like (h lhs (by simp [InstrKind.operands])) hx
      obtain ⟨y', hy', hyy⟩ := readDouble_like (h rhs (by simp [InstrKind.operands])) hy
      exact ⟨_, by simp only [InstrKind.mapOperands, hx', hy']; rfl,
        .value (.double (hrel.arith op hxx hyy))⟩
  | compare pred lhs rhs =>
      rw [hkind] at hr h
      obtain ⟨x, hx, hr⟩ := of_bind_eq_ok hr
      obtain ⟨y, hy, hr⟩ := of_bind_eq_ok hr
      cases hr
      obtain ⟨x', hx', hxx⟩ := readDouble_like (h lhs (by simp [InstrKind.operands])) hx
      obtain ⟨y', hy', hyy⟩ := readDouble_like (h rhs (by simp [InstrKind.operands])) hy
      refine ⟨_, by simp only [InstrKind.mapOperands, hx', hy']; rfl, .value ?_⟩
      rw [hrel.compare pred hxx hyy]
      exact .bool _
  | promote src =>
      rw [hkind] at hr h
      obtain ⟨c, hc, hr⟩ := of_bind_eq_ok hr
      cases hr
      have hc' := readBool_like (h src (by simp [InstrKind.operands])) hc
      exact ⟨_, by simp only [InstrKind.mapOperands, hc']; rfl,
        .value (.double (hrel.refl _))⟩
  | call callee name args =>
      rw [hkind] at hr h
      obtain ⟨xs, hxs, hr⟩ := of_bind_eq_ok hr
      cases hr
      obtain ⟨ys, hys, hlikes⟩ : ∃ ys, frame'.readDoubles (args.map change) = .ok ys ∧
        List.Forall₂ rel xs ys :=
        readDoubles_like h hxs
      exact ⟨_, by simp only [InstrKind.mapOperands, hys]; rfl, .call callee hlikes⟩
  | phi type incoming =>
      rw [hkind] at hr
      cases hr

/-- Two ends of a block return related values or go on in the same block. -/
inductive NextLike (rel : Float → Float → Prop) : Next → Next → Prop
  | done {x y : Float} (h : rel x y) : NextLike rel (.done x) (.done y)
  | goTo (target : BlockId) : NextLike rel (.goTo target) (.goTo target)

/-- A block whose terminator's operands have like values ends in the like. -/
theorem runTerm_rewrite
    (h : ∀ o ∈ b.termOperands, ∀ x, frame.read o = .ok x → ∃ y,
      frame'.read (change o) = .ok y ∧ x.Like rel y)
    {next : Next}
    (hnext : runTerm frame f b = .ok next) :
    ∃ next', runTerm frame' (f.rewrite keep change) (b.rewrite keep change) = .ok next' ∧
      NextLike rel next next' := by
  unfold runTerm at hnext ⊢
  simp only [Block.rewrite, Block.mapOperands]
  cases hterm : b.term with
  | none =>
      rw [hterm] at hnext
      cases hnext
  | some term =>
      simp only [Block.termOperands, hterm] at h hnext
      cases term with
      | jump target =>
          cases hnext
          exact ⟨.goTo target, rfl, .goTo target⟩
      | branch cond thenBlock elseBlock =>
          obtain ⟨c, hc, hnext⟩ := of_bind_eq_ok hnext
          cases hnext
          have hc' := readBool_like (h cond (by simp [Terminator.operands])) hc
          exact ⟨_, by simp only [Option.map_some, Terminator.mapOperands, hc']; rfl,
            .goTo _⟩
      | ret value =>
          obtain ⟨x, hx, hnext⟩ := of_bind_eq_ok hnext
          cases hnext
          obtain ⟨y, hy, hlike⟩ :=
            readDouble_like (h value (by simp [Terminator.operands])) hx
          exact ⟨.done y, by simp only [Option.map_some, Terminator.mapOperands, hy]; rfl,
            .done hlike⟩

/-! ## Removed results along a run -/

/-- The replacement of a result that is current in a block is not computed in that block. -/
theorem Transparent.stands_outside
    (hwf : f.WellFormed)
    (hT : Transparent rel f keep change live)
    (hb : b ∈ f.blocks)
    (hreach : f.Reachable b.id)
    {d : Block}
    (hd : d ∈ f.blocks)
    (hdom : f.Dominates d.id b.id)
    {j : Instr}
    (hj : j ∈ d.instrs)
    (hkeep : keep j = false)
    (hlive : live j.dest)
    {w : ValueId}
    (hw : change (.result j.dest) = .result w) :
    w ∉ b.results := by
  obtain ⟨upper, hupper, lower, hlower, hwu, hjl, hprec⟩ :=
    (hT.stands d hd j hj hkeep hlive w hw).2
  obtain rfl :=
    block_eq_of_mem_results hwf.results_nodup hlower hd hjl (List.mem_map_of_mem hj)
  obtain ⟨hne, hup⟩ := hprec (hdom.reachable hreach)
  intro hwb
  obtain rfl := block_eq_of_mem_results hwf.results_nodup hupper hb hwu hwb
  exact hne (hup.antisymm hdom (hdom.reachable hreach))

/--
What a block computes does not touch the results that are current in it from outside, nor
their replacements.
-/
theorem Settled.congr
    (hwf : f.WellFormed)
    (hT : Transparent rel f keep change live)
    (hb : b ∈ f.blocks)
    (hreach : f.Reachable b.id)
    {d : Block}
    (hd : d ∈ f.blocks)
    (hdom : f.Dominates d.id b.id)
    {j : Instr}
    (hj : j ∈ d.instrs)
    (hkeep : keep j = false)
    (hlive : live j.dest)
    {later : Frame}
    (hargs : later.args = frame.args)
    (hsame : ∀ v, v ∉ b.results → later.get? v = frame.get? v)
    {x : Datum}
    (h : ∃ y, frame.read (change (.result j.dest)) = .ok y ∧ x.Like rel y) :
    ∃ y, later.read (change (.result j.dest)) = .ok y ∧ x.Like rel y := by
  have hread : later.read (change (.result j.dest)) =
      frame.read (change (.result j.dest)) :=
    Frame.read_congr hargs fun w hw =>
      hsame w (hT.stands_outside hwf hb hreach hd hdom hj hkeep hlive hw)
  rwa [hread]

theorem Settled.step
    (hwf : f.WellFormed)
    (hT : Transparent rel f keep change live)
    (hwithin : Within f path frame b pre (i :: rest))
    (hs : Settled rel f keep change live frame (.inside b (i :: rest)))
    {x : Datum}
    (hx : keep i = false → frame.request i = .ok (.value x)) :
    Settled rel f keep change live (frame.set i.dest x) (.inside b rest) := by
  intro d hd j hj hkeep hlive hcurrent y hy
  have hreach : f.Reachable b.id := ⟨path, hwithin.trail⟩
  have hsame : ∀ v, v ∉ b.results → (frame.set i.dest x).get? v = frame.get? v := by
    intro v hv
    rw [Frame.get?_set, if_neg]
    rintro rfl
    exact hv (List.mem_map_of_mem hwithin.instr_mem)
  have hdom : f.Dominates d.id b.id := by
    rcases hcurrent with ⟨-, hdom⟩ | ⟨hid, -⟩
    · exact hdom
    · exact hid ▸ .refl f d.id
  refine Settled.congr hwf hT hwithin.mem hreach hd hdom hj hkeep hlive
    (Frame.args_set frame i.dest x) hsame ?_
  by_cases hji : j.dest = i.dest
  · -- the instruction that just ran was removed
    obtain rfl : j = i :=
      List.inj_on_of_nodup_map hwf.results_nodup (mem_instrs_iff.2 ⟨d, hd, hj⟩)
      (mem_instrs_iff.2 ⟨b, hwithin.mem, hwithin.instr_mem⟩) hji
    rw [Frame.get?_set, if_pos rfl] at hy
    cases hy
    exact (hT.worth d hd j hj hkeep hlive).value frame x (hx hkeep)
  · rw [Frame.get?_set, if_neg hji] at hy
    refine hs d hd j hj hkeep hlive ?_ y hy
    rcases hcurrent with hout | ⟨hid, pre', hsplit, hmem⟩
    · exact .inl hout
    · have hpre : pre' = pre ++ [i] := by
        refine (List.append_left_inj rest).1 ?_
        rw [← hsplit, hwithin.split, List.append_assoc]
        rfl
      rw [hpre, List.mem_append, List.mem_singleton] at hmem
      refine .inr ⟨hid, pre, hwithin.split, hmem.resolve_right ?_⟩
      rintro rfl
      exact hji rfl

theorem Settled.leave
    (hwf : f.WellFormed)
    (hwithin : Within f path frame b pre [])
    (hs : Settled rel f keep change live frame (.inside b []))
    (target : BlockId) :
    Settled rel f keep change live frame (.before (some b.id) target) := by
  intro d hd j hj hkeep hlive hcurrent
  exact hs d hd j hj hkeep hlive
    (current_of_dominates hwithin.split hwf.ids_nodup hwithin.mem hd hcurrent hj)

/-- A block that dominates another one strictly dominates its predecessors. -/
theorem current_of_arriving
    {prev : Option BlockId}
    (harriving : Arriving f path frame prev b.id)
    {d : Block}
    (hne : d.id ≠ b.id)
    (hdom : f.Dominates d.id b.id)
    (j : Instr) :
    Current f d j (.before prev b.id) := by
  rw [harriving.prev_eq]
  have htrail := harriving.trail
  cases htrail with
  | start hentry =>
      have hmem := hdom [] (.start hentry)
      simp [hne] at hmem
  | @step pred _ path htrail edge =>
      intro path' htrail'
      have hmem := hdom (pred :: path') (.step htrail' edge)
      exact (List.mem_cons.1 hmem).resolve_left hne

/-- The edge over which a phi is reached, whose operand can be used there. -/
theorem exists_edge_current
    (hwf : f.WellFormed)
    (hplain : EntryPlain f)
    (hb : b ∈ f.blocks)
    {prev : Option BlockId}
    (harriving : Arriving f path frame prev b.id)
    (hi : i ∈ b.instrs)
    {type : ValueType}
    {incoming : List (Operand × BlockId)}
    (hkind : i.kind = .phi type incoming) :
    ∃ pred o, prev = some pred ∧ (o, pred) ∈ incoming ∧
      incoming.find? (fun edge => edge.2 == pred) = some (o, pred) ∧
      ∀ v, o = .result v → ∃ d ∈ f.blocks, ∃ j ∈ d.instrs, j.dest = v ∧
        Current f d j (.before prev b.id) := by
  have hblock := (block?_eq_some_iff hwf.ids_nodup).2 ⟨hb, rfl⟩
  obtain ⟨pred, o, hhead, htrail, hin, hfind⟩ :=
    harriving.exists_edge hwf hplain hblock hi hkind
  have hprev : prev = some pred := harriving.prev_eq.trans hhead
  refine ⟨pred, o, hprev, hin, hfind, ?_⟩
  rintro v rfl
  obtain ⟨path', rfl⟩ : ∃ path', path = pred :: path' := List.head?_eq_some_iff.1 hhead
  obtain ⟨d, hd, hv, hdom⟩ :=
    hwf.edges b hb i hi type incoming hkind v pred hin ⟨path', htrail⟩
  obtain ⟨j, hj, rfl⟩ := List.mem_map.1 hv
  exact ⟨d, hd, j, hj, rfl, hprev ▸ hdom⟩

theorem OperandLike.read
    (hrel : Tolerance rel)
    {o o' : Operand}
    (h : OperandLike rel o o')
    {x : Datum}
    (hx : frame.read o = .ok x) :
    ∃ y, frame.read o' = .ok y ∧ x.Like rel y := by
  rcases h with rfl | ⟨a, c, rfl, rfl, hac⟩
  · exact ⟨x, hx, .refl hrel x⟩
  · cases hx
    exact ⟨.double c, rfl, .double hac⟩

theorem exists_phi
    (h : i ∈ b.phis) :
    ∃ type incoming, i.kind = .phi type incoming := by
  have hphi := Block.isPhi_of_mem_phis h
  cases hkind : i.kind with
  | phi type incoming => exact ⟨type, incoming, rfl⟩
  | _ =>
      rw [hkind] at hphi
      cases hphi

theorem get?_of_enter
    {entered : Frame}
    {prev : Option BlockId}
    (hentered : enter frame prev b = .ok entered)
    {v : ValueId}
    (hv : v ∉ b.results) :
    entered.get? v = frame.get? v := by
  refine (enter_spec hentered).2.1 v ?_
  intro hmem
  obtain ⟨j, hj, rfl⟩ := List.mem_map.1 hmem
  exact hv (List.mem_map_of_mem (Block.mem_instrs_of_mem_phis hj))

theorem Settled.enter
    (hrel : Tolerance rel)
    (hwf : f.WellFormed)
    (hplain : EntryPlain f)
    (hT : Transparent rel f keep change live)
    (hb : b ∈ f.blocks)
    {prev : Option BlockId}
    (harriving : Arriving f path frame prev b.id)
    {entered : Frame}
    (hentered : enter frame prev b = .ok entered)
    (hs : Settled rel f keep change live frame (.before prev b.id)) :
    Settled rel f keep change live entered (.inside b b.body) := by
  intro d hd j hj hkeep hlive hcurrent x hx
  have hreach : f.Reachable b.id := ⟨path, harriving.trail⟩
  obtain ⟨hargs, -, hphis⟩ := enter_spec hentered
  rcases hcurrent with ⟨hne, hdom⟩ | ⟨hid, pre, hsplit, hmem⟩
  · refine Settled.congr hwf hT hb hreach hd hdom hj hkeep hlive hargs (fun v =>
      get?_of_enter hentered) ?_
    have hj' : j.dest ∉ b.results := by
      intro hmem
      exact hne
        (congrArg Block.id
          (block_eq_of_mem_results hwf.results_nodup hd hb (List.mem_map_of_mem hj) hmem))
    rw [get?_of_enter hentered hj'] at hx
    exact hs d hd j hj hkeep hlive (current_of_arriving harriving hne hdom j) x hx
  · obtain rfl := block_eq_of_id_eq hwf.ids_nodup hd hb hid
    refine Settled.congr hwf hT hb hreach hd (.refl f d.id) hj hkeep hlive hargs (fun v =>
      get?_of_enter hentered) ?_
    obtain rfl : pre = d.phis :=
      List.append_cancel_right (hsplit.symm.trans d.phis_append_body.symm)
    obtain ⟨type, incoming, hkind⟩ := exists_phi hmem
    obtain ⟨y, hread, hget⟩ :=
      hphis (phis_nodup_of_mem hwf.results_nodup hd) j hmem type incoming hkind
    obtain rfl : y = x := Option.some.inj (hget.symm.trans hx)
    obtain ⟨pred, o, hprev, hin, hfind, hcurrent⟩ :=
      exists_edge_current hwf hplain hb harriving hj hkind
    have ho : frame.read o = .ok y := by simpa only [readPhi, hprev, hfind] using hread
    rcases (hT.worth d hd j hj hkeep hlive).incoming type incoming hkind pred o
      hfind with hself | hlike
    · -- the phi keeps its value over this edge, so it was current before
      obtain rfl : o = .result j.dest := hself
      obtain ⟨c, hc, k, hk, hdest, hcur⟩ := hcurrent j.dest rfl
      obtain rfl :=
        List.inj_on_of_nodup_map hwf.results_nodup (mem_instrs_iff.2 ⟨c, hc, hk⟩)
        (mem_instrs_iff.2 ⟨d, hd, hj⟩) hdest
      exact hs c hc k hk hkeep hlive hcur y (Frame.get?_of_read ho)
    · exact hlike.read hrel ho

/-! ## Kept results along a run -/

theorem Tracks.set
    (h : Tracks rel f keep frame frame')
    {x y : Datum}
    (hlike : x.Like rel y)
    (v : ValueId) :
    Tracks rel f keep (frame.set v x) (frame'.set v y) where
  args := by
    rw [Frame.args_set, Frame.args_set]
    exact h.args
  kept := by
    intro w hw a ha
    rw [Frame.get?_set] at ha ⊢
    by_cases hwv : w = v
    · rw [if_pos hwv] at ha ⊢
      cases ha
      exact ⟨y, rfl, hlike⟩
    · rw [if_neg hwv] at ha ⊢
      exact h.kept w hw a ha

/-- The rewritten function does not see the results that are removed. -/
theorem Tracks.skip
    (h : Tracks rel f keep frame frame')
    (hi : i ∈ f.instrs)
    (hkeep : keep i = false)
    (x : Datum) :
    Tracks rel f keep (frame.set i.dest x) frame' where
  args := by
    rw [Frame.args_set]
    exact h.args
  kept := by
    intro w hw a ha
    rw [Frame.get?_set, if_neg] at ha
    · exact h.kept w hw a ha
    · rintro rfl
      rw [hw i hi rfl] at hkeep
      cases hkeep

section Enter

variable
  (hrel : Tolerance rel)
  (hwf : f.WellFormed)
  (hplain : EntryPlain f)
  (hT : Transparent rel f keep change live)
  (hb : b ∈ f.blocks)
  {prev : Option BlockId}
  (harriving : Arriving f path frame prev b.id)
  (hs : Settled rel f keep change live frame (.before prev b.id))
  (ht : Tracks rel f keep frame frame')

include hrel hwf hplain hT hb harriving hs ht

/-- A kept phi reads the like of what it read, over the same edge. -/
theorem Tracks.readPhi
    (hi : i ∈ b.instrs)
    (hkeep : keep i = true)
    {type : ValueType}
    {incoming : List (Operand × BlockId)}
    (hkind : i.kind = .phi type incoming)
    {d : Datum}
    (hd : readPhi frame prev i.dest incoming = .ok d) :
    ∃ d', Machine.readPhi frame' prev i.dest (incoming.map fun edge =>
      (change edge.1, edge.2)) = .ok d' ∧
      d.Like rel d' := by
  obtain ⟨pred, o, hprev, hin, hfind, hcurrent⟩ :=
    exists_edge_current hwf hplain hb harriving hi hkind
  have ho : frame.read o = .ok d := by simpa only [Machine.readPhi, hprev, hfind] using hd
  have hused : ∀ v, o = .result v →
      live v ∧ ∃ d ∈ f.blocks, ∃ j ∈ d.instrs, j.dest = v ∧
      Current f d j (.before prev b.id) := by
    rintro v rfl
    refine ⟨hT.instrs b hb i hi hkeep v ?_, hcurrent v rfl⟩
    rw [hkind]
    exact List.mem_map_of_mem hin
  obtain ⟨d', hd', hlike⟩ := hs.read hrel hwf.results_nodup hT ht hused ho
  refine ⟨d', ?_, hlike⟩
  have hfind' : (incoming.map fun edge => (change edge.1, edge.2)).find? (fun edge =>
    edge.2 == pred) =
      some (change o, pred) := by
    rw [List.find?_map]
    simp only [Function.comp_def, hfind, Option.map_some]
  simpa only [Machine.readPhi, hprev, hfind'] using hd'

/-- The phis that are kept have like values. -/
theorem Tracks.enter
    {entered : Frame}
    (hentered : enter frame prev b = .ok entered) :
    ∃ entered', Machine.enter frame' prev (b.rewrite keep change) = .ok entered' ∧
      Tracks rel f keep entered entered' := by
  obtain ⟨hargs, hsame, hphis⟩ := enter_spec hentered
  have hphis' : (b.rewrite keep change).phis =
      (b.phis.filter keep).map (Instr.mapOperands change) :=
    (Block.phis_rewrite (hwf.phis_first b hb)).1
  have hnodup := phis_nodup_of_mem hwf.results_nodup hb
  obtain ⟨entered', hentered'⟩ : ∃ entered',
    Machine.enter frame' prev (b.rewrite keep change) = .ok entered' := by
    refine exists_enter ?_
    rw [hphis']
    intro i' hi' type incoming' hkind'
    obtain ⟨i, hi, rfl⟩ := List.mem_map.1 hi'
    obtain ⟨hi, hkeep⟩ := List.mem_filter.1 hi
    obtain ⟨incoming, hkind, rfl⟩ := InstrKind.mapOperands_eq_phi hkind'
    obtain ⟨d, hd, -⟩ := hphis hnodup i hi type incoming hkind
    obtain ⟨d', hd', -⟩ :=
      ht.readPhi hrel hwf hplain hT hb harriving hs
        (Block.mem_instrs_of_mem_phis hi) hkeep hkind hd
    exact ⟨d', hd'⟩
  obtain ⟨hargs', hsame', hphis''⟩ := enter_spec hentered'
  refine ⟨entered', hentered', ?_, ?_⟩
  · rw [hargs, hargs']
    exact ht.args
  · intro v hv x hx
    by_cases hmem : v ∈ b.phis.map (·.dest)
    · obtain ⟨i, hi, rfl⟩ := List.mem_map.1 hmem
      have hib := Block.mem_instrs_of_mem_phis hi
      have hkeep := hv i (mem_instrs_iff.2 ⟨b, hb, hib⟩) rfl
      obtain ⟨type, incoming, hkind⟩ := exists_phi hi
      obtain ⟨d, hd, hget⟩ := hphis hnodup i hi type incoming hkind
      cases hget.symm.trans hx
      obtain ⟨d', hd', hlike⟩ :=
        ht.readPhi hrel hwf hplain hT hb harriving hs hib hkeep hkind hd
      have hnodup' : ((b.rewrite keep change).phis.map (·.dest)).Nodup := by
        rw [hphis', List.map_map]
        exact hnodup.sublist (List.filter_sublist.map _)
      have hmem' : i.mapOperands change ∈ (b.rewrite keep change).phis := by
        rw [hphis']
        exact List.mem_map_of_mem (List.mem_filter.2 ⟨hi, hkeep⟩)
      obtain ⟨e', he', hget'⟩ :=
        hphis'' hnodup' _ hmem' type (incoming.map fun edge => (change edge.1, edge.2))
        (by simp only [Instr.mapOperands, hkind, InstrKind.mapOperands])
      cases hd'.symm.trans he'
      exact ⟨d', hget', hlike⟩
    · have hmem' : v ∉ (b.rewrite keep change).phis.map (·.dest) := by
        rw [hphis', List.map_map]
        intro hin
        obtain ⟨i, hi, rfl⟩ := List.mem_map.1 hin
        exact hmem (List.mem_map.2 ⟨i, (List.mem_filter.1 hi).1, rfl⟩)
      rw [hsame v hmem] at hx
      rw [hsame' v hmem']
      exact ht.kept v hv x hx

end Enter

/-! ## Whole runs -/

variable (keep change) in
/-- The point of the rewritten function that corresponds to a point. -/
def Point.rewrite : Point → Point
  | .before prev target => .before prev target
  | .inside b rest =>
    .inside (b.rewrite keep change) ((rest.filter keep).map (Instr.mapOperands change))

theorem block?_rewrite
    (id : BlockId) :
    (f.rewrite keep change).block? id = (f.block? id).map (Block.rewrite keep change) := by
  simp only [rewrite, mapBlocks, block?, List.find?_map, Function.comp_def,
    Block.rewrite_id]

section Runs

variable
  (hrel : Tolerance rel)
  (hwf : f.WellFormed)
  (hT : Transparent rel f keep change live)

include hrel hwf hT

/-- A kept instruction asks for the like. -/
theorem Settled.request
    (hwithin : Within f path frame b pre (i :: rest))
    (hs : Settled rel f keep change live frame (.inside b (i :: rest)))
    (ht : Tracks rel f keep frame frame')
    (hkeep : keep i = true)
    {r : Request}
    (hr : frame.request i = .ok r) :
    ∃ r', frame'.request (i.mapOperands change) = .ok r' ∧ RequestLike rel r r' := by
  refine request_mapOperands hrel ?_ hr
  intro o ho x hx
  refine hs.read hrel hwf.results_nodup hT ht ?_ hx
  rintro v rfl
  exact ⟨hT.instrs b hwithin.mem i hwithin.instr_mem hkeep v ho, hwithin.current hwf ho⟩

/-- A block ends in the like. -/
theorem Settled.runTerm
    (hwithin : Within f path frame b pre [])
    (hs : Settled rel f keep change live frame (.inside b []))
    (ht : Tracks rel f keep frame frame')
    {next : Next}
    (hnext : runTerm frame f b = .ok next) :
    ∃ next', Machine.runTerm frame' (f.rewrite keep change) (b.rewrite keep change) =
      .ok next' ∧
      NextLike rel next next' := by
  refine runTerm_rewrite ?_ hnext
  intro o ho x hx
  refine hs.read hrel hwf.results_nodup hT ht ?_ hx
  rintro v rfl
  exact ⟨hT.ends b hwithin.mem v ho, hwithin.current_end hwf ho⟩

/--
From matching frames, a run of the function is matched by one of the rewritten function.
-/
theorem Transparent.runs
    (hplain : EntryPlain f)
    {call call' : FuncId → List Float → Ending → Prop}
    (hcall : Follows rel call call')
    {point : Point}
    {o : Ending}
    (h : Runs call f frame point o)
    (hsound : Sound f path frame point)
    (hs : Settled rel f keep change live frame point)
    (ht : Tracks rel f keep frame frame') :
    ∃ o', Runs call' (f.rewrite keep change) frame' (point.rewrite keep change) o' ∧
      o.Matches rel o' := by
  have hkept : ∀ {i rest b}, keep i = true →
      Point.rewrite keep change (.inside b (i :: rest)) =
      .inside (b.rewrite keep change)
        (i.mapOperands change :: (rest.filter keep).map (Instr.mapOperands change)) := by
    intro i rest b hkeep
    rw [Point.rewrite, List.filter_cons, if_pos hkeep, List.map_cons]
  have hcalls : ∀ {path frame b pre i rest callee name operands},
      Within f path frame b pre (i :: rest) →
      i.kind = .call callee name operands → keep i = true := by
    intro path frame b pre i rest callee name operands hwithin hkind
    by_contra hkeep
    exact hT.calls b hwithin.mem i hwithin.instr_mem (by simpa using hkeep) callee
      name operands hkind
  refine Runs.sound_induction (motive := fun _ frame point o =>
    ∀ frame', Settled rel f keep change live frame point → Tracks rel f keep frame frame' →
      ∃ o', Runs call' (f.rewrite keep change) frame' (point.rewrite keep change) o' ∧
        o.Matches rel o')
    hwf hplain ?_ ?_ ?_ ?_ ?_ ?_ h path hsound frame' hs ht
  · intro path frame entered prev target b o hblock harriving hentered _ ih frame' hs ht
    obtain ⟨hb, rfl⟩ := mem_of_block?_eq_some hblock
    obtain ⟨entered', hentered', ht'⟩ :=
      ht.enter hrel hwf hplain hT hb harriving hs hentered
    obtain ⟨o', hruns, hmatches⟩ :=
      ih entered' (hs.enter hrel hwf hplain hT hb harriving hentered) ht'
    refine ⟨o', .enter (by rw [block?_rewrite, hblock]; rfl) hentered' ?_, hmatches⟩
    rw [(Block.phis_rewrite (hwf.phis_first b hb)).2]
    exact hruns
  · intro path frame b pre i rest d o hwithin hd _ ih frame' hs ht
    have hs' := hs.step hwf hT hwithin fun _ => hd
    cases hkeep : keep i with
    | true =>
        obtain ⟨_, hd', hlike⟩ := hs.request hrel hwf hT hwithin ht hkeep hd
        cases hlike with
        | value hlike =>
            obtain ⟨o', hruns, hmatches⟩ := ih _ hs' (ht.set hlike i.dest)
            rw [hkept hkeep]
            exact ⟨_, .value hd' hruns, hmatches.after (Nat.le_refl 1) .nil⟩
    | false =>
        obtain ⟨o', hruns, hmatches⟩ := ih frame' hs'
          (ht.skip (mem_instrs_iff.2 ⟨b, hwithin.mem, hwithin.instr_mem⟩) hkeep d)
        refine ⟨o', ?_, hmatches.skip 1⟩
        simpa only [Point.rewrite, List.filter_cons, hkeep, Bool.false_eq_true,
          if_false] using hruns
  · intro path frame b pre i rest callee name operands args steps calls x o hwithin hkind _
      hi hx _ ih frame' hs ht
    have hkeep := hcalls hwithin hkind
    obtain ⟨_, hi', hlike⟩ := hs.request hrel hwf hT hwithin ht hkeep hi
    cases hlike with
    | call _ hargs =>
        obtain ⟨⟨steps', calls', _⟩, hx', hsteps, hcalls', hresult⟩ :=
          hcall callee _ _ _ hargs hx
        cases hresult with
        | ok hxy =>
            obtain ⟨o', hruns, hmatches⟩ := ih _
              (hs.step hwf hT hwithin fun hno => absurd hkeep (by simp [hno]))
                (ht.set (.double hxy) i.dest)
            rw [hkept hkeep]
            exact ⟨_, .call hi' hx' hruns,
              hmatches.after (Nat.add_le_add_left hsteps 1) hcalls'⟩
  · intro path frame b pre i rest callee name operands args steps calls e hwithin hkind _
      hi he frame' hs ht
    have hkeep := hcalls hwithin hkind
    obtain ⟨_, hi', hlike⟩ := hs.request hrel hwf hT hwithin ht hkeep hi
    cases hlike with
    | call _ hargs =>
        obtain ⟨⟨steps', calls', _⟩, he', hsteps, hcalls', hresult⟩ :=
          hcall callee _ _ _ hargs he
        cases hresult with
        | error =>
            rw [hkept hkeep]
            exact ⟨_, .callFault hi' he', Nat.add_le_add_left hsteps 1, hcalls', .error e⟩
  · intro path frame b pre x hwithin hdone frame' hs ht
    obtain ⟨_, hdone', hlike⟩ := hs.runTerm hrel hwf hT hwithin ht hdone
    cases hlike with
    | done hxy => exact ⟨_, .done hdone', Nat.le_refl _, .nil, .ok hxy⟩
  · intro path frame b pre target o hwithin hgoTo _ ih frame' hs ht
    obtain ⟨_, hgoTo', hlike⟩ := hs.runTerm hrel hwf hT hwithin ht hgoTo
    cases hlike with
    | goTo =>
        obtain ⟨o', hruns, hmatches⟩ := ih frame' (hs.leave hwf hwithin target) ht
        exact ⟨_, .goTo hgoTo' hruns, hmatches.after (Nat.le_refl 1) .nil⟩

/-- The rewritten function does the same in no more steps. -/
theorem Transparent.refines
    (hplain : EntryPlain f)
    (hbody : f.entry? ≠ none) :
    Refines rel f (f.rewrite keep change) := by
  obtain ⟨entry, hentry⟩ := Option.ne_none_iff_exists'.1 hbody
  refine .of_arity rfl rfl ?_
  intro call call' hcall _ args args' o hargs harity ho
  have hruns := (answers_of_entry harity hentry).1 ho
  have hentry' : Function.entry? (f.rewrite keep change) = some entry := by
    rwa [entry?_rewrite]
  have harity' : (f.rewrite keep change).arity = args'.length :=
    harity.trans hargs.length_eq
  have hs : Settled rel f keep change live ⟨args, []⟩ (.before none entry) := by
    intro d _ i _ _ _ hcurrent
    cases hcurrent
  have ht : Tracks rel f keep ⟨args, []⟩ ⟨args', []⟩ := ⟨hargs, fun v _ x hx => by cases hx⟩
  obtain ⟨o', hruns', hmatches⟩ :=
    hT.runs hrel hwf hplain hcall hruns (Arriving.initial harity hentry) hs ht
  exact ⟨o', (answers_of_entry harity' hentry').2 hruns', hmatches⟩

end Runs

end Rewriting

end Machine
end ScalarSsa
