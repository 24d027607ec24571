import ScalarSsa.Proofs.Pass.Meaning

/-!
# What is left when unused instructions are removed

**Input.** A function, and a module in which it is replaced.

**Definitions.** A block `Lightens` to another one that is the same but for some of its pure
instructions, which the other one lacks; its calls are all there.

**Results.** `lightens_unused`: the pass does nothing but make blocks lighter.
`mem_used_of_unused`: it goes on until every pure instruction that is left is used.
`call_lightened`: in a module whose functions pass the check, no call with a proper result
can tell, the number of its steps apart.
-/

namespace ScalarSsa

/-! ## Lighter blocks -/

namespace Block

/-- The calls of a block in order. -/
def calls (b : Block) : List Instr :=
  b.instrs.filter fun i => !i.kind.isPure

/-- The second block is the first one without some instructions that are no calls. -/
structure Lightens (b c : Block) : Prop where
  id_eq : c.id = b.id
  label_eq : c.label = b.label
  term_eq : c.term = b.term
  calls_eq : c.calls = b.calls
  instrs : c.instrs.Sublist b.instrs

namespace Lightens

theorem refl
    (b : Block) :
    b.Lightens b :=
  ⟨rfl, rfl, rfl, rfl, List.Sublist.refl _⟩

theorem trans
    {b c d : Block}
    (h : b.Lightens c)
    (h' : c.Lightens d) :
    b.Lightens d :=
  ⟨h'.id_eq.trans h.id_eq, h'.label_eq.trans h.label_eq, h'.term_eq.trans h.term_eq,
    h'.calls_eq.trans h.calls_eq,
    h'.instrs.trans h.instrs⟩

theorem filter
    {keep : Instr → Bool}
    (hkeep : ∀ i, i.kind.isPure = false → keep i = true)
    (b : Block) :
    b.Lightens { b with instrs := b.instrs.filter keep } := by
  refine ⟨rfl, rfl, rfl, ?_, List.filter_sublist⟩
  rw [calls, calls, List.filter_filter]
  refine List.filter_congr fun i _ => ?_
  cases hpure : i.kind.isPure with
  | true => simp
  | false => simp [hkeep i hpure]

end Lightens

end Block

namespace Function

/-- The functions differ in that the blocks of the second one are lighter. -/
structure Lightens (f g : Function) : Prop where
  blocks : List.Forall₂ Block.Lightens f.blocks g.blocks
  others : { g with blocks := f.blocks } = f

theorem Lightens.refl
    (f : Function) :
    f.Lightens f :=
  ⟨List.forall₂_same.2 fun b _ => .refl b, rfl⟩

theorem Lightens.trans
    {f g h : Function}
    (hfg : f.Lightens g)
    (hgh : g.Lightens h) :
    f.Lightens h := by
  refine ⟨Machine.related_trans (fun _ _ _ => .trans) hfg.blocks hgh.blocks, ?_⟩
  calc
    { h with blocks := f.blocks } =
      { ({ h with blocks := g.blocks } : Function) with blocks := f.blocks } := rfl
    _ = { g with blocks := f.blocks } := by rw [hgh.others]
    _ = f := hfg.others

end Function

/-! ## Rounds of the pass -/

namespace Pass

open Machine
open ScalarSsa.Function

theorem lightens_keepUsed
    (results : List ValueId)
    (f : Function) :
    f.Lightens (keepUsed results f) := by
  refine ⟨?_, rfl⟩
  rw [keepUsed, mapBlocks, List.forall₂_map_right_iff]
  exact List.forall₂_same.2 fun b _ => .filter (fun i hpure => by simp [hpure]) b

theorem instrs_keepUsed
    (results : List ValueId)
    (f : Function) :
    (keepUsed results f).instrs = f.instrs.filter fun i =>
      !i.kind.isPure || results.contains i.dest := by
  simp [keepUsed, mapBlocks, instrs, List.flatMap_map, List.filter_flatMap]

/-- No round removes anything if all pure instructions are used. -/
theorem removeUnused?_eq_none_iff
    {f : Function} :
    removeUnused? f = none ↔ ∀ i ∈ f.instrs, i.kind.isPure = true → i.dest ∈ used f := by
  have hcount : (keepUsed (used f) f).instrCount < f.instrCount ↔
      ¬∀ i ∈ f.instrs, (!i.kind.isPure || (used f).contains i.dest) = true := by
    rw [instrCount, instrCount, instrs_keepUsed, ← List.length_filter_eq_length_iff]
    have hle :=
      List.length_filter_le (fun i => !i.kind.isPure || (used f).contains i.dest) f.instrs
    omega
  simp only [removeUnused?, ite_eq_right_iff, reduceCtorEq, imp_false, hcount, not_not]
  refine forall₂_congr fun i _ => ?_
  cases i.kind.isPure <;> simp

/-- The rounds end by themselves. -/
theorem exhausts_removeUnusedNoting?
    (f : Function) :
    Exhausts removeUnusedNoting? (f, [])
      (exhaust removeUnusedNoting? f.instrCount (f, [])) := by
  refine exhausts_exhaust (P := fun _ => True) (fun p => p.1.instrCount) ?_ _ _
    trivial (Nat.le_refl _)
  rintro ⟨g, notes⟩ p hstep -
  obtain ⟨g', hround, rfl⟩ := Option.map_eq_some_iff.1 hstep
  exact ⟨trivial, instrCount_removeUnused? hround⟩

theorem lightens_unused
    (f : Function) :
    f.Lightens (unused.run f).function := by
  refine exhaust_invariant (P := fun p : Function × List Note => f.Lightens p.1) ?_
    f.instrCount (f, []) (.refl f)
  rintro ⟨g, notes⟩ p hstep hg
  obtain ⟨g', hround, rfl⟩ := Option.map_eq_some_iff.1 hstep
  rw [eq_keepUsed_of_removeUnused? hround]
  exact hg.trans (lightens_keepUsed _ g)

/-- Every pure instruction that is left is used. -/
theorem mem_used_of_unused
    {f : Function}
    {i : Instr}
    (hi : i ∈ (unused.run f).function.instrs)
    (hpure : i.kind.isPure = true) :
    i.dest ∈ used (unused.run f).function := by
  have hstuck := (exhausts_removeUnusedNoting? f).stuck
  have hnone : removeUnused? (unused.run f).function = none :=
    Option.map_eq_none_iff.1 hstuck
  exact removeUnused?_eq_none_iff.1 hnone i hi hpure

/-! ## Calls -/

/-- Without blocks there is nothing to remove. -/
theorem unused_of_bare
    {f : Function}
    (hentry : f.entry? = none) :
    (unused.run f).function = f := by
  have hblocks : f.blocks = [] := entry?_eq_none_iff.1 hentry
  simp [unused, instrCount, instrs, hblocks, exhaust]

theorem replaces_unused
    {rel : Float → Float → Prop}
    (hrel : Tolerance rel)
    {m : Module}
    {f : Function}
    (hversion : Version m f f) :
    CanReplace rel m f (unused.run f).function :=
  ⟨hversion.unused, unused_of_bare, fun hf => (refines_unused hrel hf).2⟩

/--
In a module with distinct identifiers whose functions all pass the check, the unused
instructions of one function are removed.  Whichever function is called: if the call gave a
value, reached the depth limit or ended with a fault of the host, it does so afterwards,
with the same value or fault and the same calls of the host, in no more steps.  The blocks
keep their names, labels, terminators and calls, and every instruction that is left and is
no call is an operand of another instruction or of a terminator.
-/
theorem call_lightened
    (m : Module)
    (hids : (m.functions.map (·.id)).Nodup)
    (hblocks : ∀ f ∈ m.functions, f.blockIds.Nodup)
    (hverify : ∀ f ∈ m.functions, m.verify f = .ok ())
    (f : Function)
    (hf : f ∈ m.functions) :
    (∀ limits id args p q r, (Machine.call m limits id args).run.run p = (r, q) →
      ((∃ x, r = .ok x) ∨ r = .error (.depthLimit limits.depth) ∨ ∃ fault,
        r = .error (.host fault)) →
      ∃ steps ≤ q.steps,
        (Machine.call (m.mapFunction f.id fun _ => (unused.run f).function) limits id
          args).run.run p =
          (r, ⟨steps, q.hostCalls⟩)) ∧
    f.Lightens (unused.run f).function ∧
    ∀ i ∈ (unused.run f).function.instrs, i.kind.isPure = true →
      (∃ j ∈ (unused.run f).function.instrs, i.dest ≠ j.dest ∧
        .result i.dest ∈ j.kind.operands) ∨
        ∃ b ∈ (unused.run f).function.blocks, .result i.dest ∈ b.termOperands := by
  have hversion : Version m f f := version_of_verified hblocks hverify hf
  have hreplaces : CanReplace Eq m f (unused.run f).function := replaces_unused .eq hversion
  refine ⟨?_, lightens_unused f, ?_⟩
  · intro limits id args p q r hrun hr
    exact call_replaced_eq hids hblocks hverify hf hreplaces hrun hr
  · intro i hi hpure
    exact mem_used_iff.1 (mem_used_of_unused hi hpure)

/--
A loop with a chain of instructions that nothing needs, a phi that only feeds itself, and a
call whose value is not used.
-/
def littered : Function where
  id := ⟨1⟩
  name := "littered"
  params := ["n"]
  blocks :=
    [⟨⟨0⟩, "entry",
        [⟨⟨0⟩, .arith .add (.arg 0) (.const 1.0)⟩,
          ⟨⟨1⟩, .arith .mul (.result ⟨0⟩) (.const 2.0)⟩],
        some (.jump ⟨1⟩)⟩,
      ⟨⟨1⟩, "loop",
        [⟨⟨2⟩, .phi .double [(.arg 0, ⟨0⟩), (.result ⟨5⟩, ⟨1⟩)]⟩,
          ⟨⟨3⟩, .phi .double [(.const 0.0, ⟨0⟩), (.result ⟨3⟩, ⟨1⟩)]⟩,
          ⟨⟨4⟩, .call ⟨0⟩ "printd" [.result ⟨2⟩]⟩,
          ⟨⟨5⟩, .arith .sub (.result ⟨2⟩) (.const 1.0)⟩,
          ⟨⟨6⟩, .compare .ult (.const 0.5) (.result ⟨5⟩)⟩,
          ⟨⟨7⟩, .promote (.result ⟨6⟩)⟩],
        some (.branch (.result ⟨6⟩) ⟨1⟩ ⟨2⟩)⟩,
      ⟨⟨2⟩, "exit", [], some (.ret (.result ⟨5⟩))⟩]
  nextValue := 8
  nextBlock := 3

/-- The loop beside the host function that it calls. -/
def litteredModule : Module :=
  ⟨[.declaration ⟨0⟩ "printd" ["x"], littered], [("printd", ⟨0⟩), ("littered", ⟨1⟩)], 2⟩

theorem littered_lightened :
    (∀ f ∈ litteredModule.functions, litteredModule.verify f = .ok ()) ∧
      (unused.run littered).function.instrs.map (·.dest) = [⟨2⟩, ⟨4⟩, ⟨5⟩, ⟨6⟩] ∧
      (Machine.call litteredModule ⟨4, 100⟩ ⟨1⟩ [2.0]).run.run ⟨0, []⟩ =
        (.ok 0.0, ⟨14, [⟨"printd", [1.0]⟩, ⟨"printd", [2.0]⟩]⟩) ∧
      (∃ steps ≤ 14,
        (Machine.call (litteredModule.mapFunction ⟨1⟩ fun _ =>
          (unused.run littered).function) ⟨4, 100⟩ ⟨1⟩
          [2.0]).run.run ⟨0, []⟩ =
            (.ok 0.0, ⟨steps, [⟨"printd", [1.0]⟩, ⟨"printd", [2.0]⟩]⟩)) ∧
      littered.Lightens (unused.run littered).function := by
  have hverify : ∀ f ∈ litteredModule.functions, litteredModule.verify f = .ok () := by
    decide +kernel
  have hrun : (Machine.call litteredModule ⟨4, 100⟩ ⟨1⟩ [2.0]).run.run ⟨0, []⟩ =
      (.ok 0.0, ⟨14, [⟨"printd", [1.0]⟩, ⟨"printd", [2.0]⟩]⟩) :=
        Prod.ext (by decide +kernel) (by decide +kernel)
  obtain ⟨hcalls, hlightens, -⟩ :=
    call_lightened litteredModule (by decide) (by decide) hverify littered (by decide)
  exact ⟨hverify, by decide +kernel, hrun,
    hcalls _ _ _ _ _ _ hrun (.inl ⟨_, rfl⟩), hlightens⟩

end Pass

end ScalarSsa
