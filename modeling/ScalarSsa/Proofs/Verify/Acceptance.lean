import ScalarSsa.Proofs.Machine.Safety

/-!
# What the check accepts, path by path

**Input.** A module and a function whose blocks have distinct names.

**Definitions.** `Conforms` holds the rules that the check looks at.  The order of
definitions and uses is said of every path: whenever a run from the entry gets to a use, it
has gone through the definition.  `Exemplary` adds two rules that the check does not look
at: the entry has no phi, and no phi has two edges from one block.

**Results.** `conforms_iff`: the rules on paths are those on dominating blocks.
`accepted_iff_conforms`: the check accepts the declarations and the functions that conform,
and the exemplary ones are those among them that also keep the other two rules.
`unruly_accepted`: neither of the two follows from what is checked.
-/

namespace ScalarSsa

namespace Function

/-- A value is computed in one of the blocks that a run has gone through. -/
def ComputedOn (f : Function) (v : ValueId) (path : List BlockId) : Prop :=
  ∃ d ∈ f.blocks, d.id ∈ path ∧ v ∈ d.results

/-- The rules that the check looks at. -/
structure Conforms (m : Module) (f : Function) : Prop where
  results_nodup : f.results.Nodup
  entry_free : ∀ entry, f.entry? = some entry → ∀ b ∈ f.blocks, entry ∉ b.successors
  terminated : ∀ b ∈ f.blocks, b.term ≠ none
  targets : ∀ b ∈ f.blocks, ∀ target ∈ b.successors, target ∈ f.blockIds
  typed : ∀ b ∈ f.blocks, ∀ i ∈ b.instrs, ∀ u ∈ i.kind.uses, f.HasType u.1 u.2
  term_typed : ∀ b ∈ f.blocks, ∀ u ∈ b.termUses, f.HasType u.1 u.2
  phis_first : ∀ b ∈ f.blocks, b.instrs.Pairwise fun i j => j.kind.isPhi = true →
    i.kind.isPhi = true
  /-- A phi has edges from the predecessors and from no other block. -/
  phi_edges : ∀ b ∈ f.blocks, ∀ i ∈ b.instrs, ∀ type incoming, i.kind = .phi type incoming →
    ∀ pred, pred ∈ incoming.map (·.2) ↔ pred ∈ f.predecessors b.id
  calls : CallsMatch m f
  /-- A run that gets to an instruction has computed what it uses, in this block
  or in one before. -/
  uses : ∀ b ∈ f.blocks, ∀ pre i post, b.instrs = pre ++ i :: post → i.kind.isPhi = false →
    ∀ v, .result v ∈ i.kind.operands →
      ∀ path, f.Trail (b.id :: path) → v ∈ pre.map (·.dest) ∨ f.ComputedOn v path
  /-- A run that gets to the end of a block has computed what the terminator uses. -/
  ends : ∀ b ∈ f.blocks, ∀ v, .result v ∈ b.termOperands →
    ∀ path, f.Trail (b.id :: path) → f.ComputedOn v (b.id :: path)
  /-- A run that gets to the end of a block has computed what phis take over
  the edges from it. -/
  edges : ∀ b ∈ f.blocks, ∀ i ∈ b.instrs, ∀ type incoming, i.kind = .phi type incoming →
    ∀ v pred, (.result v, pred) ∈ incoming →
      ∀ path, f.Trail (pred :: path) → f.ComputedOn v (pred :: path)

/-- No phi has two edges from one block. -/
def EdgesOnce (f : Function) : Prop :=
  ∀ b ∈ f.blocks, ∀ i ∈ b.instrs, ∀ type incoming, i.kind = .phi type incoming →
    (incoming.map (·.2)).Nodup

/--
All rules: each phi has one edge from every predecessor and no other, and
the entry has no phi.
-/
structure Exemplary (m : Module) (f : Function) : Prop extends Conforms m f where
  entry_plain : Machine.EntryPlain f
  edges_once : f.EdgesOnce

variable {f : Function}

/-! ## Dominance and paths -/

/--
Every run to the end of a reachable block has computed a value if a dominating
block computes it.
-/
theorem computedBy_iff_paths
    (hresults : f.results.Nodup)
    {id : BlockId}
    (hreach : f.Reachable id)
    (v : ValueId) :
    f.ComputedBy v id ↔ ∀ path, f.Trail (id :: path) → f.ComputedOn v (id :: path) := by
  constructor
  · rintro ⟨d, hd, hv, hdom⟩ path htrail
    exact ⟨d, hd, hdom path htrail, hv⟩
  · intro h
    obtain ⟨path, htrail⟩ := hreach
    obtain ⟨d, hd, -, hv⟩ := h path htrail
    refine ⟨d, hd, hv, fun path' htrail' => ?_⟩
    obtain ⟨d', hd', hmem, hv'⟩ := h path' htrail'
    rwa [block_eq_of_mem_results hresults hd hd' hv hv']

/--
Every run to an instruction of a reachable block has computed a value if the block or a
dominating one did.
-/
theorem computedBefore_iff_paths
    (hresults : f.results.Nodup)
    {id : BlockId}
    (hreach : f.Reachable id)
    (pre : List Instr)
    (v : ValueId) :
    v ∈ pre.map (·.dest) ∨ f.ComputedBefore v id ↔
      ∀ path, f.Trail (id :: path) → v ∈ pre.map (·.dest) ∨ f.ComputedOn v path := by
  constructor
  · rintro (hpre | ⟨d, hd, hne, hv, hdom⟩) path htrail
    · exact .inl hpre
    · have hmem : d.id ∈ path := (List.mem_cons.mp (hdom path htrail)).resolve_left hne
      exact .inr ⟨d, hd, hmem, hv⟩
  · intro h
    by_cases hpre : v ∈ pre.map (·.dest)
    · exact .inl hpre
    · -- a run that gets to the block for the first time shows that the definition stands in
      -- another one
      obtain ⟨path, htrail, hfirst⟩ := hreach.first
      obtain ⟨d, hd, hmem, hv⟩ := (h path htrail).resolve_left hpre
      have hne : d.id ≠ id := fun heq => hfirst (heq ▸ hmem)
      refine .inr ⟨d, hd, hne, hv, fun path' htrail' => ?_⟩
      obtain ⟨d', hd', hmem', hv'⟩ := (h path' htrail').resolve_left hpre
      rw [block_eq_of_mem_results hresults hd hd' hv hv']
      exact List.mem_cons_of_mem _ hmem'

/-- A rule on all runs to a block is one on reachable blocks. -/
theorem paths_iff_of_reachable
    {id : BlockId}
    {P : Prop}
    {Q : List BlockId → Prop}
    (h : f.Reachable id → (P ↔ ∀ path, f.Trail (id :: path) → Q path)) :
    (∀ path, f.Trail (id :: path) → Q path) ↔ (f.Reachable id → P) := by
  constructor
  · intro hall hreach
    exact (h hreach).mpr hall
  · intro himp path htrail
    have hreach : f.Reachable id := ⟨path, htrail⟩
    exact (h hreach).mp (himp hreach) path htrail

/-- The rules on paths are those on dominating blocks. -/
theorem conforms_iff
    (hids : f.blockIds.Nodup)
    (m : Module) :
    f.Conforms m ↔ f.WellFormed ∧ CallsMatch m f := by
  constructor
  · intro h
    have hended : ∀ {id v}, f.Reachable id → (f.ComputedBy v id ↔ _) :=
      fun hreach => computedBy_iff_paths h.results_nodup hreach _
    refine ⟨⟨hids, h.results_nodup, h.entry_free, h.terminated, h.targets, h.typed,
      h.term_typed, fun b hb => Block.body_plain_iff.mpr (h.phis_first b hb), h.phi_edges,
      ?_, ?_, ?_⟩, h.calls⟩
    · intro b hb hreach pre i post hsplit hphi v hv
      exact (computedBefore_iff_paths h.results_nodup hreach pre v).mpr
        (h.uses b hb pre i post hsplit hphi v hv)
    · intro b hb hreach v hv
      exact (hended hreach).mpr (h.ends b hb v hv)
    · intro b hb i hi type incoming hkind v pred hedge hreach
      exact (hended hreach).mpr (h.edges b hb i hi type incoming hkind v pred hedge)
  · rintro ⟨h, hcalls⟩
    have hended : ∀ {id v}, (f.Reachable id → f.ComputedBy v id) →
        ∀ path, f.Trail (id :: path) → f.ComputedOn v (id :: path) :=
      (paths_iff_of_reachable fun hreach =>
        computedBy_iff_paths h.results_nodup hreach _).mpr
    refine ⟨h.results_nodup, h.entry_free, h.terminated, h.targets, h.typed, h.term_typed,
      fun b hb => Block.body_plain_iff.mp (h.phis_first b hb), h.phi_edges,
        hcalls, ?_, ?_, ?_⟩
    · intro b hb pre i post hsplit hphi v hv
      exact (paths_iff_of_reachable fun hreach =>
        computedBefore_iff_paths h.results_nodup hreach pre v).mpr
        fun hreach => h.uses b hb hreach pre i post hsplit hphi v hv
    · intro b hb v hv
      exact hended fun hreach => h.ends b hb hreach v hv
    · intro b hb i hi type incoming hkind v pred hedge
      exact hended (h.edges b hb i hi type incoming hkind v pred hedge)

end Function

/-! ## The check -/

namespace Verify

open ScalarSsa.Function

/--
The check accepts the declarations and the functions that conform.  Those that keep
all the rules are the accepted ones whose entry has no phi and whose phis have no two
edges from one block.
-/
theorem accepted_iff_conforms
    (m : Module)
    (f : Function)
    (hids : f.blockIds.Nodup) :
    (m.verify f = .ok () ↔ f.hasBody = false ∨ f.Conforms m) ∧
      (f.hasBody = false ∨ f.Exemplary m ↔ m.verify f = .ok () ∧ Machine.EntryPlain f ∧
        f.EdgesOnce) := by
  have hbodiless : f.hasBody = false → m.verify f = .ok () ∧ Machine.EntryPlain f ∧
      f.EdgesOnce := by
    intro hbody
    have hblocks : f.blocks = [] := by simpa [hasBody] using hbody
    refine ⟨?_, ?_, ?_⟩
    · simp [Module.verify, problems, hbody]
    · simp [Machine.EntryPlain, hblocks]
    · simp [EdgesOnce, hblocks]
  have hiff : m.verify f = .ok () ↔ f.Conforms m := by
    rw [verify_eq_ok_iff hids, conforms_iff hids]
  constructor
  · constructor
    · intro h
      exact .inr (hiff.mp h)
    · rintro (hbody | h)
      · exact (hbodiless hbody).1
      · exact hiff.mpr h
  · constructor
    · rintro (hbody | h)
      · exact hbodiless hbody
      · exact ⟨hiff.mpr h.toConforms, h.entry_plain, h.edges_once⟩
    · rintro ⟨hverify, hplain, honce⟩
      exact .inr ⟨hiff.mp hverify, hplain, honce⟩

theorem countdown_exemplary :
    Machine.countdown.blockIds.Nodup ∧
      Machine.countdown.Exemplary Machine.countdownModule := by
  have hids : Machine.countdown.blockIds.Nodup := by decide
  have hverify : Machine.countdownModule.verify Machine.countdown = .ok () := by
    decide +kernel
  have hplain : Machine.EntryPlain Machine.countdown := by
    intro b hb i hi
    cases hb
    cases hi
  have honce : Machine.countdown.EdgesOnce := by
    simp [EdgesOnce, Machine.countdown]
  have hrules := (accepted_iff_conforms _ _ hids).2.mpr ⟨hverify, hplain, honce⟩
  exact ⟨hids, hrules.resolve_left (by decide)⟩

/-- The phi has two edges from the entry, with different operands. -/
def doubledEdge : Function where
  id := ⟨0⟩
  name := "doubled"
  params := []
  blocks :=
    [⟨⟨0⟩, "entry", [], some (.jump ⟨1⟩)⟩,
      ⟨⟨1⟩, "join", [⟨⟨0⟩, .phi .double [(.const 1.0, ⟨0⟩), (.const 2.0, ⟨0⟩)]⟩],
        some (.ret (.result ⟨0⟩))⟩]
  nextValue := 1
  nextBlock := 2

/-- The entry has a phi, and the phi has no edge. -/
def entryPhi : Function where
  id := ⟨1⟩
  name := "first"
  params := []
  blocks := [⟨⟨0⟩, "entry", [⟨⟨0⟩, .phi .double []⟩], some (.ret (.result ⟨0⟩))⟩]
  nextValue := 1
  nextBlock := 1

/-- Functions that break a rule which the check does not look at. -/
def unruly : Module :=
  ⟨[doubledEdge, entryPhi], [("doubled", ⟨0⟩), ("first", ⟨1⟩)], 2⟩

/-- The check accepts a phi with two edges from one block, and a phi in the entry. -/
theorem unruly_accepted :
    (doubledEdge.blockIds.Nodup ∧ doubledEdge.hasBody = true ∧
      unruly.verify doubledEdge = .ok () ∧
        ¬ doubledEdge.Exemplary unruly) ∧
      entryPhi.blockIds.Nodup ∧ entryPhi.hasBody = true ∧ unruly.verify entryPhi = .ok () ∧
        ¬ entryPhi.Exemplary unruly := by
  have hdoubled : ¬ doubledEdge.Exemplary unruly := by
    intro h
    have hnodup := h.edges_once _ (.tail _ (.head _)) _ (.head _) _ _ rfl
    revert hnodup
    decide
  have hentry : ¬ entryPhi.Exemplary unruly := by
    intro h
    have hphi := h.entry_plain _ rfl _ (.head _)
    cases hphi
  exact ⟨⟨by decide, rfl, by decide +kernel, hdoubled⟩, by decide,
    rfl, by decide +kernel, hentry⟩

end Verify

end ScalarSsa
