import ScalarSsa.Pass.Pipeline
import ScalarSsa.Proofs.Pass.Merging
import ScalarSsa.Proofs.Pass.Unused

/-!
# Passes preserve verification

**Input.** A function that the check accepts, and a list of passes in any
order, with repetitions.

**Definitions.** `Pass.Version` holds of the functions that a pass may make of another
one: they are well formed, their calls still match, and they have the old identifier,
name and parameters.

**Results.** Every step of every pass leads from version to version, and so does every
pipeline (`Version.run_pipeline`).  `pipeline_keeps_verified` concludes that the check
accepts what a pipeline makes of an accepted function.
-/

namespace ScalarSsa
namespace Pass

open ScalarSsa.Function

/-- What passes may make of a function. -/
structure Version (m : Module) (f g : Function) : Prop where
  wellFormed : g.WellFormed
  calls : g.CallsMatch m
  id_eq : g.id = f.id
  name_eq : g.name = f.name
  params_eq : g.params = f.params

namespace Version

variable {m : Module} {f g : Function}

theorem foldOnce?
    (h : Version m f g)
    {g' : Function}
    (hstep : Pass.foldOnce? g = some g') :
    Version m f g' := by
  have hwf := wellFormed_foldOnce? h.wellFormed hstep
  obtain ⟨i, -, o, -, rfl⟩ := foldOnce?_eq_some hstep
  exact ⟨hwf, h.calls.rewrite, h.id_eq, h.name_eq, h.params_eq⟩

theorem settle
    (h : Version m f g)
    (id : BlockId) :
    Version m f (Pass.settle g id) := by
  have hwf := wellFormed_settle h.wellFormed id
  rcases settle_cases g id with heq | ⟨b, -, -, target, dropped, -, heq⟩
  · rwa [heq]
  · rw [heq] at hwf ⊢
    exact ⟨hwf, h.calls.thin, h.id_eq, h.name_eq, h.params_eq⟩

theorem settleAll
    (h : Version m f g) :
    Version m f (Pass.settleAll g) := by
  unfold Pass.settleAll
  generalize g.blockIds = ids
  induction ids generalizing g with
  | nil => exact h
  | cons id ids ih => exact ih (h.settle id)

theorem pruneAll
    (h : Version m f g) :
    Version m f (Pass.pruneAll g) := by
  have hwf := wellFormed_pruneAll h.wellFormed
  rw [pruneAll_eq_without h.wellFormed.ids_nodup] at hwf ⊢
  exact ⟨hwf, h.calls.thin, h.id_eq, h.name_eq, h.params_eq⟩

theorem mergeOnce?
    (h : Version m f g)
    (hall : g.AllReachable)
    {g' : Function}
    (hstep : Pass.mergeOnce? g = some g') :
    Version m f g' ∧ g'.AllReachable := by
  obtain ⟨hwf, hall'⟩ := wellFormed_mergeOnce? h.wellFormed hall hstep
  obtain ⟨pred, b, hmergeable, rfl⟩ := mergeOnce?_eq_some hstep
  rw [merge_eq_join h.wellFormed hmergeable hall] at hwf hall' ⊢
  have hjoin := joinable_phisReplaced h.wellFormed hmergeable
  exact ⟨⟨hwf, CallsMatch.join h.calls.rewrite hjoin.toMergeable, h.id_eq, h.name_eq,
    h.params_eq⟩, hall'⟩

theorem removeUnused?
    (h : Version m f g)
    {g' : Function}
    (hstep : Pass.removeUnused? g = some g') :
    Version m f g' := by
  obtain rfl := eq_keepUsed_of_removeUnused? hstep
  have hwf := wellFormed_keepUsed h.wellFormed
  rw [keepUsed_eq_rewrite] at hwf ⊢
  exact ⟨hwf, h.calls.rewrite, h.id_eq, h.name_eq, h.params_eq⟩

theorem folding
    (h : Version m f g) :
    Version m f (Pass.folding.run g).function :=
  exhaust_invariant (fun _ _ hstep hg => hg.foldOnce? hstep) g.instrCount g h

theorem branches
    (h : Version m f g) :
    Version m f (Pass.branches.run g).function := by
  have hsettled := h.settleAll
  have hpruned := hsettled.pruneAll
  have hall : (Pass.pruneAll (Pass.settleAll g)).AllReachable :=
    allReachable_pruneAll hsettled.wellFormed
  exact (exhaust_invariant (P := fun g => Version m f g ∧ g.AllReachable)
    (fun _ _ hstep hg => hg.1.mergeOnce? hg.2 hstep) _ _ ⟨hpruned, hall⟩).1

theorem unused
    (h : Version m f g) :
    Version m f (Pass.unused.run g).function := by
  refine exhaust_invariant (P := fun p : Function × List Note => Version m f p.1) ?_
    g.instrCount (g, []) h
  rintro ⟨g₁, journal⟩ p hstep hg
  obtain ⟨g₂, hround, rfl⟩ := Option.map_eq_some_iff.mp hstep
  exact hg.removeUnused? hround

/-- Every pass leads from version to version. -/
theorem run
    {pass : Pass}
    (hpass : pass ∈ [Pass.folding, Pass.branches, Pass.unused])
    (h : Version m f g) :
    Version m f (pass.run g).function := by
  simp only [List.mem_cons, List.not_mem_nil, or_false] at hpass
  rcases hpass with rfl | rfl | rfl
  · exact h.folding
  · exact h.branches
  · exact h.unused

/-- The function that a pipeline makes, pass by pass. -/
theorem function_run
    (passes : Pipeline)
    (before : PassResult) :
    (passes.foldl Pipeline.runPass before).function =
      passes.foldl (fun g pass => (pass.run g).function) before.function := by
  induction passes generalizing before with
  | nil => rfl
  | cons pass passes ih =>
      rw [List.foldl_cons, ih]
      rfl

theorem run_pipeline
    {passes : Pipeline}
    (hpasses : ∀ pass ∈ passes, pass ∈ [Pass.folding, Pass.branches, Pass.unused])
    (h : Version m f g) :
    Version m f (Pipeline.run passes g).function := by
  rw [Pipeline.run, function_run]
  simp only
  induction passes generalizing g with
  | nil => exact h
  | cons pass passes ih =>
      exact ih (fun p hp => hpasses p (List.mem_cons_of_mem _ hp))
        (h.run (hpasses pass List.mem_cons_self))

end Version

/-- Calls still match when a function is replaced by one with the same parameters. -/
theorem callsMatch_mapFunction
    {m : Module}
    {f g h : Function}
    (hf : m.function? f.id = some f)
    (hid : g.id = f.id)
    (hparams : g.params = f.params)
    (hcalls : h.CallsMatch m) :
    h.CallsMatch (m.mapFunction f.id fun _ => g) := by
  intro b hb i hi callee name args hkind
  obtain ⟨target, htarget, harity⟩ := hcalls b hb i hi callee name args hkind
  rw [Module.function?_mapFunction _ _ _ fun _ _ => hid, htarget]
  have htid : target.id = callee := by simpa using List.find?_some htarget
  by_cases hc : target.id = f.id
  · rw [← htid, hc, hf] at htarget
    cases htarget
    refine ⟨g, by simp, ?_⟩
    rw [Function.arity, hparams]
    exact harity
  · exact ⟨target, by simp [hc], harity⟩

/--
If the check accepts a function whose blocks have distinct names, it accepts what any
list of the three passes makes of it, in the old module and in the one where the new
function is in its place.
-/
theorem pipeline_keeps_verified
    (m : Module)
    (f : Function)
    (hids : f.blockIds.Nodup)
    (hverify : m.verify f = .ok ())
    (passes : Pipeline)
    (hpasses : ∀ pass ∈ passes, pass ∈ [Pass.folding, Pass.branches, Pass.unused]) :
    m.verify (Pipeline.run passes f).function = .ok () ∧
      (m.function? f.id = some f →
        (m.mapFunction f.id fun _ => (Pipeline.run passes f).function).verify
          (Pipeline.run passes f).function =
          .ok ()) := by
  obtain ⟨hwf, hcalls⟩ := (Verify.verify_eq_ok_iff hids m).mp hverify
  have hversion : Version m f (Pipeline.run passes f).function :=
    Version.run_pipeline hpasses ⟨hwf, hcalls, rfl, rfl, rfl⟩
  constructor
  · exact (Verify.verify_eq_ok_iff hversion.wellFormed.ids_nodup m).mpr
      ⟨hversion.wellFormed, hversion.calls⟩
  · intro hf
    exact (Verify.verify_eq_ok_iff hversion.wellFormed.ids_nodup _).mpr
      ⟨hversion.wellFormed,
      callsMatch_mapFunction hf hversion.id_eq hversion.params_eq hversion.calls⟩

/--
A loop around a phi that merges only one value, with a branch that is known and a block that
is never reached.
-/
def tangled : Function where
  id := ⟨0⟩
  name := "tangled"
  params := ["x"]
  blocks :=
    [⟨⟨0⟩, "entry", [⟨⟨0⟩, .arith .add (.arg 0) (.const 1.0)⟩],
      some (.branch (.bool true) ⟨1⟩ ⟨3⟩)⟩,
      ⟨⟨1⟩, "loop",
        [⟨⟨1⟩, .phi .double [(.result ⟨0⟩, ⟨0⟩), (.result ⟨1⟩, ⟨2⟩), (.const 7.0, ⟨4⟩)]⟩,
          ⟨⟨2⟩, .compare .ult (.result ⟨1⟩) (.const 3.0)⟩],
        some (.branch (.result ⟨2⟩) ⟨2⟩ ⟨3⟩)⟩,
      ⟨⟨2⟩, "again", [⟨⟨3⟩, .call ⟨0⟩ "tangled" [.result ⟨1⟩]⟩], some (.jump ⟨1⟩)⟩,
      ⟨⟨3⟩, "exit", [⟨⟨4⟩, .phi .double [(.const 0.0, ⟨0⟩), (.result ⟨1⟩, ⟨1⟩)]⟩],
        some (.ret (.result ⟨4⟩))⟩,
      ⟨⟨4⟩, "island", [], some (.jump ⟨1⟩)⟩]
  nextValue := 5
  nextBlock := 5

theorem tangled_stays_verified :
    (Module.mk [tangled] [("tangled", ⟨0⟩)] 1).verify tangled = .ok () ∧
      (Module.mk [tangled] [("tangled", ⟨0⟩)] 1).verify
        (Pipeline.run [.branches, .folding, .unused, .branches] tangled).function =
          .ok () :=
  have hverify : (Module.mk [tangled] [("tangled", ⟨0⟩)] 1).verify tangled = .ok () := by
    decide +kernel
  ⟨hverify,
    (pipeline_keeps_verified _ tangled (by decide) hverify
      [.branches, .folding, .unused, .branches]
    (by simp)).1⟩

end Pass
end ScalarSsa
