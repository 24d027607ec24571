import ScalarSsa.Proofs.Machine.Exchange
import ScalarSsa.Proofs.Pass.Unobservable

/-!
# Passes on one function of a module

**Input.** A module whose functions all pass the check, and one of them.

**Definitions.** A function `CanReplace` another one, up to a relation between doubles, if
it is a version of it that does the same in no more steps wherever that one can be run.

**Results.** `follows_replaced`: putting such a function in the place of the other one
changes no call that has a proper result, whichever function of the module is called.
`call_replaced` says so of the machine.  `call_simplified`: simplifying control flow changes
no such call at all, apart from the number of steps.  `call_folded`: folding constants
changes at most the signs of zeros.
-/

namespace ScalarSsa
namespace Pass

open Machine
open ScalarSsa.Function

/-- What a pass makes of a function can take its place. -/
structure CanReplace (rel : Float → Float → Prop) (m : Module) (f g : Function) : Prop where
  version : Version m f g
  /-- A function without a body is left alone. -/
  bare : f.entry? = none → g = f
  refines : Runnable f → Refines rel f g

section Replaced

variable {rel : Float → Float → Prop} {m : Module} {f g : Function}

/-- A well-formed function refines itself, or no call gets through it. -/
theorem refines_self_or_improper
    (hrel : Tolerance rel)
    (hhost : HostCarries rel f.name)
    (hwf : f.WellFormed) :
    Refines rel f f ∨ Improper f := by
  by_cases hentry : f.entry? = none
  · exact .inl (.host hentry hhost)
  · by_cases hplain : EntryPlain f
    · exact .inl (Runnable.refines_self hrel ⟨hwf, hplain, hentry⟩)
    · exact .inr (improper_of_not_plain hwf hplain)

theorem CanReplace.refines_or_improper
    (h : CanReplace rel m f g)
    (hwf : f.WellFormed)
    (hhost : HostCarries rel f.name) :
    Refines rel f g ∨ Improper f := by
  by_cases hentry : f.entry? = none
  · rw [h.bare hentry]
    exact .inl (.host hentry hhost)
  · by_cases hplain : EntryPlain f
    · exact .inl (h.refines ⟨hwf, hplain, hentry⟩)
    · exact .inr (improper_of_not_plain hwf hplain)

/--
The calls of a module in which a function was replaced follow those of the module before.
-/
theorem follows_replaced
    (hrel : Tolerance rel)
    (hhost : ∀ k ∈ m.functions, HostCarries rel k.name)
    (hids : (m.functions.map (·.id)).Nodup)
    (hwf : ∀ h ∈ m.functions, h.WellFormed)
    (hf : f ∈ m.functions)
    (h : CanReplace rel m f g)
    (limit remaining : Nat) :
    Follows rel (Properly (Calls m limit remaining))
      (Properly (Calls (m.mapFunction f.id fun _ => g) limit remaining)) := by
  have hlookup : ∀ id, (m.mapFunction f.id fun _ => g).function? id =
      (m.function? id).map fun h => if h.id = f.id then g else h :=
    fun id => Module.function?_mapFunction m f.id id fun _ _ => h.version.id_eq
  have honly : ∀ k ∈ m.functions, k.id = f.id → k = f := fun k hk hid =>
    List.inj_on_of_nodup_map hids hk hf hid
  refine (follows_properly ?_ ?_ limit remaining).1
  · intro id k hk
    have hmem := Module.mem_of_function? hk
    refine ⟨if k.id = f.id then g else k, by rw [hlookup, hk, Option.map_some], ?_⟩
    by_cases hid : k.id = f.id
    · rw [if_pos hid, honly k hmem hid]
      exact h.refines_or_improper (hwf f hf) (hhost f hf)
    · rw [if_neg hid]
      exact refines_self_or_improper hrel (hhost k hmem) (hwf k hmem)
  · intro id k' hk'
    rw [hlookup] at hk'
    obtain ⟨k, hk, rfl⟩ := Option.map_eq_some_iff.1 hk'
    have hmem := Module.mem_of_function? hk
    by_cases hid : k.id = f.id
    · rw [if_pos hid]
      exact refines_self_or_improper hrel (h.version.name_eq ▸ hhost f hf)
        h.version.wellFormed
    · rw [if_neg hid]
      exact refines_self_or_improper hrel (hhost k hmem) (hwf k hmem)

/-- A function that the check accepts is a version of itself. -/
theorem version_of_verified
    (hblocks : ∀ f ∈ m.functions, f.blockIds.Nodup)
    (hverify : ∀ f ∈ m.functions, m.verify f = .ok ())
    (hf : f ∈ m.functions) :
    Version m f f := by
  obtain ⟨hwf, hcalls⟩ := (Verify.verify_eq_ok_iff (hblocks f hf) m).1 (hverify f hf)
  exact ⟨hwf, hcalls, rfl, rfl, rfl⟩

variable
  (hids : (m.functions.map (·.id)).Nodup)
  (hblocks : ∀ f ∈ m.functions, f.blockIds.Nodup)
  (hverify : ∀ f ∈ m.functions, m.verify f = .ok ())
  (hf : f ∈ m.functions)

include hids hblocks hverify hf

/--
A machine's call with a proper result is matched in the module in which a
function was replaced.
-/
theorem call_replaced
    (hrel : Tolerance rel)
    (hhost : ∀ k ∈ m.functions, HostCarries rel k.name)
    (h : CanReplace rel m f g)
    {limits : Limits}
    {id : FuncId}
    {args : List Float}
    {p : Progress}
    (hproper : Proper ((Machine.call m limits id args).run.run p).1) :
    ∃ o o', o.Matches rel o' ∧ (Machine.call m limits id args).run.run p =
      (o.result, p.at o) ∧
      (Machine.call (m.mapFunction f.id fun _ => g) limits id args).run.run p =
        (o'.result, p.at o') := by
  have hwf : ∀ k ∈ m.functions, k.WellFormed :=
    fun k hk => (version_of_verified hblocks hverify hk).wellFormed
  exact (follows_replaced hrel hhost hids hwf hf h limits.depth limits.depth).run_properly
    (List.forall₂_same.2 fun x _ => hrel.refl x) hproper

/--
If nothing but the steps may differ, the call has the same result and makes the same
calls of the host.
-/
theorem call_replaced_eq
    (h : CanReplace Eq m f g)
    {limits : Limits}
    {id : FuncId}
    {args : List Float}
    {p q : Progress}
    {r : Except ExecFault Float}
    (hrun : (Machine.call m limits id args).run.run p = (r, q))
    (hr : (∃ x, r = .ok x) ∨ r = .error (.depthLimit limits.depth) ∨ ∃ fault,
      r = .error (.host fault)) :
    ∃ steps ≤ q.steps,
      (Machine.call (m.mapFunction f.id fun _ => g) limits id args).run.run p =
      (r, ⟨steps, q.hostCalls⟩) := by
  have hproper : Proper ((Machine.call m limits id args).run.run p).1 := by
    rw [hrun]
    rcases hr with ⟨x, rfl⟩ | rfl | ⟨fault, rfl⟩
    · exact .ok x
    · exact .depth _
    · exact .host fault
  obtain ⟨o, o', hmatches, hfirst, hsecond⟩ :=
    call_replaced hids hblocks hverify hf .eq (fun k _ => hostCarries_eq k.name) h hproper
  obtain ⟨hsteps, hcalls, hresult⟩ := Ending.Matches.eq_iff.1 hmatches
  obtain ⟨rfl, rfl⟩ := Prod.ext_iff.1 (hrun.symm.trans hfirst)
  refine ⟨p.steps + o'.steps, Nat.add_le_add_left hsteps _, ?_⟩
  rw [hsecond, hresult, Progress.at, Progress.at, hcalls]

end Replaced

/-! ## Simplified control flow -/

/-- Without blocks there is nothing to simplify. -/
theorem branches_of_bare
    {f : Function}
    (hentry : f.entry? = none) :
    (branches.run f).function = f := by
  have hblocks : f.blocks = [] := entry?_eq_none_iff.1 hentry
  have hsettled : settleAll f = f := by simp [settleAll, blockIds, hblocks]
  have hpruned : pruneAll f = f := by simp [pruneAll, unreachable, blockIds, hblocks]
  simp [branches, hsettled, hpruned, hblocks, exhaust]

/-- Simplified control flow can take the place of what was there. -/
theorem replaces_branches
    {rel : Float → Float → Prop}
    (hrel : Tolerance rel)
    {m : Module}
    {f : Function}
    (hversion : Version m f f) :
    CanReplace rel m f (branches.run f).function :=
  ⟨hversion.branches, branches_of_bare, fun hf => (refines_branches hrel hf).2⟩

/--
In a module with distinct identifiers whose functions all pass the check, the control flow
of one function is simplified.  Whichever function is called: if the call gave a value,
reached the depth limit or ended with a fault of the host, it does so afterwards, with the
same value or fault and the same calls of the host, in no more steps.
-/
theorem call_simplified
    (m : Module)
    (hids : (m.functions.map (·.id)).Nodup)
    (hblocks : ∀ f ∈ m.functions, f.blockIds.Nodup)
    (hverify : ∀ f ∈ m.functions, m.verify f = .ok ())
    (f : Function)
    (hf : f ∈ m.functions)
    (limits : Limits)
    (id : FuncId)
    (args : List Float)
    (p q : Progress)
    (r : Except ExecFault Float)
    (hrun : (Machine.call m limits id args).run.run p = (r, q))
    (hr : (∃ x, r = .ok x) ∨ r = .error (.depthLimit limits.depth) ∨ ∃ fault,
      r = .error (.host fault)) :
    ∃ steps ≤ q.steps,
      (Machine.call (m.mapFunction f.id fun _ => (branches.run f).function) limits id
        args).run.run p =
        (r, ⟨steps, q.hostCalls⟩) := by
  have hversion : Version m f f := version_of_verified hblocks hverify hf
  have hreplaces : CanReplace Eq m f (branches.run f).function :=
    replaces_branches .eq hversion
  exact call_replaced_eq hids hblocks hverify hf hreplaces hrun hr

/--
A loop that shows its counter, with a known branch before it, a block that is never reached,
and a phi of one edge whose value is used where the loop goes round.
-/
def showDown : Function where
  id := ⟨1⟩
  name := "show_down"
  params := ["n"]
  blocks :=
    [⟨⟨0⟩, "entry", [], some (.branch (.bool true) ⟨1⟩ ⟨4⟩)⟩,
      ⟨⟨1⟩, "loop",
        [⟨⟨0⟩, .phi .double [(.arg 0, ⟨0⟩), (.result ⟨4⟩, ⟨3⟩), (.const 9.0, ⟨5⟩)]⟩,
          ⟨⟨1⟩, .compare .ult (.const 0.5) (.result ⟨0⟩)⟩],
        some (.branch (.result ⟨1⟩) ⟨2⟩ ⟨4⟩)⟩,
      ⟨⟨2⟩, "show", [⟨⟨2⟩, .call ⟨0⟩ "printd" [.result ⟨0⟩]⟩], some (.jump ⟨3⟩)⟩,
      ⟨⟨3⟩, "next",
        [⟨⟨3⟩, .phi .double [(.result ⟨0⟩, ⟨2⟩)]⟩,
          ⟨⟨4⟩, .arith .sub (.result ⟨3⟩) (.const 1.0)⟩],
        some (.jump ⟨1⟩)⟩,
      ⟨⟨4⟩, "exit", [⟨⟨5⟩, .phi .double [(.const 7.0, ⟨0⟩), (.result ⟨0⟩, ⟨1⟩)]⟩],
        some (.ret (.result ⟨5⟩))⟩,
      ⟨⟨5⟩, "island", [], some (.jump ⟨1⟩)⟩]
  nextValue := 6
  nextBlock := 6

/-- The loop beside the host function that it calls. -/
def showDownModule : Module :=
  ⟨[.declaration ⟨0⟩ "printd" ["x"], showDown], [("printd", ⟨0⟩), ("show_down", ⟨1⟩)], 2⟩

theorem showDown_simplified :
    (∀ f ∈ showDownModule.functions, showDownModule.verify f = .ok ()) ∧
      (branches.run showDown).function.blocks.length = 4 ∧
      (Machine.call showDownModule ⟨4, 100⟩ ⟨1⟩ [2.0]).run.run ⟨0, []⟩ =
        (.ok 0.0, ⟨16, [⟨"printd", [1.0]⟩, ⟨"printd", [2.0]⟩]⟩) ∧
      ∃ steps ≤ 16,
        (Machine.call (showDownModule.mapFunction ⟨1⟩ fun _ =>
          (branches.run showDown).function) ⟨4, 100⟩ ⟨1⟩
          [2.0]).run.run ⟨0, []⟩ =
            (.ok 0.0, ⟨steps, [⟨"printd", [1.0]⟩, ⟨"printd", [2.0]⟩]⟩) :=
  have hverify : ∀ f ∈ showDownModule.functions, showDownModule.verify f = .ok () := by
    decide +kernel
  have hrun : (Machine.call showDownModule ⟨4, 100⟩ ⟨1⟩ [2.0]).run.run ⟨0, []⟩ =
      (.ok 0.0, ⟨16, [⟨"printd", [1.0]⟩, ⟨"printd", [2.0]⟩]⟩) :=
        Prod.ext (by decide +kernel) (by decide +kernel)
  ⟨hverify, by decide +kernel, hrun,
    call_simplified showDownModule (by decide) (by decide) hverify showDown (by decide)
      ⟨4, 100⟩ ⟨1⟩ [2.0] ⟨0, []⟩ _ _ hrun
      (.inl ⟨_, rfl⟩)⟩

/-! ## Folded constants -/

/-- Without blocks there is nothing to fold. -/
theorem folding_of_bare
    {f : Function}
    (hentry : f.entry? = none) :
    (folding.run f).function = f := by
  have hblocks : f.blocks = [] := entry?_eq_none_iff.1 hentry
  simp [folding, instrCount, instrs, hblocks, exhaust]

/-- What folding makes of a function can take its place, if zeros count as one. -/
theorem replaces_folding
    {m : Module}
    {f : Function}
    (hversion : Version m f f) :
    CanReplace ZeroLike m f (folding.run f).function :=
  ⟨hversion.folding, folding_of_bare, fun hf =>
    (refines_folding tolerance_zeroLike hf fun _ _ => agreeing_zeroLike _).2⟩

/--
In a module with distinct identifiers whose functions all pass the check, one function is
folded.  Whichever function is called: if the call gave a value, it still does, in no more
steps, and neither the value nor the arguments of the host calls differ but in the signs of
zeros.  Of the sine and the cosine, where the module has them, it is assumed that they map
the two zeros to values that do not differ otherwise.
-/
theorem call_folded
    (m : Module)
    (hids : (m.functions.map (·.id)).Nodup)
    (hblocks : ∀ f ∈ m.functions, f.blockIds.Nodup)
    (hverify : ∀ f ∈ m.functions, m.verify f = .ok ())
    (hzeros : ∀ host ∈ [HostFunction.sin, .cos], (∃ k ∈ m.functions, k.name = host.name) →
      ZeroLike (host.apply 0.0) (host.apply (-0.0)))
    (f : Function)
    (hf : f ∈ m.functions)
    (limits : Limits)
    (id : FuncId)
    (args : List Float)
    (p q : Progress)
    (x : Float)
    (hrun : (Machine.call m limits id args).run.run p = (.ok x, q)) :
    ∃ y, ZeroLike x y ∧ ∃ steps ≤ q.steps, ∃ made made',
      q.hostCalls = made ++ p.hostCalls ∧ List.Forall₂ (CallLike ZeroLike) made made' ∧
      (Machine.call (m.mapFunction f.id fun _ => (folding.run f).function) limits id
        args).run.run p =
        (.ok y, ⟨steps, made' ++ p.hostCalls⟩) := by
  have hhost : ∀ k ∈ m.functions, HostCarries ZeroLike k.name := fun k hk =>
    hostCarries_zeroLike fun host hmem hname => hzeros host hmem ⟨k, hk, hname.symm⟩
  have hreplaces : CanReplace ZeroLike m f (folding.run f).function :=
    replaces_folding (version_of_verified hblocks hverify hf)
  have hproper : Proper ((Machine.call m limits id args).run.run p).1 := by
    rw [hrun]
    exact .ok x
  obtain ⟨o, ⟨steps', calls', result'⟩, ⟨hsteps, hcalls, hresult⟩, hfirst, hsecond⟩ :=
    call_replaced hids hblocks hverify hf tolerance_zeroLike hhost hreplaces hproper
  obtain ⟨hvalue, rfl⟩ := Prod.ext_iff.1 (hrun.symm.trans hfirst)
  rw [← show Except.ok x = o.result from hvalue] at hresult
  cases hresult with
  | ok hxy =>
      exact ⟨_, hxy, p.steps + steps', Nat.add_le_add_left hsteps _, o.calls, calls', rfl,
        hcalls, hsecond⟩

/--
A loop around a phi that merges both zeros and its own result, and around a counter, with a
block that is never reached.
-/
def signOfZero : Function where
  id := ⟨1⟩
  name := "sign_of_zero"
  params := ["n"]
  blocks :=
    [⟨⟨0⟩, "entry",
        [⟨⟨0⟩, .arith .mul (.const 0.0) (.const (-1.0))⟩,
          ⟨⟨1⟩, .compare .ult (.arg 0) (.const 0.5)⟩],
        some (.branch (.result ⟨1⟩) ⟨1⟩ ⟨2⟩)⟩,
      ⟨⟨1⟩, "low", [], some (.jump ⟨3⟩)⟩,
      ⟨⟨2⟩, "high", [], some (.jump ⟨3⟩)⟩,
      ⟨⟨3⟩, "loop",
        [⟨⟨2⟩, .phi .double [(.const 0.0, ⟨1⟩), (.result ⟨0⟩, ⟨2⟩), (.result ⟨2⟩, ⟨4⟩)]⟩,
          ⟨⟨3⟩, .phi .double [(.arg 0, ⟨1⟩), (.arg 0, ⟨2⟩), (.result ⟨5⟩, ⟨4⟩)]⟩,
          ⟨⟨4⟩, .call ⟨0⟩ "printd" [.result ⟨2⟩]⟩,
          ⟨⟨5⟩, .arith .sub (.result ⟨3⟩) (.const 1.0)⟩,
          ⟨⟨6⟩, .compare .ult (.const 0.5) (.result ⟨5⟩)⟩],
        some (.branch (.result ⟨6⟩) ⟨4⟩ ⟨5⟩)⟩,
      ⟨⟨4⟩, "again", [], some (.jump ⟨3⟩)⟩,
      ⟨⟨5⟩, "exit", [], some (.ret (.result ⟨2⟩))⟩,
      ⟨⟨6⟩, "island", [⟨⟨7⟩, .phi .double [(.result ⟨7⟩, ⟨6⟩)]⟩], some (.jump ⟨6⟩)⟩]
  nextValue := 8
  nextBlock := 7

/-- The loop beside the host function that it calls. -/
def signOfZeroModule : Module :=
  ⟨[.declaration ⟨0⟩ "printd" ["x"], signOfZero],
    [("printd", ⟨0⟩), ("sign_of_zero", ⟨1⟩)], 2⟩

theorem signOfZero_folded :
    (∀ f ∈ signOfZeroModule.functions, signOfZeroModule.verify f = .ok ()) ∧
      (folding.run signOfZero).function.instrCount = 6 ∧
      (Machine.call signOfZeroModule ⟨4, 100⟩ ⟨1⟩ [2.0]).run.run ⟨0, []⟩ =
        (.ok (-0.0), ⟨14, [⟨"printd", [-0.0]⟩, ⟨"printd", [-0.0]⟩]⟩) ∧
      ∃ y, ZeroLike (-0.0) y ∧ ∃ steps ≤ 14, ∃ made made',
        [⟨"printd", [-0.0]⟩, ⟨"printd", [-0.0]⟩] = made ++ [] ∧
          List.Forall₂ (CallLike ZeroLike) made made' ∧
        (Machine.call (signOfZeroModule.mapFunction ⟨1⟩ fun _ =>
          (folding.run signOfZero).function) ⟨4, 100⟩ ⟨1⟩
          [2.0]).run.run ⟨0, []⟩ = (.ok y, ⟨steps, made' ++ []⟩) :=
  have hverify : ∀ f ∈ signOfZeroModule.functions, signOfZeroModule.verify f = .ok () := by
    decide +kernel
  have hrun : (Machine.call signOfZeroModule ⟨4, 100⟩ ⟨1⟩ [2.0]).run.run ⟨0, []⟩ =
      (.ok (-0.0), ⟨14, [⟨"printd", [-0.0]⟩, ⟨"printd", [-0.0]⟩]⟩) :=
        Prod.ext (by decide +kernel) (by decide +kernel)
  have hzeros : ∀ host ∈ [HostFunction.sin, .cos],
      (∃ k ∈ signOfZeroModule.functions, k.name = host.name) →
      ZeroLike (host.apply 0.0) (host.apply (-0.0)) := by
    simp [signOfZeroModule, signOfZero, Function.declaration, HostFunction.name]
  ⟨hverify, by decide +kernel, hrun,
    call_folded signOfZeroModule (by decide) (by decide) hverify hzeros signOfZero
      (by decide) ⟨4, 100⟩ ⟨1⟩ [2.0] ⟨0, []⟩
      _ _ hrun⟩

end Pass
end ScalarSsa
