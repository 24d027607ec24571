import ScalarSsa.Proofs.Machine.Budget

/-!
# Limits only cut runs off

**Input.** A module, well formed or not, a call from outside, and two pairs of limits, the
second of which allows at least as much as the first.

**Definitions.** A result is `CutOff` if it is the fault of one of the two limits.

**Results.** `Executes.raise`: what ends by itself ends in the same way under the larger
limits.  `Executes.hostCalls_raise`: the host calls made under the smaller limits are under
the larger ones the first.  `raised_limits_extend` says both of a call.
-/

namespace ScalarSsa
namespace Machine

/-- A limit has ended the run. -/
inductive CutOff : Except ExecFault Float → Prop
  | depth (limit : Nat) : CutOff (.error (.depthLimit limit))
  | steps (limit : Nat) : CutOff (.error (.stepLimit limit))

variable {counter : Counter} {m : Module} {limits limits' : Limits} {task : Task}
  {p q q' : Progress} {r r' : Except ExecFault Float}

theorem not_cutOff_ok
    (x : Float) :
    ¬ CutOff (.ok x) :=
  nofun

/-- Host calls are never taken back. -/
theorem Executes.hostCalls_suffix
    (h : Executes counter m limits task p r q) :
    p.hostCalls <:+ q.hostCalls := by
  induction h with
  | known _ _ ih => exact ih
  | body _ _ _ _ _ ih => exact ih
  | enter _ _ _ ih => exact ih
  | host => exact List.suffix_cons _ _
  | value _ _ _ _ ih => exact ih
  | call _ _ _ _ _ ihcall ih => exact ihcall.trans ih
  | callFault _ _ _ _ ih => exact ih
  | goTo _ _ _ _ ih => exact ih
  | _ => exact List.suffix_refl _

/-- A run that no limit has ended is a run under all larger limits. -/
theorem Executes.raise
    (hdepth : limits.depth ≤ limits'.depth)
    (hsteps : limits.steps ≤ limits'.steps)
    (h : Executes counter m limits task p r q)
    (hr : ¬ CutOff r) :
    Executes counter m limits' task p r q := by
  induction h with
  | unknown hname => exact .unknown hname
  | known hname _ ih => exact .known hname (ih hr)
  | tooDeep => exact absurd (.depth _) hr
  | noFunction hlt hf => exact .noFunction (by omega) hf
  | wrongCount hlt hf harity => exact .wrongCount (by omega) hf harity
  | host hlt hf harity hentry => exact .host (by omega) hf harity hentry
  | body hlt hf harity hentry _ ih => exact .body (by omega) hf harity hentry (ih hr)
  | missing hb => exact .missing hb
  | stuck hb he => exact .stuck hb he
  | enter hb he _ ih => exact .enter hb he (ih hr)
  | outOfSteps => exact absurd (.steps _) hr
  | fault hnext hle hi => exact .fault hnext (by omega) hi
  | value hnext hle hi _ ih => exact .value hnext (by omega) hi (ih hr)
  | call hnext hle hi _ _ ihcall ih =>
      exact .call hnext (by omega) hi (ihcall (not_cutOff_ok _)) (ih hr)
  | callFault hnext hle hi _ ihcall => exact .callFault hnext (by omega) hi (ihcall hr)
  | termFault hnext hle ht => exact .termFault hnext (by omega) ht
  | done hnext hle ht => exact .done hnext (by omega) ht
  | goTo hnext hle ht _ ih => exact .goTo hnext (by omega) ht (ih hr)

/-- The host calls of a task come after those that were made before it. -/
theorem exists_executes_suffix
    (m : Module)
    (limits : Limits)
    (task : Task)
    (p : Progress) :
    ∃ r q, Executes .unbounded m limits task p r q ∧ p.hostCalls <:+ q.hostCalls := by
  obtain ⟨r, q, h⟩ := exists_executes m limits task p
  exact ⟨r, q, h, h.hostCalls_suffix⟩

/-- Under larger limits the same host calls are made, and then perhaps others. -/
theorem Executes.exists_raise
    (hdepth : limits.depth ≤ limits'.depth)
    (hsteps : limits.steps ≤ limits'.steps)
    (h : Executes .unbounded m limits task p r q) :
    ∃ r' q', Executes .unbounded m limits' task p r' q' ∧ q.hostCalls <:+ q'.hostCalls := by
  induction h with
  | known hname _ ih =>
      obtain ⟨r', q', h', hcalls⟩ := ih
      exact ⟨r', q', .known hname h', hcalls⟩
  | tooDeep => exact exists_executes_suffix m limits' _ _
  | body hlt hf harity hentry _ ih =>
      obtain ⟨r', q', h', hcalls⟩ := ih
      exact ⟨r', q', .body (by omega) hf harity hentry h', hcalls⟩
  | enter hb he _ ih =>
      obtain ⟨r', q', h', hcalls⟩ := ih
      exact ⟨r', q', .enter hb he h', hcalls⟩
  | outOfSteps => exact exists_executes_suffix m limits' _ _
  | value hnext hle hi _ ih =>
      obtain ⟨r', q', h', hcalls⟩ := ih
      exact ⟨r', q', .value hnext (by omega) hi h', hcalls⟩
  | call hnext hle hi hcall _ _ ih =>
      -- the callee gave a value, so the rest starts from the same progress
      obtain ⟨r', q', h', hcalls⟩ := ih
      have hcall' := hcall.raise hdepth hsteps (not_cutOff_ok _)
      exact ⟨r', q', .call hnext (by omega) hi hcall' h', hcalls⟩
  | @callFault p q n depth f frame b i rest callee args e hnext hle hi _ ihcall =>
      obtain ⟨r', q', hcall', hcalls⟩ := ihcall
      cases r' with
      | error e' => exact ⟨_, q', .callFault hnext (by omega) hi hcall', hcalls⟩
      | ok x =>
          -- the callee was cut off and now comes to its end, so that there is a rest to run
          obtain ⟨r'', q'', h'', hmore⟩ := exists_executes_suffix m limits'
            (.run depth f (frame.set i.dest (.double x)) (.inside b rest)) q'
          exact ⟨r'', q'', .call hnext (by omega) hi hcall' h'', hcalls.trans hmore⟩
  | goTo hnext hle ht _ ih =>
      obtain ⟨r', q', h', hcalls⟩ := ih
      exact ⟨r', q', .goTo hnext (by omega) ht h', hcalls⟩
  | unknown hname => exact ⟨_, _, .unknown hname, List.suffix_refl _⟩
  | noFunction hlt hf => exact ⟨_, _, .noFunction (by omega) hf, List.suffix_refl _⟩
  | wrongCount hlt hf harity =>
      exact ⟨_, _, .wrongCount (by omega) hf harity, List.suffix_refl _⟩
  | host hlt hf harity hentry =>
      exact ⟨_, _, .host (by omega) hf harity hentry, List.suffix_refl _⟩
  | missing hb => exact ⟨_, _, .missing hb, List.suffix_refl _⟩
  | stuck hb he => exact ⟨_, _, .stuck hb he, List.suffix_refl _⟩
  | fault hnext hle hi => exact ⟨_, _, .fault hnext (by omega) hi, List.suffix_refl _⟩
  | termFault hnext hle ht =>
      exact ⟨_, _, .termFault hnext (by omega) ht, List.suffix_refl _⟩
  | done hnext hle ht => exact ⟨_, _, .done hnext (by omega) ht, List.suffix_refl _⟩

/-- The host calls that were made come first under larger limits. -/
theorem Executes.hostCalls_raise
    (hdepth : limits.depth ≤ limits'.depth)
    (hsteps : limits.steps ≤ limits'.steps)
    (h : Executes .unbounded m limits task p r q)
    (h' : Executes .unbounded m limits' task p r' q') :
    q.hostCalls.reverse <+: q'.hostCalls.reverse := by
  obtain ⟨r'', q'', hraised, hcalls⟩ := h.exists_raise hdepth hsteps
  obtain ⟨rfl, rfl⟩ := h'.unique hraised
  exact List.reverse_prefix.2 hcalls

/-- A call is the outcome of its task. -/
theorem Callee.executes_task
    (m : Module)
    (limits : Limits)
    (callee : Callee)
    (args : List Float)
    (p : Progress) :
    Executes .unbounded m limits (callee.task args) p
      ((callee.call m limits args).run.run p).1
      ((callee.call m limits args).run.run p).2 := by
  rw [executes_iff, Callee.perform_task]
  rfl

/--
A function of any module is called, by its number or by its name, with any arguments and
from any progress.  If the call ends with a value or with a fault that is not a limit's,
then under all larger limits it ends with the same value or fault, after the same number of
steps and with the same host calls.  However it ends, the host calls made by then are under
larger limits the first ones.
-/
theorem raised_limits_extend
    (m : Module)
    (callee : Callee)
    (args : List Float)
    (p : Progress)
    (limits limits' : Limits)
    (hdepth : limits.depth ≤ limits'.depth)
    (hsteps : limits.steps ≤ limits'.steps) :
    (¬ CutOff ((callee.call m limits args).run.run p).1 →
      (callee.call m limits' args).run.run p = (callee.call m limits args).run.run p) ∧
    ((callee.call m limits args).run.run p).2.hostCalls.reverse <+:
      ((callee.call m limits' args).run.run p).2.hostCalls.reverse := by
  have h := callee.executes_task m limits args p
  have h' := callee.executes_task m limits' args p
  constructor
  · intro hr
    obtain ⟨hresult, hprogress⟩ := (h.raise hdepth hsteps hr).unique h'
    exact Prod.ext hresult hprogress
  · exact h.hostCalls_raise hdepth hsteps h'

/--
A function that shows its argument and then calls itself with one less, until that is zero.
-/
def showEach : Function where
  id := ⟨1⟩
  name := "show_each"
  params := ["n"]
  blocks :=
    [⟨⟨0⟩, "entry",
        [⟨⟨0⟩, .call ⟨0⟩ "printd" [.arg 0]⟩, ⟨⟨1⟩, .compare .one (.arg 0) (.const 0.0)⟩],
        some (.branch (.result ⟨1⟩) ⟨1⟩ ⟨2⟩)⟩,
      ⟨⟨1⟩, "again",
        [⟨⟨2⟩, .arith .sub (.arg 0) (.const 1.0)⟩,
          ⟨⟨3⟩, .call ⟨1⟩ "show_each" [.result ⟨2⟩]⟩],
        some (.ret (.result ⟨3⟩))⟩,
      ⟨⟨2⟩, "last", [], some (.ret (.const 7.0))⟩]
  nextValue := 4
  nextBlock := 3

/-- The function beside the host function that it calls. -/
def showEachModule : Module :=
  ⟨[.declaration ⟨0⟩ "printd" ["x"], showEach], [("printd", ⟨0⟩), ("show_each", ⟨1⟩)], 2⟩

theorem showEach_extended :
    (Callee.call showEachModule ⟨2, 50⟩ [1.0] (.byName "show_each")).run.run ⟨0, []⟩ =
        (.error (.depthLimit 2), ⟨6, [⟨"printd", [1.0]⟩]⟩) ∧
      [⟨"printd", [1.0]⟩] <+:
        ((Callee.call showEachModule ⟨3, 50⟩ [1.0] (.byName "show_each")).run.run
          ⟨0, []⟩).2.hostCalls.reverse ∧
      (Callee.call showEachModule ⟨3, 50⟩ [1.0] (.byName "show_each")).run.run ⟨0, []⟩ =
        (.ok 7.0, ⟨10, [⟨"printd", [0.0]⟩, ⟨"printd", [1.0]⟩]⟩) ∧
      (Callee.call showEachModule ⟨80, 1000⟩ [1.0] (.byName "show_each")).run.run ⟨0, []⟩ =
        (.ok 7.0, ⟨10, [⟨"printd", [0.0]⟩, ⟨"printd", [1.0]⟩]⟩) := by
  have hcut :
      (Callee.call showEachModule ⟨2, 50⟩ [1.0] (.byName "show_each")).run.run ⟨0, []⟩ =
      (.error (.depthLimit 2), ⟨6, [⟨"printd", [1.0]⟩]⟩) :=
        Prod.ext (by decide +kernel) (by decide +kernel)
  have hran :
      (Callee.call showEachModule ⟨3, 50⟩ [1.0] (.byName "show_each")).run.run ⟨0, []⟩ =
      (.ok 7.0, ⟨10, [⟨"printd", [0.0]⟩, ⟨"printd", [1.0]⟩]⟩) :=
        Prod.ext (by decide +kernel) (by decide +kernel)
  have hfirst :=
    (raised_limits_extend showEachModule (.byName "show_each") [1.0] ⟨0, []⟩ ⟨2, 50⟩ ⟨3, 50⟩
    (by decide) (by decide)).2
  have hsame :=
    (raised_limits_extend showEachModule (.byName "show_each") [1.0] ⟨0, []⟩
      ⟨3, 50⟩ ⟨80, 1000⟩
    (by decide) (by decide)).1
  rw [hcut] at hfirst
  rw [hran] at hsame
  exact ⟨hcut, hfirst, hran, hsame (not_cutOff_ok _)⟩

end Machine
end ScalarSsa
