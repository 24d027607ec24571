import ScalarSsa.Proofs.Machine.Refinement

/-!
# Exchanging the functions of a module

**Input.** Two modules in which the same identifiers name functions.

**Definitions.** A result is `Proper` if no function is to blame for it: a value, the depth
limit, or a fault of the host.  A function is `Improper` if none of its calls has such a
result.  The check lets some of these pass: those whose entry starts with a phi.

**Results.** `Runs.properly`: a run with a proper result has made only calls with proper
results, so calls with other results need not be compared.  `follows_properly`: if every
function is refined by its counterpart or improper, each call with a proper result is
matched.  `run_properly` says the same of the machine.
-/

namespace ScalarSsa
namespace Machine

/-- A value, or a fault that is no function's. -/
inductive Proper : Except ExecFault Float → Prop
  | ok (x : Float) : Proper (.ok x)
  | depth (limit : Nat) : Proper (.error (.depthLimit limit))
  | host (fault : HostFault) : Proper (.error (.host fault))

/-- The ways in which a call can end with a proper result. -/
def Properly (call : FuncId → List Float → Ending → Prop) (id : FuncId) (args : List Float)
    (o : Ending) : Prop :=
  call id args o ∧ Proper o.result

/-- No call of the function has a proper result. -/
def Improper (f : Function) : Prop :=
  ∀ call args o, Answers call f args o → ¬Proper o.result

variable {call call' : FuncId → List Float → Ending → Prop} {f : Function}

theorem Proper.of_resultLike
    {rel : Float → Float → Prop}
    {r r' : Except ExecFault Float}
    (hr : Proper r)
    (h : ResultLike rel r r') :
    Proper r' := by
  cases h with
  | ok _ => exact .ok _
  | error e => exact hr

/-! ## Runs and the calls that they make -/

/--
A run can make its calls in another way if that way has the values, and the faults that the
run ends with.
-/
theorem Runs.recall
    {frame : Frame}
    {point : Point}
    {o : Ending}
    (h : Runs call f frame point o)
    (hvalue : ∀ id args steps calls x, call id args ⟨steps, calls, .ok x⟩ →
      call' id args ⟨steps, calls, .ok x⟩)
    (hfault : ∀ id args steps calls e, o.result = .error e →
      call id args ⟨steps, calls, .error e⟩ →
      call' id args ⟨steps, calls, .error e⟩) :
    Runs call' f frame point o := by
  induction h with
  | missing hb => exact .missing hb
  | stuck hb he => exact .stuck hb he
  | enter hb he _ ih => exact .enter hb he (ih hfault)
  | fault hi => exact .fault hi
  | value hi _ ih => exact .value hi (ih hfault)
  | call hi hcall _ ih => exact .call hi (hvalue _ _ _ _ _ hcall) (ih hfault)
  | callFault hi hcall => exact .callFault hi (hfault _ _ _ _ _ rfl hcall)
  | termFault ht => exact .termFault ht
  | done ht => exact .done ht
  | goTo ht _ ih => exact .goTo ht (ih hfault)

/-- A run with a proper result has made only calls with proper results. -/
theorem Runs.properly
    {frame : Frame}
    {point : Point}
    {o : Ending}
    (h : Runs call f frame point o)
    (hproper : Proper o.result) :
    Runs (Properly call) f frame point o := by
  refine h.recall (fun _ _ _ _ _ hcall => ⟨hcall, .ok _⟩) fun _ _ _ _ e he hcall =>
    ⟨hcall, ?_⟩
  rwa [he] at hproper

theorem Runs.of_properly
    {frame : Frame}
    {point : Point}
    {o : Ending}
    (h : Runs (Properly call) f frame point o) :
    Runs call f frame point o :=
  h.recall (fun _ _ _ _ _ hcall => hcall.1) fun _ _ _ _ _ _ hcall => hcall.1

/-- Only the runs of the body depend on how calls end. -/
theorem answers_of_runs
    {args : List Float}
    {o : Ending}
    (h : ∀ entry, Runs call f ⟨args, []⟩ (.before none entry) o →
      Runs call' f ⟨args, []⟩ (.before none entry) o)
    (ho : Answers call f args o) :
    Answers call' f args o := by
  unfold Answers at ho ⊢
  split
  · next hargs =>
    rw [if_pos hargs] at ho
    cases hentry : f.entry? with
    | none =>
        rw [hentry] at ho
        exact ho
    | some entry =>
        rw [hentry] at ho
        exact h entry ho
  · next hargs =>
    rw [if_neg hargs] at ho
    exact ho

/-! ## Functions that no call gets through -/

/-- The phis of the entry cannot be read. -/
theorem enter_none_of_phi
    {frame : Frame}
    {b : Block}
    (hphis : b.phis ≠ []) :
    enter frame none b = .error .phiAtEntry := by
  cases hb : b.phis with
  | nil => exact absurd hb hphis
  | cons i rest =>
      have hphi : i.kind.isPhi = true := Block.isPhi_of_mem_phis (hb ▸ List.mem_cons_self)
      cases hkind : i.kind with
      | phi type incoming =>
          simp only [enter, hb, readPhis, hkind, readPhi]
          rfl
      | _ =>
          rw [hkind] at hphi
          cases hphi

/-- A well-formed function whose entry has a phi is improper. -/
theorem improper_of_not_plain
    (hwf : f.WellFormed)
    (hplain : ¬EntryPlain f) :
    Improper f := by
  intro call args o ho hproper
  by_cases hargs : f.arity = args.length
  · unfold EntryPlain at hplain
    push Not at hplain
    obtain ⟨b, hfirst, i, hi, hphi⟩ := hplain
    have hb : b ∈ f.blocks := List.mem_of_head? hfirst
    have hentry : f.entry? = some b.id := by rw [Function.entry?, hfirst, Option.map_some]
    have hblock : f.block? b.id = some b :=
      (Function.block?_eq_some_iff hwf.ids_nodup).2 ⟨hb, rfl⟩
    -- the phi stands before the plain instructions
    have hphis : b.phis ≠ [] := by
      intro hnone
      have hmem : i ∈ b.body := by
        rw [← b.phis_append_body, hnone] at hi
        exact hi
      exact hphi (hwf.phis_first b hb i hmem)
    rw [answers_of_entry hargs hentry] at ho
    cases ho with
    | missing hnone => cases hblock.symm.trans hnone
    | stuck hsome he =>
        cases hblock.symm.trans hsome
        rw [enter_none_of_phi hphis] at he
        cases he
        cases hproper
    | enter hsome he _ =>
        cases hblock.symm.trans hsome
        rw [enter_none_of_phi hphis] at he
        cases he
  · rw [answers_of_wrongCount hargs] at ho
    rw [ho] at hproper
    cases hproper

/-! ## Calls of the modules -/

section Modules

variable {rel : Float → Float → Prop} {m m' : Module}

theorem Follows.properly_succ
    (hfound : ∀ id f, m.function? id = some f → ∃ g, m'.function? id = some g ∧
      (Refines rel f g ∨ Improper f))
    (limit : Nat)
    {remaining : Nat}
    (h : Follows rel (Properly (Calls m limit remaining))
      (Properly (Calls m' limit remaining)))
    (hself : Follows rel (Properly (Calls m' limit remaining))
      (Properly (Calls m' limit remaining))) :
    Follows rel (Properly (Calls m limit (remaining + 1)))
      (Properly (Calls m' limit (remaining + 1))) := by
  rintro callee args args' o hargs ⟨hcall, hproper⟩
  unfold Calls at hcall
  cases hf : m.function? callee with
  | none =>
      simp only [hf] at hcall
      rw [hcall] at hproper
      cases hproper
  | some f =>
      simp only [hf] at hcall
      obtain ⟨g, hg, hrefines | himproper⟩ := hfound callee f hf
      · have hanswers : Answers (Properly (Calls m limit remaining)) f args o :=
          answers_of_runs (fun _ hruns => hruns.properly hproper) hcall
        obtain ⟨o', ho', hmatches⟩ := hrefines _ _ h hself args args' o hargs hanswers
        refine ⟨o', ⟨?_, hproper.of_resultLike hmatches.result⟩, hmatches⟩
        unfold Calls
        simp only [hg]
        exact answers_of_runs (fun _ hruns => hruns.of_properly) ho'
      · exact absurd hproper (himproper _ args o hcall)

/-- Calls with proper results in modules whose functions are refined one by one. -/
theorem follows_properly
    (hfound : ∀ id f, m.function? id = some f → ∃ g, m'.function? id = some g ∧
      (Refines rel f g ∨ Improper f))
    (hself : ∀ id g, m'.function? id = some g → Refines rel g g ∨ Improper g)
    (limit remaining : Nat) :
    Follows rel (Properly (Calls m limit remaining)) (Properly (Calls m' limit remaining)) ∧
      Follows rel (Properly (Calls m' limit remaining))
        (Properly (Calls m' limit remaining)) := by
  induction remaining with
  | zero =>
      have hzero : ∀ m : Module,
          Follows rel (Properly (Calls m limit 0)) (Properly (Calls m' limit 0)) := by
        rintro m callee args args' o hargs ⟨hcall, hproper⟩
        obtain ⟨o', ho', hmatches⟩ := Follows.depth limit callee args args' o hargs hcall
        exact ⟨o', ⟨ho', hproper.of_resultLike hmatches.result⟩, hmatches⟩
      exact ⟨hzero m, hzero m'⟩
  | succ remaining ih =>
      exact ⟨.properly_succ hfound limit ih.1 ih.2,
        .properly_succ (fun id g hg => ⟨g, hg, hself id g hg⟩) limit ih.2 ih.2⟩

/-- A machine's call with a proper result is matched by its call in the other module. -/
theorem Follows.run_properly
    {limits : Limits}
    (h : Follows rel (Properly (Calls m limits.depth limits.depth))
      (Properly (Calls m' limits.depth limits.depth)))
    {id : FuncId}
    {args args' : List Float}
    (hargs : List.Forall₂ rel args args')
    {p : Progress}
    (hproper : Proper ((Machine.call m limits id args).run.run p).1) :
    ∃ o o', o.Matches rel o' ∧ (Machine.call m limits id args).run.run p =
      (o.result, p.at o) ∧
      (Machine.call m' limits id args').run.run p = (o'.result, p.at o') := by
  have hends : ((Machine.call m limits id args).run.run p).1 ≠
      .error (.stepLimit limits.steps) := by
    intro hlimit
    rw [hlimit] at hproper
    cases hproper
  obtain ⟨o, ho, hresult, hprogress⟩ :=
    reflects_callAt m limits limits.depth id args p _ _ rfl hends
  have hresult' : ((Machine.call m limits id args).run.run p).1 = o.result := hresult
  obtain ⟨o', ho', hmatches⟩ := h id args args' o hargs ⟨ho, hresult' ▸ hproper⟩
  exact ⟨o, o', hmatches, Prod.ext hresult hprogress, hmatches.run ho ho'.1 hends⟩

end Modules

end Machine
end ScalarSsa
