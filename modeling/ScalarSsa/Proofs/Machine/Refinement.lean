import ScalarSsa.Proofs.Machine.Safety

/-!
# Runs that do the same in no more steps

**Input.** Two functions, or two modules, and a relation between doubles.

**Definitions.** A relation between doubles is a `Tolerance` if arithmetic carries it along
and comparisons cannot see it.  `HostCarries` says the like of the calls of one function of
the host.  An ending `Matches` another one if it takes no more steps, calls the host in the
same order with related arguments and has a related result.  A function `Refines` another
one if each of its calls can end in a way that matches.

**Results.** `Follows.calls`: if every function of a module is refined by its counterpart in
another one, so is every call.  `Follows.run`: then the machine's calls match as well, where
the step limit does not end the first one.
-/

namespace ScalarSsa
namespace Machine

/-! ## Related doubles -/

/-- Two results are related values or the same fault. -/
inductive ResultLike {ε : Type} (rel : Float → Float → Prop) :
    Except ε Float → Except ε Float → Prop
  | ok {x y : Float} (h : rel x y) : ResultLike rel (.ok x) (.ok y)
  | error (e : ε) : ResultLike rel (.error e) (.error e)

/-- Two data are related doubles or the same truth value. -/
inductive Datum.Like (rel : Float → Float → Prop) : Datum → Datum → Prop
  | double {x y : Float} (h : rel x y) : Like rel (.double x) (.double y)
  | bool (b : Bool) : Like rel (.bool b) (.bool b)

/-- Arithmetic carries a relation along, and comparisons cannot see it. -/
structure Tolerance (rel : Float → Float → Prop) : Prop where
  refl : ∀ x, rel x x
  trans : ∀ x y z, rel x y → rel y z → rel x z
  arith : ∀ (op : Arith) {x x' y y'}, rel x x' → rel y y' →
    rel (op.apply x y) (op.apply x' y')
  compare : ∀ (pred : Comparison) {x x' y y'}, rel x x' → rel y y' →
    pred.holds x y = pred.holds x' y'

/-- The calls of a function of the host carry a relation along. -/
def HostCarries (rel : Float → Float → Prop) (name : String) : Prop :=
  ∀ args args' : List Float, List.Forall₂ rel args args' →
    ResultLike rel (HostCall.result ⟨name, args⟩) (HostCall.result ⟨name, args'⟩)

theorem ResultLike.trans
    {ε : Type}
    {rel : Float → Float → Prop}
    (hrel : Tolerance rel)
    {r r' r'' : Except ε Float}
    (h : ResultLike rel r r')
    (h' : ResultLike rel r' r'') :
    ResultLike rel r r'' := by
  cases h with
  | ok hx =>
      cases h' with
      | ok hy => exact .ok (hrel.trans _ _ _ hx hy)
  | error e => exact h'

theorem ResultLike.mapError
    {ε ε' : Type}
    {rel : Float → Float → Prop}
    {r r' : Except ε Float}
    (h : ResultLike rel r r')
    (k : ε → ε') :
    ResultLike rel (r.mapError k) (r'.mapError k) := by
  cases h with
  | ok h => exact .ok h
  | error e => exact .error (k e)

/-- Lists whose members are related one by one, over a third list. -/
theorem related_trans
    {α : Type}
    {rel : α → α → Prop}
    (htrans : ∀ x y z, rel x y → rel y z → rel x z)
    {xs ys zs : List α}
    (h : List.Forall₂ rel xs ys)
    (h' : List.Forall₂ rel ys zs) :
    List.Forall₂ rel xs zs := by
  induction h generalizing zs with
  | nil => exact h'
  | cons hx _ ih =>
      cases h' with
      | cons hy hys => exact .cons (htrans _ _ _ hx hy) (ih hys)

theorem resultLike_eq_iff
    {ε : Type}
    {r r' : Except ε Float} :
    ResultLike Eq r r' ↔ r' = r := by
  constructor
  · intro h
    cases h with
    | ok h => rw [h]
    | error e => rfl
  · rintro rfl
    cases r' with
    | ok x => exact .ok rfl
    | error e => exact .error e

/-- Equality is the strictest tolerance. -/
theorem Tolerance.eq :
    Tolerance Eq where
  refl _ := rfl
  trans _ _ _ h h' := h.trans h'
  arith op := by
    rintro x _ y _ rfl rfl
    rfl
  compare pred := by
    rintro x _ y _ rfl rfl
    rfl

theorem hostCarries_eq
    (name : String) :
    HostCarries Eq name := by
  intro args args' h
  rw [List.forall₂_eq_eq_eq] at h
  rw [h]
  exact resultLike_eq_iff.2 rfl

namespace Datum.Like

variable {rel : Float → Float → Prop}

theorem refl
    (hrel : Tolerance rel)
    (d : Datum) :
    Like rel d d := by
  cases d with
  | double x => exact .double (hrel.refl x)
  | bool b => exact .bool b

theorem trans
    (hrel : Tolerance rel)
    {d d' d'' : Datum}
    (h : Like rel d d')
    (h' : Like rel d' d'') :
    Like rel d d'' := by
  cases h with
  | double hx =>
      cases h' with
      | double hy => exact .double (hrel.trans _ _ _ hx hy)
  | bool b => exact h'

end Datum.Like

/-! ## Endings -/

/-- Two calls of the host with related arguments. -/
structure CallLike (rel : Float → Float → Prop) (call call' : HostCall) : Prop where
  name : call'.name = call.name
  args : List.Forall₂ rel call.args call'.args

/--
An ending comes no later than another one, with related host calls and a related result.
-/
structure Ending.Matches (rel : Float → Float → Prop) (o o' : Ending) : Prop where
  steps : o'.steps ≤ o.steps
  calls : List.Forall₂ (CallLike rel) o.calls o'.calls
  result : ResultLike rel o.result o'.result

namespace Ending.Matches

variable {rel : Float → Float → Prop}

theorem after
    {o o' : Ending}
    (h : o.Matches rel o')
    {steps steps' : Nat}
    (hsteps : steps' ≤ steps)
    {calls calls' : List HostCall}
    (hcalls : List.Forall₂ (CallLike rel) calls calls') :
    (o.after steps calls).Matches rel (o'.after steps' calls') :=
  ⟨Nat.add_le_add hsteps h.steps, List.rel_append h.calls hcalls, h.result⟩

theorem trans
    (hrel : Tolerance rel)
    {o o' o'' : Ending}
    (h : o.Matches rel o')
    (h' : o'.Matches rel o'') :
    o.Matches rel o'' := by
  refine ⟨Nat.le_trans h'.steps h.steps, related_trans ?_ h.calls h'.calls,
    h.result.trans hrel h'.result⟩
  intro c d e hc hd
  exact ⟨hd.name.trans hc.name, related_trans hrel.trans hc.args hd.args⟩

/-- What the second ending comes after may be left out. -/
theorem skip
    {o o' : Ending}
    (h : o.Matches rel o')
    (steps : Nat) :
    (o.after steps []).Matches rel o' := by
  refine ⟨Nat.le_trans h.steps (Nat.le_add_left _ _), ?_, h.result⟩
  simp only [Ending.after, List.append_nil]
  exact h.calls

/-- With equality, host calls that are alike are the same. -/
theorem callLike_eq_iff
    {calls calls' : List HostCall} :
    List.Forall₂ (CallLike Eq) calls calls' ↔ calls' = calls := by
  constructor
  · intro h
    have hsame : List.Forall₂ Eq calls' calls := by
      refine h.flip.imp ?_
      rintro ⟨name', args'⟩ ⟨name, args⟩ ⟨hname, hargs⟩
      rw [List.forall₂_eq_eq_eq] at hargs
      simp only at hname hargs
      rw [hname, hargs]
    rwa [List.forall₂_eq_eq_eq] at hsame
  · rintro rfl
    refine List.forall₂_same.2 fun call _ => ⟨rfl, ?_⟩
    rw [List.forall₂_eq_eq_eq]

theorem refl_eq
    (o : Ending) :
    o.Matches Eq o :=
  ⟨Nat.le_refl _, callLike_eq_iff.2 rfl, resultLike_eq_iff.2 rfl⟩

/-- With equality, an ending that matches differs in its steps only. -/
theorem eq_iff
    {o o' : Ending} :
    o.Matches Eq o' ↔ o'.steps ≤ o.steps ∧ o'.calls = o.calls ∧ o'.result = o.result := by
  constructor
  · rintro ⟨hsteps, hcalls, hresult⟩
    exact ⟨hsteps, callLike_eq_iff.1 hcalls, resultLike_eq_iff.1 hresult⟩
  · rintro ⟨hsteps, hcalls, hresult⟩
    exact ⟨hsteps, callLike_eq_iff.2 hcalls, resultLike_eq_iff.2 hresult⟩

end Ending.Matches

/-! ## Functions and modules -/

/--
Whatever comes of a call in one way, a call with related arguments can come to the
like in another way.
-/
def Follows (rel : Float → Float → Prop)
    (call call' : FuncId → List Float → Ending → Prop) : Prop :=
  ∀ callee args args' o, List.Forall₂ rel args args' → call callee args o →
    ∃ o', call' callee args' o' ∧ o.Matches rel o'

/-- Each way in which a call of the first function can end is matched by the second. -/
def Refines (rel : Float → Float → Prop) (f g : Function) : Prop :=
  ∀ call call' : FuncId → List Float → Ending → Prop, Follows rel call call' →
    Follows rel call' call' →
    ∀ args args' o, List.Forall₂ rel args args' → Answers call f args o →
      ∃ o', Answers call' g args' o' ∧ o.Matches rel o'

theorem answers_of_entry
    {call : FuncId → List Float → Ending → Prop}
    {f : Function}
    {args : List Float}
    (hargs : f.arity = args.length)
    {entry : BlockId}
    (hentry : f.entry? = some entry)
    {o : Ending} :
    Answers call f args o ↔ Runs call f ⟨args, []⟩ (.before none entry) o := by
  rw [Answers, if_pos hargs, hentry]

theorem answers_of_wrongCount
    {call : FuncId → List Float → Ending → Prop}
    {f : Function}
    {args : List Float}
    (hargs : f.arity ≠ args.length)
    {o : Ending} :
    Answers call f args o ↔
      o = ⟨0, [], .error (.wrongCount f.name f.arity args.length)⟩ := by
  rw [Answers, if_neg hargs]

/-- Only calls with the right number of arguments have to be looked at. -/
theorem Refines.of_arity
    {rel : Float → Float → Prop}
    {f g : Function}
    (hname : g.name = f.name)
    (harity : g.arity = f.arity)
    (h : ∀ call call' : FuncId → List Float → Ending → Prop, Follows rel call call' →
      Follows rel call' call' →
      ∀ args args' o, List.Forall₂ rel args args' → f.arity = args.length →
        Answers call f args o →
        ∃ o', Answers call' g args' o' ∧ o.Matches rel o') :
    Refines rel f g := by
  intro call call' hcall hcall' args args' o hargs ho
  by_cases hlength : f.arity = args.length
  · exact h call call' hcall hcall' args args' o hargs hlength ho
  · have hlength' : g.arity ≠ args'.length := by rwa [harity, ← hargs.length_eq]
    obtain rfl := (answers_of_wrongCount hlength).1 ho
    refine ⟨_, (answers_of_wrongCount hlength').2 rfl, Nat.le_refl _, .nil, ?_⟩
    rw [hname, harity, ← hargs.length_eq]
    exact .error _

/-- A function without a body refines itself if the host carries the relation along. -/
theorem Refines.host
    {rel : Float → Float → Prop}
    {f : Function}
    (hentry : f.entry? = none)
    (hhost : HostCarries rel f.name) :
    Refines rel f f := by
  refine .of_arity rfl rfl ?_
  intro call call' _ _ args args' o hargs harity ho
  have hanswer : ∀ call args, f.arity = args.length → ∀ o, Answers call f args o ↔
      o = ⟨0, [⟨f.name, args⟩], (HostCall.result ⟨f.name, args⟩).mapError .host⟩ := by
    intro call args hargs o
    rw [Answers, if_pos hargs, hentry]
  obtain rfl := (hanswer call args harity o).1 ho
  exact ⟨_, (hanswer call' args' (harity.trans hargs.length_eq) _).2 rfl, Nat.le_refl _,
    .cons ⟨rfl, hargs⟩ .nil,
    (hhost args args' hargs).mapError ExecFault.host⟩

/-- A function that can be run: it is well formed and has a body whose entry has no phi. -/
structure Runnable (f : Function) : Prop where
  wellFormed : f.WellFormed
  plain : EntryPlain f
  body : f.entry? ≠ none

theorem Refines.trans
    {rel : Float → Float → Prop}
    (hrel : Tolerance rel)
    {f g h : Function}
    (hfg : Refines rel f g)
    (hgh : Refines rel g h) :
    Refines rel f h := by
  intro call call' hcall hcall' args args' o hargs ho
  obtain ⟨o', ho', hmatches⟩ := hfg call call' hcall hcall' args args' o hargs ho
  obtain ⟨o'', ho'', hmatches'⟩ := hgh call' call' hcall' hcall' args' args' o'
    (List.forall₂_same.2 fun x _ => hrel.refl x) ho'
  exact ⟨o'', ho'', hmatches.trans hrel hmatches'⟩

theorem Follows.depth
    {rel : Float → Float → Prop}
    {m m' : Module}
    (limit : Nat) :
    Follows rel (Calls m limit 0) (Calls m' limit 0) := by
  intro callee args args' o _ hcall
  obtain rfl : o = _ := hcall
  exact ⟨_, rfl, Nat.le_refl _, .nil, .error _⟩

theorem Follows.succ
    {rel : Float → Float → Prop}
    {m m' : Module}
    (hfound : ∀ id f, m.function? id = some f → ∃ g, m'.function? id = some g ∧
      Refines rel f g)
    (hmissing : ∀ id, m.function? id = none → m'.function? id = none)
    (limit : Nat)
    {remaining : Nat}
    (h : Follows rel (Calls m limit remaining) (Calls m' limit remaining))
    (hself : Follows rel (Calls m' limit remaining) (Calls m' limit remaining)) :
    Follows rel (Calls m limit (remaining + 1)) (Calls m' limit (remaining + 1)) := by
  intro callee args args' o hargs hcall
  unfold Calls at hcall ⊢
  cases hf : m.function? callee with
  | none =>
      simp only [hf] at hcall
      simp only [hmissing callee hf]
      obtain rfl : o = _ := hcall
      exact ⟨_, rfl, Nat.le_refl _, .nil, .error _⟩
  | some f =>
      obtain ⟨g, hg, hrefines⟩ := hfound callee f hf
      simp only [hf] at hcall
      simp only [hg]
      exact hrefines _ _ h hself args args' o hargs hcall

/--
Whatever a call of the first function comes to, the second one comes to in no more steps.
-/
def Imitates (f g : Function) : Prop :=
  ∀ (call : FuncId → List Float → Ending → Prop) args o, Answers call f args o →
    ∃ o', Answers call g args o' ∧ o'.steps ≤ o.steps ∧ o'.calls = o.calls ∧
      o'.result = o.result

/-- Only the runs of the bodies have to be looked at. -/
theorem Imitates.of_entry
    {f g : Function}
    (hname : g.name = f.name)
    (harity : g.arity = f.arity)
    {entry : BlockId}
    (hentry : f.entry? = some entry)
    (hentry' : g.entry? = some entry)
    (h : ∀ (call : FuncId → List Float → Ending → Prop) args o, f.arity = args.length →
      Runs call f ⟨args, []⟩ (.before none entry) o →
        ∃ o', Runs call g ⟨args, []⟩ (.before none entry) o' ∧ o.Matches Eq o') :
    Imitates f g := by
  intro call args o ho
  by_cases hargs : f.arity = args.length
  · obtain ⟨o', hruns, hmatches⟩ :=
      h call args o hargs ((answers_of_entry hargs hentry).1 ho)
    exact ⟨o', (answers_of_entry (harity.trans hargs) hentry').2 hruns,
      Ending.Matches.eq_iff.1 hmatches⟩
  · have hargs' : g.arity ≠ args.length := by rwa [harity]
    obtain rfl := (answers_of_wrongCount hargs).1 ho
    exact ⟨_, (answers_of_wrongCount hargs').2 (by rw [hname, harity]),
      Nat.le_refl _, rfl, rfl⟩

/-- What imitates a function refines it, if it refines itself. -/
theorem Refines.of_imitates
    {rel : Float → Float → Prop}
    {f g : Function}
    (h : Imitates f g)
    (hself : Refines rel g g) :
    Refines rel f g := by
  intro call call' hcall hcall' args args' o hargs ho
  obtain ⟨o', ho', hsteps, hcalls, hresult⟩ := h call args o ho
  obtain ⟨o'', ho'', hmatches⟩ := hself call call' hcall hcall' args args' o' hargs ho'
  exact ⟨o'', ho'', Nat.le_trans hmatches.steps hsteps, hcalls ▸ hmatches.calls,
    hresult ▸ hmatches.result⟩

/-- Calls of modules whose functions are refined one by one. -/
theorem Follows.calls
    {rel : Float → Float → Prop}
    {m m' : Module}
    (hfound : ∀ id f, m.function? id = some f → ∃ g, m'.function? id = some g ∧
      Refines rel f g)
    (hmissing : ∀ id, m.function? id = none → m'.function? id = none)
    (hself : ∀ id g, m'.function? id = some g → Refines rel g g)
    (limit remaining : Nat) :
    Follows rel (Calls m limit remaining) (Calls m' limit remaining) ∧
      Follows rel (Calls m' limit remaining) (Calls m' limit remaining) := by
  induction remaining with
  | zero => exact ⟨.depth limit, .depth limit⟩
  | succ remaining ih =>
      exact ⟨.succ hfound hmissing limit ih.1 ih.2,
        .succ (fun id g hg => ⟨g, hg, hself id g hg⟩) (fun _ h => h) limit ih.2 ih.2⟩

/--
If the machine's call ends in a way that another call can match, the machine makes the
other call end so.
-/
theorem Ending.Matches.run
    {rel : Float → Float → Prop}
    {m m' : Module}
    {limits : Limits}
    {id : FuncId}
    {args args' : List Float}
    {o o' : Ending}
    (hmatches : o.Matches rel o')
    (ho : Calls m limits.depth limits.depth id args o)
    (ho' : Calls m' limits.depth limits.depth id args' o')
    {p : Progress}
    (hends : ((call m limits id args).run.run p).1 ≠ .error (.stepLimit limits.steps)) :
    (call m' limits id args').run.run p = (o'.result, p.at o') := by
  refine (ho'.realises p).fits ?_
  -- otherwise the first call would have been cut off
  by_contra hlong
  have hsteps := hmatches.steps
  obtain ⟨steps, made, -, hcut⟩ := (ho.realises p).cut (by omega) (by omega)
  exact hends (congrArg (·.1) hcut)

/--
A call that the step limit does not end is matched by the machine's run of the other call.
-/
theorem Follows.run
    {rel : Float → Float → Prop}
    {m m' : Module}
    {limits : Limits}
    (h : Follows rel (Calls m limits.depth limits.depth)
      (Calls m' limits.depth limits.depth))
    {id : FuncId}
    {args args' : List Float}
    (hargs : List.Forall₂ rel args args')
    {p : Progress}
    (hends : ((call m limits id args).run.run p).1 ≠ .error (.stepLimit limits.steps)) :
    ∃ o o', o.Matches rel o' ∧ (call m limits id args).run.run p = (o.result, p.at o) ∧
      (call m' limits id args').run.run p = (o'.result, p.at o') := by
  obtain ⟨o, ho, hresult, hprogress⟩ :=
    reflects_callAt m limits limits.depth id args p _ _ rfl hends
  obtain ⟨o', ho', hmatches⟩ := h id args args' o hargs ho
  exact ⟨o, o', hmatches, Prod.ext hresult hprogress, hmatches.run ho ho' hends⟩

end Machine
end ScalarSsa
