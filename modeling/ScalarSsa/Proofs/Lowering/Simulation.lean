import ScalarSsa.Proofs.Lowering.Emission
import ScalarSsa.Proofs.Machine.Frames
import ScalarSsa.Proofs.Program.Evaluation

/-!
# Running what was emitted

**Input.** A function that is complete, and two sites between which expressions were emitted
on the way to it.

**Definitions.** `Site.Here` is the place in the complete function that a site stood for,
and `Site.Completes` says that a function came of a site.  `Simulates` compares a run from
one site to another with an evaluation: either the run gets there with the same value and
the same host calls, or it fails with the same fault after the same host calls.

**Results.** `faithful_of_emits`: what was emitted for expressions runs as the expressions
evaluate, with one lemma for each kind of expression.
-/

namespace ScalarSsa
namespace Machine

/-! ## Parts of runs -/

section Parts

variable {call : FuncId → List Float → Ending → Prop} {f : Function}

/-- The run gets from one point to another with some host calls. -/
def Passes (call : FuncId → List Float → Ending → Prop) (f : Function)
    (frame : Frame) (point : Point)
    (calls : List HostCall) (frame' : Frame) (point' : Point) : Prop :=
  ∃ steps, ∀ o, Runs call f frame' point' o → Runs call f frame point (o.after steps calls)

/-- The run fails from a point on with some host calls. -/
def Fails (call : FuncId → List Float → Ending → Prop) (f : Function)
    (frame : Frame) (point : Point)
    (calls : List HostCall) (e : ExecFault) : Prop :=
  ∃ steps, Runs call f frame point ⟨steps, calls, .error e⟩

theorem Passes.refl
    (frame : Frame)
    (point : Point) :
    Passes call f frame point [] frame point :=
  ⟨0, fun o h => by simpa [Ending.after] using h⟩

theorem Passes.trans
    {frame frame' frame'' : Frame}
    {point point' point'' : Point}
    {calls calls' : List HostCall}
    (h : Passes call f frame point calls frame' point')
    (h' : Passes call f frame' point' calls' frame'' point'') :
    Passes call f frame point (calls' ++ calls) frame'' point'' := by
  obtain ⟨steps, hsteps⟩ := h
  obtain ⟨steps', hsteps'⟩ := h'
  refine ⟨steps + steps', fun o ho => ?_⟩
  rw [← Ending.after_after]
  exact hsteps _ (hsteps' o ho)

theorem Passes.fails
    {frame frame' : Frame}
    {point point' : Point}
    {calls calls' : List HostCall}
    {e : ExecFault}
    (h : Passes call f frame point calls frame' point')
    (h' : Fails call f frame' point' calls' e) :
    Fails call f frame point (calls' ++ calls) e := by
  obtain ⟨steps, hsteps⟩ := h
  obtain ⟨steps', hsteps'⟩ := h'
  exact ⟨steps + steps', hsteps _ hsteps'⟩

theorem Passes.value
    {frame : Frame}
    {b : Block}
    {i : Instr}
    {rest : List Instr}
    {d : Datum}
    (h : frame.request i = .ok (.value d)) :
    Passes call f frame (.inside b (i :: rest)) [] (frame.set i.dest d) (.inside b rest) :=
  ⟨1, fun _ ho => .value h ho⟩

/-- The run goes on in another block. -/
theorem Passes.goTo
    {frame entered : Frame}
    {b c : Block}
    {target : BlockId}
    (hterm : runTerm frame f b = .ok (.goTo target))
    (hc : f.block? target = some c)
    (henter : enter frame (some b.id) c = .ok entered) :
    Passes call f frame (.inside b []) [] entered (.inside c c.body) :=
  ⟨1, fun _ ho => .goTo hterm (.enter hc henter ho)⟩

end Parts

/-! ## Frames that later results do not disturb -/

/-- The later frame has the same arguments and the same older results. -/
structure Frame.Keeps (count : Nat) (frame later : Frame) : Prop where
  args : later.args = frame.args
  older : ∀ v : ValueId, v.number < count → later.get? v = frame.get? v

/-- An operand that was there when `count` results were issued. -/
def Older (count : Nat) (o : Operand) : Prop :=
  ∀ v, o = .result v → v.number < count

namespace Frame.Keeps

variable {count count' : Nat} {frame later latest : Frame}

theorem refl
    (count : Nat)
    (frame : Frame) :
    frame.Keeps count frame :=
  ⟨rfl, fun _ _ => rfl⟩

theorem trans
    (h : frame.Keeps count later)
    (hle : count ≤ count')
    (h' : later.Keeps count' latest) :
    frame.Keeps count latest :=
  ⟨h'.args.trans h.args, fun v hv => (h'.older v (by omega)).trans (h.older v hv)⟩

theorem set
    (hbound : count < UInt32.size)
    (frame : Frame)
    (d : Datum) :
    frame.Keeps count (frame.set (.ofCount count) d) := by
  refine ⟨rfl, fun v hv => ?_⟩
  rw [get?_set, if_neg (ValueId.ne_of_number ?_)]
  rw [ValueId.number_ofCount hbound]
  omega

theorem readDouble
    (h : frame.Keeps count later)
    {o : Operand}
    (ho : Older count o) :
    later.readDouble o = frame.readDouble o := by
  rw [readDouble_eq, readDouble_eq, read_congr h.args fun v hv => h.older v (ho v hv)]

end Frame.Keeps

theorem readDouble_set
    (frame : Frame)
    (v : ValueId)
    (x : Float) :
    (frame.set v (.double x)).readDouble (.result v) = .ok x := by
  refine Frame.readDouble_of_read ?_
  rw [Frame.read_result, Frame.get?_set, if_pos rfl]

theorem readBool_set
    (frame : Frame)
    (v : ValueId)
    (b : Bool) :
    (frame.set v (.bool b)).readBool (.result v) = .ok b := by
  refine Frame.readBool_of_read ?_
  rw [Frame.read_result, Frame.get?_set, if_pos rfl]

end Machine

/-! ## Places in a complete function -/

namespace Site

/--
The place in a complete function that a site stood for: behind the instructions that were
there, in the block at the cursor.
-/
structure Here (s : Site) (f : Function) (b : Block) (rest : List Instr) : Prop where
  block : f.block? s.block = some b
  split : ∃ c, s.func.block? s.block = some c ∧ b.instrs = c.instrs ++ rest
  plain : ∀ i ∈ rest, i.kind.isPhi = false

/--
A function that came of a site: it has the site's terminated blocks, and the cursor's block
went on with plain instructions.
-/
structure Completes (s : Site) (f : Function) : Prop where
  closed : ∀ id b, s.func.block? id = some b → b.term.isSome → f.block? id = some b
  cursor : ∃ b rest, s.Here f b rest

variable {s t u v : Site} {f : Function} {x y z : Operand}

theorem Completes.of_extends
    (h : t.Completes f)
    (hopen : s.Open)
    (hext : s.Extends t) :
    s.Completes f := by
  obtain ⟨b, hb, hterm⟩ := hopen.cursor
  refine ⟨?_, ?_⟩
  · intro id c hc hclosed
    refine h.closed id c (hext.others id c ?_ hc) hclosed
    rintro rfl
    rw [hb] at hc
    cases hc
    simp [hterm] at hclosed
  · obtain ⟨c, added, hc, hinstrs, hplain, hend⟩ := hext.cursor b hb
    rcases hend with hend | hend
    · exact ⟨c, added, h.closed _ c hc hend, ⟨b, hb, hinstrs⟩, hplain⟩
    · obtain ⟨d, rest, hd, ⟨c', hc', hrest⟩, hplain'⟩ := h.cursor
      rw [hend] at hd hc'
      rw [hc] at hc'
      cases hc'
      refine ⟨d, added ++ rest, hd, ⟨b, hb, by simp [hrest, hinstrs]⟩, ?_⟩
      intro i hi
      rcases List.mem_append.1 hi with hi | hi
      · exact hplain i hi
      · exact hplain' i hi

/--
The place before a plain instruction is followed by that instruction and by
the place behind it.
-/
theorem Here.push
    {kind : InstrKind}
    {b : Block}
    {rest : List Instr}
    (h : s.Here f b rest)
    (hplain : kind.isPhi = false)
    (hdone : (s.push kind).Completes f) :
    ∃ after, rest = ⟨s.next, kind⟩ :: after ∧ (s.push kind).Here f b after := by
  obtain ⟨hb, ⟨c, hc, hrest⟩, -⟩ := h
  obtain ⟨b', after, hb', ⟨c', hc', hafter⟩, hplain'⟩ := hdone.cursor
  rw [block_push, hb] at hb'
  cases hb'
  have hinsert : c' = c.insert ⟨s.next, kind⟩ := by
    rw [block_push, block?_push, if_pos rfl, hc] at hc'
    exact (Option.some.inj hc').symm
  have hinstrs : c'.instrs = c.instrs ++ [⟨s.next, kind⟩] := by
    rw [hinsert]
    simp [Block.insert, hplain]
  refine ⟨after, ?_, hb, ⟨c', hc', hafter⟩, hplain'⟩
  rw [hafter, hinstrs, List.append_assoc] at hrest
  exact (List.append_cancel_left hrest).symm

/-! ## The place of a conditional -/

namespace Diamond

variable (h : Diamond t x u v)

include h

/-- A join changes only open blocks. -/
theorem block?_join_of_closed
    {id : BlockId}
    {b : Block}
    (hb : v.func.block? id = some b)
    (hclosed : b.term.isSome) :
    (t.join u v y z).func.block? id = some b := by
  have hother : ∀ j c, v.func.block? j = some c → c.term = none → id ≠ j := by
    rintro j c hc hterm rfl
    rw [hb] at hc
    cases hc
    simp [hterm] at hclosed
  obtain ⟨c, hc, hcterm⟩ := (h.start.push (.compare .one x (.const 0.0))).cursor
  obtain ⟨d, hd, hdterm⟩ := h.thenOpen.cursor
  obtain ⟨e, he, heterm⟩ := h.elseOpen.cursor
  obtain ⟨label, hmerge⟩ := h.block?_merge
  have ht := hother _ c (h.block?_of_lt h.start.block_lt hc) hcterm
  have hu := hother _ d (h.block?_thenEnd hd) hdterm
  have hv := hother _ e he heterm
  rw [h.block?_join, if_neg ht, if_neg (not_or.2 ⟨hu, hv⟩),
    if_neg (hother _ _ hmerge rfl), hb]

/-- What came of a join also came of the end of its second branch. -/
theorem completes_elseEnd
    (hdone : (t.join u v y z).Completes f) :
    v.Completes f := by
  refine ⟨fun id b hb hclosed =>
    hdone.closed id b (h.block?_join_of_closed hb hclosed) hclosed, ?_⟩
  obtain ⟨b, hb, -⟩ := h.elseOpen.cursor
  exact ⟨_, [], hdone.closed _ _ (h.block?_join_elseEnd y z hb) rfl,
    ⟨b, hb, by simp⟩, by simp⟩

/-- What came of a join also came of the end of its first branch. -/
theorem completes_thenEnd
    (hdone : (t.join u v y z).Completes f) :
    u.Completes f := by
  refine ⟨fun id b hb hclosed => ?_, ?_⟩
  · have hne : id ≠ t.fresh 1 := by
      rintro rfl
      obtain ⟨label, hempty⟩ := h.block?_fresh (show 1 < 3 by omega) (by omega)
      rw [hempty] at hb
      cases hb
      simp [Block.empty] at hclosed
    exact hdone.closed id b
      (h.block?_join_of_closed (h.elseExtends.others id b hne hb) hclosed) hclosed
  · obtain ⟨b, hb, -⟩ := h.thenOpen.cursor
    exact ⟨_, [], hdone.closed _ _ (h.block?_join_thenEnd y z hb) rfl,
      ⟨b, hb, by simp⟩, by simp⟩

end Diamond

end Site

/-! ## Runs and evaluations -/

namespace Machine

/--
A run from `s` to `t` does what an evaluation does: it gets to `t` in a frame of which
`holds` says how it has the value.
-/
def Simulates (call : FuncId → List Float → Ending → Prop) (f : Function) (s t : Site)
    (frame : Frame) {α : Type}
    (x : Evaluation α) (holds : Frame → α → Prop) : Prop :=
  ∀ b rest, s.Here f b rest →
    match x.result with
    | .ok a =>
      ∃ later c after, t.Here f c after ∧
        frame.Keeps s.func.nextValue later ∧ holds later a ∧
        Passes call f frame (.inside b rest) x.calls later (.inside c after)
    | .error e => Fails call f frame (.inside b rest) x.calls e

namespace Simulates

variable {call : FuncId → List Float → Ending → Prop} {f : Function}
  {s t u v : Site} {frame : Frame}
variable {α β : Type} {x : Evaluation α} {holds : Frame → α → Prop}
  {holds' : Frame → β → Prop}

theorem pure
    {a : α}
    (h : holds frame a) :
    Simulates call f s s frame (Pure.pure a) holds :=
  fun b rest hhere => ⟨frame, b, rest, hhere, .refl _ _, h, .refl _ _⟩

theorem bind
    {next : α → Evaluation β}
    (hle : s.func.nextValue ≤ t.func.nextValue)
    (h : Simulates call f s t frame x holds)
    (hnext : ∀ later a, frame.Keeps s.func.nextValue later → holds later a →
      Simulates call f t u later (next a) holds') :
    Simulates call f s u frame (x >>= next) holds' := by
  intro b rest hhere
  have hx := h b rest hhere
  cases hresult : x.result with
  | error e =>
      rw [Evaluation.bind_of_error next hresult]
      simpa only [hresult] using hx
  | ok a =>
      simp only [hresult] at hx
      obtain ⟨later, c, after, hthere, hkeeps, hholds, hpasses⟩ := hx
      have hy := hnext later a hkeeps hholds c after hthere
      rw [Evaluation.bind_of_ok next hresult]
      cases hresult' : (next a).result with
      | error e =>
          simp only [hresult'] at hy ⊢
          exact hpasses.fails hy
      | ok a' =>
          simp only [hresult'] at hy ⊢
          obtain ⟨latest, d, end_, hend, hkeeps', hholds', hpasses'⟩ := hy
          exact ⟨latest, d, end_, hend, hkeeps.trans hle hkeeps', hholds',
            hpasses.trans hpasses'⟩

theorem mono
    {holds₁ holds₂ : Frame → α → Prop}
    (h : Simulates call f s t frame x holds₁)
    (himp : ∀ later a, holds₁ later a → holds₂ later a) :
    Simulates call f s t frame x holds₂ := by
  intro b rest hhere
  have hx := h b rest hhere
  cases hresult : x.result with
  | error e => simpa only [hresult] using hx
  | ok a =>
      simp only [hresult] at hx
      obtain ⟨later, c, after, hthere, hkeeps, hholds, hpasses⟩ := hx
      exact ⟨later, c, after, hthere, hkeeps, himp later a hholds, hpasses⟩

/-- A list of one expression has the list of its value. -/
theorem singleton_iff
    {evalCall : String → List Float → Evaluation Float}
    {env : List (String × Float)}
    {e : Expr}
    {holds : Frame → List Float → Prop} :
    Simulates call f s t frame (Expr.evalAll evalCall env [e]) holds ↔
      Simulates call f s t frame (e.eval evalCall env) fun later y => holds later [y] := by
  have hone : Expr.evalAll evalCall env [e] = e.eval evalCall env >>= fun y =>
    Pure.pure [y] := rfl
  unfold Simulates
  rw [hone]
  cases hresult : (e.eval evalCall env).result with
  | error fault => simp only [Evaluation.bind_of_error _ hresult]
  | ok y => simp only [Evaluation.bind_of_ok _ hresult]; rfl

/-- An instruction that has a value is run. -/
theorem push
    {kind : InstrKind}
    {d : Datum}
    {a : α}
    (hplain : kind.isPhi = false)
    (hdone : (s.push kind).Completes f)
    (hbound : s.func.nextValue < UInt32.size)
    (hrequest : frame.request ⟨s.next, kind⟩ = .ok (.value d))
    (h : holds (frame.set s.next d) a) :
    Simulates call f s (s.push kind) frame (Pure.pure a) holds := by
  intro b rest hhere
  obtain ⟨after, rfl, hthere⟩ := hhere.push hplain hdone
  exact ⟨_, b, after, hthere, .set hbound frame d, h, .value hrequest⟩

/-- An instruction that makes a call is run. -/
theorem pushCall
    {kind : InstrKind}
    {callee : FuncId}
    {args : List Float}
    {x : Evaluation Float}
    {holds : Frame → Float → Prop}
    (hplain : kind.isPhi = false)
    (hdone : (s.push kind).Completes f)
    (hbound : s.func.nextValue < UInt32.size)
    (hrequest : frame.request ⟨s.next, kind⟩ = .ok (.call callee args))
    (hcall : ∃ steps, call callee args ⟨steps, x.calls, x.result⟩)
    (h : ∀ y, holds (frame.set s.next (.double y)) y) :
    Simulates call f s (s.push kind) frame x holds := by
  intro b rest hhere
  obtain ⟨after, rfl, hthere⟩ := hhere.push hplain hdone
  obtain ⟨steps, hcall⟩ := hcall
  cases hresult : x.result with
  | error e =>
      rw [hresult] at hcall
      exact ⟨_, .callFault hrequest hcall⟩
  | ok y =>
      rw [hresult] at hcall
      exact ⟨_, b, after, hthere, .set hbound frame _, h y, _, fun o ho =>
        .call hrequest hcall ho⟩

end Simulates

/-! ## Conditionals -/

theorem read_of_readDouble
    {frame : Frame}
    {o : Operand}
    {x : Float}
    (h : frame.readDouble o = .ok x) :
    frame.read o = .ok (.double x) := by
  rw [Frame.readDouble_eq] at h
  cases hread : frame.read o with
  | error e => simp [hread] at h
  | ok d =>
      cases d with
      | bool b => simp [hread] at h
      | double y =>
          simp only [hread, Except.ok.injEq] at h
          rw [h]

theorem enter_of_no_phis
    (frame : Frame)
    (prev : Option BlockId)
    {b : Block}
    (h : b.phis = []) :
    enter frame prev b = .ok frame := by
  rw [enter, h]
  rfl

theorem enter_of_one_phi
    {frame : Frame}
    {prev : Option BlockId}
    {b : Block}
    {v : ValueId}
    {type : ValueType}
    {incoming : List (Operand × BlockId)}
    {d : Datum}
    (h : b.phis = [⟨v, .phi type incoming⟩])
    (hread : readPhi frame prev v incoming = .ok d) :
    enter frame prev b = .ok (frame.set v d) := by
  rw [enter, h]
  simp only [readPhis, hread]
  rfl

section Conditional

variable {call : FuncId → List Float → Ending → Prop} {f : Function} {t u v : Site}
  {x y z : Operand}
variable (h : Site.Diamond t x u v) (hdone : (t.join u v y z).Completes f)

include h hdone

/--
At a fork the machine compares the test with zero and goes into the branch that the
comparison says.
-/
theorem passes_fork
    {frame : Frame}
    {a : Float}
    {b c : Block}
    {rest : List Instr}
    (hhere : t.Here f b rest)
    (hx : frame.readDouble x = .ok a)
    (hc : f.block? (if Comparison.one.holds a 0.0 then t.fresh 0 else t.fresh 1) = some c)
    (hphis : c.phis = []) :
    Passes call f frame (.inside b rest) []
      (frame.set t.next (.bool (Comparison.one.holds a 0.0)))
      (.inside c c.body) := by
  obtain ⟨hb, ⟨d, hd, hrest⟩, -⟩ := hhere
  have hclosed := hdone.closed _ _ (h.block?_join_start y z hd) rfl
  rw [hb] at hclosed
  cases hclosed
  obtain rfl : rest = [⟨t.next, .compare .one x (.const 0.0)⟩] :=
    (List.append_cancel_left hrest).symm
  have hrequest : frame.request ⟨t.next, .compare .one x (.const 0.0)⟩ =
      .ok (.value (.bool (Comparison.one.holds a 0.0))) := by
    simp only [Frame.request, hx]
    rfl
  refine Passes.trans (.value hrequest) (.goTo ?_ hc (enter_of_no_phis _ _ hphis))
  simp only [runTerm, readBool_set]
  rfl

/--
At the end of a branch the machine goes on in the block of the join, whose phi takes the
value of the branch.
-/
theorem passes_join
    {frame : Frame}
    {a : Float}
    {w : Site}
    {o : Operand}
    {b : Block}
    {rest : List Instr}
    (hend : w = u ∧ o = y ∨ w = v ∧ o = z)
    (hhere : w.Here f b rest)
    (ho : frame.readDouble o = .ok a) :
    ∃ c after, (t.join u v y z).Here f c after ∧
      Passes call f frame (.inside b rest) [] (frame.set v.next (.double a))
        (.inside c after) := by
  obtain ⟨hb, ⟨d, hd, hrest⟩, -⟩ := hhere
  have hclosed : f.block? w.block = some { d with term := some (.jump (t.fresh 2)) } := by
    rcases hend with ⟨rfl, -⟩ | ⟨rfl, -⟩
    · exact hdone.closed _ _ (h.block?_join_thenEnd y z hd) rfl
    · exact hdone.closed _ _ (h.block?_join_elseEnd y z hd) rfl
  have hid : d.id = w.block := (Function.mem_of_block?_eq_some hd).2
  rw [hb] at hclosed
  cases hclosed
  obtain rfl : rest = [] := by simpa using hrest
  obtain ⟨c, after, hthere⟩ := hdone.cursor
  obtain ⟨hc, ⟨e, he, hafter⟩, hplain⟩ := id hthere
  obtain ⟨label, hmerge⟩ := h.block?_join_merge y z
  change (t.join u v y z).func.block? (t.fresh 2) = some e at he
  rw [hmerge] at he
  cases he
  obtain ⟨hphis, hbody⟩ := Block.phis_and_body hafter (by simp [InstrKind.isPhi]) hplain
  have hread : readPhi frame (some d.id) v.next [(y, u.block), (z, v.block)] =
      .ok (.double a) := by
    obtain ⟨-, -, -, huv, -, -⟩ := h.distinct
    rcases hend with ⟨rfl, rfl⟩ | ⟨rfl, rfl⟩
    · simp [readPhi, hid, read_of_readDouble ho]
    · have hne : (u.block == w.block) = false := by simpa using huv
      simp [readPhi, hid, hne, read_of_readDouble ho]
  refine ⟨c, after, hthere, ?_⟩
  have hgo : Passes call f frame (.inside { d with term := some (.jump (t.fresh 2)) } []) []
      (frame.set v.next (.double a)) (.inside c c.body) :=
    .goTo rfl hc (enter_of_one_phi hphis hread)
  rwa [hbody] at hgo

/-- A branch of a conditional runs from the fork to the join. -/
theorem Simulates.branch
    {frame : Frame}
    {a : Float}
    {start end_ : Site}
    {o : Operand}
    {label : String}
    {eval : Evaluation Float}
    (hx : frame.readDouble x = .ok a)
    (hstart : start.block = if Comparison.one.holds a 0.0 then t.fresh 0 else t.fresh 1)
    (hempty : start.func.block? start.block = some (.empty start.block label))
    (hopen : start.Completes f)
    (hend : end_ = u ∧ o = y ∨ end_ = v ∧ o = z)
    (hfork : t.func.nextValue < start.func.nextValue)
    (hle : t.func.nextValue ≤ v.func.nextValue)
    (hbound : v.func.nextValue < UInt32.size)
    (h' : ∀ later, frame.Keeps t.func.nextValue later →
      Simulates call f start end_ later eval fun latest w => latest.readDouble o = .ok w) :
    Simulates call f t (t.join u v y z) frame eval fun latest w =>
      latest.readDouble (.result v.next) = .ok w := by
  intro b rest hhere
  obtain ⟨c, after, hc, ⟨d, hd, hafter⟩, hplain⟩ := hopen.cursor
  rw [hempty] at hd
  cases hd
  obtain ⟨hphis, hbody⟩ := Block.phis_and_body hafter (by simp [Block.empty]) hplain
  have hin : Passes call f frame (.inside b rest) []
      (frame.set t.next (.bool (Comparison.one.holds a 0.0)))
      (.inside c c.body) :=
    passes_fork h hdone hhere hx (hstart ▸ hc) hphis
  have hkeep :
      frame.Keeps t.func.nextValue
        (frame.set t.next (.bool (Comparison.one.holds a 0.0))) :=
    .set (by omega) frame _
  have hrun := h' _ hkeep c c.body ⟨hc, ⟨_, hempty, by rw [hbody, hafter]⟩, by rwa [hbody]⟩
  cases hresult : eval.result with
  | error e =>
      simp only [hresult] at hrun ⊢
      simpa using hin.fails hrun
  | ok w =>
      simp only [hresult] at hrun ⊢
      obtain ⟨later, c', after', hthere, hkeep', hread, hpasses⟩ := hrun
      obtain ⟨m, remaining, hjoin, hout⟩ := passes_join h hdone hend hthere hread
      refine ⟨_, m, remaining, hjoin, ?_, readDouble_set later _ w, ?_⟩
      · exact (hkeep.trans (by omega) hkeep').trans hle (.set hbound later _)
      · simpa using (hin.trans hpasses).trans hout

end Conditional

end Machine

/-! ## Emission -/

namespace Emits

variable {m : Module} {scope : Scope} {es : List Expr} {s t : Site} {os : List Operand}

/-- Operands are parameters, or they were there before. -/
theorem older
    (h : Emits m scope es s os t)
    (hbound : t.func.nextValue ≤ UInt32.size)
    (hscope : ∀ name o, scope.find? name = some o → ∀ v, o ≠ .result v) :
    ∀ o ∈ os, Machine.Older t.func.nextValue o := by
  induction h with
  | nil => simp
  | cons hhead htail ihhead ihtail =>
      intro o ho v hv
      rcases List.mem_cons.1 ho with rfl | ho
      · have hlt :=
          ihhead (Nat.le_trans htail.nextValue_le hbound) o List.mem_cons_self v hv
        exact Nat.lt_of_lt_of_le hlt htail.nextValue_le
      · exact ihtail hbound o ho v hv
  | number =>
      intro o ho v hv
      cases List.mem_singleton.1 ho
      cases hv
  | var hname =>
      intro o ho v hv
      cases List.mem_singleton.1 ho
      exact absurd hv (hscope _ _ hname v)
  | _ =>
      intro o ho v hv
      cases List.mem_singleton.1 ho
      cases hv
      exact Nat.lt_succ_of_le (Nat.le_of_eq (Site.number_next _ hbound))

end Emits

/-! ## The simulation -/

namespace Machine

section Simulation

variable {m : Module} {scope : Scope}
  {call : FuncId → List Float → Ending → Prop} {f : Function}
variable {evalCall : String → List Float → Evaluation Float} {env : List (String × Float)}
  {args : List Float}

theorem readDoubles_singleton_iff
    {frame : Frame}
    {o : Operand}
    {x : Float} :
    frame.readDoubles [o] = .ok [x] ↔ frame.readDouble o = .ok x := by
  constructor
  · intro h
    obtain ⟨y, ys, hread, -, hxs⟩ := Frame.readDoubles_cons_eq_ok h
    cases hxs
    exact hread
  · exact fun h => Frame.readDoubles_cons h rfl

theorem length_of_readDoubles
    {frame : Frame}
    {os : List Operand}
    {xs : List Float}
    (h : frame.readDoubles os = .ok xs) :
    xs.length = os.length := by
  induction os generalizing xs with
  | nil =>
      cases h
      rfl
  | cons o os ih =>
      obtain ⟨y, ys, -, hreads, rfl⟩ := Frame.readDoubles_cons_eq_ok h
      simp [ih hreads]

theorem operator?_of_ofChar?
    {op : Char}
    {a : Arith}
    (h : Arith.ofChar? op = some a)
    (x y : Float) :
    operator? op x y = some (a.apply x y) := by
  unfold Arith.ofChar? at h
  unfold operator?
  by_cases hadd : op = '+'
  · rw [if_pos hadd] at h ⊢
    cases h
    rfl
  · rw [if_neg hadd] at h ⊢
    by_cases hsub : op = '-'
    · rw [if_pos hsub] at h ⊢
      cases h
      rfl
    · rw [if_neg hsub] at h ⊢
      by_cases hmul : op = '*'
      · rw [if_pos hmul] at h ⊢
        cases h
        rfl
      · rw [if_neg hmul] at h
        cases h

theorem operator?_less
    (x y : Float) :
    operator? '<' x y = some (if Comparison.ult.holds x y then 1.0 else 0.0) :=
  rfl

theorem one_holds_zero
    (x : Float) :
    Comparison.one.holds x 0.0 = (!x.isNaN && x != 0.0) := by
  have hzero : Float.isNaN 0.0 = false := by decide
  simp only [Comparison.holds, hzero, Bool.or_false]

/-- Comparing two numbers and promoting the result gives one or zero. -/
theorem Simulates.less
    {u : Site}
    {x y : Operand}
    {frame : Frame}
    {b c : Float}
    (hu : u.Open)
    (hdone : ((u.push (.compare .ult x y)).push (.promote (.result u.next))).Completes f)
    (hvalues : u.func.nextValue + 1 + 1 ≤ UInt32.size)
    (hb : frame.readDouble x = .ok b)
    (hc : frame.readDouble y = .ok c) :
    Simulates call f u ((u.push (.compare .ult x y)).push (.promote (.result u.next))) frame
      (Pure.pure (if Comparison.ult.holds b c then 1.0 else 0.0))
      fun latest w =>
        latest.readDouble (.result (u.push (.compare .ult x y)).next) = .ok w := by
  have hcompared := hdone.of_extends (hu.push _) (.push (hu.push _) rfl)
  have hcompare : Simulates call f u (u.push (.compare .ult x y)) frame (Pure.pure ())
      fun later _ => later.readBool (.result u.next) = .ok (Comparison.ult.holds b c) := by
    refine .push rfl hcompared (by omega) ?_ (readBool_set frame u.next _)
    simp only [Frame.request, hb, hc]
    rfl
  change Simulates call f u _ frame
    (Pure.pure () >>= fun _ => Pure.pure (if Comparison.ult.holds b c then 1.0 else 0.0)) _
  refine Simulates.bind (Nat.le_succ _) hcompare fun later _ _ hbool => ?_
  refine .push rfl hdone (by rw [Site.nextValue_push]; omega) ?_ (readDouble_set later _ _)
  simp only [Frame.request, hbool]
  rfl

/--
With the arguments of a call, what was emitted for expressions from `s` to `t`
runs as they evaluate.
-/
def Faithful (call : FuncId → List Float → Ending → Prop) (f : Function)
    (evalCall : String → List Float → Evaluation Float) (env : List (String × Float))
    (args : List Float)
    (es : List Expr) (s : Site) (os : List Operand) (t : Site) : Prop :=
  s.Open → t.func.nextBlock ≤ UInt32.size → t.func.nextValue ≤ UInt32.size → t.Completes f →
    ∀ frame : Frame, frame.args = args →
      Simulates call f s t frame (Expr.evalAll evalCall env es) fun later xs =>
        later.readDoubles os = .ok xs

namespace Faithful

theorem expr
    {e : Expr}
    {s t : Site}
    {o : Operand}
    (h : Faithful call f evalCall env args [e] s [o] t)
    (hopen : s.Open)
    (hblocks : t.func.nextBlock ≤ UInt32.size)
    (hvalues : t.func.nextValue ≤ UInt32.size)
    (hdone : t.Completes f)
    {frame : Frame}
    (hargs : frame.args = args) :
    Simulates call f s t frame (e.eval evalCall env) fun later x =>
      later.readDouble o = .ok x :=
  (Simulates.singleton_iff.1 (h hopen hblocks hvalues hdone frame hargs)).mono
    fun _ _ => readDoubles_singleton_iff.1

/-- An expression is evaluated before something that leaves its operand alone. -/
theorem followed
    {e : Expr}
    {s t u w : Site}
    {o : Operand}
    {α β : Type}
    {second : Evaluation α}
    {next : Float → α → Evaluation β}
    {between : Frame → α → Prop}
    {holds : Frame → β → Prop}
    (h : Faithful call f evalCall env args [e] s [o] t)
    (hfirst : Emits m scope [e] s [o] t)
    (hscope : ∀ name o, scope.find? name = some o → ∀ v, o ≠ .result v)
    (hopen : s.Open)
    (hblocks : t.func.nextBlock ≤ UInt32.size)
    (hvalues : t.func.nextValue ≤ UInt32.size)
    (hdone : t.Completes f)
    (hle : t.func.nextValue ≤ u.func.nextValue)
    {frame : Frame}
    (hargs : frame.args = args)
    (hsecond : ∀ later : Frame, later.args = args →
      Simulates call f t u later second between)
    (hnext : ∀ later x a, later.readDouble o = .ok x → between later a →
      Simulates call f u w later (next x a) holds) :
    Simulates call f s w frame (do
      let x ← e.eval evalCall env
      let a ← second
      next x a) holds := by
  have hone := h.expr hopen hblocks hvalues hdone hargs
  refine Simulates.bind hfirst.nextValue_le hone fun later x hkeeps hread => ?_
  refine Simulates.bind hle (hsecond later (hkeeps.args.trans hargs))
    fun latest a hkeeps' hbetween => ?_
  have hold := hfirst.older hvalues hscope o List.mem_cons_self
  exact hnext latest x a ((hkeeps'.readDouble hold).trans hread) hbetween

/-- Both operands of an operator are evaluated before it. -/
theorem operands
    {lhs rhs : Expr}
    {s t u w : Site}
    {x y : Operand}
    {β : Type}
    {next : Float → Float → Evaluation β}
    {holds : Frame → β → Prop}
    (hlhs : Emits m scope [lhs] s [x] t)
    (hrhs : Emits m scope [rhs] t [y] u)
    (ihlhs : Faithful call f evalCall env args [lhs] s [x] t)
    (ihrhs : Faithful call f evalCall env args [rhs] t [y] u)
    (hscope : ∀ name o, scope.find? name = some o → ∀ v, o ≠ .result v)
    (hopen : s.Open)
    (hblocks : u.func.nextBlock ≤ UInt32.size)
    (hvalues : u.func.nextValue ≤ UInt32.size)
    (hdone : u.Completes f)
    {frame : Frame}
    (hargs : frame.args = args)
    (hnext : ∀ later a b, later.readDouble x = .ok a → later.readDouble y = .ok b →
      Simulates call f u w later (next a b) holds) :
    Simulates call f s w frame (do
      let a ← lhs.eval evalCall env
      let b ← rhs.eval evalCall env
      next a b) holds := by
  have hblocks' := Nat.le_trans hrhs.nextBlock_le hblocks
  have hvalues' := Nat.le_trans hrhs.nextValue_le hvalues
  obtain ⟨ht, -⟩ := hlhs.open_extends hopen hblocks'
  obtain ⟨-, hext⟩ := hrhs.open_extends ht hblocks
  exact ihlhs.followed hlhs hscope hopen hblocks' hvalues' (hdone.of_extends ht hext)
    hrhs.nextValue_le hargs
    (fun later hargs' => ihrhs.expr ht hblocks hvalues hdone hargs') hnext

theorem cons
    {e : Expr}
    {rest : List Expr}
    {s t u : Site}
    {x : Operand}
    {xs : List Operand}
    (hhead : Emits m scope [e] s [x] t)
    (htail : Emits m scope rest t xs u)
    (ihhead : Faithful call f evalCall env args [e] s [x] t)
    (ihtail : Faithful call f evalCall env args rest t xs u)
    (hscope : ∀ name o, scope.find? name = some o → ∀ v, o ≠ .result v) :
    Faithful call f evalCall env args (e :: rest) s (x :: xs) u := by
  intro hopen hblocks hvalues hdone frame hargs
  have hblocks' := Nat.le_trans htail.nextBlock_le hblocks
  have hvalues' := Nat.le_trans htail.nextValue_le hvalues
  obtain ⟨ht, -⟩ := hhead.open_extends hopen hblocks'
  obtain ⟨-, hext⟩ := htail.open_extends ht hblocks
  refine ihhead.followed hhead hscope hopen hblocks' hvalues' (hdone.of_extends ht hext)
    htail.nextValue_le hargs
    (ihtail ht hblocks hvalues hdone) fun later y ys hread hreads => ?_
  exact .pure (Frame.readDoubles_cons hread hreads)

theorem arith
    {op : Char}
    {a : Arith}
    {lhs rhs : Expr}
    {s t u : Site}
    {x y : Operand}
    (hop : Arith.ofChar? op = some a)
    (hlhs : Emits m scope [lhs] s [x] t)
    (hrhs : Emits m scope [rhs] t [y] u)
    (ihlhs : Faithful call f evalCall env args [lhs] s [x] t)
    (ihrhs : Faithful call f evalCall env args [rhs] t [y] u)
    (hscope : ∀ name o, scope.find? name = some o → ∀ v, o ≠ .result v) :
    Faithful call f evalCall env args [.binary op lhs rhs] s [.result u.next]
      (u.push (.arith a x y)) := by
  intro hopen hblocks hvalues hdone frame hargs
  rw [Site.nextValue_push] at hvalues
  have hu :=
    (hrhs.open_extends (hlhs.open_extends hopen (Nat.le_trans hrhs.nextBlock_le hblocks)).1
      hblocks).1
  refine Simulates.singleton_iff.2 ?_
  simp only [Expr.eval]
  refine operands hlhs hrhs ihlhs ihrhs hscope hopen hblocks (Nat.le_of_succ_le hvalues)
    (hdone.of_extends hu (.push hu rfl)) hargs fun later b c hb hc => ?_
  simp only [operator?_of_ofChar? hop]
  refine .push rfl hdone hvalues ?_
    (readDoubles_singleton_iff.2 (readDouble_set later u.next (a.apply b c)))
  simp only [Frame.request, hb, hc]
  rfl

theorem less
    {lhs rhs : Expr}
    {s t u : Site}
    {x y : Operand}
    (hlhs : Emits m scope [lhs] s [x] t)
    (hrhs : Emits m scope [rhs] t [y] u)
    (ihlhs : Faithful call f evalCall env args [lhs] s [x] t)
    (ihrhs : Faithful call f evalCall env args [rhs] t [y] u)
    (hscope : ∀ name o, scope.find? name = some o → ∀ v, o ≠ .result v) :
    Faithful call f evalCall env args [.binary '<' lhs rhs] s
      [.result (u.push (.compare .ult x y)).next]
      ((u.push (.compare .ult x y)).push (.promote (.result u.next))) := by
  intro hopen hblocks hvalues hdone frame hargs
  rw [Site.nextValue_push, Site.nextValue_push] at hvalues
  have hu :=
    (hrhs.open_extends (hlhs.open_extends hopen (Nat.le_trans hrhs.nextBlock_le hblocks)).1
      hblocks).1
  have hcompared := hdone.of_extends (hu.push _) (.push (hu.push _) rfl)
  refine Simulates.singleton_iff.2 ?_
  simp only [Expr.eval]
  refine operands hlhs hrhs ihlhs ihrhs hscope hopen hblocks (by omega)
    (hcompared.of_extends hu (.push hu rfl)) hargs fun later b c hb hc => ?_
  simp only [operator?_less]
  refine (Simulates.less hu hdone hvalues hb hc).mono fun _ _ => readDoubles_singleton_iff.2

theorem invocation
    {name : String}
    {id : FuncId}
    {g : Function}
    {es : List Expr}
    {s t : Site}
    {xs : List Operand}
    (hcall : ∀ as : List Float, g.arity = as.length →
      ∃ steps, call id as ⟨steps, (evalCall name as).calls, (evalCall name as).result⟩)
    (harity : g.arity = es.length)
    (hes : Emits m scope es s xs t)
    (ihes : Faithful call f evalCall env args es s xs t) :
    Faithful call f evalCall env args [.call name es] s [.result t.next]
      (t.push (.call id g.name xs)) := by
  intro hopen hblocks hvalues hdone frame hargs
  rw [Site.nextValue_push] at hvalues
  have ht := (hes.open_extends hopen hblocks).1
  have hall :=
    ihes hopen hblocks (by omega) (hdone.of_extends ht (.push ht rfl)) frame hargs
  refine Simulates.singleton_iff.2
    (Simulates.bind hes.nextValue_le hall fun later as hkeeps hreads => ?_)
  have hlength : g.arity = as.length := by
    rw [length_of_readDoubles hreads, hes.length_eq, harity]
  refine .pushCall rfl hdone hvalues ?_ (hcall as hlength)
    fun y => readDoubles_singleton_iff.2 (readDouble_set later t.next y)
  simp only [Frame.request, hreads]
  rfl

section Branches

variable
  {e : Expr}
  {t u v : Site}
  {x y z : Operand}
  {frame : Frame}
  {a : Float}
  (hdiamond : Site.Diamond t x u v)
  (hdone : (t.join u v y z).Completes f)
  (hthenValues : t.func.nextValue < u.func.nextValue)
  (helseValues : u.func.nextValue ≤ v.func.nextValue)
  (hvalues : v.func.nextValue < UInt32.size)
  (hargs : frame.args = args)
  (hread : frame.readDouble x = .ok a)

include hdiamond hdone hthenValues helseValues hvalues hargs hread

/-- The branch of a test that is not zero runs from the fork to the join. -/
theorem thenBranch
    (h : Faithful call f evalCall env args [e] (t.fork x) [y] u)
    (hone : Comparison.one.holds a 0.0 = true) :
    Simulates call f t (t.join u v y z) frame (e.eval evalCall env)
      fun latest w => latest.readDouble (.result v.next) = .ok w := by
  have hopen := hdiamond.start.fork hdiamond.bound_start x
  have hend := hdiamond.completes_thenEnd hdone
  obtain ⟨label, hempty⟩ :=
    Site.block?_fork_fresh hdiamond.start hdiamond.bound_start x (show 0 < 3 by omega)
  refine Simulates.branch hdiamond hdone hread (by rw [if_pos hone]; rfl) hempty
    (hend.of_extends hopen hdiamond.thenExtends) (.inl ⟨rfl, rfl⟩) (Nat.lt_succ_self _)
    (by omega) hvalues ?_
  intro later hkeeps
  exact h.expr hopen (Nat.le_trans hdiamond.elseLe hdiamond.bound) (by omega) hend
    (hkeeps.args.trans hargs)

/-- The branch of a test that is zero runs from the fork to the join. -/
theorem elseBranch
    (h : Faithful call f evalCall env args [e] (u.moveTo (t.fresh 1)) [z] v)
    (hone : ¬ Comparison.one.holds a 0.0 = true) :
    Simulates call f t (t.join u v y z) frame (e.eval evalCall env)
      fun latest w => latest.readDouble (.result v.next) = .ok w := by
  obtain ⟨label, hempty⟩ := hdiamond.block?_fresh (show 1 < 3 by omega) (by omega)
  have hopen : (u.moveTo (t.fresh 1)).Open := hdiamond.thenOpen.moveTo hempty rfl
  have hend := hdiamond.completes_elseEnd hdone
  refine Simulates.branch hdiamond hdone hread (by rw [if_neg hone]; rfl) hempty
    (hend.of_extends hopen hdiamond.elseExtends) (.inr ⟨rfl, rfl⟩) hthenValues
    (by omega) hvalues ?_
  intro later hkeeps
  exact h.expr hopen hdiamond.bound (by omega) hend (hkeeps.args.trans hargs)

end Branches

theorem cond
    {test thenBranch elseBranch : Expr}
    {s t u v : Site}
    {x y z : Operand}
    (htest : Emits m scope [test] s [x] t)
    (hthen : Emits m scope [thenBranch] (t.fork x) [y] u)
    (helse : Emits m scope [elseBranch] (u.moveTo (t.fresh 1)) [z] v)
    (ihtest : Faithful call f evalCall env args [test] s [x] t)
    (ihthen : Faithful call f evalCall env args [thenBranch] (t.fork x) [y] u)
    (ihelse : Faithful call f evalCall env args [elseBranch] (u.moveTo (t.fresh 1)) [z] v) :
    Faithful call f evalCall env args [.cond test thenBranch elseBranch] s [.result v.next]
      (t.join u v y z) := by
  intro hopen hblocks hvalues hdone frame hargs
  rw [Site.nextBlock_join] at hblocks
  rw [Site.nextValue_join] at hvalues
  have hthenLe : t.func.nextBlock + 3 ≤ u.func.nextBlock := hthen.nextBlock_le
  have helseLe : u.func.nextBlock ≤ v.func.nextBlock := helse.nextBlock_le
  have hthenValues : t.func.nextValue < u.func.nextValue := hthen.nextValue_le
  have helseValues : u.func.nextValue ≤ v.func.nextValue := helse.nextValue_le
  obtain ⟨ht, -⟩ := htest.open_extends hopen (by omega)
  have hdiamond := hthen.diamond helse ht hblocks
  have htestRuns :=
    ihtest.expr hopen (by omega) (by omega)
      (hdone.of_extends ht (hdiamond.extends_join y z)) hargs
  refine Simulates.singleton_iff.2 ?_
  simp only [Expr.eval]
  refine Simulates.bind htest.nextValue_le htestRuns fun later a hkeeps hread => ?_
  have hargs' := hkeeps.args.trans hargs
  rw [← one_holds_zero]
  refine Simulates.mono ?_ fun _ _ => readDoubles_singleton_iff.2
  by_cases hone : Comparison.one.holds a 0.0 = true
  · rw [if_pos hone]
    exact ihthen.thenBranch hdiamond hdone hthenValues helseValues hvalues hargs' hread hone
  · rw [if_neg hone]
    exact ihelse.elseBranch hdiamond hdone hthenValues helseValues hvalues hargs' hread hone

end Faithful

/-- What was emitted for expressions runs as the expressions evaluate. -/
theorem faithful_of_emits
    {es : List Expr}
    {s t : Site}
    {os : List Operand}
    (hscope : ∀ name o, scope.find? name = some o →
      ∃ position x, o = .arg position ∧ args[position]? = some x ∧ env.lookup name = some x)
    (hcall : ∀ name id g xs, m.find? name = some id → m.function? id = some g →
      g.arity = xs.length →
      ∃ steps, call id xs ⟨steps, (evalCall name xs).calls, (evalCall name xs).result⟩)
    (h : Emits m scope es s os t) :
    Faithful call f evalCall env args es s os t := by
  have hresults : ∀ name o, scope.find? name = some o → ∀ v, o ≠ .result v := by
    intro name o ho v hv
    obtain ⟨position, x, rfl, -⟩ := hscope name o ho
    cases hv
  induction h with
  | nil => exact fun _ _ _ _ _ _ => .pure rfl
  | cons hhead htail ihhead ihtail => exact .cons hhead htail ihhead ihtail hresults
  | number => exact fun _ _ _ _ _ _ => .pure rfl
  | @var name o s hname =>
      intro _ _ _ _ frame hargs
      obtain ⟨position, x, rfl, hx, henv⟩ := hscope name o hname
      refine Simulates.singleton_iff.2 ?_
      simp only [Expr.eval, henv]
      refine .pure (readDoubles_singleton_iff.2 (Frame.readDouble_of_read ?_))
      simp only [Frame.read, hargs, hx]
  | arith hop hlhs hrhs ihlhs ihrhs => exact .arith hop hlhs hrhs ihlhs ihrhs hresults
  | less hlhs hrhs ihlhs ihrhs => exact .less hlhs hrhs ihlhs ihrhs hresults
  | @call name id g es s t xs hname hcallee harity hes ihes =>
      exact .invocation (fun as => hcall name id g as hname hcallee) harity hes ihes
  | cond htest hthen helse ihtest ihthen ihelse =>
      exact .cond htest hthen helse ihtest ihthen ihelse

end Simulation

end Machine

end ScalarSsa
