import ScalarSsa.Proofs.Machine.Frames
import ScalarSsa.Proofs.Verify.WellFormed

/-!
# Verified functions do not go wrong

**Input.** A well-formed function whose entry has no phi, and its run.

**Definitions.** The run follows a trail.  `Arriving` and `Within` say what holds before a
block and inside it: every value that a block on the trail defines is in the frame with its
type, and so are the values of the instructions that the current block has run.

**Results.** `Arriving.exists_enter`, `Within.request` and `Within.runTerm` say that such a
run can go on, and the lemmas beside them that the next point is of the same kind.
`Runs.sound_induction` packs them into one induction, in which only calls can fail.
`call_ends_well` draws the conclusion for modules.
-/

namespace ScalarSsa
namespace Machine

variable {f : Function}

/-- The entry of a function has no phi. -/
def EntryPlain (f : Function) : Prop :=
  ∀ b, f.blocks.head? = some b → ∀ i ∈ b.instrs, i.kind.isPhi = false

/-- A value is in the frame, with the type of its instruction. -/
def Holds (f : Function) (frame : Frame) (v : ValueId) : Prop :=
  ∃ d, frame.get? v = some d ∧ f.HasType (.result v) d.type

/-- The values of all blocks on a way are in the frame. -/
def Covers (f : Function) (frame : Frame) (path : List BlockId) : Prop :=
  ∀ b ∈ f.blocks, b.id ∈ path → ∀ v ∈ b.results, Holds f frame v

/-- A run that has gone through `path` is about to enter a block. -/
structure Arriving (f : Function) (path : List BlockId) (frame : Frame)
    (prev : Option BlockId) (id : BlockId) :
    Prop where
  args : frame.args.length = f.arity
  prev_eq : prev = path.head?
  trail : f.Trail (id :: path)
  covers : Covers f frame path

/--
A run that has gone through `path` has run the instructions `pre` of a block and
goes on with `rest`.
-/
structure Within (f : Function) (path : List BlockId) (frame : Frame) (b : Block)
    (pre rest : List Instr) : Prop where
  args : frame.args.length = f.arity
  mem : b ∈ f.blocks
  trail : f.Trail (b.id :: path)
  covers : Covers f frame path
  split : b.instrs = pre ++ rest
  plain : ∀ i ∈ rest, i.kind.isPhi = false
  holds : ∀ i ∈ pre, Holds f frame i.dest

/-- A run is at a point after the blocks of `path`. -/
def Sound (f : Function) (path : List BlockId) (frame : Frame) : Point → Prop
  | .before prev id => Arriving f path frame prev id
  | .inside b rest => ∃ pre, Within f path frame b pre rest

/-! ## Values and types -/

theorem hasType_unique
    (hresults : f.results.Nodup)
    {o : Operand}
    {type type' : ValueType}
    (h : f.HasType o type)
    (h' : f.HasType o type') :
    type = type' := by
  rw [← Function.typeOf?_eq_some_iff hresults] at h h'
  exact Option.some.inj (h.symm.trans h')

/-- A typed operand whose value is in the frame can be read. -/
theorem read_typed
    (hresults : f.results.Nodup)
    {frame : Frame}
    (hargs : frame.args.length = f.arity)
    {o : Operand}
    {type : ValueType}
    (htype : f.HasType o type)
    (hholds : ∀ v, o = .result v → Holds f frame v) :
    ∃ d, frame.read o = .ok d ∧ d.type = type := by
  cases o with
  | const x => exact ⟨.double x, rfl, htype.symm⟩
  | bool b => exact ⟨.bool b, rfl, htype.symm⟩
  | arg position =>
      obtain ⟨hlt, rfl⟩ := htype
      rw [← hargs] at hlt
      exact ⟨.double frame.args[position], by simp [Frame.read, hlt], rfl⟩
  | result v =>
      obtain ⟨d, hget, hd⟩ := hholds v rfl
      exact ⟨d, by rw [Frame.read_result, hget], hasType_unique hresults hd htype⟩

theorem readDouble_typed
    (hresults : f.results.Nodup)
    {frame : Frame}
    (hargs : frame.args.length = f.arity)
    {o : Operand}
    (htype : f.HasType o .double)
    (hholds : ∀ v, o = .result v → Holds f frame v) :
    ∃ x, frame.readDouble o = .ok x := by
  obtain ⟨d, hread, hd⟩ := read_typed hresults hargs htype hholds
  cases d with
  | double x => exact ⟨x, Frame.readDouble_of_read hread⟩
  | bool b => cases hd

theorem readBool_typed
    (hresults : f.results.Nodup)
    {frame : Frame}
    (hargs : frame.args.length = f.arity)
    {o : Operand}
    (htype : f.HasType o .bool)
    (hholds : ∀ v, o = .result v → Holds f frame v) :
    ∃ b, frame.readBool o = .ok b := by
  obtain ⟨d, hread, hd⟩ := read_typed hresults hargs htype hholds
  cases d with
  | double x => cases hd
  | bool b => exact ⟨b, Frame.readBool_of_read hread⟩

theorem readDoubles_typed
    (hresults : f.results.Nodup)
    {frame : Frame}
    (hargs : frame.args.length = f.arity)
    {os : List Operand}
    (htype : ∀ o ∈ os, f.HasType o .double)
    (hholds : ∀ v, .result v ∈ os → Holds f frame v) :
    ∃ xs, frame.readDoubles os = .ok xs ∧ xs.length = os.length := by
  induction os with
  | nil => exact ⟨[], rfl, rfl⟩
  | cons o os ih =>
      obtain ⟨x, hx⟩ := readDouble_typed hresults hargs (htype o List.mem_cons_self)
        fun v hv => hholds v (hv ▸ List.mem_cons_self)
      obtain ⟨xs, hxs, hlen⟩ := ih (fun o ho => htype o (List.mem_cons_of_mem _ ho))
        fun v hv => hholds v (List.mem_cons_of_mem _ hv)
      exact ⟨x :: xs, Frame.readDoubles_cons hx hxs, by simp [hlen]⟩

theorem Holds.set
    {frame : Frame}
    {i : Instr}
    (hi : i ∈ f.instrs)
    {d : Datum}
    (hd : d.type = i.kind.type)
    {v : ValueId}
    (h : v = i.dest ∨ Holds f frame v) :
    Holds f (frame.set i.dest d) v := by
  by_cases hv : v = i.dest
  · exact ⟨d, by simp [hv], i, hi, hv.symm, hd.symm⟩
  · obtain ⟨d', hget, hd'⟩ := h.resolve_left hv
    exact ⟨d', by simp [hv, hget], hd'⟩

/-! ## Inside a block -/

namespace Within

variable {path : List BlockId} {frame : Frame} {b : Block}
  {pre rest : List Instr} {i : Instr}

theorem instr_mem
    (h : Within f path frame b pre (i :: rest)) :
    i ∈ b.instrs := by
  simp [h.split]

/-- What an instruction uses is in the frame. -/
theorem operand_holds
    (hwf : f.WellFormed)
    (h : Within f path frame b pre (i :: rest))
    {v : ValueId}
    (hv : .result v ∈ i.kind.operands) :
    Holds f frame v := by
  rcases hwf.uses b h.mem ⟨path, h.trail⟩ pre i rest h.split
    (h.plain i List.mem_cons_self) v hv with
    hpre | ⟨d, hd, hne, hmem, hdom⟩
  · obtain ⟨j, hj, rfl⟩ := List.mem_map.mp hpre
    exact h.holds j hj
  · exact h.covers d hd ((List.mem_cons.mp (hdom path h.trail)).resolve_left hne) v hmem

/--
An instruction has a value of its type, or asks for a call with as many
arguments as it names.
-/
theorem request
    (hwf : f.WellFormed)
    (h : Within f path frame b pre (i :: rest)) :
    (∃ d, frame.request i = .ok (.value d) ∧ d.type = i.kind.type) ∨
      ∃ callee name args values, i.kind = .call callee name args ∧
        frame.request i = .ok (.call callee values) ∧ values.length = args.length := by
  have htyped := hwf.typed b h.mem i h.instr_mem
  have hholds : ∀ v, .result v ∈ i.kind.operands → Holds f frame v :=
    fun v hv => h.operand_holds hwf hv
  have hdouble : ∀ o, (o, .double) ∈ i.kind.uses → ∃ x, frame.readDouble o = .ok x := by
    intro o hu
    refine readDouble_typed hwf.results_nodup h.args (htyped _ hu) ?_
    rintro v rfl
    exact hholds v (InstrKind.mem_operands_of_mem_uses hu)
  have hbool : ∀ o, (o, .bool) ∈ i.kind.uses → ∃ c, frame.readBool o = .ok c := by
    intro o hu
    refine readBool_typed hwf.results_nodup h.args (htyped _ hu) ?_
    rintro v rfl
    exact hholds v (InstrKind.mem_operands_of_mem_uses hu)
  unfold Frame.request
  cases hkind : i.kind with
  | arith op lhs rhs =>
      obtain ⟨x, hx⟩ := hdouble lhs (by simp [hkind, InstrKind.uses])
      obtain ⟨y, hy⟩ := hdouble rhs (by simp [hkind, InstrKind.uses])
      exact .inl ⟨.double (op.apply x y), by simp only [hx, hy]; rfl, rfl⟩
  | compare pred lhs rhs =>
      obtain ⟨x, hx⟩ := hdouble lhs (by simp [hkind, InstrKind.uses])
      obtain ⟨y, hy⟩ := hdouble rhs (by simp [hkind, InstrKind.uses])
      exact .inl ⟨.bool (pred.holds x y), by simp only [hx, hy]; rfl, rfl⟩
  | promote src =>
      obtain ⟨c, hc⟩ := hbool src (by simp [hkind, InstrKind.uses])
      exact .inl ⟨.double (if c then 1.0 else 0.0), by simp only [hc]; rfl, rfl⟩
  | call callee name args =>
      rw [hkind] at htyped hholds
      obtain ⟨xs, hxs, hlen⟩ := readDoubles_typed hwf.results_nodup h.args
        (fun o ho => htyped (o, .double) (List.mem_map_of_mem ho)) hholds
      exact .inr ⟨callee, name, args, xs, rfl, by simp only [hxs]; rfl, hlen⟩
  | phi type incoming =>
      have hplain := h.plain i List.mem_cons_self
      rw [hkind] at hplain
      cases hplain

/-- The next instruction after one whose value is of its type. -/
theorem step
    (h : Within f path frame b pre (i :: rest))
    {d : Datum}
    (hd : d.type = i.kind.type) :
    Within f path (frame.set i.dest d) b (pre ++ [i]) rest := by
  have hi : i ∈ f.instrs := Function.mem_instrs_iff.mpr ⟨b, h.mem, h.instr_mem⟩
  refine ⟨h.args, h.mem, h.trail,
    ?_, by simp [h.split], fun j hj => h.plain j (List.mem_cons_of_mem _ hj), ?_⟩
  · intro c hc hid v hv
    exact .set hi hd (.inr (h.covers c hc hid v hv))
  · intro j hj
    rcases List.mem_append.mp hj with hj | hj
    · exact .set hi hd (.inr (h.holds j hj))
    · rw [List.mem_singleton.mp hj]
      exact .set hi hd (.inl rfl)

/-- When a block ends, its own values are in the frame too. -/
theorem covers_end
    (hwf : f.WellFormed)
    (h : Within f path frame b pre []) :
    Covers f frame (b.id :: path) := by
  intro c hc hid v hv
  by_cases hcb : c.id = b.id
  · obtain rfl := Function.block_eq_of_id_eq hwf.ids_nodup hc h.mem hcb
    obtain ⟨i, hi, rfl⟩ := List.mem_map.mp hv
    rw [h.split, List.append_nil] at hi
    exact h.holds i hi
  · exact h.covers c hc ((List.mem_cons.mp hid).resolve_left hcb) v hv

/-- The end of a block gives a value or goes on to a successor. -/
theorem runTerm
    (hwf : f.WellFormed)
    (h : Within f path frame b pre []) :
    (∃ x, runTerm frame f b = .ok (.done x)) ∨
      ∃ target ∈ b.successors, Machine.runTerm frame f b = .ok (.goTo target) := by
  have htyped := hwf.term_typed b h.mem
  have hholds : ∀ v, .result v ∈ b.termOperands → Holds f frame v := by
    intro v hv
    obtain ⟨d, hd, hmem, hdom⟩ := hwf.ends b h.mem ⟨path, h.trail⟩ v hv
    exact h.covers_end hwf d hd (hdom path h.trail) v hmem
  unfold Machine.runTerm
  cases hterm : b.term with
  | none => exact absurd hterm (hwf.terminated b h.mem)
  | some term =>
      simp only [Block.termUses, Block.termOperands, Block.successors,
        hterm] at htyped hholds ⊢
      cases term with
      | jump target => exact .inr ⟨target, List.mem_singleton_self _, rfl⟩
      | branch cond thenBlock elseBlock =>
          obtain ⟨c, hc⟩ :=
            readBool_typed (o := cond) hwf.results_nodup h.args
              (htyped _ (List.mem_singleton_self _))
            fun v hv => hholds v (by simp [Terminator.operands, hv])
          refine .inr ⟨if c then thenBlock else elseBlock, ?_, by simp only [hc]; rfl⟩
          cases c <;> by_cases he : thenBlock = elseBlock
            <;> simp [Terminator.successors, he]
      | ret value =>
          obtain ⟨x, hx⟩ :=
            readDouble_typed (o := value) hwf.results_nodup h.args
              (htyped _ (List.mem_singleton_self _))
            fun v hv => hholds v (by simp [Terminator.operands, hv])
          exact .inl ⟨x, by simp only [hx]; rfl⟩

/-- The way to a successor. -/
theorem leave
    (hwf : f.WellFormed)
    (h : Within f path frame b pre [])
    {target : BlockId}
    (htarget : target ∈ b.successors) :
    Arriving f (b.id :: path) frame (some b.id) target where
  args := h.args
  prev_eq := rfl
  trail :=
    .step h.trail ((Function.mem_successors_iff hwf.ids_nodup).mpr ⟨b, h.mem, rfl, htarget⟩)
  covers := h.covers_end hwf

end Within

/-! ## Before a block -/

namespace Arriving

variable {path : List BlockId} {frame entered : Frame} {prev : Option BlockId}
  {id : BlockId} {b : Block}

/-- The block exists. -/
theorem exists_block
    (hwf : f.WellFormed)
    (h : Arriving f path frame prev id) :
    ∃ b, f.block? id = some b := by
  have hmem : id ∈ f.blockIds := by
    cases h.trail with
    | start hentry => exact Function.mem_blocks_of_entry? hentry
    | step _ edge =>
        obtain ⟨p, hp, -, hsucc⟩ := (Function.mem_successors_iff hwf.ids_nodup).mp edge
        exact hwf.targets p hp id hsucc
  obtain ⟨b, hb, hid⟩ := Function.mem_blockIds_iff.mp hmem
  exact ⟨b, (Function.block?_eq_some_iff hwf.ids_nodup).mpr ⟨hb, hid⟩⟩

/-- The block is reached over an edge. -/
theorem mem_successors
    (h : Arriving f path frame prev id)
    {pred : BlockId}
    (hpred : prev = some pred) :
    id ∈ f.successors pred := by
  have hhead : path.head? = some pred := h.prev_eq.symm.trans hpred
  cases h.trail with
  | start => cases hhead
  | step _ edge =>
      cases hhead
      exact edge

/-- The block that a phi is reached from, with the operand that belongs to it. -/
theorem exists_edge
    (hwf : f.WellFormed)
    (hplain : EntryPlain f)
    (h : Arriving f path frame prev id)
    (hb : f.block? id = some b)
    {i : Instr}
    (hi : i ∈ b.instrs)
    {type : ValueType}
    {incoming : List (Operand × BlockId)}
    (hkind : i.kind = .phi type incoming) :
    ∃ pred o, path.head? = some pred ∧ f.Trail path ∧ (o, pred) ∈ incoming ∧
      incoming.find? (fun edge => edge.2 == pred) = some (o, pred) := by
  obtain ⟨hmem, rfl⟩ := Function.mem_of_block?_eq_some hb
  have htrail := h.trail
  cases htrail with
  | start hentry =>
      -- the entry has no phi
      obtain ⟨first, hfirst, hid⟩ := Option.map_eq_some_iff.mp hentry
      obtain rfl :=
        Function.block_eq_of_id_eq hwf.ids_nodup (List.mem_of_head? hfirst) hmem hid
      have hno := hplain first hfirst i hi
      rw [hkind] at hno
      cases hno
  | @step pred _ path htrail edge =>
      obtain ⟨p, hp, hid, hsucc⟩ := (Function.mem_successors_iff hwf.ids_nodup).mp edge
      have hin : pred ∈ incoming.map (·.2) :=
        (hwf.phi_edges b hmem i hi type incoming hkind pred).mpr
          (Function.mem_predecessors_iff.mpr ⟨p, hp, hid, hsucc⟩)
      cases hfind : incoming.find? fun edge => edge.2 == pred with
      | none =>
          obtain ⟨e, he, rfl⟩ := List.mem_map.mp hin
          have hnone := List.find?_eq_none.mp hfind e he
          simp at hnone
      | some e =>
          obtain ⟨o, source⟩ := e
          have hsource : source = pred := by simpa using List.find?_some hfind
          subst hsource
          exact ⟨source, o, rfl, htrail, List.mem_of_find?_eq_some hfind, hfind⟩

/-- A phi can be read and its value is of its type. -/
theorem readPhi
    (hwf : f.WellFormed)
    (hplain : EntryPlain f)
    (h : Arriving f path frame prev id)
    (hb : f.block? id = some b)
    {i : Instr}
    (hi : i ∈ b.instrs)
    {type : ValueType}
    {incoming : List (Operand × BlockId)}
    (hkind : i.kind = .phi type incoming) :
    ∃ d, readPhi frame prev i.dest incoming = .ok d ∧ d.type = type := by
  obtain ⟨pred, o, hhead, htrail, hin, hfind⟩ := h.exists_edge hwf hplain hb hi hkind
  obtain ⟨hmem, -⟩ := Function.mem_of_block?_eq_some hb
  have htype : f.HasType o type := by
    refine hwf.typed b hmem i hi (o, type) ?_
    rw [hkind]
    exact List.mem_map.mpr ⟨_, hin, rfl⟩
  obtain ⟨d, hread, hd⟩ := read_typed hwf.results_nodup h.args htype (by
    rintro v rfl
    obtain ⟨path', rfl⟩ : ∃ path', path = pred :: path' := by
      cases path with
      | nil => cases hhead
      | cons p path' =>
          cases hhead
          exact ⟨path', rfl⟩
    obtain ⟨c, hc, hv, hdom⟩ :=
      hwf.edges b hmem i hi type incoming hkind v pred hin ⟨path', htrail⟩
    exact h.covers c hc (hdom path' htrail) v hv)
  refine ⟨d, ?_, hd⟩
  simp only [Machine.readPhi, h.prev_eq, hhead, hfind]
  exact hread

theorem exists_enter
    (hwf : f.WellFormed)
    (hplain : EntryPlain f)
    (h : Arriving f path frame prev id)
    (hb : f.block? id = some b) :
    ∃ entered, enter frame prev b = .ok entered := by
  refine Machine.exists_enter ?_
  intro i hi type incoming hkind
  obtain ⟨d, hread, -⟩ := h.readPhi hwf hplain hb (Block.mem_instrs_of_mem_phis hi) hkind
  exact ⟨d, hread⟩

/-- A block that was entered is at the start of its body. -/
theorem within
    (hwf : f.WellFormed)
    (hplain : EntryPlain f)
    (h : Arriving f path frame prev id)
    (hb : f.block? id = some b)
    (hentered : enter frame prev b = .ok entered) :
    Within f path entered b b.phis b.body := by
  obtain ⟨hargs, hsame, hphis⟩ := enter_spec hentered
  obtain ⟨hmem, rfl⟩ := Function.mem_of_block?_eq_some hb
  have hnodup := Function.phis_nodup_of_mem hwf.results_nodup hmem
  have hnew : ∀ i ∈ b.phis, Holds f entered i.dest := by
    intro i hi
    have hin := Block.mem_instrs_of_mem_phis hi
    cases hkind : i.kind with
    | phi type incoming =>
        obtain ⟨d, hread, hd⟩ := h.readPhi hwf hplain hb hin hkind
        obtain ⟨d', hread', hget⟩ := hphis hnodup i hi type incoming hkind
        obtain rfl : d = d' := by simpa using hread.symm.trans hread'
        exact ⟨d, hget, i, Function.mem_instrs_iff.mpr ⟨b, hmem, hin⟩,
          rfl, by rw [hkind, hd]; rfl⟩
    | _ =>
        have hphi := Block.isPhi_of_mem_phis hi
        rw [hkind] at hphi
        cases hphi
  refine ⟨hargs.symm ▸ h.args, hmem, h.trail, ?_, b.phis_append_body.symm,
    hwf.phis_first b hmem, hnew⟩
  intro c hc hid v hv
  by_cases hv' : v ∈ b.phis.map (·.dest)
  · obtain ⟨i, hi, rfl⟩ := List.mem_map.mp hv'
    exact hnew i hi
  · obtain ⟨d, hget, hd⟩ := h.covers c hc hid v hv
    exact ⟨d, by rw [hsame v hv', hget], hd⟩

/-- The start of a call. -/
theorem initial
    {args : List Float}
    (hargs : f.arity = args.length)
    {entry : BlockId}
    (hentry : f.entry? = some entry) :
    Arriving f [] ⟨args, []⟩ none entry where
  args := hargs.symm
  prev_eq := rfl
  trail := .start hentry
  covers := by
    intro b _ hid
    simp at hid

end Arriving

/-! ## Whole runs -/

/--
Induction over the runs of a well-formed function: only the rules remain in which the run
goes on, returns, or fails in a call.
-/
theorem Runs.sound_induction
    (hwf : f.WellFormed)
    (hplain : EntryPlain f)
    {call : FuncId → List Float → Ending → Prop}
    {motive : List BlockId → Frame → Point → Ending → Prop}
    (enter : ∀ {path frame entered prev id b o},
      f.block? id = some b →
      Arriving f path frame prev id →
      Machine.enter frame prev b = .ok entered →
      Within f path entered b b.phis b.body →
      motive path entered (.inside b b.body) o →
      motive path frame (.before prev id) o)
    (value : ∀ {path frame b pre i rest d o},
      Within f path frame b pre (i :: rest) →
      frame.request i = .ok (.value d) →
      Within f path (frame.set i.dest d) b (pre ++ [i]) rest →
      motive path (frame.set i.dest d) (.inside b rest) o →
      motive path frame (.inside b (i :: rest)) (o.after 1 []))
    (value_call : ∀ {path frame b pre i rest callee name operands args steps calls x o},
      Within f path frame b pre (i :: rest) →
      i.kind = .call callee name operands →
      args.length = operands.length →
      frame.request i = .ok (.call callee args) →
      call callee args ⟨steps, calls, .ok x⟩ →
      Within f path (frame.set i.dest (.double x)) b (pre ++ [i]) rest →
      motive path (frame.set i.dest (.double x)) (.inside b rest) o →
      motive path frame (.inside b (i :: rest)) (o.after (1 + steps) calls))
    (fault_call : ∀ {path frame b pre i rest callee name operands args steps calls e},
      Within f path frame b pre (i :: rest) →
      i.kind = .call callee name operands →
      args.length = operands.length →
      frame.request i = .ok (.call callee args) →
      call callee args ⟨steps, calls, .error e⟩ →
      motive path frame (.inside b (i :: rest)) ⟨1 + steps, calls, .error e⟩)
    (done : ∀ {path frame b pre x},
      Within f path frame b pre [] →
      runTerm frame f b = .ok (.done x) →
      motive path frame (.inside b []) ⟨1, [], .ok x⟩)
    (goTo : ∀ {path frame b pre target o},
      Within f path frame b pre [] →
      runTerm frame f b = .ok (.goTo target) →
      Arriving f (b.id :: path) frame (some b.id) target →
      motive (b.id :: path) frame (.before (some b.id) target) o →
      motive path frame (.inside b []) (o.after 1 []))
    {frame : Frame}
    {point : Point}
    {o : Ending}
    (h : Runs call f frame point o) :
    ∀ path, Sound f path frame point → motive path frame point o := by
  induction h with
  | missing hb =>
      intro path hsound
      obtain ⟨b, hb'⟩ := Arriving.exists_block hwf hsound
      cases hb.symm.trans hb'
  | stuck hb he =>
      intro path hsound
      obtain ⟨entered, he'⟩ := Arriving.exists_enter hwf hplain hsound hb
      cases he.symm.trans he'
  | enter hb he _ ih =>
      intro path hsound
      have hwithin := Arriving.within hwf hplain hsound hb he
      exact enter hb hsound he hwithin (ih path ⟨_, hwithin⟩)
  | fault hi =>
      rintro path ⟨pre, hwithin⟩
      rcases hwithin.request hwf with ⟨d, hi', -⟩ | ⟨_, _, _, _, -, hi', -⟩
        <;> cases hi.symm.trans hi'
  | value hi _ ih =>
      rintro path ⟨pre, hwithin⟩
      rcases hwithin.request hwf with ⟨d, hi', hd⟩ | ⟨_, _, _, _, -, hi', -⟩
      · cases hi.symm.trans hi'
        exact value hwithin hi (hwithin.step hd) (ih path ⟨_, hwithin.step hd⟩)
      · cases hi.symm.trans hi'
  | @call _ _ i _ _ _ _ _ x _ hi hcall _ ih =>
      rintro path ⟨pre, hwithin⟩
      rcases hwithin.request hwf with ⟨d, hi', -⟩
        | ⟨callee, name, operands, args, hkind, hi', hlen⟩
      · cases hi.symm.trans hi'
      · cases hi.symm.trans hi'
        have hd : (Datum.double x).type = i.kind.type := by
          rw [hkind]
          rfl
        exact value_call hwithin hkind hlen hi hcall (hwithin.step hd)
          (ih path ⟨_, hwithin.step hd⟩)
  | callFault hi hcall =>
      rintro path ⟨pre, hwithin⟩
      rcases hwithin.request hwf with ⟨d, hi', -⟩
        | ⟨callee, name, operands, args, hkind, hi', hlen⟩
      · cases hi.symm.trans hi'
      · cases hi.symm.trans hi'
        exact fault_call hwithin hkind hlen hi hcall
  | termFault ht =>
      rintro path ⟨pre, hwithin⟩
      rcases hwithin.runTerm hwf with ⟨x, ht'⟩ | ⟨target, -, ht'⟩
        <;> cases ht.symm.trans ht'
  | done ht =>
      rintro path ⟨pre, hwithin⟩
      exact done hwithin ht
  | goTo ht _ ih =>
      rintro path ⟨pre, hwithin⟩
      rcases hwithin.runTerm hwf with ⟨x, ht'⟩ | ⟨target, htarget, ht'⟩
      · cases ht.symm.trans ht'
      · cases ht.symm.trans ht'
        exact goTo hwithin ht (hwithin.leave hwf htarget) (ih _ (hwithin.leave hwf htarget))

/-- The faults that verified functions can end with, the step limit apart. -/
inductive Blameless (m : Module) (limit : Nat) : ExecFault → Prop
  | depth : Blameless m limit (.depthLimit limit)
  | host {g : Function} {args : List Float} {fault : HostFault}
      (hg : g ∈ m.functions)
      (hbody : g.hasBody = false)
      (hargs : args.length = g.arity)
      (hfault : HostCall.result ⟨g.name, args⟩ = .error fault) :
      Blameless m limit (.host fault)

/-- A run of a well-formed function fails only if a call fails. -/
theorem Runs.blameless
    {m : Module}
    {limit : Nat}
    (hwf : f.WellFormed)
    (hplain : EntryPlain f)
    (hcalls : f.CallsMatch m)
    {call : FuncId → List Float → Ending → Prop}
    (hcall : ∀ callee target args o, m.function? callee = some target →
      target.arity = args.length →
      call callee args o → ∀ e, o.result = .error e → Blameless m limit e)
    {frame : Frame}
    {point : Point}
    {o : Ending}
    (h : Runs call f frame point o)
    (path : List BlockId)
    (hsound : Sound f path frame point) :
    ∀ e, o.result = .error e → Blameless m limit e := by
  refine Runs.sound_induction (motive := fun _ _ _ o => ∀ e, o.result = .error e →
    Blameless m limit e)
    hwf hplain ?_ ?_ ?_ ?_ ?_ ?_ h path hsound
  · intro _ _ _ _ _ _ _ _ _ _ _ ih
    exact ih
  · intro _ _ _ _ _ _ _ _ _ _ _ ih
    exact ih
  · intro _ _ _ _ _ _ _ _ _ _ _ _ _ _ _ _ _ _ _ _ ih
    exact ih
  · intro path frame b pre i rest callee name operands args steps calls e hwithin
      hkind hlen _ hrel
    obtain ⟨target, htarget, harity⟩ :=
      hcalls b hwithin.mem i hwithin.instr_mem callee name operands hkind
    exact fun e' he =>
      hcall callee target args _ htarget (harity.trans hlen.symm) hrel e' he
  · intro _ _ _ _ _ _ _ e he
    cases he
  · intro _ _ _ _ _ _ _ _ _ ih
    exact ih

/-- A module whose functions all pass the check. -/
structure Verified (m : Module) : Prop where
  blocks_nodup : ∀ f ∈ m.functions, f.blockIds.Nodup
  verify : ∀ f ∈ m.functions, m.verify f = .ok ()
  plain : ∀ f ∈ m.functions, EntryPlain f

/-- A call in a verified module fails only for a reason that is not the functions' fault. -/
theorem Calls.blameless
    {m : Module}
    (hm : Verified m)
    {limit remaining : Nat}
    {id : FuncId}
    {target : Function}
    (htarget : m.function? id = some target)
    {args : List Float}
    (harity : target.arity = args.length)
    {o : Ending}
    (h : Calls m limit remaining id args o) :
    ∀ e, o.result = .error e → Blameless m limit e := by
  induction remaining generalizing id target args o with
  | zero =>
      obtain rfl : o = _ := h
      rintro e ⟨⟩
      exact .depth
  | succ remaining ih =>
      have hmem : target ∈ m.functions := List.mem_of_find?_eq_some htarget
      simp only [Calls, htarget, Answers, if_pos harity] at h
      cases hentry : target.entry? with
      | none =>
          simp only [hentry] at h
          subst h
          intro e he
          cases hresult : HostCall.result ⟨target.name, args⟩ with
          | ok x =>
              rw [hresult] at he
              cases he
          | error fault =>
              rw [hresult] at he
              cases he
              have hbody : target.hasBody = false := by
                simp [Function.hasBody, Function.entry?_eq_none_iff.mp hentry]
              exact .host hmem hbody harity.symm hresult
      | some entry =>
          simp only [hentry] at h
          obtain ⟨hwf, hcalls⟩ :=
            (Verify.verify_eq_ok_iff (hm.blocks_nodup _ hmem) m).mp (hm.verify _ hmem)
          refine Runs.blameless hwf (hm.plain _ hmem) hcalls ?_ h []
            (Arriving.initial harity hentry)
          intro callee target' args' o' htarget' harity' hrel
          exact ih htarget' harity' hrel

/--
In a module with distinct identifiers whose functions all pass the check, a call with the
right number of arguments gives a double, or ends with one of the two limits, or with the
fault of a host call for a function without a body.
-/
theorem call_ends_well
    (m : Module)
    (hids : (m.functions.map (·.id)).Nodup)
    (hblocks : ∀ f ∈ m.functions, f.blockIds.Nodup)
    (hverify : ∀ f ∈ m.functions, m.verify f = .ok ())
    (hplain : ∀ f ∈ m.functions, ∀ b, f.blocks.head? = some b → ∀ i ∈ b.instrs,
      i.kind.isPhi = false)
    (f : Function)
    (hf : f ∈ m.functions)
    (args : List Float)
    (hargs : args.length = f.arity)
    (limits : Limits)
    (p : Progress) :
    (∃ x, ((Machine.call m limits f.id args).run.run p).1 = .ok x) ∨
      ((Machine.call m limits f.id args).run.run p).1 = .error (.depthLimit limits.depth) ∨
      ((Machine.call m limits f.id args).run.run p).1 = .error (.stepLimit limits.steps) ∨
      ∃ g ∈ m.functions, g.hasBody = false ∧ ∃ xs fault, xs.length = g.arity ∧
        HostCall.result ⟨g.name, xs⟩ = .error fault ∧
        ((Machine.call m limits f.id args).run.run p).1 = .error (.host fault) := by
  have hfound : m.function? f.id = some f := Module.function?_of_mem hids hf
  rcases hrun : (Machine.call m limits f.id args).run.run p with ⟨result, q⟩
  cases result with
  | ok x => exact .inl ⟨x, rfl⟩
  | error e =>
      by_cases he : e = .stepLimit limits.steps
      · exact .inr (.inr (.inl (by rw [he])))
      obtain ⟨o, hcalls, hresult, -⟩ :=
        reflects_callAt m limits limits.depth f.id args p _ q hrun (by simpa using he)
      cases Calls.blameless ⟨hblocks, hverify, hplain⟩ hfound hargs.symm hcalls e
        hresult.symm with
      | depth => exact .inr (.inl rfl)
      | host hg hbody hxs hfault =>
          exact .inr (.inr (.inr ⟨_, hg, hbody, _, _, hxs, hfault, rfl⟩))

/--
A loop that takes one off its argument and goes on for as long as the host gives something
else than zero.
-/
def countdown : Function where
  id := ⟨1⟩
  name := "down"
  params := ["n"]
  blocks :=
    [⟨⟨0⟩, "entry", [], some (.jump ⟨1⟩)⟩,
      ⟨⟨1⟩, "loop",
        [⟨⟨0⟩, .phi .double [(.arg 0, ⟨0⟩), (.result ⟨2⟩, ⟨1⟩)]⟩,
          ⟨⟨1⟩, .call ⟨0⟩ "cos" [.result ⟨0⟩]⟩,
          ⟨⟨2⟩, .arith .sub (.result ⟨0⟩) (.const 1.0)⟩,
          ⟨⟨3⟩, .compare .one (.result ⟨1⟩) (.const 0.0)⟩],
        some (.branch (.result ⟨3⟩) ⟨1⟩ ⟨2⟩)⟩,
      ⟨⟨2⟩, "exit", [], some (.ret (.result ⟨2⟩))⟩]
  nextValue := 4
  nextBlock := 3

/-- The loop beside the host function that it calls. -/
def countdownModule : Module :=
  ⟨[.declaration ⟨0⟩ "cos" ["x"], countdown], [("cos", ⟨0⟩), ("down", ⟨1⟩)], 2⟩

theorem countdown_ends_well :
    (∀ f ∈ countdownModule.functions, countdownModule.verify f = .ok ()) ∧
      ((∃ x, ((Machine.call countdownModule ⟨8, 100⟩ ⟨1⟩ [3.0]).run.run ⟨0, []⟩).1 =
        .ok x) ∨
        ((Machine.call countdownModule ⟨8, 100⟩ ⟨1⟩ [3.0]).run.run ⟨0, []⟩).1 =
          .error (.depthLimit 8) ∨
        ((Machine.call countdownModule ⟨8, 100⟩ ⟨1⟩ [3.0]).run.run ⟨0, []⟩).1 =
          .error (.stepLimit 100) ∨
        ∃ g ∈ countdownModule.functions, g.hasBody = false ∧ ∃ xs fault,
          xs.length = g.arity ∧
          HostCall.result ⟨g.name, xs⟩ = .error fault ∧
          ((Machine.call countdownModule ⟨8, 100⟩ ⟨1⟩ [3.0]).run.run ⟨0, []⟩).1 =
            .error (.host fault)) :=
  have hverify : ∀ f ∈ countdownModule.functions, countdownModule.verify f = .ok () := by
    decide +kernel
  ⟨hverify,
    call_ends_well countdownModule (by decide) (by decide) hverify (by decide) countdown
      (by decide) [3.0] rfl
    ⟨8, 100⟩ ⟨0, []⟩⟩

end Machine
end ScalarSsa
