import Mathlib.Data.List.Forall2
import Mathlib.Logic.Relation
import ScalarSsa.Proofs.Ssa.Numbering

/-!
# Calls that build

**Input.** A builder with any cursor, set to a place that exists or not, and a call that
puts something in at the cursor or appends a block.

**Definitions.** `BuildCall` has a constructor for each such call, and `Outcome` a rule for
each thing that one can do.

**Results.** `BuildCall.outcome`: a call does one of these.  So the counters of functions
only go up and sound functions stay sound (`BuildCall.Outcome.advances`), no block with a
terminator is changed (`BuildCall.Outcome.keepsTerminated`), and a call that fails uses up
the number of a value at most (`BuildCall.Outcome.failed`).
-/

namespace ScalarSsa

open Relation

/-- A call on a builder that puts something in at the cursor or appends a block. -/
inductive BuildCall where
  | appendBlock (func : FuncId) (label : String)
  | arith (op : Arith) (lhs rhs : Operand)
  | compare (pred : Comparison) (lhs rhs : Operand)
  | promote (src : Operand)
  | lessThan (lhs rhs : Operand)
  | call (callee : FuncId) (args : List Operand)
  | phi (type : ValueType) (incoming : List (Operand × BlockId))
  | jump (target : BlockId)
  | branch (cond : Operand) (thenBlock elseBlock : BlockId)
  | ret (value : Operand)

/-- What a call that builds answers. -/
inductive Product where
  | block (id : BlockId)
  | value (o : Operand)
  | nothing

namespace BuildCall

/-- The call on a builder. -/
def run : BuildCall → Build Product
  | .appendBlock func label => .block <$> Builder.appendBlock func label
  | .arith op lhs rhs => .value <$> Builder.arith op lhs rhs
  | .compare pred lhs rhs => .value <$> Builder.compare pred lhs rhs
  | .promote src => .value <$> Builder.promote src
  | .lessThan lhs rhs => .value <$> Builder.lessThan lhs rhs
  | .call callee args => .value <$> Builder.call callee args
  | .phi type incoming => .value <$> Builder.phi type incoming
  | .jump target => (fun _ => .nothing) <$> Builder.jump target
  | .branch cond thenBlock elseBlock =>
    (fun _ => .nothing) <$> Builder.branch cond thenBlock elseBlock
  | .ret value => (fun _ => .nothing) <$> Builder.ret value

/-- The function that the call is about. -/
def func? (b : Builder) : BuildCall → Option FuncId
  | .appendBlock func _ => some func
  | _ => b.cursor.map (·.func)

end BuildCall

/--
All that a call that builds can do to a builder: `id?` names the function that it is about.
-/
inductive BuildCall.Outcome (b : Builder) (id? : Option FuncId) :
    Except InsertError Product × Builder → Prop
  | refused (e : InsertError) :
      Outcome b id? (.error e, b)
  | wasted {id : FuncId} {f : Function}
      (hid : id? = some id)
      (hf : b.module.function? id = some f)
      (e : InsertError) :
      Outcome b id? (.error e, b.mapFunction id fun _ => f.issueValue)
  | appended {id : FuncId} {f : Function}
      (hid : id? = some id)
      (hf : b.module.function? id = some f)
      (label text : String) :
      Outcome b id? (.ok (.block (.ofCount f.nextBlock)),
        (b.mapFunction id fun _ => f.appendBlock label).note .trace .builder text)
  | pushed {id : FuncId} {f g : Function} {n : Nat}
      (hid : id? = some id)
      (hf : b.module.function? id = some f)
      (hfills : ReflTransGen Function.Fills f g)
      (hissued : f.nextValue ≤ n ∧ n < g.nextValue) :
      Outcome b id? (.ok (.value (.result (.ofCount n))), b.mapFunction id fun _ => g)
  | closed {id : FuncId} {f g : Function}
      (hid : id? = some id)
      (hf : b.module.function? id = some f)
      (hfills : f.Fills g) :
      Outcome b id? (.ok .nothing, b.mapFunction id fun _ => g)

section Outcome

variable {b : Builder} {cursor : Cursor} {f : Function} {id : FuncId}

theorem Builder.mapFunction_congr
    (hf : b.module.function? id = some f)
    {change change' : Function → Function}
    (hchange : change f = change' f) :
    b.mapFunction id change = b.mapFunction id change' := by
  rw [Builder.mapFunction, Builder.mapFunction, Module.mapFunction_congr hf hchange]

/-- A function that is put in twice is put in once. -/
theorem Builder.put_put
    {g g' : Function}
    (hid : g.id = id) :
    (b.mapFunction id fun _ => g).mapFunction id (fun _ => g') =
      b.mapFunction id fun _ => g' := by
  simp only [Builder.mapFunction]
  rw [Module.mapFunction_mapFunction _ _ fun _ _ => hid]

theorem Builder.function?_put
    {g : Function}
    (hf : b.module.function? id = some f)
    (hid : g.id = id) :
    (b.mapFunction id fun _ => g).module.function? id = some g := by
  rw [Builder.mapFunction, Module.function?_mapFunction _ _ _ fun _ _ => hid, hf]
  simp [Module.id_of_function? hf]

/-- An open block is open after an instruction was put in. -/
theorem Function.openError?_push
    {block : BlockId}
    (hopen : f.openError? block = none)
    (kind : InstrKind) :
    (Site.push ⟨f, block⟩ kind).func.openError? block = none := by
  have hblock : (Site.push ⟨f, block⟩ kind).func.block? block =
      (f.block? block).map (Block.insert ⟨.ofCount f.nextValue, kind⟩) := by
    rw [Site.push, Function.block?_mapBlock (Block.id_insert _), if_pos rfl]
    rfl
  have hterm : ∀ (i : Instr) (c : Block), (c.insert i).isTerminated = c.isTerminated := by
    intro i c
    unfold Block.insert
    split <;> rfl
  unfold Function.openError? at hopen ⊢
  rw [hblock]
  cases hfound : f.block? block with
  | none => simp [hfound] at hopen
  | some c =>
      simp only [hfound, Option.map_some, hterm] at hopen ⊢
      split at hopen
      · cases hopen
      · next hfalse => rw [if_neg hfalse]

/-- Putting an instruction in at a cursor that is set to an existing function. -/
theorem run_push_found
    (hcursor : b.cursor = some cursor)
    (hf : b.module.function? cursor.func = some f)
    (kind : InstrKind) :
    (Builder.push kind).run.run b =
      match f.openError? cursor.block with
      | some e => (.error e, b.mapFunction cursor.func fun _ => f.issueValue)
      | none => (.ok (.result (.ofCount f.nextValue)),
          b.mapFunction cursor.func fun _ => (Site.push ⟨f, cursor.block⟩ kind).func) := by
  have hissue : b.mapFunction cursor.func Function.issueValue =
      b.mapFunction cursor.func fun _ => f.issueValue :=
    Builder.mapFunction_congr hf rfl
  have hinsert : (b.mapFunction cursor.func Function.issueValue).mapFunction cursor.func
      (fun f' => f'.mapBlock cursor.block (Block.insert ⟨.ofCount f.nextValue, kind⟩)) =
      b.mapFunction cursor.func fun _ => (Site.push ⟨f, cursor.block⟩ kind).func := by
    simp only [Builder.mapFunction]
    rw [Module.mapFunction_mapFunction Function.issueValue _ fun _ hid => hid]
    exact Builder.mapFunction_congr hf rfl
  rw [Builder.run_push hcursor hf, Module.id_of_function? hf]
  cases f.openError? cursor.block with
  | some e => simp only [hissue]
  | none => simp only [hinsert]

/-- Nothing is put in without a function at the cursor. -/
theorem currentFunction_refused
    (hnone : (b.cursor.map (·.func)).bind b.module.function? = none) :
    ∃ e, Builder.currentFunction.run.run b = (.error e, b) := by
  cases hcursor : b.cursor with
  | none => exact ⟨_, Builder.run_currentFunction_unset hcursor⟩
  | some cursor =>
      refine ⟨_, Builder.run_currentFunction_missing hcursor ?_⟩
      simpa [hcursor] using hnone

theorem outcome_push
    (b : Builder)
    (kind : InstrKind) :
    BuildCall.Outcome b (b.cursor.map (·.func))
      ((Product.value <$> Builder.push kind).run.run b) := by
  rw [run_map]
  cases hfound : (b.cursor.map (·.func)).bind b.module.function? with
  | none =>
      obtain ⟨e, herror⟩ := currentFunction_refused hfound
      rw [Builder.push, run_bind_error herror]
      exact .refused e
  | some f =>
      obtain ⟨id, hid, hf⟩ := Option.bind_eq_some_iff.1 hfound
      obtain ⟨cursor, hcursor, rfl⟩ := Option.map_eq_some_iff.1 hid
      rw [run_push_found hcursor hf]
      cases hopen : f.openError? cursor.block with
      | some e => exact .wasted hid hf e
      | none =>
          exact .pushed hid hf (.single (.pushed hopen kind))
            ⟨Nat.le_refl _, Nat.lt_succ_self _⟩

/--
Two instructions are put in one after the other: where the first one goes, there is
room for the second.
-/
theorem outcome_lessThan
    (b : Builder)
    (lhs rhs : Operand) :
    BuildCall.Outcome b (b.cursor.map (·.func))
      ((Product.value <$> Builder.lessThan lhs rhs).run.run b) := by
  rw [run_map, Builder.lessThan, Builder.compare]
  cases hfound : (b.cursor.map (·.func)).bind b.module.function? with
  | none =>
      obtain ⟨e, herror⟩ := currentFunction_refused hfound
      have hpush : (Builder.push (.compare .ult lhs rhs)).run.run b = (.error e, b) := by
        rw [Builder.push, run_bind_error herror]
      rw [run_bind_error hpush]
      exact .refused e
  | some f =>
      obtain ⟨id, hid, hf⟩ := Option.bind_eq_some_iff.1 hfound
      obtain ⟨cursor, hcursor, rfl⟩ := Option.map_eq_some_iff.1 hid
      have hpush := run_push_found hcursor hf (.compare .ult lhs rhs)
      cases hopen : f.openError? cursor.block with
      | some e =>
          simp only [hopen] at hpush
          rw [run_bind_error hpush]
          exact .wasted hid hf e
      | none =>
          simp only [hopen] at hpush
          have hopen' := Function.openError?_push hopen (.compare .ult lhs rhs)
          have hfid : (Site.push ⟨f, cursor.block⟩ (.compare .ult lhs rhs)).func.id =
              cursor.func :=
            (rfl : _ = f.id).trans (Module.id_of_function? hf)
          have hcursor' : (b.mapFunction cursor.func fun _ =>
              (Site.push ⟨f, cursor.block⟩ (.compare .ult lhs rhs)).func).cursor =
                some cursor := hcursor
          rw [run_bind_ok hpush, Builder.promote,
            run_push_found hcursor' (Builder.function?_put hf hfid)]
          simp only [hopen']
          rw [Builder.put_put hfid]
          exact .pushed hid hf (.tail (.single (.pushed hopen _)) (.pushed hopen' _))
            ⟨Nat.le_succ _, Nat.lt_succ_self _⟩

theorem outcome_terminate
    (b : Builder)
    (term : Terminator) :
    BuildCall.Outcome b (b.cursor.map (·.func))
      (((fun _ => Product.nothing) <$> Builder.terminate term).run.run b) := by
  rw [run_map]
  cases hfound : (b.cursor.map (·.func)).bind b.module.function? with
  | none =>
      obtain ⟨e, herror⟩ := currentFunction_refused hfound
      rw [Builder.terminate, run_bind_error herror]
      exact .refused e
  | some f =>
      obtain ⟨id, hid, hf⟩ := Option.bind_eq_some_iff.1 hfound
      obtain ⟨cursor, hcursor, rfl⟩ := Option.map_eq_some_iff.1 hid
      rw [Builder.run_terminate hcursor hf, Module.id_of_function? hf]
      cases hopen : f.openError? cursor.block with
      | some e => exact .refused e
      | none =>
          have hput : b.mapFunction cursor.func (fun f => f.mapBlock cursor.block fun b =>
            { b with term := some term }) =
              b.mapFunction cursor.func fun _ => (Site.close ⟨f, cursor.block⟩ term).func :=
            Builder.mapFunction_congr hf rfl
          simp only [hput]
          exact .closed hid hf (.closed hopen term)

theorem BuildCall.outcome
    (c : BuildCall)
    (b : Builder) :
    BuildCall.Outcome b (c.func? b) (c.run.run.run b) := by
  cases c with
  | appendBlock func label =>
      rw [run, run_map]
      cases hf : b.module.function? func with
      | none =>
          have hrun : (Builder.appendBlock func label).run.run b =
              (.error (.appendToMissing func), b) := by
            rw [Builder.appendBlock, run_bind_ok (run_get b)]
            simp only [hf]
            rfl
          rw [hrun]
          exact .refused _
      | some f =>
          obtain ⟨text, hrun⟩ := Builder.run_appendBlock hf label
          have hput : b.mapFunction func (fun f => f.appendBlock label) =
              b.mapFunction func fun _ => f.appendBlock label :=
            Builder.mapFunction_congr hf rfl
          rw [hrun, hput]
          exact .appended rfl hf label text
  | arith op lhs rhs => exact outcome_push b _
  | compare pred lhs rhs => exact outcome_push b _
  | promote src => exact outcome_push b _
  | lessThan lhs rhs => exact outcome_lessThan b lhs rhs
  | call callee args =>
      cases hf : b.module.function? callee with
      | none =>
          have hrun : (Builder.call callee args).run.run b =
              (.error (.missingCallee callee), b) := by
            rw [Builder.call, run_bind_ok (run_get b)]
            simp only [hf]
            rfl
          rw [run, run_map, hrun]
          exact .refused _
      | some f =>
          have hpush := outcome_push b (.call callee f.name args)
          rw [run_map] at hpush
          rw [run, run_map, Builder.run_call hf]
          exact hpush
  | phi type incoming => exact outcome_push b _
  | jump target => exact outcome_terminate b _
  | branch cond thenBlock elseBlock => exact outcome_terminate b _
  | ret value => exact outcome_terminate b _

/-! ## What follows for the functions -/

theorem forall₂_mapFunction
    {R : Function → Function → Prop}
    (hrefl : ∀ f, R f f)
    {m : Module}
    {g : Function}
    (hf : m.function? id = some f)
    (hR : R f g) :
    List.Forall₂ R m.functions (m.mapFunction id fun _ => g).functions := by
  rw [Module.function?] at hf
  simp only [Module.mapFunction]
  revert hf
  induction m.functions with
  | nil => exact fun _ => .nil
  | cons h rest ih =>
      intro hf
      by_cases hid : h.id = id
      · obtain rfl : h = f := by simpa [hid] using hf
        rw [Module.changeFirst, if_pos hid]
        exact .cons hR (List.forall₂_same.2 fun f _ => hrefl f)
      · rw [Module.changeFirst, if_neg hid]
        exact .cons (hrefl h) (ih (by simpa [hid] using hf))

/-- The counters only go up, and a sound function stays sound. -/
structure Function.Advances (f g : Function) : Prop where
  nextBlock_le : f.nextBlock ≤ g.nextBlock
  nextValue_le : f.nextValue ≤ g.nextValue
  sound : f.Sound → g.Sound

/-- The second function is the first one, except that it may have issued more values. -/
def Function.SameBody (f g : Function) : Prop :=
  g = { f with nextValue := g.nextValue }

namespace Function

theorem Advances.refl
    (f : Function) :
    f.Advances f :=
  ⟨Nat.le_refl _, Nat.le_refl _, fun h => h⟩

theorem Advances.of_fills
    {g : Function}
    (h : ReflTransGen Fills f g) :
    f.Advances g := by
  induction h with
  | refl => exact .refl f
  | tail _ hstep ih =>
      exact ⟨hstep.nextBlock_eq ▸ ih.nextBlock_le,
        Nat.le_trans ih.nextValue_le hstep.nextValue_le,
        fun hf => hstep.sound (ih.sound hf)⟩

theorem Advances.appendBlock
    (f : Function)
    (label : String) :
    f.Advances (f.appendBlock label) :=
  ⟨Nat.le_succ _, Nat.le_refl _, fun h => h.appendBlock label⟩

theorem id_of_fills
    {g : Function}
    (h : ReflTransGen Fills f g) :
    g.id = f.id := by
  induction h with
  | refl => rfl
  | tail _ hstep ih => exact hstep.id_eq.trans ih

theorem keepsTerminated_of_fills
    {g : Function}
    (h : ReflTransGen Fills f g)
    (hids : f.blockIds.Nodup) :
    f.KeepsTerminated g ∧ g.blockIds.Nodup := by
  induction h with
  | refl => exact ⟨fun _ _ hb _ => hb, hids⟩
  | tail _ hstep ih =>
      refine ⟨fun place b hb hterm => ?_, hstep.blockIds_eq ▸ ih.2⟩
      exact hstep.keepsTerminated ih.2 place b (ih.1 place b hb hterm) hterm

end Function

namespace BuildCall.Outcome

variable {id? : Option FuncId} {result : Except InsertError Product × Builder}

theorem advances
    (h : BuildCall.Outcome b id? result) :
    List.Forall₂ Function.Advances b.module.functions result.2.module.functions := by
  cases h with
  | refused e => exact List.forall₂_same.2 fun f _ => .refl f
  | wasted _ hf e => exact forall₂_mapFunction .refl hf (.of_fills (.single .wasted))
  | appended _ hf label text => exact forall₂_mapFunction .refl hf (.appendBlock _ label)
  | pushed _ hf hfills _ => exact forall₂_mapFunction .refl hf (.of_fills hfills)
  | closed _ hf hfills => exact forall₂_mapFunction .refl hf (.of_fills (.single hfills))

theorem keepsTerminated
    (h : BuildCall.Outcome b id? result)
    (hids : ∀ f ∈ b.module.functions, f.blockIds.Nodup) :
    List.Forall₂ Function.KeepsTerminated b.module.functions result.2.module.functions := by
  have hrefl : ∀ f : Function, f.KeepsTerminated f := fun _ _ _ hb _ => hb
  have hnodup : ∀ {id f}, b.module.function? id = some f → f.blockIds.Nodup := fun hf =>
    hids _ (Module.mem_of_function? hf)
  cases h with
  | refused e => exact List.forall₂_same.2 fun f _ => hrefl f
  | wasted _ hf e =>
      exact forall₂_mapFunction hrefl hf (Function.Fills.wasted.keepsTerminated (hnodup hf))
  | appended _ hf label text =>
      exact forall₂_mapFunction hrefl hf (Function.keepsTerminated_appendBlock _ label)
  | pushed _ hf hfills _ =>
      exact forall₂_mapFunction hrefl hf
        (Function.keepsTerminated_of_fills hfills (hnodup hf)).1
  | closed _ hf hfills =>
      exact forall₂_mapFunction hrefl hf (hfills.keepsTerminated (hnodup hf))

/-- A call that fails uses up the number of a value at most. -/
theorem failed
    (h : BuildCall.Outcome b id? result)
    {e : InsertError}
    (herror : result.1 = .error e) :
    ∃ functions, result.2 = { b with module := { b.module with functions := functions } } ∧
      List.Forall₂ Function.SameBody b.module.functions functions := by
  have hrefl : ∀ f : Function, f.SameBody f := fun _ => rfl
  have hissue : ∀ f : Function, f.SameBody f.issueValue := fun _ => rfl
  cases h with
  | refused e => exact ⟨_, rfl, List.forall₂_same.2 fun f _ => hrefl f⟩
  | wasted _ hf e => exact ⟨_, rfl, forall₂_mapFunction hrefl hf (hissue _)⟩
  | appended _ _ _ _ => cases herror
  | pushed _ _ _ _ => cases herror
  | closed _ _ _ => cases herror

end BuildCall.Outcome

end Outcome

end ScalarSsa
