import Mathlib.Data.List.Induction
import ScalarSsa.Proofs.Pass.Trimming
import ScalarSsa.Proofs.Ssa.Outcomes

/-!
# Building and simplifying in any order

**Input.** Operations on a builder that has done nothing yet: declarations, deletions, moves
of the cursor to places that need not exist, calls that build, and runs of the three passes
on functions that need not be well formed.

**Definitions.** A `Construction` is a builder with the names of blocks and values that each
of its functions has issued.

**Results.** `recorded_after`: after any operations, what a function has issued are all
names up to its counters, and the function is sound.  `construction_sound`: as long as it
has numbers left, its blocks and results have different numbers that it issued, each once,
and phis stand first.
-/

namespace ScalarSsa

/-- One of the passes. -/
inductive Simplification where
  | folding
  | branches
  | unused

/-- What the pass makes of a function. -/
def Simplification.apply (s : Simplification) (f : Function) : Function :=
  match s with
  | .folding => (Pass.folding.run f).function
  | .branches => (Pass.branches.run f).function
  | .unused => (Pass.unused.run f).function

/-- An operation on a builder. -/
inductive Operation where
  | declare (name : String) (params : List String)
  | delete (id : FuncId)
  | moveTo (func : FuncId) (block : BlockId)
  | clearCursor
  | build (c : BuildCall)
  | simplify (s : Simplification) (func : FuncId)

/-- The names of blocks and values that a function has issued, in order. -/
structure Issued where
  blocks : List BlockId
  values : List ValueId

namespace Issued

/-- The names with those that are issued while a function becomes another one. -/
def more (i : Issued) (f g : Function) : Issued :=
  ⟨i.blocks ++ (List.range' f.nextBlock (g.nextBlock - f.nextBlock)).map .ofCount,
    i.values ++ (List.range' f.nextValue (g.nextValue - f.nextValue)).map .ofCount⟩

/-- The records of all functions but the first one of an identifier. -/
def dropFirst (id : FuncId) : List Function → List Issued → List Issued
  | f :: functions, i :: records =>
    if f.id = id then records else i :: dropFirst id functions records
  | _, records => records

end Issued

/-- A builder, and the names that each of its functions has issued. -/
structure Construction where
  builder : Builder
  issued : List Issued

namespace Construction

/-- The functions of the builder. -/
abbrev functions (t : Construction) : List Function :=
  t.builder.module.functions

/-- The construction whose functions have become those of another builder. -/
def advance (t : Construction) (b : Builder) : Construction :=
  ⟨b, List.zipWith3 Issued.more t.issued t.functions b.module.functions⟩

/-- The construction after an operation. -/
def perform (t : Construction) : Operation → Construction
  | .declare name params =>
    let (id?, b) := (Builder.declare? name params).run t.builder
    ⟨b, if id?.isSome then t.issued ++ [⟨[], []⟩] else t.issued⟩
  | .delete id =>
    let (f?, b) := (Builder.delete? id).run t.builder
    ⟨b, if f?.isSome then Issued.dropFirst id t.functions t.issued else t.issued⟩
  | .moveTo func block => ⟨((Builder.moveTo func block).run t.builder).2, t.issued⟩
  | .clearCursor => ⟨(Builder.clearCursor.run t.builder).2, t.issued⟩
  | .build c => t.advance (c.run.run.run t.builder).2
  | .simplify s func => t.advance (t.builder.mapFunction func s.apply)

/-- The construction after some operations on a new builder. -/
def after (operations : List Operation) : Construction :=
  operations.foldl perform ⟨.empty, []⟩

/-- The names issued by the function of an identifier. -/
def issuedBy? (t : Construction) (id : FuncId) : Option Issued :=
  ((t.functions.zip t.issued).find? fun entry => entry.1.id == id).map (·.2)

end Construction

/--
A function and its record: all names up to the counters, and those of the
function are among them.
-/
structure Function.Records (f : Function) (i : Issued) : Prop where
  sound : f.Sound
  blocks_eq : i.blocks = (List.range f.nextBlock).map .ofCount
  values_eq : i.values = (List.range f.nextValue).map .ofCount

theorem range_append_range'
    {m n : Nat}
    (h : m ≤ n) :
    List.range m ++ List.range' m (n - m) = List.range n := by
  have happend : List.range' 0 m ++ List.range' (0 + m) (n - m) =
      List.range' 0 (m + (n - m)) := List.range'_append_1
  rwa [Nat.zero_add,
    Nat.add_sub_cancel' h, ← List.range_eq_range', ← List.range_eq_range'] at happend

theorem Function.Records.more
    {f g : Function}
    {i : Issued}
    (h : f.Records i)
    (hadvances : f.Advances g) :
    g.Records (i.more f g) := by
  refine ⟨hadvances.sound h.sound, ?_, ?_⟩
  · rw [Issued.more, h.blocks_eq, ← List.map_append,
      range_append_range' hadvances.nextBlock_le]
  · rw [Issued.more, h.values_eq, ← List.map_append,
      range_append_range' hadvances.nextValue_le]

namespace Construction

/-- Every function has its record. -/
def Recorded (t : Construction) : Prop :=
  List.Forall₂ Function.Records t.functions t.issued

variable {t : Construction}

theorem Recorded.advance
    (h : t.Recorded)
    {b : Builder}
    (hadvances : List.Forall₂ Function.Advances t.functions b.module.functions) :
    (t.advance b).Recorded := by
  simp only [Recorded, Construction.advance, Construction.functions] at h hadvances ⊢
  -- the lists of functions and of records are read side by side
  generalize t.issued = records at h ⊢
  generalize t.builder.module.functions = before at h hadvances ⊢
  generalize b.module.functions = after at hadvances ⊢
  induction hadvances generalizing records with
  | nil =>
      cases h
      exact .nil
  | cons hg _ ih =>
      cases h with
      | cons hf hrest => exact .cons (hf.more hg) (ih _ hrest)

theorem recorded_dropFirst
    {functions : List Function}
    {records : List Issued}
    (h : List.Forall₂ Function.Records functions records)
    (id : FuncId) :
    List.Forall₂ Function.Records (functions.eraseP fun f => f.id == id)
      (Issued.dropFirst id functions records) := by
  induction h with
  | nil => exact .nil
  | cons hf hrest ih =>
      rename_i f i functions records
      by_cases hid : f.id = id
      · simpa [Issued.dropFirst, hid] using hrest
      · simpa [Issued.dropFirst, hid] using And.intro hf ih

theorem advances_apply
    (s : Simplification)
    (f : Function) :
    f.Advances (s.apply f) := by
  have hpass : ∀ pass ∈ [Pass.folding, Pass.branches, Pass.unused],
      f.Advances (pass.run f).function := by
    intro pass hpass
    have hissued := (Pass.gentle_of_mem hpass f).issued_eq
    exact ⟨Nat.le_of_eq hissued.2.symm, Nat.le_of_eq hissued.1.symm, Pass.sound_run hpass⟩
  cases s with
  | folding => exact hpass _ (by simp)
  | branches => exact hpass _ (by simp)
  | unused => exact hpass _ (by simp)

theorem advances_simplify
    (m : Module)
    (func : FuncId)
    (s : Simplification) :
    List.Forall₂ Function.Advances m.functions (m.mapFunction func s.apply).functions := by
  cases hf : m.function? func with
  | none =>
      rw [Module.mapFunction_of_missing hf]
      exact List.forall₂_same.2 fun f _ => .refl f
  | some f =>
      have hput : m.mapFunction func s.apply = m.mapFunction func fun _ => s.apply f :=
        Module.mapFunction_congr hf rfl
      rw [hput]
      exact forall₂_mapFunction .refl hf (advances_apply s f)

theorem Recorded.perform
    (h : t.Recorded)
    (operation : Operation) :
    (t.perform operation).Recorded := by
  cases operation with
  | declare name params =>
      cases hfind : t.builder.module.find? name with
      | some id =>
          simp only [Construction.perform, Builder.run_declare?_taken hfind params]
          exact h
      | none =>
          obtain ⟨note, hrun⟩ := Builder.run_declare?_free hfind params
          simp only [Construction.perform, hrun]
          refine List.rel_append h (.cons ?_ .nil)
          exact ⟨.declaration _ name params, rfl, rfl⟩
  | delete id =>
      cases hf : t.builder.module.function? id with
      | none =>
          simp only [Construction.perform, Builder.run_delete?_missing hf]
          exact h
      | some f =>
          obtain ⟨note, hrun⟩ := Builder.run_delete? hf
          simp only [Construction.perform, hrun]
          have hdrop := recorded_dropFirst h id
          rw [← Module.id_of_function? hf] at hdrop ⊢
          exact hdrop
  | moveTo func block => exact h
  | clearCursor => exact h
  | build c => exact h.advance (c.outcome t.builder).advances
  | simplify s func => exact h.advance (advances_simplify _ func s)

theorem recorded_after
    (operations : List Operation) :
    (after operations).Recorded := by
  induction operations using List.reverseRecOn with
  | nil => exact .nil
  | append_singleton operations operation ih =>
      have hstep : after (operations ++ [operation]) =
          (after operations).perform operation := by
        simp [after]
      rw [hstep]
      exact ih.perform operation

/-- The record of a function that becomes another one. -/
theorem issuedBy?_advance
    (h : t.Recorded)
    {func : FuncId}
    {f g : Function}
    (hf : t.builder.module.function? func = some f)
    (hid : g.id = func)
    {b : Builder}
    (hb : b.module = t.builder.module.mapFunction func fun _ => g) :
    ∃ i, t.issuedBy? func = some i ∧ (t.advance b).issuedBy? func = some (i.more f g) := by
  simp only [Recorded, issuedBy?, Construction.advance, Construction.functions,
    Module.function?, hb,
    Module.mapFunction] at h hf ⊢
  generalize t.issued = records at h ⊢
  generalize t.builder.module.functions = functions at h hf ⊢
  induction h with
  | nil => cases hf
  | cons hrecord hrest ih =>
      rename_i f' i functions records
      by_cases hfunc : f'.id = func
      · obtain rfl : f' = f := by simpa [hfunc] using hf
        exact ⟨i, by simp [hfunc], by simp [Module.changeFirst, List.zipWith3, hfunc, hid]⟩
      · obtain ⟨j, hbefore, hafter⟩ := ih (by simpa [hfunc] using hf)
        exact ⟨j, by simpa [hfunc] using hbefore, by simpa [Module.changeFirst,
          List.zipWith3, hfunc] using hafter⟩

end Construction

/-! ## What a caller can rely on -/

/-- A function and the names that it has issued are in order. -/
structure Function.InOrder (f : Function) (i : Issued) : Prop where
  numbered : f.Numbered
  phisFirst : f.PhisFirst
  /-- No name is issued twice, even if what bore it is gone. -/
  blocks_once : i.blocks.Nodup
  values_once : i.values.Nodup
  blocks_issued : ∀ id ∈ f.blockIds, id ∈ i.blocks
  values_issued : ∀ v ∈ f.results, v ∈ i.values

/-- What a call does that builds. -/
structure Construction.Careful (t : Construction) (c : BuildCall) : Prop where
  /-- A call that fails leaves all as it was, except that the number of a value
  may be used up. -/
  failed : ∀ e, (c.run.run.run t.builder).1 = .error e → ∃ functions,
    (c.run.run.run t.builder).2 =
      { t.builder with module := { t.builder.module with functions := functions } } ∧
      List.Forall₂ Function.SameBody t.functions functions
  keepsTerminated : List.Forall₂ Function.KeepsTerminated t.functions
    (c.run.run.run t.builder).2.module.functions
  /-- A name that is answered is among those that are issued. -/
  block_issued : ∀ id, (c.run.run.run t.builder).1 = .ok (.block id) → ∃ func i i' new,
    c.func? t.builder = some func ∧ t.issuedBy? func = some i ∧
      (t.perform (.build c)).issuedBy? func = some i' ∧
      i'.blocks = i.blocks ++ new ∧ id ∈ new
  value_issued : ∀ o, (c.run.run.run t.builder).1 = .ok (.value o) → ∃ func i i' new v,
    c.func? t.builder = some func ∧ t.issuedBy? func = some i ∧
      (t.perform (.build c)).issuedBy? func = some i' ∧
      i'.values = i.values ++ new ∧ o = .result v ∧ v ∈ new

theorem Function.Records.inOrder
    {f : Function}
    {i : Issued}
    (h : f.Records i)
    (hblocks : i.blocks.length < UInt32.size)
    (hvalues : i.values.length < UInt32.size) :
    f.InOrder i := by
  rw [h.blocks_eq, List.length_map, List.length_range] at hblocks
  rw [h.values_eq, List.length_map, List.length_range] at hvalues
  have hn := h.sound.numbered hblocks hvalues
  refine ⟨hn, h.sound.phisFirst, ?_, ?_, fun id hid => ?_, fun v hv => ?_⟩
  · rw [h.blocks_eq]
    refine List.Nodup.map_on (fun m hm n hn heq => ?_) List.nodup_range
    have hnumber := congrArg BlockId.number heq
    rwa [BlockId.number_ofCount ((List.mem_range.1 hm).trans hblocks),
      BlockId.number_ofCount ((List.mem_range.1 hn).trans hblocks)] at hnumber
  · rw [h.values_eq]
    refine List.Nodup.map_on (fun m hm n hn heq => ?_) List.nodup_range
    have hnumber := congrArg ValueId.number heq
    rwa [ValueId.number_ofCount ((List.mem_range.1 hm).trans hvalues),
      ValueId.number_ofCount ((List.mem_range.1 hn).trans hvalues)] at hnumber
  · have hlt := hn.ids_below id hid
    rw [h.blocks_eq]
    exact List.mem_map.2 ⟨id.number, List.mem_range.2 hlt,
      BlockId.eq_of_number (BlockId.number_ofCount (hlt.trans hblocks))⟩
  · have hlt := hn.results_below v hv
    rw [h.values_eq]
    exact List.mem_map.2 ⟨v.number, List.mem_range.2 hlt,
      ValueId.eq_of_number (ValueId.number_ofCount (hlt.trans hvalues))⟩

theorem Construction.Recorded.careful
    {t : Construction}
    (h : t.Recorded)
    (hids : ∀ f ∈ t.functions, f.blockIds.Nodup)
    (c : BuildCall) :
    t.Careful c := by
  have houtcome := c.outcome t.builder
  refine ⟨fun e he => houtcome.failed he, houtcome.keepsTerminated hids, fun id hok =>
    ?_, fun o hok => ?_⟩
  · generalize hresult : c.run.run.run t.builder = result at houtcome hok
    cases houtcome with
    | @appended func f hfunc hf label text =>
        cases hok
        have hid : (f.appendBlock label).id = func :=
          (rfl : _ = f.id).trans (Module.id_of_function? hf)
        obtain ⟨i, hbefore, hafter⟩ :=
          issuedBy?_advance h hf hid (congrArg (·.2.module) hresult)
        refine ⟨func, i, _, _, hfunc, hbefore, hafter, rfl, List.mem_map_of_mem ?_⟩
        simp [Function.appendBlock]
    | refused e => cases hok
    | wasted _ _ e => cases hok
    | pushed _ _ _ _ => cases hok
    | closed _ _ _ => cases hok
  · generalize hresult : c.run.run.run t.builder = result at houtcome hok
    cases houtcome with
    | @pushed func f g n hfunc hf hfills hissued =>
        cases hok
        have hid : g.id = func :=
          (Function.id_of_fills hfills).trans (Module.id_of_function? hf)
        obtain ⟨i, hbefore, hafter⟩ :=
          issuedBy?_advance h hf hid (congrArg (·.2.module) hresult)
        refine ⟨func, i, _, _, _, hfunc, hbefore, hafter, rfl, rfl, List.mem_map_of_mem ?_⟩
        rw [List.mem_range'_1]
        omega
    | refused e => cases hok
    | wasted _ _ e => cases hok
    | appended _ _ _ _ => cases hok
    | closed _ _ _ => cases hok

/--
A function and its record after any operations, and what the next call does that builds.
-/
theorem construction_sound
    (operations : List Operation)
    (hsmall : ∀ i ∈ (Construction.after operations).issued,
      i.blocks.length < UInt32.size ∧ i.values.length < UInt32.size) :
    List.Forall₂ Function.InOrder (Construction.after operations).functions
      (Construction.after operations).issued ∧
      ∀ c : BuildCall, (Construction.after operations).Careful c := by
  have hrecorded := Construction.recorded_after operations
  have horder : List.Forall₂ Function.InOrder (Construction.after operations).functions
      (Construction.after operations).issued := by
    obtain ⟨hlength, hrecords⟩ := List.forall₂_iff_zip.1 hrecorded
    refine List.forall₂_iff_zip.2 ⟨hlength, fun {f i} hmem => ?_⟩
    obtain ⟨hblocks, hvalues⟩ := hsmall i (List.of_mem_zip hmem).2
    exact (hrecords hmem).inOrder hblocks hvalues
  have hids :=
    ((List.forall₂_and_left _ _).1 (horder.imp fun f i h => ⟨h.numbered.ids_nodup, h⟩)).1
  exact ⟨horder, hrecorded.careful hids⟩

/--
A function gets a block whose branch is known, a value that fails to go into it, and another
block; then it is simplified twice.
-/
def simplifiedEarly : List Operation :=
  [.declare "f" ["x"], .build (.appendBlock (.ofCount 0) "entry"),
    .moveTo (.ofCount 0) (.ofCount 0),
    .build (.lessThan (.arg 0) (.const 1.0)), .build (.phi .double []),
    .build (.branch (.bool true) (.ofCount 1) (.ofCount 2)),
    .build (.arith .add (.arg 0) (.arg 0)),
    .build (.appendBlock (.ofCount 0) "then"), .simplify .branches (.ofCount 0),
    .simplify .unused (.ofCount 0),
    .build (.appendBlock (.ofCount 0) "late"), .moveTo (.ofCount 7) (.ofCount 7),
      .build (.ret (.const 0.0))]

theorem simplifiedEarly_sound :
    (Construction.after simplifiedEarly).issued.map (fun i =>
      (i.blocks.length, i.values.length)) = [(3, 4)] ∧
      List.Forall₂ Function.InOrder (Construction.after simplifiedEarly).functions
        (Construction.after simplifiedEarly).issued ∧
      ∀ c : BuildCall, (Construction.after simplifiedEarly).Careful c := by
  have hissued : (Construction.after simplifiedEarly).issued.map (fun i =>
    (i.blocks.length, i.values.length)) =
      [(3, 4)] := by decide +kernel
  refine ⟨hissued, construction_sound simplifiedEarly fun i hi => ?_⟩
  have hmem :=
    List.mem_map_of_mem (f := fun i : Issued => (i.blocks.length, i.values.length)) hi
  rw [hissued, List.mem_singleton, Prod.mk.injEq] at hmem
  rw [hmem.1, hmem.2]
  decide

end ScalarSsa
