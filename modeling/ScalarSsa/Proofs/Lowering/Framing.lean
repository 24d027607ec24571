import ScalarSsa.Proofs.Lowering.Steps

/-!
# What lowering leaves alone

**Input.** A site in whose block an expression is lowered, with success or without.

**Definitions.** `Site.Frames` says what a later site has kept: old blocks stay in
their places and new ones come behind them; only the block at the cursor may have
got more, at its end.

**Results.** Each operation on a site keeps the frame of the site that the work started
from, if it works in that site's block or in a new one.  `framed_lowerExpr`: wherever a
lowering stops, the frame is kept.
-/

namespace ScalarSsa

/--
A block that may have got more instructions and a terminator if it is the named one, and is
the same otherwise.
-/
structure Block.Kept (origin : BlockId) (b b' : Block) : Prop where
  id_eq : b'.id = b.id
  label_eq : b'.label = b.label
  instrs : b.instrs <+: b'.instrs
  same : b.id ≠ origin → b' = b

namespace Function

/-- The names of the blocks that were issued between two versions of a function. -/
def issued (f g : Function) : List BlockId :=
  (List.range' f.nextBlock (g.nextBlock - f.nextBlock)).map .ofCount

variable {f g k : Function}

theorem mem_issued_iff
    {id : BlockId} :
    id ∈ f.issued g ↔ ∃ n, f.nextBlock ≤ n ∧ n < g.nextBlock ∧ .ofCount n = id := by
  simp only [issued, List.mem_map, List.mem_range'_1]
  refine exists_congr fun n => ?_
  constructor
  · rintro ⟨⟨hle, hlt⟩, hid⟩
    exact ⟨hle, by omega, hid⟩
  · rintro ⟨hle, hlt, hid⟩
    exact ⟨⟨hle, by omega⟩, hid⟩

theorem mem_issued_of_le
    (hle : g.nextBlock ≤ k.nextBlock)
    {id : BlockId}
    (h : id ∈ f.issued g) :
    id ∈ f.issued k := by
  obtain ⟨n, hfn, hng, hn⟩ := mem_issued_iff.1 h
  exact mem_issued_iff.2 ⟨n, hfn, Nat.lt_of_lt_of_le hng hle, hn⟩

theorem issued_append
    (hfg : f.nextBlock ≤ g.nextBlock)
    (hgk : g.nextBlock ≤ k.nextBlock) :
    f.issued g ++ g.issued k = f.issued k := by
  have hmid : g.nextBlock = f.nextBlock + (g.nextBlock - f.nextBlock) := by omega
  have hsum : g.nextBlock - f.nextBlock + (k.nextBlock - g.nextBlock) =
      k.nextBlock - f.nextBlock := by omega
  unfold issued
  rw [← List.map_append, ← hsum, ← List.range'_append_1, ← hmid]

theorem issued_self :
    f.issued f = [] := by
  simp [issued]

/--
Names that were issued are the numbers from the one count to the other, unless
the numbers run out.
-/
theorem number_of_mem_issued
    (hbound : g.nextBlock ≤ UInt32.size)
    {id : BlockId}
    (h : id ∈ f.issued g) :
    f.nextBlock ≤ id.number ∧ id.number < g.nextBlock := by
  obtain ⟨n, hle, hlt, rfl⟩ := mem_issued_iff.1 h
  rw [BlockId.number_ofCount (by omega)]
  exact ⟨hle, hlt⟩

end Function

namespace Site

/-! ## Frames -/

/--
The later site has kept what it found, but for what was put in at the end of the
earlier site's block.
-/
structure Frames (s t : Site) : Prop where
  header_eq : t.func.header = s.func.header
  nextBlock_le : s.func.nextBlock ≤ t.func.nextBlock
  blockIds_eq : t.func.blockIds = s.func.blockIds ++ s.func.issued t.func
  place : t.block = s.block ∨ t.block ∈ s.func.issued t.func
  kept : (∀ id ∈ s.func.blockIds, id.number < s.func.nextBlock) →
    t.func.nextBlock ≤ UInt32.size →
    ∀ (place : Nat) (b : Block), s.func.blocks[place]? = some b →
      ∃ b', t.func.blocks[place]? = some b' ∧ b.Kept s.block b'

namespace Frames

variable {s t u : Site}

theorem refl
    (s : Site) :
    s.Frames s where
  header_eq := rfl
  nextBlock_le := Nat.le_refl _
  blockIds_eq := by rw [Function.issued_self, List.append_nil]
  place := .inl rfl
  kept _ _ _ b hb := ⟨b, hb, rfl, rfl, List.prefix_rfl, fun _ => rfl⟩

theorem below
    (h : s.Frames t)
    (hbelow : ∀ id ∈ s.func.blockIds, id.number < s.func.nextBlock)
    (hbound : t.func.nextBlock ≤ UInt32.size) :
    ∀ id ∈ t.func.blockIds, id.number < t.func.nextBlock := by
  intro id hid
  rw [h.blockIds_eq, List.mem_append] at hid
  rcases hid with hid | hid
  · exact Nat.lt_of_lt_of_le (hbelow id hid) h.nextBlock_le
  · exact (Function.number_of_mem_issued hbound hid).2

/-- No old block but the one at the cursor is worked at. -/
theorem ne_block
    (h : s.Frames t)
    (hbound : t.func.nextBlock ≤ UInt32.size)
    {id : BlockId}
    (hold : id.number < s.func.nextBlock)
    (hne : id ≠ s.block) :
    id ≠ t.block := by
  rintro rfl
  have hnew := (Function.number_of_mem_issued hbound (h.place.resolve_left hne)).1
  omega

theorem trans
    (h : s.Frames t)
    (h' : t.Frames u) :
    s.Frames u where
  header_eq := h'.header_eq.trans h.header_eq
  nextBlock_le := Nat.le_trans h.nextBlock_le h'.nextBlock_le
  blockIds_eq := by
    rw [h'.blockIds_eq, h.blockIds_eq, List.append_assoc,
      Function.issued_append h.nextBlock_le h'.nextBlock_le]
  place := by
    rcases h'.place with hplace | hplace
    · rw [hplace]
      exact h.place.imp_right (Function.mem_issued_of_le h'.nextBlock_le)
    · refine .inr ?_
      rw [← Function.issued_append h.nextBlock_le h'.nextBlock_le]
      exact List.mem_append_right _ hplace
  kept hbelow hbound place b hb := by
    have hbound' := Nat.le_trans h'.nextBlock_le hbound
    have hold := hbelow b.id (List.mem_map_of_mem (List.mem_of_getElem? hb))
    obtain ⟨b', hb', hkept⟩ := h.kept hbelow hbound' place b hb
    obtain ⟨b'', hb'', hkept'⟩ := h'.kept (h.below hbelow hbound') hbound place b' hb'
    refine ⟨b'', hb'', hkept'.id_eq.trans hkept.id_eq, hkept'.label_eq.trans hkept.label_eq,
      hkept.instrs.trans hkept'.instrs, fun hne => ?_⟩
    have hsame := hkept.same hne
    subst hsame
    exact hkept'.same (h.ne_block hbound' hold hne)

/-- The site may go on in its first block and in every new one. -/
theorem moveTo
    (h : s.Frames t)
    {id : BlockId}
    (hid : id = s.block ∨ id ∈ s.func.issued t.func) :
    s.Frames (t.moveTo id) :=
  ⟨h.header_eq, h.nextBlock_le, h.blockIds_eq, hid, h.kept⟩

theorem issueValue
    (h : s.Frames t) :
    s.Frames ⟨t.func.issueValue, t.block⟩ :=
  ⟨h.header_eq, h.nextBlock_le, h.blockIds_eq, h.place, h.kept⟩

theorem appendBlock
    (h : s.Frames t)
    (label : String) :
    s.Frames ⟨t.func.appendBlock label, t.block⟩ := by
  have hone : t.func.issued (t.func.appendBlock label) = [.ofCount t.func.nextBlock] := by
    simp [Function.issued, Function.appendBlock]
  have hcount : t.func.nextBlock ≤ (t.func.appendBlock label).nextBlock := Nat.le_succ _
  have hissued := Function.issued_append h.nextBlock_le hcount
  rw [hone] at hissued
  refine ⟨h.header_eq, Nat.le_succ_of_le h.nextBlock_le, ?_, ?_,
    fun hbelow hbound place b hb => ?_⟩
  · rw [Function.blockIds_appendBlock, h.blockIds_eq, List.append_assoc, hissued]
  · rw [← hissued]
    exact h.place.imp_right (List.mem_append_left _)
  · obtain ⟨b', hb', hkept⟩ := h.kept hbelow (Nat.le_of_succ_le hbound) place b hb
    refine ⟨b', ?_, hkept⟩
    change (t.func.blocks ++ _)[place]? = some b'
    rw [List.getElem?_append_left (List.getElem?_eq_some_iff.1 hb').1, hb']

/-- The block at the cursor may be changed at its end, and in any way if it is new. -/
theorem edit
    (h : s.Frames t)
    {change : Block → Block}
    (hid : ∀ b, (change b).id = b.id)
    (hchange : (∀ b, (change b).label = b.label ∧ b.instrs <+: (change b).instrs) ∨
      t.block ∈ s.func.issued t.func) :
    s.Frames ⟨t.func.mapBlock t.block change, t.block⟩ := by
  refine ⟨h.header_eq, h.nextBlock_le, ?_, h.place, fun hbelow hbound place b hb => ?_⟩
  · rw [Function.blockIds_mapBlock hid, h.blockIds_eq]
    rfl
  · have hold := hbelow b.id (List.mem_map_of_mem (List.mem_of_getElem? hb))
    obtain ⟨b', hb', hkept⟩ := h.kept hbelow hbound place b hb
    refine ⟨if b'.id = t.block then change b' else b', ?_, ?_⟩
    · change (t.func.blocks.map _)[place]? = _
      rw [List.getElem?_map, hb', Option.map_some]
    · by_cases hblock : b'.id = t.block
      · rw [if_pos hblock]
        have hcursor : b.id = s.block := by
          by_contra hne
          exact h.ne_block hbound hold hne (hkept.id_eq.symm.trans hblock)
        have hend := hchange.resolve_right fun hnew => by
          have hnumber := (Function.number_of_mem_issued hbound hnew).1
          rw [← hblock, hkept.id_eq] at hnumber
          omega
        exact ⟨(hid b').trans hkept.id_eq, (hend b').1.trans hkept.label_eq,
          hkept.instrs.trans (hend b').2,
          fun hne => absurd hcursor hne⟩
      · rwa [if_neg hblock]

theorem push
    (h : s.Frames t)
    {kind : InstrKind}
    (hkind : kind.isPhi = false ∨ t.block ∈ s.func.issued t.func) :
    s.Frames (t.push kind) := by
  refine h.issueValue.edit (Block.id_insert _) (hkind.imp_left fun hplain b => ?_)
  simp [Block.insert, hplain]

theorem close
    (h : s.Frames t)
    (term : Terminator) :
    s.Frames (t.close term) :=
  h.edit (fun _ => rfl) (.inl fun _ => ⟨rfl, List.prefix_rfl⟩)

/-! ## Conditionals -/

theorem fresh_mem_issued
    {f : Function}
    {offset : Nat}
    (h : s.func.nextBlock + offset < f.nextBlock) :
    s.fresh offset ∈ s.func.issued f :=
  Function.mem_issued_iff.2 ⟨_, Nat.le_add_right _ _, h, rfl⟩

theorem fork
    (s : Site)
    (x : Operand) :
    s.Frames (s.fork x) := by
  have htest : s.Frames (s.push (.compare .one x (.const 0.0))) := (refl s).push (.inl rfl)
  have hblocks := ((htest.appendBlock "then").appendBlock "else").appendBlock "ifcont"
  have hcount : s.func.nextBlock + 0 < (s.fork x).func.nextBlock :=
    Nat.lt_add_of_pos_right (Nat.succ_pos 2)
  exact hblocks.moveTo (.inr (fresh_mem_issued hcount))

end Frames

/-- A conditional forked at a site, whose branches ended at two others. -/
structure Forked (s u v : Site) : Prop where
  thenFrames : s.Frames u
  elseFrames : s.Frames v
  thenLe : s.func.nextBlock + 3 ≤ u.func.nextBlock
  elseLe : u.func.nextBlock ≤ v.func.nextBlock

namespace Forked

variable {s u v : Site}

/-- The second branch may start where the first one ended. -/
theorem frames_else
    (hthen : s.Frames u)
    (hle : s.func.nextBlock + 3 ≤ u.func.nextBlock) :
    s.Frames (u.moveTo (s.fresh 1)) :=
  hthen.moveTo (.inr (Frames.fresh_mem_issued (by omega)))

theorem of_branches
    {x : Operand}
    (hthen : (s.fork x).Frames u)
    (helse : (u.moveTo (s.fresh 1)).Frames v) :
    Forked s u v := by
  have hle : s.func.nextBlock + 3 ≤ u.func.nextBlock := hthen.nextBlock_le
  have hu := (Frames.fork s x).trans hthen
  exact ⟨hu, (frames_else hu hle).trans helse, hle, helse.nextBlock_le⟩

variable (h : Forked s u v)

include h

theorem merge_mem :
    s.fresh 2 ∈ s.func.issued v.func :=
  Frames.fresh_mem_issued (Nat.lt_of_lt_of_le h.thenLe h.elseLe)

theorem thenPlace :
    u.block = s.block ∨ u.block ∈ s.func.issued v.func :=
  h.thenFrames.place.imp_right (Function.mem_issued_of_le h.elseLe)

theorem frames_phi
    (y z : Operand) :
    s.Frames ((v.moveTo (s.fresh 2)).push (.phi .double [(y, u.block), (z, v.block)])) :=
  (h.elseFrames.moveTo (.inr h.merge_mem)).push (.inr h.merge_mem)

theorem frames_join
    (y z : Operand) :
    s.Frames (s.join u v y z) := by
  have hthen := ((h.frames_phi y z).moveTo h.thenPlace).close (.jump (s.fresh 2))
  have helse := (hthen.moveTo h.elseFrames.place).close (.jump (s.fresh 2))
  have hstart :=
    (helse.moveTo (.inl rfl)).close (.branch (.result s.next) (s.fresh 0) (s.fresh 1))
  exact hstart.moveTo (.inr h.merge_mem)

end Forked

end Site

/-! ## Emission -/

/-- What was emitted at a site has kept the frame of the site. -/
theorem Emits.frames
    {m : Module}
    {scope : Scope}
    {es : List Expr}
    {s t : Site}
    {os : List Operand}
    (h : Emits m scope es s os t) :
    s.Frames t := by
  induction h with
  | nil => exact .refl _
  | cons _ _ ihhead ihtail => exact ihhead.trans ihtail
  | number => exact .refl _
  | var _ => exact .refl _
  | arith _ _ _ ihlhs ihrhs => exact (ihlhs.trans ihrhs).push (.inl rfl)
  | less _ _ ihlhs ihrhs => exact ((ihlhs.trans ihrhs).push (.inl rfl)).push (.inl rfl)
  | call _ _ _ _ ihargs => exact ihargs.push (.inl rfl)
  | cond _ _ _ ihtest ihthen ihelse =>
      exact ihtest.trans ((Site.Forked.of_branches ihthen ihelse).frames_join _ _)

/-! ## Builders and contexts -/

namespace Builder

variable {b : Builder} {s t : Site} {notes : Journal} {g : Function}

/-- The builder is at a site that has kept a frame. -/
def Framed (b : Builder) (s : Site) (b' : Builder) : Prop :=
  ∃ t events, s.Frames t ∧ b' = b.atSite t events

theorem framed_push
    (h : b.Declares t g)
    (hframes : s.Frames t)
    {kind : InstrKind}
    (hkind : kind.isPhi = false ∨ t.block ∈ s.func.issued t.func) :
    Leaves (push kind) (b.atSite t notes) (b.Framed s) := by
  have hissue : (b.atSite t notes).mapFunction t.func.id Function.issueValue =
      b.atSite ⟨t.func.issueValue, t.block⟩ notes :=
        mapFunction_atSite Function.issueValue rfl
  unfold Leaves
  rw [run_push rfl (function?_atSite h)]
  cases t.func.openError? t.block with
  | some e => exact ⟨_, notes, hframes.issueValue, hissue⟩
  | none =>
      refine ⟨_, notes, hframes.push hkind, ?_⟩
      simp only [hissue]
      exact mapFunction_atSite (s := ⟨t.func.issueValue, t.block⟩) _ rfl

theorem framed_terminate
    (h : b.Declares t g)
    (hframes : s.Frames t)
    (term : Terminator) :
    Leaves (terminate term) (b.atSite t notes) (b.Framed s) := by
  unfold Leaves
  rw [run_terminate rfl (function?_atSite h)]
  cases t.func.openError? t.block with
  | some e => exact ⟨t, notes, hframes, rfl⟩
  | none => exact ⟨_, notes, hframes.close term, mapFunction_atSite _ rfl⟩

theorem framed_appendBlock
    (h : b.Declares t g)
    (hframes : s.Frames t)
    (label : String) :
    Leaves (appendBlock t.func.id label) (b.atSite t notes) (b.Framed s) := by
  obtain ⟨text, hrun⟩ := run_appendBlock (function?_atSite h) label
  unfold Leaves
  rw [hrun, mapFunction_atSite (fun f => f.appendBlock label) rfl]
  exact ⟨_, .note ⟨.trace, .builder, text⟩ :: notes, hframes.appendBlock label, rfl⟩

theorem framed_lessThan
    (h : b.Declares t g)
    (hframes : s.Frames t)
    (x y : Operand) :
    Leaves (lessThan x y) (b.atSite t notes) (b.Framed s) := by
  refine (framed_push h hframes (.inl rfl)).bind_ensures (ensures_push h _) ?_
  rintro _ _ ⟨rfl, rfl⟩
  exact framed_push (t := t.push (.compare .ult x y)) (h.of_header rfl)
    (hframes.push (.inl rfl)) (.inl rfl)

theorem framed_call
    (h : b.Declares t g)
    (hframes : s.Frames t)
    (callee : FuncId)
    (args : List Operand) :
    Leaves (call callee args) (b.atSite t notes) (b.Framed s) := by
  refine .get_bind ?_
  cases (b.atSite t notes).module.function? callee with
  | none => exact ⟨t, notes, hframes, rfl⟩
  | some f => exact framed_push h hframes (.inl rfl)

end Builder

/-- The context is at a site that has kept a frame. -/
def Context.Framed (c : Context) (s : Site) (d : Context) : Prop :=
  ∃ t events, s.Frames t ∧ d = c.atSite t events

theorem Context.Framed.of_frames
    {c d : Context}
    {s t : Site}
    (h : s.Frames t)
    (hd : c.Framed t d) :
    c.Framed s d := by
  obtain ⟨u, events, hu, rfl⟩ := hd
  exact ⟨u, events, h.trans hu, rfl⟩

namespace Lowering

variable {α : Type} {c : Context} {s t : Site} {notes : Journal} {g : Function}

theorem framed_fail
    (h : s.Frames t)
    (e : LowerError) :
    Leaves (fail e : Lowering α) (c.atSite t notes) (c.Framed s) :=
  ⟨t, .report e.report :: notes, h, rfl⟩

theorem framed_build
    {op : Build α}
    (h : Leaves op (c.builder.atSite t notes) (c.builder.Framed s)) :
    Leaves (build op) (c.atSite t notes) (c.Framed s) := by
  unfold Leaves at h ⊢
  rcases hop : op.run.run (c.builder.atSite t notes) with ⟨e | a, b⟩
  · rw [hop] at h
    obtain ⟨u, events, hu, rfl⟩ := h
    rw [run_build_error (c := c.atSite t notes) hop]
    exact ⟨u, .report (LowerError.report (.insertPoint e)) :: events, hu, rfl⟩
  · rw [hop] at h
    obtain ⟨u, events, hu, rfl⟩ := h
    rw [run_build_ok (c := c.atSite t notes) hop]
    exact ⟨u, events, hu, rfl⟩

theorem framed_insertionPoint
    (h : s.Frames t) :
    Leaves insertionPoint (c.atSite t notes) (c.Framed s) :=
  ⟨t, notes, h, rfl⟩

theorem framed_here
    (h : s.Frames t)
    (o : Operand) :
    Leaves (here o) (c.atSite t notes) (c.Framed s) :=
  ⟨t, notes, h, rfl⟩

theorem framed_built
    {op : Build Operand}
    (h : Leaves op (c.builder.atSite t notes) (c.builder.Framed s)) :
    Leaves (do here (← build op)) (c.atSite t notes) (c.Framed s) := by
  refine (framed_build h).bind ?_
  rintro o _ ⟨u, events, hu, rfl⟩
  exact framed_here hu o

theorem framed_named
    (h : s.Frames t)
    (name : String) :
    Leaves (named name) (c.atSite t notes) (c.Framed s) := by
  refine .get_bind ?_
  cases (c.atSite t notes).scope.find? name with
  | none => exact framed_fail h _
  | some o => exact framed_here h o

theorem framed_operation
    (hdeclares : c.builder.Declares t g)
    (h : s.Frames t)
    (op : Char)
    (x y : Operand) :
    Leaves (operation op x y) (c.atSite t notes) (c.Framed s) := by
  have harith : ∀ a,
      Leaves (do here (← build (Builder.arith a x y))) (c.atSite t notes) (c.Framed s) :=
    fun a => framed_built (Builder.framed_push hdeclares h (.inl rfl))
  unfold operation
  split
  · exact harith .add
  · split
    · exact harith .sub
    · split
      · exact harith .mul
      · split
        · exact framed_built (Builder.framed_lessThan hdeclares h x y)
        · exact framed_fail h _

theorem framed_callee
    (h : s.Frames t)
    (name : String)
    (given : Nat) :
    Leaves (callee name given) (c.atSite t notes) (c.Framed s) := by
  refine .get_bind ?_
  simp only
  cases (c.atSite t notes).module.find? name with
  | none => exact framed_fail h _
  | some id =>
      simp only
      split
      · exact ⟨t, notes, h, rfl⟩
      · exact framed_fail h _

/-! ## Conditionals -/

/-- What lowering at a site leaves, with success or without. -/
def Stays (c : Context) (x : Lowering α) (s : Site) : Prop :=
  ∀ notes, Journal.Quiet notes → Leaves x (c.atSite s notes) (c.Framed s)

/-- A branch that keeps the frame binds nothing, so that nothing is put back after it. -/
theorem Stays.restoring
    {branch : Lowering α}
    (h : Stays c branch s)
    {notes : Journal}
    (hnotes : notes.Quiet) :
    Leaves (restoring c.scope branch) (c.atSite s notes) (c.Framed s) := by
  obtain ⟨t, events, hframes, ht⟩ := h notes hnotes
  refine ⟨t, events, hframes, ?_⟩
  rw [run_restoring, ht]
  rfl

theorem framed_moveTo
    {id : FuncId}
    {block : BlockId}
    {next : Unit → Lowering α}
    {Q : Context → Prop}
    (hid : t.func.id = id)
    (hnext : Leaves (next ()) (c.atSite (t.moveTo block) notes) Q) :
    Leaves (liftM (moveTo id block) >>= next) (c.atSite t notes) Q := by
  subst hid
  exact .lift_bind rfl hnext

section Conditional

variable (hdeclares : c.builder.Declares s g)

include hdeclares

theorem framed_append
    {label : String}
    {next : BlockId → Lowering α}
    (h : s.Frames t)
    (hnext : ∀ note, Leaves (next (t.fresh 0))
      (c.atSite ⟨t.func.appendBlock label, t.block⟩ (.note note :: notes)) (c.Framed s)) :
    Leaves (build (Builder.appendBlock s.func.id label) >>= next) (c.atSite t notes)
      (c.Framed s) := by
  have hid : t.func.id = s.func.id := congrArg (fun header => header.1) h.header_eq
  have hop : Leaves _ (c.builder.atSite t notes) (c.builder.Framed s) :=
    Builder.framed_appendBlock (hdeclares.of_header h.header_eq) h label
  rw [hid] at hop
  refine (framed_build hop).bind_ensures
    (ensures_append hdeclares t label notes h.header_eq) ?_
  rintro _ _ ⟨rfl, note, rfl⟩
  exact hnext note

theorem framed_close
    {term : Terminator}
    {next : Unit → Lowering α}
    (h : s.Frames t)
    (hnext : Leaves (next ()) (c.atSite (t.close term) notes) (c.Framed s)) :
    Leaves (build (Builder.terminate term) >>= next) (c.atSite t notes) (c.Framed s) := by
  refine (framed_build
    (Builder.framed_terminate (hdeclares.of_header h.header_eq) h term)).bind_ensures
    (ensures_close hdeclares t term notes h.header_eq) ?_
  rintro _ _ rfl
  exact hnext

/-- The frame is kept while the branches of a conditional are joined. -/
theorem framed_join
    {u v : Site}
    (h : Site.Forked s u v)
    (y z : Operand)
    (note : Note) :
    Leaves (do
      moveTo s.func.id (s.fresh 2)
      let value ← build (Builder.phi .double [(y, u.block), (z, v.block)])
      moveTo s.func.id u.block
      build (Builder.jump (s.fresh 2))
      moveTo s.func.id v.block
      build (Builder.jump (s.fresh 2))
      moveTo s.func.id s.block
      build (Builder.branch (.result s.next) (s.fresh 0) (s.fresh 1))
      moveTo s.func.id (s.fresh 2)
      record (.note note)
      return ⟨value, s.fresh 2⟩ : Lowering Lowered) (c.atSite v notes) (c.Framed s) := by
  have hid : v.func.id = s.func.id :=
    congrArg (fun header => header.1) h.elseFrames.header_eq
  have hmerge : s.Frames (v.moveTo (s.fresh 2)) := h.elseFrames.moveTo (.inr h.merge_mem)
  have hdeclares' := hdeclares.of_header hmerge.header_eq
  refine framed_moveTo hid ?_
  refine (framed_build
    (Builder.framed_push hdeclares' hmerge (.inr h.merge_mem))).bind_ensures
    (ensures_build (Builder.ensures_push hdeclares' _)) ?_
  rintro _ _ ⟨_, ⟨rfl, rfl⟩, rfl⟩
  have hthen := (h.frames_phi y z).moveTo h.thenPlace
  refine framed_moveTo hid (framed_close hdeclares hthen ?_)
  have helse := (hthen.close (.jump (s.fresh 2))).moveTo h.elseFrames.place
  refine framed_moveTo hid (framed_close hdeclares helse ?_)
  have hstart := (helse.close (.jump (s.fresh 2))).moveTo (.inl rfl)
  refine framed_moveTo hid (framed_close hdeclares hstart ?_)
  refine framed_moveTo hid ?_
  exact ⟨_, .note note :: notes, h.frames_join y z, rfl⟩

/-- A conditional keeps the frame if its branches do. -/
theorem framed_conditional
    {thenBranch elseBranch : Expr}
    {x : Operand}
    (hthen : Stays c (lowerExpr thenBranch) (s.fork x))
    (helse : ∀ u : Site, u.func.header = s.func.header →
      Stays c (lowerExpr elseBranch) (u.moveTo (s.fresh 1))) :
    Stays c (conditional x (lowerExpr thenBranch) (lowerExpr elseBranch)) s := by
  intro notes hnotes
  have htest : s.Frames (s.push (.compare .one x (.const 0.0))) :=
    (Site.Frames.refl s).push (.inl rfl)
  refine (framed_build (Builder.framed_push hdeclares (.refl s) (.inl rfl))).bind_ensures
    (ensures_build (Builder.ensures_push hdeclares _)) ?_
  rintro _ _ ⟨_, ⟨rfl, rfl⟩, rfl⟩
  refine (framed_insertionPoint (s := s) htest).bind_ensures ensures_insertionPoint ?_
  rintro _ _ ⟨rfl, rfl⟩
  refine framed_append hdeclares htest fun note₁ => ?_
  have hone := htest.appendBlock "then"
  refine framed_append hdeclares hone fun note₂ => ?_
  have htwo := hone.appendBlock "else"
  refine framed_append hdeclares htwo fun note₃ => ?_
  have hnotes' := ((hnotes.cons note₁).cons note₂).cons note₃
  refine Leaves.get_bind ?_
  refine framed_moveTo rfl ?_
  -- from here on a branch keeps the frame of the site at which it starts,
  -- and so that of `s`
  have hfork := Site.Frames.fork s x
  have hemits := ensures_lowerExpr thenBranch (hdeclares.of_header hfork.header_eq)
  refine Leaves.bind_ensures (.of_frames hfork (hthen.restoring hnotes'))
    (hemits.restoring hnotes') ?_
  rintro ⟨y, _⟩ _ ⟨u, ⟨hu, notes, hnotes, rfl⟩, rfl⟩
  have hframes := hfork.trans hu.frames
  have hid : u.func.id = s.func.id := congrArg (fun header => header.1) hframes.header_eq
  have hmid := Site.Forked.frames_else hframes hu.frames.nextBlock_le
  refine framed_moveTo hid ?_
  have hemits' := ensures_lowerExpr elseBranch (hdeclares.of_header hmid.header_eq)
  refine Leaves.bind_ensures
    (.of_frames hmid ((helse u hframes.header_eq).restoring hnotes))
    (hemits'.restoring hnotes) ?_
  rintro ⟨z, _⟩ _ ⟨v, ⟨hv, notes, -, rfl⟩, rfl⟩
  exact framed_join hdeclares (.of_branches hu.frames hv.frames) y z _

end Conditional

/-! ## Expressions -/

mutual

/-- Lowering an expression keeps the frame of its site, with success or without. -/
theorem framed_lowerExpr :
    ∀ (e : Expr) {s : Site}, c.builder.Declares s g → Stays c (lowerExpr e) s
  | .number x, s, _, notes, _ => framed_here (.refl s) (.const x)
  | .var name, s, _, notes, _ => framed_named (.refl s) name
  | .binary op lhs rhs, s, h, notes, hnotes => by
      refine Leaves.bind_ensures (framed_lowerExpr lhs h notes hnotes)
        (ensures_lowerExpr lhs h notes hnotes) ?_
      rintro ⟨x, _⟩ _ ⟨t, ⟨hlhs, notes, hnotes, rfl⟩, rfl⟩
      have ht := h.of_header hlhs.header_eq
      refine Leaves.bind_ensures
        (.of_frames hlhs.frames (framed_lowerExpr rhs ht notes hnotes))
        (ensures_lowerExpr rhs ht notes hnotes) ?_
      rintro ⟨y, _⟩ _ ⟨u, ⟨hrhs, notes, hnotes, rfl⟩, rfl⟩
      exact framed_operation (ht.of_header hrhs.header_eq)
        (hlhs.frames.trans hrhs.frames) op x y
  | .call name args, s, h, notes, hnotes => by
      refine Leaves.bind_ensures (framed_callee (.refl s) name args.length)
        (ensures_callee h name args.length) ?_
      rintro id _ ⟨rfl, -, -⟩
      refine Leaves.bind_ensures (framed_lowerArgs args h notes hnotes)
        (ensures_lowerArgs args h notes hnotes) ?_
      rintro xs _ ⟨t, hargs, notes, hnotes, rfl⟩
      exact framed_built
        (Builder.framed_call (h.of_header hargs.header_eq) hargs.frames id xs)
  | .cond test thenBranch elseBranch, s, h, notes, hnotes => by
      refine Leaves.bind_ensures (framed_lowerExpr test h notes hnotes)
        (ensures_lowerExpr test h notes hnotes) ?_
      rintro ⟨x, _⟩ _ ⟨t, ⟨htest, notes, hnotes, rfl⟩, rfl⟩
      have ht := h.of_header htest.header_eq
      have hthen := framed_lowerExpr thenBranch (s := t.fork x) (ht.of_header rfl)
      have hcond := framed_conditional ht hthen fun u hu =>
        framed_lowerExpr elseBranch (ht.of_header hu)
      exact .of_frames htest.frames (hcond notes hnotes)

theorem framed_lowerArgs :
    ∀ (es : List Expr) {s : Site}, c.builder.Declares s g → Stays c (lowerArgs es) s
  | [], s, _, notes, _ => ⟨s, notes, .refl s, rfl⟩
  | e :: rest, s, h, notes, hnotes => by
      refine Leaves.bind_ensures (framed_lowerExpr e h notes hnotes)
        (ensures_lowerExpr e h notes hnotes) ?_
      rintro ⟨x, _⟩ _ ⟨t, ⟨hhead, notes, hnotes, rfl⟩, rfl⟩
      have htail := framed_lowerArgs rest (h.of_header hhead.header_eq) notes hnotes
      refine Leaves.bind (Context.Framed.of_frames hhead.frames htail) fun xs d hd => ?_
      exact hd

end

end Lowering

end ScalarSsa
