import ScalarSsa.Proofs.Flow.Diamonds
import ScalarSsa.Proofs.Lowering.Framing
import ScalarSsa.Proofs.Lowering.Scopes
import ScalarSsa.Proofs.Lowering.WellFormedBodies

/-!
# The blocks of an expression

**Input.** A context whose cursor names an open block of a function, and an expression that
is lowered there.

**Definitions.** `Function.Continues` is what the function has kept, `Function.Region` what
its new blocks look like: they can be entered from the block at the cursor only, edges apart
that were there before, and left nowhere but at the block in which the cursor ends up.

**Results.** `Emits.spans`: what is emitted at a site is a chain of diamonds, made of all
the new blocks.  `lowerExpr_frame_region`: the frame is kept with success or without, and
with success the new blocks form a region.  `forward_edge_enters_region`: a block that went
on in a block not there yet can lead into it.
-/

namespace ScalarSsa

namespace Function

variable {f g : Function}

theorem issued_nodup
    (hbound : g.nextBlock ≤ UInt32.size) :
    (f.issued g).Nodup := by
  refine List.Nodup.map_on (fun m hm n hn heq => ?_) List.nodup_range'
  rw [List.mem_range'_1] at hm hn
  have hnumber := congrArg BlockId.number heq
  rwa [BlockId.number_ofCount (by omega), BlockId.number_ofCount (by omega)] at hnumber

theorem mem_successors_iff_block?
    {id target : BlockId} :
    target ∈ f.successors id ↔ ∃ b, f.block? id = some b ∧ target ∈ b.successors := by
  unfold successors
  cases f.block? id <;> simp

end Function

namespace Site

variable {s t u v : Site} {x : Operand} {l : List BlockId}

theorem successors_push
    (s : Site)
    (kind : InstrKind) :
    (s.push kind).func.successors = s.func.successors := by
  funext id
  refine Function.successors_mapBlocks (f := s.func.issueValue) (fun b => ?_)
    (fun b => ?_) id
  · split
    · exact Block.id_insert _ b
    · rfl
  · split
    · unfold Block.insert
      split <;> rfl
    · rfl

/--
The edges of an old block are as they were, unless the block is the one at the cursor.
-/
theorem Extends.successors_eq
    (h : s.Extends t)
    {id : BlockId}
    (hlt : id.number < s.func.nextBlock)
    (hne : id ≠ s.block) :
    t.func.successors id = s.func.successors id := by
  unfold Function.successors
  cases hb : s.func.block? id with
  | none => rw [h.absent id hlt hb]
  | some b => rw [h.others id b hne hb]

/-! ## What is emitted is a chain of diamonds -/

/--
The blocks issued between two sites are a chain of diamonds from the one site's
block to the other's.
-/
def Spans (s t : Site) : Prop :=
  ∃ l, Diamonds t.func.successors s.block l t.block ∧ l.Perm (s.func.issued t.func)

theorem nodup_chain
    {g : Function}
    (hs : s.Open)
    (hbound : g.nextBlock ≤ UInt32.size)
    (hperm : l.Perm (s.func.issued g)) :
    (s.block :: l).Nodup := by
  rw [List.nodup_cons, hperm.nodup_iff, hperm.mem_iff]
  refine ⟨fun hmem => ?_, Function.issued_nodup hbound⟩
  have hnew := Function.number_of_mem_issued hbound hmem
  have hold := hs.block_lt
  omega

namespace Spans

theorem refl
    (s : Site) :
    s.Spans s :=
  ⟨[], .point, by rw [Function.issued_self]⟩

theorem push
    (h : s.Spans t)
    (kind : InstrKind) :
    s.Spans (t.push kind) := by
  obtain ⟨l, hl, hperm⟩ := h
  exact ⟨l, by rwa [successors_push], hperm⟩

theorem trans
    (hs : s.Open)
    (hst : s.Spans t)
    (hle : s.func.nextBlock ≤ t.func.nextBlock)
    (hextends : t.Extends u)
    (htu : t.Spans u)
    (hle' : t.func.nextBlock ≤ u.func.nextBlock)
    (hbound : u.func.nextBlock ≤ UInt32.size) :
    s.Spans u := by
  obtain ⟨l, hl, hperm⟩ := hst
  obtain ⟨l', hl', hperm'⟩ := htu
  have hbound' := Nat.le_trans hle' hbound
  refine ⟨l ++ l',
    (hl.congr (nodup_chain hs hbound' hperm) fun id hid hne n => ?_).trans hl', ?_⟩
  · rw [hextends.successors_eq ?_ hne]
    rcases List.mem_cons.1 hid with rfl | hid
    · exact Nat.lt_of_lt_of_le hs.block_lt hle
    · exact (Function.number_of_mem_issued hbound' (hperm.mem_iff.1 hid)).2
  · rw [← Function.issued_append hle hle']
    exact hperm.append hperm'

end Spans

namespace Diamond

variable (h : Diamond t x u v) (y z : Operand)

include h

theorem mem_successors_join_iff
    {id target : BlockId} :
    target ∈ (t.join u v y z).func.successors id ↔ target ∈ v.func.successors id ∨
      id = t.block ∧ (target = t.fresh 0 ∨ target = t.fresh 1) ∨
      (id = u.block ∨ id = v.block) ∧ target = t.fresh 2 := by
  rw [Function.mem_successors_iff_block?, Function.mem_successors_iff_block?]
  exact h.edge_join_iff y z id target

/-- The blocks that a join ends have no edges before it. -/
theorem not_mem_successors
    {id target : BlockId}
    (hid : id = t.block ∨ id = u.block ∨ id = v.block ∨ id = t.fresh 2) :
    target ∉ v.func.successors id := by
  obtain ⟨b, hb, hterm⟩ := h.open_ends hid
  simp [Function.successors, hb, Block.successors, hterm]

theorem edges_start
    (target : BlockId) :
    target ∈ (t.join u v y z).func.successors t.block ↔ target = t.fresh 0 ∨
      target = t.fresh 1 := by
  obtain ⟨htu, htv, -⟩ := h.distinct
  simp [h.mem_successors_join_iff, h.not_mem_successors (.inl rfl), htu, htv]

theorem edges_end
    {id : BlockId}
    (hid : id = u.block ∨ id = v.block)
    (target : BlockId) :
    target ∈ (t.join u v y z).func.successors id ↔ target = t.fresh 2 := by
  obtain ⟨htu, htv, -⟩ := h.distinct
  have hne : id ≠ t.block := by
    rcases hid with rfl | rfl
    · exact htu.symm
    · exact htv.symm
  simp [h.mem_successors_join_iff, h.not_mem_successors (.inr (hid.imp_right .inl)),
    hid, hne]

/-- A join changes no edges of the first branch but those of its last block. -/
theorem edges_then
    {id : BlockId}
    (hid : id = t.fresh 0 ∨ id ∈ (t.fork x).func.issued u.func)
    (hne : id ≠ u.block)
    (target : BlockId) :
    target ∈ (t.join u v y z).func.successors id ↔ target ∈ u.func.successors id := by
  have hstart := h.start.block_lt
  have helse := h.elsePlace
  have hsecond := h.number_fresh (show 1 < 3 by omega)
  have hle := h.thenLe
  have hnumber : id.number = t.func.nextBlock ∨ t.func.nextBlock + 3 ≤ id.number ∧
      id.number < u.func.nextBlock := by
    rcases hid with rfl | hid
    · exact .inl (h.number_fresh (by omega))
    · exact .inr (Function.number_of_mem_issued (Nat.le_trans h.elseLe h.bound) hid)
  have hnet : id ≠ t.block := BlockId.ne_of_number (by omega)
  have hnev : id ≠ v.block := BlockId.ne_of_number (by omega)
  have hnes : id ≠ t.fresh 1 := BlockId.ne_of_number (by omega)
  have hkeep :=
    h.elseExtends.successors_eq (show id.number < u.func.nextBlock by omega) hnes
  rw [h.mem_successors_join_iff, hkeep]
  simp [hnet, hne, hnev]

/-- A join changes no edges of the second branch but those of its last block. -/
theorem edges_else
    {id : BlockId}
    (hid : id = t.fresh 1 ∨ id ∈ u.func.issued v.func)
    (hne : id ≠ v.block)
    (target : BlockId) :
    target ∈ (t.join u v y z).func.successors id ↔ target ∈ v.func.successors id := by
  have hstart := h.start.block_lt
  have hthen := h.thenPlace
  have hle := h.thenLe
  have hnumber : id.number = t.func.nextBlock + 1 ∨ u.func.nextBlock ≤ id.number := by
    rcases hid with rfl | hid
    · exact .inl (h.number_fresh (by omega))
    · exact .inr (Function.number_of_mem_issued h.bound hid).1
  have hnet : id ≠ t.block := BlockId.ne_of_number (by omega)
  have hneu : id ≠ u.block := BlockId.ne_of_number (by omega)
  rw [h.mem_successors_join_iff]
  simp [hnet, hneu, hne]

/-- The new blocks of a conditional are its own three and those of its branches. -/
theorem perm_issued
    {l₁ l₂ : List BlockId}
    (hthen : l₁.Perm ((t.fork x).func.issued u.func))
    (helse : l₂.Perm (u.func.issued v.func)) :
    (t.fresh 0 :: l₁ ++ (t.fresh 1 :: l₂ ++ [t.fresh 2])).Perm (t.func.issued v.func) := by
  have hthree : t.func.issued (t.fork x).func = [t.fresh 0, t.fresh 1, t.fresh 2] := by
    simp [Function.issued, fresh, List.range']
  have hfork : t.func.nextBlock ≤ (t.fork x).func.nextBlock := Nat.le_add_right _ 3
  rw [← Function.issued_append (Nat.le_trans hfork h.thenLe)
    h.elseLe, ← Function.issued_append hfork h.thenLe, hthree,
    List.perm_iff_count]
  intro id
  simp only [List.count_append, List.count_cons, List.count_nil,
    hthen.count_eq, helse.count_eq]
  omega

/-- A conditional whose branches are chains of diamonds is a diamond. -/
theorem spans_join
    (hthen : (t.fork x).Spans u)
    (helse : (u.moveTo (t.fresh 1)).Spans v) :
    t.Spans (t.join u v y z) := by
  obtain ⟨l₁, hl₁, hperm₁⟩ := hthen
  obtain ⟨l₂, hl₂, hperm₂⟩ := helse
  have hopen₁ := h.start.fork h.bound_start x
  have hopen₂ := open_else h.start h.bound_start h.thenOpen h.thenExtends
  have hleft : Diamonds (t.join u v y z).func.successors (t.fresh 0) l₁ u.block := by
    refine hl₁.congr (nodup_chain hopen₁ (Nat.le_trans h.elseLe h.bound) hperm₁)
      fun id hid hne n => ?_
    exact h.edges_then y z ((List.mem_cons.1 hid).imp_right hperm₁.mem_iff.1) hne n
  have hright : Diamonds (t.join u v y z).func.successors (t.fresh 1) l₂ v.block := by
    refine hl₂.congr (nodup_chain hopen₂ h.bound hperm₂) fun id hid hne n => ?_
    exact h.edges_else y z ((List.mem_cons.1 hid).imp_right hperm₂.mem_iff.1) hne n
  exact ⟨_, .diamond .point (h.edges_start y z) hleft (h.edges_end y z (.inl rfl)) hright
    (h.edges_end y z (.inr rfl)),
    h.perm_issued hperm₁ hperm₂⟩

end Diamond

end Site

namespace Emits

variable {m : Module} {scope : Scope} {es es' : List Expr} {s t u : Site}
  {os os' : List Operand}

/-- Two chains of diamonds that are emitted one after the other. -/
theorem spans_trans
    (h : Emits m scope es s os t)
    (h' : Emits m scope es' t os' u)
    (hopen : s.Open)
    (hbound : u.func.nextBlock ≤ UInt32.size)
    (hst : t.func.nextBlock ≤ UInt32.size → s.Spans t)
    (htu : t.Open → t.Spans u) :
    s.Spans u := by
  have hbound' := Nat.le_trans h'.nextBlock_le hbound
  have hmid := (h.open_extends hopen hbound').1
  exact (hst hbound').trans hopen h.nextBlock_le (h'.open_extends hmid hbound).2
    (htu hmid) h'.nextBlock_le hbound

/-- What is emitted at a site is a chain of diamonds, made of all the new blocks. -/
theorem spans
    (h : Emits m scope es s os t)
    (hopen : s.Open)
    (hbound : t.func.nextBlock ≤ UInt32.size) :
    s.Spans t := by
  induction h with
  | nil => exact .refl _
  | cons hhead htail ihhead ihtail =>
      exact hhead.spans_trans htail hopen hbound (ihhead hopen) fun hmid =>
        ihtail hmid hbound
  | number => exact .refl _
  | var _ => exact .refl _
  | arith _ hlhs hrhs ihlhs ihrhs =>
      have hboth := hlhs.spans_trans hrhs hopen hbound (ihlhs hopen) fun hmid =>
        ihrhs hmid hbound
      exact hboth.push _
  | less hlhs hrhs ihlhs ihrhs =>
      have hboth := hlhs.spans_trans hrhs hopen hbound (ihlhs hopen) fun hmid =>
        ihrhs hmid hbound
      exact (hboth.push _).push _
  | call _ _ _ _ ihargs => exact (ihargs hopen hbound).push _
  | @cond _ _ _ _ _ _ _ x y z htest hthen helse ihtest ihthen ihelse =>
      have hthenLe := hthen.nextBlock_le
      have helseLe := helse.nextBlock_le
      rw [Site.nextBlock_fork] at hthenLe
      rw [Site.func_moveTo] at helseLe
      rw [Site.nextBlock_join] at hbound
      have hbound' := Nat.le_trans helseLe hbound
      have hfits := Nat.le_trans hthenLe hbound'
      have hstart := (htest.open_extends hopen (by omega)).1
      have hdiamond := hthen.diamond helse hstart hbound
      have hmid :=
        Site.Diamond.open_else hstart hfits hdiamond.thenOpen hdiamond.thenExtends
      have hjoin :=
        hdiamond.spans_join y z (ihthen (hstart.fork hfits x) hbound') (ihelse hmid hbound)
      exact (ihtest hopen (by omega)).trans hopen htest.nextBlock_le
        (hdiamond.extends_join y z) hjoin
        (by rw [Site.nextBlock_join]; omega) hbound

end Emits

/-! ## Regions -/

namespace Function

/--
The later version of a function has kept all blocks, but for what was put in at the end of
the named one.
-/
structure Continues (f : Function) (start : BlockId) (g : Function) : Prop where
  header_eq : g.header = f.header
  nextBlock_le : f.nextBlock ≤ g.nextBlock
  /-- New blocks come behind the old ones and bear the next names. -/
  blockIds_eq : g.blockIds = f.blockIds ++ f.issued g
  nodup : g.blockIds.Nodup
  below : ∀ id ∈ g.blockIds, id.number < g.nextBlock
  kept : ∀ (place : Nat) (b : Block), f.blocks[place]? = some b → ∃ b',
    g.blocks[place]? = some b' ∧ b.Kept start b'

/-- The blocks issued since are a region without cycles, with one way in and one way out. -/
structure Region (f : Function) (start : BlockId) (g : Function) (exit : BlockId) :
    Prop where
  exit_open : ∃ b, g.block? exit = some b ∧ b.term = none
  exit_mem : exit = start ∨ exit ∈ f.issued g
  closed : ∀ id ∈ f.issued g, id ≠ exit → ∃ b, g.block? id = some b ∧ b.term.isSome
  start_closed : ∃ b, g.block? start = some b ∧ (b.term.isSome ↔ exit ≠ start)
  reached : ∀ id ∈ f.issued g, Leads g.successors start id
  inside : ∀ path, Walk g.successors (start :: path) → path ⊆ f.issued g ∧
    (start :: path).Nodup
  ends : ∀ path last, Walk g.successors (start :: path) →
    (start :: path).getLast? = some last →
    g.successors last = [] → last = exit
  finite : ∀ p : Nat → BlockId, p 0 = start → ∃ n, p (n + 1) ∉ g.successors (p n)
  acyclic : ∀ id target, id = start ∨ id ∈ f.issued g → target ∈ g.successors id →
    ¬Leads g.successors target id
  /-- An edge into the region from elsewhere was there before, without a block to lead
  to. -/
  entry : ∀ id target, target ∈ f.issued g → target ∈ g.successors id →
    id = start ∨ id ∈ f.issued g ∨ target ∈ f.successors id

end Function

namespace Site

variable {s t : Site}

theorem Frames.continues
    (h : s.Frames t)
    (hs : s.Open)
    (hbound : t.func.nextBlock ≤ UInt32.size) :
    s.func.Continues s.block t.func := by
  refine ⟨h.header_eq, h.nextBlock_le, h.blockIds_eq, ?_, h.below hs.below hbound,
    h.kept hs.below hbound⟩
  rw [h.blockIds_eq, List.nodup_append]
  refine ⟨hs.nodup, Function.issued_nodup hbound, fun id hid id' hid' =>
    BlockId.ne_of_number ?_⟩
  have hold := hs.below id hid
  have hnew := (Function.number_of_mem_issued hbound hid').1
  omega

/-- The block at which the work started is ended exactly if the cursor has moved on. -/
theorem Extends.start_closed
    (h : s.Extends t)
    (hs : s.Open)
    (ht : t.Open) :
    ∃ b, t.func.block? s.block = some b ∧ (b.term.isSome ↔ t.block ≠ s.block) := by
  obtain ⟨b, hb, -⟩ := hs.cursor
  obtain ⟨b', -, hb', -, -, hclosed⟩ := h.cursor b hb
  refine ⟨b', hb', fun hsome heq => ?_, fun hne => hclosed.resolve_right hne⟩
  obtain ⟨last, hlast, hterm⟩ := ht.cursor
  rw [heq, hb'] at hlast
  cases hlast
  simp [hterm] at hsome

theorem Extends.new_closed
    (h : s.Extends t)
    (hframes : s.Frames t)
    (hbound : t.func.nextBlock ≤ UInt32.size)
    {id : BlockId}
    (hid : id ∈ s.func.issued t.func)
    (hne : id ≠ t.block) :
    ∃ b, t.func.block? id = some b ∧ b.term.isSome := by
  have hmem : id ∈ t.func.blockIds := by
    rw [hframes.blockIds_eq]
    exact List.mem_append_right _ hid
  cases hb : t.func.block? id with
  | none => exact absurd hmem (Function.block?_eq_none_iff.1 hb)
  | some b =>
      exact ⟨b, rfl,
        (h.closed id b hb (Function.number_of_mem_issued hbound hid).1).resolve_left hne⟩

/-- An edge of a block that the work did not touch was there before. -/
theorem Extends.edge_of_old
    (h : s.Extends t)
    (hs : s.Open)
    (hframes : s.Frames t)
    {id target : BlockId}
    (hedge : target ∈ t.func.successors id) :
    id = s.block ∨ id ∈ s.func.issued t.func ∨ target ∈ s.func.successors id := by
  obtain ⟨b, hb, hid, -⟩ := Function.exists_of_mem_successors hedge
  have hmem : id ∈ t.func.blockIds := hid ▸ List.mem_map_of_mem hb
  rw [hframes.blockIds_eq, List.mem_append] at hmem
  by_cases hstart : id = s.block
  · exact .inl hstart
  · rcases hmem with hold | hnew
    · rw [h.successors_eq (hs.below id hold) hstart] at hedge
      exact .inr (.inr hedge)
    · exact .inr (.inl hnew)

theorem Spans.region
    (h : s.Spans t)
    (hs : s.Open)
    (ht : t.Open)
    (hextends : s.Extends t)
    (hframes : s.Frames t)
    (hbound : t.func.nextBlock ≤ UInt32.size) :
    s.func.Region s.block t.func t.block := by
  obtain ⟨l, hl, hperm⟩ := h
  have hnodup := nodup_chain hs hbound hperm
  have hmem : ∀ id, id = s.block ∨ id ∈ s.func.issued t.func ↔ id ∈ s.block :: l := by
    intro id
    rw [List.mem_cons, hperm.mem_iff]
  obtain ⟨last, hlast, hterm⟩ := ht.cursor
  have hexit : t.func.successors t.block = [] := by
    simp [Function.successors, hlast, Block.successors, hterm]
  exact {
    exit_open := ⟨last, hlast, hterm⟩
    exit_mem := (hmem _).2 hl.exit_mem
    closed := fun id => hextends.new_closed hframes hbound
    start_closed := hextends.start_closed hs ht
    reached := fun id hid => hl.leads id ((hmem id).1 (.inr hid))
    inside := by
      intro path hwalk
      have hsub := hl.walk_sublist hexit hwalk
      exact ⟨fun id hid => hperm.mem_iff.1 (hsub.subset hid),
        hnodup.sublist (hsub.cons_cons _)⟩
    ends := by
      intro path id hwalk hid hnone
      have hsub := (hl.walk_sublist hexit hwalk).cons_cons s.block
      exact hl.dead_end (hsub.subset (List.mem_of_getLast? hid)) hnone
    finite := hl.walk_ends hexit
    acyclic := fun id target hid => hl.acyclic hexit hnodup ((hmem id).1 hid)
    entry := fun id target _ => hextends.edge_of_old hs hframes }

end Site

namespace Lowering

/-- Where lowering at a site stops, and what it has emitted if it succeeds. -/
theorem exists_site
    {c d : Context}
    {s : Site}
    {g : Function}
    (hdeclares : c.builder.Declares s g)
    {e : Expr}
    {r : Except LowerError Lowered}
    (hrun : (lowerExpr e).run.run (c.atSite s []) = (r, d)) :
    ∃ t events, s.Frames t ∧ d = c.atSite t events ∧
      ∀ l, r = .ok l → Emits c.module c.scope [e] s [l.operand] t ∧ l.block = t.block := by
  have hquiet : Journal.Quiet [] := by
    intro e he
    cases he
  cases r with
  | error e' =>
      have hleaves := framed_lowerExpr e hdeclares [] hquiet
      rw [Leaves, hrun] at hleaves
      obtain ⟨t, events, ht, hd⟩ := hleaves
      refine ⟨t, events, ht, hd, ?_⟩
      rintro l ⟨⟩
  | ok l =>
      obtain ⟨t, ⟨hemits, notes, -, hd⟩, hblock⟩ :=
        ensures_lowerExpr e hdeclares [] hquiet l d hrun
      refine ⟨t, notes, hemits.frames, hd, ?_⟩
      rintro _ ⟨⟩
      exact ⟨hemits, hblock⟩

/-- A context is at the site of its cursor. -/
theorem atSite_self
    {c : Context}
    {f : Function}
    {start : BlockId}
    (hcursor : c.builder.cursor = some ⟨f.id, start⟩)
    (hf : c.module.function? f.id = some f) :
    c.atSite ⟨f, start⟩ [] = c := by
  have hsame : c.module.mapFunction f.id (fun _ => f) =
      c.module.mapFunction f.id fun g => g :=
    Module.mapFunction_congr hf rfl
  have hmodule : c.module.mapFunction f.id (fun _ => f) = c.module := by
    rw [hsame, Module.mapFunction, Module.changeFirst_id]
  obtain ⟨⟨m, cursor, journal⟩, scope, passes, settings⟩ := c
  cases hcursor
  have hm : m.mapFunction f.id (fun _ => f) = m := hmodule
  simp only [Context.atSite, Builder.atSite, hm, List.nil_append]

/--
Lowering an expression in an open block keeps all other functions, the names, the scope, the
other blocks and the block's instructions, whether or not it succeeds.  If it does, it
leaves the cursor in the one open block at the end of the region that the new blocks form.
-/
theorem lowerExpr_frame_region
    {c d : Context}
    {f : Function}
    {start : BlockId}
    {b : Block}
    (hcursor : c.builder.cursor = some ⟨f.id, start⟩)
    (hf : c.module.function? f.id = some f)
    (hstart : f.block? start = some b)
    (hterm : b.term = none)
    (hids : f.blockIds.Nodup)
    (hbelow : ∀ id ∈ f.blockIds, id.number < f.nextBlock)
    (e : Expr)
    {r : Except LowerError Lowered}
    (hrun : (lowerExpr e).run.run c = (r, d))
    (hbound : ∀ g, d.module.function? f.id = some g → g.nextBlock ≤ UInt32.size) :
    d.scope = c.scope ∧ d.module.names = c.module.names ∧
      (∀ id, id ≠ f.id → d.module.function? id = c.module.function? id) ∧
      ∃ g, d.module.function? f.id = some g ∧
        d.module = c.module.mapFunction f.id (fun _ => g) ∧ f.Continues start g ∧
        ∀ l, r = .ok l → d.builder.cursor = some ⟨f.id, l.block⟩ ∧
          f.Region start g l.block := by
  have hscope : d.scope = c.scope := by
    have hkept := keepsScope_lowerExpr e c rfl
    rwa [Leaves, hrun] at hkept
  have hopen : Site.Open ⟨f, start⟩ := ⟨hids, hbelow, b, hstart, hterm⟩
  have hdeclares : c.builder.Declares ⟨f, start⟩ f := ⟨hf, rfl⟩
  rw [← atSite_self hcursor hf] at hrun
  obtain ⟨t, events, hframes, rfl, hemits⟩ := exists_site hdeclares hrun
  have hid : t.func.id = f.id := congrArg (fun header => header.1) hframes.header_eq
  have hfunction : (c.atSite t events).module.function? t.func.id = some t.func :=
    Builder.function?_atSite (hdeclares.of_header hframes.header_eq)
  rw [hid] at hfunction
  have hsize := hbound t.func hfunction
  have hmodule : (c.atSite t events).module = c.module.mapFunction f.id fun _ =>
    t.func := by
    rw [← hid]
    rfl
  refine ⟨hscope, rfl, fun id hne => ?_, t.func, hfunction, hmodule,
    hframes.continues hopen hsize, fun l hl => ?_⟩
  · rw [hmodule, Module.function?_mapFunction _ _ _ fun _ _ => hid]
    cases hg : c.module.function? id with
    | none => rfl
    | some g => rw [Option.map_some, if_neg (Module.id_of_function? hg ▸ hne)]
  · obtain ⟨hemits, hblock⟩ := hemits l hl
    obtain ⟨hend, hextends⟩ := hemits.open_extends hopen hsize
    rw [hblock]
    refine ⟨?_, (hemits.spans hopen hsize).region hopen hend hextends hframes hsize⟩
    rw [← hid]
    rfl

/-- A function whose body goes on in its second block. -/
def draft : Function :=
  ⟨⟨0⟩, "f", ["a"],
    [⟨⟨0⟩, "entry", [⟨⟨0⟩, .arith .add (.arg 0) (.const 1.0)⟩], some (.jump ⟨1⟩)⟩,
      ⟨⟨1⟩, "body", [⟨⟨1⟩, .arith .mul (.arg 0) (.result ⟨0⟩)⟩], none⟩], 2, 2⟩

/-- A context with the cursor in that block. -/
def drafting : Context :=
  ⟨⟨⟨[draft], [("f", ⟨0⟩)], 1⟩, some ⟨⟨0⟩, ⟨1⟩⟩, []⟩, [("a", .arg 0)], [], {}⟩

/-- A conditional within another one, and something that is added to it. -/
def nestedChoice (last : Expr) : Expr :=
  .binary '+'
    (.cond (.var "a") (.cond (.var "a") (.number 3.0) (.call "f" [.var "a"]))
      (.number 4.0)) last

/-- The run of a lowering on the draft. -/
def drafted (last : Expr) : Except LowerError Lowered × Context :=
  (lowerExpr (nestedChoice last)).run.run drafting

/--
The six new blocks of the nested conditionals; if a name is not bound, the frame is
kept all the same.
-/
theorem nestedChoice_frame_region :
    (∃ l g, (drafted (.var "a")).1 = .ok l ∧
      (drafted (.var "a")).2.module.function? draft.id = some g ∧
      draft.Continues ⟨1⟩ g ∧ draft.Region ⟨1⟩ g l.block ∧
      draft.issued g = [⟨2⟩, ⟨3⟩, ⟨4⟩, ⟨5⟩, ⟨6⟩, ⟨7⟩] ∧ l.block = ⟨4⟩) ∧
    ∃ g, (drafted (.var "b")).1 = .error (.unknownVariable "b") ∧
      (drafted (.var "b")).2.module.function? draft.id = some g ∧ draft.Continues ⟨1⟩ g ∧
      g.nextBlock = 8 := by
  have hcount : ∀ last ∈ [Expr.var "a", .var "b"],
      ((drafted last).2.module.function? draft.id).map Function.nextBlock = some 8 := by
    decide +kernel
  have hblocks : ∀ last ∈ [Expr.var "a", .var "b"], ∀ g,
      (drafted last).2.module.function? draft.id = some g → g.nextBlock = 8 := by
    intro last hlast g hg
    simpa [hg] using hcount last hlast
  have hrun : ∀ last, (lowerExpr (nestedChoice last)).run.run drafting =
      ((drafted last).1, (drafted last).2) :=
    fun last => Prod.mk.eta.symm
  have hcursor : drafting.builder.cursor = some ⟨draft.id, ⟨1⟩⟩ := rfl
  have hfunction : drafting.module.function? draft.id = some draft := rfl
  have hopen : ∃ b, draft.block? ⟨1⟩ = some b ∧ b.term = none := ⟨_, rfl, rfl⟩
  obtain ⟨b, hstart, hterm⟩ := hopen
  have hlower :=
    fun last hlast =>
    lowerExpr_frame_region hcursor hfunction hstart hterm (by decide) (by decide)
    (nestedChoice last) (hrun last) fun g hg =>
      (hblocks last hlast g hg).trans_le (by decide)
  constructor
  · obtain ⟨-, -, -, g, hg, -, hcontinues, hregion⟩ := hlower (.var "a") (by simp)
    have hissued : draft.issued g = [⟨2⟩, ⟨3⟩, ⟨4⟩, ⟨5⟩, ⟨6⟩, ⟨7⟩] := by
      rw [Function.issued, hblocks _ (by simp) g hg]
      decide
    have hresult : (drafted (.var "a")).1.map Lowered.block = .ok ⟨4⟩ := by decide +kernel
    obtain ⟨l, hl, hblock⟩ := of_map_eq_ok hresult
    exact ⟨l, g, hl, hg, hcontinues, (hregion l hl).2, hissued, hblock⟩
  · obtain ⟨-, -, -, g, hg, -, hcontinues, -⟩ := hlower (.var "b") (by simp)
    exact ⟨g, by decide +kernel, hg, hcontinues, hblocks _ (by simp) g hg⟩

/-- A function with a block that goes on in one that is not there yet. -/
def forward : Function :=
  ⟨⟨0⟩, "f", ["a"], [⟨⟨0⟩, "entry", [], none⟩, ⟨⟨1⟩, "early", [], some (.jump ⟨2⟩)⟩], 0, 2⟩

/-- A context with the cursor in the other block. -/
def forwarding : Context :=
  ⟨⟨⟨[forward], [("f", ⟨0⟩)], 1⟩, some ⟨⟨0⟩, ⟨0⟩⟩, []⟩, [("a", .arg 0)], [], {}⟩

/-- A conditional of three blocks, the first of which that block goes on in. -/
def forwarded : Except LowerError Lowered × Context :=
  (lowerExpr (.cond (.var "a") (.number 1.0) (.number 2.0))).run.run forwarding

/-- An edge that was there before the region leads into it. -/
theorem forward_edge_enters_region :
    (forwarding.builder.cursor = some ⟨forward.id, ⟨0⟩⟩ ∧
      forwarding.module.function? forward.id = some forward ∧
      (forward.block? ⟨0⟩).map Block.term = some none ∧ forward.blockIds.Nodup ∧
      ∀ id ∈ forward.blockIds, id.number < forward.nextBlock) ∧
    ∃ l g, forwarded.1 = .ok l ∧ forwarded.2.module.function? forward.id = some g ∧
      g.nextBlock ≤ UInt32.size ∧
      ¬∀ id target, target ∈ forward.issued g → target ∈ g.successors id →
        id = ⟨0⟩ ∨ id ∈ forward.issued g := by
  refine ⟨by decide, ?_⟩
  have hresult : forwarded.1.map Lowered.block = .ok ⟨4⟩ := by decide +kernel
  have hfunction : (forwarded.2.module.function? forward.id).map
      (fun g => (g.nextBlock, forward.issued g, g.successors ⟨1⟩)) =
        some (5, [⟨2⟩, ⟨3⟩, ⟨4⟩], [⟨2⟩]) := by decide +kernel
  obtain ⟨l, hl, -⟩ := of_map_eq_ok hresult
  obtain ⟨g, hg, hshape⟩ := Option.map_eq_some_iff.1 hfunction
  obtain ⟨hnext, hissued, hsuccessors⟩ : g.nextBlock = 5 ∧
      forward.issued g = [⟨2⟩, ⟨3⟩, ⟨4⟩] ∧ g.successors ⟨1⟩ = [⟨2⟩] := by simpa using hshape
  refine ⟨l, g, hl, hg, hnext.trans_le (by decide), fun hentry => ?_⟩
  have hone := hentry ⟨1⟩ ⟨2⟩ (by simp [hissued]) (by simp [hsuccessors])
  rw [hissued] at hone
  revert hone
  decide

end Lowering

end ScalarSsa
