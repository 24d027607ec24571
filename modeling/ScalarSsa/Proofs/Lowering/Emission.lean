import ScalarSsa.Lowering.Expression
import ScalarSsa.Proofs.Ssa.Building

/-!
# What lowering emits

**Input.** Expressions, what names stand for, and a `Site`: a function under construction
with the block at whose end instructions go.

**Definitions.** `Emits` has a rule for every kind of expression and relates the site before
to the operands and the site after.  It works on lists, so that one induction covers
operands and arguments; an expression is a list of one.

**Results.** `Emits.open_extends`: emitting leaves all blocks alone but the one at the
cursor, to which it appends plain instructions and, if the cursor moves on, a terminator;
every new block but the one at the cursor is terminated, and new edges lead to new blocks.
-/

namespace ScalarSsa

namespace Site

/--
The site with the test of a conditional put in and its three blocks appended, in
the first of them.
-/
def fork (s : Site) (test : Operand) : Site :=
  ⟨(((s.push (.compare .one test (.const 0.0))).func.appendBlock "then").appendBlock
    "else").appendBlock "ifcont", s.fresh 0⟩

/--
The site of a conditional forked at `s` whose branches are done: `t` and `e` are where they
end, and with what.
-/
def join (s t e : Site) (x y : Operand) : Site :=
  let phi := (e.moveTo (s.fresh 2)).push (.phi .double [(x, t.block), (y, e.block)])
  let thenEnd := (phi.moveTo t.block).close (.jump (s.fresh 2))
  let elseEnd := (thenEnd.moveTo e.block).close (.jump (s.fresh 2))
  ((elseEnd.moveTo s.block).close (.branch (.result s.next) (s.fresh 0) (s.fresh 1))).moveTo
    (s.fresh 2)

end Site

/-- The arithmetic operator of a character. -/
def Arith.ofChar? (op : Char) : Option Arith :=
  if op = '+' then some .add
  else if op = '-' then some .sub
  else if op = '*' then some .mul
  else none

/-- Expressions are lowered at a site to operands, which leads to another site. -/
inductive Emits (m : Module) (scope : Scope) : List Expr → Site → List Operand → Site → Prop
  | nil {s : Site} :
      Emits m scope [] s [] s
  | cons {e : Expr} {rest : List Expr} {s t u : Site} {x : Operand} {xs : List Operand}
      (hhead : Emits m scope [e] s [x] t)
      (htail : Emits m scope rest t xs u) :
      Emits m scope (e :: rest) s (x :: xs) u
  | number {x : Float} {s : Site} :
      Emits m scope [.number x] s [.const x] s
  | var {name : String} {o : Operand} {s : Site}
      (hname : scope.find? name = some o) :
      Emits m scope [.var name] s [o] s
  | arith {op : Char} {a : Arith} {lhs rhs : Expr} {s t u : Site} {x y : Operand}
      (hop : Arith.ofChar? op = some a)
      (hlhs : Emits m scope [lhs] s [x] t)
      (hrhs : Emits m scope [rhs] t [y] u) :
      Emits m scope [.binary op lhs rhs] s [.result u.next] (u.push (.arith a x y))
  | less {lhs rhs : Expr} {s t u : Site} {x y : Operand}
      (hlhs : Emits m scope [lhs] s [x] t)
      (hrhs : Emits m scope [rhs] t [y] u) :
      Emits m scope [.binary '<' lhs rhs] s [.result (u.push (.compare .ult x y)).next]
        ((u.push (.compare .ult x y)).push (.promote (.result u.next)))
  | call {name : String} {id : FuncId} {g : Function} {args : List Expr} {s t : Site}
      {xs : List Operand}
      (hname : m.find? name = some id)
      (hcallee : m.function? id = some g)
      (harity : g.arity = args.length)
      (hargs : Emits m scope args s xs t) :
      Emits m scope [.call name args] s [.result t.next] (t.push (.call id g.name xs))
  | cond {test thenBranch elseBranch : Expr} {s t u v : Site} {x y z : Operand}
      (htest : Emits m scope [test] s [x] t)
      (hthen : Emits m scope [thenBranch] (t.fork x) [y] u)
      (helse : Emits m scope [elseBranch] (u.moveTo (t.fresh 1)) [z] v) :
      Emits m scope [.cond test thenBranch elseBranch] s [.result v.next] (t.join u v y z)

/-! ## What the operations on sites do -/

namespace Site

variable (s : Site)

@[simp] theorem func_moveTo (id : BlockId) : (s.moveTo id).func = s.func := rfl

@[simp] theorem block_moveTo (id : BlockId) : (s.moveTo id).block = id := rfl

@[simp] theorem nextBlock_push (kind : InstrKind) : (s.push kind).func.nextBlock =
    s.func.nextBlock := rfl

@[simp] theorem nextValue_push (kind : InstrKind) : (s.push kind).func.nextValue =
    s.func.nextValue + 1 := rfl

@[simp] theorem block_push (kind : InstrKind) : (s.push kind).block = s.block := rfl

@[simp] theorem nextBlock_fork (test : Operand) : (s.fork test).func.nextBlock =
    s.func.nextBlock + 3 := rfl

@[simp] theorem nextValue_fork (test : Operand) : (s.fork test).func.nextValue =
    s.func.nextValue + 1 := rfl

@[simp] theorem nextBlock_join (t e : Site) (x y : Operand) :
    (s.join t e x y).func.nextBlock = e.func.nextBlock := rfl

@[simp] theorem nextValue_join (t e : Site) (x y : Operand) :
    (s.join t e x y).func.nextValue = e.func.nextValue + 1 := rfl

theorem blockIds_push (kind : InstrKind) : (s.push kind).func.blockIds = s.func.blockIds :=
  Function.blockIds_mapBlock (Block.id_insert _)

theorem blockIds_close (term : Terminator) :
    (s.close term).func.blockIds = s.func.blockIds :=
  Function.blockIds_mapBlock fun _ => rfl

theorem blockIds_fork (test : Operand) :
    (s.fork test).func.blockIds = s.func.blockIds ++ [s.fresh 0, s.fresh 1, s.fresh 2] := by
  rw [← blockIds_push s (.compare .one test (.const 0.0))]
  simp [fork, Function.blockIds, Function.appendBlock, Block.empty, fresh]

theorem blockIds_join (t e : Site) (x y : Operand) :
    (s.join t e x y).func.blockIds = e.func.blockIds := by
  simp only [join, moveTo, blockIds_close, blockIds_push]

theorem block?_push
    (kind : InstrKind)
    (j : BlockId) :
    (s.push kind).func.block? j =
      if j = s.block then (s.func.block? j).map (Block.insert ⟨s.next, kind⟩)
      else s.func.block? j :=
  Function.block?_mapBlock (Block.id_insert _) j

theorem block?_close
    (term : Terminator)
    (j : BlockId) :
    (s.close term).func.block? j =
      if j = s.block then (s.func.block? j).map fun b => { b with term := some term }
      else s.func.block? j := by
  have hid : ∀ b : Block, ({ b with term := some term } : Block).id = b.id := fun _ => rfl
  exact Function.block?_mapBlock hid j

/-- The site's block is open, and names of blocks are distinct and were issued before. -/
structure Open : Prop where
  nodup : s.func.blockIds.Nodup
  below : ∀ id ∈ s.func.blockIds, id.number < s.func.nextBlock
  cursor : ∃ b, s.func.block? s.block = some b ∧ b.term = none

namespace Open

variable {s}

theorem number_lt
    (h : s.Open)
    {id : BlockId}
    {b : Block}
    (hb : s.func.block? id = some b) :
    id.number < s.func.nextBlock := by
  obtain ⟨hmem, rfl⟩ := Function.mem_of_block?_eq_some hb
  exact h.below _ (List.mem_map_of_mem hmem)

theorem block_lt
    (h : s.Open) :
    s.block.number < s.func.nextBlock := by
  obtain ⟨b, hb, -⟩ := h.cursor
  exact h.number_lt hb

theorem block?_of_ge
    (h : s.Open)
    {id : BlockId}
    (hid : s.func.nextBlock ≤ id.number) :
    s.func.block? id = none := by
  cases hb : s.func.block? id with
  | none => rfl
  | some b => exact absurd (h.number_lt hb) (by omega)

theorem push
    (h : s.Open)
    (kind : InstrKind) :
    (s.push kind).Open := by
  obtain ⟨b, hb, hterm⟩ := h.cursor
  refine ⟨by rw [blockIds_push]; exact h.nodup, by rw [blockIds_push]; exact h.below,
    b.insert ⟨s.next, kind⟩, ?_, ?_⟩
  · simp [block?_push, hb]
  · unfold Block.insert
    split <;> exact hterm

/-- The site may go on in any open block. -/
theorem moveTo
    (h : s.Open)
    {id : BlockId}
    {b : Block}
    (hb : s.func.block? id = some b)
    (hterm : b.term = none) :
    (s.moveTo id).Open :=
  ⟨h.nodup, h.below, b, hb, hterm⟩

end Open

theorem number_next
    (h : s.func.nextValue + 1 ≤ UInt32.size) :
    s.next.number = s.func.nextValue :=
  ValueId.number_ofCount (by omega)

theorem number_fresh
    {offset : Nat}
    (h : s.func.nextBlock + offset < UInt32.size) :
    (s.fresh offset).number = s.func.nextBlock + offset :=
  BlockId.number_ofCount h

/-- The site after `s` has nothing changed but the block at the cursor, and new blocks. -/
structure Extends (s t : Site) : Prop where
  others : ∀ id b, id ≠ s.block → s.func.block? id = some b → t.func.block? id = some b
  /-- The block at the cursor got plain instructions, and a terminator if the
  cursor moved on. -/
  cursor : ∀ b, s.func.block? s.block = some b → ∃ c added, t.func.block? s.block = some c ∧
    c.instrs = b.instrs ++ added ∧ (∀ i ∈ added, i.kind.isPhi = false) ∧
    (c.term.isSome ∨ t.block = s.block)
  absent : ∀ id, id.number < s.func.nextBlock → s.func.block? id = none →
    t.func.block? id = none
  place : t.block = s.block ∨ s.func.nextBlock ≤ t.block.number
  closed : ∀ id b, t.func.block? id = some b → s.func.nextBlock ≤ id.number →
    id = t.block ∨ b.term.isSome
  targets : ∀ id b target, t.func.block? id = some b → target ∈ b.successors →
    s.func.block? id = some b ∨ s.func.nextBlock ≤ target.number

namespace Extends

variable {s} {t u : Site}

theorem refl
    (h : s.Open) :
    s.Extends s where
  others _ _ _ hb := hb
  cursor b hb := ⟨b, [], hb, by simp, by simp, .inr rfl⟩
  absent _ _ hb := hb
  place := .inl rfl
  closed _ _ hb hid := absurd (h.number_lt hb) (by omega)
  targets _ _ _ hb _ := .inl hb

theorem trans
    (hs : s.Open)
    (hle : s.func.nextBlock ≤ t.func.nextBlock)
    (hst : s.Extends t)
    (htu : t.Extends u) :
    s.Extends u where
  others id b hne hb := by
    refine htu.others id b ?_ (hst.others id b hne hb)
    rcases hst.place with hplace | hplace
    · rwa [hplace]
    · exact BlockId.ne_of_number (by have := hs.number_lt hb; omega)
  cursor b hb := by
    obtain ⟨c, added, hc, hinstrs, hplain, hterm⟩ := hst.cursor b hb
    by_cases hplace : t.block = s.block
    · obtain ⟨d, more, hd, hmore, hplain', hterm'⟩ := htu.cursor c (by rwa [hplace])
      rw [hplace] at hd hterm'
      refine ⟨d, added ++ more, hd, by simp [hmore, hinstrs], ?_, hterm'⟩
      intro i hi
      rcases List.mem_append.1 hi with hi | hi
      · exact hplain i hi
      · exact hplain' i hi
    · have hclosed : c.term.isSome := hterm.resolve_right hplace
      exact ⟨c, added, htu.others _ c (fun h => hplace h.symm) hc, hinstrs,
        hplain, .inl hclosed⟩
  absent id hid hb := htu.absent id (by omega) (hst.absent id hid hb)
  place := by
    rcases htu.place with hplace | hplace
    · rw [hplace]
      exact hst.place
    · exact .inr (Nat.le_trans hle hplace)
  closed id b hb hid := by
    by_cases hnew : t.func.nextBlock ≤ id.number
    · exact htu.closed id b hb hnew
    · have hold : id.number < t.func.nextBlock := by omega
      cases hb' : t.func.block? id with
      | none =>
          rw [htu.absent id hold hb'] at hb
          cases hb
      | some b' =>
          by_cases hplace : id = t.block
          · subst hplace
            obtain ⟨c, -, hc, -, -, hterm⟩ := htu.cursor b' hb'
            rw [hb] at hc
            cases hc
            exact hterm.symm.imp_left fun h => h.symm
          · rw [htu.others id b' hplace hb'] at hb
            cases hb
            exact .inr ((hst.closed id _ hb' hid).resolve_left hplace)
  targets id b target hb htarget := by
    rcases htu.targets id b target hb htarget with hb' | hnew
    · exact hst.targets id b target hb' htarget
    · exact .inr (Nat.le_trans hle hnew)

/-- A plain instruction changes only the block at the cursor. -/
theorem push
    (h : s.Open)
    {kind : InstrKind}
    (hplain : kind.isPhi = false) :
    s.Extends (s.push kind) where
  others id b hne hb := by
    rw [block?_push, if_neg hne, hb]
  cursor b hb := by
    refine ⟨b.insert ⟨s.next, kind⟩,
      [⟨s.next, kind⟩], by simp [block?_push, hb], ?_, ?_, .inr rfl⟩
    · simp [Block.insert, hplain]
    · simpa using hplain
  absent id _ hb := by
    simp [block?_push, hb]
  place := .inl rfl
  closed id b hb hid := by
    have hold := (h.push kind).number_lt hb
    rw [nextBlock_push] at hold
    omega
  targets id b target hb htarget := by
    by_cases hid : id = s.block
    · obtain ⟨c, hc, hterm⟩ := (h.push kind).cursor
      rw [block_push, ← hid, hb] at hc
      cases hc
      simp [Block.successors, hterm] at htarget
    · rw [block?_push, if_neg hid] at hb
      exact .inl hb

theorem andPush
    (hst : s.Extends t)
    (hs : s.Open)
    (hle : s.func.nextBlock ≤ t.func.nextBlock)
    (ht : t.Open)
    {kind : InstrKind}
    (hplain : kind.isPhi = false) :
    s.Extends (t.push kind) :=
  hst.trans hs hle (push ht hplain)

end Extends

/-! ## Forks -/

section Fork

variable {s} (h : s.Open) (hbound : s.func.nextBlock + 3 ≤ UInt32.size) (test : Operand)

include hbound in
theorem fresh_ne
    {id : BlockId}
    (hid : id.number < s.func.nextBlock)
    {offset : Nat}
    (hoffset : offset < 3) :
    id ≠ s.fresh offset :=
  BlockId.ne_of_number (by rw [number_fresh s (by omega)]; omega)

include hbound in
theorem fresh_inj
    {i j : Nat}
    (hi : i < 3)
    (hj : j < 3) :
    s.fresh i = s.fresh j ↔ i = j := by
  refine ⟨fun heq => ?_, fun heq => heq ▸ rfl⟩
  have hnumber := congrArg BlockId.number heq
  rw [number_fresh s (by omega), number_fresh s (by omega)] at hnumber
  omega

theorem block?_fork
    (id : BlockId) :
    (s.fork test).func.block? id =
      ((((s.push (.compare .one test (.const 0.0))).func.block? id).or
        (if id = s.fresh 0 then some (.empty id "then") else none)).or
        (if id = s.fresh 1 then some (.empty id "else") else none)).or
        (if id = s.fresh 2 then some (.empty id "ifcont") else none) := by
  simp only [fork, Function.block?_appendBlock]
  rfl

include hbound in
/-- A fork changes no older block but the one at the cursor. -/
theorem block?_fork_of_lt
    {id : BlockId}
    (hid : id.number < s.func.nextBlock) :
    (s.fork test).func.block? id =
      (s.push (.compare .one test (.const 0.0))).func.block? id := by
  rw [block?_fork, if_neg (fresh_ne hbound hid (by omega)),
    if_neg (fresh_ne hbound hid (by omega)),
    if_neg (fresh_ne hbound hid (by omega))]
  simp

include h hbound in
/-- The three blocks of a fork are empty. -/
theorem block?_fork_fresh
    {offset : Nat}
    (hoffset : offset < 3) :
    ∃ label, (s.fork test).func.block? (s.fresh offset) =
      some (.empty (s.fresh offset) label) := by
  have hnone : (s.push (.compare .one test (.const 0.0))).func.block? (s.fresh offset) =
      none :=
    (h.push _).block?_of_ge (by rw [number_fresh s (by omega)]; simp)
  rw [block?_fork, hnone]
  simp only [fresh_inj hbound hoffset (show 0 < 3 by omega),
    fresh_inj hbound hoffset (show 1 < 3 by omega),
    fresh_inj hbound hoffset (show 2 < 3 by omega)]
  obtain rfl | rfl | rfl : offset = 0 ∨ offset = 1 ∨ offset = 2 := by omega
  · exact ⟨_, rfl⟩
  · exact ⟨_, rfl⟩
  · exact ⟨_, rfl⟩

include h in
/-- A block of a fork is as old as the site or empty. -/
theorem term_of_block?_fork
    {id : BlockId}
    {b : Block}
    (hb : (s.fork test).func.block? id = some b)
    (hid : s.func.nextBlock ≤ id.number) :
    b.term = none := by
  have hnone : (s.push (.compare .one test (.const 0.0))).func.block? id = none :=
    (h.push _).block?_of_ge hid
  rw [block?_fork, hnone] at hb
  simp only [Option.or_eq_some_iff, Option.ite_none_right_eq_some, Option.some.injEq] at hb
  rcases hb with ((hb | ⟨-, -, hb⟩) | ⟨-, -, hb⟩) | ⟨-, -, hb⟩
  · simp at hb
  all_goals exact hb ▸ rfl

include h hbound in
theorem Open.fork :
    (s.fork test).Open := by
  obtain ⟨label, hblock⟩ := block?_fork_fresh h hbound test (show 0 < 3 by omega)
  refine ⟨?_, ?_, _, hblock, rfl⟩
  · rw [blockIds_fork, List.nodup_append]
    refine ⟨h.nodup, ?_, ?_⟩
    · simp [fresh_inj hbound]
    · intro id hid id' hid'
      have hlt := h.below id hid
      simp only [List.mem_cons, List.not_mem_nil, or_false] at hid'
      obtain rfl | rfl | rfl := hid'
      · exact fresh_ne hbound hlt (by omega)
      · exact fresh_ne hbound hlt (by omega)
      · exact fresh_ne hbound hlt (by omega)
  · intro id hid
    rw [blockIds_fork, List.mem_append] at hid
    rw [nextBlock_fork]
    rcases hid with hid | hid
    · have hlt := h.below id hid
      omega
    · simp only [List.mem_cons, List.not_mem_nil, or_false] at hid
      obtain rfl | rfl | rfl := hid <;> rw [number_fresh s (by omega)] <;> omega

end Fork

/-! ## Joins -/

/--
A conditional forked at `t` on `x`, of whose branches the first ends at `u` and
the second at `v`.
-/
structure Diamond (t : Site) (x : Operand) (u v : Site) : Prop where
  start : t.Open
  thenOpen : u.Open
  thenExtends : (t.fork x).Extends u
  elseOpen : v.Open
  elseExtends : (u.moveTo (t.fresh 1)).Extends v
  thenLe : t.func.nextBlock + 3 ≤ u.func.nextBlock
  elseLe : u.func.nextBlock ≤ v.func.nextBlock
  bound : v.func.nextBlock ≤ UInt32.size

namespace Diamond

variable {t u v : Site} {x : Operand}

/-- Once the first branch is done, the second one may start. -/
theorem open_else
    (hstart : t.Open)
    (hfits : t.func.nextBlock + 3 ≤ UInt32.size)
    (hthen : u.Open)
    (hextends : (t.fork x).Extends u) :
    (u.moveTo (t.fresh 1)).Open := by
  obtain ⟨label, hfresh⟩ := block?_fork_fresh hstart hfits x (show 1 < 3 by omega)
  have hstill : u.func.block? (t.fresh 1) = some (.empty (t.fresh 1) label) := by
    refine hextends.others _ _ (fun heq => ?_) hfresh
    simpa using (fresh_inj hfits (by omega) (by omega)).1 heq
  exact hthen.moveTo hstill rfl

/-- A conditional whose branches only work at their cursors. -/
theorem of_branches
    (hstart : t.Open)
    (hthenLe : t.func.nextBlock + 3 ≤ u.func.nextBlock)
    (helseLe : u.func.nextBlock ≤ v.func.nextBlock)
    (hbound : v.func.nextBlock ≤ UInt32.size)
    (hthen : (t.fork x).Open → u.Open ∧ (t.fork x).Extends u)
    (helse : (u.moveTo (t.fresh 1)).Open → v.Open ∧ (u.moveTo (t.fresh 1)).Extends v) :
    Diamond t x u v := by
  have hfits : t.func.nextBlock + 3 ≤ UInt32.size := by omega
  obtain ⟨hu, htu⟩ := hthen (hstart.fork hfits x)
  obtain ⟨hv, huv⟩ := helse (open_else hstart hfits hu htu)
  exact ⟨hstart, hu, htu, hv, huv, hthenLe, helseLe, hbound⟩

variable (h : Diamond t x u v)

include h

theorem bound_start :
    t.func.nextBlock + 3 ≤ UInt32.size :=
  Nat.le_trans h.thenLe (Nat.le_trans h.elseLe h.bound)

theorem number_fresh
    {offset : Nat}
    (hoffset : offset < 3) :
    (t.fresh offset).number = t.func.nextBlock + offset :=
  Site.number_fresh t (by have := h.bound_start; omega)

theorem thenPlace :
    u.block.number = t.func.nextBlock ∨
      t.func.nextBlock + 3 ≤ u.block.number ∧ u.block.number < u.func.nextBlock := by
  rcases h.thenExtends.place with hplace | hplace
  · rw [hplace]
    exact .inl (h.number_fresh (show 0 < 3 by omega))
  · exact .inr ⟨hplace, h.thenOpen.block_lt⟩

theorem elsePlace :
    v.block.number = t.func.nextBlock + 1 ∨ u.func.nextBlock ≤ v.block.number := by
  rcases h.elseExtends.place with hplace | hplace
  · rw [hplace]
    exact .inl (h.number_fresh (show 1 < 3 by omega))
  · exact .inr hplace

/--
The block of the fork, the two blocks in which the branches end and the one in which they
meet are different.
-/
theorem distinct :
    t.block ≠ u.block ∧ t.block ≠ v.block ∧ t.block ≠ t.fresh 2 ∧ u.block ≠ v.block ∧
      u.block ≠ t.fresh 2 ∧
      v.block ≠ t.fresh 2 := by
  have hstart := h.start.block_lt
  have hthen := h.thenPlace
  have helse := h.elsePlace
  have hmerge := h.number_fresh (show 2 < 3 by omega)
  have hle := h.thenLe
  refine ⟨?_, ?_, ?_, ?_, ?_, ?_⟩ <;> refine BlockId.ne_of_number ?_ <;> omega

/-- Blocks older than the fork stay as the fork left them. -/
theorem block?_of_lt
    {id : BlockId}
    {b : Block}
    (hid : id.number < t.func.nextBlock)
    (hb : (t.push (.compare .one x (.const 0.0))).func.block? id = some b) :
    v.func.block? id = some b := by
  refine h.elseExtends.others id b (fresh_ne h.bound_start hid (by omega)) ?_
  refine h.thenExtends.others id b (fresh_ne h.bound_start hid (by omega)) ?_
  rw [block?_fork_of_lt h.bound_start x hid, hb]

/-- The first branch leaves the two blocks empty that come after it. -/
theorem block?_fresh
    {offset : Nat}
    (hoffset : offset < 3)
    (hpos : 0 < offset) :
    ∃ label, u.func.block? (t.fresh offset) = some (.empty (t.fresh offset) label) := by
  obtain ⟨label, hblock⟩ := block?_fork_fresh h.start h.bound_start x hoffset
  refine ⟨label, h.thenExtends.others _ _ (fun heq => ?_) hblock⟩
  have hzero := (fresh_inj h.bound_start hoffset (show 0 < 3 by omega)).1 heq
  omega

theorem block?_merge :
    ∃ label, v.func.block? (t.fresh 2) = some (.empty (t.fresh 2) label) := by
  obtain ⟨label, hblock⟩ := h.block?_fresh (show 2 < 3 by omega) (by omega)
  refine ⟨label, h.elseExtends.others _ _ (fun heq => ?_) hblock⟩
  simpa using (fresh_inj h.bound_start (show 2 < 3 by omega) (show 1 < 3 by omega)).1 heq

theorem block?_thenEnd
    {b : Block}
    (hb : u.func.block? u.block = some b) :
    v.func.block? u.block = some b := by
  refine h.elseExtends.others _ _ (BlockId.ne_of_number ?_) hb
  have hthen := h.thenPlace
  have helse := h.number_fresh (show 1 < 3 by omega)
  change u.block.number ≠ (t.fresh 1).number
  omega

/-- What a join does to each block. -/
theorem block?_join
    (y z : Operand)
    (id : BlockId) :
    (t.join u v y z).func.block? id =
      if id = t.block then
        (v.func.block? id).map fun b =>
          { b with term := some (.branch (.result t.next) (t.fresh 0) (t.fresh 1)) }
      else if id = u.block ∨ id = v.block then
        (v.func.block? id).map fun b => { b with term := some (.jump (t.fresh 2)) }
      else if id = t.fresh 2 then
        (v.func.block? id).map
          (Block.insert ⟨v.next, .phi .double [(y, u.block), (z, v.block)]⟩)
      else v.func.block? id := by
  obtain ⟨htu, htv, htm, huv, hum, hvm⟩ := h.distinct
  simp only [join, block?_close, block?_push, moveTo]
  by_cases hidt : id = t.block
  · subst hidt
    simp only [if_true, htu, htv, htm, if_false]
  · by_cases hidv : id = v.block
    · subst hidv
      simp [hidt, Ne.symm huv, hvm]
    · by_cases hidu : id = u.block
      · subst hidu
        simp [hidt, huv, hum]
      · simp only [hidt, hidv, hidu, if_false, or_self]
        rfl

theorem block?_join_start
    (y z : Operand)
    {b : Block}
    (hb : t.func.block? t.block = some b) :
    (t.join u v y z).func.block? t.block =
      some ⟨b.id, b.label, b.instrs ++ [⟨t.next, .compare .one x (.const 0.0)⟩],
        some (.branch (.result t.next) (t.fresh 0) (t.fresh 1))⟩ := by
  have hpush : (t.push (.compare .one x (.const 0.0))).func.block? t.block =
      some (b.insert ⟨t.next, .compare .one x (.const 0.0)⟩) := by
    simp [block?_push, hb]
  rw [h.block?_join, if_pos rfl, h.block?_of_lt h.start.block_lt hpush]
  rfl

theorem block?_join_thenEnd
    (y z : Operand)
    {b : Block}
    (hb : u.func.block? u.block = some b) :
    (t.join u v y z).func.block? u.block =
      some { b with term := some (.jump (t.fresh 2)) } := by
  obtain ⟨htu, -, -, -, -, -⟩ := h.distinct
  rw [h.block?_join, if_neg htu.symm, if_pos (.inl rfl), h.block?_thenEnd hb,
    Option.map_some]

theorem block?_join_elseEnd
    (y z : Operand)
    {b : Block}
    (hb : v.func.block? v.block = some b) :
    (t.join u v y z).func.block? v.block =
      some { b with term := some (.jump (t.fresh 2)) } := by
  obtain ⟨-, htv, -, -, -, -⟩ := h.distinct
  rw [h.block?_join, if_neg htv.symm, if_pos (.inr rfl), hb, Option.map_some]

theorem block?_join_merge
    (y z : Operand) :
    ∃ label, (t.join u v y z).func.block? (t.fresh 2) =
      some ⟨t.fresh 2, label, [⟨v.next, .phi .double [(y, u.block), (z, v.block)]⟩],
        none⟩ := by
  obtain ⟨-, -, htm, -, hum, hvm⟩ := h.distinct
  obtain ⟨label, hmerge⟩ := h.block?_merge
  refine ⟨label, ?_⟩
  rw [h.block?_join, if_neg htm.symm, if_neg (by simp [hum.symm, hvm.symm]),
    if_pos rfl, hmerge]
  rfl

theorem open_join
    (y z : Operand) :
    (t.join u v y z).Open := by
  obtain ⟨label, hmerge⟩ := h.block?_join_merge y z
  refine ⟨?_, ?_, _, hmerge, rfl⟩
  · rw [blockIds_join]
    exact h.elseOpen.nodup
  · rw [blockIds_join]
    exact h.elseOpen.below

/--
A block that is newer than the fork is the one at the cursor of the join,
or it is terminated.
-/
theorem closed_join
    (y z : Operand)
    {id : BlockId}
    {b : Block}
    (hb : (t.join u v y z).func.block? id = some b)
    (hid : t.func.nextBlock ≤ id.number) :
    id = t.fresh 2 ∨ b.term.isSome := by
  have hstart := h.start.block_lt
  rw [h.block?_join, if_neg (BlockId.ne_of_number (by omega))] at hb
  split at hb
  · obtain ⟨c, -, rfl⟩ := Option.map_eq_some_iff.1 hb
    exact .inr rfl
  · next hends =>
    obtain ⟨hidu, hidv⟩ := not_or.1 hends
    split at hb
    · next hmerge => exact .inl hmerge
    · next hmerge =>
      -- What is left are the two blocks at which the branches start and the blocks inside
      -- the branches.
      right
      by_cases hnew : u.func.nextBlock ≤ id.number
      · exact (h.elseExtends.closed id b hb hnew).resolve_left hidv
      · by_cases helse : id = t.fresh 1
        · subst helse
          cases hb' : u.func.block? (t.fresh 1) with
          | none =>
              exact absurd (h.elseExtends.absent _ (by change _ < u.func.nextBlock; omega)
                hb') (by simp [hb])
          | some b' =>
              obtain ⟨c, -, hc, -, -, hterm⟩ := h.elseExtends.cursor b' hb'
              change v.func.block? (t.fresh 1) = some c at hc
              rw [hb] at hc
              cases hc
              exact hterm.resolve_right fun heq => hidv heq.symm
        · cases hb' : u.func.block? id with
          | none =>
              exact absurd (h.elseExtends.absent id (by change _ < u.func.nextBlock; omega)
                hb') (by simp [hb])
          | some b' =>
              have hkeep := h.elseExtends.others id b' helse hb'
              rw [hb] at hkeep
              cases hkeep
              by_cases hin : t.func.nextBlock + 3 ≤ id.number
              · exact (h.thenExtends.closed id b hb' hin).resolve_left hidu
              · have hthen : id = t.fresh 0 := by
                  refine BlockId.eq_of_number ?_
                  have h1 := mt BlockId.eq_of_number helse
                  have h2 := mt BlockId.eq_of_number hmerge
                  rw [h.number_fresh (by omega)] at h1 h2 ⊢
                  omega
                subst hthen
                obtain ⟨label, hfresh⟩ :=
                  block?_fork_fresh h.start h.bound_start x (show 0 < 3 by omega)
                obtain ⟨c, -, hc, -, -, hterm⟩ := h.thenExtends.cursor _ hfresh
                change u.func.block? (t.fresh 0) = some c at hc
                rw [hb'] at hc
                cases hc
                exact hterm.resolve_right fun heq => hidu heq.symm

/-- The edges of a join are older than the fork or lead to newer blocks. -/
theorem targets_join
    (y z : Operand)
    {id target : BlockId}
    {b : Block}
    (hb : (t.join u v y z).func.block? id = some b)
    (htarget : target ∈ b.successors) :
    t.func.block? id = some b ∨ t.func.nextBlock ≤ target.number := by
  have hnumber : ∀ offset, offset < 3 → t.func.nextBlock ≤ (t.fresh offset).number :=
    fun offset hoffset => by
    rw [h.number_fresh hoffset]
    omega
  rw [h.block?_join] at hb
  split at hb
  · obtain ⟨c, -, rfl⟩ := Option.map_eq_some_iff.1 hb
    right
    have hcases : target = t.fresh 0 ∨ target = t.fresh 1 := by
      simp only [Block.successors, Terminator.successors] at htarget
      split at htarget <;> simp at htarget <;> tauto
    rcases hcases with rfl | rfl
    · exact hnumber 0 (by omega)
    · exact hnumber 1 (by omega)
  · next hidt =>
    split at hb
    · obtain ⟨c, -, rfl⟩ := Option.map_eq_some_iff.1 hb
      simp only [Block.successors, Terminator.successors, List.mem_singleton] at htarget
      exact .inr (htarget ▸ hnumber 2 (by omega))
    · split at hb
      · next hmerge =>
        obtain ⟨label, hempty⟩ := h.block?_merge
        rw [hmerge, hempty] at hb
        cases hb
        simp [Block.insert, InstrKind.isPhi, Block.empty, Block.successors] at htarget
      · rcases h.elseExtends.targets id b target hb htarget with hb' | hnew
        · rcases h.thenExtends.targets id b target hb' htarget with hb'' | hnew
          · by_cases hid : id.number < t.func.nextBlock
            · rw [block?_fork_of_lt h.bound_start x hid, block?_push, if_neg hidt] at hb''
              exact .inl hb''
            · have hterm := term_of_block?_fork h.start x hb'' (by omega)
              simp [Block.successors, hterm] at htarget
          · rw [nextBlock_fork] at hnew
            exact .inr (by omega)
        · have hle := h.thenLe
          change u.func.nextBlock ≤ _ at hnew
          exact .inr (by omega)

theorem extends_join
    (y z : Operand) :
    t.Extends (t.join u v y z) where
  others id b hne hb := by
    have hid := h.start.number_lt hb
    have hthen := h.thenPlace
    have helse := h.elsePlace
    have hle := h.thenLe
    have hends : ¬(id = u.block ∨ id = v.block) :=
      not_or.2 ⟨BlockId.ne_of_number (by omega), BlockId.ne_of_number (by omega)⟩
    rw [h.block?_join, if_neg hne, if_neg hends,
      if_neg (fresh_ne h.bound_start hid (by omega))]
    exact h.block?_of_lt hid (by rw [block?_push, if_neg hne, hb])
  cursor b hb :=
    ⟨_, _, h.block?_join_start y z hb, rfl, by simp [InstrKind.isPhi], .inl rfl⟩
  absent id hid hb := by
    have hpush : (t.push (.compare .one x (.const 0.0))).func.block? id = none := by
      rw [block?_push, hb]
      simp
    have hfork : (t.fork x).func.block? id = none := by
      rw [block?_fork_of_lt h.bound_start x hid, hpush]
    have hle := h.thenLe
    have hv : v.func.block? id = none :=
      h.elseExtends.absent id (by change _ < u.func.nextBlock; omega)
        (h.thenExtends.absent id (by rw [nextBlock_fork]; omega) hfork)
    rw [h.block?_join, hv]
    simp
  place := by
    right
    change _ ≤ (t.fresh 2).number
    rw [h.number_fresh (by omega)]
    omega
  closed _ _ := h.closed_join y z
  targets _ _ _ := h.targets_join y z

end Diamond

end Site

/-! ## Emission -/

namespace Emits

variable {m : Module} {scope : Scope} {es : List Expr} {s t : Site} {os : List Operand}

theorem nextBlock_le
    (h : Emits m scope es s os t) :
    s.func.nextBlock ≤ t.func.nextBlock := by
  induction h with
  | nil => exact Nat.le_refl _
  | cons _ _ ihhead ihtail => exact Nat.le_trans ihhead ihtail
  | number => exact Nat.le_refl _
  | var _ => exact Nat.le_refl _
  | arith _ _ _ ihlhs ihrhs => exact Nat.le_trans ihlhs ihrhs
  | less _ _ ihlhs ihrhs => exact Nat.le_trans ihlhs ihrhs
  | call _ _ _ _ ihargs => exact ihargs
  | cond _ _ _ ihtest ihthen ihelse =>
      rw [Site.nextBlock_fork] at ihthen
      rw [Site.nextBlock_join]
      exact Nat.le_trans ihtest (Nat.le_trans (Nat.le_of_add_right_le ihthen) ihelse)

theorem nextValue_le
    (h : Emits m scope es s os t) :
    s.func.nextValue ≤ t.func.nextValue := by
  induction h with
  | nil => exact Nat.le_refl _
  | cons _ _ ihhead ihtail => exact Nat.le_trans ihhead ihtail
  | number => exact Nat.le_refl _
  | var _ => exact Nat.le_refl _
  | arith _ _ _ ihlhs ihrhs => exact Nat.le_succ_of_le (Nat.le_trans ihlhs ihrhs)
  | less _ _ ihlhs ihrhs =>
      exact Nat.le_succ_of_le (Nat.le_succ_of_le (Nat.le_trans ihlhs ihrhs))
  | call _ _ _ _ ihargs => exact Nat.le_succ_of_le ihargs
  | cond _ _ _ ihtest ihthen ihelse =>
      rw [Site.nextValue_fork] at ihthen
      rw [Site.nextValue_join]
      exact Nat.le_succ_of_le
        (Nat.le_trans ihtest (Nat.le_trans (Nat.le_of_succ_le ihthen) ihelse))

/-- Emitting changes neither the names nor the parameters of a function. -/
theorem header_eq
    (h : Emits m scope es s os t) :
    t.func.header = s.func.header := by
  induction h with
  | nil => rfl
  | cons _ _ ihhead ihtail => exact ihtail.trans ihhead
  | number => rfl
  | var _ => rfl
  | arith _ _ _ ihlhs ihrhs => exact ihrhs.trans ihlhs
  | less _ _ ihlhs ihrhs => exact ihrhs.trans ihlhs
  | call _ _ _ _ ihargs => exact ihargs
  | cond _ _ _ ihtest ihthen ihelse => exact ihelse.trans (ihthen.trans ihtest)

/-- Emitting only appends blocks. -/
theorem blockIds_append
    (h : Emits m scope es s os t) :
    ∃ more, t.func.blockIds = s.func.blockIds ++ more := by
  induction h with
  | nil => exact ⟨[], by simp⟩
  | cons _ _ ihhead ihtail =>
      obtain ⟨more, hmore⟩ := ihhead
      obtain ⟨rest, hrest⟩ := ihtail
      exact ⟨more ++ rest, by rw [hrest, hmore, List.append_assoc]⟩
  | number => exact ⟨[], by simp⟩
  | var _ => exact ⟨[], by simp⟩
  | arith _ _ _ ihlhs ihrhs =>
      obtain ⟨more, hmore⟩ := ihlhs
      obtain ⟨rest, hrest⟩ := ihrhs
      exact ⟨more ++ rest, by rw [Site.blockIds_push, hrest, hmore, List.append_assoc]⟩
  | less _ _ ihlhs ihrhs =>
      obtain ⟨more, hmore⟩ := ihlhs
      obtain ⟨rest, hrest⟩ := ihrhs
      exact ⟨more ++
        rest, by rw [Site.blockIds_push, Site.blockIds_push, hrest, hmore,
          List.append_assoc]⟩
  | call _ _ _ _ ihargs =>
      obtain ⟨more, hmore⟩ := ihargs
      exact ⟨more, by rw [Site.blockIds_push, hmore]⟩
  | @cond _ _ _ _ t _ _ _ _ _ _ _ _ ihtest ihthen ihelse =>
      obtain ⟨more, hmore⟩ := ihtest
      obtain ⟨inThen, hthen⟩ := ihthen
      obtain ⟨inElse, helse⟩ := ihelse
      refine ⟨more ++ ([t.fresh 0, t.fresh 1, t.fresh 2] ++ (inThen ++ inElse)), ?_⟩
      rw [Site.blockIds_join, helse, Site.func_moveTo, hthen, Site.blockIds_fork, hmore]
      simp only [List.append_assoc]

theorem length_eq
    (h : Emits m scope es s os t) :
    os.length = es.length := by
  induction h with
  | cons _ _ _ ihtail => simp [ihtail]
  | _ => rfl

/-- Emitting only works at the cursor, and leaves the cursor in an open block. -/
theorem open_extends
    (h : Emits m scope es s os t)
    (hopen : s.Open)
    (hbound : t.func.nextBlock ≤ UInt32.size) :
    t.Open ∧ s.Extends t := by
  induction h with
  | nil => exact ⟨hopen, .refl hopen⟩
  | cons hhead htail ihhead ihtail =>
      obtain ⟨hmid, hfirst⟩ := ihhead hopen (Nat.le_trans htail.nextBlock_le hbound)
      obtain ⟨hend, hsecond⟩ := ihtail hmid hbound
      exact ⟨hend, hfirst.trans hopen hhead.nextBlock_le hsecond⟩
  | number => exact ⟨hopen, .refl hopen⟩
  | var _ => exact ⟨hopen, .refl hopen⟩
  | arith _ hlhs hrhs ihlhs ihrhs =>
      obtain ⟨hmid, hfirst⟩ := ihlhs hopen (Nat.le_trans hrhs.nextBlock_le hbound)
      obtain ⟨hend, hsecond⟩ := ihrhs hmid hbound
      refine ⟨hend.push _, ?_⟩
      have hboth := hfirst.trans hopen hlhs.nextBlock_le hsecond
      exact hboth.andPush hopen (Nat.le_trans hlhs.nextBlock_le hrhs.nextBlock_le) hend rfl
  | less hlhs hrhs ihlhs ihrhs =>
      obtain ⟨hmid, hfirst⟩ := ihlhs hopen (Nat.le_trans hrhs.nextBlock_le hbound)
      obtain ⟨hend, hsecond⟩ := ihrhs hmid hbound
      refine ⟨(hend.push _).push _, ?_⟩
      have hboth := hfirst.trans hopen hlhs.nextBlock_le hsecond
      have hle := Nat.le_trans hlhs.nextBlock_le hrhs.nextBlock_le
      exact (hboth.andPush hopen hle hend rfl).andPush hopen hle (hend.push _) rfl
  | call _ _ _ hargs ihargs =>
      obtain ⟨hend, hall⟩ := ihargs hopen hbound
      exact ⟨hend.push _, hall.andPush hopen hargs.nextBlock_le hend rfl⟩
  | cond htest hthen helse ihtest ihthen ihelse =>
      have hthenLe := hthen.nextBlock_le
      have helseLe := helse.nextBlock_le
      rw [Site.nextBlock_fork] at hthenLe
      rw [Site.func_moveTo] at helseLe
      rw [Site.nextBlock_join] at hbound
      obtain ⟨hstart, hfirst⟩ := ihtest hopen (by omega)
      have hdiamond := Site.Diamond.of_branches hstart hthenLe helseLe hbound
        (fun h => ihthen h (Nat.le_trans helseLe hbound)) (fun h => ihelse h hbound)
      exact ⟨hdiamond.open_join _ _,
        hfirst.trans hopen htest.nextBlock_le (hdiamond.extends_join _ _)⟩

/-- The branches of a conditional only work at their cursors. -/
theorem diamond
    {thens elses : List Expr}
    {t u v : Site}
    {x : Operand}
    {ys zs : List Operand}
    (hthen : Emits m scope thens (t.fork x) ys u)
    (helse : Emits m scope elses (u.moveTo (t.fresh 1)) zs v)
    (hstart : t.Open)
    (hbound : v.func.nextBlock ≤ UInt32.size) :
    Site.Diamond t x u v := by
  have helseLe : u.func.nextBlock ≤ v.func.nextBlock := helse.nextBlock_le
  exact .of_branches hstart hthen.nextBlock_le helseLe hbound
    (fun h => hthen.open_extends h (Nat.le_trans helseLe hbound)) (fun h =>
      helse.open_extends h hbound)

end Emits

end ScalarSsa
