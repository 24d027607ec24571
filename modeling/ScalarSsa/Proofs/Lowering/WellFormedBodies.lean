import ScalarSsa.Proofs.Lowering.Bodies
import ScalarSsa.Proofs.Lowering.Supplies
import ScalarSsa.Proofs.Machine.Safety

/-!
# Lowered bodies are well formed

**Input.** A site at which expressions are emitted, and a supply for which its
function is lawful.

**Definitions.** `Reaches` says that a later site is lawful and open too and that what could
be used stays usable there.

**Results.** `Emits.serves`: emitting reaches a site at which the operands can be used; one
step lemma for each rule of emission, with the supply of a conditional's three blocks fixed
when it is forked.  `Lowers.wellFormed`: every lowered body is well formed, its calls find
functions of the recorded names, and its entry has no phi.
-/

namespace ScalarSsa

theorem Terminator.mem_successors_branch
    {cond : Operand}
    {thenBlock elseBlock target : BlockId} :
    target ∈ (Terminator.branch cond thenBlock elseBlock).successors ↔ target = thenBlock ∨
      target = elseBlock := by
  by_cases h : thenBlock = elseBlock <;> simp [successors, h]

/-! ## Sites -/

namespace Site

variable {m : Module} {A A' A'' : Supply} {s t u : Site}

/-- An operand of a type can be used at the end of the site's block. -/
def Usable (A : Supply) (s : Site) (o : Operand) (type : ValueType) : Prop :=
  s.func.HasType o type ∧ ∀ v, o = .result v → s.func.Supplies A s.block v

/-- Instructions may be put in at the site. -/
structure Ready (m : Module) (A : Supply) (s : Site) : Prop where
  opened : s.Open
  lawful : s.func.Lawful m A
  phis : s.func.PhisMeet

/--
The later site is ready as well, and what can be used at the earlier one can be used there.
-/
structure Reaches (m : Module) (A : Supply) (s : Site) (A' : Supply) (t : Site) :
    Prop extends t.Ready m A' where
  grows : s.func.Grows A A' t.func
  keeps : ∀ v, s.func.Supplies A s.block v → t.func.Supplies A' t.block v

namespace Reaches

theorem refl
    (h : s.Ready m A) :
    Reaches m A s A s :=
  ⟨h, .refl A s.func, fun _ hv => hv⟩

theorem trans
    (h : Reaches m A s A' t)
    (h' : Reaches m A' t A'' u) :
    Reaches m A s A'' u :=
  ⟨h'.toReady, h.grows.trans h'.grows, fun v hv => h'.keeps v (h.keeps v hv)⟩

theorem usable
    (h : Reaches m A s A' t)
    {o : Operand}
    {type : ValueType}
    (ho : s.Usable A o type) :
    t.Usable A' o type :=
  ⟨h.grows.hasType ho.1, fun v hv => h.keeps v (ho.2 v hv)⟩

end Reaches

/-- The block at the cursor is the only one that an instruction changes. -/
theorem edited_push
    (hids : s.func.blockIds.Nodup)
    {b : Block}
    (hb : s.func.block? s.block = some b)
    (kind : InstrKind) :
    s.func.Edited (s.push kind).func b (b.insert ⟨s.next, kind⟩) := by
  obtain ⟨hmem, hid⟩ := Function.mem_of_block?_eq_some hb
  refine ⟨hmem, fun x => ?_, blockIds_push s kind, rfl, Block.id_insert _ b, fun i hi => ?_⟩
  · rw [push, ← hid]
    exact Function.mem_mapBlock_iff hids hmem _ x
  · unfold Block.insert
    split
    · rw [← b.phis_append_body] at hi
      rcases List.mem_append.1 hi with hi | hi
      · exact List.mem_append_left _ hi
      · exact List.mem_append_right _ (List.mem_cons_of_mem _ hi)
    · exact List.mem_append_left _ hi

theorem edited_close
    (hids : s.func.blockIds.Nodup)
    {b : Block}
    (hb : s.func.block? s.block = some b)
    (term : Terminator) :
    s.func.Edited (s.close term).func b { b with term := some term } := by
  obtain ⟨hmem, hid⟩ := Function.mem_of_block?_eq_some hb
  refine ⟨hmem, fun x => ?_, blockIds_close s term, rfl, rfl, fun _ hi => hi⟩
  rw [close, ← hid]
  exact Function.mem_mapBlock_iff hids hmem _ x

theorem next_not_mem_results
    (hlawful : s.func.Lawful m A)
    (hbound : s.func.nextValue + 1 ≤ UInt32.size) :
    s.next ∉ s.func.results := by
  intro hmem
  have hlt := hlawful.below _ hmem
  rw [number_next s hbound] at hlt
  omega

/-- The result of an instruction can be used right after it. -/
theorem usable_push
    (hopen : s.Open)
    (A : Supply)
    (kind : InstrKind) :
    (s.push kind).Usable A (.result s.next) kind.type := by
  obtain ⟨b, hb, -⟩ := hopen.cursor
  have hedit := edited_push hopen.nodup hb kind
  have hmem := (hedit.blocks _).2 (.inl rfl)
  have hin : (⟨s.next, kind⟩ : Instr) ∈ (b.insert ⟨s.next, kind⟩).instrs := by
    unfold Block.insert
    split <;> simp
  refine ⟨⟨_, Function.mem_instrs_iff.2 ⟨_, hmem, hin⟩, rfl, rfl⟩, ?_⟩
  rintro v ⟨⟩
  refine .inr ⟨_, hmem, ?_, List.mem_map_of_mem hin⟩
  rw [Block.id_insert, block_push]
  exact (Function.mem_of_block?_eq_some hb).2

/--
A block with a plain instruction at its end keeps to the rules if the operands
can be used there.
-/
theorem lawful_push
    (hlawful : s.func.Lawful m A)
    (hopen : s.Open)
    (hbound : s.func.nextValue + 1 ≤ UInt32.size)
    {kind : InstrKind}
    (hplain : kind.isPhi = false)
    (huses : ∀ u ∈ kind.uses, s.Usable A u.1 u.2)
    (hcall : Function.CallFound m kind) :
    (s.push kind).func.Lawful m A := by
  obtain ⟨b, hb, -⟩ := hopen.cursor
  obtain ⟨hmem, hid⟩ := Function.mem_of_block?_eq_some hb
  have hnew := next_not_mem_results hlawful hbound
  have hedit := edited_push hopen.nodup hb kind
  have hgrows := hedit.grows hopen.nodup A
  have hold := hgrows.lawful_block hmem (hlawful.blocks b hmem)
  have hinsert : b.insert ⟨s.next, kind⟩ =
      { b with instrs := b.instrs ++ [⟨s.next, kind⟩] } := by
    simp [Block.insert, hplain]
  rw [hinsert] at hedit
  have hresults : Block.results { b with instrs := b.instrs ++ [⟨s.next, kind⟩] } =
    b.results ++ [s.next] := by
    simp [Block.results]
  have hnotin : s.next ∉ b.results :=
    fun hin => hnew (Function.mem_results_iff.2 ⟨b, hmem, hin⟩)
  refine hedit.lawful hopen.nodup hlawful (Nat.le_succ _) ?_ ?_ ?_ ?_
  · rw [hresults, List.nodup_append]
    refine ⟨Function.results_nodup_of_mem hlawful.results_nodup hmem, by simp, ?_⟩
    rintro v hv _ hw rfl
    exact hnotin (List.mem_singleton.1 hw ▸ hv)
  · intro v hv
    rw [hresults, List.mem_append, List.mem_singleton] at hv
    rcases hv with hv | rfl
    · exact .inl hv
    · exact .inr hnew
  · intro v hv
    rw [hresults, List.mem_append, List.mem_singleton] at hv
    rw [nextValue_push]
    rcases hv with hv | rfl
    · exact Nat.lt_succ_of_lt (hlawful.below v (Function.mem_results_iff.2 ⟨b, hmem, hv⟩))
    · rw [number_next s hbound]
      exact Nat.lt_succ_self _
  · refine hold.append hplain (fun hsupply => hnew (hlawful.known _ _ hsupply).2)
      (fun u hu => hgrows.hasType (huses u hu).1) ?_ hcall
    intro v hv
    obtain ⟨type, hu⟩ := InstrKind.exists_use_of_mem_operands hv
    rcases (huses _ hu).2 v rfl with hcame | ⟨c, hc, hcid, hcomputed⟩
    · exact .inr (hid ▸ hcame)
    · obtain rfl := Function.block_eq_of_id_eq hopen.nodup hc hmem (hcid.trans hid.symm)
      exact .inl hcomputed

/--
An empty block with a phi keeps to the rules if each operand is there when
its predecessor ends.
-/
theorem lawful_push_phi
    (hlawful : s.func.Lawful m A)
    (hids : s.func.blockIds.Nodup)
    (hbound : s.func.nextValue + 1 ≤ UInt32.size)
    {label : String}
    (hb : s.func.block? s.block = some (.empty s.block label))
    {type : ValueType}
    {incoming : List (Operand × BlockId)}
    (hedges : ∀ edge ∈ incoming, (s.moveTo edge.2).Usable A edge.1 type) :
    (s.push (.phi type incoming)).func.Lawful m A := by
  have hnew := next_not_mem_results hlawful hbound
  have hedit := edited_push hids hb (.phi type incoming)
  have hgrows := hedit.grows hids A
  refine hedit.lawful hids hlawful (Nat.le_succ _) ?_ ?_ ?_ ?_
  · simp [Block.insert, Block.empty, Block.results, Block.phis, Block.body, InstrKind.isPhi]
  · simpa [Block.insert, Block.empty, Block.results, Block.phis, Block.body,
      InstrKind.isPhi] using hnew
  · simp [Block.insert, Block.empty, Block.results, Block.phis, Block.body, InstrKind.isPhi,
      number_next s hbound]
  · have hinsert : (Block.empty s.block label).insert ⟨s.next, .phi type incoming⟩ =
        ⟨s.block, label, [⟨s.next, .phi type incoming⟩], none⟩ := rfl
    rw [hinsert]
    refine ⟨?_, ?_, by simp [Block.termOperands], by simp [Block.successors],
      by simp [Block.successors], ?_,
      by simp [Block.termUses], by simp [Block.body, InstrKind.isPhi], ?_, ?_⟩
    · intro v hv hsupply
      obtain rfl : v = s.next := by simpa [Block.results] using hv
      exact hnew (hlawful.known _ _ hsupply).2
    · intro pre i post hsplit hi
      have hsplit' : [(⟨s.next, .phi type incoming⟩ : Instr)] = pre ++ i :: post := hsplit
      have hmem : i ∈ [(⟨s.next, .phi type incoming⟩ : Instr)] := by
        rw [hsplit']
        simp
      obtain rfl := List.mem_singleton.1 hmem
      cases hi
    · intro i hi u hu
      obtain rfl := List.mem_singleton.1 hi
      obtain ⟨edge, he, rfl⟩ := List.mem_map.1 hu
      exact hgrows.hasType (hedges edge he).1
    · intro i hi type' incoming' hkind v pred he
      obtain rfl := List.mem_singleton.1 hi
      cases hkind
      exact hgrows.supplies ((hedges _ he).2 v rfl)
    · intro i hi
      obtain rfl := List.mem_singleton.1 hi
      intro callee name args hkind
      cases hkind

/--
A block that is ended keeps to the rules if what its targets are supplied with is there.
-/
theorem lawful_close
    (hlawful : s.func.Lawful m A)
    (hids : s.func.blockIds.Nodup)
    (hplace : s.block ∈ s.func.blockIds)
    {term : Terminator}
    (htargets : ∀ target ∈ term.successors, target ∈ s.func.blockIds ∧
      ∀ v, A target v → s.func.Supplies A s.block v)
    (huses : ∀ u ∈ term.uses, s.Usable A u.1 u.2) :
    (s.close term).func.Lawful m A ∧ s.func.Grows A A (s.close term).func := by
  obtain ⟨b, hmem, hid⟩ := Function.mem_blockIds_iff.1 hplace
  have hedit := edited_close hids ((Function.block?_eq_some_iff hids).2 ⟨hmem, hid⟩) term
  have hgrows := hedit.grows hids A
  have hold := hgrows.lawful_block hmem (hlawful.blocks b hmem)
  have hnodup : b.results.Nodup := Function.results_nodup_of_mem hlawful.results_nodup hmem
  refine ⟨hedit.lawful hids hlawful (Nat.le_refl _) hnodup (fun v hv => .inl hv) ?_ ?_,
    hgrows⟩
  · exact fun v hv => hlawful.below v (Function.mem_results_iff.2 ⟨b, hmem, hv⟩)
  · refine ⟨hold.fresh, hold.uses, ?_, ?_, ?_, hold.typed, ?_, hold.phis_first,
      hold.edges, hold.calls⟩
    · intro v hv
      obtain ⟨type, hu⟩ := Block.exists_use_of_mem_termOperands hv
      exact hgrows.supplies (hid ▸ (huses _ hu).2 v rfl)
    · exact fun target htarget => hgrows.blockIds (htargets target htarget).1
    · exact fun target htarget v hv =>
        hgrows.supplies (hid ▸ (htargets target htarget).2 v hv)
    · exact fun u hu => hgrows.hasType (huses u hu).1

/-- A block may jump to one that is supplied with no more than is there. -/
theorem lawful_jump
    (hlawful : s.func.Lawful m A)
    (hids : s.func.blockIds.Nodup)
    {source target : BlockId}
    (hsource : source ∈ s.func.blockIds)
    (htarget : target ∈ s.func.blockIds)
    (hflow : ∀ v, A target v → s.func.Supplies A source v) :
    ((s.moveTo source).close (.jump target)).func.Lawful m A ∧
      s.func.Grows A A ((s.moveTo source).close (.jump target)).func := by
  refine lawful_close (s := s.moveTo source) hlawful hids hsource ?_
    (by simp [Terminator.uses])
  intro id hid
  obtain rfl := List.mem_singleton.1 hid
  exact ⟨htarget, hflow⟩

theorem phisMeet_push
    (hopen : s.Open)
    (hphis : s.func.PhisMeet)
    {kind : InstrKind}
    (hplain : kind.isPhi = false) :
    (s.push kind).func.PhisMeet := by
  obtain ⟨b, hb, -⟩ := hopen.cursor
  have hedit := edited_push hopen.nodup hb kind
  intro c hc i hi type incoming hkind pred
  have hpreds : (s.push kind).func.predecessors c.id = s.func.predecessors c.id := by
    refine Function.predecessors_mapBlocks (fun x => ?_) (fun x => ?_) c.id
    · split
      · exact Block.id_insert _ x
      · rfl
    · split
      · unfold Block.insert
        split <;> rfl
      · rfl
  rw [hpreds]
  rcases (hedit.blocks c).1 hc with rfl | ⟨hc, -⟩
  · rw [Block.id_insert]
    refine hphis b hedit.mem i ?_ type incoming hkind pred
    simp only [Block.insert, hplain, Bool.false_eq_true, if_false, List.mem_append,
      List.mem_singleton] at hi
    rcases hi with hi | rfl
    · exact hi
    · simp only at hkind
      simp [hkind, InstrKind.isPhi] at hplain
  · exact hphis c hc i hi type incoming hkind pred

/-- A plain instruction whose operands can be used. -/
theorem reaches_push
    (h : s.Ready m A)
    (hbound : s.func.nextValue + 1 ≤ UInt32.size)
    {kind : InstrKind}
    (hplain : kind.isPhi = false)
    (huses : ∀ u ∈ kind.uses, s.Usable A u.1 u.2)
    (hcall : Function.CallFound m kind) :
    Reaches m A s A (s.push kind) := by
  obtain ⟨b, hb, -⟩ := h.opened.cursor
  have hgrows := (edited_push h.opened.nodup hb kind).grows h.opened.nodup A
  exact ⟨⟨h.opened.push kind, lawful_push h.lawful h.opened hbound hplain huses hcall,
    phisMeet_push h.opened h.phis hplain⟩, hgrows, fun v hv => hgrows.supplies hv⟩

/-! ## Conditionals -/

section Fork

variable (test : Operand)

/-- The supply of a fork: its blocks start with what is there when the test is done. -/
def forkSupply (A : Supply) (s : Site) (test : Operand) : Supply :=
  let values := (s.push (.compare .one test (.const 0.0))).func.Supplies A s.block
  ((A.give (s.fresh 0) values).give (s.fresh 1) values).give (s.fresh 2) values

theorem forkSupply_fresh
    {offset : Nat}
    (hoffset : offset < 3)
    {v : ValueId}
    (hv : (s.push (.compare .one test (.const 0.0))).func.Supplies A s.block v) :
    forkSupply A s test (s.fresh offset) v := by
  obtain rfl | rfl | rfl : offset = 0 ∨ offset = 1 ∨ offset = 2 := by omega
  · exact .inl (.inl (.inr ⟨rfl, hv⟩))
  · exact .inl (.inr ⟨rfl, hv⟩)
  · exact .inr ⟨rfl, hv⟩

/-- A new block is supplied with nothing else. -/
theorem of_forkSupply
    (hlawful : (s.push (.compare .one test (.const 0.0))).func.Lawful m A)
    (h : s.Open)
    {id : BlockId}
    (hid : s.func.nextBlock ≤ id.number)
    {v : ValueId}
    (hv : forkSupply A s test id v) :
    (s.push (.compare .one test (.const 0.0))).func.Supplies A s.block v := by
  rcases hv with ((hv | ⟨-, hv⟩) | ⟨-, hv⟩) | ⟨-, hv⟩
  · have hlt := (h.push _).below _ (hlawful.known id v hv).1
    rw [nextBlock_push] at hlt
    omega
  · exact hv
  · exact hv
  · exact hv

/-- The test of a conditional on an operand that can be used. -/
theorem reaches_test
    (h : s.Ready m A)
    (hbound : s.func.nextValue + 1 ≤ UInt32.size)
    (htest : s.Usable A test .double) :
    Reaches m A s A (s.push (.compare .one test (.const 0.0))) := by
  refine reaches_push h hbound rfl ?_ (by rintro _ _ _ ⟨⟩)
  simp only [InstrKind.uses, List.mem_cons, List.not_mem_nil, or_false,
    forall_eq_or_imp, forall_eq]
  exact ⟨htest, rfl, by rintro _ ⟨⟩⟩

/-- What is there when the test is done is there when a branch starts. -/
theorem reaches_fork
    (h : s.Open)
    (hbound : s.func.nextBlock + 3 ≤ UInt32.size)
    (htest : (s.push (.compare .one test (.const 0.0))).Ready m A) :
    Reaches m A (s.push (.compare .one test (.const 0.0))) (forkSupply A s test)
      (s.fork test) := by
  have hcount : (s.push (.compare .one test (.const 0.0))).func.nextBlock + 3 ≤
      UInt32.size := hbound
  obtain ⟨hlawful₁, hphis₁, hbelow₁, hvalues₁, hgrows₁⟩ :=
    Function.appendBlock_step "then" htest.lawful htest.phis
    htest.opened.below (fun v hv => htest.lawful.mem_results hv) (by omega)
  obtain ⟨hlawful₂, hphis₂, hbelow₂, hvalues₂, hgrows₂⟩ :=
    Function.appendBlock_step "else" hlawful₁ hphis₁ hbelow₁
    hvalues₁ (Nat.lt_of_succ_lt hcount)
  obtain ⟨hlawful₃, hphis₃, -, -, hgrows₃⟩ :=
    Function.appendBlock_step "ifcont" hlawful₂ hphis₂ hbelow₂ hvalues₂ hcount
  refine ⟨⟨h.fork hbound test, hlawful₃, hphis₃⟩,
    hgrows₁.trans (hgrows₂.trans hgrows₃), fun v hv => ?_⟩
  exact .inl (forkSupply_fresh test (show 0 < 3 by omega) hv)

end Fork

section Join

variable {x y z : Operand} {v : Site}

/-- The blocks that a join changes are open before it. -/
theorem Diamond.open_ends
    (h : Diamond t x u v)
    {id : BlockId}
    (hid : id = t.block ∨ id = u.block ∨ id = v.block ∨ id = t.fresh 2) :
    ∃ b, v.func.block? id = some b ∧ b.term = none := by
  rcases hid with rfl | rfl | rfl | rfl
  · obtain ⟨b, hb, hterm⟩ := (h.start.push (.compare .one x (.const 0.0))).cursor
    exact ⟨b, h.block?_of_lt h.start.block_lt hb, hterm⟩
  · obtain ⟨b, hb, hterm⟩ := h.thenOpen.cursor
    exact ⟨b, h.block?_thenEnd hb, hterm⟩
  · exact h.elseOpen.cursor
  · obtain ⟨label, hmerge⟩ := h.block?_merge
    exact ⟨_, hmerge, rfl⟩

/-- The edges that a join has and those that it adds. -/
theorem Diamond.edge_join_iff
    (h : Diamond t x u v)
    (y z : Operand)
    (id target : BlockId) :
    (∃ b, (t.join u v y z).func.block? id = some b ∧ target ∈ b.successors) ↔
      (∃ b, v.func.block? id = some b ∧ target ∈ b.successors) ∨
        id = t.block ∧ (target = t.fresh 0 ∨ target = t.fresh 1) ∨
        (id = u.block ∨ id = v.block) ∧ target = t.fresh 2 := by
  obtain ⟨htu, htv, htm, -, hum, hvm⟩ := h.distinct
  rw [h.block?_join]
  by_cases hidt : id = t.block
  · subst hidt
    obtain ⟨b, hb, hterm⟩ := h.open_ends (.inl rfl)
    have hne : t.fresh 0 ≠ t.fresh 1 := by
      simp [fresh_inj h.bound_start]
    simp [hb, hterm, htu, htv, Block.successors, Terminator.successors, hne]
  · by_cases hends : id = u.block ∨ id = v.block
    · obtain ⟨b, hb, hterm⟩ := h.open_ends (.inr (hends.imp_right .inl))
      simp [hidt, hends, hb, hterm, Block.successors, Terminator.successors]
    · by_cases hmerge : id = t.fresh 2
      · subst hmerge
        obtain ⟨label, hb⟩ := h.block?_merge
        simp [hidt, hends, hb, Block.empty, Block.successors, Block.insert, InstrKind.isPhi]
      · simp [hidt, hends, hmerge]

/-- The two blocks at which the branches start have no phis. -/
theorem Diamond.branch_plain
    (h : Diamond t x u v)
    {offset : Nat}
    (hoffset : offset < 2)
    {b : Block}
    (hb : v.func.block? (t.fresh offset) = some b) :
    ∀ i ∈ b.instrs, i.kind.isPhi = false := by
  obtain rfl | rfl : offset = 0 ∨ offset = 1 := by omega
  · obtain ⟨label, hfresh⟩ :=
      block?_fork_fresh h.start h.bound_start x (show 0 < 3 by omega)
    obtain ⟨c, added, hc, hinstrs, hplain, -⟩ := h.thenExtends.cursor _ hfresh
    have hkeep : v.func.block? (t.fresh 0) = some c := by
      refine h.elseExtends.others _ _ (fun heq => ?_) hc
      simpa using (fresh_inj h.bound_start (by omega) (by omega)).1 heq
    rw [hb] at hkeep
    cases hkeep
    rw [hinstrs]
    exact hplain
  · obtain ⟨label, hfresh⟩ := h.block?_fresh (show 1 < 3 by omega) (by omega)
    obtain ⟨c, added, hc, hinstrs, hplain, -⟩ := h.elseExtends.cursor _ hfresh
    have hkeep : v.func.block? (t.fresh 1) = some c := hc
    rw [hb] at hkeep
    cases hkeep
    rw [hinstrs]
    exact hplain

/-- Before a join no edge leads to the block in which the branches meet. -/
theorem Diamond.merge_free
    (h : Diamond t x u v)
    (htargets : ∀ b ∈ t.func.blocks, ∀ target ∈ b.successors, target ∈ t.func.blockIds)
    {id : BlockId}
    {b : Block}
    (hb : v.func.block? id = some b) :
    t.fresh 2 ∉ b.successors := by
  intro htarget
  have hnumber := h.number_fresh (show 2 < 3 by omega)
  have hle := h.thenLe
  have hthen : u.func.block? id = some b := by
    refine (h.elseExtends.targets id b _ hb htarget).resolve_right fun hnew => ?_
    rw [func_moveTo] at hnew
    omega
  have hfork : (t.fork x).func.block? id = some b := by
    refine (h.thenExtends.targets id b _ hthen htarget).resolve_right fun hnew => ?_
    rw [nextBlock_fork] at hnew
    omega
  by_cases hid : id.number < t.func.nextBlock
  · rw [block?_fork_of_lt h.bound_start x hid] at hfork
    have hne : id ≠ t.block := by
      rintro rfl
      obtain ⟨c, hc, hterm⟩ := (h.start.push (.compare .one x (.const 0.0))).cursor
      rw [block_push, hfork] at hc
      cases hc
      simp [Block.successors, hterm] at htarget
    rw [block?_push, if_neg hne] at hfork
    have hlt :=
      h.start.below _ (htargets b (Function.mem_of_block?_eq_some hfork).1 _ htarget)
    omega
  · have hterm := term_of_block?_fork h.start x hfork (by omega)
    simp [Block.successors, hterm] at htarget

/-- A join puts an instruction only into the block in which the branches meet. -/
theorem Diamond.instrs_join
    (h : Diamond t x u v)
    (y z : Operand)
    {id : BlockId}
    {b : Block}
    (hb : (t.join u v y z).func.block? id = some b)
    (hid : id ≠ t.fresh 2) :
    ∃ c, v.func.block? id = some c ∧ c.instrs = b.instrs := by
  rw [h.block?_join] at hb
  split at hb
  · obtain ⟨c, hc, rfl⟩ := Option.map_eq_some_iff.1 hb
    exact ⟨c, hc, rfl⟩
  · split at hb
    · obtain ⟨c, hc, rfl⟩ := Option.map_eq_some_iff.1 hb
      exact ⟨c, hc, rfl⟩
    · exact ⟨b, hb, rfl⟩

theorem Diamond.phisMeet_join
    (h : Diamond t x u v)
    (htargets : ∀ b ∈ t.func.blocks, ∀ target ∈ b.successors, target ∈ t.func.blockIds)
    (hphis : v.func.PhisMeet)
    (y z : Operand) :
    (t.join u v y z).func.PhisMeet := by
  have hids := (h.open_join y z).nodup
  have hpreds : ∀ pred id, pred ∈ (t.join u v y z).func.predecessors id ↔
      pred ∈ v.func.predecessors id ∨ pred = t.block ∧ (id = t.fresh 0 ∨ id = t.fresh 1) ∨
        (pred = u.block ∨ pred = v.block) ∧ id = t.fresh 2 := by
    intro pred id
    rw [Function.mem_predecessors_iff_block? hids, h.edge_join_iff y z,
      Function.mem_predecessors_iff_block? h.elseOpen.nodup]
  obtain ⟨-, -, htm, -, hum, hvm⟩ := h.distinct
  intro b hb i hi type incoming hkind pred
  rw [hpreds]
  have hfound := (Function.block?_eq_some_iff hids).2 ⟨hb, rfl⟩
  by_cases hmerge : b.id = t.fresh 2
  · -- the new phi: only the two ends lead here
    obtain ⟨label, hblock⟩ := h.block?_join_merge y z
    rw [hmerge, hblock] at hfound
    cases hfound
    obtain rfl := List.mem_singleton.1 hi
    cases hkind
    have hnone : pred ∉ v.func.predecessors (t.fresh 2) := by
      rw [Function.mem_predecessors_iff_block? h.elseOpen.nodup]
      rintro ⟨c, hc, htarget⟩
      exact h.merge_free htargets hc htarget
    have h0 : t.fresh 2 ≠ t.fresh 0 := by simp [fresh_inj h.bound_start]
    have h1 : t.fresh 2 ≠ t.fresh 1 := by simp [fresh_inj h.bound_start]
    simp [hnone, h0, h1]
  · -- an older phi, in a block with the same edges as before
    obtain ⟨c, hc, hinstrs⟩ := h.instrs_join y z hfound hmerge
    have hid := (Function.mem_of_block?_eq_some hc).2
    have hbranch : ∀ offset < 2, b.id ≠ t.fresh offset := by
      intro offset hoffset heq
      rw [heq] at hc
      have hplain := h.branch_plain hoffset hc i (hinstrs ▸ hi)
      simp [hkind, InstrKind.isPhi] at hplain
    rw [hphis c (Function.mem_of_block?_eq_some hc).1 i (hinstrs ▸ hi) type incoming
      hkind pred, hid]
    simp [hbranch 0, hbranch 1, hmerge]

theorem Diamond.mem_blockIds
    (h : Diamond t x u v)
    {id : BlockId}
    (hid : id = t.block ∨ id = u.block ∨ id = v.block ∨ id = t.fresh 2) :
    id ∈ v.func.blockIds := by
  obtain ⟨b, hb, -⟩ := h.open_ends hid
  obtain ⟨hmem, rfl⟩ := Function.mem_of_block?_eq_some hb
  exact List.mem_map_of_mem hmem

/--
A join is lawful if both branches carry what the block in which they meet is supplied with.
-/
theorem Diamond.lawful_join
    (h : Diamond t x u v)
    (hbound : v.func.nextValue + 1 ≤ UInt32.size)
    (hlawful : v.func.Lawful m A)
    (hy : (v.moveTo u.block).Usable A y .double)
    (hz : v.Usable A z .double)
    (htest : (v.moveTo t.block).Usable A (.result t.next) .bool)
    (hbranches : ∀ offset < 2, t.fresh offset ∈ v.func.blockIds ∧
      ∀ w, A (t.fresh offset) w → v.func.Supplies A t.block w)
    (hthenEnd : ∀ w, A (t.fresh 2) w → v.func.Supplies A u.block w)
    (helseEnd : ∀ w, A (t.fresh 2) w → v.func.Supplies A v.block w) :
    (t.join u v y z).func.Lawful m A ∧ v.func.Grows A A (t.join u v y z).func := by
  have hids := h.elseOpen.nodup
  have hmeet := h.mem_blockIds (.inr (.inr (.inr rfl)))
  -- the phi, and then the terminators one by one
  obtain ⟨label, hmerge⟩ := h.block?_merge
  obtain ⟨phi, hphi⟩ : ∃ p,
    p = (v.moveTo (t.fresh 2)).push (.phi .double [(y, u.block), (z, v.block)]) := ⟨_, rfl⟩
  have hids₁ : phi.func.blockIds = v.func.blockIds := hphi ▸ blockIds_push _ _
  have hgrows₁ : v.func.Grows A A phi.func :=
    hphi ▸ (edited_push (s := v.moveTo (t.fresh 2)) hids hmerge _).grows hids A
  have hlawful₁ : phi.func.Lawful m A := by
    rw [hphi]
    refine lawful_push_phi (s := v.moveTo (t.fresh 2)) hlawful hids hbound hmerge ?_
    simp only [List.mem_cons, List.not_mem_nil, or_false, forall_eq_or_imp, forall_eq]
    exact ⟨hy, hz⟩
  obtain ⟨thenEnd, hthenClose⟩ : ∃ p, p = (phi.moveTo u.block).close (.jump (t.fresh 2)) :=
    ⟨_, rfl⟩
  have hids₂ : thenEnd.func.blockIds = v.func.blockIds := by
    rw [hthenClose, blockIds_close, func_moveTo, hids₁]
  obtain ⟨hlawful₂, hgrows₂⟩ : thenEnd.func.Lawful m A ∧
    phi.func.Grows A A thenEnd.func := by
    rw [hthenClose]
    exact lawful_jump hlawful₁ (hids₁ ▸ hids)
      (hids₁ ▸ h.mem_blockIds (.inr (.inl rfl))) (hids₁ ▸ hmeet)
      fun w hw => hgrows₁.supplies (hthenEnd w hw)
  obtain ⟨elseEnd, helseClose⟩ : ∃ p,
    p = (thenEnd.moveTo v.block).close (.jump (t.fresh 2)) := ⟨_, rfl⟩
  have hids₃ : elseEnd.func.blockIds = v.func.blockIds := by
    rw [helseClose, blockIds_close, func_moveTo, hids₂]
  obtain ⟨hlawful₃, hgrows₃⟩ : elseEnd.func.Lawful m A ∧
    thenEnd.func.Grows A A elseEnd.func := by
    rw [helseClose]
    exact lawful_jump hlawful₂ (hids₂ ▸ hids)
      (hids₂ ▸ h.mem_blockIds (.inr (.inr (.inl rfl)))) (hids₂ ▸ hmeet)
      fun w hw => (hgrows₁.trans hgrows₂).supplies (helseEnd w hw)
  have hthree := hgrows₁.trans (hgrows₂.trans hgrows₃)
  have hjoin : (t.join u v y z).func =
      ((elseEnd.moveTo t.block).close
        (.branch (.result t.next) (t.fresh 0) (t.fresh 1))).func := by
    rw [helseClose, hthenClose, hphi]
    rfl
  obtain ⟨hlawful₄, hgrows₄⟩ : (t.join u v y z).func.Lawful m A ∧
    elseEnd.func.Grows A A (t.join u v y z).func := by
    rw [hjoin]
    refine lawful_close (s := elseEnd.moveTo t.block) hlawful₃ (hids₃ ▸ hids)
      (hids₃ ▸ h.mem_blockIds (.inl rfl)) ?_ ?_
    · intro target htarget
      obtain ⟨offset, hoffset, rfl⟩ : ∃ offset < 2, target = t.fresh offset := by
        rcases Terminator.mem_successors_branch.1 htarget with rfl | rfl
        · exact ⟨0, by omega, rfl⟩
        · exact ⟨1, by omega, rfl⟩
      obtain ⟨hmem, hsupplies⟩ := hbranches offset hoffset
      exact ⟨hids₃ ▸ hmem, fun w hw => hthree.supplies (hsupplies w hw)⟩
    · intro use huse
      obtain rfl := List.mem_singleton.1 huse
      exact ⟨hthree.hasType htest.1, fun w hw => hthree.supplies (htest.2 w hw)⟩
  exact ⟨hlawful₄, hthree.trans hgrows₄⟩

/--
A conditional with lawful branches, joined where both of them carry what is there
when the test is done.
-/
theorem Diamond.reaches_join
    (h : Diamond t x u v)
    (hbound : v.func.nextValue + 1 ≤ UInt32.size)
    (hstart : t.func.Lawful m A)
    (htest : (t.push (.compare .one x (.const 0.0))).func.Lawful m A)
    (hfork : Reaches m A (t.push (.compare .one x (.const 0.0)))
      (forkSupply A t x) (t.fork x))
    (hthen : Reaches m (forkSupply A t x) (t.fork x) A' u)
    (helse : Reaches m A' (u.moveTo (t.fresh 1)) A'' v)
    (hy : u.Usable A' y .double)
    (hz : v.Usable A'' z .double) :
    Reaches m A (t.push (.compare .one x (.const 0.0))) A'' (t.join u v y z) := by
  have hafter := hthen.grows.trans helse.grows
  have hall := hfork.grows.trans hafter
  have hblocks : ∀ offset < 3, t.fresh offset ∈ (t.fork x).func.blockIds := by
    intro offset hoffset
    rw [blockIds_fork]
    obtain rfl | rfl | rfl : offset = 0 ∨ offset = 1 ∨ offset = 2 := by omega
    all_goals simp
  -- what the new blocks are supplied with is there at the end of the test and at the ends
  -- of both branches
  have hfresh : ∀ offset < 3, ∀ w, A'' (t.fresh offset) w →
      (t.push (.compare .one x (.const 0.0))).func.Supplies A t.block w := by
    intro offset hoffset w hw
    refine of_forkSupply x htest h.start ?_ (hafter.takes _ (hblocks offset hoffset) w hw)
    rw [h.number_fresh hoffset]
    omega
  have hthenEnd : ∀ w, A'' (t.fresh 2) w → v.func.Supplies A'' u.block w := by
    intro w hw
    have hstarts := forkSupply_fresh x (show 0 < 3 by omega) (hfresh 2 (by omega) w hw)
    exact helse.grows.supplies (hthen.keeps w (.inl hstarts))
  have helseEnd : ∀ w, A'' (t.fresh 2) w → v.func.Supplies A'' v.block w := by
    intro w hw
    have hstarts := forkSupply_fresh x (show 1 < 3 by omega) (hfresh 2 (by omega) w hw)
    exact helse.keeps w (.inl (hthen.grows.gives _ w hstarts))
  have hflag := usable_push h.start A (.compare .one x (.const 0.0))
  obtain ⟨hlawful, hgrows⟩ := h.lawful_join hbound helse.lawful
    ⟨helse.grows.hasType hy.1, fun w hw => helse.grows.supplies (hy.2 w hw)⟩ hz
    ⟨hall.hasType hflag.1, fun w hw => hall.supplies (hflag.2 w hw)⟩
    (fun offset hoffset => ⟨hafter.blockIds (hblocks offset (by omega)),
      fun w hw => hall.supplies (hfresh offset (by omega) w hw)⟩) hthenEnd helseEnd
  refine ⟨⟨h.open_join y z, hlawful,
    h.phisMeet_join (fun b hb => (hstart.blocks b hb).targets) helse.phis y z⟩,
    hall.trans hgrows, fun w hw => ?_⟩
  exact .inl (hafter.gives _ w (forkSupply_fresh x (show 2 < 3 by omega) hw))

/-- The result of a conditional can be used where the branches meet. -/
theorem Diamond.usable_join
    (h : Diamond t x u v)
    (A : Supply) :
    (t.join u v y z).Usable A (.result v.next) .double := by
  obtain ⟨label, hmerge⟩ := h.block?_join_merge y z
  have hmem := (Function.mem_of_block?_eq_some hmerge).1
  refine ⟨⟨_, Function.mem_instrs_iff.2 ⟨_, hmem, List.mem_cons_self⟩, rfl, rfl⟩, ?_⟩
  rintro w ⟨⟩
  exact .inr ⟨_, hmem, rfl, List.mem_cons_self⟩

end Join

end Site

/-! ## Emission -/

namespace Site

/--
From the earlier site on, if it is ready, the later one can be reached with these operands.
-/
def Serves (m : Module) (arity : Nat) (s : Site) (os : List Operand) (t : Site) : Prop :=
  ∀ A, s.Ready m A → s.func.arity = arity → t.func.nextBlock ≤ UInt32.size →
    t.func.nextValue ≤ UInt32.size →
    ∃ A', Reaches m A s A' t ∧ ∀ o ∈ os, t.Usable A' o .double

namespace Serves

variable {m : Module} {arity : Nat} {s t u : Site} {os os' : List Operand}

theorem append
    (h : Serves m arity s os t)
    (h' : Serves m arity t os' u)
    (hblock : t.func.nextBlock ≤ u.func.nextBlock)
    (hvalue : t.func.nextValue ≤ u.func.nextValue) :
    Serves m arity s (os ++ os') u := by
  intro A hready harity hblocks hvalues
  obtain ⟨B, hfirst, hos⟩ :=
    h A hready harity (Nat.le_trans hblock hblocks) (Nat.le_trans hvalue hvalues)
  obtain ⟨C, hsecond, hos'⟩ :=
    h' B hfirst.toReady (hfirst.grows.arity_eq.trans harity) hblocks hvalues
  refine ⟨C, hfirst.trans hsecond, fun o ho => ?_⟩
  rcases List.mem_append.1 ho with ho | ho
  · exact hsecond.usable (hos o ho)
  · exact hos' o ho

/-- An instruction that makes a double out of the operands. -/
theorem push
    (h : Serves m arity s os t)
    {kind : InstrKind}
    (hplain : kind.isPhi = false)
    (htype : kind.type = .double)
    (huses : ∀ u ∈ kind.uses, u.1 ∈ os ∧ u.2 = .double)
    (hcall : Function.CallFound m kind) :
    Serves m arity s [.result t.next] (t.push kind) := by
  intro A hready harity hblocks hvalues
  obtain ⟨B, hfirst, hos⟩ := h A hready harity hblocks (Nat.le_of_succ_le hvalues)
  have hpush :=
    reaches_push hfirst.toReady hvalues hplain (fun u hu =>
      (huses u hu).2 ▸ hos _ (huses u hu).1) hcall
  refine ⟨B, hfirst.trans hpush, fun o ho => ?_⟩
  obtain rfl := List.mem_singleton.1 ho
  exact htype ▸ usable_push hfirst.opened B kind

/-- A comparison whose result is made a double. -/
theorem less
    {x y : Operand}
    (h : Serves m arity s [x, y] t) :
    Serves m arity s [.result (t.push (.compare .ult x y)).next]
      ((t.push (.compare .ult x y)).push (.promote (.result t.next))) := by
  intro A hready harity hblocks hvalues
  obtain ⟨B, hfirst, hos⟩ :=
    h A hready harity hblocks (Nat.le_of_succ_le (Nat.le_of_succ_le hvalues))
  have hcompare : Reaches m B t B (t.push (.compare .ult x y)) := by
    refine reaches_push hfirst.toReady (Nat.le_of_succ_le hvalues) rfl ?_
      (by rintro _ _ _ ⟨⟩)
    simpa [InstrKind.uses] using hos
  have hpromote : Reaches m B (t.push (.compare .ult x y)) B
      ((t.push (.compare .ult x y)).push (.promote (.result t.next))) := by
    refine reaches_push hcompare.toReady hvalues rfl ?_ (by rintro _ _ _ ⟨⟩)
    intro u hu
    obtain rfl := List.mem_singleton.1 hu
    exact usable_push hfirst.opened B (.compare .ult x y)
  refine ⟨B, hfirst.trans (hcompare.trans hpromote), fun o ho => ?_⟩
  obtain rfl := List.mem_singleton.1 ho
  exact usable_push hcompare.opened B (.promote (.result t.next))

/-- A conditional whose parts are served. -/
theorem join
    {v : Site}
    {x y z : Operand}
    (htest : Serves m arity s [x] t)
    (hthen : Serves m arity (t.fork x) [y] u)
    (helse : Serves m arity (u.moveTo (t.fresh 1)) [z] v)
    (hdiamond : t.Open → v.func.nextBlock ≤ UInt32.size → Diamond t x u v)
    (hthenBlock : t.func.nextBlock + 3 ≤ u.func.nextBlock)
    (helseBlock : u.func.nextBlock ≤ v.func.nextBlock)
    (hthenValue : t.func.nextValue + 1 ≤ u.func.nextValue)
    (helseValue : u.func.nextValue ≤ v.func.nextValue) :
    Serves m arity s [.result v.next] (t.join u v y z) := by
  intro A hready harity hblocks hvalues
  rw [nextBlock_join] at hblocks
  rw [nextValue_join] at hvalues
  obtain ⟨B, hfirst, hx⟩ := htest A hready harity (by omega) (by omega)
  have hpush := reaches_test x hfirst.toReady (by omega) (hx x List.mem_cons_self)
  have hfork := reaches_fork x hfirst.opened (by omega) hpush.toReady
  have hforked := hfirst.trans (hpush.trans hfork)
  obtain ⟨C, hinThen, hy⟩ :=
    hthen _ hfork.toReady (hforked.grows.arity_eq.trans harity) (by omega) (by omega)
  have h := hdiamond hfirst.opened hblocks
  obtain ⟨label, hstart⟩ := h.block?_fresh (show 1 < 3 by omega) (by omega)
  obtain ⟨D, hinElse, hz⟩ :=
    helse C ⟨hinThen.opened.moveTo hstart rfl, hinThen.lawful, hinThen.phis⟩
    ((hforked.trans hinThen).grows.arity_eq.trans harity) hblocks (by omega)
  have hjoin :=
    h.reaches_join hvalues hfirst.lawful hpush.lawful hfork hinThen hinElse
      (hy y List.mem_cons_self)
    (hz z List.mem_cons_self)
  refine ⟨D, hfirst.trans (hpush.trans hjoin), fun o ho => ?_⟩
  obtain rfl := List.mem_singleton.1 ho
  exact h.usable_join D

end Serves

end Site

namespace Emits

variable {m : Module} {scope : Scope} {es : List Expr} {s t : Site} {os : List Operand}

/-- Emitting at a ready site leads to a ready site at which the operands can be used. -/
theorem serves
    {arity : Nat}
    (hscope : ∀ name o, scope.find? name = some o → ∃ position < arity, o = .arg position)
    (h : Emits m scope es s os t) :
    s.Serves m arity os t := by
  induction h with
  | nil => exact fun A hready _ _ _ => ⟨A, .refl hready, by simp⟩
  | cons _ htail ihhead ihtail =>
      exact ihhead.append ihtail htail.nextBlock_le htail.nextValue_le
  | number => exact fun A hready _ _ _ =>
    ⟨A, .refl hready, by simp [Site.Usable, Function.HasType]⟩
  | var hname =>
      intro A hready harity _ _
      obtain ⟨position, hlt, rfl⟩ := hscope _ _ hname
      exact ⟨A, .refl hready, by simpa [Site.Usable, Function.HasType, harity] using hlt⟩
  | arith _ _ hrhs ihlhs ihrhs =>
      refine (ihlhs.append ihrhs hrhs.nextBlock_le hrhs.nextValue_le).push rfl rfl ?_
        (by rintro _ _ _ ⟨⟩)
      simp [InstrKind.uses]
  | less _ hrhs ihlhs ihrhs =>
      exact (ihlhs.append ihrhs hrhs.nextBlock_le hrhs.nextValue_le).less
  | call _ hcallee harity hargs ihargs =>
      refine ihargs.push rfl rfl (by simp [InstrKind.uses]) ?_
      rintro _ _ _ ⟨⟩
      exact ⟨_, hcallee, rfl, harity.trans hargs.length_eq.symm⟩
  | cond _ hthen helse ihtest ihthen ihelse =>
      refine ihtest.join ihthen ihelse (fun hopen hbound => ?_) hthen.nextBlock_le
        helse.nextBlock_le hthen.nextValue_le
        helse.nextValue_le
      exact hthen.diamond helse hopen hbound

end Emits

/-! ## Bodies -/

namespace Site

/-- A declaration with an empty entry is ready, with nothing supplied. -/
theorem ready_start
    (m : Module)
    (id : FuncId)
    (name : String)
    (params : List String) :
    (Site.start (.declaration id name params)).Ready m fun _ _ => False := by
  have hblocks : (Site.start (.declaration id name params)).func.blocks =
      [.empty (.ofCount 0) "entry"] := rfl
  refine ⟨open_start id name params, ⟨?_, ?_, by simp, ?_⟩, ?_⟩
  · simp [Function.results, Function.instrs, hblocks, Block.empty]
  · simp [Function.results, Function.instrs, hblocks, Block.empty]
  · intro b hb
    rw [hblocks, List.mem_singleton] at hb
    subst hb
    constructor <;> simp [Block.empty, Block.results, Block.termOperands, Block.successors,
      Block.termUses, Block.body]
  · intro b hb i hi
    rw [hblocks, List.mem_singleton] at hb
    subst hb
    simp [Block.empty] at hi

end Site

/--
A function is a body that starts in its only block of number zero: where it ends and where
its edges lead.
-/
theorem Site.Extends.of_start
    {id : FuncId}
    {name : String}
    {params : List String}
    {t : Site}
    (h : (Site.start (.declaration id name params)).Extends t) :
    (∀ j b, t.func.block? j = some b → j = t.block ∨ b.term.isSome) ∧
      (∀ j b target, t.func.block? j = some b → target ∈ b.successors →
        target ≠ .ofCount 0) ∧
      ∀ b, t.func.block? (.ofCount 0) = some b → ∀ i ∈ b.instrs, i.kind.isPhi = false := by
  have hstart : ∀ j b, (Site.start (.declaration id name params)).func.block? j = some b →
      j = .ofCount 0 ∧ b = .empty (.ofCount 0) "entry" := by
    intro j b hb
    obtain ⟨hmem, rfl⟩ := Function.mem_of_block?_eq_some hb
    obtain rfl := List.mem_singleton.1 hmem
    exact ⟨rfl, rfl⟩
  obtain ⟨entry, added, hentry, hinstrs, hplain, hterm⟩ :=
    h.cursor (.empty (.ofCount 0) "entry") rfl
  refine ⟨fun j b hb => ?_, fun j b target hb htarget heq => ?_, fun b hb => ?_⟩
  · by_cases hj : j = .ofCount 0
    · subst hj
      rw [show t.func.block? (.ofCount 0) = some entry from hentry] at hb
      cases hb
      exact hterm.symm.imp_left Eq.symm
    · refine h.closed j b hb (Nat.one_le_iff_ne_zero.2 fun hzero =>
        hj (BlockId.eq_of_number hzero))
  · rcases h.targets j b target hb htarget with hold | hnew
    · rw [(hstart j b hold).2] at htarget
      simp [Block.empty, Block.successors] at htarget
    · rw [heq] at hnew
      exact absurd (show 1 ≤ 0 from hnew) (by omega)
  · rw [show t.func.block? (.ofCount 0) = some entry from hentry] at hb
    cases hb
    rw [hinstrs]
    exact hplain

theorem Site.phisMeet_ret
    {s : Site}
    (hopen : s.Open)
    (hphis : s.func.PhisMeet)
    (value : Operand) :
    (s.close (.ret value)).func.PhisMeet := by
  obtain ⟨b, hb, hterm⟩ := hopen.cursor
  have hids : (s.close (.ret value)).func.blockIds.Nodup := by
    rw [blockIds_close]
    exact hopen.nodup
  have hpreds : ∀ pred id, pred ∈ (s.close (.ret value)).func.predecessors id ↔
      pred ∈ s.func.predecessors id := by
    intro pred id
    rw [Function.mem_predecessors_iff_block? hids,
      Function.mem_predecessors_iff_block? hopen.nodup, block?_close]
    by_cases hpred : pred = s.block
    · simp [hpred, hb, hterm, Block.successors, Terminator.successors]
    · simp [hpred]
  intro c hc i hi type incoming hkind pred
  rw [hpreds]
  rcases ((edited_close hopen.nodup hb (.ret value)).blocks c).1 hc with rfl | ⟨hc, -⟩
  · exact hphis b (Function.mem_of_block?_eq_some hb).1 i hi type incoming hkind pred
  · exact hphis c hc i hi type incoming hkind pred

/-- Every lowered body is well formed, its calls are found, and its entry has no phi. -/
theorem Lowers.wellFormed
    {m : Module}
    {d : Definition}
    {f : Function}
    (h : Lowers m d f)
    (hblocks : f.nextBlock ≤ UInt32.size)
    (hvalues : f.nextValue ≤ UInt32.size) :
    f.WellFormed ∧ f.CallsFound m ∧ Machine.EntryPlain f := by
  obtain ⟨o, t, hf, hemits⟩ := h.body
  have hblocks' : t.func.nextBlock ≤ UInt32.size := by
    rw [hf] at hblocks
    exact hblocks
  have hvalues' : t.func.nextValue ≤ UInt32.size := by
    rw [hf] at hvalues
    exact hvalues
  have hscope : ∀ name o, (Scope.bindParams [] 0 d.signature.params).find? name = some o →
      ∃ position < d.signature.params.length, o = .arg position := by
    intro name o ho
    rcases Scope.find?_bindParams ho with hnone | ⟨i, hi, rfl⟩
    · simp [Scope.find?] at hnone
    · obtain ⟨hlt, -⟩ := List.getElem?_eq_some_iff.1 hi
      refine ⟨_, Nat.lt_of_le_of_lt (Nat.mod_le _ _) ?_, rfl⟩
      omega
  have hstart := Site.ready_start m f.id d.signature.name d.signature.params
  obtain ⟨A, hreaches, ho⟩ := hemits.serves hscope _ hstart rfl hblocks' hvalues'
  have hend := hreaches.opened
  obtain ⟨hclosed, htargets, hplain⟩ :=
    (hemits.open_extends hstart.opened hblocks').2.of_start
  obtain ⟨last, hlast, -⟩ := hend.cursor
  have hedit := Site.edited_close hend.nodup hlast (.ret o)
  rw [← hf] at hedit
  have hids : f.blockIds.Nodup := hedit.ids_eq ▸ hend.nodup
  have hlawful : f.Lawful m A := by
    obtain ⟨hmem, hid⟩ := Function.mem_of_block?_eq_some hlast
    rw [hf]
    refine (Site.lawful_close hreaches.lawful hend.nodup (hid ▸ List.mem_map_of_mem hmem)
      (by simp [Terminator.successors]) fun u hu => ?_).1
    obtain rfl := List.mem_singleton.1 hu
    exact ho o List.mem_cons_self
  -- a block of the body is the last one, now closed, or an older one
  have hcases : ∀ b ∈ f.blocks, b = { last with term := some (.ret o) } ∨
      t.func.block? b.id = some b ∧ b.id ≠ t.block := by
    intro b hb
    rw [← (Function.mem_of_block?_eq_some hlast).2]
    exact ((hedit.blocks b).1 hb).imp_right fun hold =>
      ⟨(Function.block?_eq_some_iff hend.nodup).2 ⟨hold.1, rfl⟩, hold.2⟩
  refine ⟨hlawful.wellFormed hids ?_ (hf ▸ Site.phisMeet_ret hend hreaches.phis o) ?_ ?_,
    fun b hb => (hlawful.blocks b hb).calls, ?_⟩
  · intro entry hentry v hv
    obtain rfl : _ = entry := Option.some.inj (h.entry?_eq.symm.trans hentry)
    exact hreaches.grows.takes (.ofCount 0) List.mem_cons_self v hv
  · intro entry hentry b hb
    obtain rfl : _ = entry := Option.some.inj (h.entry?_eq.symm.trans hentry)
    rcases hcases b hb with rfl | ⟨hold, -⟩
    · simp [Block.successors, Terminator.successors]
    · exact fun htarget => htargets _ b _ hold htarget rfl
  · intro b hb
    rcases hcases b hb with rfl | ⟨hold, hne⟩
    · simp
    · exact Option.isSome_iff_ne_none.1 ((hclosed _ b hold).resolve_left hne)
  · intro b hb
    have hmem := List.mem_of_head? hb
    have hid : b.id = .ofCount 0 := by
      have hentry := h.entry?_eq
      simpa [ Function.entry?, hb] using hentry
    rcases hcases b hmem with rfl | ⟨hold, -⟩
    · exact hplain last (hid ▸ (Function.mem_of_block?_eq_some hlast).2 ▸ hlast)
    · exact hplain b (hid ▸ hold)

end ScalarSsa
