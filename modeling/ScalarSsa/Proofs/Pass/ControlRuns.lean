import ScalarSsa.Proofs.Pass.Replacements
import Mathlib.Data.List.Find

/-!
# Runs through simplified control flow

**Input.** A function that can be run.

**Results.** A function of which blocks, edges and known branches were removed goes the same
way through the blocks that are left (`imitates_thin`).  When a block is joined to its only
predecessor, the run goes straight on where it jumped before (`imitates_join`).  So every
step that simplifies control flow does the same in no more steps: `refines_settleAll`,
`refines_pruneAll` and `refines_mergeOnce?`.
-/

namespace ScalarSsa

/-- The instruction with other incoming edges, if it is a phi. -/
def Instr.mapIncoming (change : List (Operand × BlockId) → List (Operand × BlockId))
    (i : Instr) : Instr :=
  { i with kind := i.kind.mapIncoming change }

namespace Block

/-- Phis whose edges change stay phis, and nothing else changes. -/
theorem phis_and_body_of_mapIncoming
    {b c : Block}
    {more : List Instr}
    {change : List (Operand × BlockId) → List (Operand × BlockId)}
    (hinstrs : c.instrs = (b.instrs ++ more).map (Instr.mapIncoming change))
    (hbody : ∀ i ∈ b.body, i.kind.isPhi = false)
    (hmore : ∀ i ∈ more, i.kind.isPhi = false) :
    c.phis = b.phis.map (Instr.mapIncoming change) ∧ c.body = b.body ++ more := by
  have hplain : ∀ i ∈ b.body ++ more, i.kind.isPhi = false := by
    intro i hi
    rcases List.mem_append.1 hi with hi | hi
    · exact hbody i hi
    · exact hmore i hi
  have hsame : (b.body ++ more).map (Instr.mapIncoming change) = b.body ++ more := by
    conv_rhs => rw [← List.map_id (b.body ++ more)]
    refine List.map_congr_left fun i hi => ?_
    rw [Instr.mapIncoming, InstrKind.mapIncoming_of_not_phi _ (hplain i hi)]
    rfl
  refine phis_and_body ?_ ?_ hplain
  · rw [hinstrs, ← b.phis_append_body, List.append_assoc, List.map_append, hsame]
  · intro i hi
    obtain ⟨j, hj, rfl⟩ := List.mem_map.1 hi
    simpa [Instr.mapIncoming] using isPhi_of_mem_phis hj

theorem phis_and_body_thin
    {keepEdge : BlockId → Bool}
    {term : Option Terminator}
    {b : Block}
    (hbody : ∀ i ∈ b.body, i.kind.isPhi = false) :
    (b.thin keepEdge term).phis =
        b.phis.map (Instr.mapIncoming fun incoming => incoming.filter fun edge =>
          keepEdge edge.2) ∧
      (b.thin keepEdge term).body = b.body := by
  have hinstrs : (b.thin keepEdge term).instrs =
      (b.instrs ++ []).map (Instr.mapIncoming fun incoming => incoming.filter fun edge =>
        keepEdge edge.2) := by
    rw [List.append_nil]
    rfl
  have h := phis_and_body_of_mapIncoming hinstrs hbody fun i hi => by cases hi
  rwa [List.append_nil] at h

end Block

namespace Machine

open ScalarSsa.Function

/-- Two blocks whose phis read the same are entered in the same way. -/
theorem enter_eq_of_phis
    {frame : Frame}
    {prev prev' : Option BlockId}
    {b c : Block}
    {change : List (Operand × BlockId) → List (Operand × BlockId)}
    (hphis : c.phis = b.phis.map (Instr.mapIncoming change))
    (h : ∀ i ∈ b.phis, ∀ type incoming, i.kind = .phi type incoming →
      readPhi frame prev' i.dest (change incoming) = readPhi frame prev i.dest incoming) :
    enter frame prev' c = enter frame prev b := by
  have hread : ∀ phis : List Instr,
      (∀ i ∈ phis, ∀ type incoming, i.kind = .phi type incoming →
      readPhi frame prev' i.dest (change incoming) = readPhi frame prev i.dest incoming) →
      readPhis frame prev' (phis.map (Instr.mapIncoming change)) =
        readPhis frame prev phis := by
    intro phis
    induction phis with
    | nil => exact fun _ => rfl
    | cons i phis ih =>
        intro hall
        have hrest := ih fun j hj => hall j (List.mem_cons_of_mem _ hj)
        cases hkind : i.kind with
        | phi type incoming =>
            have hi : i.mapIncoming change = ⟨i.dest, .phi type (change incoming)⟩ := by
              rw [Instr.mapIncoming, hkind]
              rfl
            simp only [List.map_cons, hi, readPhis, hkind, hrest,
              hall i List.mem_cons_self type incoming hkind]
        | _ =>
            have hi : i.mapIncoming change = i := by
              rw [Instr.mapIncoming,
                InstrKind.mapIncoming_of_not_phi _ (by rw [hkind]; rfl)]
            simpa only [List.map_cons, hi, readPhis, hkind] using hrest
  rw [enter, enter, hphis, hread b.phis h]

theorem mem_successors_of_runTerm
    {frame : Frame}
    {f : Function}
    {b : Block}
    {target : BlockId}
    (h : runTerm frame f b = .ok (.goTo target)) :
    target ∈ b.successors := by
  unfold runTerm at h
  simp only [Block.successors]
  cases hterm : b.term with
  | none =>
      rw [hterm] at h
      cases h
  | some term =>
      rw [hterm] at h
      cases term with
      | jump next =>
          cases h
          exact List.mem_singleton_self _
      | branch cond thenBlock elseBlock =>
          obtain ⟨c, -, h⟩ := of_bind_eq_ok h
          cases h
          cases c <;> by_cases he : thenBlock = elseBlock
            <;> simp [Terminator.successors, he]
      | ret value =>
          obtain ⟨x, -, h⟩ := of_bind_eq_ok h
          cases h

theorem runTerm_congr
    {f g : Function}
    {b c : Block}
    (hterm : c.term = b.term)
    (hsome : b.term ≠ none)
    (frame : Frame) :
    runTerm frame g c = runTerm frame f b := by
  unfold runTerm
  rw [hterm]
  cases hb : b.term with
  | none => exact absurd hb hsome
  | some term => cases term <;> rfl

/-! ## Removed blocks and edges -/

section Thin

variable
  {f : Function}
  {keepBlock : BlockId → Bool}
  {keepEdge : BlockId → BlockId → Bool}
  {term : Block → Option Terminator}

variable (keepEdge term) in
/-- The point of the thinned function that corresponds to a point. -/
def Point.thin : Point → Point
  | .before prev target => .before prev target
  | .inside b rest => .inside (b.thin (keepEdge b.id) (term b)) rest

variable (keepBlock keepEdge) in
/-- A point is in a block that is kept, or before one, over an edge that is kept. -/
def Point.Stays : Point → Prop
  | .before prev target => keepBlock target = true ∧ ∀ pred, prev = some pred →
      keepEdge target pred = true
  | .inside b _ => keepBlock b.id = true

theorem block?_thin
    {target : BlockId}
    (hkeep : keepBlock target = true)
    {b : Block}
    (hb : f.block? target = some b) :
    (f.thin keepBlock keepEdge term).block? target =
      some (b.thin (keepEdge b.id) (term b)) := by
  have hfind :
      f.blocks.find? (fun c => decide (keepBlock c.id = true ∧ (c.id == target) = true)) =
        some b := by
    rw [← hb, block?]
    congr 1
    funext c
    by_cases hc : c.id = target <;> simp [hc, hkeep]
  simp only [Function.thin, block?, List.find?_map, List.find?_filter, Function.comp_def,
    Block.thin_id, hfind,
    Option.map_some]

theorem enter_thin
    (hwf : f.WellFormed)
    {b : Block}
    (hb : b ∈ f.blocks)
    (frame : Frame)
    {prev : Option BlockId}
    (hprev : ∀ pred, prev = some pred → keepEdge b.id pred = true) :
    enter frame prev (b.thin (keepEdge b.id) (term b)) = enter frame prev b := by
  refine enter_eq_of_phis (Block.phis_and_body_thin (hwf.phis_first b hb)).1 ?_
  intro i _ type incoming _
  cases prev with
  | none => rfl
  | some pred =>
      have hfind : (incoming.filter fun edge => keepEdge b.id edge.2).find? (fun edge =>
        edge.2 == pred) =
          incoming.find? fun edge => edge.2 == pred := by
        rw [List.find?_filter]
        congr 1
        funext edge
        by_cases he : edge.2 = pred <;> simp [he, hprev pred rfl]
      simp only [readPhi, hfind]

/-- If the kept blocks end as before, a run goes the same way through them. -/
theorem imitates_thin
    (hf : Runnable f)
    (h : f.Thins keepBlock keepEdge term)
    (hends : ∀ b ∈ f.blocks, ∀ (frame : Frame) next, runTerm frame f b = .ok next →
      runTerm frame (f.thin keepBlock keepEdge term) (b.thin (keepEdge b.id) (term b)) =
        .ok next) :
    Imitates f (f.thin keepBlock keepEdge term) := by
  have hruns : ∀ {call : FuncId → List Float → Ending → Prop} {frame point o},
      Runs call f frame point o →
      ∀ path, Sound f path frame point → point.Stays keepBlock keepEdge →
        Runs call (f.thin keepBlock keepEdge term) frame (point.thin keepEdge term) o := by
    intro call frame point o hruns
    refine Runs.sound_induction (motive := fun _ frame point o =>
      point.Stays keepBlock keepEdge →
      Runs call (f.thin keepBlock keepEdge term) frame (point.thin keepEdge term) o)
      hf.wellFormed hf.plain ?_ ?_ ?_ ?_ ?_ ?_ hruns
    · intro path frame entered prev target b o hblock _ hentered _ ih hstays
      obtain ⟨hb, rfl⟩ := mem_of_block?_eq_some hblock
      have hrest := ih hstays.1
      rw [Point.thin, ← (Block.phis_and_body_thin
        (hf.wellFormed.phis_first b hb)).2] at hrest
      refine .enter (block?_thin hstays.1 hblock) ?_ hrest
      rw [enter_thin hf.wellFormed hb frame hstays.2]
      exact hentered
    · exact fun _ hd _ ih hstays => .value hd (ih hstays)
    · exact fun _ _ _ hi hcall _ ih hstays => .call hi hcall (ih hstays)
    · exact fun _ _ _ hi hcall _ => .callFault hi hcall
    · exact fun hwithin hdone _ => .done (hends _ hwithin.mem _ _ hdone)
    · intro path frame b pre target o hwithin hgoTo harriving ih hstays
      have hgoTo' := hends b hwithin.mem frame _ hgoTo
      have hsucc' := mem_successors_of_runTerm hgoTo'
      obtain ⟨hsucc, hkeep⟩ := h.successors b hwithin.mem hstays target hsucc'
      obtain ⟨c, hblock⟩ := harriving.exists_block hf.wellFormed
      obtain ⟨hc, rfl⟩ := mem_of_block?_eq_some hblock
      refine .goTo hgoTo' (ih ⟨hkeep, ?_⟩)
      rintro pred ⟨⟩
      exact (h.edges c hc hkeep b hwithin.mem hsucc).2 ⟨hstays, hsucc'⟩
  obtain ⟨entry, hentry⟩ := Option.ne_none_iff_exists'.1 hf.body
  refine .of_entry rfl rfl hentry ((entry?_thin h).trans hentry) ?_
  intro call args o harity ho
  refine ⟨o, hruns ho [] (Arriving.initial harity hentry) ⟨h.entry entry hentry, ?_⟩,
    .refl_eq o⟩
  intro pred hpred
  cases hpred

end Thin

/-! ## Joined blocks -/

section Join

variable {f : Function} {pred : BlockId} {b : Block}

variable (pred b) in
/-- The point of the joined function that corresponds to a point. -/
def Point.join (upper : Block) : Point → Point
  | .before prev target =>
      if target = b.id then .inside (joinedBlock pred b upper) b.instrs
      else .before (prev.map (joinedId pred b)) target
  | .inside c rest =>
      .inside (joinedBlock pred b (if c.id = b.id then upper else c))
        (rest ++ if c.id = pred then b.instrs else [])

theorem phis_and_body_joinedBlock
    (h : f.Joinable pred b)
    {c : Block}
    (hbody : ∀ i ∈ c.body, i.kind.isPhi = false) :
    (joinedBlock pred b c).phis =
        c.phis.map (Instr.mapIncoming fun incoming => incoming.map fun edge =>
          (edge.1, joinedId pred b edge.2)) ∧
      (joinedBlock pred b c).body = c.body ++ if c.id = pred then b.instrs else [] := by
  refine Block.phis_and_body_of_mapIncoming ?_ hbody ?_
  · rw [joinedBlock_instrs]
    by_cases hc : c.id = pred
    · rw [if_pos hc, if_pos hc]
      rfl
    · rw [if_neg hc, if_neg hc, List.append_nil]
      rfl
  · intro i hi
    by_cases hc : c.id = pred
    · rw [if_pos hc] at hi
      exact h.plain i hi
    · rw [if_neg hc] at hi
      cases hi

theorem block?_join
    {target : BlockId}
    (hne : target ≠ b.id)
    {c : Block}
    (hc : f.block? target = some c) :
    (f.join pred b).block? target = some (joinedBlock pred b c) := by
  have hfind :
      f.blocks.find? (fun d => decide ((d.id != b.id) = true ∧ (d.id == target) = true)) =
        some c := by
    rw [← hc, block?]
    congr 1
    funext d
    by_cases hd : d.id = target <;> simp [hd, hne]
  simp only [Function.join, block?, List.find?_map, List.find?_filter, Function.comp_def,
    joinedBlock_id, hfind,
    Option.map_some]

theorem joinedId_inj
    {source source' : BlockId}
    (h : source ≠ pred)
    (h' : source' ≠ pred) :
    joinedId pred b source = joinedId pred b source' ↔ source = source' := by
  unfold joinedId
  by_cases hb : source = b.id
  · by_cases hb' : source' = b.id
    · simp [hb, hb']
    · simp [hb, hb', Ne.symm h', Ne.symm hb']
  · by_cases hb' : source' = b.id
    · simp [hb, hb', h]
    · simp [hb, hb']

/--
The edges into a block that is not `b` come from other blocks than the predecessor of `b`.
-/
theorem enter_join
    (hwf : f.WellFormed)
    (h : f.Joinable pred b)
    {c : Block}
    (hc : c ∈ f.blocks)
    (hne : c.id ≠ b.id)
    (frame : Frame)
    {prev : Option BlockId}
    (hprev : ∀ source, prev = some source → c.id ∈ f.successors source) :
    enter frame (prev.map (joinedId pred b)) (joinedBlock pred b c) =
      enter frame prev c := by
  have hpred : ∀ source, c.id ∈ f.successors source → source ≠ pred := by
    rintro source hsucc rfl
    exact hne (h.toMergeable.eq_of_edge hwf.ids_nodup hsucc)
  refine enter_eq_of_phis (phis_and_body_joinedBlock h (hwf.phis_first c hc)).1 ?_
  intro i hi type incoming hkind
  cases prev with
  | none => rfl
  | some source =>
      have hfind :
          incoming.find?
            ((fun edge : Operand × BlockId => edge.2 == joinedId pred b source) ∘
          fun edge => (edge.1, joinedId pred b edge.2)) = incoming.find? fun edge =>
            edge.2 == source := by
        refine List.find?_congr fun edge he => ?_
        have hedge : edge.2 ∈ f.predecessors c.id :=
          (hwf.phi_edges c hc i (Block.mem_instrs_of_mem_phis hi) type incoming hkind _).1
            (List.mem_map_of_mem he)
        obtain ⟨p, hp, hid, hsucc⟩ := mem_predecessors_iff.1 hedge
        have hedge' : edge.2 ≠ pred :=
          hpred _ ((mem_successors_iff hwf.ids_nodup).2 ⟨p, hp, hid, hsucc⟩)
        rw [Function.comp_apply, Bool.eq_iff_iff, beq_iff_eq, beq_iff_eq]
        exact joinedId_inj hedge' (hpred source (hprev source rfl))
      simp only [readPhi, Option.map_some, List.find?_map, hfind]
      cases hfound : incoming.find? fun edge => edge.2 == source with
      | none =>
          have hmem : source ∈ incoming.map (·.2) := by
            refine (hwf.phi_edges c hc i (Block.mem_instrs_of_mem_phis hi) type
              incoming hkind _).2 ?_
            obtain ⟨p, hp, hid, hsucc⟩ :=
              (mem_successors_iff hwf.ids_nodup).1 (hprev source rfl)
            exact mem_predecessors_iff.2 ⟨p, hp, hid, hsucc⟩
          obtain ⟨edge, he, rfl⟩ := List.mem_map.1 hmem
          simpa using List.find?_eq_none.1 hfound edge he
      | some edge => rfl

/-- A run of the joined function leaves out the jumps to the block that was joined. -/
theorem runs_join
    (hf : Runnable f)
    (h : f.Joinable pred b)
    {upper : Block}
    (hupper : upper ∈ f.blocks)
    (hid : upper.id = pred)
    (hjump : upper.term = some (.jump b.id))
    {call : FuncId → List Float → Ending → Prop}
    {frame : Frame}
    {point : Point}
    {o : Ending}
    (hruns : Runs call f frame point o)
    {path : List BlockId}
    (hsound : Sound f path frame point) :
    ∃ o', Runs call (f.join pred b) frame (point.join pred b upper) o' ∧
      o.Matches Eq o' := by
  have hwf := hf.wellFormed
  have hb : b.phis = [] ∧ b.body = b.instrs :=
    Block.phis_and_body rfl (fun i hi => by cases hi) h.plain
  have hupper_eq : ∀ c ∈ f.blocks, c.id = pred → c = upper := fun c hc hcid =>
    block_eq_of_id_eq hwf.ids_nodup hc hupper (hcid.trans hid.symm)
  have hlast : ∀ {c} frame, c ∈ f.blocks → c.id ≠ pred →
      runTerm frame (f.join pred b)
        (joinedBlock pred b (if c.id = b.id then upper else c)) = runTerm frame f c := by
    intro c frame hc hne
    refine runTerm_congr ?_ (hwf.terminated c hc) frame
    rw [joinedBlock_term]
    by_cases hcb : c.id = b.id
    · obtain rfl := block_eq_of_id_eq hwf.ids_nodup hc h.mem hcb
      simp [hid]
    · simp [hcb, hne]
  refine Runs.sound_induction (motive := fun _ frame point o =>
    ∃ o', Runs call (f.join pred b) frame (point.join pred b upper) o' ∧ o.Matches Eq o')
    hwf hf.plain ?_ ?_ ?_ ?_ ?_ ?_ hruns path hsound
  · rintro path frame entered prev target c o hblock harriving hentered
      - ⟨o', hruns', hmatches⟩
    obtain ⟨hc, rfl⟩ := mem_of_block?_eq_some hblock
    by_cases hne : c.id = b.id
    · -- nothing happens when `b` is entered, since it has no phi
      obtain rfl := block_eq_of_id_eq hwf.ids_nodup hc h.mem hne
      rw [enter, hb.1] at hentered
      cases hentered
      simp only [Point.join, if_true, hb.2, if_neg (Ne.symm h.ne),
        List.append_nil] at hruns' ⊢
      exact ⟨o', hruns', hmatches⟩
    · simp only [Point.join, if_neg hne] at hruns' ⊢
      rw [← (phis_and_body_joinedBlock h (hwf.phis_first c hc)).2] at hruns'
      refine ⟨o', .enter (block?_join hne hblock) ?_ hruns', hmatches⟩
      rw [enter_join hwf h hc hne frame ?_]
      · exact hentered
      · intro source hsource
        exact harriving.mem_successors hsource
  · rintro path frame c pre i rest d o - hd - ⟨o', hruns', hmatches⟩
    exact ⟨_, .value hd hruns', hmatches.after (Nat.le_refl 1) .nil⟩
  · rintro path frame c pre i rest callee name operands args steps calls x o - - - hi hx
      - ⟨o', hruns', hmatches⟩
    exact ⟨_, .call hi hx hruns',
      hmatches.after (Nat.le_refl _) (Ending.Matches.callLike_eq_iff.2 rfl)⟩
  · rintro path frame c pre i rest callee name operands args steps calls e - - - hi he
    exact ⟨_, .callFault hi he, .refl_eq _⟩
  · intro path frame c pre x hwithin hdone
    by_cases hp : c.id = pred
    · -- the predecessor of `b` does not return
      rw [hupper_eq c hwithin.mem hp, runTerm, hjump] at hdone
      cases hdone
    · simp only [Point.join, if_neg hp, List.append_nil]
      exact ⟨_, .done ((hlast frame hwithin.mem hp).trans hdone), .refl_eq _⟩
  · rintro path frame c pre target o hwithin hgoTo harriving ⟨o', hruns', hmatches⟩
    by_cases hp : c.id = pred
    · -- the jump to `b` is left out
      obtain rfl := hupper_eq c hwithin.mem hp
      rw [runTerm, hjump] at hgoTo
      cases hgoTo
      have hne : c.id ≠ b.id := hp ▸ h.ne
      simp only [Point.join, if_true, if_neg hne, if_pos hp, List.nil_append] at hruns' ⊢
      exact ⟨o', hruns', hmatches.skip 1⟩
    · have hne : target ≠ b.id := by
        rintro rfl
        exact hp (h.only c hwithin.mem (mem_successors_of_runTerm hgoTo))
      have hjoined : (joinedBlock pred b (if c.id = b.id then upper else c)).id =
          joinedId pred b c.id := by
        rw [joinedBlock_id, joinedId]
        by_cases hcb : c.id = b.id
        · rw [if_pos hcb, if_pos hcb, hid]
        · rw [if_neg hcb, if_neg hcb]
      simp only [Point.join, if_neg hne, if_neg hp, List.append_nil,
        Option.map_some, ← hjoined] at hruns' ⊢
      exact ⟨_, .goTo ((hlast frame hwithin.mem hp).trans hgoTo) hruns',
        hmatches.after (Nat.le_refl 1) .nil⟩

theorem imitates_join
    (hf : Runnable f)
    (h : f.Joinable pred b) :
    Imitates f (f.join pred b) := by
  obtain ⟨entry, hentry⟩ := Option.ne_none_iff_exists'.1 hf.body
  obtain ⟨upper, hupper, hid, hjump⟩ := h.upper
  have hne : entry ≠ b.id := by
    rintro rfl
    exact h.entry hentry
  refine .of_entry rfl rfl hentry ((entry?_join h.toMergeable).trans hentry) ?_
  intro call args o harity ho
  obtain ⟨o', hruns, hmatches⟩ :=
    runs_join hf h hupper hid hjump ho (Arriving.initial harity hentry)
  simp only [Point.join, if_neg hne] at hruns
  exact ⟨o', hruns, hmatches⟩

end Join

end Machine

/-! ## The steps of the pass -/

namespace Pass

open Machine
open ScalarSsa.Function

variable {rel : Float → Float → Prop} (hrel : Tolerance rel) {f : Function}
  (hf : Runnable f)

include hrel hf

theorem refines_settle
    (id : BlockId) :
    Runnable (settle f id) ∧ Refines rel f (settle f id) := by
  have hsettled : Runnable (settle f id) :=
    hf.of_descends (descends_settle f id) (wellFormed_settle hf.wellFormed id)
  refine ⟨hsettled, ?_⟩
  rcases settle_cases f id with heq | ⟨b, hb, rfl, target, dropped, hknown, heq⟩
  · rw [heq]
    exact hf.refines_self hrel
  · refine .of_imitates ?_ (hsettled.refines_self hrel)
    rw [heq]
    refine imitates_thin hf (thins_settled hf.wellFormed hb hknown) ?_
    intro c hc frame next hnext
    by_cases hid : c.id = b.id
    · obtain rfl := block_eq_of_id_eq hf.wellFormed.ids_nodup hc hb hid
      obtain ⟨cond, thenBlock, elseBlock, hterm, hcases⟩ := settled?_eq_some hknown
      rw [runTerm, hterm] at hnext
      obtain ⟨taken, htaken, hnext⟩ := of_bind_eq_ok hnext
      cases hnext
      simp only [runTerm, Block.thin_term, settledTerm, if_true]
      rcases hcases with ⟨taken', rfl, rfl, -⟩ | ⟨rfl, rfl, -⟩
      · cases htaken
        rfl
      · cases taken <;> rfl
    · exact (runTerm_congr (by simp [settledTerm, hid]) (hf.wellFormed.terminated c hc)
        frame).trans hnext

theorem refines_settleAll :
    Runnable (settleAll f) ∧ Refines rel f (settleAll f) := by
  unfold settleAll
  generalize f.blockIds = ids
  induction ids generalizing f with
  | nil => exact ⟨hf, hf.refines_self hrel⟩
  | cons id ids ih =>
      obtain ⟨hsettled, hrefines⟩ := refines_settle hrel hf id
      obtain ⟨hrest, hrefines'⟩ := ih hsettled
      exact ⟨hrest, hrefines.trans hrel hrefines'⟩

theorem refines_pruneAll :
    Runnable (pruneAll f) ∧ Refines rel f (pruneAll f) := by
  have hpruned : Runnable (pruneAll f) :=
    hf.of_descends (descends_pruneAll f) (wellFormed_pruneAll hf.wellFormed)
  refine ⟨hpruned, .of_imitates ?_ (hpruned.refines_self hrel)⟩
  rw [pruneAll_eq_without hf.wellFormed.ids_nodup]
  refine imitates_thin hf (thins_unreachable hf.wellFormed) ?_
  intro b hb frame next hnext
  exact (runTerm_congr rfl (hf.wellFormed.terminated b hb) frame).trans hnext

/-- A merge replaces phis and joins blocks, and neither can be seen. -/
theorem refines_mergeOnce?
    (hall : f.AllReachable)
    {g : Function}
    (h : mergeOnce? f = some g) :
    Runnable g ∧ Refines rel f g := by
  obtain ⟨hwf, -⟩ := wellFormed_mergeOnce? hf.wellFormed hall h
  obtain ⟨pred, b, hmergeable, rfl⟩ := mergeOnce?_eq_some h
  have hmerged : Runnable (merge f pred b) :=
    hf.of_descends (descends_merge hmergeable.mem hmergeable.entry) hwf
  obtain ⟨hreplaced, hrefines⟩ := refines_phiReplacements hrel hf hall hmergeable
  refine ⟨hmerged, hrefines.trans hrel (.of_imitates ?_ (hmerged.refines_self hrel))⟩
  rw [merge_eq_join hf.wellFormed hmergeable hall]
  exact imitates_join hreplaced (joinable_phisReplaced hf.wellFormed hmergeable)

end Pass

end ScalarSsa
