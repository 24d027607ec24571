import ScalarSsa.Flow.Dominators
import ScalarSsa.Proofs.Flow.Exhaust
import ScalarSsa.Proofs.Flow.Trails
import ScalarSsa.Proofs.Ssa.Sites

/-!
# The computed dominators

**Input.** A function whose blocks have distinct names, well formed or not.

**Definitions.** `Narrowing` holds of the sets between two rounds: the entry has itself,
no block that dominates another one is missing from its set, and renewing a set adds
nothing to it.  A set is `Stable` if renewing it changes nothing.  `weight` counts the
members of all sets.

**Results.** `Narrowing.renewSet_cases`: renewing a set keeps the sets narrowing, and
changes them only to a smaller weight.  `nextSets?_cases` concludes the same for a round, so
the rounds end with stable sets.  `Narrowing.mem_of_trail`: what a stable set holds is on
every trail.  `dominators_exact` puts both halves together.
-/

namespace ScalarSsa

namespace DominatorSets

/-! ## Operations on sets -/

theorem mem_shared_iff
    {above : List (List BlockId)}
    {d : BlockId} :
    d ∈ shared above ↔ above ≠ [] ∧ ∀ set ∈ above, d ∈ set := by
  cases above with
  | nil => simp [shared]
  | cons first rest => simp [shared]

theorem agree_iff
    {set set' : List BlockId} :
    agree set set' = true ↔ ∀ d, d ∈ set ↔ d ∈ set' := by
  simp only [agree, Bool.and_eq_true, List.all_eq_true, List.contains_iff_mem]
  constructor
  · rintro ⟨h, h'⟩ d
    exact ⟨h d, h' d⟩
  · intro h
    exact ⟨fun d => (h d).1, fun d => (h d).2⟩

theorem isSome_of?_iff
    (sets : DominatorSets)
    (b : BlockId) :
    (sets.of? b).isSome ↔ b ∈ sets.map (·.1) := by
  unfold of?
  induction sets with
  | nil => simp
  | cons entry sets ih =>
      by_cases h : b = entry.1
      · simp [h]
      · have hne : (b == entry.1) = false := by simp [h]
        rw [List.lookup_cons, hne, List.map_cons, List.mem_cons, or_iff_right h]
        exact ih

@[simp] theorem keys_put
    (sets : DominatorSets)
    (id : BlockId)
    (set : List BlockId) :
    (sets.put id set).map (·.1) = sets.map (·.1) := by
  rw [put, List.map_map]
  refine List.map_congr_left fun entry _ => ?_
  by_cases h : entry.1 = id <;> simp [h]

theorem of?_put
    (sets : DominatorSets)
    (id : BlockId)
    (set : List BlockId)
    (b : BlockId) :
    (sets.put id set).of? b = if b = id then (sets.of? id).map fun _ =>
      set else sets.of? b := by
  unfold of? put
  induction sets with
  | nil => simp
  | cons entry sets ih =>
      obtain ⟨a, old⟩ := entry
      rw [List.map_cons, List.lookup_cons, ih]
      by_cases hb : b = id
      · subst hb
        by_cases ha : a = b
        · simp [ha]
        · have hne : (b == a) = false := by simpa using fun h => ha h.symm
          simp [ha, hne, List.lookup_cons]
      · by_cases ha : a = id
        · have hne : (b == a) = false := by simpa [ha] using hb
          have hne' : (b == id) = false := by simpa using hb
          simp [ha, hb, hne', List.lookup_cons]
        · simp [ha, hb, List.lookup_cons]

theorem of?_put_of_ne
    {sets : DominatorSets}
    {id : BlockId}
    {set : List BlockId}
    {b : BlockId}
    (h : b ≠ id) :
    (sets.put id set).of? b = sets.of? b := by
  rw [of?_put, if_neg h]

end DominatorSets

namespace Function

open DominatorSets

variable {f : Function} {sets : DominatorSets}

theorem lookup_map_self
    {β : Type}
    (g : BlockId → β)
    (a : BlockId)
    (l : List BlockId) :
    (l.map fun x => (x, g x)).lookup a = if a ∈ l then some (g a) else none := by
  induction l with
  | nil => rfl
  | cons x l ih =>
      simp only [List.map_cons, List.lookup_cons, ih, List.mem_cons]
      by_cases h : a = x
      · subst h
        simp
      · have hne : (a == x) = false := by simpa using h
        simp [h, hne]

theorem mem_reachableBlocks_iff
    (f : Function)
    (b : BlockId) :
    b ∈ f.reachableBlocks ↔ b ∈ f.blockIds ∧ f.Reachable b := by
  simp [reachableBlocks, mem_reachable_iff]

theorem mem_innerBlocks_iff
    {b : BlockId} :
    b ∈ f.innerBlocks ↔ b ∈ f.reachableBlocks ∧ f.entry? ≠ some b := by
  simp [innerBlocks]

/-- A predecessor with a set, on some trail to a block. -/
theorem mem_reachableBlocks_of_step
    {b c : BlockId}
    {path : List BlockId}
    (htrail : f.Trail (b :: path))
    (edge : c ∈ f.successors b) :
    b ∈ f.reachableBlocks ∧ b ∈ f.predecessors c := by
  obtain ⟨p, hp, rfl, hsucc⟩ := exists_of_mem_successors edge
  exact ⟨(mem_reachableBlocks_iff f _).2 ⟨List.mem_map_of_mem hp, path, htrail⟩,
    mem_predecessors_iff.2 ⟨p, hp, rfl, hsucc⟩⟩

theorem mem_setBelow_iff
    {id d : BlockId} :
    d ∈ f.setBelow sets id ↔
      d = id ∨ (∃ pred ∈ f.predecessors id, (sets.of? pred).isSome) ∧
        ∀ pred ∈ f.predecessors id, ∀ set, sets.of? pred = some set → d ∈ set := by
  have habove : (f.predecessors id).filterMap sets.of? ≠ [] ↔
      ∃ pred ∈ f.predecessors id, (sets.of? pred).isSome := by
    simp [List.filterMap_eq_nil_iff, Option.isSome_iff_ne_none]
  rw [setBelow, List.mem_insert_iff, mem_shared_iff, habove]
  simp only [List.mem_filterMap, forall_exists_index, and_imp]
  refine or_congr_right (and_congr_right fun _ => ?_)
  constructor
  · intro h pred hpred set hset
    exact h set pred hpred hset
  · intro h set pred hpred hset
    exact h pred hpred set hset

/-- Smaller sets ask for smaller sets below them. -/
theorem setBelow_put_subset
    {id : BlockId}
    {new : List BlockId}
    (hnew : ∀ old, sets.of? id = some old → ∀ d ∈ new, d ∈ old)
    {b d : BlockId}
    (hd : d ∈ f.setBelow (sets.put id new) b) :
    d ∈ f.setBelow sets b := by
  rw [mem_setBelow_iff] at hd ⊢
  rcases hd with rfl | ⟨⟨pred, hpred, hsome⟩, hall⟩
  · exact .inl rfl
  · rw [isSome_of?_iff, keys_put, ← isSome_of?_iff] at hsome
    refine .inr ⟨⟨pred, hpred, hsome⟩, fun pred hpred set hset => ?_⟩
    by_cases h : pred = id
    · subst h
      refine hnew set hset d (hall pred hpred new ?_)
      rw [of?_put, if_pos rfl, hset, Option.map_some]
    · exact hall pred hpred set (by rwa [of?_put_of_ne h])

/-! ## Sets between two rounds -/

/-- The sets between two rounds. -/
structure Narrowing (f : Function) (sets : DominatorSets) : Prop where
  keys : sets.map (·.1) = f.reachableBlocks
  entry : ∀ entry, f.entry? = some entry → ∀ set, sets.of? entry = some set → set = [entry]
  /-- No block that dominates another one is missing from its set. -/
  complete : ∀ b set, sets.of? b = some set → ∀ d, f.Dominates d b → d ∈ set
  /-- Renewing a set adds nothing to it. -/
  narrows : ∀ b ∈ f.innerBlocks, ∀ set, sets.of? b = some set →
    ∀ d ∈ f.setBelow sets b, d ∈ set

/-- Renewing the set of a block changes nothing. -/
def Stable (f : Function) (sets : DominatorSets) (id : BlockId) : Prop :=
  ∀ set, sets.of? id = some set → ∀ d, d ∈ f.setBelow sets id ↔ d ∈ set

/-- The number of members of all sets. -/
def weight (f : Function) (sets : DominatorSets) : Nat :=
  ∑ b ∈ f.reachableBlocks.toFinset, ((sets.of? b).getD []).toFinset.card

theorem Narrowing.isSome_iff
    (h : f.Narrowing sets)
    (b : BlockId) :
    (sets.of? b).isSome ↔ b ∈ f.blockIds ∧ f.Reachable b := by
  rw [isSome_of?_iff, h.keys, mem_reachableBlocks_iff]

theorem of?_firstSets
    (b : BlockId) :
    f.firstSets.of? b =
      if b ∈ f.reachableBlocks then some (if f.entry? = some b then [b] else f.reachable)
      else none :=
  lookup_map_self (fun id => if f.entry? = some id then [id] else f.reachable) b
    f.reachableBlocks

theorem narrowing_firstSets
    (f : Function) :
    f.Narrowing f.firstSets := by
  have hof : ∀ b set, f.firstSets.of? b = some set →
      b ∈ f.reachableBlocks ∧ set = if f.entry? = some b then [b] else f.reachable := by
    intro b set hset
    rw [of?_firstSets] at hset
    split at hset
    · next hb => exact ⟨hb, (Option.some.inj hset).symm⟩
    · cases hset
  have hreach : ∀ b set, f.firstSets.of? b = some set → ∀ d ∈ set, d ∈ f.reachable := by
    intro b set hset d hd
    obtain ⟨hb, rfl⟩ := hof b set hset
    by_cases hentry : f.entry? = some b
    · rw [if_pos hentry, List.mem_singleton] at hd
      rw [hd, mem_reachable_iff]
      exact ((mem_reachableBlocks_iff f b).1 hb).2
    · rwa [if_neg hentry] at hd
  constructor
  · simp [firstSets, Function.comp_def]
  · intro entry hentry set hset
    rw [(hof entry set hset).2, if_pos hentry]
  · intro b set hset d hdom
    obtain ⟨hb, rfl⟩ := hof b set hset
    by_cases hentry : f.entry? = some b
    · rw [if_pos hentry]
      exact hdom [] (.start hentry)
    · rw [if_neg hentry, mem_reachable_iff]
      exact hdom.reachable ((mem_reachableBlocks_iff f b).1 hb).2
  · intro b hb set hset d hd
    obtain ⟨hb', hentry⟩ := mem_innerBlocks_iff.1 hb
    rw [(hof b set hset).2, if_neg hentry]
    rcases mem_setBelow_iff.1 hd with rfl | ⟨⟨pred, hpred, hsome⟩, hall⟩
    · rw [mem_reachable_iff]
      exact ((mem_reachableBlocks_iff f d).1 hb').2
    · obtain ⟨set', hset'⟩ := Option.isSome_iff_exists.1 hsome
      exact hreach pred set' hset' d (hall pred hpred set' hset')

/-! ## One round -/

section Round

variable (hids : f.blockIds.Nodup) (h : f.Narrowing sets)

include hids h

/-- What dominates a block is in the sets of its predecessors. -/
theorem Narrowing.mem_setBelow_of_dominates
    {id : BlockId}
    (hid : id ∈ f.innerBlocks)
    {d : BlockId}
    (hdom : f.Dominates d id) :
    d ∈ f.setBelow sets id := by
  obtain ⟨hreached, hentry⟩ := mem_innerBlocks_iff.1 hid
  rw [mem_setBelow_iff]
  by_cases hd : d = id
  · exact .inl hd
  refine .inr ⟨?_, fun pred hpred set hset =>
    h.complete pred set hset d fun path htrail => ?_⟩
  · obtain ⟨path, htrail⟩ := ((mem_reachableBlocks_iff f id).1 hreached).2
    cases htrail with
    | start he => exact absurd he hentry
    | step htrail edge =>
        obtain ⟨hb, hpred⟩ := mem_reachableBlocks_of_step htrail edge
        refine ⟨_, hpred, ?_⟩
        rwa [isSome_of?_iff, h.keys]
  · -- the trail goes on to the block, which is not the one looked for
    have edge : id ∈ f.successors pred :=
      (mem_successors_iff hids).2 (mem_predecessors_iff.1 hpred)
    exact (List.mem_cons.1 (hdom _ (htrail.step edge))).resolve_left hd

theorem Narrowing.put
    {id : BlockId}
    (hid : id ∈ f.innerBlocks) :
    f.Narrowing (sets.put id (f.setBelow sets id)) := by
  obtain ⟨-, hentry⟩ := mem_innerBlocks_iff.1 hid
  have hnew := h.narrows id hid
  have hof : ∀ set, (sets.put id (f.setBelow sets id)).of? id = some set →
      set = f.setBelow sets id := by
    intro set hset
    rw [of?_put, if_pos rfl] at hset
    obtain ⟨_, -, rfl⟩ := Option.map_eq_some_iff.1 hset
    rfl
  constructor
  · rw [keys_put]
    exact h.keys
  · intro entry he set hset
    have hne : entry ≠ id := by
      rintro rfl
      exact hentry he
    exact h.entry entry he set (by rwa [of?_put_of_ne hne] at hset)
  · intro b set hset d hdom
    by_cases hb : b = id
    · subst hb
      rw [hof set hset]
      exact h.mem_setBelow_of_dominates hids hid hdom
    · exact h.complete b set (by rwa [of?_put_of_ne hb] at hset) d hdom
  · intro b hb set hset d hd
    have hold := setBelow_put_subset hnew hd
    by_cases hbid : b = id
    · subst hbid
      rwa [hof set hset]
    · exact h.narrows b hb set (by rwa [of?_put_of_ne hbid] at hset) d hold

omit hids in
theorem Narrowing.weight_put_lt
    {id : BlockId}
    (hid : id ∈ f.innerBlocks)
    {old : List BlockId}
    (hold : sets.of? id = some old)
    {d : BlockId}
    (hd : d ∈ old)
    (hgone : d ∉ f.setBelow sets id) :
    f.weight (sets.put id (f.setBelow sets id)) < f.weight sets := by
  have hless : (f.setBelow sets id).toFinset ⊂ old.toFinset := by
    refine Finset.ssubset_iff_of_subset (fun x hx => ?_) |>.2
      ⟨d, by simpa using hd, by simpa using hgone⟩
    exact List.mem_toFinset.2 (h.narrows id hid old hold x (List.mem_toFinset.1 hx))
  have hmem : id ∈ f.reachableBlocks.toFinset :=
    List.mem_toFinset.2 (mem_innerBlocks_iff.1 hid).1
  refine Finset.sum_lt_sum (fun b _ => ?_) ⟨id, hmem, ?_⟩
  · by_cases hb : b = id
    · subst hb
      rw [of?_put, if_pos rfl, hold]
      exact (Finset.card_lt_card hless).le
    · rw [of?_put_of_ne hb]
  · rw [of?_put, if_pos rfl, hold]
    exact Finset.card_lt_card hless

/-- Renewing a set finds it stable, or makes the sets smaller. -/
theorem Narrowing.renewSet_cases
    {id : BlockId}
    (hid : id ∈ f.innerBlocks)
    (changed : Bool) :
    (f.renewSet (sets, changed) id = (sets, changed) ∧ f.Stable sets id) ∨
      ∃ sets', f.renewSet (sets, changed) id = (sets', true) ∧ f.Narrowing sets' ∧
        f.weight sets' < f.weight sets := by
  have hsome : (sets.of? id).isSome := by
    rw [isSome_of?_iff, h.keys]
    exact (mem_innerBlocks_iff.1 hid).1
  obtain ⟨old, hold⟩ := Option.isSome_iff_exists.1 hsome
  by_cases hagree : agree (f.setBelow sets id) old = true
  · left
    refine ⟨by simp [renewSet, hold, hagree], fun set hset d => ?_⟩
    cases hold.symm.trans hset
    exact agree_iff.1 hagree d
  · right
    refine ⟨_, by simp [renewSet, hold, hagree], h.put hids hid, ?_⟩
    obtain ⟨d, hd, hgone⟩ : ∃ d ∈ old, d ∉ f.setBelow sets id := by
      by_contra hall
      push Not at hall
      exact hagree (agree_iff.2 fun d => ⟨h.narrows id hid old hold d, hall d⟩)
    exact h.weight_put_lt hid hold hd hgone

end Round

/--
Renewing sets one after the other finds all of them stable, or makes the sets smaller.
-/
theorem Narrowing.foldl_renewSet_cases
    (hids : f.blockIds.Nodup)
    (h : f.Narrowing sets)
    {ids : List BlockId}
    (hmem : ∀ id ∈ ids, id ∈ f.innerBlocks)
    (changed : Bool) :
    (ids.foldl f.renewSet (sets, changed) = (sets, changed) ∧ ∀ id ∈ ids,
      f.Stable sets id) ∨
      ∃ sets', ids.foldl f.renewSet (sets, changed) = (sets', true) ∧ f.Narrowing sets' ∧
        f.weight sets' < f.weight sets := by
  induction ids generalizing sets changed with
  | nil => exact .inl ⟨rfl, by simp⟩
  | cons id ids ih =>
      obtain ⟨hid, hrest⟩ := List.forall_mem_cons.1 hmem
      rw [List.foldl_cons]
      rcases h.renewSet_cases hids hid changed with ⟨hsame, hstable⟩
        | ⟨sets', hrenewed, h', hless⟩
      · rw [hsame]
        rcases ih h hrest changed with ⟨hsame', hall⟩ | hsmaller
        · exact .inl ⟨hsame', List.forall_mem_cons.2 ⟨hstable, hall⟩⟩
        · exact .inr hsmaller
      · right
        rw [hrenewed]
        rcases ih h' hrest true with ⟨hsame', -⟩ | ⟨sets'', hrenewed', h'', hless'⟩
        · exact ⟨sets', hsame', h', hless⟩
        · exact ⟨sets'', hrenewed', h'', hless'.trans hless⟩

/-- A round finds all sets stable, or makes the sets smaller. -/
theorem Narrowing.nextSets?_cases
    (hids : f.blockIds.Nodup)
    (h : f.Narrowing sets) :
    (f.nextSets? sets = none ∧ ∀ id ∈ f.innerBlocks, f.Stable sets id) ∨
      ∃ sets', f.nextSets? sets = some sets' ∧ f.Narrowing sets' ∧
        f.weight sets' < f.weight sets := by
  rcases h.foldl_renewSet_cases hids (fun _ hid => hid) false with ⟨hsame, hall⟩
    | ⟨sets', hrenewed, h', hless⟩
  · exact .inl ⟨by simp [nextSets?, hsame], hall⟩
  · exact .inr ⟨sets', by simp [nextSets?, hrenewed], h', hless⟩

theorem Narrowing.of_nextSets?
    (hids : f.blockIds.Nodup)
    (h : f.Narrowing sets)
    {sets' : DominatorSets}
    (hnext : f.nextSets? sets = some sets') :
    f.Narrowing sets' ∧ f.weight sets' < f.weight sets := by
  rcases h.nextSets?_cases hids with ⟨hnone, -⟩ | ⟨sets'', hsome, h', hless⟩
  · cases hnone.symm.trans hnext
  · cases hsome.symm.trans hnext
    exact ⟨h', hless⟩

/-! ## All rounds -/

theorem weight_firstSets_le
    (f : Function) :
    f.weight f.firstSets ≤ f.reachableBlocks.length * f.reachable.length := by
  have hsets : ∀ b ∈ f.reachableBlocks.toFinset,
      ((f.firstSets.of? b).getD []).toFinset.card ≤ f.reachable.length := by
    intro b hb
    have hmem : b ∈ f.reachableBlocks := List.mem_toFinset.1 hb
    have hfound : b ∈ f.reachable :=
      (f.mem_reachable_iff b).2 ((f.mem_reachableBlocks_iff b).1 hmem).2
    rw [of?_firstSets, if_pos hmem, Option.getD_some]
    split
    · exact List.length_pos_of_mem hfound
    · exact List.toFinset_card_le _
  calc
    f.weight f.firstSets ≤ f.reachableBlocks.toFinset.card * f.reachable.length :=
      Finset.sum_le_card_nsmul _ _ _ hsets
    _ ≤ f.reachableBlocks.length * f.reachable.length :=
      Nat.mul_le_mul_right _ (List.toFinset_card_le _)

section Dominators

variable (hids : f.blockIds.Nodup)

include hids

/-- The rounds end by themselves. -/
theorem exhausts_dominators :
    Exhausts f.nextSets? f.firstSets f.dominators :=
  exhausts_exhaust _ (fun _ _ hnext h => h.of_nextSets? hids hnext) _ _
    f.narrowing_firstSets f.weight_firstSets_le

theorem narrowing_dominators :
    f.Narrowing f.dominators :=
  exhaust_invariant (fun _ _ hnext h => (h.of_nextSets? hids hnext).1) _ _
    f.narrowing_firstSets

theorem stable_dominators
    {id : BlockId}
    (hid : id ∈ f.innerBlocks) :
    f.Stable f.dominators id := by
  rcases (narrowing_dominators hids).nextSets?_cases hids with ⟨-, hstable⟩
    | ⟨sets', hsome, -⟩
  · exact hstable id hid
  · cases (exhausts_dominators hids).stuck.symm.trans hsome

end Dominators

/-- What a stable set holds is on every trail to its block. -/
theorem Narrowing.mem_of_trail
    (h : f.Narrowing sets)
    (hstable : ∀ id ∈ f.innerBlocks, f.Stable sets id)
    {trail : List BlockId}
    (htrail : f.Trail trail)
    {b : BlockId}
    (hb : trail.head? = some b)
    {set : List BlockId}
    (hset : sets.of? b = some set)
    {d : BlockId}
    (hd : d ∈ set) :
    d ∈ trail := by
  induction htrail generalizing b set with
  | start hentry =>
      cases hb
      rwa [← h.entry _ hentry set hset]
  | @step pred c path htrail edge ih =>
      cases hb
      by_cases hentry : f.entry? = some c
      · rw [h.entry c hentry set hset, List.mem_singleton] at hd
        simp [hd]
      · obtain ⟨hreached, hpred⟩ := mem_reachableBlocks_of_step htrail edge
        have hinner : c ∈ f.innerBlocks := by
          have hsome := (h.isSome_iff c).1 (by simp [hset])
          exact mem_innerBlocks_iff.2 ⟨(f.mem_reachableBlocks_iff c).2 hsome, hentry⟩
        obtain ⟨above, habove⟩ : ∃ above, sets.of? pred = some above := by
          rw [← Option.isSome_iff_exists, isSome_of?_iff, h.keys]
          exact hreached
        rcases mem_setBelow_iff.1 ((hstable c hinner set hset d).2 hd) with rfl | ⟨-, hall⟩
        · exact List.mem_cons_self
        · exact List.mem_cons_of_mem _ (ih rfl habove (hall pred hpred above habove))

/-- A block has a set of dominators if it exists and is reachable. -/
theorem isSome_dominators_iff
    (hids : f.blockIds.Nodup)
    (b : BlockId) :
    (f.dominators.of? b).isSome ↔ b ∈ f.blockIds ∧ f.Reachable b :=
  (narrowing_dominators hids).isSome_iff b

/-- The computed dominators of a block are the blocks on every trail to it. -/
theorem mem_dominators_iff
    (hids : f.blockIds.Nodup)
    {b : BlockId}
    {set : List BlockId}
    (hset : f.dominators.of? b = some set)
    (d : BlockId) :
    d ∈ set ↔ f.Dominates d b := by
  constructor
  · intro hd path htrail
    exact (narrowing_dominators hids).mem_of_trail (fun _ => stable_dominators hids)
      htrail rfl hset hd
  · exact (narrowing_dominators hids).complete b set hset d

theorem dominates_iff
    (hids : f.blockIds.Nodup)
    (upper lower : BlockId) :
    f.dominators.dominates upper lower = true ↔
      lower ∈ f.blockIds ∧ f.Reachable lower ∧ f.Dominates upper lower := by
  rw [← and_assoc, ← isSome_dominators_iff hids, dominates]
  cases hset : f.dominators.of? lower with
  | none => simp
  | some set => simp [mem_dominators_iff hids hset]

/--
If the blocks have distinct names, whatever else the function is like: the search for the
reachable blocks and the rounds end by themselves, exactly the existing blocks that a path
from the entry leads to have a set, each of them one, and the set of a block holds exactly
the blocks that every path from the entry to it goes through.
-/
theorem dominators_exact
    (f : Function)
    (hids : f.blockIds.Nodup) :
    (∀ fuel, f.searchBound ≤ fuel →
      search f.successors fuel f.entry?.toList [] = f.reachable) ∧
      Exhausts f.nextSets? f.firstSets f.dominators ∧
      (f.dominators.map (·.1)).Nodup ∧
      (∀ b, (f.dominators.of? b).isSome ↔ b ∈ f.blockIds ∧ ∃ path, f.Trail (b :: path)) ∧
      ∀ b set, f.dominators.of? b = some set → ∀ d, d ∈ set ↔ ∀ path, f.Trail (b :: path) →
        d ∈ b :: path := by
  refine ⟨fun fuel hfuel => f.search_eq_reachable hfuel, exhausts_dominators hids, ?_,
    isSome_dominators_iff hids, ?_⟩
  · rw [(narrowing_dominators hids).keys]
    exact hids.filter _
  · intro b set hset d
    exact mem_dominators_iff hids hset d

/--
Two blocks that lead to each other and are both reached from the entry, a way back to the
entry, a branch to a block that does not exist, a block without a terminator, and a block
that is never reached.
-/
def knot : Function where
  id := ⟨0⟩
  name := "knot"
  params := ["x"]
  blocks :=
    [⟨⟨0⟩, "entry", [], some (.branch (.arg 0) ⟨1⟩ ⟨2⟩)⟩,
      ⟨⟨3⟩, "back", [], some (.branch (.arg 0) ⟨0⟩ ⟨9⟩)⟩,
      ⟨⟨4⟩, "open", [], none⟩,
      ⟨⟨2⟩, "right", [], some (.branch (.arg 0) ⟨1⟩ ⟨4⟩)⟩,
      ⟨⟨1⟩, "left", [], some (.branch (.arg 0) ⟨2⟩ ⟨3⟩)⟩,
      ⟨⟨5⟩, "island", [], some (.jump ⟨4⟩)⟩]
  nextValue := 0
  nextBlock := 6

theorem knot_dominators :
    knot.dominators =
        [(⟨0⟩, [⟨0⟩]), (⟨3⟩, [⟨3⟩, ⟨1⟩, ⟨0⟩]), (⟨4⟩, [⟨4⟩, ⟨2⟩, ⟨0⟩]), (⟨2⟩, [⟨2⟩, ⟨0⟩]),
          (⟨1⟩, [⟨1⟩, ⟨0⟩])] ∧
      Exhausts knot.nextSets? knot.firstSets knot.dominators ∧
      (∃ path, knot.Trail (⟨3⟩ :: path)) ∧ (¬∃ path, knot.Trail (⟨5⟩ :: path)) ∧
      ∀ d, (∀ path, knot.Trail (⟨3⟩ :: path) → d ∈ ⟨3⟩ :: path) ↔ d ∈ [⟨3⟩, ⟨1⟩, ⟨0⟩] := by
  have hids : knot.blockIds.Nodup := by decide
  obtain ⟨-, hends, -, hkeys, hsets⟩ := dominators_exact knot hids
  refine ⟨by decide +kernel, hends, ((hkeys ⟨3⟩).1 (by decide +kernel)).2,
    fun h => ?_, fun d => ?_⟩
  · have hsome := (hkeys ⟨5⟩).2 ⟨by decide, h⟩
    revert hsome
    decide +kernel
  · exact (hsets ⟨3⟩ _ (by decide +kernel) d).symm

end Function

end ScalarSsa
