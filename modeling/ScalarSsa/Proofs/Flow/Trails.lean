import ScalarSsa.Flow.Reachability
import Mathlib.Algebra.Order.BigOperators.Group.Finset

/-!
# Trails, reachability and dominance

**Input.** A function, well formed or not.

**Definitions.** A `Trail` is the list of blocks that a run from the entry goes through, the
newest first.  A block is `Reachable` if a trail ends in it, and a block `Dominates` another
one if every trail that ends in the second goes through the first.

**Results.**
* `mem_search_iff`: the search finds exactly the blocks that its successor
function leads to.
* `search_eq_of_le`: it ends by itself, and more fuel would change nothing.
* `mem_reachable_iff`: the search from the entry finds exactly the reachable blocks.
* `Dominates.trans`, `Dominates.antisymm`: dominance is an order on the reachable blocks.
-/

namespace ScalarSsa

/-- Some successors, taken again and again, lead from a block to another one. -/
inductive Leads (next : BlockId → List BlockId) (start : BlockId) : BlockId → Prop
  | refl : Leads next start start
  | tail {b c : BlockId} (h : Leads next start b) (edge : c ∈ next b) : Leads next start c

namespace Leads

theorem head
    {next : BlockId → List BlockId}
    {a b c : BlockId}
    (edge : b ∈ next a)
    (h : Leads next b c) :
    Leads next a c := by
  induction h with
  | refl => exact .tail .refl edge
  | tail _ last ih => exact .tail ih last

theorem trans
    {next : BlockId → List BlockId}
    {a b c : BlockId}
    (h : Leads next a b)
    (h' : Leads next b c) :
    Leads next a c := by
  induction h' with
  | refl => exact h
  | tail _ edge ih => exact .tail ih edge

end Leads

section Search

variable (next : BlockId → List BlockId)

/-- Everything that the search finds was found before or is led to. -/
theorem search_sound
    (fuel : Nat)
    (todo found : List BlockId)
    {b : BlockId}
    (h : b ∈ search next fuel todo found) :
    b ∈ found ∨ ∃ t ∈ todo, Leads next t b := by
  fun_induction search next fuel todo found with
  | case1 => exact .inl h
  | case2 => exact .inl h
  | case3 fuel id todo found _ ih =>
      rcases ih h with hb | ⟨t, ht, hl⟩
      · exact .inl hb
      · exact .inr ⟨t, List.mem_cons_of_mem _ ht, hl⟩
  | case4 fuel id todo found _ ih =>
      rcases ih h with hb | ⟨t, ht, hl⟩
      · rcases List.mem_cons.mp hb with rfl | hb
        · exact .inr ⟨b, List.mem_cons_self, .refl⟩
        · exact .inl hb
      · rcases List.mem_append.mp ht with ht | ht
        · exact .inr ⟨id, List.mem_cons_self, hl.head ht⟩
        · exact .inr ⟨t, List.mem_cons_of_mem _ ht, hl⟩

/--
What the search still has to look at: the blocks to do and the successors of the
blocks not found yet.
-/
def pending (domain : Finset BlockId) (todo found : List BlockId) : Nat :=
  todo.length + ∑ b ∈ domain \ found.toFinset, (next b).length

theorem pending_found
    (domain : Finset BlockId)
    (id : BlockId)
    (todo found : List BlockId) :
    pending next domain todo found < pending next domain (id :: todo) found := by
  simp [pending]

theorem pending_new
    (domain : Finset BlockId)
    (hdomain : ∀ b, b ∉ domain → next b = [])
    {id : BlockId}
    (todo : List BlockId)
    {found : List BlockId}
    (hid : id ∉ found) :
    pending next domain (next id ++ todo) (id :: found) <
      pending next domain (id :: todo) found := by
  have hset : domain \ (id :: found).toFinset = (domain \ found.toFinset).erase id := by
    ext b
    simp [not_or, and_left_comm]
  simp only [pending, hset, List.length_append, List.length_cons]
  by_cases hu : id ∈ domain
  · have hmem : id ∈ domain \ found.toFinset := by simp [hu, hid]
    rw [← Finset.add_sum_erase _ _ hmem]
    omega
  · have hnot : id ∉ domain \ found.toFinset := by simp [hu]
    rw [Finset.erase_eq_of_notMem hnot, hdomain id hu]
    simp

/--
With enough fuel the search finds everything to do, keeps what was found, and is closed: the
successors of what it finds are found as well, if that holds of what was found before.
-/
theorem search_closed
    (domain : Finset BlockId)
    (hdomain : ∀ b, b ∉ domain → next b = [])
    (fuel : Nat)
    (todo found : List BlockId)
    (hfuel : pending next domain todo found ≤ fuel)
    (hclosed : ∀ b ∈ found, ∀ c ∈ next b, c ∈ found ∨ c ∈ todo) :
    (∀ b ∈ found, b ∈ search next fuel todo found) ∧
      (∀ b ∈ todo, b ∈ search next fuel todo found) ∧
      ∀ b ∈ search next fuel todo found, ∀ c ∈ next b, c ∈ search next fuel todo found := by
  fun_induction search next fuel todo found with
  | case1 todo found =>
      have hzero : todo = [] := by
        apply List.eq_nil_of_length_eq_zero
        simp only [pending] at hfuel
        omega
      subst hzero
      refine ⟨fun b hb => hb, by simp, fun b hb c hc => ?_⟩
      simpa using hclosed b hb c hc
  | case2 fuel found =>
      refine ⟨fun b hb => hb, by simp, fun b hb c hc => ?_⟩
      simpa using hclosed b hb c hc
  | case3 fuel id todo found hid ih =>
      have hless := pending_found next domain id todo found
      have hmem : id ∈ found := by simpa using hid
      obtain ⟨hfound, htodo, hnext⟩ := ih (by omega) (by
        intro b hb c hc
        rcases hclosed b hb c hc with h | h
        · exact .inl h
        · rcases List.mem_cons.mp h with rfl | h
          · exact .inl hmem
          · exact .inr h)
      refine ⟨hfound, fun b hb => ?_, hnext⟩
      rcases List.mem_cons.mp hb with rfl | hb
      · exact hfound b hmem
      · exact htodo b hb
  | case4 fuel id todo found hid ih =>
      have hnew : id ∉ found := by simpa using hid
      have hless := pending_new next domain hdomain todo hnew
      obtain ⟨hfound, htodo, hnext⟩ := ih (by omega) (by
        intro b hb c hc
        rcases List.mem_cons.mp hb with rfl | hb
        · exact .inr (List.mem_append_left _ hc)
        · rcases hclosed b hb c hc with h | h
          · exact .inl (List.mem_cons_of_mem _ h)
          · rcases List.mem_cons.mp h with rfl | h
            · exact .inl List.mem_cons_self
            · exact .inr (List.mem_append_right _ h))
      refine ⟨fun b hb => hfound b (List.mem_cons_of_mem _ hb), fun b hb => ?_, hnext⟩
      rcases List.mem_cons.mp hb with rfl | hb
      · exact hfound b List.mem_cons_self
      · exact htodo b (List.mem_append_right _ hb)

/-- With enough fuel the search finds exactly what its start leads to. -/
theorem mem_search_iff
    (domain : Finset BlockId)
    (hdomain : ∀ b, b ∉ domain → next b = [])
    (fuel : Nat)
    (todo : List BlockId)
    (hfuel : pending next domain todo [] ≤ fuel)
    (b : BlockId) :
    b ∈ search next fuel todo [] ↔ ∃ t ∈ todo, Leads next t b := by
  obtain ⟨_, htodo, hnext⟩ := search_closed next domain hdomain fuel todo [] hfuel (by simp)
  constructor
  · intro h
    simpa using search_sound next fuel todo [] h
  · rintro ⟨t, ht, hl⟩
    induction hl with
    | refl => exact htodo t ht
    | tail _ edge ih => exact hnext _ ih _ edge

/-- With enough fuel the search ends by itself, so that more fuel changes nothing. -/
theorem search_eq_of_le
    (domain : Finset BlockId)
    (hdomain : ∀ b, b ∉ domain → next b = [])
    (fuel : Nat)
    (todo found : List BlockId)
    (hfuel : pending next domain todo found ≤ fuel)
    {fuel' : Nat}
    (hle : fuel ≤ fuel') :
    search next fuel' todo found = search next fuel todo found := by
  fun_induction search next fuel todo found generalizing fuel' with
  | case1 todo found =>
      have hzero : todo = [] := by
        apply List.eq_nil_of_length_eq_zero
        simp only [pending] at hfuel
        omega
      subst hzero
      cases fuel' <;> rfl
  | case2 fuel found => cases fuel' <;> rfl
  | case3 fuel id todo found hid ih =>
      have hless := pending_found next domain id todo found
      obtain ⟨n, rfl⟩ : ∃ n, fuel' = n + 1 := ⟨fuel' - 1, by omega⟩
      rw [search, if_pos hid]
      exact ih (by omega) (by omega)
  | case4 fuel id todo found hid ih =>
      have hless := pending_new next domain hdomain todo (by simpa using hid)
      obtain ⟨n, rfl⟩ : ∃ n, fuel' = n + 1 := ⟨fuel' - 1, by omega⟩
      rw [search, if_neg hid]
      exact ih (by omega) (by omega)

end Search

namespace Function

/-- A branch names at most two blocks. -/
theorem length_successors_le
    (f : Function)
    (id : BlockId) :
    (f.successors id).length ≤ 2 := by
  unfold successors
  split
  · unfold Block.successors
    split
    · rename_i term _
      cases term <;> simp [Terminator.successors]
      split <;> simp
    · simp
  · simp

/-- Only blocks that exist lead anywhere. -/
theorem successors_eq_nil
    (f : Function)
    {id : BlockId}
    (h : id ∉ f.blockIds) :
    f.successors id = [] := by
  have hnone : f.block? id = none := by
    simp only [block?, List.find?_eq_none]
    intro b hb hid
    exact h (List.mem_map.mpr ⟨b, hb, by simpa using hid⟩)
  simp [successors, hnone]

/-- The bound of a search covers everything that there is to look at. -/
theorem pending_le_searchBound
    (f : Function) :
    pending f.successors f.blockIds.toFinset f.entry?.toList [] ≤ f.searchBound := by
  have htodo : f.entry?.toList.length ≤ 1 := by cases f.entry? <;> simp
  have hsum : ∑ b ∈ f.blockIds.toFinset, (f.successors b).length ≤
      f.blockIds.toFinset.card * 2 :=
    Finset.sum_le_card_nsmul _ _ 2 fun b _ => f.length_successors_le b
  have hcard : f.blockIds.toFinset.card ≤ f.blocks.length := by
    simpa [blockIds] using List.toFinset_card_le f.blockIds
  simp only [pending, List.toFinset_nil, Finset.sdiff_empty, searchBound]
  omega

/-- The blocks that a run from the entry goes through, the newest first. -/
inductive Trail (f : Function) : List BlockId → Prop
  | start {entry : BlockId} (h : f.entry? = some entry) : Trail f [entry]
  | step {b c : BlockId} {path : List BlockId} (h : Trail f (b :: path))
      (edge : c ∈ f.successors b) :
      Trail f (c :: b :: path)

/-- Some run from the entry gets to the block. -/
def Reachable (f : Function) (b : BlockId) : Prop :=
  ∃ path, f.Trail (b :: path)

/-- Every run from the entry to the lower block goes through the upper one. -/
def Dominates (f : Function) (upper lower : BlockId) : Prop :=
  ∀ path, f.Trail (lower :: path) → upper ∈ lower :: path

/-- A trail is a chain of successors from the entry. -/
theorem leads_iff_trail
    (f : Function)
    {entry : BlockId}
    (hentry : f.entry? = some entry)
    (b : BlockId) :
    Leads f.successors entry b ↔ ∃ path, f.Trail (b :: path) := by
  constructor
  · intro h
    induction h with
    | refl => exact ⟨[], .start hentry⟩
    | tail _ edge ih =>
        obtain ⟨path, htrail⟩ := ih
        exact ⟨_, htrail.step edge⟩
  · rintro ⟨path, htrail⟩
    generalize hl : b :: path = trail at htrail
    induction htrail generalizing b path with
    | start h =>
        obtain ⟨rfl, -⟩ := List.cons.inj hl
        obtain rfl : entry = b := Option.some.inj (hentry.symm.trans h)
        exact .refl
    | step htrail edge ih =>
        obtain ⟨rfl, rfl⟩ := List.cons.inj hl
        exact .tail (ih _ _ rfl) edge

/-- Without an entry there are no trails. -/
theorem Trail.entry?_ne_none
    {f : Function}
    {path : List BlockId}
    (h : f.Trail path) :
    f.entry? ≠ none := by
  induction h with
  | start h => simp [h]
  | step _ _ ih => exact ih

/-- The search finds exactly the reachable blocks. -/
theorem mem_reachable_iff
    (f : Function)
    (b : BlockId) :
    b ∈ f.reachable ↔ f.Reachable b := by
  rw [reachable, mem_search_iff f.successors f.blockIds.toFinset
    (fun c hc => f.successors_eq_nil (by simpa using hc)) _ _ f.pending_le_searchBound]
  cases hentry : f.entry? with
  | none =>
      simp only [Option.toList_none, List.not_mem_nil, false_and, exists_false, false_iff]
      rintro ⟨path, htrail⟩
      exact htrail.entry?_ne_none hentry
  | some entry => simpa [Reachable] using f.leads_iff_trail hentry b

/-- The search from the entry ends by itself. -/
theorem search_eq_reachable
    (f : Function)
    {fuel : Nat}
    (hfuel : f.searchBound ≤ fuel) :
    search f.successors fuel f.entry?.toList [] = f.reachable :=
  search_eq_of_le f.successors f.blockIds.toFinset (fun c hc =>
    f.successors_eq_nil (by simpa using hc)) _ _ _
    f.pending_le_searchBound hfuel

/-- A block that is on every trail to a reachable block is itself reachable. -/
theorem Dominates.reachable
    {f : Function}
    {upper lower : BlockId}
    (h : f.Dominates upper lower)
    (hlower : f.Reachable lower) :
    f.Reachable upper := by
  obtain ⟨path, htrail⟩ := hlower
  have hmem := h path htrail
  clear h
  generalize lower :: path = trail at htrail hmem
  induction htrail with
  | start he =>
      obtain rfl : upper = _ := by simpa using hmem
      exact ⟨[], .start he⟩
  | step htrail edge ih =>
      rcases List.mem_cons.mp hmem with rfl | hmem
      · exact ⟨_, htrail.step edge⟩
      · exact ih hmem

/-! ## Cutting and joining trails -/

/-- What a trail goes through before a block is itself a trail. -/
theorem Trail.of_append
    {f : Function}
    {l path : List BlockId}
    {b : BlockId}
    (h : f.Trail (l ++ b :: path)) :
    f.Trail (b :: path) := by
  induction l with
  | nil => exact h
  | cons c l ih =>
      cases l with
      | nil =>
          cases h with
          | step h _ => exact h
      | cons d l =>
          cases h with
          | step h _ => exact ih h

/-- A trail cut where it goes through a block for the last time. -/
theorem exists_last_of_mem
    {b : BlockId}
    {path : List BlockId}
    (h : b ∈ path) :
    ∃ l r, path = l ++ b :: r ∧ b ∉ l := by
  induction path with
  | nil => simp at h
  | cons c path ih =>
      by_cases hc : b = c
      · exact ⟨[], path, by simp [hc], by simp⟩
      · obtain ⟨l, r, rfl, hl⟩ := ih ((List.mem_cons.mp h).resolve_left hc)
        exact ⟨c :: l, r, rfl, by simp [hc, hl]⟩

/-- Some trail gets to a reachable block for the first time. -/
theorem Reachable.first
    {f : Function}
    {b : BlockId}
    (h : f.Reachable b) :
    ∃ path, f.Trail (b :: path) ∧ b ∉ path := by
  obtain ⟨path, htrail⟩ := h
  generalize hn : path.length = n
  induction n using Nat.strong_induction_on generalizing path with
  | _ n ih =>
      by_cases hb : b ∈ path
      · obtain ⟨l, r, rfl, -⟩ := exists_last_of_mem hb
        have hshort : r.length < n := by
          simp only [List.length_append, List.length_cons] at hn
          omega
        exact ih _ hshort r (Trail.of_append (l := b :: l) htrail) rfl
      · exact ⟨path, htrail, hb⟩

theorem Reachable.step
    {f : Function}
    {b c : BlockId}
    (h : f.Reachable b)
    (edge : c ∈ f.successors b) :
    f.Reachable c := by
  obtain ⟨path, htrail⟩ := h
  exact ⟨b :: path, .step htrail edge⟩

/-! ## Dominance -/

theorem Dominates.refl
    (f : Function)
    (b : BlockId) :
    f.Dominates b b :=
  fun _ _ => List.mem_cons_self

theorem Dominates.trans
    {f : Function}
    {a b c : BlockId}
    (hab : f.Dominates a b)
    (hbc : f.Dominates b c) :
    f.Dominates a c := by
  intro path htrail
  obtain ⟨l, r, he, -⟩ := exists_last_of_mem (hbc path htrail)
  rw [he] at htrail ⊢
  exact List.mem_append_right _ (hab r htrail.of_append)

/-- If the upper of two blocks is another one, some trail to it avoids the lower one. -/
theorem Dominates.exists_avoiding
    {f : Function}
    {upper lower : BlockId}
    (h : f.Dominates upper lower)
    (hne : upper ≠ lower)
    (hlower : f.Reachable lower) :
    ∃ path, f.Trail (upper :: path) ∧ lower ∉ upper :: path := by
  obtain ⟨path, htrail, hfirst⟩ := hlower.first
  have hmem : upper ∈ path := (List.mem_cons.mp (h path htrail)).resolve_left hne
  obtain ⟨l, r, rfl, -⟩ := exists_last_of_mem hmem
  refine ⟨r, Trail.of_append (l := lower :: l) htrail, ?_⟩
  intro hin
  exact hfirst (List.mem_append_right _ hin)

theorem Dominates.antisymm
    {f : Function}
    {a b : BlockId}
    (hab : f.Dominates a b)
    (hba : f.Dominates b a)
    (hb : f.Reachable b) :
    a = b := by
  by_contra hne
  obtain ⟨path, htrail, havoid⟩ := hab.exists_avoiding hne hb
  exact havoid (hba path htrail)

/-! ## Functions with fewer edges -/

section Fewer

variable
  {f g : Function}
  (hentry : ∀ entry, g.entry? = some entry → f.entry? = some entry)
  (hsucc : ∀ b c, c ∈ g.successors b → c ∈ f.successors b)

include hentry hsucc

theorem Trail.mono
    {path : List BlockId}
    (h : g.Trail path) :
    f.Trail path := by
  induction h with
  | start he => exact .start (hentry _ he)
  | step _ edge ih => exact .step ih (hsucc _ _ edge)

theorem Reachable.mono
    {b : BlockId}
    (h : g.Reachable b) :
    f.Reachable b := by
  obtain ⟨path, htrail⟩ := h
  exact ⟨path, htrail.mono hentry hsucc⟩

theorem Dominates.anti
    {upper lower : BlockId}
    (h : f.Dominates upper lower) :
    g.Dominates upper lower :=
  fun path htrail => h path (htrail.mono hentry hsucc)

end Fewer

end Function

end ScalarSsa
