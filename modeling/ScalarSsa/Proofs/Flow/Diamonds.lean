import ScalarSsa.Proofs.Flow.Trails
import Mathlib.Data.List.Chain

/-!
# Chains of diamonds

**Input.** A successor function.

**Definitions.** A `Walk` is a list of blocks that may run one after the other.  `Diamonds`
is what nested conditionals give: a chain of diamonds, each forked in the block in which the
one before it ends, with such chains as its two sides.

**Results.** A walk from the start of such a chain that cannot leave it visits its blocks in
a fixed order (`Diamonds.walk_sublist`).  So walks are finite, there is no cycle
(`Diamonds.acyclic`), every block is reached, and nothing but the last block is a dead end.
-/

namespace ScalarSsa

variable {next next' : BlockId → List BlockId} {a b c : BlockId} {l l' : List BlockId}

/-! ## Walks -/

/-- Blocks that may run one after the other. -/
def Walk (next : BlockId → List BlockId) (path : List BlockId) : Prop :=
  path.IsChain fun a b => b ∈ next a

namespace Walk

theorem cons_iff
    {path : List BlockId} :
    Walk next (a :: b :: path) ↔ b ∈ next a ∧ Walk next (b :: path) :=
  List.isChain_cons_cons

/-- A walk goes on from where another one ends. -/
theorem append
    {path more : List BlockId}
    (h : Walk next path)
    (hlast : path.getLast? = some b)
    (hmore : Walk next (b :: more)) :
    Walk next (path ++ more) := by
  refine List.isChain_append.2 ⟨h, hmore.tail, ?_⟩
  intro x hx y hy
  rw [hlast] at hx
  obtain rfl := Option.mem_some_iff.1 hx
  cases more with
  | nil => simp at hy
  | cons n rest =>
      obtain rfl := Option.mem_some_iff.1 hy
      exact (cons_iff.1 hmore).1

theorem of_leads
    (h : Leads next a b) :
    ∃ path, Walk next (a :: path) ∧ (a :: path).getLast? = some b := by
  induction h with
  | refl => exact ⟨[], .singleton a, rfl⟩
  | @tail b c _ edge ih =>
      obtain ⟨path, hwalk, hlast⟩ := ih
      refine ⟨path ++ [c], hwalk.append hlast (cons_iff.2 ⟨edge, .singleton c⟩), ?_⟩
      rw [← List.cons_append, List.getLast?_concat]

/-- The first blocks of an infinite sequence of edges. -/
theorem of_forall
    {p : Nat → BlockId}
    (h : ∀ n, p (n + 1) ∈ next (p n))
    (n : Nat) :
    Walk next (p 0 :: (List.range n).map fun i => p (i + 1)) := by
  induction n generalizing p with
  | zero => exact .singleton _
  | succ n ih =>
      rw [List.range_succ_eq_map, List.map_cons, List.map_map]
      exact cons_iff.2 ⟨h 0, ih fun i => h (i + 1)⟩

end Walk

/-! ## Passages -/

/--
Every walk from `a` visits some of the listed blocks in order, and goes on to
others only by `b`.
-/
def Passes (next : BlockId → List BlockId) (a : BlockId) (l : List BlockId)
    (b : BlockId) : Prop :=
  ∀ path, Walk next (a :: path) → ∃ inner outer, path = inner ++ outer ∧ inner.Sublist l ∧
    (outer = [] ∨ (a :: inner).getLast? = some b ∧ Walk next (b :: outer))

namespace Passes

theorem point
    (a : BlockId) :
    Passes next a [] a :=
  fun path hwalk => ⟨[], path, rfl, .slnil, .inr ⟨rfl, hwalk⟩⟩

theorem trans
    (h : Passes next a l b)
    (h' : Passes next b l' c) :
    Passes next a (l ++ l') c := by
  intro path hwalk
  obtain ⟨inner, outer, rfl, hsub, rfl | ⟨hlast, hrest⟩⟩ := h path hwalk
  · exact ⟨inner, [], rfl, hsub.trans (List.sublist_append_left l l'), .inl rfl⟩
  · obtain ⟨inner', outer', rfl, hsub', hout⟩ := h' outer hrest
    refine ⟨inner ++ inner',
      outer', by rw [List.append_assoc], hsub.append hsub', hout.imp_right ?_⟩
    rintro ⟨hlast', hwalk'⟩
    refine ⟨?_, hwalk'⟩
    rw [← List.cons_append, List.getLast?_append, hlast, ← hlast']
    cases inner' <;> simp [List.getLast?_cons]

/-- A block with two successors, each of which passes on to the same block. -/
theorem fork
    {x y : BlockId}
    {l₁ l₂ : List BlockId}
    (hnext : ∀ id ∈ next a, id = x ∨ id = y)
    (hx : Passes next x l₁ b)
    (hy : Passes next y l₂ b)
    (hsub₁ : (x :: l₁).Sublist l)
    (hsub₂ : (y :: l₂).Sublist l) :
    Passes next a l b := by
  have hside : ∀ z l₀, Passes next z l₀ b → (z :: l₀).Sublist l → ∀ rest,
      Walk next (z :: rest) →
      ∃ inner outer, z :: rest = inner ++ outer ∧ inner.Sublist l ∧
        (outer = [] ∨ (a :: inner).getLast? = some b ∧ Walk next (b :: outer)) := by
    intro z l₀ hz hsub rest hwalk
    obtain ⟨inner, outer, rfl, hinner, hout⟩ := hz rest hwalk
    refine ⟨z :: inner, outer, rfl, (hinner.cons_cons z).trans hsub, hout.imp_right ?_⟩
    rintro ⟨hlast, hwalk'⟩
    exact ⟨by rw [List.getLast?_cons_cons, hlast], hwalk'⟩
  intro path hwalk
  cases path with
  | nil => exact ⟨[], [], rfl, List.nil_sublist l, .inl rfl⟩
  | cons z rest =>
      obtain ⟨hedge, hrest⟩ := Walk.cons_iff.1 hwalk
      rcases hnext z hedge with rfl | rfl
      · exact hside z l₁ hx hsub₁ rest hrest
      · exact hside z l₂ hy hsub₂ rest hrest

/-- A block with one successor. -/
theorem jump
    (hnext : ∀ id ∈ next a, id = b) :
    Passes next a [b] b :=
  fork (fun id hid => .inl (hnext id hid)) (point b) (point b) (List.Sublist.refl _)
    (List.Sublist.refl _)

end Passes

/-! ## Diamonds -/

/--
A chain of diamonds from `a` to `b`, and its blocks after `a` in the order in
which they can run.
-/
inductive Diamonds (next : BlockId → List BlockId) : BlockId → List BlockId → BlockId → Prop
  | point {a : BlockId} :
      Diamonds next a [] a
  | diamond {a t x u y v m : BlockId} {l l₁ l₂ : List BlockId}
      (first : Diamonds next a l t)
      (hfork : ∀ id, id ∈ next t ↔ id = x ∨ id = y)
      (left : Diamonds next x l₁ u)
      (hleft : ∀ id, id ∈ next u ↔ id = m)
      (right : Diamonds next y l₂ v)
      (hright : ∀ id, id ∈ next v ↔ id = m) :
      Diamonds next a (l ++ (x :: l₁ ++ (y :: l₂ ++ [m]))) m

namespace Diamonds

theorem trans
    (h : Diamonds next a l b)
    (h' : Diamonds next b l' c) :
    Diamonds next a (l ++ l') c := by
  induction h' with
  | point => rwa [List.append_nil]
  | diamond _ hfork left hleft right hright ih =>
      rw [← List.append_assoc]
      exact .diamond (ih h) hfork left hleft right hright

theorem exit_mem
    (h : Diamonds next a l b) :
    b ∈ a :: l := by
  cases h with
  | point => exact List.mem_cons_self
  | diamond => simp

/-- Only the edges of the blocks before the last one matter. -/
theorem congr
    (h : Diamonds next a l b)
    (hnodup : (a :: l).Nodup)
    (hsame : ∀ id ∈ a :: l, id ≠ b → ∀ n, n ∈ next' id ↔ n ∈ next id) :
    Diamonds next' a l b := by
  induction h with
  | point => exact .point
  | @diamond a t x u y v m l l₁ l₂ first hfork left hleft right hright ihfirst
      ihleft ihright =>
      have hsplit : ((a :: l) ++ (x :: l₁ ++ (y :: l₂ ++ [m]))).Nodup := hnodup
      obtain ⟨hfirst, hsides, ham⟩ := List.nodup_append.1 hsplit
      obtain ⟨hl, hrest, hlm⟩ := List.nodup_append.1 hsides
      obtain ⟨hr, -, hrm⟩ := List.nodup_append.1 hrest
      -- the block in which the sides meet is the only one whose edges may differ
      have hkeep : ∀ id, id ∈ a :: l ∨ id ∈ x :: l₁ ∨ id ∈ y :: l₂ → ∀ n, n ∈ next' id ↔
          n ∈ next id := by
        intro id hid
        refine hsame id ?_ ?_
        · rcases hid with hid | hid | hid
          · exact List.mem_append_left _ hid
          · exact List.mem_append_right (a :: l) (List.mem_append_left _ hid)
          · exact List.mem_append_right (a :: l)
              (List.mem_append_right _ (List.mem_append_left _ hid))
        · rcases hid with hid | hid | hid
          · exact ham id hid m (by simp)
          · exact hlm id hid m (by simp)
          · exact hrm id hid m (by simp)
      refine .diamond (ihfirst hfirst fun id hid _ => hkeep id (.inl hid)) (fun id => ?_)
        (ihleft hl fun id hid _ => hkeep id (.inr (.inl hid))) (fun id => ?_)
        (ihright hr fun id hid _ => hkeep id (.inr (.inr hid))) (fun id => ?_)
      · rw [hkeep t (.inl first.exit_mem), hfork]
      · rw [hkeep u (.inr (.inl left.exit_mem)), hleft]
      · rw [hkeep v (.inr (.inr right.exit_mem)), hright]

theorem leads
    (h : Diamonds next a l b) :
    ∀ id ∈ a :: l, Leads next a id := by
  induction h with
  | point =>
      intro id hid
      obtain rfl := List.mem_singleton.1 hid
      exact .refl
  | @diamond a t x u y v m l l₁ l₂ first hfork left hleft _ _ ihfirst ihleft ihright =>
      have hx : Leads next a x := (ihfirst t first.exit_mem).tail ((hfork x).2 (.inl rfl))
      have hy : Leads next a y := (ihfirst t first.exit_mem).tail ((hfork y).2 (.inr rfl))
      intro id hid
      simp only [← List.cons_append, List.mem_append] at hid
      rcases hid with hid | hid | hid | hid
      · exact ihfirst id hid
      · exact hx.trans (ihleft id hid)
      · exact hy.trans (ihright id hid)
      · obtain rfl := List.mem_singleton.1 hid
        exact (hx.trans (ihleft u left.exit_mem)).tail ((hleft id).2 rfl)

/-- No block but the last one is a dead end. -/
theorem dead_end
    (h : Diamonds next a l b)
    {id : BlockId}
    (hid : id ∈ a :: l)
    (hnone : next id = []) :
    id = b := by
  induction h with
  | point => exact List.mem_singleton.1 hid
  | @diamond a t x u y v m l l₁ l₂ _ hfork _ hleft _ hright ihfirst ihleft ihright =>
      simp only [← List.cons_append, List.mem_append] at hid
      rcases hid with hid | hid | hid | hid
      · have hedge := (hfork x).2 (.inl rfl)
        rw [← ihfirst hid, hnone] at hedge
        cases hedge
      · have hedge := (hleft m).2 rfl
        rw [← ihleft hid, hnone] at hedge
        cases hedge
      · have hedge := (hright m).2 rfl
        rw [← ihright hid, hnone] at hedge
        cases hedge
      · exact List.mem_singleton.1 hid

/-- A walk visits the blocks of a chain in their order and leaves it only at its end. -/
theorem passes
    (h : Diamonds next a l b) :
    Passes next a l b := by
  induction h with
  | point => exact .point _
  | @diamond a t x u y v m l l₁ l₂ _ hfork _ hleft _ hright ihfirst ihleft ihright =>
      refine ihfirst.trans
        (.fork (fun id hid => (hfork id).1 hid)
          (ihleft.trans (.jump fun id hid => (hleft id).1 hid))
        (ihright.trans (.jump fun id hid => (hright id).1 hid)) ?_
          (List.sublist_append_right _ _))
      exact (List.Sublist.refl (x :: l₁)).append (List.sublist_append_right _ _)

section Closed

variable (h : Diamonds next a l b) (hexit : next b = [])

include h hexit

/--
If the last block has no successors, a walk visits blocks of the chain only, in their order.
-/
theorem walk_sublist
    {path : List BlockId}
    (hwalk : Walk next (a :: path)) :
    path.Sublist l := by
  obtain ⟨inner, outer, rfl, hsub, rfl | ⟨-, hrest⟩⟩ := h.passes path hwalk
  · rwa [List.append_nil]
  · cases outer with
    | nil => rwa [List.append_nil]
    | cons n rest =>
        have hedge := (Walk.cons_iff.1 hrest).1
        rw [hexit] at hedge
        cases hedge

theorem walk_ends
    (p : Nat → BlockId)
    (hp : p 0 = a) :
    ∃ n, p (n + 1) ∉ next (p n) := by
  by_contra hall
  simp only [not_exists, not_not] at hall
  have hwalk := Walk.of_forall hall (l.length + 1)
  rw [hp] at hwalk
  have hlength := (h.walk_sublist hexit hwalk).length_le
  simp at hlength

/-- A chain of different blocks has no cycle. -/
theorem acyclic
    (hnodup : (a :: l).Nodup)
    {id target : BlockId}
    (hid : id ∈ a :: l)
    (hedge : target ∈ next id) :
    ¬Leads next target id := by
  intro hback
  -- a walk to `id` and round the cycle would visit `id` twice
  obtain ⟨path, hwalk, hlast⟩ := Walk.of_leads (h.leads id hid)
  obtain ⟨round, hround, hreturn⟩ := Walk.of_leads hback
  have hwhole := hwalk.append hlast (Walk.cons_iff.2 ⟨hedge, hround⟩)
  have hsub : (a :: (path ++ target :: round)).Sublist (a :: l) :=
    (h.walk_sublist hexit hwhole).cons_cons a
  have hdistinct : ((a :: path) ++ (target :: round)).Nodup := hnodup.sublist hsub
  exact (List.nodup_append.1 hdistinct).2.2 id (List.mem_of_getLast? hlast) id
    (List.mem_of_getLast? hreturn) rfl

end Closed

end Diamonds

end ScalarSsa
