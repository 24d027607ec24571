import ScalarSsa.Proofs.Ssa.Sites

/-!
# The table of functions

**Definitions.** A module is `Coherent` if its functions have distinct identifiers
and distinct names, the names that are taken are theirs, and their identifiers
were issued before.

**Results.** Looking up a name or an identifier finds the function that bears it.
Declaring, changing and erasing functions keep a module coherent, and in a coherent module
the first function of an identifier is the only one.
-/

namespace ScalarSsa

/-! ## The numbers of identifiers -/

/-- The number of a function: how many were declared before it. -/
def FuncId.number (id : FuncId) : Nat :=
  id.index.toNat

/-- The number of a block: how many were issued before it. -/
def BlockId.number (id : BlockId) : Nat :=
  id.index.toNat

/-- The number of a value: how many were issued before it. -/
def ValueId.number (id : ValueId) : Nat :=
  id.index.toNat

theorem FuncId.number_ofCount
    {n : Nat}
    (h : n < UInt32.size) :
    (FuncId.ofCount n).number = n :=
  UInt32.toNat_ofNat_of_lt h

theorem BlockId.number_ofCount
    {n : Nat}
    (h : n < UInt32.size) :
    (BlockId.ofCount n).number = n :=
  UInt32.toNat_ofNat_of_lt h

theorem ValueId.number_ofCount
    {n : Nat}
    (h : n < UInt32.size) :
    (ValueId.ofCount n).number = n :=
  UInt32.toNat_ofNat_of_lt h

theorem BlockId.eq_of_number
    {a b : BlockId}
    (h : a.number = b.number) :
    a = b := by
  cases a
  cases b
  exact congrArg BlockId.mk (UInt32.toNat_inj.1 h)

theorem ValueId.eq_of_number
    {a b : ValueId}
    (h : a.number = b.number) :
    a = b := by
  cases a
  cases b
  exact congrArg ValueId.mk (UInt32.toNat_inj.1 h)

theorem BlockId.ne_of_number
    {a b : BlockId}
    (h : a.number ≠ b.number) :
    a ≠ b :=
  fun heq => h (heq ▸ rfl)

theorem ValueId.ne_of_number
    {a b : ValueId}
    (h : a.number ≠ b.number) :
    a ≠ b :=
  fun heq => h (heq ▸ rfl)

/-! ## Modules -/

namespace Module

/-- Identifiers and names are distinct, and the table of names is that of the functions. -/
structure Coherent (m : Module) : Prop where
  ids_nodup : (m.functions.map (·.id)).Nodup
  names_nodup : (m.functions.map (·.name)).Nodup
  names_eq : m.names = m.functions.map fun f => (f.name, f.id)
  below : ∀ f ∈ m.functions, f.id.number < m.nextId

theorem id_of_function?
    {m : Module}
    {id : FuncId}
    {f : Function}
    (h : m.function? id = some f) :
    f.id = id := by
  simpa using List.find?_some h

theorem mem_of_function?
    {m : Module}
    {id : FuncId}
    {f : Function}
    (h : m.function? id = some f) :
    f ∈ m.functions :=
  List.mem_of_find?_eq_some h

theorem lookup_map_eq_some_iff
    {functions : List Function}
    (hnames : (functions.map (·.name)).Nodup)
    {name : String}
    {id : FuncId} :
    (functions.map fun f => (f.name, f.id)).lookup name = some id ↔ ∃ f ∈ functions,
      f.name = name ∧ f.id = id := by
  induction functions with
  | nil => simp
  | cons g rest ih =>
      rw [List.map_cons, List.nodup_cons] at hnames
      by_cases hname : name = g.name
      · subst hname
        simp only [List.map_cons, List.lookup_cons, beq_self_eq_true, Option.some.injEq]
        constructor
        · rintro rfl
          exact ⟨g, List.mem_cons_self, rfl, rfl⟩
        · rintro ⟨f, hf, hfname, rfl⟩
          rcases List.mem_cons.1 hf with rfl | hf
          · rfl
          · exact absurd (List.mem_map.2 ⟨f, hf, hfname⟩) hnames.1
      · have hne : (name == g.name) = false := by simpa using hname
        simp only [List.map_cons, List.lookup_cons, hne, ih hnames.2]
        constructor
        · rintro ⟨f, hf, hfacts⟩
          exact ⟨f, List.mem_cons_of_mem _ hf, hfacts⟩
        · rintro ⟨f, hf, rfl, hfid⟩
          rcases List.mem_cons.1 hf with rfl | hf
          · exact absurd rfl hname
          · exact ⟨f, hf, rfl, hfid⟩

/-! ## The first function of an identifier -/

section First

variable {functions : List Function} {id : FuncId} {change : Function → Function}

theorem changeFirst_append_of_ne
    (h : ∀ f ∈ functions, f.id ≠ id)
    (others : List Function) :
    changeFirst id change (functions ++ others) = functions ++
      changeFirst id change others := by
  induction functions with
  | nil => rfl
  | cons f rest ih =>
      rw [List.cons_append, changeFirst, if_neg (h f List.mem_cons_self),
        ih fun g hg => h g (List.mem_cons_of_mem _ hg), List.cons_append]

/-- If identifiers are distinct, the first function of an identifier is the only one. -/
theorem changeFirst_eq_map
    (hids : (functions.map (·.id)).Nodup)
    (id : FuncId)
    (change : Function → Function) :
    changeFirst id change functions = functions.map fun f => if f.id = id then
      change f else f := by
  induction functions with
  | nil => rfl
  | cons f rest ih =>
      rw [List.map_cons, List.nodup_cons] at hids
      by_cases hid : f.id = id
      · have hrest : ∀ g ∈ rest, g.id ≠ id := fun g hg hgid =>
          hids.1 (List.mem_map.2 ⟨g, hg, hgid.trans hid.symm⟩)
        rw [changeFirst, if_pos hid, List.map_cons, if_pos hid,
          List.map_congr_left fun g hg => if_neg (hrest g hg)]
        exact congrArg _ (List.map_id rest).symm
      · rw [changeFirst, if_neg hid, List.map_cons, if_neg hid, ih hids.2]

theorem eraseP_eq_filter
    (hids : (functions.map (·.id)).Nodup)
    (id : FuncId) :
    functions.eraseP (fun f => f.id == id) = functions.filter fun f => f.id != id := by
  induction functions with
  | nil => rfl
  | cons f rest ih =>
      rw [List.map_cons, List.nodup_cons] at hids
      by_cases hid : f.id = id
      · have hrest : ∀ g ∈ rest, (g.id != id) = true := fun g hg =>
          bne_iff_ne.2 fun hgid => hids.1 (List.mem_map.2 ⟨g, hg, hgid.trans hid.symm⟩)
        simp [hid, List.filter_eq_self.2 hrest]
      · simp [hid, ih hids.2]

@[simp] theorem changeFirst_id
    (functions : List Function)
    (id : FuncId) :
    changeFirst id (fun f => f) functions = functions := by
  induction functions with
  | nil => rfl
  | cons f rest ih => simp [changeFirst, ih]

/-- Changing a function goes along with a map under which the identifiers stay apart. -/
theorem changeFirst_map
    {id' : FuncId}
    {change' image : Function → Function}
    (hid : ∀ f ∈ functions, (image f).id = id' ↔ f.id = id)
    (hchange : ∀ f ∈ functions, f.id = id → change' (image f) = image (change f)) :
    changeFirst id' change' (functions.map image) =
      (changeFirst id change functions).map image := by
  induction functions with
  | nil => rfl
  | cons f rest ih =>
      have hrest := ih (fun g hg => hid g (List.mem_cons_of_mem _ hg)) fun g hg =>
        hchange g (List.mem_cons_of_mem _ hg)
      by_cases hf : f.id = id
      · simp [changeFirst, hf, (hid f List.mem_cons_self).2 hf,
          hchange f List.mem_cons_self hf]
      · simp [changeFirst, hf, mt (hid f List.mem_cons_self).1 hf, hrest]

/-- Functions of other identifiers stay. -/
theorem mem_changeFirst_of_ne
    {f : Function}
    (hf : f ∈ functions)
    (hid : f.id ≠ id) :
    f ∈ changeFirst id change functions := by
  induction functions with
  | nil => cases hf
  | cons g rest ih =>
      by_cases hg : g.id = id
      · rw [changeFirst, if_pos hg]
        rcases List.mem_cons.1 hf with rfl | hf
        · exact absurd hg hid
        · exact List.mem_cons_of_mem _ hf
      · rw [changeFirst, if_neg hg]
        rcases List.mem_cons.1 hf with rfl | hf
        · exact List.mem_cons_self
        · exact List.mem_cons_of_mem _ (ih hf)

/-- A function of the changed list stood there before, or it is what was made of one. -/
theorem of_mem_changeFirst
    {g : Function}
    (hg : g ∈ changeFirst id change functions) :
    g ∈ functions ∨ ∃ f ∈ functions, f.id = id ∧ g = change f := by
  induction functions with
  | nil => cases hg
  | cons f rest ih =>
      by_cases hf : f.id = id
      · rw [changeFirst, if_pos hf] at hg
        rcases List.mem_cons.1 hg with rfl | hg
        · exact .inr ⟨f, List.mem_cons_self, hf, rfl⟩
        · exact .inl (List.mem_cons_of_mem _ hg)
      · rw [changeFirst, if_neg hf] at hg
        rcases List.mem_cons.1 hg with rfl | hg
        · exact .inl List.mem_cons_self
        · rcases ih hg with hg | ⟨h, hh, hfacts⟩
          · exact .inl (List.mem_cons_of_mem _ hg)
          · exact .inr ⟨h, List.mem_cons_of_mem _ hh, hfacts⟩

/-- Changing a function is changing the first one that bears the identifier. -/
theorem mapFunction_congr
    {m : Module}
    {f : Function}
    (hf : m.function? id = some f)
    {change change' : Function → Function}
    (hchange : change f = change' f) :
    m.mapFunction id change = m.mapFunction id change' := by
  simp only [function?, mapFunction, Module.mk.injEq, and_true] at hf ⊢
  revert hf
  induction m.functions with
  | nil => exact fun _ => rfl
  | cons g rest ih =>
      intro hf
      by_cases hid : g.id = id
      · obtain rfl : g = f := by simpa [hid] using hf
        rw [changeFirst, changeFirst, if_pos hid, if_pos hid, hchange]
      · rw [changeFirst, changeFirst, if_neg hid, if_neg hid, ih (by simpa [hid] using hf)]

theorem mapFunction_of_missing
    {m : Module}
    (h : m.function? id = none) :
    m.mapFunction id change = m := by
  have hne : ∀ f ∈ m.functions, f.id ≠ id := fun f hf => by
    simpa using List.find?_eq_none.1 h f hf
  have hsame : changeFirst id change (m.functions ++ []) = m.functions ++ [] :=
    changeFirst_append_of_ne hne []
  rw [List.append_nil] at hsame
  rw [mapFunction, hsame]

end First

namespace Coherent

variable {m : Module}

theorem find?_eq_some_iff
    (h : m.Coherent)
    {name : String}
    {id : FuncId} :
    m.find? name = some id ↔ ∃ f ∈ m.functions, f.name = name ∧ f.id = id := by
  rw [find?, h.names_eq]
  exact lookup_map_eq_some_iff h.names_nodup

theorem function?_eq_some_iff
    (h : m.Coherent)
    {id : FuncId}
    {f : Function} :
    m.function? id = some f ↔ f ∈ m.functions ∧ f.id = id := by
  constructor
  · exact fun hf => ⟨mem_of_function? hf, id_of_function? hf⟩
  · rintro ⟨hf, rfl⟩
    exact function?_of_mem h.ids_nodup hf

theorem find?_eq_none_iff
    (h : m.Coherent)
    {name : String} :
    m.find? name = none ↔ ∀ f ∈ m.functions, f.name ≠ name := by
  constructor
  · intro hnone f hf hname
    have hsome := h.find?_eq_some_iff.2 ⟨f, hf, hname, rfl⟩
    rw [hnone] at hsome
    cases hsome
  · intro hall
    cases hfind : m.find? name with
    | none => rfl
    | some id =>
        obtain ⟨f, hf, hname, -⟩ := h.find?_eq_some_iff.1 hfind
        exact absurd hname (hall f hf)

theorem eq_of_name_eq
    (h : m.Coherent)
    {f g : Function}
    (hf : f ∈ m.functions)
    (hg : g ∈ m.functions)
    (hname : f.name = g.name) :
    f = g :=
  List.inj_on_of_nodup_map h.names_nodup hf hg hname

theorem eq_of_id_eq
    (h : m.Coherent)
    {f g : Function}
    (hf : f ∈ m.functions)
    (hg : g ∈ m.functions)
    (hid : f.id = g.id) :
    f = g :=
  List.inj_on_of_nodup_map h.ids_nodup hf hg hid

theorem empty :
    Module.empty.Coherent :=
  ⟨List.nodup_nil, List.nodup_nil, rfl, by simp [Module.empty]⟩

theorem declare
    (h : m.Coherent)
    {name : String}
    (hfree : m.find? name = none)
    (hbound : m.nextId < UInt32.size)
    (params : List String) :
    (m.declare name params).Coherent := by
  have hnumber : m.freshId.number = m.nextId := FuncId.number_ofCount hbound
  refine ⟨?_, ?_, ?_, ?_⟩
  · simp only [Module.declare, List.map_append, List.map_cons, List.map_nil,
      Function.declaration]
    refine List.nodup_append.2 ⟨h.ids_nodup, by simp, ?_⟩
    intro id hid id' hid' heq
    obtain ⟨f, hf, rfl⟩ := List.mem_map.1 hid
    have hlt := h.below f hf
    rw [heq, List.mem_singleton.1 hid', hnumber] at hlt
    omega
  · simp only [Module.declare, List.map_append, List.map_cons, List.map_nil,
      Function.declaration]
    refine List.nodup_append.2 ⟨h.names_nodup, by simp, ?_⟩
    intro n hn n' hn' heq
    obtain ⟨f, hf, rfl⟩ := List.mem_map.1 hn
    exact h.find?_eq_none_iff.1 hfree f hf (heq.trans (List.mem_singleton.1 hn'))
  · simp [Module.declare, h.names_eq, Function.declaration]
  · intro f hf
    simp only [Module.declare, List.mem_append, List.mem_singleton] at hf ⊢
    rcases hf with hf | rfl
    · have hlt := h.below f hf
      omega
    · change m.freshId.number < _
      omega

theorem functions_mapFunction
    (h : m.Coherent)
    (id : FuncId)
    (change : Function → Function) :
    (m.mapFunction id change).functions = m.functions.map fun f => if f.id = id then
      change f else f :=
  changeFirst_eq_map h.ids_nodup id change

theorem mem_mapFunction
    (h : m.Coherent)
    {id : FuncId}
    {change : Function → Function}
    {g : Function} :
    g ∈ (m.mapFunction id change).functions ↔ ∃ f ∈ m.functions,
      (if f.id = id then change f else f) = g := by
  rw [h.functions_mapFunction, List.mem_map]

theorem mapFunction
    (h : m.Coherent)
    {id : FuncId}
    {change : Function → Function}
    (hid : ∀ f ∈ m.functions, f.id = id → (change f).id = f.id ∧ (change f).name = f.name) :
    (m.mapFunction id change).Coherent := by
  have hsame : ∀ f ∈ m.functions,
      (if f.id = id then change f else f).id = f.id ∧
        (if f.id = id then change f else f).name = f.name := by
    intro f hf
    split
    · next hfid => exact hid f hf hfid
    · exact ⟨rfl, rfl⟩
  have hids : (m.mapFunction id change).functions.map (·.id) = m.functions.map (·.id) := by
    rw [h.functions_mapFunction, List.map_map]
    exact List.map_congr_left fun f hf => (hsame f hf).1
  have hnames : (m.mapFunction id change).functions.map (·.name) =
      m.functions.map (·.name) := by
    rw [h.functions_mapFunction, List.map_map]
    exact List.map_congr_left fun f hf => (hsame f hf).2
  refine ⟨by rw [hids]; exact h.ids_nodup, by rw [hnames]; exact h.names_nodup, ?_, ?_⟩
  · change m.names = _
    rw [h.names_eq, h.functions_mapFunction, List.map_map]
    exact List.map_congr_left fun f hf => by simp [hsame f hf]
  · intro g hg
    rw [h.functions_mapFunction] at hg
    obtain ⟨f, hf, rfl⟩ := List.mem_map.1 hg
    rw [(hsame f hf).1]
    exact h.below f hf

theorem erase
    (h : m.Coherent)
    {f : Function}
    (hf : f ∈ m.functions) :
    (m.erase f).Coherent := by
  have hsame : ∀ g ∈ m.functions, (g.id != f.id) = (g.name != f.name) := by
    intro g hg
    rw [Bool.eq_iff_iff, bne_iff_ne, bne_iff_ne, not_iff_not]
    exact ⟨fun hid => congrArg _ (h.eq_of_id_eq hg hf hid), fun hname =>
      congrArg _ (h.eq_of_name_eq hg hf hname)⟩
  refine ⟨h.ids_nodup.sublist (List.eraseP_sublist.map _),
    h.names_nodup.sublist (List.eraseP_sublist.map _), ?_, ?_⟩
  · simp only [Module.erase, h.names_eq, List.filter_map, eraseP_eq_filter h.ids_nodup]
    exact congrArg _ (List.filter_congr fun g hg => (hsame g hg).symm)
  · exact fun g hg => h.below g (List.mem_of_mem_eraseP hg)

theorem filter_name_eq
    (h : m.Coherent)
    {f : Function}
    (hf : f ∈ m.functions) :
    m.functions.filter (fun g => g.name == f.name) = [f] := by
  have hnames := h.names_nodup
  revert hf hnames
  induction m.functions with
  | nil => simp
  | cons g rest ih =>
      intro hf hnames
      rw [List.map_cons, List.nodup_cons] at hnames
      rcases List.mem_cons.1 hf with rfl | hf
      · have hrest : rest.filter (fun g => g.name == f.name) = [] := by
          refine List.filter_eq_nil_iff.2 fun g hg heq =>
            hnames.1 (List.mem_map.2 ⟨g, hg, ?_⟩)
          simpa using heq
        rw [List.filter_cons_of_pos (by simp), hrest]
      · have hne : g.name ≠ f.name := fun heq => hnames.1 (List.mem_map.2 ⟨f, hf, heq.symm⟩)
        rw [List.filter_cons_of_neg (by simpa using hne), ih hf hnames.2]

theorem find?_erase
    (h : m.Coherent)
    {f : Function}
    (hf : f ∈ m.functions)
    (name : String) :
    (m.erase f).find? name = if name = f.name then none else m.find? name := by
  by_cases hname : name = f.name
  · rw [if_pos hname, (h.erase hf).find?_eq_none_iff]
    intro g hg hgname
    -- a function of that name would be the erased one
    have hsame : g = f :=
      h.eq_of_name_eq (List.mem_of_mem_eraseP hg) hf (hgname.trans hname)
    simp [Module.erase, Module.eraseP_eq_filter h.ids_nodup, hsame] at hg
  · rw [if_neg hname]
    refine Option.ext fun id => ?_
    rw [(h.erase hf).find?_eq_some_iff, h.find?_eq_some_iff]
    constructor
    · rintro ⟨g, hg, hfacts⟩
      exact ⟨g, List.mem_of_mem_eraseP hg, hfacts⟩
    · rintro ⟨g, hg, rfl, hid⟩
      have hne : g.id ≠ f.id := fun heq => hname (congrArg _ (h.eq_of_id_eq hg hf heq))
      exact ⟨g, (List.mem_eraseP_of_neg (by simpa using hne)).2 hg, rfl, hid⟩

end Coherent

/--
Fewer identifiers of functions, and of blocks and values in each function, were
issued than there are.
-/
structure Small (m : Module) : Prop where
  functions : m.nextId < UInt32.size
  blocks : ∀ f ∈ m.functions, f.nextBlock < UInt32.size
  values : ∀ f ∈ m.functions, f.nextValue < UInt32.size

end Module

end ScalarSsa
