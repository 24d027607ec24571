import Mathlib.Data.List.Induction
import ScalarSsa.Proofs.Ssa.Building

/-!
# Histories of the table of functions

**Input.** Calls on a builder that has done nothing yet: declarations, deletions, and edits
of a function that leave its identifier and its name alone.

**Definitions.** A `History` is a builder with the identifiers that were issued and deleted
so far.  An identifier is `Live` if it was issued and not deleted since.

**Results.** `after_consistent`: as long as there are identifiers left, every history leads
to a table whose functions are those of the live identifiers, in the order of their
declaration, and are found by their names.  `orderly_after` adds what the next declaration
and the next deletion do.
-/

namespace ScalarSsa.Table

/-- A change of a function that leaves its identifier and its name alone. -/
structure Edit where
  change : Function → Function
  id_eq : ∀ f, (change f).id = f.id
  name_eq : ∀ f, (change f).name = f.name

/-- A call on the table of functions. -/
inductive Call where
  | declare (name : String) (params : List String)
  | delete (id : FuncId)
  | edit (id : FuncId) (e : Edit)

/-- What a call did to the identifiers. -/
inductive Event where
  | issued (name : String) (id : FuncId)
  | deleted (id : FuncId)
  deriving DecidableEq

/-- The call on a builder, with what it did to the identifiers. -/
def Call.run : Call → StateM Builder (List Event)
  | .declare name params =>
    return ((← Builder.declare? name params).map (Event.issued name)).toList
  | .delete id => return ((← Builder.delete? id).map fun _ => Event.deleted id).toList
  | .edit id e => do
    modify (Builder.mapFunction id e.change)
    return []

/-- A builder, and what its calls did. -/
structure History where
  builder : Builder
  /-- The newest event comes first. -/
  log : List Event

namespace History

/-- The functions after the calls. -/
abbrev module (h : History) : Module :=
  h.builder.module

/-- The history with one more call. -/
def call (h : History) (c : Call) : History :=
  ⟨(c.run.run h.builder).2, (c.run.run h.builder).1 ++ h.log⟩

/-- The history of some calls on a new builder. -/
def after (calls : List Call) : History :=
  calls.foldl call ⟨.empty, []⟩

end History

/-- The names and identifiers that were issued, in the order of their declaration. -/
def issued : List Event → List (String × FuncId)
  | [] => []
  | .issued name id :: older => issued older ++ [(name, id)]
  | .deleted _ :: older => issued older

/-- The identifier was issued and not deleted since. -/
def Live (id : FuncId) : List Event → Prop
  | [] => False
  | .issued _ other :: older => other = id ∨ Live id older
  | .deleted other :: older => other ≠ id ∧ Live id older

/-! ## One call -/

section Call

variable {h : History} {id : FuncId} {name : String}

theorem call_declare_taken
    (htaken : h.module.find? name = some id)
    (params : List String) :
    h.call (.declare name params) = h := by
  rw [History.call, Call.run, run_state_bind (Builder.run_declare?_taken htaken params)]
  rfl

theorem call_declare_free
    (hfree : h.module.find? name = none)
    (params : List String) :
    (h.call (.declare name params)).module = h.module.declare name params ∧
      (h.call (.declare name params)).log = .issued name h.module.freshId :: h.log := by
  obtain ⟨note, hrun⟩ := Builder.run_declare?_free hfree params
  rw [History.call, Call.run, run_state_bind hrun]
  exact ⟨rfl, rfl⟩

theorem call_delete_missing
    (hnone : h.module.function? id = none) :
    h.call (.delete id) = h := by
  rw [History.call, Call.run, run_state_bind (Builder.run_delete?_missing hnone)]
  rfl

theorem call_delete
    {f : Function}
    (hf : h.module.function? id = some f) :
    (h.call (.delete id)).module = h.module.erase f ∧ (h.call (.delete id)).log =
      .deleted id :: h.log := by
  obtain ⟨note, hrun⟩ := Builder.run_delete? hf
  rw [History.call, Call.run, run_state_bind hrun]
  exact ⟨rfl, rfl⟩

/-- All that a call can do. -/
theorem call_cases
    (h : History)
    (c : Call) :
    h.call c = h ∨
      (∃ name params, h.module.find? name = none ∧ (h.call c).module =
        h.module.declare name params ∧
        (h.call c).log = .issued name h.module.freshId :: h.log) ∨
      (∃ id f, h.module.function? id = some f ∧ (h.call c).module = h.module.erase f ∧
        (h.call c).log = .deleted id :: h.log) ∨
      ∃ id, ∃ e : Edit, (h.call c).module = h.module.mapFunction id e.change ∧
        (h.call c).log = h.log := by
  cases c with
  | declare name params =>
      cases hfind : h.module.find? name with
      | some id => exact .inl (call_declare_taken hfind params)
      | none => exact .inr (.inl ⟨name, params, hfind, call_declare_free hfind params⟩)
  | delete id =>
      cases hf : h.module.function? id with
      | none => exact .inl (call_delete_missing hf)
      | some f => exact .inr (.inr (.inl ⟨id, f, hf, call_delete hf⟩))
  | edit id e => exact .inr (.inr (.inr ⟨id, e, rfl, rfl⟩))

end Call

/-! ## Histories -/

/--
The table is in order, and its functions are those that were issued and not deleted since.
-/
structure Consistent (h : History) : Prop where
  coherent : h.module.Coherent
  issued_eq : (issued h.log).map (·.2) = (List.range h.module.nextId).map .ofCount
  listed : (h.module.functions.map fun f => (f.name, f.id)).Sublist (issued h.log)
  live_iff : ∀ id, Live id h.log ↔ ∃ f ∈ h.module.functions, f.id = id

namespace Consistent

variable {h : History}

theorem length_issued
    (hc : Consistent h) :
    (issued h.log).length = h.module.nextId := by
  simpa using congrArg List.length hc.issued_eq

/-- The numbers that were issued count up. -/
theorem numbers_issued
    (hc : Consistent h)
    (hbound : (issued h.log).length < UInt32.size) :
    (issued h.log).map (·.2.number) = List.range h.module.nextId := by
  rw [hc.length_issued] at hbound
  have hnumber : ∀ n ∈ List.range h.module.nextId, (FuncId.ofCount n).number = n :=
    fun n hn =>
    FuncId.number_ofCount (Nat.lt_trans (List.mem_range.1 hn) hbound)
  calc (issued h.log).map (·.2.number)
      = ((issued h.log).map (·.2)).map FuncId.number := by rw [List.map_map]; rfl
    _ = (List.range h.module.nextId).map fun n => (FuncId.ofCount n).number := by
        rw [hc.issued_eq, List.map_map]; rfl
    _ = List.range h.module.nextId := by rw [List.map_congr_left hnumber, List.map_id']

theorem declare
    (hc : Consistent h)
    (hbound : (issued h.log).length < UInt32.size)
    {h' : History}
    {name : String}
    {params : List String}
    (hfree : h.module.find? name = none)
    (hmodule : h'.module = h.module.declare name params)
    (hlog : h'.log = .issued name h.module.freshId :: h.log) :
    Consistent h' := by
  rw [hc.length_issued] at hbound
  refine ⟨?_, ?_, ?_, fun id => ?_⟩
  · rw [hmodule]
    exact hc.coherent.declare hfree hbound params
  · rw [hmodule, hlog]
    simp [issued, hc.issued_eq, Module.declare, Module.freshId, List.range_succ]
  · rw [hmodule, hlog]
    simp only [issued, Module.declare, List.map_append]
    exact hc.listed.append (List.Sublist.refl _)
  · rw [hmodule, hlog]
    simp only [Live, hc.live_iff, Module.declare, List.mem_append, List.mem_singleton]
    constructor
    · rintro (rfl | ⟨f, hf, hid⟩)
      · exact ⟨_, .inr rfl, rfl⟩
      · exact ⟨f, .inl hf, hid⟩
    · rintro ⟨f, hf | rfl, hid⟩
      · exact .inr ⟨f, hf, hid⟩
      · exact .inl hid

theorem delete
    (hc : Consistent h)
    {h' : History}
    {id : FuncId}
    {f : Function}
    (hf : h.module.function? id = some f)
    (hmodule : h'.module = h.module.erase f)
    (hlog : h'.log = .deleted id :: h.log) :
    Consistent h' := by
  obtain ⟨hmem, rfl⟩ := hc.coherent.function?_eq_some_iff.1 hf
  refine ⟨?_, ?_, ?_, fun other => ?_⟩
  · rw [hmodule]
    exact hc.coherent.erase hmem
  · rw [hmodule, hlog]
    exact hc.issued_eq
  · rw [hmodule, hlog]
    exact (List.eraseP_sublist.map _).trans hc.listed
  · rw [hmodule, hlog]
    simp only [Live, hc.live_iff, Module.erase,
      Module.eraseP_eq_filter hc.coherent.ids_nodup, List.mem_filter,
      bne_iff_ne]
    constructor
    · rintro ⟨hne, g, hg, rfl⟩
      exact ⟨g, ⟨hg, hne.symm⟩, rfl⟩
    · rintro ⟨g, ⟨hg, hne⟩, rfl⟩
      exact ⟨hne.symm, g, hg, rfl⟩

theorem edit
    (hc : Consistent h)
    {h' : History}
    {id : FuncId}
    {e : Edit}
    (hmodule : h'.module = h.module.mapFunction id e.change)
    (hlog : h'.log = h.log) :
    Consistent h' := by
  have hcoherent : h'.module.Coherent := by
    rw [hmodule]
    exact hc.coherent.mapFunction fun f _ _ => ⟨e.id_eq f, e.name_eq f⟩
  -- the names and identifiers of the functions are those from before
  have hheaders : (h'.module.functions.map fun f => (f.name, f.id)) =
      h.module.functions.map fun f => (f.name, f.id) := by
    rw [← hcoherent.names_eq, ← hc.coherent.names_eq, hmodule]
    rfl
  refine ⟨hcoherent, ?_, ?_, fun other => ?_⟩
  · rw [hlog, hmodule]
    exact hc.issued_eq
  · rw [hlog, hheaders]
    exact hc.listed
  · have hids : h'.module.functions.map (·.id) = h.module.functions.map (·.id) := by
      have hsnd := congrArg (List.map Prod.snd) hheaders
      rw [List.map_map, List.map_map] at hsnd
      exact hsnd
    rw [hlog, hc.live_iff, ← List.mem_map, ← List.mem_map, hids]

theorem call
    (hc : Consistent h)
    (hbound : (issued h.log).length < UInt32.size)
    (c : Call) :
    Consistent (h.call c) := by
  rcases call_cases h c with hsame | ⟨name, params, hfree, hmodule, hlog⟩
    | ⟨id, f, hf, hmodule, hlog⟩ |
      ⟨id, e, hmodule, hlog⟩
  · rw [hsame]
    exact hc
  · exact hc.declare hbound hfree hmodule hlog
  · exact hc.delete hf hmodule hlog
  · exact hc.edit hmodule hlog

end Consistent

/-- Identifiers that were issued stay issued. -/
theorem length_issued_call
    (h : History)
    (c : Call) :
    (issued h.log).length ≤ (issued (h.call c).log).length := by
  rcases call_cases h c with hsame | ⟨name, params, -, -, hlog⟩ | ⟨id, f, -, -, hlog⟩
    | ⟨id, e, -, hlog⟩
  · exact Nat.le_of_eq (congrArg (fun h => (issued h.log).length) hsame.symm)
  · simp [hlog, issued]
  · simp [hlog, issued]
  · simp [hlog]

theorem after_consistent
    (calls : List Call)
    (hbound : (issued (History.after calls).log).length < UInt32.size) :
    Consistent (History.after calls) := by
  induction calls using List.reverseRecOn with
  | nil => exact ⟨.empty, rfl, List.Sublist.refl _, fun id =>
      by simp [History.after, Live, Builder.empty, Module.empty]⟩
  | append_singleton calls c ih =>
      have hstep : History.after (calls ++ [c]) = (History.after calls).call c := by
        simp [History.after]
      rw [hstep] at hbound ⊢
      have hbefore := Nat.lt_of_le_of_lt (length_issued_call _ c) hbound
      exact (ih hbefore).call hbefore c

/-! ## What a caller can rely on -/

/--
The functions, their names and their identifiers belong together, and so they do
after the next call.
-/
structure Orderly (h : History) : Prop where
  find?_iff : ∀ name id, h.module.find? name = some id ↔
    ∃ f, h.module.functions.filter (fun g => g.name == name) = [f] ∧ f.id = id
  names_nodup : (h.module.functions.map (·.name)).Nodup
  ids_nodup : (h.module.functions.map (·.id)).Nodup
  /-- The functions stand in the order of their declaration, under the names they were
  declared with. -/
  listed : (h.module.functions.map fun f => (f.name, f.id)).Sublist (issued h.log)
  increasing : (h.module.functions.map (·.id.number)).Pairwise (· < ·)
  function?_iff : ∀ id, (h.module.function? id).isSome = true ↔ Live id h.log
  /-- No identifier was issued twice, whether or not it was deleted in between. -/
  issued_nodup : ((issued h.log).map (·.2)).Nodup
  declare_fails_iff : ∀ name params,
    ((Builder.declare? name params).run h.builder).1 = none ↔
    ∃ f ∈ h.module.functions, f.name = name
  declare_failed : ∀ name params, ((Builder.declare? name params).run h.builder).1 = none →
    ((Builder.declare? name params).run h.builder).2 = h.builder
  delete_missing : ∀ id, h.module.function? id = none → (Builder.delete? id).run h.builder =
    (none, h.builder)
  /-- Deleting a function frees its name and no other, and leaves the other
  functions as they were. -/
  delete_found : ∀ id f, h.module.function? id = some f → ∃ b,
    (Builder.delete? id).run h.builder = (some f, b) ∧
    b.module.functions = h.module.functions.filter (fun g => g.id != id) ∧
    ∀ name, b.module.find? name = if name = f.name then none else h.module.find? name

theorem orderly_after
    (calls : List Call)
    (hbound : (issued (History.after calls).log).length < UInt32.size) :
    Orderly (History.after calls) := by
  have hc := after_consistent calls hbound
  have hnumbers := hc.numbers_issued hbound
  refine ⟨?_, hc.coherent.names_nodup, hc.coherent.ids_nodup, hc.listed, ?_, ?_,
    ?_, ?_, ?_, ?_, ?_⟩
  · intro name id
    rw [hc.coherent.find?_eq_some_iff]
    constructor
    · rintro ⟨f, hf, rfl, hid⟩
      exact ⟨f, hc.coherent.filter_name_eq hf, hid⟩
    · rintro ⟨f, hfilter, hid⟩
      have hf := List.mem_filter.1 (hfilter ▸ List.mem_singleton_self f)
      exact ⟨f, hf.1, by simpa using hf.2, hid⟩
  · have hsub := hc.listed.map (·.2.number)
    rw [hnumbers, List.map_map] at hsub
    exact List.pairwise_lt_range.sublist hsub
  · intro id
    rw [hc.live_iff, Option.isSome_iff_exists]
    exact exists_congr fun f => hc.coherent.function?_eq_some_iff
  · refine List.Nodup.of_map FuncId.number ?_
    rw [List.map_map]
    exact hnumbers ▸ List.nodup_range
  · intro name params
    cases hfind : (History.after calls).module.find? name with
    | some id =>
        obtain ⟨f, hf, hname, -⟩ := hc.coherent.find?_eq_some_iff.1 hfind
        rw [Builder.run_declare?_taken hfind params]
        exact ⟨fun _ => ⟨f, hf, hname⟩, fun _ => rfl⟩
    | none =>
        obtain ⟨note, hrun⟩ := Builder.run_declare?_free hfind params
        rw [hrun]
        refine ⟨fun h => (by cases h), ?_⟩
        rintro ⟨f, hf, hname⟩
        exact absurd hname (hc.coherent.find?_eq_none_iff.1 hfind f hf)
  · intro name params hnone
    cases hfind : (History.after calls).module.find? name with
    | some id => rw [Builder.run_declare?_taken hfind params]
    | none =>
        obtain ⟨note, hrun⟩ := Builder.run_declare?_free hfind params
        rw [hrun] at hnone
        cases hnone
  · exact fun id hnone => Builder.run_delete?_missing hnone
  · intro id f hf
    obtain ⟨note, hrun⟩ := Builder.run_delete? hf
    obtain ⟨hmem, rfl⟩ := hc.coherent.function?_eq_some_iff.1 hf
    exact ⟨_, hrun, Module.eraseP_eq_filter hc.coherent.ids_nodup f.id,
      hc.coherent.find?_erase hmem⟩

/--
Two functions are declared, a third takes a name in vain, the first is deleted and
its name used again.
-/
def renewed : List Call :=
  [.declare "f" ["x"], .declare "g" [], .declare "f" [],
    .edit (.ofCount 1) ⟨(·.appendBlock "entry"), fun _ => rfl, fun _ => rfl⟩,
    .delete (.ofCount 0), .declare "f" ["x", "y"]]

theorem renewed_orderly :
    (issued (History.after renewed).log).length = 3 ∧
      (History.after renewed).module.functions.map (·.id.number) = [1, 2] ∧
      Orderly (History.after renewed) :=
  ⟨by decide +kernel, by decide +kernel, orderly_after renewed (by decide +kernel)⟩

end ScalarSsa.Table
