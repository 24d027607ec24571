import ScalarSsa.Session
import ScalarSsa.Proofs.Lowering.Histories

/-!
# Sessions before their first item

**Input.** Settings, passes, and whether the host functions are declared.

**Definitions.** `Program.provided` lists the declarations with which a program starts.

**Results.** `tidy_fresh`: a fresh session is in order.  It has called no host function, and
its functions are the host functions that were asked for, none of which has a body.
-/

namespace ScalarSsa

/-- The host functions with which a session starts. -/
def HostFunction.provided (host : Bool) : List HostFunction :=
  if host then all else []

/-- The declarations with which a program starts. -/
def Program.provided (host : Bool) : List Item :=
  (HostFunction.provided host).map fun h => .declaration h.signature

namespace Session

variable (settings : Settings) (passes : Pipeline) (host evaluate : Bool)

theorem settings_fresh :
    (fresh settings passes host evaluate).context.settings = settings := by
  cases host <;> rfl

theorem passes_fresh :
    (fresh settings passes host evaluate).context.passes = passes := by
  cases host <;> rfl

theorem evaluate_fresh :
    (fresh settings passes host evaluate).evaluate = evaluate := by
  cases host <;> rfl

theorem hostCalls_fresh :
    (fresh settings passes host evaluate).context.builder.journal.hostCalls = [] := by
  cases host <;> rfl

theorem module_fresh :
    (fresh settings passes host evaluate).module =
      (HostFunction.provided host).foldl Module.provide .empty := by
  cases host <;> rfl

/-- The functions of a fresh session have no bodies. -/
theorem bare_of_mem_fresh
    {f : Function}
    (hf : f ∈ (fresh settings passes host evaluate).module.functions) :
    f.blocks = [] ∧ ∃ h ∈ HostFunction.provided host, f.name = h.name := by
  have hfunctions : (fresh settings passes host evaluate).module.functions.map
      (fun f => (f.blocks, f.name)) =
        (HostFunction.provided host).map fun h => ([], h.name) := by
    cases host <;> rfl
  have hmem := List.mem_map_of_mem (f := fun f : Function => (f.blocks, f.name)) hf
  rw [hfunctions] at hmem
  obtain ⟨h, hh, heq⟩ := List.mem_map.1 hmem
  obtain ⟨hblocks, hname⟩ := Prod.mk.inj heq
  exact ⟨hblocks.symm, h, hh, hname.symm⟩

/-- A fresh session is in order. -/
theorem tidy_fresh :
    (fresh settings passes host evaluate).context.Tidy := by
  obtain ⟨htidy, -⟩ := Context.tidy_initial settings passes
  cases host with
  | false => exact htidy
  | true =>
      -- the host functions are provided by a development of the empty module
      have hprovided : Module.Develops (fun f => f) (Context.initial settings passes).module
          (fresh settings passes true evaluate).module := .provide HostFunction.all .empty
      have hissued : (fresh settings passes true evaluate).context.module.nextId = 5 := rfl
      refine ⟨hprovided.tidy (fun f => .refl f) ?_ htidy.module, rfl⟩
      rw [hissued]
      decide

end Session

end ScalarSsa
