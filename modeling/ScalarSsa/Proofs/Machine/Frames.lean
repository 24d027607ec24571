import ScalarSsa.Proofs.Effect
import ScalarSsa.Proofs.Machine.Runs
import ScalarSsa.Proofs.Ssa.Sites

/-!
# Frames

**Results.** What a frame says about a result is `Frame.get?`, and every reader of a frame
looks only at that and at the arguments.  `enter_spec` says what the phis of a block do to a
frame, and `exists_enter` that they succeed if each of them can be read.
-/

namespace ScalarSsa
namespace Machine

/-- The type of a value. -/
def Datum.type : Datum → ValueType
  | .double _ => .double
  | .bool _ => .bool

namespace Frame

/-- The value of a result, if it was computed. -/
def get? (frame : Frame) (v : ValueId) : Option Datum :=
  frame.results.lookup v

/-- Removing the entries of one key leaves those of the others. -/
theorem lookup_filter_ne
    {α β : Type}
    [BEq α]
    [LawfulBEq α]
    {v w : α}
    (hne : w ≠ v)
    (entries : List (α × β)) :
    (entries.filter fun entry => entry.1 != v).lookup w = entries.lookup w := by
  induction entries with
  | nil => rfl
  | cons entry entries ih =>
      obtain ⟨u, d⟩ := entry
      by_cases hu : u = v
      · subst hu
        have hwu : (w == u) = false := by simpa using hne
        simp [List.lookup_cons, ih, hwu]
      · by_cases hw : w = u <;> simp [List.lookup_cons, hu, hw, ih]

@[simp] theorem get?_set
    (frame : Frame)
    (v w : ValueId)
    (d : Datum) :
    (frame.set v d).get? w = if w = v then some d else frame.get? w := by
  by_cases h : w = v
  · simp [get?, set, h]
  · have hne : (w == v) = false := by simpa using h
    simp only [get?, set, List.lookup_cons, hne, lookup_filter_ne h, h, if_false]

@[simp] theorem args_set
    (frame : Frame)
    (v : ValueId)
    (d : Datum) :
    (frame.set v d).args = frame.args :=
  rfl

theorem read_result
    (frame : Frame)
    (v : ValueId) :
    frame.read (.result v) =
      match frame.get? v with
      | some d => .ok d
      | none => .error (.notComputed v) :=
  rfl

theorem get?_of_read
    {frame : Frame}
    {v : ValueId}
    {d : Datum}
    (h : frame.read (.result v) = .ok d) :
    frame.get? v = some d := by
  rw [read_result] at h
  cases hget : frame.get? v with
  | none =>
      rw [hget] at h
      cases h
  | some d' =>
      rw [hget] at h
      cases h
      rfl

/-- The value of an operand other than a result hangs on the arguments only. -/
theorem read_congr
    {frame frame' : Frame}
    (hargs : frame.args = frame'.args)
    {o : Operand}
    (h : ∀ v, o = .result v → frame.get? v = frame'.get? v) :
    frame.read o = frame'.read o := by
  cases o with
  | const x => rfl
  | bool b => rfl
  | arg position => simp only [read, hargs]
  | result v => rw [read_result, read_result, h v rfl]

theorem readDouble_eq
    (frame : Frame)
    (o : Operand) :
    frame.readDouble o =
      match frame.read o with
      | .ok (.double x) => .ok x
      | .ok (.bool _) => .error (.notDouble o)
      | .error e => .error e := by
  unfold readDouble
  cases frame.read o with
  | error e => rfl
  | ok d => cases d <;> rfl

theorem readBool_eq
    (frame : Frame)
    (o : Operand) :
    frame.readBool o =
      match frame.read o with
      | .ok (.bool b) => .ok b
      | .ok (.double _) => .error (.notBool o)
      | .error e => .error e := by
  unfold readBool
  cases frame.read o with
  | error e => rfl
  | ok d => cases d <;> rfl

theorem readDouble_of_read
    {frame : Frame}
    {o : Operand}
    {x : Float}
    (h : frame.read o = .ok (.double x)) :
    frame.readDouble o = .ok x := by
  rw [readDouble_eq, h]

theorem readBool_of_read
    {frame : Frame}
    {o : Operand}
    {b : Bool}
    (h : frame.read o = .ok (.bool b)) :
    frame.readBool o = .ok b := by
  rw [readBool_eq, h]

theorem readDoubles_cons
    {frame : Frame}
    {o : Operand}
    {os : List Operand}
    {x : Float}
    {xs : List Float}
    (h : frame.readDouble o = .ok x)
    (hs : frame.readDoubles os = .ok xs) :
    frame.readDoubles (o :: os) = .ok (x :: xs) := by
  have hs' : os.mapM frame.readDouble = .ok xs := hs
  simp only [readDoubles, List.mapM_cons, h, hs']
  rfl

theorem readDoubles_cons_eq_ok
    {frame : Frame}
    {o : Operand}
    {os : List Operand}
    {xs : List Float}
    (h : frame.readDoubles (o :: os) = .ok xs) :
    ∃ y ys, frame.readDouble o = .ok y ∧ frame.readDoubles os = .ok ys ∧ xs = y :: ys := by
  simp only [readDoubles, List.mapM_cons] at h
  obtain ⟨y, hread, h⟩ := of_bind_eq_ok h
  obtain ⟨ys, hreads, h⟩ := of_bind_eq_ok h
  cases h
  exact ⟨y, ys, hread, hreads, rfl⟩

/-! ## Phis -/

/-- The frame with several results. -/
def setAll (frame : Frame) (values : List (ValueId × Datum)) : Frame :=
  values.foldl (fun frame (id, d) => frame.set id d) frame

@[simp] theorem args_setAll
    (frame : Frame)
    (values : List (ValueId × Datum)) :
    (frame.setAll values).args = frame.args := by
  induction values generalizing frame with
  | nil => rfl
  | cons entry values ih => exact ih _

theorem get?_setAll_of_not_mem
    {v : ValueId}
    {values : List (ValueId × Datum)}
    (h : v ∉ values.map (·.1))
    (frame : Frame) :
    (frame.setAll values).get? v = frame.get? v := by
  induction values generalizing frame with
  | nil => rfl
  | cons entry values ih =>
      simp only [List.map_cons, List.mem_cons, not_or] at h
      have hset : (frame.setAll (entry :: values)).get? v =
          (frame.set entry.1 entry.2).get? v := ih h.2 _
      rw [hset, get?_set, if_neg h.1]

theorem get?_setAll_of_mem
    {entry : ValueId × Datum}
    {values : List (ValueId × Datum)}
    (hnodup : (values.map (·.1)).Nodup)
    (h : entry ∈ values)
    (frame : Frame) :
    (frame.setAll values).get? entry.1 = some entry.2 := by
  induction values generalizing frame with
  | nil => simp at h
  | cons first values ih =>
      simp only [List.map_cons, List.nodup_cons] at hnodup
      rcases List.mem_cons.mp h with rfl | h
      · have hset : (frame.setAll (entry :: values)).get? entry.1 =
            (frame.set entry.1 entry.2).get? entry.1 :=
          get?_setAll_of_not_mem hnodup.1 _
        simp [hset]
      · exact ih hnodup.2 h _

end Frame

/-- The values that phis get, in order. -/
theorem readPhis_eq_ok
    {frame : Frame}
    {prev : Option BlockId}
    {phis : List Instr}
    (hphis : ∀ i ∈ phis, i.kind.isPhi = true)
    {values : List (ValueId × Datum)}
    (h : readPhis frame prev phis = .ok values) :
    List.Forall₂ (fun i entry => entry.1 = i.dest ∧ ∀ type incoming,
      i.kind = .phi type incoming →
      readPhi frame prev i.dest incoming = .ok entry.2) phis values := by
  induction phis generalizing values with
  | nil =>
      cases h
      exact .nil
  | cons i phis ih =>
      obtain ⟨type, incoming, hkind⟩ : ∃ type incoming, i.kind = .phi type incoming := by
        have hphi := hphis i List.mem_cons_self
        cases hk : i.kind <;> simp_all [InstrKind.isPhi]
      simp only [readPhis, hkind] at h
      obtain ⟨d, hread, h⟩ := of_bind_eq_ok h
      obtain ⟨others, hothers, h⟩ := of_bind_eq_ok h
      cases h
      refine .cons ⟨rfl, ?_⟩ (ih (fun j hj => hphis j (List.mem_cons_of_mem _ hj)) hothers)
      intro type' incoming' hkind'
      rw [hkind] at hkind'
      cases hkind'
      exact hread

theorem keys_of_forall₂
    {P : Instr → ValueId × Datum → Prop}
    {phis : List Instr}
    {values : List (ValueId × Datum)}
    (h : List.Forall₂ (fun i entry => entry.1 = i.dest ∧ P i entry) phis values) :
    values.map (·.1) = phis.map (·.dest) := by
  induction h with
  | nil => rfl
  | cons hentry _ ih => simp [hentry.1, ih]

/-- What the phis of a block do to a frame. -/
theorem enter_spec
    {frame entered : Frame}
    {prev : Option BlockId}
    {b : Block}
    (h : enter frame prev b = .ok entered) :
    entered.args = frame.args ∧
      (∀ v, v ∉ b.phis.map (·.dest) → entered.get? v = frame.get? v) ∧
      ((b.phis.map (·.dest)).Nodup → ∀ i ∈ b.phis, ∀ type incoming,
        i.kind = .phi type incoming →
        ∃ d, readPhi frame prev i.dest incoming = .ok d ∧
          entered.get? i.dest = some d) := by
  unfold enter at h
  obtain ⟨values, hvalues, h⟩ := of_bind_eq_ok h
  obtain rfl : frame.setAll values = entered := by
    cases h
    rfl
  have hall := readPhis_eq_ok (fun i hi => Block.isPhi_of_mem_phis hi) hvalues
  have hkeys := keys_of_forall₂ hall
  refine ⟨Frame.args_setAll _ _, ?_, ?_⟩
  · intro v hv
    exact Frame.get?_setAll_of_not_mem (by rwa [hkeys]) _
  · intro hnodup i hi type incoming hkind
    obtain ⟨entry, hentry, hdest, hread⟩ : ∃ entry ∈ values, entry.1 = i.dest ∧
        ∀ type incoming, i.kind = .phi type incoming → readPhi frame prev i.dest incoming =
          .ok entry.2 := by
      obtain ⟨n, hn, rfl⟩ := List.getElem_of_mem hi
      have hlen := hall.length_eq
      exact ⟨values[n], List.getElem_mem _, hall.get hn (by omega)⟩
    refine ⟨entry.2, hread type incoming hkind, ?_⟩
    rw [← hdest]
    exact Frame.get?_setAll_of_mem (by rwa [hkeys]) hentry _

/-- A block can be entered if each of its phis can be read. -/
theorem exists_enter
    {frame : Frame}
    {prev : Option BlockId}
    {b : Block}
    (h : ∀ i ∈ b.phis, ∀ type incoming, i.kind = .phi type incoming →
      ∃ d, readPhi frame prev i.dest incoming = .ok d) :
    ∃ entered, enter frame prev b = .ok entered := by
  have hvalues : ∀ phis : List Instr,
      (∀ i ∈ phis, ∀ type incoming, i.kind = .phi type incoming →
      ∃ d, readPhi frame prev i.dest incoming = .ok d) → ∃ values,
        readPhis frame prev phis = .ok values := by
    intro phis
    induction phis with
    | nil => exact fun _ => ⟨[], rfl⟩
    | cons i phis ih =>
        intro hall
        obtain ⟨values, hrest⟩ := ih fun j hj => hall j (List.mem_cons_of_mem _ hj)
        cases hkind : i.kind with
        | phi type incoming =>
            obtain ⟨d, hread⟩ := hall i List.mem_cons_self type incoming hkind
            refine ⟨(i.dest, d) :: values, ?_⟩
            simp only [readPhis, hkind, hread, hrest]
            rfl
        | arith op lhs rhs => exact ⟨values, by simp only [readPhis, hkind, hrest]⟩
        | compare pred lhs rhs => exact ⟨values, by simp only [readPhis, hkind, hrest]⟩
        | promote src => exact ⟨values, by simp only [readPhis, hkind, hrest]⟩
        | call callee name args => exact ⟨values, by simp only [readPhis, hkind, hrest]⟩
  obtain ⟨values, hread⟩ := hvalues b.phis h
  exact ⟨_, by rw [enter, hread]; rfl⟩

end Machine
end ScalarSsa
