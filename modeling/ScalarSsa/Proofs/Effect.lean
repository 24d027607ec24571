/-!
# Computations that may fail

**Input.** A computation, and the state it starts from, if there is one.

**Definitions.** `Ensures` says what holds of the value and the state if the computation
succeeds, `Leaves` what holds of the state whether or not it does, and `Reports` with which
error it fails, if it fails.  `Agree` says that two computations that start from two states
have like results and leave states that are related again.

**Results.** A sequence succeeds if and only if its parts do.  What it ensures follows from
what its parts ensure, and sequences agree if their parts do.
-/

namespace ScalarSsa

section Except

variable {ε α β : Type} {x : Except ε α} {b : β}

/-- A computation that succeeds has succeeded at each of its steps. -/
theorem of_bind_eq_ok
    {k : α → Except ε β}
    (h : x >>= k = .ok b) :
    ∃ a, x = .ok a ∧ k a = .ok b := by
  cases x with
  | error e => cases h
  | ok a => exact ⟨a, rfl, h⟩

theorem of_map_eq_ok
    {g : α → β}
    (h : x.map g = .ok b) :
    ∃ a, x = .ok a ∧ g a = b := by
  cases x with
  | error e => cases h
  | ok a => exact ⟨a, rfl, Except.ok.inj h⟩

/-- A step that succeeds for every element succeeds for the list. -/
theorem mapM_map_ok
    {γ : Type}
    {f : α → Except ε β}
    {g : γ → α}
    {h : γ → β}
    {cs : List γ}
    (hstep : ∀ c ∈ cs, f (g c) = .ok (h c)) :
    (cs.map g).mapM f = .ok (cs.map h) := by
  induction cs with
  | nil => rfl
  | cons c cs ih =>
      have hrest := ih fun c' hc' => hstep c' (List.mem_cons_of_mem _ hc')
      rw [List.map_cons, List.mapM_cons, hstep c List.mem_cons_self, hrest]
      rfl

end Except

section Run

variable {ε σ α β : Type}

theorem run_get
    (c : σ) :
    (get : ExceptT ε (StateM σ) σ).run.run c = (.ok c, c) :=
  rfl

theorem run_state_bind
    {x : StateM σ α}
    {a : α}
    {c d : σ}
    (h : x.run c = (a, d))
    (next : α → StateM σ β) :
    (x >>= next).run c = (next a).run d := by
  change (next (x.run c).1).run (x.run c).2 = _
  rw [h]

theorem run_stateGet_bind
    (next : σ → StateM σ α)
    (c : σ) :
    (get >>= next).run c = (next c).run c :=
  rfl

theorem run_bind_ok
    {x : ExceptT ε (StateM σ) α}
    {next : α → ExceptT ε (StateM σ) β}
    {c d : σ}
    {a : α}
    (h : x.run.run c = (.ok a, d)) :
    (x >>= next).run.run c = (next a).run.run d := by
  simp only [ExceptT.run_bind, StateT.run_bind, h]
  rfl

theorem run_bind_error
    {x : ExceptT ε (StateM σ) α}
    {next : α → ExceptT ε (StateM σ) β}
    {c d : σ}
    {e : ε}
    (h : x.run.run c = (.error e, d)) :
    (x >>= next).run.run c = (.error e, d) := by
  simp only [ExceptT.run_bind, StateT.run_bind, h]
  rfl

theorem run_map
    (x : ExceptT ε (StateM σ) α)
    (g : α → β)
    (c : σ) :
    (g <$> x).run.run c = ((x.run.run c).1.map g, (x.run.run c).2) := by
  rw [map_eq_pure_bind]
  rcases hx : x.run.run c with ⟨e | a, d⟩
  · rw [run_bind_error hx]
    rfl
  · rw [run_bind_ok hx]
    rfl

theorem run_tryCatch_ok
    {x : ExceptT ε (StateM σ) α}
    {handler : ε → ExceptT ε (StateM σ) α}
    {c d : σ}
    {a : α}
    (h : x.run.run c = (.ok a, d)) :
    (MonadExcept.tryCatch x handler).run.run c = (.ok a, d) := by
  have hrun : StateT.run (x : StateM σ (Except ε α)) c = (.ok a, d) := h
  change (ExceptT.tryCatch x handler).run.run c = _
  simp only [ExceptT.tryCatch, ExceptT.run_mk, StateT.run_bind, hrun]
  rfl

theorem run_tryCatch_error
    {x : ExceptT ε (StateM σ) α}
    {handler : ε → ExceptT ε (StateM σ) α}
    {c d : σ}
    {e : ε}
    (h : x.run.run c = (.error e, d)) :
    (MonadExcept.tryCatch x handler).run.run c = (handler e).run.run d := by
  have hrun : StateT.run (x : StateM σ (Except ε α)) c = (.error e, d) := h
  change (ExceptT.tryCatch x handler).run.run c = _
  simp only [ExceptT.tryCatch, ExceptT.run_mk, StateT.run_bind, hrun]
  rfl

theorem run_lift
    {op : StateM σ α}
    {c d : σ}
    {a : α}
    (h : op.run c = (a, d)) :
    (liftM op : ExceptT ε (StateM σ) α).run.run c = (.ok a, d) := by
  change (Except.ok (op.run c).1, (op.run c).2) = _
  rw [h]

/-- If the computation succeeds, this holds of its value and of the state after it. -/
def Ensures (x : ExceptT ε (StateM σ) α) (c : σ) (post : α → σ → Prop) : Prop :=
  ∀ a d, x.run.run c = (.ok a, d) → post a d

namespace Ensures

variable {x : ExceptT ε (StateM σ) α} {c : σ} {post : α → σ → Prop}

theorem pure
    {a : α}
    (h : post a c) :
    Ensures (Pure.pure a : ExceptT ε (StateM σ) α) c post := by
  intro b d hrun
  cases hrun
  exact h

theorem get_bind
    {next : σ → ExceptT ε (StateM σ) α}
    (h : Ensures (next c) c post) :
    Ensures (MonadState.get >>= next) c post := by
  intro a d hrun
  rw [run_bind_ok (run_get c)] at hrun
  exact h a d hrun

theorem bind
    {next : α → ExceptT ε (StateM σ) β}
    {post' : β → σ → Prop}
    (h : Ensures x c post)
    (hnext : ∀ a d, post a d → Ensures (next a) d post') :
    Ensures (x >>= next) c post' := by
  intro b d hrun
  rcases hx : x.run.run c with ⟨_ | a, d'⟩
  · rw [run_bind_error hx] at hrun
    cases hrun
  · rw [run_bind_ok hx] at hrun
    exact hnext a d' (h a d' hx) b d hrun

theorem mono
    {post' : α → σ → Prop}
    (h : Ensures x c post)
    (himp : ∀ a d, post a d → post' a d) :
    Ensures x c post' :=
  fun a d hrun => himp a d (h a d hrun)

/-- A computation that cannot fail ends as it does. -/
theorem lift
    {op : StateM σ α}
    (h : post (op.run c).1 (op.run c).2) :
    Ensures (liftM op : ExceptT ε (StateM σ) α) c post := by
  intro a d hrun
  cases hrun
  exact h

theorem lift_bind
    {op : StateM σ α}
    {a : α}
    {d : σ}
    {next : α → ExceptT ε (StateM σ) β}
    {post' : β → σ → Prop}
    (h : op.run c = (a, d))
    (hnext : Ensures (next a) d post') :
    Ensures (liftM op >>= next) c post' := by
  intro b d' hrun
  refine hnext b d' ?_
  rw [← hrun, run_bind_ok (run_lift h)]

end Ensures

/-! ## States that are left behind -/

/-- The state that a computation leaves, whether or not it fails. -/
def Leaves (x : ExceptT ε (StateM σ) α) (c : σ) (Q : σ → Prop) : Prop :=
  Q (x.run.run c).2

namespace Leaves

variable {x : ExceptT ε (StateM σ) α} {c : σ} {Q : σ → Prop}

theorem pure
    {a : α}
    (h : Q c) :
    Leaves (Pure.pure a : ExceptT ε (StateM σ) α) c Q :=
  h

theorem get_bind
    {next : σ → ExceptT ε (StateM σ) α}
    (h : Leaves (next c) c Q) :
    Leaves (MonadState.get >>= next) c Q := by
  unfold Leaves
  rw [run_bind_ok (run_get c)]
  exact h

theorem lift_bind
    {op : StateM σ α}
    {a : α}
    {d : σ}
    {next : α → ExceptT ε (StateM σ) β}
    (hop : op.run c = (a, d))
    (h : Leaves (next a) d Q) :
    Leaves (liftM op >>= next) c Q := by
  unfold Leaves
  rw [run_bind_ok (run_lift hop)]
  exact h

/-- What the second part of a sequence leaves may depend on what the first part ensures. -/
theorem bind_ensures
    {next : α → ExceptT ε (StateM σ) β}
    {post : α → σ → Prop}
    (h : Leaves x c Q)
    (hpost : Ensures x c post)
    (hnext : ∀ a d, post a d → Leaves (next a) d Q) :
    Leaves (x >>= next) c Q := by
  unfold Leaves at h ⊢
  rcases hx : x.run.run c with ⟨e | a, d⟩
  · rw [hx] at h
    rw [run_bind_error hx]
    exact h
  · rw [run_bind_ok hx]
    exact hnext a d (hpost a d hx)

theorem ensures
    (h : Leaves x c Q) :
    Ensures x c fun _ d => Q d := by
  intro a d hrun
  rw [Leaves, hrun] at h
  exact h

theorem bind
    {next : α → ExceptT ε (StateM σ) β}
    (h : Leaves x c Q)
    (hnext : ∀ a d, Q d → Leaves (next a) d Q) :
    Leaves (x >>= next) c Q :=
  h.bind_ensures h.ensures hnext

end Leaves

/-! ## Errors -/

/-- The computation fails with the given error, or it succeeds if there is none. -/
def Reports (x : ExceptT ε (StateM σ) α) (c : σ) : Option ε → Prop
  | some e => ∃ d, x.run.run c = (.error e, d)
  | none => ∃ a d, x.run.run c = (.ok a, d)

namespace Reports

variable {x : ExceptT ε (StateM σ) α} {c : σ} {fault fault' : Option ε}
  {post : α → σ → Prop}
variable {next : α → ExceptT ε (StateM σ) β}

theorem of_run_eq
    {y : ExceptT ε (StateM σ) α}
    {d : σ}
    (heq : x.run.run c = y.run.run d)
    (h : Reports y d fault) :
    Reports x c fault := by
  cases fault with
  | some e =>
      obtain ⟨d', hrun⟩ := h
      exact ⟨d', heq.trans hrun⟩
  | none =>
      obtain ⟨a, d', hrun⟩ := h
      exact ⟨a, d', heq.trans hrun⟩

theorem pure
    (a : α)
    (c : σ) :
    Reports (Pure.pure a : ExceptT ε (StateM σ) α) c none :=
  ⟨a, c, rfl⟩

theorem get_bind
    {next : σ → ExceptT ε (StateM σ) α}
    (h : Reports (next c) c fault) :
    Reports (MonadState.get >>= next) c fault :=
  of_run_eq (run_bind_ok (run_get c)) h

/-- The error of a sequence is that of its first part, or else that of its second part. -/
theorem bind
    (h : Reports x c fault)
    (hpost : Ensures x c post)
    (hnext : fault = none → ∀ a d, post a d → Reports (next a) d fault') :
    Reports (x >>= next) c (fault.or fault') := by
  cases fault with
  | some e =>
      obtain ⟨d, hrun⟩ := h
      exact ⟨d, run_bind_error hrun⟩
  | none =>
      obtain ⟨a, d, hrun⟩ := h
      exact of_run_eq (run_bind_ok hrun) (hnext rfl a d (hpost a d hrun))

theorem ok_iff
    (h : Reports x c fault) :
    (∃ a d, x.run.run c = (.ok a, d)) ↔ fault = none := by
  constructor
  · rintro ⟨a, d, hrun⟩
    cases fault with
    | none => rfl
    | some e =>
        obtain ⟨d', hrun'⟩ := h
        cases hrun'.symm.trans hrun
  · rintro rfl
    exact h

theorem error_iff
    (h : Reports x c fault)
    (e : ε) :
    (∃ d, x.run.run c = (.error e, d)) ↔ fault = some e := by
  constructor
  · rintro ⟨d, hrun⟩
    cases fault with
    | none =>
        obtain ⟨a, d', hrun'⟩ := h
        cases hrun'.symm.trans hrun
    | some e' =>
        obtain ⟨d', hrun'⟩ := h
        cases hrun'.symm.trans hrun
        rfl
  · rintro rfl
    exact h

/-- The first part of a sequence may be known to succeed. -/
theorem after
    (h : Reports x c none)
    (hpost : Ensures x c post)
    (hnext : ∀ a d, post a d → Reports (next a) d fault) :
    Reports (x >>= next) c fault :=
  h.bind hpost fun _ => hnext

/-- The second part of a sequence may be known to succeed. -/
theorem before
    (h : Reports x c fault)
    (hpost : Ensures x c post)
    (hnext : fault = none → ∀ a d, post a d → Reports (next a) d none) :
    Reports (x >>= next) c fault := by
  have hboth := h.bind hpost hnext
  rwa [Option.or_none] at hboth

theorem lift
    (op : StateM σ α)
    (c : σ) :
    Reports (liftM op : ExceptT ε (StateM σ) α) c none :=
  ⟨_, _, run_lift rfl⟩

theorem lift_bind
    {op : StateM σ α}
    {a : α}
    {d : σ}
    (hop : op.run c = (a, d))
    (h : Reports (next a) d fault) :
    Reports (liftM op >>= next) c fault :=
  of_run_eq (run_bind_ok (run_lift hop)) h

end Reports

/-! ## Two computations -/

/-- Two results are related values, or an error and its counterpart. -/
inductive Alike (ren : ε → ε) (rel : α → α → Prop) : Except ε α → Except ε α → Prop
  | ok {a a' : α} (h : rel a a') : Alike ren rel (.ok a) (.ok a')
  | error (e : ε) : Alike ren rel (.error e) (.error (ren e))

/-- An error that is its own counterpart. -/
theorem Alike.error_self
    {ren : ε → ε}
    {rel : α → α → Prop}
    {e : ε}
    (h : ren e = e) :
    Alike ren rel (.error e) (.error e) := by
  have halike : Alike ren rel (.error e) (.error (ren e)) := .error e
  rwa [h] at halike

/-- Both computations have like results and leave related states. -/
def Agree (ren : ε → ε) (R : σ → σ → Prop) (x : ExceptT ε (StateM σ) α) (c : σ)
    (y : ExceptT ε (StateM σ) α) (d : σ)
    (rel : α → α → Prop) : Prop :=
  ∃ r r' c' d', x.run.run c = (r, c') ∧ y.run.run d = (r', d') ∧ R c' d' ∧
    Alike ren rel r r'

namespace Agree

variable {ren : ε → ε} {R : σ → σ → Prop} {x y : ExceptT ε (StateM σ) α} {c d : σ}
  {rel : α → α → Prop}

theorem pure
    {a a' : α}
    (h : R c d)
    (ha : rel a a') :
    Agree ren R (Pure.pure a : ExceptT ε (StateM σ) α) c (Pure.pure a') d rel :=
  ⟨.ok a, .ok a', c, d, rfl, rfl, h, .ok ha⟩

theorem throw
    (e : ε)
    (h : R c d) :
    Agree ren R (MonadExcept.throw e : ExceptT ε (StateM σ) α) c
      (MonadExcept.throw (ren e)) d rel :=
  ⟨.error e, .error (ren e), c, d, rfl, rfl, h, .error e⟩

theorem get_bind
    {next next' : σ → ExceptT ε (StateM σ) α}
    (h : Agree ren R (next c) c (next' d) d rel) :
    Agree ren R (MonadState.get >>= next) c (MonadState.get >>= next') d rel := by
  unfold Agree
  rw [run_bind_ok (run_get c), run_bind_ok (run_get d)]
  exact h

theorem bind
    {next next' : α → ExceptT ε (StateM σ) β}
    {rel' : β → β → Prop}
    (h : Agree ren R x c y d rel)
    (hnext : ∀ a a' c' d', rel a a' → R c' d' →
      Agree ren R (next a) c' (next' a') d' rel') :
    Agree ren R (x >>= next) c (y >>= next') d rel' := by
  obtain ⟨r, r', c', d', hx, hy, hR, halike⟩ := h
  unfold Agree
  cases halike with
  | error e =>
      rw [run_bind_error hx, run_bind_error hy]
      exact ⟨.error e, .error (ren e), c', d', rfl, rfl, hR, .error e⟩
  | ok ha =>
      rw [run_bind_ok hx, run_bind_ok hy]
      exact hnext _ _ c' d' ha hR

/-- Computations that have the same value go on with it. -/
theorem bind_eq
    {next next' : α → ExceptT ε (StateM σ) β}
    {rel' : β → β → Prop}
    (h : Agree ren R x c y d Eq)
    (hnext : ∀ a c' d', R c' d' → Agree ren R (next a) c' (next' a) d' rel') :
    Agree ren R (x >>= next) c (y >>= next') d rel' := by
  refine h.bind ?_
  rintro a _ c' d' rfl hR
  exact hnext a c' d' hR

theorem lift
    {op op' : StateM σ α}
    {a a' : α}
    {c' d' : σ}
    (hc : op.run c = (a, c'))
    (hd : op'.run d = (a', d'))
    (h : R c' d')
    (ha : rel a a') :
    Agree ren R (liftM op : ExceptT ε (StateM σ) α) c (liftM op') d rel :=
  ⟨.ok a, .ok a', c', d', run_lift hc, run_lift hd, h, .ok ha⟩

theorem lift_bind
    {op op' : StateM σ α}
    {a a' : α}
    {c' d' : σ}
    {next next' : α → ExceptT ε (StateM σ) β}
    {rel' : β → β → Prop}
    (hc : op.run c = (a, c'))
    (hd : op'.run d = (a', d'))
    (h : Agree ren R (next a) c' (next' a') d' rel') :
    Agree ren R (liftM op >>= next) c (liftM op' >>= next') d rel' := by
  unfold Agree
  rw [run_bind_ok (run_lift hc), run_bind_ok (run_lift hd)]
  exact h

/-- What a computation keeps whether or not it fails, seen as agreement with itself. -/
theorem leaves
    (h : Agree ren R x c x c rel) :
    Leaves x c fun d => R d d := by
  obtain ⟨r, r', c', d', hx, hx', hR, -⟩ := h
  cases hx.symm.trans hx'
  unfold Leaves
  rw [hx]
  exact hR

end Agree

end Run

end ScalarSsa
