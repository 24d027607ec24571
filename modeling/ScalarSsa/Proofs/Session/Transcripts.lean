import ScalarSsa.Proofs.Lowering.Histories
import ScalarSsa.Proofs.Session.Items

/-!
# Transcripts of sessions

**Input.** A session and the items that it handles.

**Definitions.** `Context.madeSince` are the host calls that the journal got between two
contexts.  The `transcript` of a session has the result of each item and the host calls that
were made for it.

**Results.** Lowering never calls the host (`silent_lowerDefinition`).
`transcript_eq_handleAll`: the transcript has the results of the session, and its host calls
are all that the journal got, in their order.
-/

namespace ScalarSsa

open Lowering

/-! ## Host calls -/

namespace Journal

theorem hostCalls_append
    (events journal : Journal) :
    hostCalls (events ++ journal) = journal.hostCalls ++ hostCalls events := by
  simp [hostCalls]

theorem Hostless.hostCalls_eq
    {events : Journal}
    (h : events.Hostless) :
    events.hostCalls = [] := by
  refine List.filterMap_eq_nil_iff.2 fun event hevent => ?_
  cases event with
  | host call => exact absurd (List.mem_reverse.1 hevent) (h call)
  | _ => rfl

theorem hostCalls_map_host
    (calls : List HostCall) :
    hostCalls (calls.map .host) = calls.reverse := by
  simp [hostCalls, ← List.map_reverse, List.filterMap_map, Function.comp_def,
    Event.hostCall?]

end Journal

namespace Context

/-- The host calls that were made between two contexts, the oldest first. -/
def madeSince (c d : Context) : List HostCall :=
  d.builder.journal.hostCalls.drop c.builder.journal.hostCalls.length

/-- The host was not called between two contexts. -/
def Silent (c d : Context) : Prop :=
  ∃ events, Journal.Hostless events ∧ d.builder.journal = events ++ c.builder.journal

variable {c d e : Context}

theorem madeSince_eq
    {calls : List HostCall}
    (h : d.builder.journal.hostCalls = c.builder.journal.hostCalls ++ calls) :
    c.madeSince d = calls := by
  rw [madeSince, h, List.drop_left]

/-- Notes are no host calls. -/
theorem madeSince_noted
    {notes : Journal}
    (hnotes : notes.Quiet) :
    c.madeSince (d.mapBuilder fun b => { b with journal := notes ++ b.journal }) =
      c.madeSince d := by
  simp only [madeSince, mapBuilder, Journal.hostCalls_append, hnotes.hostless.hostCalls_eq,
    List.append_nil]

namespace Silent

theorem refl
    (c : Context) :
    c.Silent c :=
  ⟨[], by simp [Journal.Hostless], rfl⟩

theorem trans
    (h : c.Silent d)
    (h' : d.Silent e) :
    c.Silent e := by
  obtain ⟨events, hevents, hjournal⟩ := h
  obtain ⟨events', hevents', hjournal'⟩ := h'
  exact ⟨events' ++ events,
    hevents'.append hevents, by rw [hjournal', hjournal, List.append_assoc]⟩

theorem hostCalls_eq
    (h : c.Silent d) :
    d.builder.journal.hostCalls = c.builder.journal.hostCalls := by
  obtain ⟨events, hevents, hjournal⟩ := h
  rw [hjournal, Journal.hostCalls_append, hevents.hostCalls_eq, List.append_nil]

theorem madeSince_eq
    (h : c.Silent d) :
    c.madeSince d = [] :=
  Context.madeSince_eq (by rw [h.hostCalls_eq, List.append_nil])

/-- The host calls after some silence are all that were made. -/
theorem hostCalls_append
    (h : c.Silent d)
    {events : Journal}
    (hevents : events.Hostless)
    {calls : List HostCall}
    (hjournal : e.builder.journal = events ++ (calls.map .host ++ d.builder.journal)) :
    e.builder.journal.hostCalls = c.builder.journal.hostCalls ++ calls.reverse := by
  rw [hjournal, Journal.hostCalls_append, Journal.hostCalls_append, hevents.hostCalls_eq,
    Journal.hostCalls_map_host,
    h.hostCalls_eq, List.append_nil]

end Silent

theorem Touched.silent
    {id : FuncId}
    (h : c.Touched id d) :
    c.Silent d := by
  obtain ⟨change, cursor, events, -, hevents, rfl⟩ := h
  exact ⟨events, hevents, rfl⟩

end Context

/-! ## Lowering is silent -/

namespace Lowering

variable {c d : Context}

theorem silent_optimize
    (id : FuncId)
    (c : Context) :
    c.Silent ((optimize id).run c).2 := by
  cases hf : c.module.function? id with
  | none =>
      rw [run_optimize_missing hf]
      exact .refl c
  | some f =>
      rw [run_optimize hf]
      exact ⟨_, (PassResult.quiet_journal _).hostless, rfl⟩

theorem silent_discard
    (id : FuncId)
    (previous : Option (List String))
    (c : Context) :
    c.Silent ((discard id previous).run c).2 := by
  cases previous with
  | some params => exact ⟨[], by simp [Journal.Hostless], rfl⟩
  | none =>
      cases hf : c.module.function? id with
      | some f =>
          obtain ⟨note, hrun⟩ := run_discard_none hf
          rw [hrun]
          exact ⟨[.note note], by simp [Journal.Hostless], rfl⟩
      | none =>
          rw [run_discard_missing hf]
          exact ⟨[], by simp [Journal.Hostless], rfl⟩

theorem leaves_lowerBody_silent
    (id : FuncId)
    (body : Expr)
    (hcursor : c.builder.cursor = none) :
    Leaves (lowerBody id body) c c.Silent := by
  have hcheck : ∀ (wanted : Bool) (d : Context), c.Kept d ∧ c.Silent d →
      Leaves (checkWhen wanted id) d fun d' => c.Kept d' ∧ c.Silent d' := fun wanted d hd =>
    ⟨hd.1.trans (leaves_checkWhen wanted id d).kept,
      hd.2.trans (Context.Touched.silent (leaves_checkWhen wanted id d))⟩
  have hemit : Leaves (emitBody id body) c fun d => c.Kept d ∧ c.Silent d :=
    ⟨(leaves_emitBody hcursor id body).kept,
      Context.Touched.silent (leaves_emitBody hcursor id body)⟩
  have hall : Leaves (emitBody id body >>= fun _ => settleBody id) c fun d =>
    c.Kept d ∧ c.Silent d := by
    refine hemit.bind fun _ d hd =>
      Leaves.get_bind ((hcheck d.settings.verify d hd).bind fun _ d' hd' => ?_)
    cases hoptimize : d.settings.optimize with
    | false => exact .pure hd'
    | true =>
        exact Leaves.lift_bind rfl (hcheck d.settings.verify _
          ⟨hd'.1.trans (kept_optimize id d'), hd'.2.trans (silent_optimize id d')⟩)
  rw [lowerBody_eq]
  exact hall.2

/-- Whatever comes of a definition, the host is not called. -/
theorem silent_lowerDefinition
    (hcursor : c.builder.cursor = none)
    (def' : Definition) :
    c.Silent ((lowerDefinition def').run.run c).2 := by
  cases hvalid : signatureError? c.module def'.signature with
  | some e =>
      rw [run_lowerDefinition_rejected hvalid]
      exact ⟨[.report e.report], by simp [Journal.Hostless], rfl⟩
  | none =>
      obtain ⟨id, m, notes, hdeclare, -, hnotes⟩ :=
        run_declareSignature (c := { c with scope := [] }) hvalid
      let c₁ : Context := { c with
        builder := ⟨m, c.builder.cursor, notes ++ c.builder.journal⟩
        scope := Scope.bindParams [] 0 def'.signature.params }
      have hdeclared : c.Silent c₁ := ⟨notes, hnotes.hostless, rfl⟩
      have hlowered : c₁.Silent ((lowerBody id def'.body).run.run c₁).2 :=
        leaves_lowerBody_silent (c := c₁) id def'.body hcursor
      rcases hbody : (lowerBody id def'.body).run.run c₁ with ⟨e | _, c₂⟩
      · rw [hbody] at hlowered
        rw [run_lowerDefinition_failed hdeclare hbody]
        exact (hdeclared.trans hlowered).trans (silent_discard id _ c₂)
      · rw [hbody] at hlowered
        obtain ⟨note, hrun⟩ := run_lowerDefinition_done hdeclare hbody
        rw [hrun]
        exact (hdeclared.trans hlowered).trans
          ⟨[.note note], by simp [Journal.Hostless], rfl⟩

theorem silent_lowerSignature
    (c : Context)
    (s : Signature) :
    c.Silent ((lowerSignature s).run.run c).2 := by
  rcases lowerSignature_cases c s with ⟨e, -, hrun⟩ | ⟨id, m, notes, -, -, hnotes, hrun⟩
  · rw [hrun]
    exact ⟨[.report e.report], by simp [Journal.Hostless], rfl⟩
  · rw [hrun]
    exact ⟨notes, hnotes.hostless, rfl⟩

end Lowering

namespace Session

/-! ## Items -/

variable {c : Context}

theorem silent_delete?
    (id : FuncId)
    (c : Context) :
    c.Silent ((onBuilder (Builder.delete? id)).run c).2 := by
  cases hf : c.module.function? id with
  | some f =>
      obtain ⟨note, hrun⟩ := run_delete? hf
      rw [hrun]
      exact ⟨[.note note], by simp [Journal.Hostless], rfl⟩
  | none =>
      rw [run_delete?_missing hf]
      exact .refl c

/-- Handling an item adds host calls at the end of those that were made before. -/
theorem hostCalls_handleItem
    (hcursor : c.builder.cursor = none)
    (item : Item)
    (evaluate : Bool) :
    ∃ calls, ((handleItem item evaluate).run c).2.builder.journal.hostCalls =
      c.builder.journal.hostCalls ++ calls := by
  have hsilent : ∀ d : Context, c.Silent d → ∃ calls, d.builder.journal.hostCalls =
      c.builder.journal.hostCalls ++ calls :=
    fun d hd => ⟨[], by rw [hd.hostCalls_eq, List.append_nil]⟩
  cases item with
  | definition def' =>
      have hlowered := silent_lowerDefinition hcursor def'
      rcases hrun : (lowerDefinition def').run.run c with ⟨fault | id, c'⟩
      · rw [hrun] at hlowered
        rw [run_definition_error hrun]
        exact hsilent c' hlowered
      · rw [hrun] at hlowered
        rw [run_definition_ok hrun]
        exact hsilent c' hlowered
  | declaration signature =>
      have hlowered := silent_lowerSignature c signature
      rcases hrun : (lowerSignature signature).run.run c with ⟨fault | id, c'⟩
      · rw [hrun] at hlowered
        rw [run_declaration_error hrun]
        exact hsilent c' hlowered
      · rw [hrun] at hlowered
        rw [run_declaration_ok hrun]
        exact hsilent c' hlowered
  | expression e =>
      change ∃ calls, ((handleExpr e evaluate).run c).2.builder.journal.hostCalls = _
      have hlowered := silent_lowerDefinition hcursor (asDefinition e)
      rcases hrun : (lowerDefinition (asDefinition e)).run.run c with ⟨fault | id, c'⟩
      · rw [hrun] at hlowered
        rw [run_handleExpr_error hrun]
        exact hsilent c' hlowered
      · rw [hrun] at hlowered
        obtain ⟨notes, hnotes, hsettle⟩ := run_settle id evaluate c'
        let c₁ : Context := { c' with
          builder := ⟨c'.module, c'.builder.cursor,
            notes ++ ((outcomeCalls c' id evaluate).map .host ++ c'.builder.journal)⟩ }
        have hcalls : c₁.builder.journal.hostCalls =
            c.builder.journal.hostCalls ++ (outcomeCalls c' id evaluate).reverse :=
          hlowered.hostCalls_append hnotes.hostless rfl
        have hdeleted := silent_delete? id c₁
        rcases hdelete : (onBuilder (Builder.delete? id)).run c₁ with ⟨removed, c₂⟩
        rw [hdelete] at hdeleted
        refine ⟨(outcomeCalls c' id evaluate).reverse, ?_⟩
        rw [handleExpr, run_state_bind hrun, run_state_bind hsettle,
          run_state_bind hdelete, ← hcalls]
        cases outcome c' id evaluate with
        | ok o => exact hdeleted.hostCalls_eq
        | error fault =>
            have hreported :
                c₁.Silent (c₂.mapBuilder (Builder.record (.report fault.report))) :=
              hdeleted.trans ⟨[.report fault.report], by simp [Journal.Hostless], rfl⟩
            exact hreported.hostCalls_eq

/-! ## Transcripts -/

/-- The result of each item with the host calls that were made for it. -/
def transcript (s : Session) :
    List Item → List (Except SessionError Outcome × List HostCall)
  | [] => []
  | item :: rest =>
    let handled := (handleNoting item).run s
    (handled.1, s.context.madeSince handled.2.context) :: handled.2.transcript rest

theorem transcript_cons
    (item : Item)
    (rest : List Item)
    (s : Session) :
    s.transcript (item :: rest) =
      (((handleNoting item).run s).1,
          s.context.madeSince ((handleNoting item).run s).2.context) ::
        ((handleNoting item).run s).2.transcript rest :=
  rfl

/-- A transcript has the results of its session, and the host calls that the journal got. -/
theorem transcript_eq_handleAll
    {s : Session}
    (hcursor : s.context.builder.cursor = none)
    (items : List Item) :
    (s.transcript items).map (·.1) = ((handleAll items).run s).1 ∧
      s.context.builder.journal.hostCalls ++ (s.transcript items).flatMap (·.2) =
        ((handleAll items).run s).2.context.builder.journal.hostCalls := by
  induction items generalizing s with
  | nil => exact ⟨rfl, List.append_nil _⟩
  | cons item items ih =>
      have hsteady := steady_handleNoting hcursor item
      obtain ⟨hresults, hcalls⟩ := ih hsteady.cursor
      obtain ⟨calls, hitem⟩ := hostCalls_handleItem hcursor item s.evaluate
      have hmade : s.context.builder.journal.hostCalls ++
          s.context.madeSince ((handleNoting item).run s).2.context =
          ((handleNoting item).run s).2.context.builder.journal.hostCalls := by
        obtain ⟨notes, hnotes, hrun⟩ := run_handleNoting item s
        rw [hrun, Context.madeSince_noted hnotes, Context.madeSince_eq hitem, ← hitem,
          Context.mapBuilder,
          Journal.hostCalls_append, hnotes.hostless.hostCalls_eq, List.append_nil]
      rw [run_handleAll_cons, transcript_cons, List.map_cons, List.flatMap_cons,
        hresults, ← List.append_assoc, hmade]
      exact ⟨rfl, hcalls⟩

end Session

end ScalarSsa
