import ScalarSsa.Program.Decoding
import ScalarSsa.Program.Encoding
import ScalarSsa.Proofs.Effect

/-!
# Documents of items

**Input.** An item and a document.

**Definitions.** A `Record` is an object with known fields among fields of other names, in
any order.  An expression or item has every document whose objects are records of its
fields, `HasDocument`; an empty list of parameters may be left out.

**Results.** Every document of an item is read as that item (`Item.HasDocument.ofJson_eq`),
and the document that is written for an item is one of them (`Item.hasDocument_toJson`).
-/

namespace ScalarSsa

/-! ## Records -/

namespace Json

/--
An object with the known fields and, between them, fields whose names are not reserved.
-/
inductive Record (reserved : List String) (known : List (String × Json)) : Json → Prop
  | object
      {written extra : List (String × Json)}
      (hperm : written.Perm (known ++ extra))
      (hextra : ∀ field ∈ extra, field.1 ∉ reserved ∧ field.2.isRepresentable = true) :
      Record reserved known (.object written)

theorem fieldsRepresentable_iff
    {fields : List (String × Json)} :
    fieldsRepresentable fields = true ↔ ∀ field ∈ fields,
      field.2.isRepresentable = true := by
  induction fields with
  | nil => simp [fieldsRepresentable]
  | cons field fields ih => simp [fieldsRepresentable, ih]

theorem allRepresentable_iff
    {elements : List Json} :
    allRepresentable elements = true ↔ ∀ j ∈ elements, j.isRepresentable = true := by
  induction elements with
  | nil => simp [allRepresentable]
  | cons j elements ih => simp [allRepresentable, ih]

theorem depth_le_fieldsDepth
    {field : String × Json}
    {fields : List (String × Json)}
    (h : field ∈ fields) :
    field.2.depth ≤ fieldsDepth fields := by
  induction h with
  | head fields => exact Nat.le_max_left _ _
  | tail first _ ih => exact Nat.le_trans ih (Nat.le_max_right _ _)

/-- Among fields of different names at most one has a given name. -/
theorem fieldsNamed_of_nodup
    {known : List (String × Json)}
    (h : (known.map Prod.fst).Nodup)
    (name : String) :
    fieldsNamed name known = (known.lookup name).toList := by
  induction known with
  | nil => rfl
  | cons field known ih =>
      obtain ⟨first, value⟩ := field
      obtain ⟨hfresh, hnodup⟩ := List.nodup_cons.1 h
      have hrest := ih hnodup
      unfold fieldsNamed at hrest ⊢
      by_cases hname : first = name
      · subst hname
        have hnone : known.filter (fun field => field.1 == first) = [] := by
          refine List.filter_eq_nil_iff.2 fun field hfield heq => hfresh ?_
          have hmem := List.mem_map_of_mem (f := Prod.fst) hfield
          rwa [beq_iff_eq.1 heq] at hmem
        simp [hnone]
      · have hne : (name == first) = false :=
          beq_eq_false_iff_ne.2 fun heq => hname heq.symm
        simp [List.lookup_cons, hname, hne, hrest]

/-- A reserved name is looked up among the known fields. -/
theorem fieldOf_written
    {reserved : List String}
    {written known extra : List (String × Json)}
    (hperm : written.Perm (known ++ extra))
    (hextra : ∀ field ∈ extra, field.1 ∉ reserved ∧ field.2.isRepresentable = true)
    (hnodup : (known.map Prod.fst).Nodup)
    {name : String}
    (hname : name ∈ reserved) :
    fieldOf written name = .ok (known.lookup name) := by
  -- the order in which fields are written does not matter, since at most one
  -- of them has the name
  have hunknown : fieldsNamed name extra = [] := by
    unfold fieldsNamed
    rw [List.map_eq_nil_iff]
    refine List.filter_eq_nil_iff.2 fun field hfield heq => (hextra field hfield).1 ?_
    rwa [beq_iff_eq.1 heq]
  have hnamed : (fieldsNamed name written).Perm (known.lookup name).toList := by
    have hboth : (fieldsNamed name written).Perm (fieldsNamed name (known ++ extra)) :=
      (hperm.filter _).map _
    have happend : fieldsNamed name (known ++ extra) = fieldsNamed name known ++
        fieldsNamed name extra := by
      simp [fieldsNamed]
    rwa [happend, hunknown, List.append_nil, fieldsNamed_of_nodup hnodup] at hboth
  unfold fieldOf
  cases hlookup : known.lookup name with
  | none =>
      rw [hlookup] at hnamed
      rw [hnamed.eq_nil]
  | some j =>
      rw [hlookup] at hnamed
      rw [List.perm_singleton.1 hnamed]

namespace Record

variable {reserved : List String} {known : List (String × Json)} {j : Json}

theorem plain
    (reserved : List String)
    (known : List (String × Json)) :
    Record reserved known (.object known) :=
  .object (.of_eq (List.append_nil known).symm) (fun _ h => (by cases h))

theorem turned
    (known : List (String × Json))
    {extra : List (String × Json)}
    (hextra : ∀ field ∈ extra, field.1 ∉ reserved ∧ field.2.isRepresentable = true) :
    Record reserved known (.object (known ++ extra).reverse) :=
  .object (List.reverse_perm _) hextra

theorem mono
    {fewer : List String}
    (hfewer : ∀ name ∈ fewer, name ∈ reserved)
    (h : Record reserved known j) :
    Record fewer known j := by
  cases h with
  | object hperm hextra =>
      refine .object hperm fun field hfield => ?_
      obtain ⟨hname, hvalue⟩ := hextra field hfield
      exact ⟨fun hmem => hname (hfewer _ hmem), hvalue⟩

theorem depth_lt
    (h : Record reserved known j)
    {field : String × Json}
    (hfield : field ∈ known) :
    field.2.depth < j.depth := by
  cases h with
  | object hperm hextra =>
      have hmem := hperm.mem_iff.2 (List.mem_append_left _ hfield)
      exact Nat.lt_succ_of_le (depth_le_fieldsDepth hmem)

theorem isRepresentable
    (h : Record reserved known j)
    (hknown : fieldsRepresentable known = true) :
    j.isRepresentable = true := by
  cases h with
  | object hperm hextra =>
      refine fieldsRepresentable_iff.2 fun field hfield => ?_
      rcases List.mem_append.1 (hperm.mem_iff.1 hfield) with hmem | hmem
      · exact fieldsRepresentable_iff.1 hknown field hmem
      · exact (hextra field hmem).2

theorem fields_eq
    (h : Record reserved known j)
    (hnodup : (known.map Prod.fst).Nodup)
    {names : List String}
    (hnames : ∀ name ∈ names, name ∈ reserved) :
    Json.fields names j = .ok (names.map fun name => known.lookup name) := by
  cases h with
  | object hperm hextra =>
      have hmap := mapM_map_ok (g := id) fun name hname =>
        fieldOf_written hperm hextra hnodup (hnames name hname)
      rwa [List.map_id] at hmap

/-- All known fields are found. -/
theorem allRequired_eq
    (h : Record reserved known j)
    (hnodup : (known.map Prod.fst).Nodup)
    (hknown : ∀ name ∈ known.map Prod.fst, name ∈ reserved) :
    allRequired (known.map Prod.fst) j = .ok (known.map Prod.snd) := by
  have hlookup : (known.map Prod.fst).map (fun name => known.lookup name) =
      known.map fun field => some field.2 := by
    rw [List.map_map]
    refine List.map_congr_left fun field hfield => ?_
    have hnamed := fieldsNamed_of_nodup hnodup field.1
    have hmem : field.2 ∈ fieldsNamed field.1 known :=
      List.mem_map_of_mem (List.mem_filter.2 ⟨hfield, beq_self_eq_true _⟩)
    rw [hnamed] at hmem
    exact Option.mem_toList.1 hmem
  have hzip : (known.map Prod.fst).zip (known.map fun field => some field.2) =
      known.map fun field => (field.1, some field.2) := by
    simp [List.zip_map']
  unfold allRequired
  rw [h.fields_eq hnodup hknown, hlookup]
  change ((known.map Prod.fst).zip (known.map fun field => some field.2)).mapM _ = _
  rw [hzip]
  exact mapM_map_ok fun _ _ => rfl

/-- The tag is found, and the other fields are a record without it. -/
theorem tagged_eq
    {tag : String}
    {t : Json}
    (h : Record reserved ((tag, t) :: known) j)
    (hnodup : (tag :: known.map Prod.fst).Nodup)
    (htag : tag ∈ reserved) :
    ∃ rest, tagged tag j = .ok (t, rest) ∧ Record reserved known rest := by
  cases h with
  | @object written extra hperm hextra =>
      have hfield := fieldOf_written hperm hextra hnodup htag
      rw [List.lookup_cons_self] at hfield
      refine ⟨.object (written.filter fun field => field.1 != tag), ?_, ?_⟩
      · simp only [tagged, hfield]
        rfl
      · refine .object ?_ hextra
        have hknown : known.filter (fun field => field.1 != tag) = known := by
          refine List.filter_eq_self.2 fun field hmem => bne_iff_ne.2 fun heq => ?_
          exact (List.nodup_cons.1 hnodup).1 (heq ▸ List.mem_map_of_mem hmem)
        have hunknown : extra.filter (fun field => field.1 != tag) = extra := by
          refine List.filter_eq_self.2 fun field hmem => bne_iff_ne.2 fun heq => ?_
          exact (hextra field hmem).1 (heq ▸ htag)
        have hfiltered := hperm.filter fun field => field.1 != tag
        simpa [List.filter_append, hknown, hunknown] using hfiltered

end Record

end Json

/-! ## Expressions -/

namespace Expr

mutual

/-- The fields stand for the expression. -/
inductive HasFields : Expr → List (String × Json) → Prop
  | number {x : Float} {value : Json}
      (h : value.asFloat = .ok x) :
      HasFields (.number x) [("kind", .string "number"), ("value", value)]
  | var (name : String) :
      HasFields (.var name) [("kind", .string "variable"), ("name", .string name)]
  | binary (op : Char) {lhs rhs : Expr} {left right : Json}
      (hleft : HasDocument lhs left)
      (hright : HasDocument rhs right) :
      HasFields (.binary op lhs rhs)
        [("kind", .string "binary"), ("op", .string op.toString),
          ("lhs", left), ("rhs", right)]
  | call (callee : String) {args : List Expr} {documents : List Json}
      (h : HaveDocuments args documents) :
      HasFields (.call callee args)
        [("kind", .string "call"), ("callee", .string callee), ("args", .array documents)]
  | cond {test thenBranch elseBranch : Expr} {first second third : Json}
      (htest : HasDocument test first)
      (hthen : HasDocument thenBranch second)
      (helse : HasDocument elseBranch third) :
      HasFields (.cond test thenBranch elseBranch)
        [("kind", .string "if"), ("cond", first), ("then_branch", second),
          ("else_branch", third)]

/-- The document stands for the expression. -/
inductive HasDocument : Expr → Json → Prop
  | record {e : Expr} {known : List (String × Json)} {j : Json}
      (hfields : HasFields e known)
      (hrecord : Json.Record (known.map Prod.fst) known j) :
      HasDocument e j

/-- The documents stand for the expressions, one by one. -/
inductive HaveDocuments : List Expr → List Json → Prop
  | nil : HaveDocuments [] []
  | cons {e : Expr} {rest : List Expr} {j : Json} {documents : List Json}
      (h : HasDocument e j)
      (hrest : HaveDocuments rest documents) :
      HaveDocuments (e :: rest) (j :: documents)

end

theorem HasFields.nodup
    {e : Expr}
    {known : List (String × Json)}
    (h : e.HasFields known) :
    ("item" :: known.map Prod.fst).Nodup := by
  cases h <;> simp

/-- The kind of a record is found first, then its other fields. -/
theorem exists_rest
    (kind : Kind)
    {t j : Json}
    {known : List (String × Json)}
    (hrecord : Json.Record ("kind" :: known.map Prod.fst) (("kind", t) :: known) j)
    (hnodup : ("kind" :: known.map Prod.fst).Nodup)
    (hnames : known.map Prod.fst = kind.fieldNames) :
    ∃ rest, Json.tagged "kind" j = .ok (t, rest) ∧
      Json.allRequired kind.fieldNames rest = .ok (known.map Prod.snd) := by
  obtain ⟨rest, htagged, hrest⟩ := hrecord.tagged_eq hnodup List.mem_cons_self
  refine ⟨rest, htagged, ?_⟩
  rw [← hnames]
  exact hrest.allRequired_eq (List.nodup_cons.1 hnodup).2 fun name => List.mem_cons_of_mem _

/-- A document is an object of fields that are less deep. -/
theorem HasDocument.exists_fields
    {e : Expr}
    {j : Json}
    (h : e.HasDocument j)
    {fuel : Nat}
    (hfuel : j.depth < fuel) :
    ∃ n known, fuel = n + 1 ∧ e.HasFields known ∧ Json.Record (known.map Prod.fst) known j ∧
      (known.map Prod.fst).Nodup ∧ ∀ name part, (name, part) ∈ known → part.depth < n := by
  cases h with
  | record hfields hrecord =>
  cases fuel with
  | zero => exact absurd hfuel (Nat.not_lt_zero _)
  | succ n =>
      refine ⟨n, _, rfl, hfields, hrecord, (List.nodup_cons.1 hfields.nodup).2,
        fun _ _ hmem => ?_⟩
      exact Nat.lt_of_lt_of_le (hrecord.depth_lt hmem) (Nat.le_of_lt_succ hfuel)

mutual

/-- A document of an expression is read as the expression. -/
theorem HasDocument.decode_eq
    {e : Expr}
    {j : Json}
    (h : e.HasDocument j)
    {fuel : Nat}
    (hfuel : j.depth < fuel) :
    decode fuel j = .ok e := by
  obtain ⟨n, known, rfl, hfields, hrecord, hnodup, hpart⟩ := h.exists_fields hfuel
  -- recursion on the expression; the fuel lasts because the documents of its
  -- parts are less deep
  match e, hfields with
  | .number x, .number hvalue =>
      obtain ⟨rest, htagged, hall⟩ := exists_rest .number hrecord hnodup rfl
      simp [decode, htagged, Kind.ofJson, hall, hvalue, bind, Except.bind,
        pure, Except.pure]
  | .var name, .var _ =>
      obtain ⟨rest, htagged, hall⟩ := exists_rest .var hrecord hnodup rfl
      simp [decode, htagged, Kind.ofJson, hall, Json.asString, bind, Except.bind,
        pure, Except.pure]
  | .binary op lhs rhs, .binary _ hleft hright =>
      obtain ⟨rest, htagged, hall⟩ := exists_rest .binary hrecord hnodup rfl
      have hlhs := hleft.decode_eq (hpart "lhs" _ (by simp))
      have hrhs := hright.decode_eq (hpart "rhs" _ (by simp))
      simp [decode, htagged, Kind.ofJson, hall, Json.asChar, hlhs, hrhs, bind, Except.bind,
        pure, Except.pure]
  | .call callee args, .call _ hargs =>
      obtain ⟨rest, htagged, hall⟩ := exists_rest .call hrecord hnodup rfl
      have hdocuments :=
        hargs.decode_eq (Nat.lt_of_succ_lt (hpart "args" (.array _) (by simp)))
      simp [decode, htagged, Kind.ofJson, hall, Json.asString, Json.asArray, hdocuments,
        bind, Except.bind, pure,
        Except.pure]
  | .cond test thenBranch elseBranch, .cond htest hthen helse =>
      obtain ⟨rest, htagged, hall⟩ := exists_rest .cond hrecord hnodup rfl
      have hfirst := htest.decode_eq (hpart "cond" _ (by simp))
      have hsecond := hthen.decode_eq (hpart "then_branch" _ (by simp))
      have hthird := helse.decode_eq (hpart "else_branch" _ (by simp))
      simp [decode, htagged, Kind.ofJson, hall, hfirst, hsecond, hthird, bind, Except.bind,
        pure, Except.pure]

theorem HaveDocuments.decode_eq
    {es : List Expr}
    {documents : List Json}
    (h : HaveDocuments es documents)
    {fuel : Nat}
    (hfuel : Json.elementsDepth documents < fuel) :
    documents.mapM (decode fuel) = .ok es := by
  match es, h with
  | [], .nil => rfl
  | e :: rest, .cons h hrest =>
      rw [List.mapM_cons, h.decode_eq (Nat.lt_of_le_of_lt (Nat.le_max_left _ _) hfuel),
        hrest.decode_eq (Nat.lt_of_le_of_lt (Nat.le_max_right _ _) hfuel)]
      rfl

end

theorem isRepresentable_of_asFloat
    {j : Json}
    {x : Float}
    (h : j.asFloat = .ok x) :
    j.isRepresentable = true := by
  cases j with
  | count n => rfl
  | real y => rfl
  | _ => cases h

mutual

theorem HasFields.fieldsRepresentable
    {e : Expr}
    {known : List (String × Json)}
    (h : e.HasFields known) :
    Json.fieldsRepresentable known = true := by
  match e, h with
  | .number x, .number hvalue =>
      simp [Json.fieldsRepresentable, Json.isRepresentable,
        isRepresentable_of_asFloat hvalue]
  | .var name, .var _ => rfl
  | .binary op lhs rhs, .binary _ (.record hleft hlhs) (.record hright hrhs) =>
      have hlhs := hlhs.isRepresentable hleft.fieldsRepresentable
      have hrhs := hrhs.isRepresentable hright.fieldsRepresentable
      simp [Json.fieldsRepresentable, Json.isRepresentable, hlhs, hrhs]
  | .call callee args, .call _ hargs =>
      simp [Json.fieldsRepresentable, Json.isRepresentable, hargs.allRepresentable]
  | .cond test thenBranch elseBranch,
      .cond (.record htest hfirst) (.record hthen hsecond) (.record helse hthird) =>
      have hfirst := hfirst.isRepresentable htest.fieldsRepresentable
      have hsecond := hsecond.isRepresentable hthen.fieldsRepresentable
      have hthird := hthird.isRepresentable helse.fieldsRepresentable
      simp [Json.fieldsRepresentable, Json.isRepresentable, hfirst, hsecond, hthird]

theorem HaveDocuments.allRepresentable
    {es : List Expr}
    {documents : List Json}
    (h : HaveDocuments es documents) :
    Json.allRepresentable documents = true := by
  match es, h with
  | [], .nil => rfl
  | e :: rest, .cons (.record h hrecord) hrest =>
      have hfirst := hrecord.isRepresentable h.fieldsRepresentable
      simp [Json.allRepresentable, hfirst, hrest.allRepresentable]

end

theorem HasDocument.isRepresentable
    {e : Expr}
    {j : Json}
    (h : e.HasDocument j) :
    j.isRepresentable = true := by
  cases h with
  | record hfields hrecord => exact hrecord.isRepresentable hfields.fieldsRepresentable

mutual

theorem hasFields_fields
    (e : Expr) :
    e.HasFields e.fields := by
  match e with
  | .number x => exact .number rfl
  | .var name => exact .var name
  | .binary op lhs rhs =>
      exact .binary op (.record (hasFields_fields lhs) (.plain _ _))
        (.record (hasFields_fields rhs) (.plain _ _))
  | .call callee args => exact .call callee (haveDocuments_listToJson args)
  | .cond test thenBranch elseBranch =>
      exact .cond (.record (hasFields_fields test) (.plain _ _))
        (.record (hasFields_fields thenBranch) (.plain _ _))
        (.record (hasFields_fields elseBranch) (.plain _ _))

theorem haveDocuments_listToJson
    (es : List Expr) :
    HaveDocuments es (listToJson es) := by
  match es with
  | [] => exact .nil
  | e :: rest =>
      exact .cons (.record (hasFields_fields e) (.plain _ _))
        (haveDocuments_listToJson rest)

end

end Expr

/-! ## Items -/

/-- The fields stand for the signature; parameters that are not there may be left out. -/
inductive Signature.HasFields : Signature → List (String × Json) → Prop
  | all (s : Signature) : HasFields s s.fields
  | noParams (name : String) : HasFields ⟨name, []⟩ [("name", .string name)]

theorem Signature.HasFields.ofJson_eq
    {s : Signature}
    {known : List (String × Json)}
    (h : s.HasFields known)
    {reserved : List String}
    {j : Json}
    (hrecord : Json.Record reserved known j)
    (hreserved : ∀ name ∈ ["name", "params"], name ∈ reserved) :
    Signature.ofJson j = .ok s := by
  cases h with
  | all s =>
      have hfields := hrecord.fields_eq (by simp [Signature.fields]) hreserved
      have hparams :=
        mapM_map_ok (g := Json.string) (h := id) (fun name (_ : name ∈ s.params) =>
        (rfl : Json.asString (.string name) = .ok name))
      rw [Signature.ofJson, hfields]
      change (List.mapM Json.asString (s.params.map .string) >>= _) = _
      rw [hparams, List.map_id]
      rfl
  | noParams name =>
      rw [Signature.ofJson, hrecord.fields_eq (by simp) hreserved]
      rfl

theorem Signature.HasFields.fieldsRepresentable
    {s : Signature}
    {known : List (String × Json)}
    (h : s.HasFields known) :
    Json.fieldsRepresentable known = true := by
  cases h with
  | all s =>
      simp [Signature.fields, Json.fieldsRepresentable, Json.isRepresentable,
        Json.allRepresentable_iff]
  | noParams name => rfl

/-- The document stands for the item. -/
inductive Item.HasDocument : Item → Json → Prop
  | definition {d : Definition} {known : List (String × Json)} {proto body j : Json}
      (hfields : d.signature.HasFields known)
      (hproto : Json.Record ["name", "params"] known proto)
      (hbody : d.body.HasDocument body)
      (hrecord : Json.Record ["item", "proto", "body"]
        [("item", .string "function"), ("proto", proto), ("body", body)] j) :
      HasDocument (.definition d) j
  | declaration {s : Signature} {known : List (String × Json)} {j : Json}
      (hfields : s.HasFields known)
      (hrecord : Json.Record ["item", "name", "params"]
        (("item", .string "extern") :: known) j) :
      HasDocument (.declaration s) j
  | expression {e : Expr} {known : List (String × Json)} {j : Json}
      (hfields : e.HasFields known)
      (hrecord : Json.Record ("item" :: known.map Prod.fst)
        (("item", .string "expr") :: known) j) :
      HasDocument (.expression e) j

/-- The documents stand for the items, one by one. -/
inductive Item.HaveDocuments : List Item → List Json → Prop
  | nil : HaveDocuments [] []
  | cons {item : Item} {rest : List Item} {j : Json} {documents : List Json}
      (h : item.HasDocument j)
      (hrest : HaveDocuments rest documents) :
      HaveDocuments (item :: rest) (j :: documents)

namespace Item

/-- A document of an item is read as the item. -/
theorem HasDocument.ofJson_eq
    {item : Item}
    {j : Json}
    (h : item.HasDocument j) :
    Item.ofJson j = .ok item := by
  cases h with
  | @definition d known proto body _ hfields hproto hbody hrecord =>
      obtain ⟨rest, htagged, hrest⟩ := hrecord.tagged_eq (by simp) (by simp)
      have hall := hrest.allRequired_eq (by simp) (by simp)
      have hsignature := hfields.ofJson_eq hproto (by simp)
      have hexpr : Expr.ofJson body = .ok d.body := hbody.decode_eq (Nat.lt_succ_self _)
      simp only [List.map_cons, List.map_nil] at hall
      simp [Item.ofJson, htagged, Definition.ofJson, hall, hsignature, hexpr, bind,
        Except.bind, pure, Except.pure]
  | declaration hfields hrecord =>
      obtain ⟨rest, htagged, hrest⟩ :=
        hrecord.tagged_eq (by cases hfields <;> simp [Signature.fields]) (by simp)
      have hsignature := hfields.ofJson_eq hrest (by simp)
      simp [Item.ofJson, htagged, hsignature, bind, Except.bind, pure, Except.pure]
  | @expression e known _ hfields hrecord =>
      -- without its first tag the object is a document of the expression
      obtain ⟨rest, htagged, hrest⟩ := hrecord.tagged_eq hfields.nodup (by simp)
      have hdocument : e.HasDocument rest :=
        .record hfields (hrest.mono fun name => List.mem_cons_of_mem _)
      have hexpr : Expr.ofJson rest = .ok e := hdocument.decode_eq (Nat.lt_succ_self _)
      simp [Item.ofJson, htagged, hexpr, bind, Except.bind, pure, Except.pure]

theorem HasDocument.isRepresentable
    {item : Item}
    {j : Json}
    (h : item.HasDocument j) :
    j.isRepresentable = true := by
  cases h with
  | definition hfields hproto hbody hrecord =>
      refine hrecord.isRepresentable ?_
      have hsignature := hproto.isRepresentable hfields.fieldsRepresentable
      simp [Json.fieldsRepresentable, Json.isRepresentable, hsignature,
        hbody.isRepresentable]
  | declaration hfields hrecord =>
      refine hrecord.isRepresentable ?_
      simp [Json.fieldsRepresentable, Json.isRepresentable, hfields.fieldsRepresentable]
  | expression hfields hrecord =>
      refine hrecord.isRepresentable ?_
      simp [Json.fieldsRepresentable, Json.isRepresentable, hfields.fieldsRepresentable]

/-- The document that is written for an item stands for it. -/
theorem hasDocument_toJson
    (item : Item) :
    item.HasDocument item.toJson := by
  cases item with
  | definition d =>
      exact .definition (.all d.signature) (.plain _ _)
        (.record d.body.hasFields_fields (.plain _ _)) (.plain _ _)
  | declaration s => exact .declaration (.all s) (.plain _ _)
  | expression e => exact .expression e.hasFields_fields (.plain _ _)

theorem HaveDocuments.ofJson_eq
    {items : List Item}
    {documents : List Json}
    (h : HaveDocuments items documents) :
    documents.mapM Item.ofJson = .ok items := by
  induction h with
  | nil => rfl
  | cons h hrest ih =>
      rw [List.mapM_cons, h.ofJson_eq, ih]
      rfl

theorem HaveDocuments.allRepresentable
    {items : List Item}
    {documents : List Json}
    (h : HaveDocuments items documents) :
    Json.allRepresentable documents = true := by
  induction h with
  | nil => rfl
  | cons h hrest ih => simp [Json.allRepresentable, h.isRepresentable, ih]

theorem haveDocuments_toJson
    (items : List Item) :
    HaveDocuments items (items.map Item.toJson) := by
  induction items with
  | nil => exact .nil
  | cons item items ih => exact .cons item.hasDocument_toJson ih

end Item
end ScalarSsa
