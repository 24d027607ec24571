import ScalarSsa.Proofs.Json.Writing
import ScalarSsa.Proofs.Program.Documents
import ScalarSsa.Source

/-!
# Items are read from their texts

**Input.** The text of a document between blanks.

**Results.** `trim_text`: white space around a text is removed and nothing else.
`items_text`, `item_text`: however a document of items is spelled, the items are read from
it.  `legible_toJson`: what is written for an item can be read if its numbers can.
`text_refused`: a text with a part that stands for no value is refused.
-/

namespace ScalarSsa

/-! ## The ends of a text -/

namespace Text

/-- The last character is no white space. -/
def Ends (cs : List Char) : Prop :=
  ∃ front c, cs = front ++ [c] ∧ isSpace c = false

theorem Ends.append_left
    {cs : List Char}
    (h : Ends cs)
    (front : List Char) :
    Ends (front ++ cs) := by
  obtain ⟨mid, c, rfl, hc⟩ := h
  exact ⟨front ++ mid, c, (List.append_assoc ..).symm, hc⟩

theorem trim_append
    {before mid after : List Char}
    (hbefore : ∀ c ∈ before, isSpace c = true)
    (hafter : ∀ c ∈ after, isSpace c = true)
    {c : Char}
    {left : List Char}
    (hmid : mid = c :: left)
    (hc : isSpace c = false)
    (hends : Ends mid) :
    trim (before ++ (mid ++ after)) = mid := by
  obtain ⟨front, d, hlast, hd⟩ := hends
  have hfront : (before ++ (mid ++ after)).dropWhile isSpace = mid ++ after := by
    rw [List.dropWhile_append_of_pos hbefore, hmid, List.cons_append,
      List.dropWhile_cons_of_neg (by simp [hc])]
  have hback : (mid ++ after).reverse.dropWhile isSpace = mid.reverse := by
    rw [List.reverse_append, List.dropWhile_append_of_pos fun c hmem =>
      hafter c (List.mem_reverse.1 hmem), hlast,
      List.reverse_append, List.reverse_singleton, List.singleton_append,
        List.dropWhile_cons_of_neg (by simp [hd])]
  rw [trim, hfront, hback, List.reverse_reverse]

end Text

namespace Json

theorem Digits.ends
    (digits : Digits) :
    Text.Ends digits.chars := by
  refine ⟨digits.chars.dropLast, digits.chars.getLast digits.nonempty,
    (List.dropLast_concat_getLast _).symm, ?_⟩
  exact isSpace_of_isDigit (digits.isDigit _ (List.getLast_mem _))

theorem Exponent.ends
    (e : Exponent) :
    Text.Ends e.text := by
  unfold Exponent.text
  split
  · exact e.digits.ends.append_left [_]
  · exact e.digits.ends.append_left [_, _]
  · exact e.digits.ends.append_left [_, _]

theorem Numeral.ends
    (n : Numeral) :
    Text.Ends n.text := by
  have hunsigned : Text.Ends n.unsigned := by
    unfold Numeral.unsigned Numeral.point Numeral.power
    cases n.exponent with
    | some e => exact (e.ends.append_left _).append_left _
    | none =>
        cases n.fraction with
        | some digits =>
            rw [List.append_nil]
            exact (digits.ends.append_left ['.']).append_left _
        | none =>
            rw [List.append_nil, List.append_nil]
            exact n.whole.ends
  unfold Numeral.text
  split
  · exact hunsigned.append_left ['-']
  · exact hunsigned

theorem ends_bracket :
    Text.Ends [']'] ∧ Text.Ends ['}'] ∧ Text.Ends ['"'] :=
  ⟨⟨[], _, rfl, rfl⟩, ⟨[], _, rfl, rfl⟩, ⟨[], _, rfl, rfl⟩⟩

theorem Elements.ends :
    (elements : Elements) → Text.Ends elements.text
  | .last _ _ _ => ((ends_bracket.1.append_left _).append_left _).append_left _
  | .more _ _ _ rest =>
    (((rest.ends.append_left [',']).append_left _).append_left _).append_left _

theorem Fields.ends :
    (fields : Fields) → Text.Ends fields.text
  | .last _ _ _ =>
    (((ends_bracket.2.1.append_left _).append_left _).append_left _).append_left _
  | .more _ _ _ rest =>
      ((((rest.ends.append_left [',']).append_left _).append_left _).append_left
        _).append_left _

theorem Spelling.ends
    (s : Spelling) :
    Text.Ends s.text := by
  cases s with
  | null => exact ⟨['n', 'u', 'l'], _, rfl, rfl⟩
  | bool b =>
      cases b with
      | true => exact ⟨['t', 'r', 'u'], _, rfl, rfl⟩
      | false => exact ⟨['f', 'a', 'l', 's'], _, rfl, rfl⟩
  | number n => exact n.ends
  | string marks => exact ends_bracket.2.2.append_left ('"' :: marks.flatMap Mark.text)
  | emptyArray blanks => exact ends_bracket.1.append_left ('[' :: blanks.1)
  | array elements => exact elements.ends.append_left ['[']
  | emptyObject blanks => exact ends_bracket.2.1.append_left ('{' :: blanks.1)
  | object fields => exact fields.ends.append_left ['{']

section Texts

variable (s : Spelling) (before after : Blanks)

/-- White space around a text is removed and nothing else. -/
theorem trim_text :
    Text.trim (before.1 ++ (s.text ++ after.1)) = s.text := by
  obtain ⟨c, left, htext, hc, -⟩ := s.text_head
  exact Text.trim_append (fun c hmem => isSpace_of_isBlank (before.2 c hmem))
    (fun c hmem => isSpace_of_isBlank (after.2 c hmem)) htext hc s.ends

theorem isBlank_text :
    Text.isBlank (before.1 ++ (s.text ++ after.1)) = false := by
  obtain ⟨c, left, htext, hc, -⟩ := s.text_head
  refine List.all_eq_false.2 ⟨c, ?_, by simp [hc]⟩
  simp [htext]

end Texts

end Json

/-! ## Numbers -/

/-- The double is read as it was written, which only a finite one can be. -/
def ReadsBack (x : Float) : Prop :=
  Json.readNumber (Json.writeReal x) = .ok (.real x, [])

/-- The test of `ReadsBack`. -/
def readsBack (x : Float) : Bool :=
  match Json.readNumber (Json.writeReal x) with
  | .ok (.real y, []) => y = x
  | _ => false

theorem readsBack_iff
    {x : Float} :
    readsBack x = true ↔ ReadsBack x := by
  unfold readsBack ReadsBack
  split
  · next y heq => simp [heq]
  · next hother => exact ⟨fun h => (by cases h), fun h => (hother x h).elim⟩

instance : DecidablePred ReadsBack :=
  fun _ => decidable_of_iff _ readsBack_iff

mutual

/-- The numbers of an expression. -/
def Expr.numbers : Expr → List Float
  | .number x => [x]
  | .var _ => []
  | .binary _ lhs rhs => lhs.numbers ++ rhs.numbers
  | .call _ args => Expr.listNumbers args
  | .cond test thenBranch elseBranch =>
    test.numbers ++ (thenBranch.numbers ++ elseBranch.numbers)

/-- The numbers of a list of expressions. -/
def Expr.listNumbers : List Expr → List Float
  | [] => []
  | e :: rest => e.numbers ++ Expr.listNumbers rest

end

/-- The numbers of an item. -/
def Item.numbers : Item → List Float
  | .definition d => d.body.numbers
  | .declaration _ => []
  | .expression e => e.numbers

mutual

theorem Expr.fieldsLegible
    (e : Expr)
    (h : ∀ x ∈ e.numbers, ReadsBack x) :
    Json.FieldsLegible e.fields := by
  match e with
  | .number x => exact ⟨trivial, h x List.mem_cons_self, trivial⟩
  | .var name => exact ⟨trivial, trivial, trivial⟩
  | .binary op lhs rhs =>
      obtain ⟨hlhs, hrhs⟩ := List.forall_mem_append.1 h
      exact ⟨trivial, trivial, lhs.fieldsLegible hlhs, rhs.fieldsLegible hrhs, trivial⟩
  | .call callee args => exact ⟨trivial, trivial, Expr.allLegible args h, trivial⟩
  | .cond test thenBranch elseBranch =>
      obtain ⟨htest, hbranches⟩ := List.forall_mem_append.1 h
      obtain ⟨hthen, helse⟩ := List.forall_mem_append.1 hbranches
      exact ⟨trivial, test.fieldsLegible htest, thenBranch.fieldsLegible hthen,
        elseBranch.fieldsLegible helse, trivial⟩

theorem Expr.allLegible
    (es : List Expr)
    (h : ∀ x ∈ Expr.listNumbers es, ReadsBack x) :
    Json.AllLegible (Expr.listToJson es) := by
  match es with
  | [] => trivial
  | e :: rest =>
      obtain ⟨hfirst, hrest⟩ := List.forall_mem_append.1 h
      exact ⟨e.fieldsLegible hfirst, Expr.allLegible rest hrest⟩

end

theorem Signature.fieldsLegible
    (s : Signature) :
    Json.FieldsLegible s.fields := by
  have hparams : ∀ params : List String, Json.AllLegible (params.map .string) := by
    intro params
    induction params with
    | nil => trivial
    | cons name params ih => exact ⟨trivial, ih⟩
  exact ⟨trivial, hparams s.params, trivial⟩

/-- What is written for an item can be read if its numbers can. -/
theorem Item.legible_toJson
    {item : Item}
    (h : ∀ x ∈ item.numbers, ReadsBack x) :
    item.toJson.Legible := by
  cases item with
  | definition d =>
      exact ⟨trivial, d.signature.fieldsLegible, d.body.fieldsLegible h, trivial⟩
  | declaration s => exact ⟨trivial, s.fieldsLegible⟩
  | expression e => exact ⟨trivial, e.fieldsLegible h⟩

theorem Item.allLegible_toJson
    {items : List Item}
    (h : ∀ item ∈ items, ∀ x ∈ item.numbers, ReadsBack x) :
    Json.AllLegible (items.map Item.toJson) := by
  induction items with
  | nil => trivial
  | cons item items ih =>
      obtain ⟨hfirst, hrest⟩ := List.forall_mem_cons.1 h
      exact ⟨Item.legible_toJson hfirst, ih hrest⟩

/-! ## Items -/

namespace Source

variable {s : Json.Spelling}

theorem decodeStrict_text
    {α : Type}
    {decode : Json → Except Json.Mismatch α}
    {a : α}
    (hdepth : s.depth ≤ maxDepth)
    (hvalue : s.value.isRepresentable = true)
    (hdecode : decode s.value = .ok a)
    (before after : Json.Blanks) :
    decodeStrict decode (before.1 ++ (s.text ++ after.1)) = .ok a := by
  rw [decodeStrict, Json.read_text s hdepth before after]
  change (if s.value.isRepresentable then
    (decode s.value).mapError TextFault.mismatch else _) = _
  rw [if_pos hvalue, hdecode]
  rfl

theorem decodeStrict_unrepresentable
    {α : Type}
    (decode : Json → Except Json.Mismatch α)
    (hdepth : s.depth ≤ maxDepth)
    (hvalue : s.value.isRepresentable = false)
    (before after : Json.Blanks) :
    decodeStrict decode (before.1 ++ (s.text ++ after.1)) = .error .unrepresentable := by
  rw [decodeStrict, Json.read_text s hdepth before after]
  change (if s.value.isRepresentable then _ else Except.error TextFault.unrepresentable) = _
  rw [if_neg (by simp [hvalue])]

theorem items_text
    {items : List Item}
    {documents : List Json}
    (h : Item.HaveDocuments items documents)
    (hvalue : s.value = .array documents)
    (hdepth : s.depth ≤ maxDepth)
    (before after : Json.Blanks) :
    Source.items (String.ofList (before.1 ++ (s.text ++ after.1))) = .ok items := by
  have hrepresentable : s.value.isRepresentable = true := by
    rw [hvalue]
    exact h.allRepresentable
  have hdecode : itemsOfJson s.value = .ok items := by
    rw [hvalue]
    exact h.ofJson_eq
  rw [Source.items, String.toList_ofList, Json.isBlank_text, if_neg (by simp),
    decodeStrict_text hdepth hrepresentable hdecode]
  rfl

theorem item_text
    {item : Item}
    (h : item.HasDocument s.value)
    (hdepth : s.depth ≤ maxDepth)
    (before after : Json.Blanks) :
    Source.item (String.ofList (before.1 ++ (s.text ++ after.1))) = .ok item := by
  have hread := decodeStrict_text hdepth h.isRepresentable h.ofJson_eq .none .none
  simp only [Json.Blanks.none, List.nil_append, List.append_nil] at hread
  rw [Source.item, String.toList_ofList, Json.trim_text, hread]
  rfl

theorem text_refused
    (hdepth : s.depth ≤ maxDepth)
    (hvalue : s.value.isRepresentable = false)
    (before after : Json.Blanks) :
    Source.items (String.ofList (before.1 ++ (s.text ++ after.1))) =
      .error (.malformedItems .unrepresentable) ∧
    Source.item (String.ofList (before.1 ++ (s.text ++ after.1))) =
      .error (.malformedItem .unrepresentable) := by
  have hrefused := decodeStrict_unrepresentable Item.ofJson hdepth hvalue .none .none
  simp only [Json.Blanks.none, List.nil_append, List.append_nil] at hrefused
  constructor
  · rw [Source.items, String.toList_ofList, Json.isBlank_text, if_neg (by simp),
      decodeStrict_unrepresentable itemsOfJson hdepth hvalue]
    rfl
  · rw [Source.item, String.toList_ofList, Json.trim_text, hrefused]
    rfl

theorem items_compact
    {items : List Item}
    (hnumbers : ∀ item ∈ items, ∀ x ∈ item.numbers, ReadsBack x)
    (hdepth : (Json.array (items.map Item.toJson)).depth ≤ maxDepth) :
    Source.items (Json.array (items.map Item.toJson)).compact = .ok items := by
  obtain ⟨s, htext, hvalue, hlevels⟩ :=
    Json.exists_spelling (.array (items.map Item.toJson)) (Item.allLegible_toJson hnumbers)
  have hread :=
    items_text (Item.haveDocuments_toJson items) hvalue (hlevels ▸ hdepth) .none .none
  simpa [Json.Blanks.none, htext, Json.compact] using hread

theorem item_compact
    {item : Item}
    (hnumbers : ∀ x ∈ item.numbers, ReadsBack x)
    (hdepth : item.toJson.depth ≤ maxDepth) :
    Source.item item.toJson.compact = .ok item := by
  obtain ⟨s, htext, hvalue, hlevels⟩ :=
    Json.exists_spelling item.toJson (Item.legible_toJson hnumbers)
  have hread :=
    item_text (hvalue.symm ▸ item.hasDocument_toJson) (hlevels ▸ hdepth) .none .none
  simpa [Json.Blanks.none, htext, Json.compact] using hread

/--
Items are read from every spelling of their documents, in particular from what is written
for them.  A text with an unrepresentable part is refused, whatever part it is.
-/
theorem documents_read :
    (∀ (items : List Item) (documents : List Json) (s : Json.Spelling)
      (before after : Json.Blanks),
      Item.HaveDocuments items documents → s.value = .array documents → s.depth ≤ maxDepth →
      Source.items (String.ofList (before.1 ++ (s.text ++ after.1))) = .ok items) ∧
    (∀ (item : Item) (s : Json.Spelling) (before after : Json.Blanks),
      item.HasDocument s.value → s.depth ≤ maxDepth →
      Source.item (String.ofList (before.1 ++ (s.text ++ after.1))) = .ok item) ∧
    (∀ items : List Item, (∀ item ∈ items, ∀ x ∈ item.numbers, ReadsBack x) →
      (Json.array (items.map Item.toJson)).depth ≤ maxDepth →
      Source.items (Json.array (items.map Item.toJson)).compact = .ok items) ∧
    (∀ item : Item, (∀ x ∈ item.numbers, ReadsBack x) → item.toJson.depth ≤ maxDepth →
      Source.item item.toJson.compact = .ok item) ∧
    (∀ (s : Json.Spelling) (before after : Json.Blanks), s.depth ≤ maxDepth →
      s.value.isRepresentable = false →
      Source.items (String.ofList (before.1 ++ (s.text ++ after.1))) =
        .error (.malformedItems .unrepresentable) ∧
      Source.item (String.ofList (before.1 ++ (s.text ++ after.1))) =
        .error (.malformedItem .unrepresentable)) := by
  refine ⟨?_, ?_, ?_, ?_, ?_⟩
  · intro items documents s before after h hvalue hdepth
    exact items_text h hvalue hdepth before after
  · intro item s before after h hdepth
    exact item_text h hdepth before after
  · intro items hnumbers hdepth
    exact items_compact hnumbers hdepth
  · intro item hnumbers hdepth
    exact item_compact hnumbers hdepth
  · intro s before after hdepth hvalue
    exact text_refused hdepth hvalue before after

/-- A sum of a number and a call. -/
def sampleBody : Expr :=
  .binary '+' (.number 1.5) (.call "g" [])

/--
The document of the sum, with its fields turned round and with a field of another name.
-/
def shuffledBody : Json :=
  .object [("item", .array [.null]),
    ("rhs",
      .object [("args", .array []), ("callee", .string "g"), ("kind", .string "call")]),
    ("lhs", .object [("value", .real 1.5), ("kind", .string "number")]),
    ("op", .string "+"), ("kind", .string "binary")]

/-- A definition of the sum without parameters. -/
def sampleItem : Item :=
  .definition ⟨⟨"f", []⟩, sampleBody⟩

/-- Its document, with its fields turned round and without the parameters. -/
def shuffledItem : Json :=
  .object [("body", shuffledBody), ("proto", .object [("name", .string "f")]),
    ("item", .string "function")]

theorem shuffledItem_read :
    Source.items (Json.array [shuffledItem]).compact = .ok [sampleItem] ∧
    Source.item shuffledItem.compact = .ok sampleItem ∧
    Source.items (Json.array [sampleItem.toJson]).compact = .ok [sampleItem] ∧
    Source.item sampleItem.toJson.compact = .ok sampleItem ∧
    Source.item "\"\\ud800\"" = .error (.malformedItem .unrepresentable) := by
  have hnumber : ReadsBack 1.5 := by decide +kernel
  have hnumbers : ∀ x ∈ sampleItem.numbers, ReadsBack x :=
    List.forall_mem_singleton.2 hnumber
  have hnone : ∀ reserved : List String, ∀ field ∈ ([] : List (String × Json)),
      field.1 ∉ reserved ∧ field.2.isRepresentable = true := by simp
  have hlhs :
      (Expr.number 1.5).HasDocument
        (.object [("value", .real 1.5), ("kind", .string "number")]) :=
    .record (@Expr.HasFields.number _ (.real 1.5) rfl) (.turned _ (hnone _))
  have hrhs : (Expr.call "g" []).HasDocument
      (.object [("args", .array []), ("callee", .string "g"), ("kind", .string "call")]) :=
    .record (.call "g" .nil) (.turned _ (hnone _))
  have hextra : ∀ field ∈ [("item", Json.array [.null])],
      field.1 ∉ ["kind", "op", "lhs", "rhs"] ∧ field.2.isRepresentable = true := by
    simp [Json.isRepresentable, Json.allRepresentable]
  have hbody : sampleBody.HasDocument shuffledBody :=
    .record (.binary '+' hlhs hrhs) (.turned _ hextra)
  have hdocument : sampleItem.HasDocument shuffledItem :=
    .definition (.noParams "f") (.plain _ _) hbody (.turned _ (hnone _))
  have hlegible : shuffledItem.Legible :=
    ⟨⟨⟨trivial, trivial⟩, ⟨trivial, trivial, trivial, trivial⟩, ⟨hnumber, trivial, trivial⟩,
      trivial, trivial, trivial⟩,
      ⟨trivial, trivial⟩, trivial, trivial⟩
  obtain ⟨s, htext, hvalue, hdepth⟩ :=
    Json.exists_spelling (.array [shuffledItem]) ⟨hlegible, trivial⟩
  obtain ⟨s', htext', hvalue', hdepth'⟩ := Json.exists_spelling shuffledItem hlegible
  refine ⟨?_, ?_, ?_, ?_, ?_⟩
  · have hread :=
      documents_read.1 [sampleItem] _ s .none .none (.cons hdocument .nil) hvalue
        (hdepth ▸ by decide)
    simpa [Json.Blanks.none, htext, Json.compact] using hread
  · have hread :=
      documents_read.2.1 sampleItem s' .none .none (hvalue' ▸ hdocument)
        (hdepth' ▸ by decide)
    simpa [Json.Blanks.none, htext', Json.compact] using hread
  · exact documents_read.2.2.1 [sampleItem]
      (List.forall_mem_singleton.2 hnumbers) (by decide)
  · exact documents_read.2.2.2.1 sampleItem hnumbers (by decide)
  · exact (documents_read.2.2.2.2 (.string [.unit 'd' '8' '0' '0' 0xd800 rfl]) .none .none
      (by decide) rfl).2

/-- The text of a declaration of `f` with a field of another name. -/
def declarationWith (value : String) : String :=
  "\x7b\"item\":\"extern\",\"name\":\"f\",\"params\":[],\"x\":" ++ value ++ "\x7d"

/--
A field of another name may not hold a number for which no finite double is computed, nor
half a surrogate pair.  Its digits are rounded before they are scaled: the second number is
below the largest double.
-/
theorem unrepresentable_refused :
    Source.item (declarationWith "1e999") = .error (.malformedItem .unrepresentable) ∧
    Source.item (declarationWith "1797693134862315708e290") =
      .error (.malformedItem .unrepresentable) ∧
    Source.item (declarationWith "\"\\ud800\"") =
      .error (.malformedItem .unrepresentable) := by
  have hrefused : ∀ text cause,
      (match Source.item text with | .error e => some e | .ok _ => none) = some cause →
        Source.item text = .error cause := by
    intro text cause h
    cases hitem : Source.item text with
    | error e =>
        rw [hitem] at h
        exact congrArg _ (Option.some.inj h)
    | ok item =>
        rw [hitem] at h
        cases h
  exact ⟨hrefused _ _ (by decide +kernel), hrefused _ _ (by decide +kernel),
    hrefused _ _ (by decide +kernel)⟩

end Source

end ScalarSsa
