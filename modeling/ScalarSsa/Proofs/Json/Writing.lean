import ScalarSsa.Json.Shape
import ScalarSsa.Json.Writer
import ScalarSsa.Proofs.Effect
import ScalarSsa.Proofs.Json.Reading

/-!
# What is written is a spelling

**Input.** A document.

**Definitions.** A document is `Legible` if every number in it is read as it was written.

**Results.** `exists_numeral`: a text that is read as a number is a numeral.
`exists_spelling`: what is written for a legible document is a spelling of it.
-/

namespace ScalarSsa
namespace Json

/-! ## Numbers -/

section Numbers

variable {cs rest : List Char}

theorem exists_digits
    {chars : List Char}
    (h : readDigits cs = .ok (chars, rest)) :
    ∃ digits : Digits, digits.chars = chars ∧ cs = chars ++ rest := by
  unfold readDigits at h
  split at h
  · cases h
  · next hne =>
    simp only [Except.ok.injEq, Prod.mk.injEq] at h
    obtain ⟨rfl, rfl⟩ := h
    refine ⟨⟨cs.takeWhile Char.isDigit, hne, fun c hc => ?_⟩, rfl,
      List.takeWhile_append_dropWhile.symm⟩
    exact List.all_eq_true.1 List.all_takeWhile c hc

theorem exists_fraction
    {places : List Char}
    (h : readFraction cs = .ok (places, rest)) :
    ∃ fraction : Option Digits, (fraction.map Digits.chars).getD [] = places ∧
      cs = (match fraction with | none => [] | some digits => '.' :: digits.chars) ++
        rest := by
  unfold readFraction at h
  split at h
  · obtain ⟨digits, rfl, rfl⟩ := exists_digits h
    exact ⟨some digits, rfl, rfl⟩
  · simp only [Except.ok.injEq, Prod.mk.injEq] at h
    obtain ⟨rfl, rfl⟩ := h
    exact ⟨none, rfl, rfl⟩

theorem exists_signed
    {value : Int}
    (h : readSigned cs = .ok (value, rest))
    {mark : Char}
    (hmark : mark = 'e' ∨ mark = 'E') :
    ∃ e : Exponent, e.value = value ∧ mark :: cs = e.text ++ rest := by
  unfold readSigned at h
  split at h
  all_goals
    obtain ⟨⟨chars, left⟩, hread, heq⟩ := of_map_eq_ok h
    obtain ⟨digits, rfl, rfl⟩ := exists_digits hread
    simp only [Prod.mk.injEq] at heq
    obtain ⟨rfl, rfl⟩ := heq
  · exact ⟨⟨mark, hmark, some true, digits⟩, rfl, rfl⟩
  · exact ⟨⟨mark, hmark, some false, digits⟩, rfl, rfl⟩
  · exact ⟨⟨mark, hmark, none, digits⟩, rfl, rfl⟩

theorem exists_exponent
    {value : Option Int}
    (h : readExponent cs = .ok (value, rest)) :
    ∃ exponent : Option Exponent, exponent.map Exponent.value = value ∧
      cs = (match exponent with | none => [] | some e => e.text) ++ rest := by
  unfold readExponent at h
  split at h
  · obtain ⟨⟨value, left⟩, hread, heq⟩ := of_map_eq_ok h
    cases heq
    obtain ⟨e, rfl, hcs⟩ := exists_signed hread (.inl rfl)
    exact ⟨some e, rfl, hcs⟩
  · obtain ⟨⟨value, left⟩, hread, heq⟩ := of_map_eq_ok h
    cases heq
    obtain ⟨e, rfl, hcs⟩ := exists_signed hread (.inr rfl)
    exact ⟨some e, rfl, hcs⟩
  · cases h
    exact ⟨none, rfl, rfl⟩

theorem exists_whole
    {chars : List Char}
    (h : readWhole cs = .ok (chars, rest)) :
    ∃ digits : Digits, digits.chars = chars ∧ cs = chars ++ rest ∧ ∀ c left,
      digits.chars ≠ '0' :: c :: left := by
  unfold readWhole at h
  split at h
  · cases h
  · next hzero =>
    obtain ⟨digits, rfl, hcs⟩ := exists_digits h
    refine ⟨digits, rfl, hcs, fun c left hchars => ?_⟩
    exact hzero c left rest (by rw [h, hchars])

theorem exists_unsigned
    {negative : Bool}
    {j : Json}
    (h : readUnsigned negative cs = .ok (j, rest)) :
    ∃ n : Numeral, n.negative = negative ∧ n.value = j ∧ cs = n.unsigned ++ rest := by
  unfold readUnsigned at h
  obtain ⟨⟨whole, afterWhole⟩, hwhole, h⟩ := of_bind_eq_ok h
  obtain ⟨⟨places, afterPlaces⟩, hplaces, h⟩ := of_bind_eq_ok h
  obtain ⟨⟨exponent, left⟩, hexponent, h⟩ := of_bind_eq_ok h
  cases h
  obtain ⟨whole, rfl, rfl, hleading⟩ := exists_whole hwhole
  obtain ⟨fraction, rfl, rfl⟩ := exists_fraction hplaces
  obtain ⟨exponent, rfl, rfl⟩ := exists_exponent hexponent
  refine ⟨⟨negative, whole, hleading, fraction, exponent⟩, rfl, ?_, ?_⟩
  · cases fraction <;> rfl
  · cases fraction <;> cases exponent
      <;> simp [Numeral.unsigned, Numeral.point, Numeral.power]

/-- A text that is read as a number is a numeral. -/
theorem exists_numeral
    {j : Json}
    (h : readNumber cs = .ok (j, rest)) :
    ∃ n : Numeral, n.value = j ∧ cs = n.text ++ rest := by
  unfold readNumber at h
  split at h
  · obtain ⟨n, hnegative, hvalue, rfl⟩ := exists_unsigned h
    exact ⟨n, hvalue, by simp [Numeral.text, hnegative]⟩
  · obtain ⟨n, hnegative, hvalue, rfl⟩ := exists_unsigned h
    exact ⟨n, hvalue, by simp [Numeral.text, hnegative]⟩

end Numbers

/-! ## Strings -/

theorem codeUnit_control :
    ∀ n < 0x20, codeUnit '0' '0' (hexChar (n / 16)) (hexChar (n % 16)) = some n := by
  decide

theorem ofUnit_control
    {c : Char}
    (h : c.toNat < 0x20) :
    Piece.ofUnit c.toNat = .char c := by
  have hhigh : isHigh c.toNat = false := by simp [isHigh]; omega
  have hlow : isLow c.toNat = false := by simp [isLow]; omega
  simp [Piece.ofUnit, hhigh, hlow, Char.ofNat_toNat]

/-- Every character is written as a mark that stands for it. -/
theorem exists_mark
    (c : Char) :
    ∃ mark : Mark, mark.text = escapedChar c ∧ mark.piece = .char c := by
  unfold escapedChar
  -- the seven characters that have an escape of one letter
  iterate 7
    split
    · next hc =>
      subst hc
      refine ⟨.escape _ _ ?_, rfl, rfl⟩
      decide
  next hquote hbackslash _ _ _ _ _ =>
  split
  · next hcontrol =>
    exact ⟨.unit _ _ _ _ _ (codeUnit_control c.toNat hcontrol), rfl,
      ofUnit_control hcontrol⟩
  · next hcontrol =>
    exact ⟨.plain c (by simp [isPlain, hquote, hbackslash]; omega), rfl, rfl⟩

theorem exists_marks
    (cs : List Char) :
    ∃ marks : List Mark, marks.flatMap Mark.text = cs.flatMap escapedChar ∧
      marks.map Mark.piece = cs.map .char := by
  induction cs with
  | nil => exact ⟨[], rfl, rfl⟩
  | cons c cs ih =>
      obtain ⟨mark, htext, hpiece⟩ := exists_mark c
      obtain ⟨marks, htexts, hpieces⟩ := ih
      exact ⟨mark :: marks, by simp [htext, htexts], by simp [hpiece, hpieces]⟩

theorem joined_chars
    (cs : List Char) :
    joined (cs.map .char) = some cs := by
  induction cs with
  | nil => rfl
  | cons c cs ih => simp [joined, ih]

/-- Every string is written as marks that stand for it. -/
theorem exists_string
    (s : String) :
    ∃ marks : List Mark, '"' :: Mark.stringText marks = writeString s ∧
      Mark.stringValue marks = some s := by
  obtain ⟨marks, htext, hpieces⟩ := exists_marks s.toList
  refine ⟨marks, ?_, ?_⟩
  · simp [Mark.stringText, writeString, htext]
  · simp [Mark.stringValue, hpieces, joined_chars]

/-! ## Documents -/

mutual

/-- Every number in the document is read as it was written. -/
def Legible : Json → Prop
  | .count n => readNumber (Nat.toDigits 10 n) = .ok (.count n, [])
  | .real x => readNumber (writeReal x) = .ok (.real x, [])
  | .array elements => AllLegible elements
  | .object fields => FieldsLegible fields
  | .unrepresentable => False
  | _ => True

/-- Every element is legible. -/
def AllLegible : List Json → Prop
  | [] => True
  | j :: rest => j.Legible ∧ AllLegible rest

/-- Every field is legible. -/
def FieldsLegible : List (String × Json) → Prop
  | [] => True
  | (_, j) :: rest => j.Legible ∧ FieldsLegible rest

end

/-- A name without blanks around it. -/
def FieldName.tight (marks : List Mark) : FieldName :=
  ⟨.none, marks, .none, .none⟩

mutual

/-- What is written for a legible document is a spelling of it. -/
theorem exists_spelling
    (j : Json)
    (h : j.Legible) :
    ∃ s : Spelling, s.text = j.write ∧ s.value = j ∧ s.depth = j.depth := by
  match j with
  | .null => exact ⟨.null, rfl, rfl, rfl⟩
  | .bool true => exact ⟨.bool true, rfl, rfl, rfl⟩
  | .bool false => exact ⟨.bool false, rfl, rfl, rfl⟩
  | .count n =>
      obtain ⟨numeral, hvalue, htext⟩ := exists_numeral h
      exact ⟨.number numeral, by simp [Spelling.text, write, htext], hvalue, rfl⟩
  | .real x =>
      obtain ⟨numeral, hvalue, htext⟩ := exists_numeral h
      exact ⟨.number numeral, by simp [Spelling.text, write, htext], hvalue, rfl⟩
  | .string s =>
      obtain ⟨marks, htext, hvalue⟩ := exists_string s
      exact ⟨.string marks, htext, by simp [Spelling.value, hvalue], rfl⟩
  | .array [] => exact ⟨.emptyArray .none, rfl, rfl, rfl⟩
  | .array (j :: rest) =>
      obtain ⟨s, htext, hvalue, hdepth⟩ := exists_spelling j h.1
      obtain ⟨elements, htexts, hvalues, hdepths⟩ := exists_elements rest h.2 s
      refine ⟨.array elements, ?_, ?_, ?_⟩
      · simp [Spelling.text, write, htexts, htext]
      · simp [Spelling.value, hvalues, hvalue]
      · simp [Spelling.depth, Json.depth, elementsDepth, hdepths, hdepth]
  | .object [] => exact ⟨.emptyObject .none, rfl, rfl, rfl⟩
  | .object ((name, j) :: rest) =>
      obtain ⟨marks, hname, hnamed⟩ := exists_string name
      obtain ⟨s, htext, hvalue, hdepth⟩ := exists_spelling j h.1
      obtain ⟨fields, htexts, hvalues, hdepths⟩ := exists_fields rest h.2 hnamed s
      refine ⟨.object fields, ?_, ?_, ?_⟩
      · simp [Spelling.text, write, htexts, htext, ← hname]
      · simp [Spelling.value, hvalues, hvalue]
      · simp [Spelling.depth, Json.depth, fieldsDepth, hdepths, hdepth]

/-- What is written for legible elements after a first one. -/
theorem exists_elements
    (rest : List Json)
    (h : AllLegible rest)
    (s : Spelling) :
    ∃ elements : Elements, elements.text = s.text ++ writeElements rest ∧
      elements.value = s.value :: rest ∧
      elements.depth = max s.depth (elementsDepth rest) := by
  match rest with
  | [] => exact ⟨.last .none s .none, rfl, rfl, (Nat.max_zero _).symm⟩
  | j :: rest =>
      obtain ⟨s', htext, hvalue, hdepth⟩ := exists_spelling j h.1
      obtain ⟨elements, htexts, hvalues, hdepths⟩ := exists_elements rest h.2 s'
      refine ⟨.more .none s .none elements, ?_, ?_, ?_⟩
      · simp [Elements.text, Blanks.none, writeElements, htexts, htext]
      · simp [Elements.value, hvalues, hvalue]
      · simp [Elements.depth, elementsDepth, hdepths, hdepth]

/-- What is written for legible fields after a first one. -/
theorem exists_fields
    (rest : List (String × Json))
    (h : FieldsLegible rest)
    {name : String}
    {marks : List Mark}
    (hname : Mark.stringValue marks = some name)
    (s : Spelling) :
    ∃ fields : Fields,
      fields.text = '"' :: (Mark.stringText marks ++ ':' :: (s.text ++ writeFields rest)) ∧
      fields.value = some ((name, s.value) :: rest) ∧
      fields.depth = max s.depth (fieldsDepth rest) := by
  match rest with
  | [] =>
      refine ⟨.last (.tight marks) s .none, ?_, ?_, (Nat.max_zero _).symm⟩
      · simp [Fields.text, FieldName.text, FieldName.tight, Blanks.none, writeFields]
      · simp [Fields.value, FieldName.tight, hname]
  | (name', j) :: rest =>
      obtain ⟨marks', hmarks, hname'⟩ := exists_string name'
      obtain ⟨s', htext, hvalue, hdepth⟩ := exists_spelling j h.1
      obtain ⟨fields, htexts, hvalues, hdepths⟩ := exists_fields rest h.2 hname' s'
      refine ⟨.more (.tight marks) s .none fields, ?_, ?_, ?_⟩
      · simp [Fields.text, FieldName.text, FieldName.tight, Blanks.none, writeFields,
          htexts, htext, ← hmarks]
      · simp [Fields.value, FieldName.tight, hname, hvalues, hvalue]
      · simp [Fields.depth, fieldsDepth, hdepths, hdepth]

end

end Json
end ScalarSsa
