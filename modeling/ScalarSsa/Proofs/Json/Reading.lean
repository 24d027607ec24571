import ScalarSsa.Proofs.Json.Grammar
import ScalarSsa.Text.Blank

/-!
# Every spelling is read

**Input.** A spelling of a document, with blanks before it and with a rest behind it that
does not continue a number.

**Results.** `readValue_text`: the reader reads the document and stops at the rest, if
brackets and calls suffice.  `read_text`: so the text of a spelling between blanks is read
as its document.
-/

namespace ScalarSsa
namespace Json

/-! ## Blanks -/

/-- The characters do not begin with a blank. -/
def Starts (cs : List Char) : Prop :=
  ∀ c left, cs = c :: left → isBlank c = false

theorem Starts.cons
    {c : Char}
    (h : isBlank c = false)
    (cs : List Char) :
    Starts (c :: cs) := by
  rintro _ _ ⟨⟩
  exact h

theorem skipBlanks_append
    (blanks : Blanks)
    {cs : List Char}
    (h : Starts cs) :
    skipBlanks (blanks.1 ++ cs) = cs := by
  rw [skipBlanks, List.dropWhile_append_of_pos blanks.2]
  cases cs with
  | nil => rfl
  | cons c left => simp [h c left rfl]

theorem skipBlanks_skipBlanks
    (cs : List Char) :
    skipBlanks (skipBlanks cs) = skipBlanks cs := by
  simp only [skipBlanks]
  induction cs with
  | nil => rfl
  | cons c cs ih => by_cases hc : isBlank c = true <;> simp [hc, ih]

/-! ## Numbers -/

/-- No digit follows. -/
def NoDigit (rest : List Char) : Prop :=
  ∀ c left, rest = c :: left → c.isDigit = false

theorem NoDigit.cons
    {c : Char}
    (h : c.isDigit = false)
    (cs : List Char) :
    NoDigit (c :: cs) := by
  rintro _ _ ⟨⟩
  exact h

theorem readDigits_append
    (digits : Digits)
    {rest : List Char}
    (h : NoDigit rest) :
    readDigits (digits.chars ++ rest) = .ok (digits.chars, rest) := by
  have htake : (digits.chars ++ rest).takeWhile Char.isDigit = digits.chars := by
    rw [List.takeWhile_append_of_pos digits.isDigit]
    cases rest with
    | nil => simp
    | cons c left => simp [h c left rfl]
  have hdrop : (digits.chars ++ rest).dropWhile Char.isDigit = rest := by
    rw [List.dropWhile_append_of_pos digits.isDigit]
    cases rest with
    | nil => rfl
    | cons c left => simp [h c left rfl]
  simp only [readDigits, htake, hdrop]
  split
  · next hnil => exact absurd hnil digits.nonempty
  · rfl

/-- What follows a number does not continue it. -/
def Delimited (rest : List Char) : Prop :=
  ∀ c left, rest = c :: left → isBlank c = true ∨ c = ',' ∨ c = ']' ∨ c = '}'

theorem Delimited.noDigit
    {rest : List Char}
    (h : Delimited rest) :
    NoDigit rest := by
  intro c left hrest
  have hblank : isBlank c = true → c.isDigit = false := by
    intro hc
    simp only [isBlank, Bool.or_eq_true, beq_iff_eq] at hc
    rcases hc with ((rfl | rfl) | rfl) | rfl <;> rfl
  rcases h c left hrest with hc | rfl | rfl | rfl
  · exact hblank hc
  all_goals rfl

theorem Delimited.ne
    {rest : List Char}
    (h : Delimited rest)
    {c : Char}
    (hc : isBlank c = false ∧ c ≠ ',' ∧ c ≠ ']' ∧ c ≠ '}')
    (left : List Char) :
    rest ≠ c :: left := by
  intro hrest
  rcases h c left hrest with hblank | heq | heq | heq
  · rw [hc.1] at hblank
    cases hblank
  · exact hc.2.1 heq
  · exact hc.2.2.1 heq
  · exact hc.2.2.2 heq

theorem readWhole_append
    (n : Numeral)
    {rest : List Char}
    (h : NoDigit rest) :
    readWhole (n.whole.chars ++ rest) = .ok (n.whole.chars, rest) := by
  rw [readWhole, readDigits_append n.whole h]
  split
  · next heq =>
    simp only [Except.ok.injEq, Prod.mk.injEq] at heq
    exact absurd heq.1 (n.leading _ _)
  · rfl

theorem readSigned_plain
    (digits : Digits)
    {rest : List Char}
    (h : NoDigit rest) :
    readSigned (digits.chars ++ rest) = .ok ((naturalOf digits.chars : Int), rest) := by
  obtain ⟨c, left, hchars⟩ := List.exists_cons_of_ne_nil digits.nonempty
  have hc : c.isDigit = true := digits.isDigit c (hchars ▸ List.mem_cons_self)
  have hread := readDigits_append digits h
  rw [hchars, List.cons_append] at hread ⊢
  unfold readSigned
  split
  · next heq =>
    cases heq
    cases hc
  · next heq =>
    cases heq
    cases hc
  · rw [hread]
    rfl

theorem readExponent_append
    (e : Exponent)
    {rest : List Char}
    (h : NoDigit rest) :
    readExponent (e.text ++ rest) = .ok (some e.value, rest) := by
  have hsigned : ∀ cs, readSigned cs = .ok (e.value, rest) → ∀ c, c = 'e' ∨ c = 'E' →
      readExponent (c :: cs) = .ok (some e.value, rest) := by
    rintro cs hcs c (rfl | rfl) <;> simp [readExponent, hcs, Except.map]
  obtain ⟨mark, hmark, sign, digits⟩ := e
  cases sign with
  | none => exact hsigned _ (readSigned_plain digits h) mark hmark
  | some minus =>
      cases minus with
      | false =>
          refine hsigned ('+' :: (digits.chars ++ rest)) ?_ mark hmark
          simp [readSigned, readDigits_append digits h, Except.map, Exponent.value]
      | true =>
          refine hsigned ('-' :: (digits.chars ++ rest)) ?_ mark hmark
          simp [readSigned, readDigits_append digits h, Except.map, Exponent.value]

section Numeral

variable {rest : List Char} (n : Numeral) (h : Delimited rest)

include h

theorem readExponent_power :
    readExponent (n.power ++ rest) = .ok (n.exponent.map Exponent.value, rest) := by
  unfold Numeral.power
  cases n.exponent with
  | none =>
      unfold readExponent
      split
      · next heq => exact absurd heq (h.ne (by decide) _)
      · next heq => exact absurd heq (h.ne (by decide) _)
      · rfl
  | some e => exact readExponent_append e h.noDigit

/--
An exponent, or what follows the number, begins neither with a digit nor with a point.
-/
theorem power_head
    {c : Char}
    {left : List Char}
    (hc : n.power ++ rest = c :: left) :
    c.isDigit = false ∧ c ≠ '.' := by
  unfold Numeral.power at hc
  cases hexponent : n.exponent with
  | none =>
      rw [hexponent] at hc
      refine ⟨h.noDigit c left hc, ?_⟩
      rintro rfl
      exact h.ne (by decide) left hc
  | some e =>
      have htext : e.text ++ rest = c :: left := by rwa [hexponent] at hc
      have hmark : c = e.mark := by
        unfold Exponent.text at htext
        split at htext <;> exact ((List.cons.inj htext).1).symm
      rcases e.isMark with heq | heq <;> rw [hmark, heq] <;> decide

theorem readFraction_point :
    readFraction (n.point ++ (n.power ++ rest)) = .ok (n.places, n.power ++ rest) := by
  have hdigit : NoDigit (n.power ++ rest) := fun c left hc => (power_head n h hc).1
  unfold Numeral.point Numeral.places
  cases n.fraction with
  | none =>
      unfold readFraction
      split
      · next heq => exact absurd rfl (power_head n h heq).2
      · rfl
  | some digits => exact readDigits_append digits hdigit

theorem readUnsigned_append :
    readUnsigned n.negative (n.unsigned ++ rest) = .ok (n.value, rest) := by
  have hdigit : NoDigit (n.point ++ (n.power ++ rest)) := by
    unfold Numeral.point
    cases n.fraction with
    | none => exact fun c left hc => (power_head n h hc).1
    | some digits => exact .cons rfl _
  have hwhole := readWhole_append n hdigit
  simp only [readUnsigned, Numeral.unsigned, List.append_assoc, hwhole,
    readFraction_point n h, readExponent_power n h,
    bind, Except.bind]
  rfl

theorem readNumber_append :
    readNumber (n.text ++ rest) = .ok (n.value, rest) := by
  have hread := readUnsigned_append n h
  obtain ⟨c, left, hchars⟩ := List.exists_cons_of_ne_nil n.whole.nonempty
  have hc : c.isDigit = true := n.whole.isDigit c (hchars ▸ List.mem_cons_self)
  unfold Numeral.text
  cases hnegative : n.negative with
  | true =>
      rw [hnegative] at hread
      exact hread
  | false =>
      rw [hnegative] at hread
      unfold readNumber
      split
      · next heq =>
        simp only [Numeral.unsigned, hchars, Bool.false_eq_true, if_false, List.cons_append,
          List.cons.injEq] at heq
        rw [heq.1] at hc
        cases hc
      · exact hread

end Numeral

/-! ## Strings -/

theorem readPieces_mark
    (mark : Mark)
    (cs : List Char) :
    readPieces (mark.text ++ cs) = (readPieces cs).map (onto mark.piece) := by
  cases mark with
  | plain c h =>
      simp only [isPlain, Bool.and_eq_true, decide_eq_true_eq, bne_iff_ne] at h
      obtain ⟨⟨hprintable, hquote⟩, hslash⟩ := h
      change readPieces (c :: cs) = _
      rw [readPieces, if_neg (Nat.not_lt.2 hprintable)]
      · rfl
      · exact hquote
      · exact fun _ _ _ _ _ heq => absurd heq hslash
      · exact fun _ _ heq => absurd heq hslash
      · exact fun heq => absurd heq hslash
  | escape c e h =>
      change readPieces ('\\' :: c :: cs) = _
      rw [readPieces, h]
      · rfl
      · rintro _ _ _ _ _ rfl
        cases h
  | unit a b c d u h =>
      change readPieces ('\\' :: 'u' :: a :: b :: c :: d :: cs) = _
      rw [readPieces, h]
      rfl

theorem readPieces_marks
    (marks : List Mark)
    (rest : List Char) :
    readPieces (Mark.stringText marks ++ rest) = .ok (marks.map Mark.piece, rest) := by
  induction marks with
  | nil => rfl
  | cons mark marks ih =>
      have hread := readPieces_mark mark (Mark.stringText marks ++ rest)
      rw [ih] at hread
      simpa [Mark.stringText, onto, Except.map] using hread

theorem readChars_marks
    (marks : List Mark)
    (rest : List Char) :
    readChars (Mark.stringText marks ++ rest) = .ok (Mark.stringValue marks, rest) := by
  rw [readChars, readPieces_marks]
  rfl

/-! ## Documents -/

theorem readValue_skipBlanks
    (fuel depth : Nat)
    (cs : List Char) :
    readValue fuel depth (skipBlanks cs) = readValue fuel depth cs := by
  cases fuel with
  | zero => rfl
  | succ fuel =>
      unfold readValue
      rw [skipBlanks_skipBlanks]

theorem readElements_skipBlanks
    (fuel depth : Nat)
    (cs : List Char) :
    readElements fuel depth (skipBlanks cs) = readElements fuel depth cs := by
  cases fuel with
  | zero => rfl
  | succ fuel => rw [readElements, readElements, readValue_skipBlanks]

theorem readFields_skipBlanks
    (fuel depth : Nat)
    (cs : List Char) :
    readFields fuel depth (skipBlanks cs) = readFields fuel depth cs := by
  have hname : readName (skipBlanks cs) = readName cs := by
    rw [readName, readName, skipBlanks_skipBlanks]
  cases fuel with
  | zero => rfl
  | succ fuel => rw [readFields, readFields, hname]

section Brackets

variable {fuel depth : Nat} {cs inner : List Char}

theorem readValue_array
    (hcs : skipBlanks cs = '[' :: inner)
    (hinner : ∀ left, skipBlanks inner ≠ ']' :: left) :
    readValue (fuel + 1) (depth + 1) cs =
      (readElements fuel depth inner).map fun (elements, left) =>
        (.array elements, left) := by
  unfold readValue
  simp only [hcs]
  rw [readElements_skipBlanks]

theorem readValue_object
    (hcs : skipBlanks cs = '{' :: inner)
    (hinner : ∀ left, skipBlanks inner ≠ '}' :: left) :
    readValue (fuel + 1) (depth + 1) cs =
      (readFields fuel depth inner).map fun (fields, left) =>
        (match fields with
          | some fields => .object fields
          | none => .unrepresentable, left) := by
  unfold readValue
  simp only [hcs]
  exact congrArg (Except.map _) (readFields_skipBlanks fuel depth inner)

theorem readValue_scalar
    {c : Char}
    {left : List Char}
    (hcs : skipBlanks cs = c :: left)
    (hc : c ≠ '[' ∧ c ≠ '{') :
    readValue (fuel + 1) depth cs = readScalar (c :: left) := by
  unfold readValue
  rw [hcs]
  split
  · next heq => exact absurd (List.cons.inj heq).1 hc.1
  · next heq => exact absurd (List.cons.inj heq).1 hc.2
  · next heq => exact absurd (List.cons.inj heq).1 hc.1
  · next heq => exact absurd (List.cons.inj heq).1 hc.2
  · rfl

variable {left rest : List Char} {j : Json} {name : Option String}

theorem readElements_last
    (hread : readValue fuel depth cs = .ok (j, rest))
    (hskip : skipBlanks rest = ']' :: left) :
    readElements (fuel + 1) depth cs = .ok ([j], left) := by
  simp only [readElements, hread, bind, Except.bind, hskip]
  rfl

theorem readElements_more
    (hread : readValue fuel depth cs = .ok (j, rest))
    (hskip : skipBlanks rest = ',' :: left) :
    readElements (fuel + 1) depth cs =
      (readElements fuel depth left).map fun (elements, left) => (j :: elements, left) := by
  simp only [readElements, hread, bind, Except.bind, hskip]

theorem readFields_last
    (hname : readName cs = .ok (name, inner))
    (hread : readValue fuel depth inner = .ok (j, rest))
    (hskip : skipBlanks rest = '}' :: left) :
    readFields (fuel + 1) depth cs = .ok (name.map fun name => [(name, j)], left) := by
  simp only [readFields, hname, hread, bind, Except.bind, hskip]
  cases name <;> rfl

theorem readFields_more
    (hname : readName cs = .ok (name, inner))
    (hread : readValue fuel depth inner = .ok (j, rest))
    (hskip : skipBlanks rest = ',' :: left) :
    readFields (fuel + 1) depth cs = (readFields fuel depth left).map fun (fields, left) =>
      (name.bind fun name => fields.map fun fields => (name, j) :: fields, left) := by
  simp only [readFields, hname, hread, bind, Except.bind, hskip]
  congr 1
  funext p
  cases name with
  | none => rfl
  | some name => cases p.1 <;> rfl

end Brackets

theorem isSpace_of_isBlank
    {c : Char}
    (h : isBlank c = true) :
    Text.isSpace c = true := by
  simp only [isBlank, Bool.or_eq_true, beq_iff_eq] at h
  rcases h with ((rfl | rfl) | rfl) | rfl <;> decide

theorem isBlank_eq_false
    {c : Char}
    (h : Text.isSpace c = false) :
    isBlank c = false := by
  cases hblank : isBlank c with
  | false => rfl
  | true => cases h.symm.trans (isSpace_of_isBlank hblank)

theorem isSpace_of_isDigit
    {c : Char}
    (h : c.isDigit = true) :
    Text.isSpace c = false := by
  have hrange : 48 ≤ c.toNat ∧ c.toNat ≤ 57 := by
    simpa [Char.isDigit, UInt32.le_iff_toNat_le] using h
  simp only [Text.isSpace, Bool.or_eq_false_iff, Bool.and_eq_false_iff, beq_eq_false_iff_ne,
    decide_eq_false_iff_not]
  omega

theorem Numeral.text_head
    (n : Numeral) :
    ∃ c left, n.text = c :: left ∧ (c = '-' ∨ c.isDigit = true) := by
  obtain ⟨c, left, hchars⟩ := List.exists_cons_of_ne_nil n.whole.nonempty
  have hc : c.isDigit = true := n.whole.isDigit c (hchars ▸ List.mem_cons_self)
  unfold Numeral.text
  cases n.negative with
  | true => exact ⟨'-', _, rfl, .inl rfl⟩
  | false =>
      exact ⟨c, left ++ (n.point ++ n.power), by simp [Numeral.unsigned, hchars], .inr hc⟩

/-- A text begins with a character of its own. -/
theorem Spelling.text_head
    (s : Spelling) :
    ∃ c left, s.text = c :: left ∧ Text.isSpace c = false ∧ c ≠ ']' ∧ c ≠ '}' := by
  cases s with
  | number n =>
      obtain ⟨c, left, htext, hc⟩ := n.text_head
      refine ⟨c, left, htext, ?_⟩
      rcases hc with rfl | hc
      · decide
      · refine ⟨isSpace_of_isDigit hc, ?_, ?_⟩ <;> rintro rfl <;> cases hc
  | bool b => cases b <;> exact ⟨_, _, rfl, by decide⟩
  | _ => exact ⟨_, _, rfl, by decide⟩

theorem skipBlanks_text
    (blanks : Blanks)
    (s : Spelling)
    (rest : List Char) :
    skipBlanks (blanks.1 ++ (s.text ++ rest)) = s.text ++ rest := by
  obtain ⟨c, left, htext, hc, -⟩ := s.text_head
  refine skipBlanks_append blanks ?_
  rw [htext]
  exact .cons (isBlank_eq_false hc) _

theorem readScalar_number
    (n : Numeral)
    {rest : List Char}
    (h : Delimited rest) :
    readScalar (n.text ++ rest) = .ok (n.value, rest) := by
  have hread := readNumber_append n h
  obtain ⟨c, left, htext, hc⟩ := n.text_head
  rw [htext, List.cons_append] at hread ⊢
  rw [readScalar, if_pos, hread]
  · rcases hc with rfl | hc <;> simp [*]
  · rcases hc with rfl | hc
    · decide
    · rintro rfl
      cases hc

theorem Elements.text_head
    (elements : Elements)
    (rest left : List Char) :
    skipBlanks (elements.text ++ rest) ≠ ']' :: left := by
  have hvalue : ∀ (blanks : Blanks) (s : Spelling) cs,
      skipBlanks (blanks.1 ++ (s.text ++ cs)) ≠ ']' :: left := by
    intro blanks s cs heq
    obtain ⟨c, tail, htext, -, hc, -⟩ := s.text_head
    rw [skipBlanks_text, htext] at heq
    exact hc (List.cons.inj heq).1
  cases elements with
  | last before s after =>
      rw [Elements.text, List.append_assoc, List.append_assoc]
      exact hvalue before s _
  | more before s after more =>
      rw [Elements.text, List.append_assoc, List.append_assoc]
      exact hvalue before s _

theorem skipBlanks_name
    (name : FieldName)
    (rest : List Char) :
    skipBlanks (name.text ++ rest) =
      '"' :: (Mark.stringText name.marks ++ (name.between.1 ++ ':' :: rest)) := by
  have htext : name.text ++ rest =
      name.before.1 ++ '"' ::
        (Mark.stringText name.marks ++ (name.between.1 ++ ':' :: rest)) := by
    simp [FieldName.text]
  rw [htext]
  exact skipBlanks_append name.before (.cons rfl _)

theorem Fields.text_head
    (fields : Fields)
    (rest left : List Char) :
    skipBlanks (fields.text ++ rest) ≠ '}' :: left := by
  cases fields with
  | last name s after =>
      rw [Fields.text, List.append_assoc, skipBlanks_name]
      exact fun heq => by cases heq
  | more name s after more =>
      rw [Fields.text, List.append_assoc, skipBlanks_name]
      exact fun heq => by cases heq

theorem readName_text
    (name : FieldName)
    (rest : List Char) :
    readName (name.text ++ rest) = .ok (Mark.stringValue name.marks, rest) := by
  have hcolon : skipBlanks (name.between.1 ++ ':' :: rest) = ':' :: rest :=
    skipBlanks_append name.between (.cons rfl _)
  simp only [readName, skipBlanks_name, readChars_marks, bind, Except.bind, hcolon]
  rfl

theorem Delimited.cons
    {c : Char}
    (hc : c = ',' ∨ c = ']' ∨ c = '}')
    (cs : List Char) :
    Delimited (c :: cs) := by
  rintro _ _ ⟨⟩
  exact .inr hc

theorem Delimited.blanks
    (blanks : Blanks)
    {rest : List Char}
    (h : Delimited rest) :
    Delimited (blanks.1 ++ rest) := by
  intro c left heq
  cases hblanks : blanks.1 with
  | nil => exact h c left (by rwa [hblanks] at heq)
  | cons b bs =>
      rw [hblanks] at heq
      have hb := blanks.2 b (hblanks ▸ List.mem_cons_self)
      exact .inl ((List.cons.inj heq).1 ▸ hb)

mutual

/-- The reader reads what is spelled, and stops behind it. -/
theorem readValue_text
    (s : Spelling)
    (fuel depth : Nat)
    (blanks : Blanks)
    {rest : List Char}
    (hfuel : 2 * s.text.length ≤ fuel)
    (hdepth : s.depth ≤ depth)
    (hrest : Delimited rest) :
    readValue fuel depth (blanks.1 ++ (s.text ++ rest)) = .ok (s.value, rest) := by
  have hskip := skipBlanks_text blanks s rest
  obtain ⟨c, left, htext, -⟩ := s.text_head
  obtain ⟨fuel, rfl⟩ : ∃ k, fuel = k + 1 :=
    ⟨fuel - 1, by rw [htext, List.length_cons] at hfuel; omega⟩
  match s with
  | .null => exact readValue_scalar hskip (by decide)
  | .bool true => exact readValue_scalar hskip (by decide)
  | .bool false => exact readValue_scalar hskip (by decide)
  | .number n =>
      obtain ⟨c, left, hnumber, hc⟩ := n.text_head
      have hread := readScalar_number n hrest
      rw [Spelling.text, hnumber, List.cons_append] at hskip
      rw [hnumber, List.cons_append] at hread
      rw [Spelling.text, hnumber, List.cons_append, readValue_scalar hskip, hread]
      · rfl
      · rcases hc with rfl | hc
        · decide
        · constructor <;> rintro rfl <;> cases hc
  | .string marks =>
      rw [Spelling.text, List.cons_append] at hskip ⊢
      rw [readValue_scalar hskip (by decide), readScalar, readChars_marks]
      rfl
  | .emptyArray inner =>
      obtain ⟨depth, rfl⟩ : ∃ k, depth = k + 1 :=
        ⟨depth - 1, by rw [Spelling.depth] at hdepth; omega⟩
      have hclose : skipBlanks (inner.1 ++ ']' :: rest) = ']' :: rest :=
        skipBlanks_append inner (.cons rfl _)
      simp only [Spelling.text, List.cons_append, List.append_assoc,
        List.nil_append] at hskip ⊢
      unfold readValue
      simp only [hskip, hclose]
      rfl
  | .array elements =>
      obtain ⟨depth, rfl⟩ : ∃ k, depth = k + 1 :=
        ⟨depth - 1, by rw [Spelling.depth] at hdepth; omega⟩
      rw [Spelling.depth] at hdepth
      rw [Spelling.text, List.length_cons] at hfuel
      rw [Spelling.text, List.cons_append] at hskip ⊢
      rw [readValue_array hskip fun left => elements.text_head rest left,
        readElements_text elements fuel depth rest (by omega) (by omega)]
      rfl
  | .emptyObject inner =>
      obtain ⟨depth, rfl⟩ : ∃ k, depth = k + 1 :=
        ⟨depth - 1, by rw [Spelling.depth] at hdepth; omega⟩
      have hclose : skipBlanks (inner.1 ++ '}' :: rest) = '}' :: rest :=
        skipBlanks_append inner (.cons rfl _)
      simp only [Spelling.text, List.cons_append, List.append_assoc,
        List.nil_append] at hskip ⊢
      unfold readValue
      simp only [hskip, hclose]
      rfl
  | .object fields =>
      obtain ⟨depth, rfl⟩ : ∃ k, depth = k + 1 :=
        ⟨depth - 1, by rw [Spelling.depth] at hdepth; omega⟩
      rw [Spelling.depth] at hdepth
      rw [Spelling.text, List.length_cons] at hfuel
      rw [Spelling.text, List.cons_append] at hskip ⊢
      rw [readValue_object hskip fun left => fields.text_head rest left,
        readFields_text fields fuel depth rest (by omega) (by omega)]
      rfl

theorem readElements_text
    (elements : Elements)
    (fuel depth : Nat)
    (rest : List Char)
    (hfuel : 2 * elements.text.length ≤ fuel)
    (hdepth : elements.depth ≤ depth) :
    readElements fuel depth (elements.text ++ rest) = .ok (elements.value, rest) := by
  match elements with
  | .last before s after =>
      simp only [Elements.text, List.length_append, List.length_cons] at hfuel
      obtain ⟨fuel, rfl⟩ : ∃ k, fuel = k + 1 := ⟨fuel - 1, by omega⟩
      have hskip : skipBlanks (after.1 ++ ']' :: rest) = ']' :: rest :=
        skipBlanks_append after (.cons rfl _)
      have hread := readValue_text s fuel depth before (by omega) hdepth
        (Delimited.blanks after (.cons (c := ']') (by decide) rest))
      simp only [Elements.text, List.append_assoc, List.cons_append, List.nil_append]
      exact readElements_last hread hskip
  | .more before s after more =>
      simp only [Elements.text, List.length_append, List.length_cons] at hfuel
      rw [Elements.depth] at hdepth
      obtain ⟨fuel, rfl⟩ : ∃ k, fuel = k + 1 := ⟨fuel - 1, by omega⟩
      have hskip : skipBlanks (after.1 ++ ',' :: (more.text ++ rest)) =
          ',' :: (more.text ++ rest) :=
        skipBlanks_append after (.cons rfl _)
      have hread := readValue_text s fuel depth before (by omega) (by omega)
        (Delimited.blanks after (.cons (c := ',') (by decide) (more.text ++ rest)))
      simp only [Elements.text, List.append_assoc, List.cons_append]
      rw [readElements_more hread hskip,
        readElements_text more fuel depth rest (by omega) (by omega)]
      rfl

theorem readFields_text
    (fields : Fields)
    (fuel depth : Nat)
    (rest : List Char)
    (hfuel : 2 * fields.text.length ≤ fuel)
    (hdepth : fields.depth ≤ depth) :
    readFields fuel depth (fields.text ++ rest) = .ok (fields.value, rest) := by
  match fields with
  | .last name s after =>
      simp only [Fields.text, List.length_append, List.length_cons] at hfuel
      obtain ⟨fuel, rfl⟩ : ∃ k, fuel = k + 1 := ⟨fuel - 1, by omega⟩
      have hskip : skipBlanks (after.1 ++ '}' :: rest) = '}' :: rest :=
        skipBlanks_append after (.cons rfl _)
      have hread := readValue_text s fuel depth name.after (by omega) hdepth
        (Delimited.blanks after (.cons (c := '}') (by decide) rest))
      simp only [Fields.text, List.append_assoc, List.cons_append, List.nil_append]
      rw [readFields_last (readName_text name _) hread hskip, Fields.value]
      cases Mark.stringValue name.marks <;> rfl
  | .more name s after more =>
      simp only [Fields.text, List.length_append, List.length_cons] at hfuel
      rw [Fields.depth] at hdepth
      obtain ⟨fuel, rfl⟩ : ∃ k, fuel = k + 1 := ⟨fuel - 1, by omega⟩
      have hskip : skipBlanks (after.1 ++ ',' :: (more.text ++ rest)) =
          ',' :: (more.text ++ rest) :=
        skipBlanks_append after (.cons rfl _)
      have hread := readValue_text s fuel depth name.after (by omega) (by omega)
        (Delimited.blanks after (.cons (c := ',') (by decide) (more.text ++ rest)))
      simp only [Fields.text, List.append_assoc, List.cons_append]
      rw [readFields_more (readName_text name _) hread hskip,
        readFields_text more fuel depth rest (by omega) (by omega), Fields.value]
      cases Mark.stringValue name.marks with
      | none => rfl
      | some _ => cases more.value <;> rfl

end

/-- A document between blanks is read. -/
theorem read_text
    (s : Spelling)
    {depth : Nat}
    (hdepth : s.depth ≤ depth)
    (before after : Blanks) :
    Json.read depth (before.1 ++ (s.text ++ after.1)) = .ok s.value := by
  have hrest : Delimited after.1 := by
    have hend : Delimited [] := fun c left heq => by cases heq
    simpa using Delimited.blanks after hend
  have hread :=
    readValue_text s (2 * (before.1 ++ (s.text ++ after.1)).length + 2) depth before
    (by simp only [List.length_append]; omega) hdepth hrest
  have hend : skipBlanks (after.1 ++ []) = [] :=
    skipBlanks_append after fun c left heq => by cases heq
  rw [List.append_nil] at hend
  simp only [Json.read, hread, bind, Except.bind, hend]
  rfl

end Json
end ScalarSsa
