import ScalarSsa.Text.CharWidth
import ScalarSsa.Text.Emoji

/-!
# Columns taken by a line

**Input.** A line of text set in a fixed-width face.

**Algorithm.** The characters are met from the last to the first.  A context keeps what
the characters behind a place begin with, as far as a character before them can join it
into one shape: an emoji sequence, a ligature of letters, or a variation selector that
chooses the shape.

**Results.** `width` counts columns.  It is the sum of the widths of the characters, except
where characters share one shape.
-/

namespace ScalarSsa
namespace Text

/--
The beginning of a ligature's last part.  `joiner` says that a zero-width
joiner stands before it.
-/
inductive Ligature where
  /-- Arabic alef, which joins a lam. -/
  | alef
  /-- Hebrew lamed, which joins an alef. -/
  | lamed (joiner : Bool)
  /-- Buginese ya, which joins a vowel sign and a letter. -/
  | ya (joiner : Bool)
  /-- A Buginese vowel sign that is joined to a ya. -/
  | vowelYa
  /-- A consonant of Tifinagh, which joins another. -/
  | tifinagh (joiner : Bool)
  /-- A Tifinagh consonant behind the consonant joiner. -/
  | tifinaghJoined
  /-- A second tone letter of Lisu. -/
  | lisuTone
  /-- Old Turkic i, which joins a consonant. -/
  | orkhonI (joiner : Bool)
  /-- A Khmer letter that can be set below another. -/
  | khmerLetter
  deriving DecidableEq, Repr

/-- What the characters behind a place begin with. -/
inductive Ahead where
  | nothing
  | ligature (l : Ligature)
  /-- Kirat Rai vowel sign e. -/
  | vowelE
  /-- Kirat Rai vowel sign ai, or two signs e. -/
  | vowelAi
  | modifier
  | indicator
  | indicators
  | emoji
  /-- A joiner and an emoji. -/
  | joined
  /-- A keycap before a joiner and an emoji. -/
  | joinedKeycap
  /-- Regional indicators before a joiner and an emoji: one, or an even or an odd
  number of several. -/
  | joinedIndicator
  | joinedEven
  | joinedOdd
  /-- Tag letters that end before a joiner and an emoji. -/
  | joinedTag (letters : Nat)
  /-- Tag digits before such letters. -/
  | joinedTagDigits (digits : Nat)
  deriving DecidableEq, Repr

/-- What stands behind a place, with the variation selectors right there. -/
structure Context where
  ahead : Ahead := .nothing
  emojiStyle : Bool := false
  textStyle : Bool := false
  wideForm : Bool := false
  deriving DecidableEq, Repr

namespace Ahead

/-- Variation selectors do not break a ligature. -/
def isLigature : Ahead → Bool
  | .ligature _ => true
  | _ => false

/-- A joiner and an emoji, or a keycap before them. -/
def isJoined : Ahead → Bool
  | .joined | .joinedKeycap => true
  | _ => false

end Ahead

namespace Context

/-- Asks for an emoji style in front of a context. -/
def withEmojiStyle (r : Context) : Context :=
  if r.ahead.isLigature || r.ahead.isJoined then { r with emojiStyle := true }
  else { emojiStyle := true }

/-- Asks for a text style in front of a context. -/
def withTextStyle (r : Context) : Context :=
  if r.ahead.isLigature then { r with textStyle := true } else { textStyle := true }

/-- Asks for a wide form in front of a context. -/
def withWideForm (r : Context) : Context :=
  if r.ahead.isLigature then { r with wideForm := true } else { wideForm := true }

/-- The context of a character that has no emoji style. -/
def withoutEmojiStyle (r : Context) : Context :=
  if !r.emojiStyle then r
  else if r.ahead.isLigature then { r with emojiStyle := false }
  else {}

end Context

/-- Arabic lam and the letters of its shape. -/
def isLam (c : Char) : Bool :=
  inRanges [(0x644, 0x644), (0x6B5, 0x6B8), (0x76A, 0x76A), (0x8A6, 0x8A6),
    (0x8C7, 0x8C7)] c

/-- Arabic alef and the letters of its shape. -/
def isAlef (c : Char) : Bool :=
  inRanges [(0x622, 0x623), (0x625, 0x625), (0x627, 0x627), (0x671, 0x673),
    (0x675, 0x675), (0x773, 0x774),
    (0x870, 0x882)] c

/-- A consonant of Tifinagh. -/
def isTifinagh (c : Char) : Bool :=
  inRange 0x2D31 0x2D65 c || c.toNat = 0x2D6F

/-- A Khmer letter that the sign coeng sets below another. -/
def isKhmerLetter (c : Char) : Bool :=
  inRanges [(0x1780, 0x1782), (0x1784, 0x1787), (0x1789, 0x178C), (0x178E, 0x1793),
    (0x1795, 0x1798), (0x179B, 0x179D),
    (0x17A0, 0x17A0), (0x17A2, 0x17A2), (0x17A7, 0x17A7), (0x17AB, 0x17AC),
      (0x17AF, 0x17AF)] c

/-- A character without a column that letters of Arabic are joined across. -/
def isTransparent (c : Char) : Bool :=
  charWidth c = 0 && (isMark c || inRanges
    [(0xAD, 0xAD), (0x61C, 0x61C), (0x70F, 0x70F), (0x200B, 0x200B), (0x200E, 0x200F),
      (0x202A, 0x202E),
      (0x2060, 0x2064), (0x206A, 0x206F), (0xFEFF, 0xFEFF), (0x1BCA0, 0x1BCA3),
      (0x1D173, 0x1D17A),
      (0xE0001, 0xE0001), (0xE0020, 0xE007F)] c)

/-- The zero-width joiner. -/
def isJoiner (c : Char) : Bool :=
  c.toNat = 0x200D

/-- A letter of a tag. -/
def isTagLetter (c : Char) : Bool :=
  inRange 0xE0061 0xE007A c

/-- A digit of a tag. -/
def isTagDigit (c : Char) : Bool :=
  inRange 0xE0030 0xE0039 c

/-- What a character begins on its own. -/
def Ahead.of (c : Char) : Ahead :=
  if c.toNat = 0x5DC then .ligature (.lamed false)
  else if isAlef c then .ligature .alef
  else if isKhmerLetter c then .ligature .khmerLetter
  else if c.toNat = 0x1A10 then .ligature (.ya false)
  else if isTifinagh c then .ligature (.tifinagh false)
  else if inRange 0xA4FC 0xA4FD c then .ligature .lisuTone
  else if c.toNat = 0x10C03 then .ligature (.orkhonI false)
  else if c.toNat = 0x16D67 then .vowelE
  else if c.toNat = 0x16D68 then .vowelAi
  else if isIndicator c then .indicator
  else if isModifier c then .modifier
  else if isEmoji c then .emoji
  else .nothing

/-- A ligature with a joiner before it. -/
def Ligature.joined : Ligature → Ligature
  | .lamed _ => .lamed true
  | .ya _ => .ya true
  | .tifinagh _ => .tifinagh true
  | .orkhonI _ => .orkhonI true
  | l => l

/--
The columns that a character adds to a ligature that it takes part in, and
what is begun then.
-/
def Ligature.join (c : Char) : Ligature → Option (Int × Ahead)
  | .alef =>
    if isLam c then some (0, .nothing)
    else if isTransparent c then some (0, .ligature .alef)
    else none
  | l =>
    if isJoiner c then some (0, .ligature l.joined)
    else if isMark c && isIgnorable c then some (0, .ligature l)
    else
      match l, c.toNat with
      | .lamed true, 0x5D0 => some (0, .nothing)
      | .khmerLetter, 0x17D2 => some (-1, .nothing)
      | .ya true, 0x1A17 => some (0, .ligature .vowelYa)
      | .vowelYa, 0x1A15 => some (0, .nothing)
      | .orkhonI true, 0x10C32 => some (0, .nothing)
      | .tifinagh _, 0x2D7F => some (1, .ligature .tifinaghJoined)
      | .tifinagh true, _ => if isTifinagh c then some (0, .nothing) else none
      | .tifinaghJoined, _ => if isTifinagh c then some (-1, .nothing) else none
      | .lisuTone, _ => if inRange 0xA4F8 0xA4FB c then some (0, .nothing) else none
      | _, _ => none

/--
The columns that a character adds to a sequence that it takes part in, and
what is begun then.
-/
def Ahead.join (c : Char) : Ahead → Option (Int × Ahead)
  | .nothing => none
  | .ligature l => l.join c
  | .vowelE =>
    match c.toNat with
    | 0x16D63 => some (0, .nothing)
    | 0x16D67 => some (0, .vowelAi)
    | 0x16D68 => some (1, .vowelE)
    | 0x16D69 => some (0, .nothing)
    | _ => none
  | .vowelAi => if c.toNat = 0x16D63 then some (0, .nothing) else none
  | .modifier =>
    if isModifierBase c then some (0, .emoji)
    else if isJoiner c then some (0, .joined)
    else none
  | .indicator => if isIndicator c then some (1, .indicators) else none
  | .indicators =>
    if isIndicator c then some (1, .indicators)
    else if isJoiner c then some (0, .joined)
    else none
  | .emoji => if isJoiner c then some (0, .joined) else none
  | .joined =>
    if c.toNat = 0x20E3 then some (0, .joinedKeycap)
    else if isIndicator c then some (1, .joinedIndicator)
    else if isModifier c then some (0, .modifier)
    else if c.toNat = 0xE007F then some (0, .joinedTag 0)
    else if isEmoji c then some (0, .emoji)
    else none
  | .joinedKeycap => none
  | .joinedIndicator => if isIndicator c then some (-1, .joinedEven) else none
  | .joinedEven =>
    if isIndicator c then some (3, .joinedOdd)
    else if isJoiner c then some (0, .joined)
    else none
  | .joinedOdd =>
    if isIndicator c then some (-1, .joinedEven)
    else if isJoiner c then some (0, .joined)
    else none
  | .joinedTag letters =>
    if isTagLetter c && letters < 6 then some (0, .joinedTag (letters + 1))
    else if isTagDigit c && letters ≤ 4 then some (0, .joinedTagDigits 1)
    else if c.toNat = 0x1F3F4 && 3 ≤ letters then some (0, .emoji)
    else none
  | .joinedTagDigits digits =>
    if isTagDigit c && digits < 3 then some (0, .joinedTagDigits (digits + 1))
    else if c.toNat = 0x1F3F4 && digits = 3 then some (0, .emoji)
    else none

/-- A quotation mark that has a wide form. -/
def hasWideForm (c : Char) : Bool :=
  inRanges [(0x2018, 0x2019), (0x201C, 0x201D)] c

/--
The columns that a character adds in front of a context, and the context in front of it.
-/
def Context.add (c : Char) (r : Context) : Int × Context :=
  if r.emojiStyle && hasEmojiStyle c then
    (if r.ahead.isJoined then 0 else 2, { ahead := .emoji })
  else if c.toNat ≤ 0xA0 then (1, {})
  else
    let r := r.withoutEmojiStyle
    if c.toNat = 0xFE0F then (0, r.withEmojiStyle)
    else if c.toNat = 0xFE0E then (0, r.withTextStyle)
    else if c.toNat = 0xFE01 then (0, r.withWideForm)
    else if r.textStyle && hasTextStyle c then (1, {})
    else if r.wideForm && hasWideForm c then (2, {})
    else
      match r.ahead.join c with
      | some (columns, ahead) => (columns, { ahead := ahead })
      | none => (charWidth c, { ahead := .of c })

/-- The columns of a line. -/
def width (s : String) : Nat :=
  (s.toList.foldr (fun c (columns, r) =>
    let (more, r) := Context.add c r
    (columns + more, r)) ((0 : Int), {})).1.toNat

end Text
end ScalarSsa
