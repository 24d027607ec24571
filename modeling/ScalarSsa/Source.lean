import ScalarSsa.Json.Reader
import ScalarSsa.Program.Decoding
import ScalarSsa.Report.Journal
import ScalarSsa.Settings
import ScalarSsa.Text.Blank
import ScalarSsa.Text.Quoted

/-!
# Reading items and settings

**Input.** A text, or the bytes of a file.

**Results.** `Source.items` reads an array of items, where a text of white space is the
empty one; `Source.item` reads one item between white space; `Source.settings` reads
settings.  A `LoadError` says what is wrong and in which file.
-/

namespace ScalarSsa

/-- Why a file cannot be used. -/
inductive FileFault where
  | system (description : String) (code : Nat)
  | nulInPath
  | invalidText
  deriving DecidableEq, Repr, Inhabited

namespace FileFault

/-- There is no such file. -/
def notFound : FileFault :=
  .system "No such file or directory" 2

/-- A path leads through something that is no directory. -/
def notDirectory : FileFault :=
  .system "Not a directory" 20

/-- A directory stands where a file should. -/
def isDirectory : FileFault :=
  .system "Is a directory" 21

/-- A path, or a name on it, is too long. -/
def nameTooLong : FileFault :=
  .system "File name too long" 36

/--
The fault of a path that no system is asked for, because it holds the
character that ends names.
-/
def ofPath (path : String) : Option FileFault :=
  if path.toList.contains '\x00' then some .nulInPath else none

/-- The wording of a file fault. -/
def message : FileFault → String
  | .system description code => description ++ " (os error " ++ toString code ++ ")"
  | .nulInPath => "file name contained an unexpected NUL byte"
  | .invalidText => "stream did not contain valid UTF-8"

end FileFault

/-- Why a text is not what was asked for. -/
inductive TextFault where
  | document (e : Json.Error)
  | mismatch (m : Json.Mismatch)
  | unrepresentable
  deriving DecidableEq, Repr

/-- The wording of a text fault. -/
def TextFault.message : TextFault → String
  | .document e => e.message
  | .mismatch m => m.message
  | .unrepresentable => "a number or a string has no value"

/-- Why items or settings cannot be loaded. -/
inductive LoadCause where
  | unreadableSource (fault : FileFault)
  | unreadableSettings (fault : FileFault)
  | malformedItems (fault : TextFault)
  | malformedItem (fault : TextFault)
  | invalidSettings (fault : TextFault)
  deriving DecidableEq, Repr

/-- The wording of a cause. -/
def LoadCause.message : LoadCause → String
  | .unreadableSource fault => "cannot read source: " ++ fault.message
  | .unreadableSettings fault => "cannot read options: " ++ fault.message
  | .malformedItems fault => "malformed item list: " ++ fault.message
  | .malformedItem fault => "malformed item: " ++ fault.message
  | .invalidSettings fault => "invalid options: " ++ fault.message

/-- A cause and the file in which it lies. -/
structure LoadError where
  path : Option String
  cause : LoadCause
  deriving DecidableEq, Repr

namespace LoadError

/-- A message with the file that it is about. -/
def located (path : Option String) (message : String) : String :=
  match path with
  | some path => message ++ " (in " ++ Text.quoted path ++ ")"
  | none => message

/-- The report of loading that failed with a message. -/
def reportOf (message : String) : Report :=
  ⟨.error, "kaleido.source", message⟩

/-- The wording of an error. -/
def message (e : LoadError) : String :=
  located e.path e.cause.message

/-- The report of an error. -/
def report (e : LoadError) : Report :=
  reportOf e.message

end LoadError

namespace Source

/-- The number of brackets that may be open at once. -/
def maxDepth : Nat :=
  127

/-- A value from the document of a text, every part of which has to be representable. -/
def decodeStrict {α : Type} (decode : Json → Except Json.Mismatch α) (cs : List Char) :
    Except TextFault α := do
  let j ← (Json.read maxDepth cs).mapError TextFault.document
  if j.isRepresentable then (decode j).mapError TextFault.mismatch
  else throw .unrepresentable

/-- Items from a document. -/
def itemsOfJson (j : Json) : Except Json.Mismatch (List Item) := do
  (← j.asArray).mapM Item.ofJson

/-- An array of items from a text. -/
def items (text : String) : Except LoadCause (List Item) :=
  if Text.isBlank text.toList then .ok []
  else (decodeStrict itemsOfJson text.toList).mapError .malformedItems

/-- One item from a text. -/
def item (text : String) : Except LoadCause Item :=
  (decodeStrict Item.ofJson (Text.trim text.toList)).mapError .malformedItem

/--
Settings from a text.  The values of unknown fields only have to be correct
text, of any depth.
-/
def settings (text : String) : Except LoadCause Settings :=
  let decoded : Except TextFault Settings := do
    let j ← (Json.read text.length text.toList).mapError TextFault.document
    (Settings.ofJson j).mapError TextFault.mismatch
  decoded.mapError .invalidSettings

/-- The text of a file. -/
def textOf (content : Except FileFault ByteArray) : Except FileFault String := do
  match String.fromUTF8? (← content) with
  | some text => return text
  | none => throw .invalidText

/-- The items of a file. -/
def itemsOfFile (path : String) (content : Except FileFault ByteArray) :
    Except LoadError (List Item) :=
  let loaded : Except LoadCause (List Item) := do
    items (← (textOf content).mapError .unreadableSource)
  loaded.mapError fun cause => ⟨some path, cause⟩

/-- The settings of a file. -/
def settingsOfFile (path : String) (content : Except FileFault ByteArray) :
    Except LoadError Settings :=
  let loaded : Except LoadCause Settings := do
    settings (← (textOf content).mapError .unreadableSettings)
  loaded.mapError fun cause => ⟨some path, cause⟩

/-- The note about settings that were loaded. -/
def loadedSettings (path : String) (s : Settings) : Event :=
  .note ⟨.debug, .settings, "loaded options from " ++ Text.quoted path ++ ": " ++ s.text⟩

end Source

end ScalarSsa
