import DiceTome.Settings.BlockText
import DiceTome.Settings.Quotation
import DiceTome.Text.Utf8

/-!
# Errors of settings documents

What can be wrong with a document: its characters, its signs and scalars, the order in which they
stand, or the values that it spells. A message names the place of the fault, and also what was being
read there and where that began.
-/

namespace DiceTome

/-- A collection of a document: a list or a map, on lines or between brackets. -/
inductive Collection where
  | blockList
  | blockMap
  | flowList
  | flowMap
  deriving Repr, DecidableEq

/-- What is being read when a collection is, and what is wanted where it goes on. -/
def Collection.expectation : Collection → String × String
  | blockList => ("while parsing a block collection", "expected <block end>, but found ")
  | blockMap => ("while parsing a block mapping", "expected <block end>, but found ")
  | flowList => ("while parsing a flow sequence", "expected ',' or ']', but got ")
  | flowMap => ("while parsing a flow mapping", "expected ',' or '\x7d', but got ")

/-- What is wrong with a document. The word for what was `found` is the one that messages use. -/
inductive DocumentError where
  | undecodable (cause : Text.Utf8Error)
  | forbidden (code position : Nat)
  | noToken (c : Char) (mark : Mark)
  | unsupported (c : Char) (mark : Mark)
  | misplacedValue (mark : Mark)
  | misplacedKey (mark : Mark)
  | misplacedEntry (mark : Mark)
  | missingColon (key mark : Mark)
  | quotation (fault : QuotationFault) (start mark : Mark)
  | block (fault : BlockFault) (start mark : Mark)
  | noContent (inBrackets : Bool) (found : String) (mark : Mark)
  | unfinished (what : Collection) (start : Mark) (found : String) (mark : Mark)
  | noDocumentStart (found : String) (mark : Mark)
  | secondDocument (start mark : Mark)
  | reservedScalar (use : String) (mark : Mark)
  | unhashableKey (start mark : Mark)
  | notMergeable (inList : Bool) (found : String) (start mark : Mark)
  | scalar (cause : ScalarError)
  deriving Repr, DecidableEq

/-- A fault at a place, found while something was read that began at some place. -/
structure Complaint where
  context : Option (String × Mark) := none
  problem : String
  mark : Mark

/-- The complaint as text, for a document with a name. The place of the beginning is left out if it
is the place of the fault. -/
def Complaint.text (c : Complaint) (name : String) : String :=
  let context := match c.context with
    | none => []
    | some (what, start) => what :: if start.looksLike c.mark then [] else [start.text name]
  "\n".intercalate (context ++ [c.problem, c.mark.text name])

/-- A character in quotation marks. -/
def quotedChar (c : Char) : String :=
  Text.quoted (String.singleton c)

/-- What was being read at a fault of a quoted scalar, and what is wrong. -/
def QuotationFault.wording : QuotationFault → String × String
  | unclosed => ("while scanning a quoted scalar", "found unexpected end of stream")
  | separator => ("while scanning a quoted scalar", "found unexpected document separator")
  | unknownEscape c =>
    ("while scanning a double-quoted scalar", "found unknown escape character " ++ quotedChar c)
  | notACode width c =>
    ("while scanning a double-quoted scalar",
      s!"expected escape sequence of {width} hexadecimal numbers, but found {quotedChar c}")
  | noSuchCharacter => ("while scanning a double-quoted scalar", "")

/-- What is wrong with a block scalar. -/
def BlockFault.wording : BlockFault → String
  | zeroIndentation => "expected indentation indicator in the range 1-9, but found 0"
  | unknownSign c => "expected chomping or indentation indicators, but found " ++ quotedChar c
  | trailing c => "expected a comment or a line break, but found " ++ quotedChar c

namespace DocumentError

/-- What the error complains about, unless it is about a character or a value. -/
def complaint? : DocumentError → Option Complaint
  | noToken c mark | unsupported c mark =>
    some {
      context := some ("while scanning for the next token", mark)
      problem := s!"found character {quotedChar c} that cannot start any token"
      mark }
  | misplacedValue mark => some { problem := "mapping values are not allowed here", mark }
  | misplacedKey mark => some { problem := "mapping keys are not allowed here", mark }
  | misplacedEntry mark => some { problem := "sequence entries are not allowed here", mark }
  | missingColon key mark =>
    some {
      context := some ("while scanning a simple key", key)
      problem := "could not find expected ':'"
      mark }
  | quotation fault start mark =>
    let (what, problem) := fault.wording
    some { context := some (what, start), problem, mark }
  | block fault start mark =>
    some {
      context := some ("while scanning a block scalar", start)
      problem := fault.wording
      mark }
  | noContent inBrackets found mark =>
    let kind := if inBrackets then "flow" else "block"
    some {
      context := some (s!"while parsing a {kind} node", mark)
      problem := "expected the node content, but found " ++ Text.quoted found
      mark }
  | unfinished what start found mark =>
    let (context, problem) := what.expectation
    some { context := some (context, start), problem := problem ++ Text.quoted found, mark }
  | noDocumentStart found mark =>
    some { problem := "expected '<document start>', but found " ++ Text.quoted found, mark }
  | secondDocument start mark =>
    some {
      context := some ("expected a single document in the stream", start)
      problem := "but found another document"
      mark }
  | reservedScalar use mark =>
    some {
      problem := s!"could not determine a constructor for the tag 'tag:yaml.org,2002:{use}'"
      mark }
  | unhashableKey start mark =>
    some {
      context := some ("while constructing a mapping", start)
      problem := "found unhashable key"
      mark }
  | notMergeable inList found start mark =>
    let wanted := if inList then "a mapping" else "a mapping or list of mappings"
    some {
      context := some ("while constructing a mapping", start)
      problem := s!"expected {wanted} for merging, but found {found}"
      mark }
  | undecodable _ | forbidden _ _ | scalar _ => none

/-- How far scanning came when it ended with the error: the index of the last character that was
looked at. Signs are told from plain scalars by the character after them. -/
def reach? : DocumentError → Option Nat
  | noToken _ mark | unsupported _ mark | misplacedValue mark | misplacedKey mark
  | misplacedEntry mark => some (mark.index + 1)
  | e => e.complaint?.map fun c => c.mark.index

/-- Whether the error is about bytes that spell no text or about a scalar that has no value, and not
about how the document is laid out. -/
def isValueFault : DocumentError → Bool
  | undecodable _ | scalar _ | quotation .noSuchCharacter _ _ => true
  | _ => false

/-- The text of the error, for a document with a name. -/
def message (name : String) (e : DocumentError) : String :=
  match e with
  | undecodable cause => cause.message
  | forbidden code position =>
    let digits := String.ofList (Text.hexDigits 4 code)
    s!"unacceptable character #x{digits}: " ++
      s!"special characters are not allowed\n  in \"{name}\", position {position}"
  | quotation .noSuchCharacter _ _ => ScalarError.noSuchCharacter.message
  | scalar cause => cause.message
  | e => (e.complaint?.map fun c => c.text name).getD ""

end DocumentError

end DiceTome
