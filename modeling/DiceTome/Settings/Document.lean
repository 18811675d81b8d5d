import DiceTome.File.Inflow
import DiceTome.Settings.Document.Node

/-!
# Reading a settings document

A document is a scalar, a list or a map. Lists and maps are laid out on lines by their indentation,
or stand between brackets; scalars are plain, quoted or blocks of lines. A document arrives in
pieces; what is wrong with a piece shows once it is asked for.

* `Document.read` reads a document.
-/

namespace DiceTome.Document

/-- Whether a character can stand in a document. -/
def isAllowed (c : Char) : Bool :=
  c == '\t' || c == '\n' || c == '\r' || (0x20 ≤ c.toNat && c.toNat ≤ 0x7E) ||
    c == '\u0085' || (0xA0 ≤ c.toNat && c.toNat != 0xFFFE && c.toNat != 0xFFFF)

/-- The text before the piece that holds the first character that cannot stand in a document, and
what is wrong with what comes after it. -/
def admitted (source : Inflow) : List Char × Option DocumentError :=
  match source.text.zipIdx.find? fun (c, _) => !isAllowed c with
  | some (c, position) =>
    (source.text.take (Inflow.before position), some (.forbidden c.toNat position))
  | none => (source.text, source.fault.map .undecodable)

/-- What a document holds; one that is empty holds nothing. -/
def read (source : Inflow) : Except DocumentError Datum := do
  let (cs, wrong) := admitted source
  let scanned := scan (if cs.head? == some '\ufeff' then cs.drop 1 else cs) wrong
  match ← Node.ofTokens scanned with
  | none => return .null
  | some root => root.datum (scanned.tokens.length + 1)

end DiceTome.Document
