/-!
# Words of a command line

A command line is split into words at blanks. Quotation marks keep blanks together, a backslash
takes the next character as it is, and inside double quotes it does so only for a backslash or a
double quote.
-/

namespace DiceTome.Text

/-- What makes a command line unreadable. -/
inductive WordsError where
  | noClosingQuotation
  | noEscapedCharacter
  deriving Repr, DecidableEq

/-- The text of the error. -/
def WordsError.message : WordsError → String
  | .noClosingQuotation => "No closing quotation"
  | .noEscapedCharacter => "No escaped character"

/-- A blank of a command line. -/
def isWordBlank (c : Char) : Bool :=
  c == ' ' || c == '\t' || c == '\r' || c == '\n'

/-- Where the reading of a command line stands. The word read so far is held in reverse; `none`
means that no word has been started. -/
inductive WordState where
  | plain (word : Option (List Char))
  | escape (word : List Char)
  | quote (mark : Char) (word : List Char)
  | quoteEscape (mark : Char) (word : List Char)
  deriving Repr, DecidableEq

/-- The word that ends here, in front of the words that follow. -/
def endWord (word : Option (List Char)) (words : List String) : List String :=
  match word with
  | none => words
  | some cs => String.ofList cs.reverse :: words

/-- The words of the rest of a command line. -/
def splitWordsFrom : WordState → List Char → Except WordsError (List String)
  | .plain word, [] => .ok (endWord word [])
  | .escape _, [] | .quoteEscape _ _, [] => .error .noEscapedCharacter
  | .quote _ _, [] => .error .noClosingQuotation
  | .plain word, c :: rest =>
    if isWordBlank c then
      (splitWordsFrom (.plain none) rest).map (endWord word)
    else if c == '\\' then
      splitWordsFrom (.escape (word.getD [])) rest
    else if c == '\'' || c == '"' then
      splitWordsFrom (.quote c (word.getD [])) rest
    else
      splitWordsFrom (.plain (some (c :: word.getD []))) rest
  | .escape word, c :: rest => splitWordsFrom (.plain (some (c :: word))) rest
  | .quote mark word, c :: rest =>
    if c == mark then
      splitWordsFrom (.plain (some word)) rest
    else if c == '\\' && mark == '"' then
      splitWordsFrom (.quoteEscape mark word) rest
    else
      splitWordsFrom (.quote mark (c :: word)) rest
  | .quoteEscape mark word, c :: rest =>
    if c == '\\' || c == mark then
      splitWordsFrom (.quote mark (c :: word)) rest
    else
      splitWordsFrom (.quote mark (c :: '\\' :: word)) rest

/-- The words of a command line. -/
def splitWords (cs : List Char) : Except WordsError (List String) :=
  splitWordsFrom (.plain none) cs

end DiceTome.Text
