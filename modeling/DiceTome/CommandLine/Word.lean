import DiceTome.Text.Digit

/-!
# Words of a command line

An argument is a value or names options. Options have a long name, which may be cut short as long as
it stays unique, and some have a letter; letters may follow each other after one dash. The value of
an option is attached to it or is the next argument.

* `Word.read` tells what an argument is.
* `Word.cluster` lists the options that an argument names.
-/

namespace DiceTome.CommandLine

/-- How a command line fails to ask for something to do. -/
inductive Usage where
  | help
  | wrong
  deriving Repr, DecidableEq

/-- The code that the program leaves with. -/
def Usage.exitCode : Usage → Nat
  | help => 0
  | wrong => 2

/-- The options of the program. -/
inductive Flag where
  | help
  | config
  | seed
  | noDefaults
  | verbose
  deriving Repr, DecidableEq

namespace Flag

/-- All options. -/
def all : List Flag := [help, config, seed, noDefaults, verbose]

/-- The long name of an option. No long name is the start of another one. -/
def longName : Flag → String
  | help => "--help"
  | config => "--config"
  | seed => "--seed"
  | noDefaults => "--no-defaults"
  | verbose => "--verbose"

/-- The letter of an option. -/
def letter? : Flag → Option Char
  | help => some 'h'
  | config => some 'c'
  | verbose => some 'v'
  | seed | noDefaults => none

/-- Whether an option has a value. -/
def takesValue : Flag → Bool
  | config | seed => true
  | help | noDefaults | verbose => false

/-- The option with a letter, among those that are known. -/
def ofLetter? (known : List Flag) (c : Char) : Option Flag :=
  known.find? fun flag => flag.letter? == some c

/-- The options whose long name starts with a text, among those that are known. -/
def ofStart (known : List Flag) (start : List Char) : List Flag :=
  known.filter fun flag => start.isPrefixOf flag.longName.toList

end Flag

/-- What an argument is. An option may have a text attached to its name. -/
inductive Word where
  | value
  | long (flag : Flag) (attached : Option (List Char))
  | short (flag : Flag) (attached : Option (List Char))
  | unknown
  | ambiguous
  deriving Repr, DecidableEq

/-- The value of an option. The separator attached to an option is dropped and leaves it without
one. -/
inductive OptionValue where
  | text (s : String)
  | dropped
  deriving Repr, DecidableEq

/-- The argument after which every argument is a value. -/
def separator : String := "--"

/-- The value that is attached to an option. -/
def OptionValue.ofAttached (cs : List Char) : OptionValue :=
  if String.ofList cs = separator then dropped else text (String.ofList cs)

/-- An option that is asked for, and its value as far as it is known. -/
structure Mention where
  flag : Flag
  value : Option OptionValue := none
  deriving Repr, DecidableEq

/-- The options that an argument names, in order. -/
abbrev Cluster := List Mention

namespace Cluster

/-- Whether the last option of a cluster lacks its value. -/
def needsValue (c : Cluster) : Bool :=
  c.getLast?.any fun m => m.flag.takesValue && m.value.isNone

/-- The cluster with a value for its last option. -/
def withValue (c : Cluster) (value : String) : Cluster :=
  c.dropLast ++ c.getLast?.toList.map fun m => { m with value := some (.text value) }

end Cluster

namespace Word

/-- What follows the name of an option, without the equals sign between them. -/
def attachedOf : List Char → Option (List Char)
  | [] => none
  | '=' :: text => some text
  | text => some text

/-- A text without a newline at its end. -/
def dropFinalNewline (cs : List Char) : List Char :=
  if cs.getLast? = some '\n' then cs.dropLast else cs

/-- Whether a text is a negative number, which is a value and no option. -/
def isNegativeNumber (cs : List Char) : Bool :=
  let isDecimal (c : Char) := (Text.digitValue? c).isSome
  match cs with
  | '-' :: body =>
    let body := dropFinalNewline body
    match body.dropWhile isDecimal with
    | [] => !body.isEmpty
    | '.' :: fraction => !fraction.isEmpty && fraction.all isDecimal
    | _ => false
  | _ => false

/-- What an argument is that starts with a dash and names no option: negative numbers and texts with
spaces are values. -/
def nameless (cs : List Char) : Word :=
  if isNegativeNumber cs || cs.contains ' ' then value else unknown

/-- What an argument is, where only some options are known. -/
def read (known : List Flag) (cs : List Char) : Word :=
  match cs with
  | '-' :: '-' :: _ =>
    let isName (c : Char) := c != '='
    match Flag.ofStart known (cs.takeWhile isName) with
    | [] => nameless cs
    | [flag] => long flag (attachedOf (cs.dropWhile isName))
    | _ => ambiguous
  | '-' :: c :: rest =>
    match Flag.ofLetter? known c with
    | some flag => short flag (attachedOf rest)
    | none => nameless cs
  | _ => value

/-- The options that letters name from one of them on, which has a text attached. Unless the text is
its value, the option hands it on to the letters that follow. -/
def letters (known : List Flag) (flag : Flag) : List Char → Except Usage Cluster
  | [] => if flag.takesValue then .ok [⟨flag, some (.text "")⟩] else .error .wrong
  | c :: rest =>
    if flag.takesValue then .ok [⟨flag, some (.ofAttached (c :: rest))⟩]
    else
      match Flag.ofLetter? known c, rest with
      | none, _ => .error .wrong
      | some next, [] => .ok [⟨flag, none⟩, ⟨next, none⟩]
      | some next, rest => (letters known next rest).map (⟨flag, none⟩ :: ·)

/-- The options that an argument names. -/
def cluster (known : List Flag) : Word → Except Usage Cluster
  | long flag none | short flag none => .ok [⟨flag, none⟩]
  | long flag (some text) =>
    if flag.takesValue then .ok [⟨flag, some (.ofAttached text)⟩] else .error .wrong
  | short flag (some text) => letters known flag text
  | value | unknown | ambiguous => .ok []

end Word

end DiceTome.CommandLine
