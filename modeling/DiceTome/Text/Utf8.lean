import DiceTome.Text.Quoted

/-!
# Bytes that are no text

Files hold UTF-8. Where the bytes of a file are no text, the message names the first bytes that
cannot be read and why.
-/

namespace DiceTome.Text

/-- Why some bytes cannot be read as a character. -/
inductive Utf8Fault where
  | invalidStart
  | invalidContinuation
  | unexpectedEnd
  deriving Repr, DecidableEq

/-- The text of the reason. -/
def Utf8Fault.text : Utf8Fault → String
  | invalidStart => "invalid start byte"
  | invalidContinuation => "invalid continuation byte"
  | unexpectedEnd => "unexpected end of data"

/-- The first bytes of a file that cannot be read: where they start, what they are and why. -/
structure Utf8Error where
  position : Nat
  bytes : List Nat
  fault : Utf8Fault
  deriving Repr, DecidableEq

/-- The text of the error. -/
def Utf8Error.message (e : Utf8Error) : String :=
  match e.bytes with
  | [b] =>
    let code := String.ofList (hexDigits 2 b)
    s!"'utf-8' codec can't decode byte 0x{code} in position {e.position}: {e.fault.text}"
  | bytes =>
    let last := e.position + bytes.length - 1
    s!"'utf-8' codec can't decode bytes in position {e.position}-{last}: {e.fault.text}"

/-- Whether a byte goes on with a character. -/
def isContinuation (b : Nat) : Bool :=
  0x80 ≤ b && b < 0xC0

/-- Whether the second byte of a character may follow its first. -/
def fitsStart (first second : Nat) : Bool :=
  isContinuation second &&
    (if first = 0xE0 then 0xA0 ≤ second
    else if first = 0xED then second < 0xA0
    else if first = 0xF0 then 0x90 ≤ second
    else if first = 0xF4 then second < 0x90
    else true)

/-- The number of bytes of a character, by its first byte; none for a byte that starts no
character. -/
def characterBytes (b : Nat) : Option Nat :=
  if b < 0x80 then some 1
  else if b < 0xC2 then none
  else if b < 0xE0 then some 2
  else if b < 0xF0 then some 3
  else if b < 0xF5 then some 4
  else none

/-- The bytes that cannot be read at the front of the rest of a character: `seen` are the bytes
before, and `wanted` is the number of bytes to come. -/
def continuationFault? (seen : List Nat) : Nat → List Nat → Option (List Nat × Utf8Fault)
  | 0, _ => none
  | _ + 1, [] => some (seen, .unexpectedEnd)
  | wanted + 1, b :: rest =>
    let fits :=
      match seen with
      | [first] => fitsStart first b
      | _ => isContinuation b
    if fits then continuationFault? (seen ++ [b]) wanted rest else some (seen, .invalidContinuation)

/-- The first bytes that cannot be read, from the byte at `position` on; `skip` bytes belong to the
character before. -/
def utf8ErrorFrom (position skip : Nat) : List Nat → Option Utf8Error
  | [] => none
  | b :: rest =>
    match skip, characterBytes b with
    | skip + 1, _ => utf8ErrorFrom (position + 1) skip rest
    | 0, none => some ⟨position, [b], .invalidStart⟩
    | 0, some count =>
      match continuationFault? [b] (count - 1) rest with
      | some (bytes, fault) => some ⟨position, bytes, fault⟩
      | none => utf8ErrorFrom (position + 1) (count - 1) rest

/-- The first bytes of a file that cannot be read. -/
def utf8Error? (bytes : List Nat) : Option Utf8Error :=
  utf8ErrorFrom 0 0 bytes

end DiceTome.Text
