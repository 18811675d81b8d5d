import DiceTome.File.Tree

/-!
# Texts that arrive in pieces

A file can be read piece by piece while its text is put to use. What is wrong with a later piece
then counts only once that piece is asked for. The bytes of a file are fetched in blocks, and the
text of the blocks is handed out in pieces.

* `Inflow.ofContent` gives the text of a file as far as it can be had.
-/

namespace DiceTome

/-- The text of a file as far as it can be had, and what is wrong with the bytes after it. -/
structure Inflow where
  text : List Char
  fault : Option Text.Utf8Error := none
  deriving Repr, DecidableEq

namespace Inflow

/-- The number of characters in a piece. -/
def pieceSize : Nat := 4096

/-- The least number of bytes in a block. -/
def blockSize : Nat := 8192

/-- The number of characters that are there before the one with a given number is asked for. The
first two pieces come together. -/
def before (position : Nat) : Nat :=
  let start := position / pieceSize * pieceSize
  if start < 2 * pieceSize then 0 else start

/-! ## Blocks -/

/-- Blocks being fetched: the bytes of an unfinished character and a carriage return at the end of
the last block, which wait for the next one, the number of characters so far, and the number of
bytes for each character of the last block. -/
structure Fetching where
  waiting : List Nat := []
  heldReturn : Bool := false
  count : Nat := 0
  ratio : Float := 0
  deriving Repr

/-- The number of characters that some bytes spell. A carriage return and a newline after it are one
character. -/
def characterCount : List Nat → Nat
  | [] => 0
  | 0x0D :: 0x0A :: rest => characterCount rest + 1
  | b :: rest => characterCount rest + if Text.isContinuation b then 0 else 1

/-- The number of bytes in the next block: as many as the rest of a piece will likely need. -/
def Fetching.size (f : Fetching) : Nat :=
  max blockSize (f.ratio * (pieceSize - f.count % pieceSize).toFloat).toUInt64.toNat

/-- What is known after a block with some number of bytes, which ended the given characters and left
bytes waiting. -/
def Fetching.after (f : Fetching) (length : Nat) (bytes waiting : List Nat) : Fetching :=
  let bytes := if f.heldReturn then 0x0D :: bytes else bytes
  let heldReturn := bytes.getLast? == some 0x0D
  let count := characterCount (if heldReturn then bytes.dropLast else bytes)
  { waiting, heldReturn
    count := f.count + count
    ratio := if count = 0 then 0 else length.toFloat / count.toFloat }

/-- Whether an error at the end of a block is left for the next block to decide: the bytes from its
position on are the start of a character or of a surrogate. -/
def isUnfinished (data : List Nat) (e : Text.Utf8Error) : Bool :=
  e.fault == .unexpectedEnd ||
    match data.drop e.position with
    | [0xED, b] => Text.isContinuation b
    | _ => false

/-- The first bytes that cannot be read, with the number of characters in the blocks before them.
Positions count from the first byte that waited for the block. -/
def faultFrom : Nat → Fetching → List Nat → Option (Nat × Text.Utf8Error)
  | 0, _, _ => none
  | steps + 1, f, bytes =>
    if bytes.isEmpty then (Text.utf8Error? f.waiting).map fun e => (f.count, e)
    else
      let block := bytes.take f.size
      let data := f.waiting ++ block
      let rest := bytes.drop f.size
      match Text.utf8Error? data with
      | none => faultFrom steps (f.after block.length data []) rest
      | some e =>
        if isUnfinished data e then
          let next := f.after block.length (data.take e.position) (data.drop e.position)
          faultFrom steps next rest
        else some (f.count, e)

/-- The first bytes of a file that cannot be read, with the number of characters before them. -/
def fault? (bytes : List Nat) : Option (Nat × Text.Utf8Error) :=
  faultFrom (bytes.length / blockSize + 2) {} bytes

/-! ## Files -/

/-- The text of the bytes in front of those that cannot be read. -/
def readable (bytes : List Nat) : List Char :=
  let stop := ((Text.utf8Error? bytes).map fun e => e.position).getD bytes.length
  let text := String.fromUTF8? ⟨((bytes.take stop).map UInt8.ofNat).toArray⟩
  Text.unifyNewlines (text.getD "").toList

/-- The text of a file as far as it can be had. -/
def ofContent : Content → Inflow
  | .text s => { text := Text.unifyNewlines s.toList }
  | .bytes bytes =>
    match fault? bytes with
    | none => { text := readable bytes }
    | some (count, e) => { text := (readable bytes).take (before count), fault := some e }

end Inflow

end DiceTome
