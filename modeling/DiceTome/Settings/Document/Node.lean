import DiceTome.Settings.Document.Scan

/-!
# Nodes of settings documents

A document is a tree of nodes: scalars, lists and maps. The tree is read from the tokens of the
document, and gives a datum once its scalars have values.

* `Document.Node.ofTokens` reads the tree.
* `Document.Node.datum` gives the datum.
-/

namespace DiceTome.Document

/-- A node of a document and the place where it starts. -/
inductive Node where
  | scalar (text : String) (isPlain : Bool) (mark : Mark)
  | list (items : List Node) (mark : Mark)
  | map (pairs : List (Node × Node)) (mark : Mark)
  deriving Repr

namespace Node

/-- Where a node starts. -/
def mark : Node → Mark
  | scalar _ _ mark | list _ mark | map _ mark => mark

/-- The node that stands for nothing. -/
def empty (mark : Mark) : Node :=
  scalar "" true mark

/-! ## Reading tokens -/

/-- A step of reading, over the tokens that are left. -/
abbrev Reading := StateT Scanned (Except DocumentError)

/-- The next token. If there is none, what ended the scanning ends the reading. -/
def peek : Reading Token := do
  let s ← get
  match s.tokens, s.fault with
  | t :: _, _ => return t
  | [], some e => throw e
  | [], none => return ⟨.streamEnd, {}, {}⟩

/-- The kind of the next token. -/
def peekKind : Reading TokenKind := do
  return (← peek).kind

/-- Moves past the next token. -/
def next : Reading Token := do
  let t ← peek
  modify fun s => { s with tokens := s.tokens.drop 1 }
  return t

/-- Moves past the next token if it is of some kind, and tells whether it was. -/
def nextIf (kind : TokenKind) : Reading Bool := do
  if (← peekKind) == kind then
    let _ ← next
    return true
  else return false

/-- Fails at the next token, which does not carry on a collection. -/
def unfinished (what : Collection) (start : Mark) : Reading α := do
  let t ← peek
  throw (.unfinished what start t.kind.name t.start)

mutual

/-- A node on lines. A list may start in the column of the collection it is in if it is `level`. -/
def blockNode : Nat → (level : Bool) → Reading Node
  | 0, _ => do return .empty (← peek).start
  | steps + 1, level => do
    match ← peekKind with
    | .blockListStart => blockItems steps (← next).start []
    | .blockMapStart => blockPairs steps (← next).start []
    | .blockEntry =>
      if level then levelItems steps (← peek).start [] else flowNode steps false
    | _ => flowNode steps false

/-- A scalar, or a collection between brackets. -/
def flowNode : Nat → (inBrackets : Bool) → Reading Node
  | 0, _ => do return .empty (← peek).start
  | steps + 1, inBrackets => do
    let t ← peek
    match t.kind with
    | .scalar text isPlain =>
      let _ ← next
      return .scalar text isPlain t.start
    | .flowListStart => flowItems steps (← next).start []
    | .flowMapStart => flowPairs steps (← next).start []
    | kind => throw (.noContent inBrackets kind.name t.start)

/-- A node on lines, or nothing if a token of some kinds comes next. -/
def blockNodeUnless : Nat → (level : Bool) → List TokenKind → Mark → Reading Node
  | 0, _, _, mark => return .empty mark
  | steps + 1, level, kinds, mark => do
    if kinds.contains (← peekKind) then return .empty mark else blockNode steps level

/-- A node between brackets, or nothing if a token of some kinds comes next. -/
def flowNodeUnless : Nat → List TokenKind → Mark → Reading Node
  | 0, _, mark => return .empty mark
  | steps + 1, kinds, mark => do
    if kinds.contains (← peekKind) then return .empty mark else flowNode steps true

/-- The items of a list on lines, after those that were read. -/
def blockItems : Nat → Mark → List Node → Reading Node
  | 0, start, items => return .list items start
  | steps + 1, start, items => do
    match ← peekKind with
    | .blockEntry =>
      let dash ← next
      let item ← blockNodeUnless steps false [.blockEntry, .blockEnd] dash.stop
      blockItems steps start (items ++ [item])
    | .blockEnd =>
      let _ ← next
      return .list items start
    | _ => unfinished .blockList start

/-- The items of a list that is level with the map it is in, after those that were read. -/
def levelItems : Nat → Mark → List Node → Reading Node
  | 0, start, items => return .list items start
  | steps + 1, start, items => do
    match ← peekKind with
    | .blockEntry =>
      let dash ← next
      let item ← blockNodeUnless steps false [.blockEntry, .key, .value, .blockEnd] dash.stop
      levelItems steps start (items ++ [item])
    | _ => return .list items start

/-- The pairs of a map on lines, after those that were read. -/
def blockPairs : Nat → Mark → List (Node × Node) → Reading Node
  | 0, start, pairs => return .map pairs start
  | steps + 1, start, pairs => do
    match ← peekKind with
    | .key =>
      let sign ← next
      let key ← blockNodeUnless steps true [.key, .value, .blockEnd] sign.stop
      let value ← blockValue steps
      blockPairs steps start (pairs ++ [(key, value)])
    | .blockEnd =>
      let _ ← next
      return .map pairs start
    | _ => unfinished .blockMap start

/-- The value of a pair of a map on lines. -/
def blockValue : Nat → Reading Node
  | 0 => do return .empty (← peek).start
  | steps + 1 => do
    let t ← peek
    if ← nextIf .value then blockNodeUnless steps true [.key, .value, .blockEnd] t.stop
    else return .empty t.start

/-- The items of a list between brackets, after those that were read. An item with a colon is a map
with a single pair. -/
def flowItems : Nat → Mark → List Node → Reading Node
  | 0, start, items => return .list items start
  | steps + 1, start, items => do
    if ← nextIf .flowListEnd then return .list items start
    if !items.isEmpty then
      if !(← nextIf .flowEntry) then unfinished .flowList start
    if ← nextIf .flowListEnd then return .list items start
    let item ←
      if (← peekKind) == .key then do
        let sign ← next
        let key ← flowNodeUnless steps [.value, .flowEntry, .flowListEnd] sign.stop
        let value ← flowValue steps [.flowEntry, .flowListEnd]
        pure (Node.map [(key, value)] sign.start)
      else flowNode steps true
    flowItems steps start (items ++ [item])

/-- The pairs of a map between brackets, after those that were read. -/
def flowPairs : Nat → Mark → List (Node × Node) → Reading Node
  | 0, start, pairs => return .map pairs start
  | steps + 1, start, pairs => do
    if ← nextIf .flowMapEnd then return .map pairs start
    if !pairs.isEmpty then
      if !(← nextIf .flowEntry) then unfinished .flowMap start
    if ← nextIf .flowMapEnd then return .map pairs start
    let pair ←
      if (← peekKind) == .key then do
        let sign ← next
        let key ← flowNodeUnless steps [.value, .flowEntry, .flowMapEnd] sign.stop
        let value ← flowValue steps [.flowEntry, .flowMapEnd]
        pure (key, value)
      else do
        let key ← flowNode steps true
        pure (key, Node.empty (← peek).start)
    flowPairs steps start (pairs ++ [pair])

/-- The value of a pair between brackets, which ends at a token of some kinds. -/
def flowValue : Nat → List TokenKind → Reading Node
  | 0, _ => do return .empty (← peek).start
  | steps + 1, kinds => do
    let t ← peek
    if ← nextIf .value then flowNodeUnless steps kinds t.stop else return .empty t.start

end

/-- Moves past the tokens that end a document. -/
def skipDocumentEnds : Nat → Reading Unit
  | 0 => return ()
  | steps + 1 => do if ← nextIf .documentEnd then skipDocumentEnds steps

/-- The tree of the only document, or nothing if there is none. -/
def onlyDocument (steps : Nat) : Reading (Option Node) := do
  let first ← peek
  if first.kind == .streamEnd then return none
  let root ←
    if first.kind == .documentStart then do
      let _ ← next
      blockNodeUnless steps false [.documentStart, .documentEnd, .streamEnd] (← peek).start
    else blockNode steps false
  skipDocumentEnds steps
  let t ← peek
  match t.kind with
  | .streamEnd => return some root
  | .documentStart => throw (.secondDocument root.mark t.start)
  | kind => throw (.noDocumentStart kind.name t.start)

/-- The tree that the tokens of a document spell. -/
def ofTokens (s : Scanned) : Except DocumentError (Option Node) :=
  (onlyDocument (4 * s.tokens.length + 4)).run' s

/-! ## Values -/

/-- The word for a node in messages. -/
def kindName : Node → String
  | scalar _ _ _ => "scalar"
  | list _ _ => "sequence"
  | map _ _ => "mapping"

/-- Whether a node is a plain scalar with some text. -/
def isPlain (text : String) : Node → Bool
  | scalar t true _ => t == text
  | _ => false

/-- The value of a scalar. -/
def scalarDatum (text : String) (isPlain : Bool) (mark : Mark) : Except DocumentError Datum :=
  if !isPlain then .ok (.text text)
  else
    match Scalar.reserved.lookup text with
    | some use => .error (.reservedScalar use mark)
    | none => (Scalar.resolve text).mapError .scalar

/-- Fails if a scalar has no value. -/
def requireValue : Node → Except DocumentError Unit
  | scalar text isPlain mark => do let _ ← scalarDatum text isPlain mark
  | _ => .ok ()

/-- A key as a node: the sign that is set aside for values is a text here. -/
def asKey (key : Node) : Node :=
  match key with
  | scalar "=" true mark => scalar "=" false mark
  | key => key

/-- Fails if one of the scalars in a map has no value, or if a collection is a key. -/
def requirePairs (start : Mark) : List (Node × Node) → Except DocumentError Unit
  | [] => .ok ()
  | (key, value) :: pairs => do
    match key with
    | scalar _ _ _ => requireValue key
    | _ => throw (.unhashableKey start key.mark)
    requireValue value
    requirePairs start pairs

/-- The pairs that are merged into a map, and those of its own. Maps are merged by pairs whose key
is the sign for it; of several maps in a list the first counts most. -/
def mergedPairs (start : Mark) (steps : Nat) (pairs : List (Node × Node)) :
    Except DocumentError (List (Node × Node)) :=
  match steps with
  | 0 => .ok pairs
  | steps + 1 => do
    let parts ← pairs.mapM fun (key, value) =>
      if key.isPlain "<<" then do
        match value with
        | map inner mark => return (← mergedPairs mark steps inner, [])
        | list items _ =>
          let merged ← items.mapM fun
            | map inner mark => mergedPairs mark steps inner
            | item => throw (.notMergeable true item.kindName start item.mark)
          return (merged.reverse.flatten, [])
        | value => throw (.notMergeable false value.kindName start value.mark)
      else return ([], [(key.asKey, value)])
    return parts.flatMap Prod.fst ++ parts.flatMap Prod.snd

/-- The datum of a node. The scalars in a collection get their values before the collections in
it. -/
def datum : Nat → Node → Except DocumentError Datum
  | 0, _ => .ok .null
  | _ + 1, scalar text isPlain mark => scalarDatum text isPlain mark
  | steps + 1, list items _ => do
    items.forM requireValue
    return .list (← items.mapM (datum steps))
  | steps + 1, map pairs mark => do
    let pairs ← mergedPairs mark steps pairs
    requirePairs mark pairs
    let data ← pairs.mapM fun (key, value) => do
      return (← datum steps key, ← datum steps value)
    return .map (data.foldl (fun done (key, d) => Datum.put done key d) [])

end Node

end DiceTome.Document
