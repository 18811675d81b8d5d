import DiceTome.Arena
import DiceTome.Token.Scan

/-!
# Parsing

The parser reads tokens one at a time and builds an arena with two stacks, one of operators and one
of operands. An expression in parentheses is parsed on the same stacks above a floor; the items of a
list, the arguments of a call and the parts of a conditional get stacks of their own, while the
enclosing ones wait in a frame.

* `Parse.State.step` takes one token; an expression that cannot go on with the token is complete.
* `Arena.parse` parses one expression that uses every token.
* `Arena.parseTome` parses one expression after another until the tokens are used up.
-/

namespace DiceTome

/-- What the grammar asks for where something else is found. -/
inductive Expected where
  | expression
  | closer (d : Delimiter)
  | commaOrCloser (d : Delimiter)
  | thenKeyword
  deriving Repr, DecidableEq

def Expected.text : Expected → String
  | expression => "an expression"
  | closer d => s!"'{d.char}'"
  | commaOrCloser d => s!"',' or '{d.char}'"
  | thenKeyword => "'then'"

/-- What makes a list of tokens no expression. The last case would mean that an operator lacked an
operand on the stack. -/
inductive ParseError where
  | unexpectedToken (found : Token) (expected : Expected)
  | unexpectedEnd (expected : Expected) (last : Option Token)
  | unmatched (delimiter : Token)
  | keywordWithoutIf (keyword : Token)
  | unconsumed (found : Token)
  | emptyStack
  deriving Repr, BEq

namespace ParseError

/-- The text of the error. -/
def message : ParseError → String
  | unexpectedToken found expected => s!"expected {expected.text}, found '{found.lexeme}'"
  | unexpectedEnd expected _ => s!"unexpected end of input, expected {expected.text}"
  | unmatched delimiter => s!"unmatched '{delimiter.lexeme}'"
  | keywordWithoutIf keyword => s!"'{keyword.lexeme}' without a preceding 'if'"
  | unconsumed found => s!"input not fully consumed, stopped at '{found.lexeme}'"
  | emptyStack => "pop from empty list"

/-- The token that the error is about. -/
def token? : ParseError → Option Token
  | unexpectedToken found _ => some found
  | unexpectedEnd _ last => last
  | unmatched delimiter => some delimiter
  | keywordWithoutIf keyword => some keyword
  | unconsumed found => some found
  | emptyStack => none

/-- The number of the diagnostic. -/
def code? : ParseError → Option String
  | unexpectedToken _ _ => some "E101"
  | unexpectedEnd _ _ => some "E102"
  | unmatched _ => some "E103"
  | keywordWithoutIf _ => some "E104"
  | unconsumed _ => some "E105"
  | emptyStack => none

/-- What may help with the error. -/
def hints : ParseError → List String
  | unconsumed _ => ["use ';' to sequence several expressions on one line"]
  | _ => []

/-- The numbered message about the error; the source text, if it is given, provides the line to
quote. -/
def diagnostic? (source : Option String) (e : ParseError) : Option Diagnostic :=
  e.code?.map fun code => {
    code
    message := e.message
    span := e.token?.map Token.span
    sourceLine := do Text.line? (← source) (← e.token?).span.start.line.toNat
    hints := e.hints }

end ParseError

namespace Parse

/-! ## Stacks -/

/-- The stacks of an expression in progress, the top of each first. -/
structure Stacks where
  operators : List Operator := [.floor]
  operands : List Nat := []
  deriving Repr, DecidableEq

/-- The arena built so far and the stacks in use. -/
structure Work where
  arena : Arena := {}
  stack : Stacks := {}
  deriving Repr, BEq

namespace Work

/-- Appends a node and makes it an operand. -/
def pushNode (w : Work) (node : Node) : Work :=
  ⟨w.arena.push node, w.stack.operators, w.arena.size :: w.stack.operands⟩

/-- Puts an operator on its stack. -/
def pushOperator (w : Work) (op : Operator) : Work :=
  { w with stack.operators := op :: w.stack.operators }

/-- Replaces the operands of an operator by the node it makes of them. -/
def apply (w : Work) (op : Operator) : Except ParseError Work :=
  match op, w.stack.operands with
  | .binary op, rhs :: lhs :: rest =>
    .ok (pushNode { w with stack.operands := rest } (.binary op lhs rhs))
  | .unary op, operand :: rest =>
    .ok (pushNode { w with stack.operands := rest } (.unary op operand))
  | _, _ => .error .emptyStack

/-- Reduces operators from the top of the given stack as long as they meet a condition; `w` holds
the other stack, and its own operators are replaced. -/
def reduceFrom (p : Operator → Bool) : List Operator → Work → Except ParseError Work
  | [], _ => .error .emptyStack
  | top :: ops, w =>
    if p top then do reduceFrom p ops (← w.apply top)
    else .ok { w with stack.operators := top :: ops }

/-- Reduces operators as long as they meet a condition. -/
def reduceWhile (p : Operator → Bool) (w : Work) : Except ParseError Work :=
  reduceFrom p w.stack.operators w

/-- Takes up an operator that stands after an operand: what binds tighter is reduced first, a
postfix operator is applied at once, and a binary one waits for its right operand. -/
def takeOperator (w : Work) (op : Operator) : Except ParseError Work := do
  let w ← w.reduceWhile (·.reducesBefore op)
  if op.isUnaryPostfix then w.apply op else return w.pushOperator op

/-- Reduces every operator above the floor. -/
def drain (w : Work) : Except ParseError Work :=
  w.reduceWhile (· != .floor)

/-- The operand on top of the stack. -/
def top (w : Work) : Except ParseError Nat :=
  match w.stack.operands with
  | operand :: _ => .ok operand
  | [] => .error .emptyStack

/-- The arena with fresh stacks. -/
def fresh (w : Work) : Work :=
  { arena := w.arena }

/-- The arena with the given stacks and a new operand on them. -/
def resume (w : Work) (outer : Stacks) (node : Node) : Work :=
  pushNode { arena := w.arena, stack := outer } node

end Work

/-! ## Frames -/

/-- An enclosing expression that waits for the one in progress: behind an opening parenthesis;
behind the opening delimiter of a list or call with the items read so far; or behind `if`, `then` or
`else`. -/
inductive Frame where
  | group (opening : Token)
  | items (opening : Token) (callee : Option String) (done : List Nat) (outer : Stacks)
  | condition (outer : Stacks)
  | consequent (condition : Nat) (outer : Stacks)
  | alternative (condition consequent : Nat) (outer : Stacks)
  deriving Repr, BEq

/-- What the next token is to be: the first item of a list, if there is one; an operand; whatever
follows a name, which makes it a call or not; or whatever follows an operand. -/
inductive Mode where
  | firstItem
  | operand
  | name (n : String)
  | operator
  deriving Repr, DecidableEq

/-- A parse in progress. -/
structure State where
  work : Work := {}
  frames : List Frame := []
  mode : Mode := .operand
  deriving Repr, BEq

/-- What a token does to a parse: it is taken, or the expression was complete before it. -/
inductive Verdict where
  | shift (s : State)
  | stop (a : Arena)
  deriving Repr, BEq

/-- The delimiter that closes what a token has opened. -/
def closerOf (opening : Token) : Delimiter :=
  if opening.kind == .delimiter .bracketOpen then .bracketClose else .parenClose

/-- A list, or a call of the given function. -/
def itemsNode (callee : Option String) (items : List Nat) : Node :=
  match callee with
  | none => .list items
  | some callee => .call callee items

/-- A token that is a given delimiter. -/
def isDelimiter (t : Token) (d : Delimiter) : Bool :=
  match t.kind with
  | .delimiter e => e = d
  | _ => false

/-- A token that is a given word. -/
def isWord (t : Token) (word : String) : Bool :=
  match t.kind with
  | .identifier name => name = word
  | _ => false

/-! ## Taking tokens -/

namespace State

/-- The parse after an operand. -/
def afterOperand (frames : List Frame) (work : Work) : State :=
  ⟨work, frames, .operator⟩

/-- Opens a list or the arguments of a call. -/
def openItems (s : State) (opening : Token) (callee : Option String) : State :=
  ⟨s.work.fresh, .items opening callee [] s.work.stack :: s.frames, .firstItem⟩

/-- Takes a token where an operand is due. -/
def takeOperand (s : State) (t : Token) : Except ParseError State :=
  let literal (l : Literal) : Except ParseError State :=
    .ok (afterOperand s.frames (s.work.pushNode (.literal l)))
  match t.kind with
  | .natural n => literal (.natural n)
  | .decimal x => literal (.decimal x)
  | .roll quantity die => literal (.roll quantity die)
  | .string text => literal (.string text)
  | .identifier "if" => .ok ⟨s.work.fresh, .condition s.work.stack :: s.frames, .operand⟩
  | .identifier "then" | .identifier "else" => .error (.keywordWithoutIf t)
  | .identifier "true" => literal (.bool true)
  | .identifier "false" => literal (.bool false)
  | .identifier n => .ok { s with mode := .name n }
  | .operator op =>
    let op := if op = .binary .sub then .unary .neg else op
    if op.isUnaryPrefix then .ok { s with work := s.work.pushOperator op, mode := .operand }
    else .error (.unexpectedToken t .expression)
  | .delimiter .parenOpen => .ok ⟨s.work.pushOperator .floor, .group t :: s.frames, .operand⟩
  | .delimiter .bracketOpen => .ok (s.openItems t none)
  | .delimiter _ => .error (.unexpectedToken t .expression)

/-- Takes a token that cannot go on with a complete expression, which the innermost frame waits
for. A conditional that the token does not go on with is complete as well, and then what encloses
it. -/
def settle (t : Token) : List Frame → Work → Except ParseError Verdict
  | [], w => .ok (.stop w.arena)
  | .group opening :: frames, w =>
    if isDelimiter t (closerOf opening) then
      .ok (.shift (afterOperand frames { w with stack.operators := w.stack.operators.tail }))
    else .error (.unexpectedToken t (.closer (closerOf opening)))
  | .items opening callee done outer :: frames, w => do
    let items := done ++ [← w.top]
    if isDelimiter t .comma then
      return .shift ⟨w.fresh, .items opening callee items outer :: frames, .operand⟩
    else if isDelimiter t (closerOf opening) then
      return .shift (afterOperand frames (w.resume outer (itemsNode callee items)))
    else throw (.unexpectedToken t (.commaOrCloser (closerOf opening)))
  | .condition outer :: frames, w => do
    if isWord t "then" then
      return .shift ⟨w.fresh, .consequent (← w.top) outer :: frames, .operand⟩
    else throw (.unexpectedToken t .thenKeyword)
  | .consequent condition outer :: frames, w => do
    if isWord t "else" then
      return .shift ⟨w.fresh, .alternative condition (← w.top) outer :: frames, .operand⟩
    else
      let w := w.resume outer (.conditional condition (← w.top) none)
      settle t frames (← w.drain)
  | .alternative condition consequent outer :: frames, w => do
    let w := w.resume outer (.conditional condition consequent (some (← w.top)))
    settle t frames (← w.drain)

/-- Takes a token behind an operand. -/
def takeOperator (frames : List Frame) (w : Work) (t : Token) : Except ParseError Verdict := do
  match t.kind with
  | .operator op =>
    if op.isUnaryPostfix then
      return .shift (afterOperand frames (← w.takeOperator op))
    else if op.isBinary then
      return .shift ⟨← w.takeOperator op, frames, .operand⟩
    else settle t frames (← w.drain)
  | _ => settle t frames (← w.drain)

/-- Takes one token. -/
def step (s : State) (t : Token) : Except ParseError Verdict :=
  match s.mode with
  | .operand => .shift <$> s.takeOperand t
  | .firstItem =>
    match s.frames with
    | .items opening callee _ outer :: frames =>
      if isDelimiter t (closerOf opening) then
        .ok (.shift (afterOperand frames (s.work.resume outer (itemsNode callee []))))
      else .shift <$> s.takeOperand t
    | _ => .shift <$> s.takeOperand t
  | .name n =>
    if isDelimiter t .parenOpen then .ok (.shift (s.openItems t (some n)))
    else takeOperator s.frames (s.work.pushNode (.name n)) t
  | .operator => takeOperator s.frames s.work t

/-- Ends the expressions that wait for the one in progress, where the tokens have run out. -/
def finishFrames (last : Option Token) : List Frame → Work → Except ParseError Arena
  | [], w => .ok w.arena
  | .group opening :: _, _ => .error (.unmatched opening)
  | .items opening _ _ _ :: _, _ => .error (.unmatched opening)
  | .condition _ :: _, _ => .error (.unexpectedEnd .thenKeyword last)
  | .consequent condition outer :: frames, w => do
    let w := w.resume outer (.conditional condition (← w.top) none)
    finishFrames last frames (← w.drain)
  | .alternative condition consequent outer :: frames, w => do
    let w := w.resume outer (.conditional condition consequent (some (← w.top)))
    finishFrames last frames (← w.drain)

/-- Ends the parse where the tokens have run out; `last` is the last of them all. -/
def finish (last : Option Token) (s : State) : Except ParseError Arena := do
  match s.mode with
  | .operand | .firstItem => throw (.unexpectedEnd .expression last)
  | .name n => finishFrames last s.frames (← (s.work.pushNode (.name n)).drain)
  | .operator => finishFrames last s.frames (← s.work.drain)

/-- Takes tokens until the expression is complete, and gives the tokens that are left. -/
def run (last : Option Token) : List Token → State → Except ParseError (Arena × List Token)
  | [], s => return (← s.finish last, [])
  | t :: ts, s => do
    match ← s.step t with
    | .shift s => run last ts s
    | .stop a => return (a, t :: ts)

end State

/-- Parses one expression from the front of some tokens, and gives the tokens that are left. -/
def statement (tokens : List Token) : Except ParseError (Arena × List Token) :=
  State.run tokens.getLast? tokens {}

/-- The error about a token that cannot go on with a complete expression. -/
def leftover (t : Token) : ParseError :=
  match t.kind with
  | .delimiter d => if d.isCloser then .unmatched t else .unconsumed t
  | .identifier "then" | .identifier "else" => .keywordWithoutIf t
  | _ => .unconsumed t

theorem State.length_le_of_run {last : Option Token} {ts : List Token} {s : State} {a : Arena}
    {rest : List Token} (h : State.run last ts s = .ok (a, rest)) : rest.length ≤ ts.length := by
  induction ts generalizing s with
  | nil =>
    simp only [State.run, bind, Except.bind, pure, Except.pure] at h
    split at h <;> simp_all
  | cons t ts ih =>
    simp only [State.run, bind, Except.bind, pure, Except.pure] at h
    split at h
    · cases h
    · split at h
      · have := ih h
        simp only [List.length_cons]
        omega
      · cases h
        exact Nat.le_refl _

/-- A statement takes its first token, whatever follows. -/
theorem length_lt_of_statement {t : Token} {ts : List Token} {a : Arena} {rest : List Token}
    (h : statement (t :: ts) = .ok (a, rest)) : rest.length < (t :: ts).length := by
  simp only [statement, State.run, State.step, bind, Except.bind, pure, Except.pure] at h
  split at h
  · cases h
  · rename_i v hv
    split at h
    · have := State.length_le_of_run h
      simp only [List.length_cons]
      omega
    · cases hs : State.takeOperand {} t <;> simp [hs, Functor.map, Except.map] at hv

end Parse

namespace Arena

/-- Parses one expression that uses every token. -/
def parse (tokens : List Token) : Except ParseError Arena := do
  match ← Parse.statement tokens with
  | (a, []) => return a
  | (_, t :: _) => throw (Parse.leftover t)

/-- Parses expressions one after another until every token is used. -/
def parseTome (tokens : List Token) : Except ParseError (List Arena) :=
  match tokens with
  | [] => .ok []
  | t :: ts =>
    match t.kind with
    | .delimiter .parenClose | .delimiter .bracketClose => .error (.unmatched t)
    | _ =>
      match _h : Parse.statement (t :: ts) with
      | .error e => .error e
      | .ok (a, rest) => do return a :: (← parseTome rest)
termination_by tokens.length
decreasing_by exact Parse.length_lt_of_statement _h

end Arena

end DiceTome
