/-
  Script/Parse/Step.lean
  ======================
  **One step of the parser.**

  The parser climbs precedences over an explicit stack: it reads an operand,
  extends it as long as the next token binds more tightly than the floor of
  the innermost construct, and hands the whole expression to that construct.
  A fault is recorded and unwinds the stack to the statement list it occurred
  in; the statement is dropped and the list goes on at the next place where a
  statement can begin.

  Main statement: every step makes the state smaller
  (`ParseState.size_lt_of_step`), which is why parsing ends.
-/
import Script.Parse.Cursor
import Script.Parse.Stack
import Script.Text.Decimal

namespace Script

/-- What the parser does next: read an operand, extend an expression, hand a
    whole expression or a finished list of statements to the construct that
    waits for it, go on with a list of statements, or recover from a fault. -/
inductive ParseControl where
  | operand (floor : Precedence) (outer : ExprStack)
  | extend (floor : Precedence) (left : Expr) (outer : ExprStack)
  | whole (e : Expr) (outer : ExprStack)
  | statements (done : Block) (outer : BlockStack)
  | closed (block : Block) (outer : BlockStack)
  | failed (outer : ExprStack)

/-- The state of the parser: what to do next, where it stands, and the
    diagnostics recorded so far, in order. -/
structure ParseState where
  control : ParseControl
  cursor : Cursor
  diagnostics : List Diagnostic

namespace ParseState

/-- Go on with another control at another cursor. -/
def goto (s : ParseState) (control : ParseControl) (cursor : Cursor) : ParseState :=
  ⟨control, cursor, s.diagnostics⟩

def fail (s : ParseState) (outer : ExprStack) (cursor : Cursor) (d : Diagnostic) : ParseState :=
  ⟨.failed outer, cursor, s.diagnostics ++ [d]⟩

/-- Read a token of the given kind and go on behind it, or fail. -/
def require (s : ParseState) (kind : TokenKind) (outer : ExprStack) (cursor : Cursor)
    (next : Cursor → ParseState) : ParseState :=
  match cursor.expect kind with
  | .ok c => next c
  | .error d => s.fail outer cursor d

end ParseState

/-! ### Parameters -/

/-- The parameters of a function literal, from the first name to the closing
    parenthesis, behind those in `names`.  A fault keeps the cursor at which it
    was found. -/
def parameters (names : List String) (c : Cursor) :
    Except (Diagnostic × Cursor) (List String × Cursor) :=
  match _h : c.expect .identifier with
  | .error d => .error (d, c)
  | .ok c' =>
    let names := names ++ [c'.last.literal]
    if c'.peek.kind = .comma then parameters names c'.read
    else
      match c'.expect .rightParen with
      | .error d => .error (d, c')
      | .ok c'' => .ok (names, c'')
termination_by c.rest.length
decreasing_by
  exact Nat.lt_of_le_of_lt (Cursor.read_length_le _)
    (Cursor.expect_length_lt _h (by decide))

def parameterList (c : Cursor) : Except (Diagnostic × Cursor) (List String × Cursor) :=
  match c.expect .leftParen with
  | .error d => .error (d, c)
  | .ok c' => if c'.peek.kind = .rightParen then .ok ([], c'.read) else parameters [] c'

namespace ParseState

/-! ### Operands -/

/-- Read an operand, or the beginning of one. -/
def readOperand (s : ParseState) (floor : Precedence) (k : ExprStack) : ParseState :=
  let c := s.cursor.read
  let literal := c.last.literal
  match c.last.kind with
  | .identifier => s.goto (.extend floor (.identifier literal) k) c
  | .integer =>
    match integerOfLiteral? literal with
    | some n => s.goto (.extend floor (.integer n) k) c
    | none => s.fail k c ⟨.integerTooLarge literal, c.last.span⟩
  | .string => s.goto (.extend floor (.string literal) k) c
  | .trueWord => s.goto (.extend floor (.boolean true) k) c
  | .falseWord => s.goto (.extend floor (.boolean false) k) c
  | .bang => s.goto (.operand .unary (.operand .not floor k)) c
  | .minus => s.goto (.operand .unary (.operand .negate floor k)) c
  | .leftParen => s.goto (.operand .lowest (.group floor k)) c
  | .leftBracket =>
    if c.peek.kind = .rightBracket then s.goto (.extend floor (.array []) k) c.read
    else s.goto (.operand .lowest (.item [] floor k)) c
  | .leftBrace =>
    if c.peek.kind = .rightBrace then s.goto (.extend floor (.table []) k) c.read
    else s.goto (.operand .lowest (.key [] floor k)) c
  | .ifWord =>
    s.require .leftParen k c fun c => s.goto (.operand .lowest (.ifCondition floor k)) c
  | .whileWord =>
    s.require .leftParen k c fun c => s.goto (.operand .lowest (.whileCondition floor k)) c
  | .functionWord =>
    match parameterList c with
    | .error (d, c) => s.fail k c d
    | .ok (params, c) =>
      s.require .leftBrace k c fun c => s.goto (.statements [] (.functionBody params floor k)) c
  | kind => s.fail k c ⟨.noOperand kind, c.last.span⟩

/-! ### Extending an expression -/

/-- Extend an expression by the next token if it binds more tightly than the
    floor; otherwise the expression is whole. -/
def extendBy (s : ParseState) (floor : Precedence) (left : Expr) (k : ExprStack) : ParseState :=
  match s.cursor.peek.kind.extension? with
  | none => s.goto (.whole left k) s.cursor
  | some x =>
    if floor < x.precedence then
      let c := s.cursor.read
      match x with
      | .operator op => s.goto (.operand op.precedence (.right left op floor k)) c
      | .subscript => s.goto (.operand .lowest (.subscript left floor k)) c
      | .arguments =>
        if c.peek.kind = .rightParen then s.goto (.extend floor (.call left []) k) c.read
        else s.goto (.operand .lowest (.argument left [] floor k)) c
    else s.goto (.whole left k) s.cursor

/-! ### Handing over an expression -/

/-- Hand a whole expression to the construct that waits for it. -/
def deliver (s : ParseState) (e : Expr) : ExprStack → Option ParseState
  | .alone => none
  | .operand op floor k => some (s.goto (.extend floor (.unary op e) k) s.cursor)
  | .right left op floor k => some (s.goto (.extend floor (.binary left op e) k) s.cursor)
  | .group floor k =>
    some (s.require .rightParen k s.cursor fun c => s.goto (.extend floor e k) c)
  | .argument callee done floor k =>
    let done := done ++ [e]
    if s.cursor.peek.kind = .comma then
      some (s.goto (.operand .lowest (.argument callee done floor k)) s.cursor.read)
    else
      some (s.require .rightParen k s.cursor fun c => s.goto (.extend floor (.call callee done) k) c)
  | .item done floor k =>
    let done := done ++ [e]
    if s.cursor.peek.kind = .comma then
      some (s.goto (.operand .lowest (.item done floor k)) s.cursor.read)
    else
      some (s.require .rightBracket k s.cursor fun c => s.goto (.extend floor (.array done) k) c)
  | .subscript collection floor k =>
    some (s.require .rightBracket k s.cursor fun c =>
      s.goto (.extend floor (.index collection e) k) c)
  | .key done floor k =>
    some (s.require .colon k s.cursor fun c => s.goto (.operand .lowest (.value done e floor k)) c)
  | .value done key floor k =>
    let done := done ++ [(key, e)]
    if s.cursor.peek.kind = .rightBrace then
      some (s.goto (.extend floor (.table done) k) s.cursor.read)
    else
      some (s.require .comma k s.cursor fun c =>
        if c.peek.kind = .rightBrace then s.goto (.extend floor (.table done) k) c.read
        else s.goto (.operand .lowest (.key done floor k)) c)
  | .ifCondition floor k =>
    some (s.require .rightParen k s.cursor fun c => s.require .leftBrace k c fun c =>
      s.goto (.statements [] (.consequence e floor k)) c)
  | .whileCondition floor k =>
    some (s.require .rightParen k s.cursor fun c => s.require .leftBrace k c fun c =>
      s.goto (.statements [] (.loopBody e floor k)) c)
  | .statement head done k =>
    let c :=
      if head = .bare then
        if s.cursor.peek.kind = .semicolon then s.cursor.read else s.cursor
      else s.cursor.skipSemicolons
    some (s.goto (.statements (done ++ [head.complete e]) k) c)

/-! ### Statements -/

/-- Begin a statement: a binding, a rebinding, a return, or an expression. -/
def beginStatement (s : ParseState) (done : Block) (k : BlockStack) : ParseState :=
  let c := s.cursor.read
  match c.last.kind with
  | .letWord =>
    let dropped := ExprStack.statement .bare done k
    s.require .identifier dropped c fun c =>
      let name := c.last.literal
      s.require .assign dropped c fun c =>
        s.goto (.operand .lowest (.statement (.define name) done k)) c
  | .returnWord => s.goto (.operand .lowest (.statement .return done k)) c
  | .identifier =>
    if c.peek.kind = .assign then
      s.goto (.operand .lowest (.statement (.assign c.last.literal) done k)) c.read
    else s.readOperand .lowest (.statement .bare done k)
  | _ => s.readOperand .lowest (.statement .bare done k)

/-- Go on with a list of statements: close it, or begin the next statement.
    The end of the text closes a block too, with a fault. -/
def nextStatement (s : ParseState) (done : Block) (k : BlockStack) : ParseState :=
  match s.cursor.rest with
  | [] =>
    if k.isBlock then
      ⟨.closed done k, s.cursor.read,
        s.diagnostics ++ [⟨.unexpected .rightBrace .endOfInput, s.cursor.stop⟩]⟩
    else s.goto (.closed done k) s.cursor
  | t :: _ =>
    if k.isBlock ∧ t.kind = .rightBrace then s.goto (.closed done k) s.cursor.read
    else s.beginStatement done k

/-- Hand a list of statements to the construct that waits for it. -/
def deliverBlock (s : ParseState) (block : Block) : BlockStack → Option ParseState
  | .program => none
  | .consequence condition floor k =>
    if s.cursor.peek.kind = .elseWord then
      some (s.require .leftBrace k s.cursor.read fun c =>
        s.goto (.statements [] (.alternative condition block floor k)) c)
    else some (s.goto (.extend floor (.conditional condition block none) k) s.cursor)
  | .alternative condition consequence floor k =>
    some (s.goto (.extend floor (.conditional condition consequence (some block)) k) s.cursor)
  | .loopBody condition floor k =>
    some (s.goto (.extend floor (.loop condition block) k) s.cursor)
  | .functionBody params floor k =>
    some (s.goto (.extend floor (.function params block) k) s.cursor)

/-- Drop the statement around a fault and resume its list.  A closing brace
    that was read last closes a block. -/
def recover (s : ParseState) (k : ExprStack) : Option ParseState :=
  match k.enclosing? with
  | none => none
  | some (done, outer) =>
    let c := s.cursor.resume
    if outer.isBlock ∧ c.last.kind = .rightBrace then some (s.goto (.closed done outer) c)
    else some (s.goto (.statements done outer) c)

/-- One step, unless the parser has finished: the program is closed, the
    expression that was wanted for itself is whole, or it failed. -/
def step? (s : ParseState) : Option ParseState :=
  match s.control with
  | .operand floor k => some (s.readOperand floor k)
  | .extend floor left k => some (s.extendBy floor left k)
  | .whole e k => s.deliver e k
  | .statements done k => some (s.nextStatement done k)
  | .closed block k => s.deliverBlock block k
  | .failed k => s.recover k

end ParseState

end Script
