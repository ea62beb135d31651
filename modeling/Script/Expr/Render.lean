/-
  Script/Expr/Render.lean
  =======================
  **The canonical text of programs.**

  Operators stand in parentheses together with their operands, so no reader
  needs to know how tightly they bind; calls, conditionals, loops and function
  literals stand bare.  Strings are written between quotes as they are.
  Statements are separated by semicolons, and an empty block keeps a blank
  between its braces, which tells it from an empty table.
-/
import Script.Expr

namespace Script

/-- A boolean as the language writes it. -/
def renderBool (b : Bool) : String := if b then "true" else "false"

/-- A block, given the texts of its statements. -/
def bracedBlock (statements : List String) : String :=
  match statements with
  | [] => "\x7b \x7d"
  | _ => "\x7b " ++ "; ".intercalate statements ++ " \x7d"

mutual

def Expr.render : Expr → String
  | .identifier name => name
  | .integer value => toString value.toInt
  | .string text => "\"" ++ text ++ "\""
  | .boolean value => renderBool value
  | .unary op operand => "(" ++ op.symbol ++ operand.render ++ ")"
  | .binary left op right =>
    "(" ++ left.render ++ " " ++ op.symbol ++ " " ++ right.render ++ ")"
  | .conditional condition consequence alternative =>
    "if (" ++ condition.render ++ ") " ++ bracedBlock (Block.renderEach consequence)
      ++ Block.renderElse alternative
  | .loop condition body =>
    "while (" ++ condition.render ++ ") " ++ bracedBlock (Block.renderEach body)
  | .function params body =>
    "fn(" ++ ", ".intercalate params ++ ") " ++ bracedBlock (Block.renderEach body)
  | .call callee args => callee.render ++ "(" ++ ", ".intercalate (Expr.renderEach args) ++ ")"
  | .array items => "[" ++ ", ".intercalate (Expr.renderEach items) ++ "]"
  | .table pairs => "\x7b" ++ ", ".intercalate (Expr.renderPairs pairs) ++ "\x7d"
  | .index collection index => "(" ++ collection.render ++ "[" ++ index.render ++ "])"

/-- The text of a statement, without the semicolon that may follow it. -/
def Stmt.render : Stmt → String
  | .define name value => "let " ++ name ++ " = " ++ value.render
  | .assign name value => name ++ " = " ++ value.render
  | .return value => "return " ++ value.render
  | .bare expr => expr.render
  | .block body => bracedBlock (Block.renderEach body)

def Block.renderEach : List Stmt → List String
  | [] => []
  | s :: rest => s.render :: Block.renderEach rest

/-- The text of the alternative of a conditional, if it has one. -/
def Block.renderElse : Option (List Stmt) → String
  | none => ""
  | some body => " else " ++ bracedBlock (Block.renderEach body)

def Expr.renderEach : List Expr → List String
  | [] => []
  | e :: rest => e.render :: Expr.renderEach rest

/-- The texts of the pairs of a table literal. -/
def Expr.renderPairs : List (Expr × Expr) → List String
  | [] => []
  | (key, value) :: rest => (key.render ++ ": " ++ value.render) :: Expr.renderPairs rest

end

def Block.render (body : Block) : String := bracedBlock (Block.renderEach body)

def Program.render (p : Program) : String := "; ".intercalate (Block.renderEach p.statements)

end Script
