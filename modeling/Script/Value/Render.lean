/-
  Script/Value/Render.lean
  ========================
  **Values as text.**

  `Value.render` is what programs print: strings bare, functions as their
  literals, the payload of a return without its wrapper.  `Value.inspect` shows
  strings and messages between quotes and names the wrapper, at the top only.
-/
import Script.Expr.Render
import Script.Text.Quoted
import Script.Value

namespace Script

mutual

def Value.render : Value → String
  | .integer n => toString n.toInt
  | .boolean b => renderBool b
  | .string text => text
  | .null => "NULL"
  | .returned payload => payload.render
  | .error message => "ERROR: " ++ message
  | .function _ params body _ => (Expr.function params body).render
  | .builtin _ => "builtin function"
  | .array items => "[" ++ ", ".intercalate (Value.renderEach items) ++ "]"
  | .table ⟨entries⟩ => "\x7b" ++ ", ".intercalate (Value.renderEntries entries) ++ "\x7d"

def Value.renderEach : List Value → List String
  | [] => []
  | v :: rest => v.render :: Value.renderEach rest

/-- The texts of the entries of a table: the key as it was stored, and its
    value. -/
def Value.renderEntries : List (Key × (Value × Value)) → List String
  | [] => []
  | (_, (key, value)) :: rest =>
    (key.render ++ ": " ++ value.render) :: Value.renderEntries rest

end

/-- The detailed text of a value. -/
def Value.inspect [Escaping] : Value → String
  | .string text => "String(" ++ quoted text ++ ")"
  | .error message => "Error(" ++ quoted message ++ ")"
  | .returned payload => "ReturnValue(" ++ payload.inspect ++ ")"
  | v => v.render

end Script
