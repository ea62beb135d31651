/-
  Script/Value.lean
  =================
  **Values.**

  What a program computes with.  Two values only pass through: `returned`
  carries the payload of a return statement to the function it leaves, and
  `error` carries a message past everything that would have used the value.
  Both are ordinary values all the same, and can be results.

  A function value is a literal together with the scope it closed over; its
  number tells it from every other function value of the run.
-/
import Script.Builtin
import Script.Expr
import Script.Table

namespace Script

/-! ### Kinds of value -/

inductive Kind where
  | integer
  | boolean
  | string
  | null
  | returned
  | error
  | function
  | builtin
  | array
  | table
deriving DecidableEq, Repr, Inhabited

/-- The name under which messages mention a kind. -/
def Kind.name : Kind → String
  | .integer => "INTEGER"
  | .boolean => "BOOLEAN"
  | .string => "STRING"
  | .null => "NULL"
  | .returned => "RETURN_VALUE"
  | .error => "ERROR"
  | .function => "FUNCTION"
  | .builtin => "BUILTIN"
  | .array => "ARRAY"
  | .table => "HASH"

def Kind.all : List Kind :=
  [.integer, .boolean, .string, .null, .returned, .error, .function, .builtin, .array, .table]

def Kind.ofName? (name : String) : Option Kind := Kind.all.find? fun kind => kind.name == name

theorem Kind.ofName?_name (kind : Kind) : Kind.ofName? kind.name = some kind := by
  cases kind <;> decide

/-! ### Keys -/

/-- How the text of a key is digested.  Texts that have one digest are one key:
    nothing else is compared. -/
class Digesting where
  digest : String → UInt64

/-- What tables go by: the kind of the key value, and a word that tells keys of one
    kind apart. -/
structure Key where
  kind : Kind
  digest : UInt64
deriving DecidableEq, Repr, Inhabited

/-! ### Values -/

/-- The number of a scope; see `Heap`. -/
abbrev ScopeId := Nat

inductive Value where
  | integer (n : Int64)
  | boolean (b : Bool)
  | string (text : String)
  | null
  | returned (payload : Value)
  | error (message : String)
  | function (number : Nat) (params : List String) (body : Block) (scope : ScopeId)
  | builtin (b : Builtin)
  | array (items : List Value)
  | table (entries : Table Key (Value × Value))

instance : Inhabited Value := ⟨.null⟩

/-- The entries of a table value: each key is stored with its value. -/
abbrev Entries := Table Key (Value × Value)

namespace Value

def kind : Value → Kind
  | .integer _ => .integer
  | .boolean _ => .boolean
  | .string _ => .string
  | .null => .null
  | .returned _ => .returned
  | .error _ => .error
  | .function .. => .function
  | .builtin _ => .builtin
  | .array _ => .array
  | .table _ => .table

/-- Only null and `false` count as false. -/
def truthy : Value → Bool
  | .null => false
  | .boolean b => b
  | _ => true

def isError : Value → Bool
  | .error _ => true
  | _ => false

/-- Whether a value ends the block it is the result of: an error, or the
    payload of a return. -/
def endsBlock : Value → Bool
  | .error _ | .returned _ => true
  | _ => false

/-- A value without the outermost layer that a return put around it. -/
def unreturned : Value → Value
  | .returned payload => payload
  | v => v

/-- The key a value stands for in a table; only integers, booleans and strings
    can be keys. -/
def key? [Digesting] : Value → Option Key
  | .integer n => some ⟨.integer, n.toUInt64⟩
  | .boolean b => some ⟨.boolean, if b then 1 else 0⟩
  | .string text => some ⟨.string, Digesting.digest text⟩
  | _ => none

end Value

end Script
