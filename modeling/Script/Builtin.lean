/-
  Script/Builtin.lean
  ===================
  **The built-in functions by name.**

  The list is fixed and ordered.  Two of the functions take any number of
  arguments and check them themselves; the others state how many they take.
-/
namespace Script

inductive Builtin where
  | len
  | type
  | print
  | exit
  | first
  | last
  | rest
  | push
  | keys
deriving DecidableEq, Repr, Inhabited

namespace Builtin

/-- Every built-in function, in the order in which they are listed. -/
def all : List Builtin := [.len, .type, .print, .exit, .first, .last, .rest, .push, .keys]

/-- The name under which a program finds a built-in function. -/
def name : Builtin → String
  | .len => "len"
  | .type => "type"
  | .print => "print"
  | .exit => "exit"
  | .first => "first"
  | .last => "last"
  | .rest => "rest"
  | .push => "push"
  | .keys => "keys"

/-- How many arguments a built-in function takes, if it is one number. -/
def arity? : Builtin → Option Nat
  | .print | .exit => none
  | .push => some 2
  | _ => some 1

/-- The built-in function of a given name. -/
def ofName? (name : String) : Option Builtin := all.find? fun b => b.name == name

theorem mem_all (b : Builtin) : b ∈ all := by cases b <;> decide

theorem ofName?_name (b : Builtin) : ofName? b.name = some b := by cases b <;> decide

end Builtin

end Script
