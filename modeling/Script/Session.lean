/-
  Script/Session.lean
  ===================
  **Evaluation sessions.**

  A session keeps a store and a root scope, so that what one text binds is
  there for the next.  Every evaluation answers with its outcome and with what
  it printed.  Programs may run for ever: each function takes the number of
  steps that may be spent, and answers nothing when they do not suffice.
-/
import Script.Eval.Step
import Script.Parse

namespace Script

/-- How an evaluation ended, and what it printed. -/
structure Answer where
  outcome : Outcome
  printed : String

/-- A store between evaluations, and the root scope of what is evaluated. -/
structure Session where
  store : Store
  root : ScopeId

/-- An outcome without the layer that a return put around its value. -/
def Outcome.unreturned : Outcome → Outcome
  | .value v => .value v.unreturned
  | .exit code => .exit code

/-- More steps than any machine takes. -/
def ampleFuel : Nat := 4611686018427387904

namespace Store

/-- Do something, from an empty stack, and report what it printed. -/
def perform [Digesting] (fuel : Nat) (control : Control) (s : Store) : Option (Answer × Store) :=
  (Machine.run fuel ⟨control, [], { s with output := "" }⟩).map fun (outcome, s) =>
    (⟨outcome, s.output⟩, { s with output := "" })

/-- Run a program in a scope.  A return at its top ends it with its payload. -/
def runProgram [Digesting] (fuel : Nat) (p : Program) (scope : ScopeId) (s : Store) :
    Option (Answer × Store) :=
  (s.perform fuel (.exec p.statements scope)).map fun (answer, s) =>
    ({ answer with outcome := answer.outcome.unreturned }, s)

def apply [Digesting] (fuel : Nat) (callee : Value) (args : List Value) (s : Store) :
    Option (Answer × Store) :=
  s.perform fuel (.call callee args)

end Store

namespace Session

/-- A session on a new root scope of a store. -/
def ofStore (s : Store) : Session :=
  let (root, s) := s.alloc none .empty
  ⟨s, root⟩

def new : Session := ofStore .empty

/-- Put back the store that an evaluation left. -/
def withStore (s : Session) (result : Answer × Store) : Answer × Session :=
  (result.1, { s with store := result.2 })

def runProgram [Digesting] (fuel : Nat) (p : Program) (s : Session) :
    Option (Answer × Session) :=
  (s.store.runProgram fuel p s.root).map s.withStore

/-- Run a text, unless something is wrong with it. -/
def eval [Digesting] (fuel : Nat) (source : String) (s : Session) :
    Option (Except (List Diagnostic) Answer × Session) :=
  match Program.ofString source with
  | .error ds => some (.error ds, s)
  | .ok p => (s.runProgram fuel p).map fun (answer, s) => (.ok answer, s)

/-- The value bound to a name; built-in functions are not bindings. -/
def lookup? (s : Session) (name : String) : Option Value := s.store.heap.lookup? s.root name

def define (s : Session) (name : String) (v : Value) : Session :=
  { s with store := s.store.define s.root name v }

/-- Rebind a name, if it is bound. -/
def assign? (s : Session) (name : String) (v : Value) : Option Session :=
  (s.store.heap.assign? s.root name v).map fun heap =>
    { s with store := { s.store with heap := heap } }

def apply [Digesting] (fuel : Nat) (callee : Value) (args : List Value) (s : Session) :
    Option (Answer × Session) :=
  (s.store.apply fuel callee args).map s.withStore

end Session

/-- Run a text on its own. -/
def evalText [Digesting] (fuel : Nat) (source : String) :
    Option (Except (List Diagnostic) Answer) :=
  (Session.new.eval fuel source).map Prod.fst

end Script
