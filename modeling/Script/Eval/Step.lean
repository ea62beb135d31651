/-
  Script/Eval/Step.lean
  =====================
  **One step of evaluation.**

  Evaluation goes from left to right.  An error that is handed to a frame
  passes it by, so it ends everything up to the program itself; the payload of
  a return passes by blocks and loops only, and loses its wrapper where a call
  ends.  Statements of a block and branches of a conditional run in the scope
  around them; every round of a loop body and every call has a scope of its
  own.
-/
import Script.Eval.Machine

namespace Script

/-- The value of a name: bound in a scope, or else built in. -/
def Store.nameValue (s : Store) (scope : ScopeId) (name : String) : Value :=
  match s.heap.lookup? scope name with
  | some v => v
  | none =>
    match Builtin.ofName? name with
    | some b => .builtin b
    | none => (Failure.unbound name).value

/-- The bindings of a call: each parameter gets the argument in its place, or
    null if there is none.  Surplus arguments are dropped. -/
def parameterBindings : List String → List Value → Table String Value → Table String Value
  | [], _, t => t
  | p :: ps, [], t => parameterBindings ps [] (t.insert p .null)
  | p :: ps, v :: vs, t => parameterBindings ps vs (t.insert p v)

namespace Machine

/-- Evaluate the arguments that are left, or call. -/
def continueCall (callee : Value) (done : List Value) (rest : List Expr) (scope : ScopeId)
    (stack : List Frame) (store : Store) : Machine :=
  match rest with
  | [] => ⟨.call callee done, stack, store⟩
  | e :: rest => ⟨.eval e scope, .argument callee done rest scope :: stack, store⟩

/-- Evaluate the items of an array that are left, or give the array. -/
def continueArray (done : List Value) (rest : List Expr) (scope : ScopeId)
    (stack : List Frame) (store : Store) : Machine :=
  match rest with
  | [] => ⟨.give (.array done), stack, store⟩
  | e :: rest => ⟨.eval e scope, .item done rest scope :: stack, store⟩

/-- Evaluate the pairs of a table that are left, or give the table. -/
def continueTable (done : Entries) (rest : List (Expr × Expr)) (scope : ScopeId)
    (stack : List Frame) (store : Store) : Machine :=
  match rest with
  | [] => ⟨.give (.table done), stack, store⟩
  | (key, value) :: rest => ⟨.eval key scope, .key done value rest scope :: stack, store⟩

def evalExpr (e : Expr) (scope : ScopeId) (stack : List Frame) (store : Store) : Machine :=
  match e with
  | .identifier name => ⟨.give (store.nameValue scope name), stack, store⟩
  | .integer n => ⟨.give (.integer n), stack, store⟩
  | .string text => ⟨.give (.string text), stack, store⟩
  | .boolean b => ⟨.give (.boolean b), stack, store⟩
  | .unary op operand => ⟨.eval operand scope, .unary op :: stack, store⟩
  | .binary left op right => ⟨.eval left scope, .left op right scope :: stack, store⟩
  | .conditional condition consequence alternative =>
    ⟨.eval condition scope, .branch consequence alternative scope :: stack, store⟩
  | .loop condition body => ⟨.eval condition scope, .test condition body scope :: stack, store⟩
  | .function params body =>
    ⟨.give (.function store.functions params body scope), stack,
      { store with functions := store.functions + 1 }⟩
  | .call callee args => ⟨.eval callee scope, .callee args scope :: stack, store⟩
  | .array items => continueArray [] items scope stack store
  | .table pairs => continueTable .empty pairs scope stack store
  | .index collection index =>
    ⟨.eval collection scope, .collection index scope :: stack, store⟩

def execStmt (s : Stmt) (scope : ScopeId) (stack : List Frame) (store : Store) : Machine :=
  match s with
  | .define name value => ⟨.eval value scope, .define name scope :: stack, store⟩
  | .assign name value => ⟨.eval value scope, .assign name scope :: stack, store⟩
  | .return value => ⟨.eval value scope, .return :: stack, store⟩
  | .bare e => ⟨.eval e scope, stack, store⟩
  | .block body => ⟨.exec body scope, stack, store⟩

/-- Execute statements in a scope; the empty block yields null. -/
def execBlock (block : Block) (scope : ScopeId) (stack : List Frame) (store : Store) : Machine :=
  match block with
  | [] => ⟨.give .null, stack, store⟩
  | s :: rest => execStmt s scope (.sequence rest scope :: stack) store

def callValue (callee : Value) (args : List Value) (stack : List Frame) (store : Store) :
    Progress :=
  match callee with
  | .function _ params body scope =>
    if store.depth < maxCallDepth then
      let (inner, store) := store.alloc (some scope) (parameterBindings params args .empty)
      .running ⟨.exec body inner, .leave :: stack, { store with depth := store.depth + 1 }⟩
    else .running ⟨.give Failure.stackOverflow.value, stack, store⟩
  | .builtin b =>
    match b.call args with
    | .value v => .running ⟨.give v, stack, store⟩
    | .printed line v => .running ⟨.give v, stack, store.print line⟩
    | .exit code => .halted (.exit code) store
  | v => .running ⟨.give (Failure.notCallable v.kind).value, stack, store⟩

/-- Hand a value that is not an error to the innermost frame. -/
def resume [Digesting] (f : Frame) (v : Value) (stack : List Frame) (store : Store) : Machine :=
  match f with
  | .unary op => ⟨.give (op.apply v), stack, store⟩
  | .left op right scope => ⟨.eval right scope, .right op v :: stack, store⟩
  | .right op left => ⟨.give (op.apply left v), stack, store⟩
  | .branch consequence alternative scope =>
    if v.truthy then ⟨.exec consequence scope, stack, store⟩
    else
      match alternative with
      | some block => ⟨.exec block scope, stack, store⟩
      | none => ⟨.give .null, stack, store⟩
  | .test condition body scope =>
    if v.truthy then
      let (inner, store) := store.alloc (some scope) .empty
      ⟨.exec body inner, .again condition body scope :: stack, store⟩
    else ⟨.give .null, stack, store⟩
  | .again condition body scope =>
    if v.endsBlock then ⟨.give v, stack, store⟩
    else ⟨.eval condition scope, .test condition body scope :: stack, store⟩
  | .callee args scope => continueCall v [] args scope stack store
  | .argument callee done rest scope => continueCall callee (done ++ [v]) rest scope stack store
  | .item done rest scope => continueArray (done ++ [v]) rest scope stack store
  | .key done value rest scope =>
    match v.key? with
    | some place => ⟨.eval value scope, .value done place v rest scope :: stack, store⟩
    | none => ⟨.give (Failure.unusableKey v.kind).value, stack, store⟩
  | .value done place key rest scope =>
    continueTable (done.insert place (key, v)) rest scope stack store
  | .collection index scope => ⟨.eval index scope, .index v :: stack, store⟩
  | .index collection => ⟨.give (collection.at v), stack, store⟩
  | .define name scope => ⟨.give .null, stack, store.define scope name v⟩
  | .assign name scope =>
    match store.heap.owner? scope name with
    | some owner => ⟨.give .null, stack, store.define owner name v⟩
    | none => ⟨.give (Failure.unbound name).value, stack, store⟩
  | .return => ⟨.give (.returned v), stack, store⟩
  | .sequence rest scope =>
    if v.endsBlock || rest.isEmpty then ⟨.give v, stack, store⟩
    else ⟨.exec rest scope, stack, store⟩
  | .leave => ⟨.give v.unreturned, stack, { store with depth := store.depth - 1 }⟩

/-- Hand an error to the innermost frame: it passes by, and a call ends. -/
def passError (f : Frame) (v : Value) (stack : List Frame) (store : Store) : Machine :=
  match f with
  | .leave => ⟨.give v, stack, { store with depth := store.depth - 1 }⟩
  | _ => ⟨.give v, stack, store⟩

def step [Digesting] : Machine → Progress
  | ⟨.eval e scope, stack, store⟩ => .running (evalExpr e scope stack store)
  | ⟨.exec block scope, stack, store⟩ => .running (execBlock block scope stack store)
  | ⟨.call callee args, stack, store⟩ => callValue callee args stack store
  | ⟨.give v, [], store⟩ => .halted (.value v) store
  | ⟨.give v, f :: stack, store⟩ =>
    if v.isError then .running (passError f v stack store)
    else .running (resume f v stack store)

/-- Run for at most `fuel` steps: how the run ended and what it left, or
    nothing if it did not end in time. -/
def run [Digesting] : Nat → Machine → Option (Outcome × Store)
  | 0, _ => none
  | fuel + 1, m =>
    match m.step with
    | .running m' => run fuel m'
    | .halted outcome store => some (outcome, store)

end Machine

end Script
