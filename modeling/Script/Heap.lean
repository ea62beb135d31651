/-
  Script/Heap.lean
  ================
  **Scopes.**

  A scope binds names to values and lies inside at most one other scope, its
  parent.  Scopes are numbered in the order in which they are made and never go
  away, because a function value may keep any of them in use.  A parent is
  older than its children, which is why looking up a name ends.
-/
import Script.Value

namespace Script

/-- Bindings, and the scope around them. -/
structure Scope where
  bindings : Table String Value
  parent? : Option ScopeId
deriving Inhabited

/-- All scopes of a run. -/
structure Heap where
  scopes : Array Scope
deriving Inhabited

namespace Heap

def empty : Heap := ⟨#[]⟩

/-- The number of scopes, which is the number the next one gets. -/
def size (h : Heap) : Nat := h.scopes.size

/-- Make a scope inside another one, or a root. -/
def alloc (h : Heap) (parent? : Option ScopeId) (bindings : Table String Value) : Heap :=
  ⟨h.scopes.push ⟨bindings, parent?⟩⟩

/-- Bind a name in a scope, whether or not it is bound there or further out. -/
def define (h : Heap) (scope : ScopeId) (name : String) (v : Value) : Heap :=
  ⟨h.scopes.modify scope fun s => { s with bindings := s.bindings.insert name v }⟩

/-- The nearest scope, from the given one outwards, that binds a name. -/
def owner? (h : Heap) (scope : ScopeId) (name : String) : Option ScopeId :=
  match h.scopes[scope]? with
  | none => none
  | some s =>
    if s.bindings.contains name then some scope
    else
      match s.parent? with
      | none => none
      | some parent => if parent < scope then h.owner? parent name else none
termination_by scope

/-- What a scope itself binds a name to. -/
def binding? (h : Heap) (scope : ScopeId) (name : String) : Option Value :=
  h.scopes[scope]?.bind fun s => s.bindings.get? name

/-- The value of a name, seen from a scope. -/
def lookup? (h : Heap) (scope : ScopeId) (name : String) : Option Value :=
  (h.owner? scope name).bind fun owner => h.binding? owner name

/-- Rebind a name in the nearest scope that binds it, if there is one. -/
def assign? (h : Heap) (scope : ScopeId) (name : String) (v : Value) : Option Heap :=
  (h.owner? scope name).map fun owner => h.define owner name v

end Heap

end Script
