/-
  Script/Proofs/Heap/Extended.lean
  ================================
  **Heaps with more scopes.**

  A call works in a scope of its own.  As long as it rebinds nothing outside, the
  scopes there were before stay as they are, and so does what a name means in
  them: a lookup goes outwards, and that is to older scopes.

  Main statements: making a scope extends a heap, and so does binding names in a
  scope that was made since (`Heap.extends_alloc`, `Heap.Extends.define`); what is
  found from an old scope stays (`Heap.Extends.lookup?`); and a new scope shows
  its own bindings and, for other names, what is found around it
  (`Heap.lookup?_alloc_bound`, `Heap.lookup?_alloc_free`).
-/
import Script.Proofs.Heap.Chain

namespace Script

namespace Heap

/-- The scopes of a heap are there in another one, as they are. -/
structure Extends (h h' : Heap) : Prop where
  size : h.size ≤ h'.size
  scopes : ∀ i < h.size, h'.scopes[i]? = h.scopes[i]?

variable {h h' h'' : Heap} {i j : ScopeId} {name : String} {v : Value}

theorem Extends.refl (h : Heap) : h.Extends h := ⟨Nat.le_refl _, fun _ _ => rfl⟩

theorem Extends.trans (first : h.Extends h') (second : h'.Extends h'') : h.Extends h'' := by
  constructor
  · exact Nat.le_trans first.size second.size
  · intro i old
    rw [second.scopes i (Nat.lt_of_lt_of_le old first.size), first.scopes i old]

theorem extends_alloc (h : Heap) (parent : Option ScopeId) (bindings : Table String Value) :
    h.Extends (h.alloc parent bindings) := by
  constructor
  · simp
  · intro i old
    exact h.scopes_alloc_of_lt parent bindings old

/-- Nothing of the old scopes changes when a name is bound in one that was made
    since. -/
theorem Extends.define (more : h.Extends h') (new : h.size ≤ i) (name : String) (v : Value) :
    h.Extends (h'.define i name v) := by
  constructor
  · rw [size_define]
    exact more.size
  · intro j old
    have other : i ≠ j := by
      rintro rfl
      exact Nat.not_lt_of_le new old
    rw [scopes_define_of_ne _ _ _ _ other, more.scopes j old]

/-! ### Bindings and lookups from old scopes -/

theorem Extends.binding? (more : h.Extends h') (inside : i < h.size) (name : String) :
    h'.binding? i name = h.binding? i name := by
  rw [Heap.binding?, Heap.binding?, more.scopes i inside]

theorem Extends.parent? (more : h.Extends h') (inside : i < h.size) :
    h'.parent? i = h.parent? i := by
  rw [Heap.parent?, Heap.parent?, more.scopes i inside]

/-- A name is found in no scope younger than the one it is looked up from. -/
theorem le_of_owner? (found : h.owner? i name = some j) : j ≤ i := by
  induction i using Nat.strongRecOn with
  | ind i ih =>
    rw [owner?] at found
    split at found
    · cases found
    split at found
    · cases found
      exact Nat.le_refl _
    split at found
    · cases found
    split at found
    · rename_i older
      exact Nat.le_of_lt (Nat.lt_of_le_of_lt (ih _ older found) older)
    · cases found

theorem Extends.owner? (more : h.Extends h') (inside : i < h.size) (name : String) :
    h'.owner? i name = h.owner? i name := by
  induction i using Nat.strongRecOn with
  | ind i ih =>
    rw [Heap.owner?, Heap.owner?, more.scopes i inside]
    cases h.scopes[i]? with
    | none => rfl
    | some s =>
      cases outer : s.parent? with
      | none => simp only [outer]
      | some parent =>
        by_cases older : parent < i
        · simp only [outer, if_pos older, ih parent older (Nat.lt_trans older inside)]
        · simp only [outer, if_neg older]

/-- From an old scope, a name means what it meant. -/
theorem Extends.lookup? (more : h.Extends h') (inside : i < h.size) (name : String) :
    h'.lookup? i name = h.lookup? i name := by
  rw [Heap.lookup?, Heap.lookup?, more.owner? inside]
  cases found : h.owner? i name with
  | none => rfl
  | some j => exact more.binding? (Nat.lt_of_le_of_lt (le_of_owner? found) inside) name

/-! ### Lookups scope by scope -/

theorem lookup?_bound (bound : h.binding? i name = some v) : h.lookup? i name = some v := by
  rw [lookup?, owner?_bound (by rw [bound]; rfl)]
  exact bound

theorem lookup?_outer (unbound : h.binding? i name = none) (outer : h.parent? i = some j)
    (older : j < i) : h.lookup? i name = h.lookup? j name := by
  rw [lookup?, owner?_outer unbound outer older, lookup?]

/-- In a scope that lies in no other, a name means what it is bound to there. -/
theorem lookup?_outermost (outermost : h.parent? i = none) (name : String) :
    h.lookup? i name = h.binding? i name := by
  cases bound : h.binding? i name with
  | some v => exact lookup?_bound bound
  | none =>
    rw [lookup?, owner?_outermost bound outermost]
    rfl

/-! ### Lookups from a new scope -/

section Alloc

variable {bindings : Table String Value}

theorem binding?_alloc_size (parent : Option ScopeId) (name : String) :
    (h.alloc parent bindings).binding? h.size name = bindings.get? name := by
  rw [binding?, scopes_alloc_size]
  rfl

theorem parent?_alloc_size (parent : Option ScopeId) :
    (h.alloc parent bindings).parent? h.size = parent := by
  rw [parent?, scopes_alloc_size]
  rfl

theorem lookup?_alloc_bound (parent : Option ScopeId) (bound : bindings.get? name = some v) :
    (h.alloc parent bindings).lookup? h.size name = some v := by
  apply lookup?_bound
  rw [binding?_alloc_size, bound]

theorem lookup?_alloc_free (inside : j < h.size) (free : bindings.get? name = none) :
    (h.alloc (some j) bindings).lookup? h.size name = h.lookup? j name := by
  have unbound : (h.alloc (some j) bindings).binding? h.size name = none := by
    rw [binding?_alloc_size, free]
  rw [lookup?_outer unbound (parent?_alloc_size _) inside]
  exact (h.extends_alloc _ _).lookup? inside name

end Alloc

end Heap

end Script
