/-
  Script/Proofs/Heap/Growth.lean
  ==============================
  **How the scopes of a run may change.**

  Scopes are only added, and a scope keeps its parent.  Names are bound anew in
  scopes that are worked in, and values replaced in scopes that are seen; every
  other scope stays as it is.  These changes compose, so what holds of each step
  holds of a run.

  Main statements: making a scope, defining and rebinding are such changes
  (`Confinement.growth_alloc`, `growth_define`, `growth_rebind`), they keep a
  heap within its confinement, and what is found from a scope that is seen is
  within it (`Heap.Within.owner?`, `Heap.Within.lookup?`).
-/
import Script.Heap
import Script.Proofs.Value.Part

namespace Script

namespace Heap

/-- The scope around a scope. -/
def parent? (h : Heap) (i : ScopeId) : Option ScopeId := h.scopes[i]?.bind Scope.parent?

/-- The names that a scope itself binds. -/
def names (h : Heap) (i : ScopeId) : List String :=
  (h.scopes[i]?.map fun s => s.bindings.keys).getD []

/-- The names of a scope are those it binds to something. -/
theorem mem_names {h : Heap} {i : ScopeId} {name : String} :
    name ∈ h.names i ↔ (h.binding? i name).isSome = true := by
  cases hs : h.scopes[i]? with
  | none => simp [names, binding?, hs]
  | some s => simp [names, binding?, hs, ← Table.contains_iff, Table.contains]

/-! ### Making a scope -/

section Alloc

variable (h : Heap) (parent : Option ScopeId) (bindings : Table String Value)

@[simp] theorem size_alloc : (h.alloc parent bindings).size = h.size + 1 := by
  simp [size, alloc]

theorem scopes_alloc_size :
    (h.alloc parent bindings).scopes[h.size]? = some ⟨bindings, parent⟩ := by
  simp [size, alloc]

theorem scopes_alloc_of_lt {i : ScopeId} (old : i < h.size) :
    (h.alloc parent bindings).scopes[i]? = h.scopes[i]? := by
  have inside : i < h.scopes.size := old
  simp only [alloc, Array.getElem?_push_lt inside, Array.getElem?_eq_getElem inside]

/-- A scope is an old one, or the one that was made. -/
theorem scopes_alloc_cases {i : ScopeId} {s : Scope}
    (found : (h.alloc parent bindings).scopes[i]? = some s) :
    i < h.size ∧ h.scopes[i]? = some s ∨ i = h.size ∧ s = ⟨bindings, parent⟩ := by
  rcases Nat.lt_trichotomy i h.size with old | rfl | beyond
  · rw [h.scopes_alloc_of_lt _ _ old] at found
    exact .inl ⟨old, found⟩
  · rw [h.scopes_alloc_size] at found
    cases found
    exact .inr ⟨rfl, rfl⟩
  · have none : (h.alloc parent bindings).scopes[i]? = none :=
      Array.getElem?_eq_none (by rw [← Heap.size, Heap.size_alloc]; exact beyond)
    rw [none] at found
    cases found

end Alloc

/-! ### Binding a name -/

section Define

variable (h : Heap) (i : ScopeId) (name : String) (v : Value)

@[simp] theorem size_define : (h.define i name v).size = h.size := by
  simp [size, define]

theorem scopes_define_of_ne {j : ScopeId} (other : i ≠ j) :
    (h.define i name v).scopes[j]? = h.scopes[j]? := by
  simp [define, Array.getElem?_modify, other]

theorem scopes_define_self : (h.define i name v).scopes[i]? =
    h.scopes[i]?.map fun s => { s with bindings := s.bindings.insert name v } := by
  simp [define, Array.getElem?_modify]

/-- A scope is as it was, but for a value that may have been bound in it. -/
theorem scopes_define_cases {j : ScopeId} {s : Scope}
    (found : (h.define i name v).scopes[j]? = some s) : ∃ s₀, h.scopes[j]? = some s₀ ∧
      (s = s₀ ∨ s = { s₀ with bindings := s₀.bindings.insert name v }) := by
  by_cases same : i = j
  · subst same
    rw [h.scopes_define_self] at found
    obtain ⟨s₀, before, rfl⟩ := Option.map_eq_some_iff.mp found
    exact ⟨s₀, before, .inr rfl⟩
  · rw [h.scopes_define_of_ne i name v same] at found
    exact ⟨s, found, .inl rfl⟩

@[simp] theorem parent?_define (j : ScopeId) : (h.define i name v).parent? j = h.parent? j := by
  by_cases same : i = j
  · subst same
    cases hs : h.scopes[i]? <;> simp [parent?, scopes_define_self, hs]
  · simp [parent?, scopes_define_of_ne, same]

theorem names_define_of_ne {j : ScopeId} (other : i ≠ j) :
    (h.define i name v).names j = h.names j := by
  simp [names, scopes_define_of_ne, other]

theorem names_define_self :
    h.names i <+: (h.define i name v).names i ∧
      (name ∈ h.names i → (h.define i name v).names i = h.names i) := by
  cases hs : h.scopes[i]? with
  | none => simp [names, scopes_define_self, hs]
  | some s =>
    simp only [names, scopes_define_self, hs, Option.map_some, Option.getD_some,
      Table.keys_insert]
    constructor
    · split
      · exact List.prefix_rfl
      · exact List.prefix_append _ _
    · exact fun bound => if_pos bound

theorem names_prefix_define (j : ScopeId) : h.names j <+: (h.define i name v).names j := by
  by_cases same : i = j
  · subst same
    exact (h.names_define_self i name v).1
  · exact h.names_define_of_ne i name v same ▸ List.prefix_rfl

end Define

end Heap

/-! ### Growth -/

variable {C : Confinement}

/-- What a run in a confinement may do to scopes there were before it. -/
structure Confinement.Growth (C : Confinement) (h h' : Heap) : Prop where
  size : h.size ≤ h'.size
  parents : ∀ i < h.size, h'.parent? i = h.parent? i
  names : ∀ i < h.size, h.names i <+: h'.names i
  sameNames : ∀ i < h.size, ¬ C.works i → h'.names i = h.names i
  same : ∀ i < h.size, ¬ C.sees i → h'.scopes[i]? = h.scopes[i]?

namespace Confinement

theorem growth_refl (C : Confinement) (h : Heap) : C.Growth h h :=
  ⟨Nat.le_refl _, fun _ _ => rfl, fun _ _ => List.prefix_rfl, fun _ _ _ => rfl, fun _ _ _ => rfl⟩

theorem Growth.trans {h₁ h₂ h₃ : Heap} (first : C.Growth h₁ h₂) (second : C.Growth h₂ h₃) :
    C.Growth h₁ h₃ := by
  have old : ∀ i < h₁.size, i < h₂.size := fun i hi => Nat.lt_of_lt_of_le hi first.size
  constructor
  · exact Nat.le_trans first.size second.size
  · exact fun i hi => (second.parents i (old i hi)).trans (first.parents i hi)
  · exact fun i hi => (first.names i hi).trans (second.names i (old i hi))
  · exact fun i hi idle => (second.sameNames i (old i hi) idle).trans (first.sameNames i hi idle)
  · exact fun i hi hidden => (second.same i (old i hi) hidden).trans (first.same i hi hidden)

theorem growth_alloc (C : Confinement) (h : Heap) (parent : Option ScopeId)
    (bindings : Table String Value) : C.Growth h (h.alloc parent bindings) := by
  have old : ∀ i < h.size, (h.alloc parent bindings).scopes[i]? = h.scopes[i]? :=
    fun i hi => h.scopes_alloc_of_lt parent bindings hi
  constructor
  · simp
  · exact fun i hi => by simp [Heap.parent?, old i hi]
  · exact fun i hi => by simp [Heap.names, old i hi]
  · exact fun i hi _ => by simp [Heap.names, old i hi]
  · exact fun i hi _ => old i hi

theorem growth_of_define {h : Heap} {i : ScopeId} {name : String} {v : Value}
    (sees : C.sees i)
    (idle : ¬ C.works i → (h.define i name v).names i = h.names i) :
    C.Growth h (h.define i name v) := by
  constructor
  · simp
  · exact fun j _ => h.parent?_define i name v j
  · exact fun j _ => h.names_prefix_define i name v j
  · rintro j - hj
    by_cases same : i = j
    · subst same
      exact idle hj
    · exact h.names_define_of_ne i name v same
  · rintro j - hidden
    exact h.scopes_define_of_ne i name v fun same => hidden (same ▸ sees)

theorem growth_define (h : Heap) {i : ScopeId} (works : C.works i) (name : String) (v : Value) :
    C.Growth h (h.define i name v) :=
  growth_of_define (C.sees_of_works works) fun idle => absurd works idle

theorem growth_rebind {h : Heap} {i : ScopeId} {name : String} (sees : C.sees i)
    (bound : name ∈ h.names i) (v : Value) : C.Growth h (h.define i name v) :=
  growth_of_define sees fun _ => (h.names_define_self i name v).2 bound

end Confinement

/-! ### Heaps within a confinement -/

/-- The parent of a scope is seen, and its values are within the confinement. -/
structure Scope.Within (C : Confinement) (s : Scope) : Prop where
  parent : ∀ i, s.parent? = some i → C.sees i
  values : ∀ e ∈ s.bindings.entries, e.2.Within C

/-- New scopes may be worked in, and every scope that is seen is within the
    confinement. -/
structure Heap.Within (C : Confinement) (h : Heap) : Prop where
  fresh : ∀ i, h.size ≤ i → C.works i
  scope : ∀ i s, C.sees i → h.scopes[i]? = some s → s.Within C

namespace Heap.Within

variable {h : Heap}

theorem alloc (within : h.Within C) {parent : ScopeId} {bindings : Table String Value}
    (sees : C.sees parent) (values : ∀ e ∈ bindings.entries, e.2.Within C) :
    (h.alloc (some parent) bindings).Within C := by
  constructor
  · intro i hi
    rw [Heap.size_alloc] at hi
    exact within.fresh i (Nat.le_of_succ_le hi)
  · intro i s seen hs
    rcases h.scopes_alloc_cases _ _ hs with ⟨-, hs⟩ | ⟨-, rfl⟩
    · exact within.scope i s seen hs
    · refine ⟨?_, values⟩
      rintro j ⟨⟩
      exact sees

theorem define (within : h.Within C) (i : ScopeId) (name : String) {v : Value}
    (hv : v.Within C) : (h.define i name v).Within C := by
  constructor
  · intro j hj
    rw [Heap.size_define] at hj
    exact within.fresh j hj
  · intro j s seen hs
    obtain ⟨s₀, hs₀, rfl | rfl⟩ := h.scopes_define_cases i name v hs
    · exact within.scope j s seen hs₀
    · have before := within.scope j s₀ seen hs₀
      exact ⟨before.parent, Table.forall_mem_insert before.values hv⟩

/-- The scope that a name is found in, from a scope that is seen, is seen and
    binds the name. -/
theorem owner? (within : h.Within C) {i j : ScopeId} {name : String} (seen : C.sees i)
    (found : h.owner? i name = some j) : C.sees j ∧ name ∈ h.names j := by
  -- the search goes outwards, to parents, which are older
  induction i using Nat.strongRecOn with
  | ind i ih =>
    rw [Heap.owner?] at found
    split at found
    · cases found
    rename_i s hs
    split at found
    · rename_i bound
      cases found
      refine ⟨seen, ?_⟩
      simpa [Heap.names, hs] using (s.bindings.contains_iff name).mp bound
    split at found
    · cases found
    rename_i parent hp
    split at found
    · rename_i older
      exact ih parent older ((within.scope i s seen hs).parent parent hp) found
    · cases found

theorem lookup? (within : h.Within C) {i : ScopeId} {name : String} {v : Value}
    (seen : C.sees i) (found : h.lookup? i name = some v) : v.Within C := by
  obtain ⟨j, hj, hv⟩ := Option.bind_eq_some_iff.mp found
  obtain ⟨s, hs, get⟩ := Option.bind_eq_some_iff.mp hv
  exact (within.scope j s (within.owner? seen hj).1 hs).values _ (Table.mem_of_find? get)

end Heap.Within

end Script
