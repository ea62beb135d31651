/-
  Script/Proofs/Heap/Visible.lean
  ===============================
  **From where a binding is seen.**

  What a name means in a scope is decided by the first scope on the way outwards
  that binds it.  So a value that is bound in a scope is seen from the scopes
  whose chains lead there without meeting the name before, and from no others;
  and rebinding a name binds it in the scope that it is found in, so that it is
  seen wherever the name is found in that same scope.

  Main statements: `Heap.Chain.lookup?_define`, `Heap.Chain.lookup?_assign`, and
  `Heap.Reached.seen`: both are exact on every heap that scopes can make up.
-/
import Script.Eval.Step
import Script.Proofs.Heap.Chain

namespace Script

namespace Heap

/-- The heaps that come of making scopes, roots or inside others, and of binding
    and rebinding names in them. -/
inductive Reached : Heap → Prop
  | empty : Reached .empty
  | root {h} (before : Reached h) (bindings : Table String Value) :
    Reached (h.alloc none bindings)
  | inner {h i} (before : Reached h) (inside : i < h.size) (bindings : Table String Value) :
    Reached (h.alloc (some i) bindings)
  | define {h i} (before : Reached h) (inside : i < h.size) (name : String) (v : Value) :
    Reached (h.define i name v)
  | assign {h h' i name v} (before : Reached h) (done : h.assign? i name v = some h') :
    Reached h'

/-- The first scope of a chain that binds a name. -/
def nearest? (h : Heap) (js : List ScopeId) (name : String) : Option ScopeId :=
  js.find? fun j => (h.binding? j name).isSome

/-- A scope is on a chain, and no scope before it there binds the name. -/
def Exposes (h : Heap) (js : List ScopeId) (name : String) (i : ScopeId) : Prop :=
  ∃ nearer beyond, js = nearer ++ i :: beyond ∧ ∀ k ∈ nearer, h.binding? k name = none

/-- Every scope is younger than the one around it. -/
def Ordered (h : Heap) : Prop := ∀ i j, h.parent? i = some j → j < i

variable {h h' : Heap} {i j : ScopeId} {is js : List ScopeId} {name other : String} {v : Value}

/-! ### Order -/

theorem parent?_alloc_cases {parent : Option ScopeId} {bindings : Table String Value}
    (outer : (h.alloc parent bindings).parent? i = some j) :
    h.parent? i = some j ∨ i = h.size ∧ parent = some j := by
  obtain ⟨s, found, inside⟩ := Option.bind_eq_some_iff.mp outer
  rcases h.scopes_alloc_cases parent bindings found with ⟨-, old⟩ | ⟨new, rfl⟩
  · exact .inl (Option.bind_eq_some_iff.mpr ⟨s, old, inside⟩)
  · exact .inr ⟨new, inside⟩

theorem Ordered.define (ordered : h.Ordered) (i : ScopeId) (name : String) (v : Value) :
    (h.define i name v).Ordered := by
  intro k j outer
  rw [parent?_define] at outer
  exact ordered k j outer

theorem Reached.ordered (reached : h.Reached) : h.Ordered := by
  induction reached with
  | empty => rintro i j ⟨⟩
  | root _ bindings ih =>
    intro k j outer
    rcases parent?_alloc_cases outer with old | ⟨-, inner⟩
    · exact ih k j old
    · cases inner
  | inner _ inside bindings ih =>
    intro k j outer
    rcases parent?_alloc_cases outer with old | ⟨rfl, inner⟩
    · exact ih k j old
    · cases inner
      exact inside
  | define _ _ name v ih => exact ih.define _ name v
  | assign _ done ih =>
    obtain ⟨owner, -, rfl⟩ := Option.map_eq_some_iff.mp done
    exact ih.define owner _ _

/-- Every scope has a chain: from younger to older scopes there is an end. -/
theorem Ordered.chain (ordered : h.Ordered) (inside : i < h.size) : ∃ is, h.Chain i is := by
  induction i using Nat.strongRecOn with
  | ind i ih =>
    cases outer : h.parent? i with
    | none => exact ⟨[i], .root inside outer⟩
    | some j =>
      have older : j < i := ordered i j outer
      obtain ⟨js, chain⟩ := ih j older (Nat.lt_trans older inside)
      exact ⟨i :: js, .inner outer chain⟩

theorem Chain.older (chain : h.Chain i is) (ordered : h.Ordered) : is.Pairwise (· > ·) := by
  induction chain with
  | root => exact List.pairwise_singleton _ _
  | @inner i j js outer rest ih =>
    refine List.pairwise_cons.mpr ⟨?_, ih⟩
    intro k mem
    have older : j < i := ordered i j outer
    -- the chain goes on from `j`, and from there only to older scopes
    have oldest : k ≤ j := by
      cases rest with
      | root => exact Nat.le_of_eq (List.mem_singleton.mp mem)
      | inner =>
        rcases List.mem_cons.mp mem with rfl | mem
        · exact Nat.le_refl _
        · exact Nat.le_of_lt ((List.pairwise_cons.mp ih).1 k mem)
    exact Nat.lt_of_le_of_lt oldest older

/-! ### Searches along a chain -/

theorem Chain.owner?_eq (chain : h.Chain i is) (ordered : h.Ordered) (name : String) :
    h.owner? i name = h.nearest? is name := by
  induction chain with
  | @root i inside outermost =>
    cases bound : h.binding? i name with
    | some v =>
      rw [owner?_bound (by simp [bound])]
      simp [nearest?, bound]
    | none =>
      rw [owner?_outermost bound outermost]
      simp [nearest?, bound]
  | @inner i j js outer rest ih =>
    cases bound : h.binding? i name with
    | some v =>
      rw [owner?_bound (by simp [bound])]
      simp [nearest?, bound]
    | none =>
      rw [owner?_outer bound outer (ordered i j outer), ih]
      simp [nearest?, bound]

/-- The first part that has something, and what it has. -/
theorem bind_find?_isSome {α β : Type} (f : α → Option β) (as : List α) :
    (as.find? fun a => (f a).isSome).bind f = as.findSome? f := by
  induction as with
  | nil => rfl
  | cons a as ih => cases found : f a <;> simp [found, ih]

/-- A name means what the first scope of the chain that binds it binds it to. -/
theorem Chain.lookup?_eq (chain : h.Chain i is) (ordered : h.Ordered) (name : String) :
    h.lookup? i name = is.findSome? fun k => h.binding? k name := by
  rw [lookup?, chain.owner?_eq ordered]
  exact bind_find?_isSome (fun k => h.binding? k name) is

theorem nearest?_eq_some_iff :
    h.nearest? is name = some i ↔ (h.binding? i name).isSome = true ∧ h.Exposes is name i := by
  simp [nearest?, List.find?_eq_some_iff_append, Exposes]

/-! ### Binding a name -/

theorem binding?_define_self (inside : i < h.size) :
    (h.define i name v).binding? i name = some v := by
  have there : h.scopes[i]? = some h.scopes[i] := Array.getElem?_eq_getElem inside
  simp [binding?, scopes_define_self, there, Table.get?_insert]

theorem binding?_define_of_ne (different : i ≠ j ∨ name ≠ other) :
    (h.define i name v).binding? j other = h.binding? j other := by
  by_cases same : i = j
  · subst same
    have apart : name ≠ other := different.resolve_left (· rfl)
    cases there : h.scopes[i]? <;>
      simp [binding?, scopes_define_self, there, Table.get?_insert, apart]
  · simp [binding?, scopes_define_of_ne, same]

theorem Chain.define (chain : h.Chain j js) (i : ScopeId) (name : String) (v : Value) :
    (h.define i name v).Chain j js :=
  chain.keep (h.keeps_define i name v)

/-- A scope comes once on a chain, so it is not before itself. -/
theorem Chain.not_mem_nearer {nearer beyond : List ScopeId}
    (chain : h.Chain j (nearer ++ i :: beyond)) (ordered : h.Ordered) : i ∉ nearer := by
  intro mem
  have older := (List.pairwise_append.mp (chain.older ordered)).2.2
  exact Nat.lt_irrefl i (older i mem i List.mem_cons_self)

/-- Past a scope that does not bind the name, what is exposed stays exposed. -/
theorem Exposes.cons (exposes : h.Exposes js name i) {k : ScopeId}
    (unbound : h.binding? k name = none) : h.Exposes (k :: js) name i := by
  obtain ⟨nearer, beyond, rfl, clear⟩ := exposes
  exact ⟨k :: nearer, beyond, rfl, List.forall_mem_cons.mpr ⟨unbound, clear⟩⟩

/-- Where the scope is not exposed, nothing changes when a name is bound in it:
    the search does not get there. -/
theorem findSome?_define_of_hidden (hidden : ¬ h.Exposes js name i) :
    (js.findSome? fun k => (h.define i name v).binding? k name) =
      js.findSome? fun k => h.binding? k name := by
  induction js with
  | nil => rfl
  | cons k js ih =>
    have different : i ≠ k := by
      rintro rfl
      exact hidden ⟨[], js, rfl, List.forall_mem_nil _⟩
    rw [List.findSome?_cons, List.findSome?_cons, binding?_define_of_ne (.inl different)]
    cases bound : h.binding? k name with
    | some w => rfl
    | none => exact ih fun exposes => hidden (exposes.cons bound)

/-- A value is seen from where the scope it is bound in is exposed, and changes
    nothing else. -/
theorem Chain.lookup?_define (chain : h.Chain j js) (ordered : h.Ordered) (inside : i < h.size)
    (name other : String) (v : Value) :
    (other = name ∧ h.Exposes js name i → (h.define i name v).lookup? j other = some v) ∧
      (¬ (other = name ∧ h.Exposes js name i) →
        (h.define i name v).lookup? j other = h.lookup? j other) := by
  rw [(chain.define i name v).lookup?_eq (ordered.define i name v), chain.lookup?_eq ordered]
  constructor
  · rintro ⟨rfl, nearer, beyond, rfl, unbound⟩
    refine List.findSome?_eq_some_iff.mpr ⟨nearer, i, beyond, rfl, binding?_define_self inside, ?_⟩
    intro k mem
    have different : i ≠ k := fun same => chain.not_mem_nearer ordered (same ▸ mem)
    rw [binding?_define_of_ne (.inl different)]
    exact unbound k mem
  · intro hidden
    by_cases same : other = name
    · subst same
      exact findSome?_define_of_hidden fun exposes => hidden ⟨rfl, exposes⟩
    · have unchanged (k : ScopeId) : (h.define i name v).binding? k other = h.binding? k other :=
        binding?_define_of_ne (.inr (Ne.symm same))
      simp only [unchanged]

/-! ### Rebinding a name -/

/-- A name can be rebound where it can be looked up. -/
theorem Chain.isSome_assign? (chain : h.Chain i is) (ordered : h.Ordered) (name : String)
    (v : Value) : (h.assign? i name v).isSome = (h.lookup? i name).isSome := by
  rw [assign?, lookup?, Option.isSome_map]
  cases found : h.owner? i name with
  | none => rfl
  | some owner => exact ((chain.binds_of_owner? (chain.older ordered) found).2).symm

/-- A value is seen from where the name is found in the scope that it is rebound
    in, and changes nothing else. -/
theorem Chain.lookup?_assign (chain : h.Chain i is) (seen : h.Chain j js) (ordered : h.Ordered)
    (other : String) (done : h.assign? i name v = some h') :
    (other = name ∧ h.nearest? js name = h.nearest? is name → h'.lookup? j other = some v) ∧
      (¬ (other = name ∧ h.nearest? js name = h.nearest? is name) →
        h'.lookup? j other = h.lookup? j other) := by
  obtain ⟨owner, found, rfl⟩ := Option.map_eq_some_iff.mp done
  obtain ⟨mem, bound⟩ := chain.binds_of_owner? (chain.older ordered) found
  have inside : owner < h.size := chain.inside owner mem
  -- the owner binds the name, so it is nearest where it is exposed
  have nearest : h.nearest? js name = h.nearest? is name ↔ h.Exposes js name owner := by
    rw [← chain.owner?_eq ordered, found, nearest?_eq_some_iff]
    exact and_iff_right bound
  rw [nearest]
  exact seen.lookup?_define ordered inside name other v

/-- The statement that rebinds a name answers null, with the heap in which it is
    rebound; where it cannot be, with an error, and nothing has changed. -/
theorem resume_assign [Digesting] (i : ScopeId) (name : String) (v : Value) (k : List Frame)
    (s : Store) : Machine.resume (.assign name i) v k s =
      match s.heap.assign? i name v with
      | some h' => ⟨.give .null, k, { s with heap := h' }⟩
      | none => ⟨.give (Failure.unbound name).value, k, s⟩ := by
  rw [Machine.resume, assign?]
  cases s.heap.owner? i name <;> rfl

/-! ### All heaps -/

/-- **Changes are seen exactly where they should be.**  On every heap that scopes
    can make up, and from each of its scopes, of which each has a chain: a name
    can be rebound just if it can be looked up, and where it cannot, the statement
    leaves everything as it is.  Once a name is rebound, its value is found from
    where it was found in the same scope before; once it is bound, from where that
    scope comes before all others that bind it.  All else is found as before. -/
theorem Reached.seen [Digesting] (reached : h.Reached) (hi : i < h.size) (hj : j < h.size)
    (name other : String) (v : Value) :
    (∃ is, h.Chain i is) ∧ (∃ js, h.Chain j js) ∧
      ∀ is js, h.Chain i is → h.Chain j js →
        (h.assign? i name v).isSome = (h.lookup? i name).isSome ∧
        (∀ (k : List Frame) (s : Store), s.heap = h →
          Machine.resume (.assign name i) v k s =
            match h.assign? i name v with
            | some h' => ⟨.give .null, k, { s with heap := h' }⟩
            | none => ⟨.give (Failure.unbound name).value, k, s⟩) ∧
        (∀ h', h.assign? i name v = some h' →
          (other = name ∧ h.nearest? js name = h.nearest? is name → h'.lookup? j other = some v) ∧
          (¬ (other = name ∧ h.nearest? js name = h.nearest? is name) →
            h'.lookup? j other = h.lookup? j other)) ∧
        (other = name ∧ h.Exposes js name i → (h.define i name v).lookup? j other = some v) ∧
        (¬ (other = name ∧ h.Exposes js name i) →
          (h.define i name v).lookup? j other = h.lookup? j other) := by
  have ordered : h.Ordered := reached.ordered
  refine ⟨ordered.chain hi, ordered.chain hj, fun is js chain seen => ⟨?_, ?_, ?_, ?_⟩⟩
  · exact chain.isSome_assign? ordered name v
  · rintro k s rfl
    exact resume_assign i name v k s
  · exact fun h' done => chain.lookup?_assign seen ordered other done
  · exact seen.lookup?_define ordered hi name other v

/-- Scopes 1 and 2 lie inside the root, and 3 inside 1.  What is done from 1 to
    the name that the root binds is seen from 3, but not from 2, which has a
    binding of its own. -/
theorem Reached.seen_nephew :
    let h : Heap := ⟨#[⟨⟨[("x", .integer 1)]⟩, none⟩, ⟨.empty, some 0⟩,
      ⟨⟨[("x", .integer 2)]⟩, some 0⟩, ⟨.empty, some 1⟩]⟩
    h.Reached ∧ 1 < h.size ∧ 2 < h.size ∧ 3 < h.size ∧
      (∃ h', h.assign? 1 "x" (.integer 7) = some h' ∧
        h'.lookup? 3 "x" = some (.integer 7) ∧ h'.lookup? 2 "x" = h.lookup? 2 "x") ∧
      (h.define 1 "x" (.integer 7)).lookup? 3 "x" = some (.integer 7) ∧
      (h.define 1 "x" (.integer 7)).lookup? 2 "x" = h.lookup? 2 "x" := by
  intro h
  let _ : Digesting := ⟨fun _ => 0⟩
  have reached : h.Reached :=
    .inner (.inner (.inner (.root .empty _) (by decide) _) (by decide) _) (by decide) _
  have one : h.Chain 1 [1, 0] := .inner rfl (.root (by decide) rfl)
  have two : h.Chain 2 [2, 0] := .inner rfl (.root (by decide) rfl)
  have three : h.Chain 3 [3, 1, 0] := .inner rfl one
  obtain ⟨-, -, from3⟩ :=
    reached.seen (i := 1) (j := 3) (by decide) (by decide) "x" "x" (.integer 7)
  obtain ⟨-, -, from2⟩ :=
    reached.seen (i := 1) (j := 2) (by decide) (by decide) "x" "x" (.integer 7)
  obtain ⟨rebinds, -, assigned3, defined3, -⟩ := from3 _ _ one three
  obtain ⟨-, -, assigned2, -, defined2⟩ := from2 _ _ one two
  obtain ⟨h', done⟩ : ∃ h', h.assign? 1 "x" (.integer 7) = some h' := by
    have found : h.lookup? 1 "x" = some (.integer 1) := one.lookup?_eq reached.ordered "x"
    rw [found] at rebinds
    exact Option.isSome_iff_exists.mp rebinds
  refine ⟨reached, by decide, by decide, by decide, ⟨h', done, ?_, ?_⟩, ?_, ?_⟩
  · exact (assigned3 h' done).1 ⟨rfl, rfl⟩
  · exact (assigned2 h' done).2 fun same => absurd same.2 (by decide)
  · exact defined3 ⟨rfl, [3], [0], rfl, List.forall_mem_singleton.mpr rfl⟩
  · apply defined2
    rintro ⟨-, nearer, beyond, split, -⟩
    have mem : 1 ∈ [2, 0] := split ▸ List.mem_append_right nearer List.mem_cons_self
    revert mem
    decide

end Heap

end Script
