/-
  Script/Proofs/Heap/Chain.lean
  =============================
  **The scopes around a scope.**

  Parents lead from a scope outwards to a root.  A name is looked up, or bound
  anew, in the first of these scopes that binds it, by a recursion that visits
  one scope in each call; so it goes no deeper than there are scopes on the way.

  The scopes that a run makes are those from some number on, and they are to lie
  no deeper, one inside the other, than some limit.  Where code runs or waits
  there has to be room left for the bodies that are nested in it.

  Main statements: `Heap.Chain.outwards?_eq` for searches, and what making a
  scope leaves of the room around it (`Heap.Room.alloc`).
-/
import Script.Proofs.Heap.Growth

namespace Script

/-- Which scopes a run makes, and how many of them may lie one inside the other. -/
structure Extent where
  base : ScopeId
  limit : Nat

namespace Heap

/-- `h.Chain i js`: the scopes from `i` outwards to a root are `js`. -/
inductive Chain (h : Heap) : ScopeId → List ScopeId → Prop
  | root {i} (inside : i < h.size) (outermost : h.parent? i = none) : Chain h i [i]
  | inner {i j js} (outer : h.parent? i = some j) (rest : Chain h j js) : Chain h i (i :: js)

/-- Try a scope and then the scopes around it, until an attempt succeeds; but
    nothing if this takes more than so many calls, one inside the other. -/
def outwards? {α : Type} (h : Heap) (attempt : ScopeId → Option α) :
    Nat → ScopeId → Option (Option α)
  | 0, _ => none
  | calls + 1, i =>
    match attempt i with
    | some a => some (some a)
    | none =>
      match h.parent? i with
      | some j => h.outwards? attempt calls j
      | none => some none

/-- Look a name up in at most so many calls. -/
def lookupWithin? (calls : Nat) (h : Heap) (i : ScopeId) (name : String) : Option (Option Value) :=
  h.outwards? (fun j => h.binding? j name) calls i

/-- Rebind a name in at most so many calls. -/
def assignWithin? (calls : Nat) (h : Heap) (i : ScopeId) (name : String) (v : Value) :
    Option (Option Heap) :=
  h.outwards? (fun j => if (h.binding? j name).isSome then some (h.define j name v) else none)
    calls i

variable {h h' : Heap} {i j : ScopeId} {js : List ScopeId} {name : String}

/-! ### One scope on the way -/

theorem inside_of_parent? (outer : h.parent? i = some j) : i < h.size := by
  obtain ⟨s, found, -⟩ := Option.bind_eq_some_iff.mp outer
  exact (Array.getElem?_eq_some_iff.mp found).1

theorem owner?_bound (bound : (h.binding? i name).isSome = true) : h.owner? i name = some i := by
  cases hs : h.scopes[i]? with
  | none => simp [binding?, hs] at bound
  | some s =>
    have contains : s.bindings.contains name = true := by
      simpa [binding?, hs, Table.contains] using bound
    rw [owner?]
    simp only [hs, contains, if_true]

theorem owner?_outermost (unbound : h.binding? i name = none) (outermost : h.parent? i = none) :
    h.owner? i name = none := by
  cases hs : h.scopes[i]? with
  | none =>
    rw [owner?]
    simp only [hs]
  | some s =>
    have contains : s.bindings.contains name = false := by
      simpa [binding?, hs, Table.contains] using unbound
    have parent : s.parent? = none := by simpa [parent?, hs] using outermost
    rw [owner?]
    simp [hs, contains, parent]

theorem owner?_outer (unbound : h.binding? i name = none) (outer : h.parent? i = some j)
    (older : j < i) : h.owner? i name = h.owner? j name := by
  obtain ⟨s, hs, parent⟩ := Option.bind_eq_some_iff.mp outer
  have contains : s.bindings.contains name = false := by
    simpa [binding?, hs, Table.contains] using unbound
  rw [owner?]
  simp [hs, contains, parent, older]

/-! ### Scopes that stay -/

/-- The scopes of a heap are still there, and have the parents they had. -/
structure Keeps (h h' : Heap) : Prop where
  size : h.size ≤ h'.size
  parents : ∀ i < h.size, h'.parent? i = h.parent? i

theorem keeps_alloc (h : Heap) (parent : Option ScopeId) (bindings : Table String Value) :
    h.Keeps (h.alloc parent bindings) where
  size := by simp
  parents i old := by simp [parent?, h.scopes_alloc_of_lt _ _ old]

theorem keeps_define (h : Heap) (i : ScopeId) (name : String) (v : Value) :
    h.Keeps (h.define i name v) where
  size := by simp
  parents j _ := h.parent?_define i name v j

/-! ### Chains -/

namespace Chain

theorem mem_self (chain : h.Chain i js) : i ∈ js := by
  cases chain with
  | root | inner => exact List.mem_cons_self

theorem inside (chain : h.Chain i js) : ∀ j ∈ js, j < h.size := by
  induction chain with
  | root inside => exact List.forall_mem_singleton.mpr inside
  | inner outer rest ih => exact List.forall_mem_cons.mpr ⟨inside_of_parent? outer, ih⟩

theorem keep (keeps : h.Keeps h') (chain : h.Chain i js) : h'.Chain i js := by
  induction chain with
  | root inside outermost =>
    exact .root (Nat.lt_of_lt_of_le inside keeps.size) ((keeps.parents _ inside).trans outermost)
  | inner outer rest ih =>
    exact .inner ((keeps.parents _ (inside_of_parent? outer)).trans outer) ih

/-- A name is found in a scope on the chain that binds it, or not at all. -/
theorem binds_of_owner? (chain : h.Chain i js) (older : js.Pairwise (· > ·))
    (found : h.owner? i name = some j) : j ∈ js ∧ (h.binding? j name).isSome = true := by
  induction chain with
  | @root i inside outermost =>
    cases bound : h.binding? i name with
    | some v =>
      rw [owner?_bound (by simp [bound])] at found
      cases found
      exact ⟨List.mem_cons_self, by simp [bound]⟩
    | none =>
      rw [owner?_outermost bound outermost] at found
      cases found
  | @inner i k js outer rest ih =>
    obtain ⟨first, older⟩ := List.pairwise_cons.mp older
    cases bound : h.binding? i name with
    | some v =>
      rw [owner?_bound (by simp [bound])] at found
      cases found
      exact ⟨List.mem_cons_self, by simp [bound]⟩
    | none =>
      rw [owner?_outer bound outer (first k rest.mem_self)] at found
      obtain ⟨mem, binds⟩ := ih older found
      exact ⟨List.mem_cons_of_mem _ mem, binds⟩

/-- Where parents are older, what succeeds in the scopes that bind a name
    succeeds first in the scope that the name is found in; and it takes no more
    calls than there are scopes. -/
theorem outwards?_eq {α : Type} {attempt : ScopeId → Option α}
    (succeeds : ∀ j, (attempt j).isSome = (h.binding? j name).isSome) {calls : Nat}
    (chain : h.Chain i js) (older : js.Pairwise (· > ·)) (few : js.length ≤ calls) :
    h.outwards? attempt calls i = some ((h.owner? i name).bind attempt) := by
  -- a call that does not succeed hands over to the rest of the chain
  have fails {j : ScopeId} (unbound : h.binding? j name = none) : attempt j = none :=
    Option.not_isSome_iff_eq_none.mp (by simp [succeeds, unbound])
  induction chain generalizing calls with
  | @root i inside outermost =>
    obtain _ | calls := calls
    · cases few
    cases bound : h.binding? i name with
    | some v =>
      obtain ⟨a, done⟩ := Option.isSome_iff_exists.mp ((succeeds i).trans (by simp [bound]))
      rw [owner?_bound (by simp [bound])]
      simp [outwards?, done]
    | none =>
      rw [owner?_outermost bound outermost]
      simp [outwards?, fails bound, outermost]
  | @inner i k js outer rest ih =>
    obtain _ | calls := calls
    · cases few
    obtain ⟨first, older⟩ := List.pairwise_cons.mp older
    cases bound : h.binding? i name with
    | some v =>
      obtain ⟨a, done⟩ := Option.isSome_iff_exists.mp ((succeeds i).trans (by simp [bound]))
      rw [owner?_bound (by simp [bound])]
      simp [outwards?, done]
    | none =>
      rw [owner?_outer bound outer (first k rest.mem_self), ← ih older (Nat.le_of_succ_le_succ few)]
      simp [outwards?, fails bound, outer]

theorem lookupWithin?_eq {calls : Nat} (chain : h.Chain i js) (older : js.Pairwise (· > ·))
    (few : js.length ≤ calls) : h.lookupWithin? calls i name = some (h.lookup? i name) :=
  outwards?_eq (fun _ => rfl) chain older few

theorem assignWithin?_eq {calls : Nat} (chain : h.Chain i js) (older : js.Pairwise (· > ·))
    (few : js.length ≤ calls) (v : Value) :
    h.assignWithin? calls i name v = some (h.assign? i name v) := by
  let attempt (j : ScopeId) : Option Heap :=
    if (h.binding? j name).isSome then some (h.define j name v) else none
  have succeeds : ∀ j, (attempt j).isSome = (h.binding? j name).isSome :=
    fun j => by cases bound : h.binding? j name <;> simp [attempt, bound]
  rw [assignWithin?, chain.outwards?_eq succeeds older few, assign?]
  cases found : h.owner? i name with
  | none => rfl
  | some j =>
    have binds := (chain.binds_of_owner? older found).2
    simp [attempt, binds]

end Chain

/-! ### Room -/

variable {E : Extent} {m n : Nat}

/-- Inside a scope that the run has made there is room for `n` more, one inside
    the other. -/
def Room (h : Heap) (E : Extent) (i : ScopeId) (n : Nat) : Prop :=
  ∃ js, h.Chain i js ∧ js.Pairwise (· > ·) ∧ (∀ j ∈ js, E.base ≤ j) ∧ js.length + n ≤ E.limit

namespace Room

theorem mono (room : h.Room E i n) (less : m ≤ n) : h.Room E i m := by
  obtain ⟨js, chain, older, new, few⟩ := room
  exact ⟨js, chain, older, new, by omega⟩

theorem made (room : h.Room E i n) : E.base ≤ i ∧ i < h.size := by
  obtain ⟨js, chain, -, new, -⟩ := room
  exact ⟨new i chain.mem_self, chain.inside i chain.mem_self⟩

theorem keep (keeps : h.Keeps h') (room : h.Room E i n) : h'.Room E i n := by
  obtain ⟨js, chain, rest⟩ := room
  exact ⟨js, chain.keep keeps, rest⟩

/-- A scope that is made takes from the room inside the scope around it. -/
theorem alloc (room : h.Room E i (n + 1)) (bindings : Table String Value) :
    (h.alloc (some i) bindings).Room E h.size n := by
  obtain ⟨js, chain, older, new, few⟩ := room
  have outer : (h.alloc (some i) bindings).parent? h.size = some i := by
    simp [parent?, scopes_alloc_size]
  have base : E.base ≤ h.size :=
    Nat.le_trans (new i chain.mem_self) (Nat.le_of_lt (chain.inside i chain.mem_self))
  -- the new scope comes before the chain of the scope around it, and is the youngest
  refine ⟨h.size :: js, .inner outer (chain.keep (h.keeps_alloc _ _)), ?_, ?_, ?_⟩
  · exact List.pairwise_cons.mpr ⟨chain.inside, older⟩
  · exact List.forall_mem_cons.mpr ⟨base, new⟩
  · rw [List.length_cons]
    omega

end Room

end Heap

end Script
