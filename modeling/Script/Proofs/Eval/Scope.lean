/-
  Script/Proofs/Eval/Scope.lean
  =============================
  **What a task may do to scopes.**

  A task adds names to the scope it runs in and to none that was there before
  besides; a call and a round of a loop add names to no such scope at all.  It
  rebinds names only in scopes that can be reached: from where it runs or from
  the values it calls, by way of parents and of the scopes that function values
  close over.

  Main statements: `Task.names_perform` and `Task.untouched_perform`.
-/
import Script.Proofs.Eval.Confined

namespace Script

/-! ### Names -/

/-- The scope that a task may add names to, if it is older than the task. -/
def Task.scope? : Task → Option ScopeId
  | .expr _ i | .stmt _ i | .block _ i | .program _ i => some i
  | .round .. | .apply .. => none

namespace Confinement

/-- Statements run in one scope and in new ones; nothing else is asked. -/
def naming (scope? : Option ScopeId) (size : Nat) : Confinement where
  works i := scope? = some i ∨ size ≤ i
  sees _ := True
  allows _ := True
  sees_of_works _ := trivial
  allows_function := Iff.rfl
  allows_plain _ _ := trivial

theorem within_naming (scope? : Option ScopeId) (size : Nat) (v : Value) :
    v.Within (naming scope? size) :=
  fun _ _ => trivial

theorem heap_within_naming (scope? : Option ScopeId) (h : Heap) :
    h.Within (naming scope? h.size) := by
  constructor
  · exact fun i new => .inr new
  · exact fun i s _ _ => ⟨fun _ _ => trivial, fun e _ => within_naming _ _ e.2⟩

theorem task_within_naming (t : Task) (size : Nat) : t.Within (naming t.scope? size) := by
  cases t with
  | expr | stmt | block | program => exact .inl rfl
  | round => exact trivial
  | apply callee args => exact ⟨within_naming _ _ callee, fun v _ => within_naming _ _ v⟩

end Confinement

/-- A task keeps the parent and the names of every scope there was before it;
    names are added only to the scope it runs in, if there is one. -/
theorem Task.names_perform [Digesting] {t : Task} {fuel : Nat} {s s' : Store} {answer : Answer}
    (h : t.perform fuel s = some (answer, s')) {i : ScopeId} (old : i < s.heap.size) :
    s'.heap.parent? i = s.heap.parent? i ∧ s.heap.names i <+: s'.heap.names i ∧
      (t.scope? ≠ some i → s'.heap.names i = s.heap.names i) := by
  obtain ⟨-, growth, -⟩ := within_perform (Confinement.task_within_naming t s.heap.size)
    (Confinement.heap_within_naming t.scope? s.heap) h
  refine ⟨growth.parents i old, growth.names i old, fun other => growth.sameNames i old ?_⟩
  rintro (here | new)
  · exact other here
  · exact absurd old (Nat.not_lt.mpr new)

/-- A block inside a condition names something in the scope around it, a loop
    inside that block only in a scope of its own, and rebinding an outer name
    adds none. -/
theorem Task.names_perform_loop :
    let _ : Digesting := ⟨fun _ => 0⟩
    let round : Block := [
      .define "b" (.identifier "n"),
      .assign "n" (.binary (.identifier "n") .add (.integer 1))]
    let t : Task := .block [.bare (.conditional (.boolean true) [
      .define "a" (.integer 5),
      .bare (.loop (.binary (.identifier "n") .less (.integer 2)) round)] none)] 1
    let s : Store := ⟨⟨#[⟨⟨[("n", .integer 1)]⟩, none⟩, ⟨.empty, some 0⟩]⟩, 0, 0, ""⟩
    let s' : Store := ⟨⟨#[⟨⟨[("n", .integer 2)]⟩, none⟩, ⟨⟨[("a", .integer 5)]⟩, some 0⟩,
      ⟨⟨[("b", .integer 1)]⟩, some 1⟩]⟩, 0, 0, ""⟩
    t.perform 100 s = some (⟨.value .null, ""⟩, s') ∧ 0 < s.heap.size ∧
      s'.heap.parent? 0 = s.heap.parent? 0 ∧ t.scope? ≠ some 0 ∧
      s'.heap.names 0 = s.heap.names 0 := by
  intro _ round t s s'
  have run : t.perform 100 s = some (⟨.value .null, ""⟩, s') := by cbv
  have old : 0 < s.heap.size := by decide
  have other : t.scope? ≠ some 0 := by decide
  obtain ⟨parent, -, names⟩ := names_perform run old
  exact ⟨run, old, parent, other, names other⟩

/-! ### Reach -/

/-- A function value that closes over the scope is the value or held by it. -/
def Value.Captures (v : Value) (i : ScopeId) : Prop :=
  ∃ n params body, v.Holds (.function n params body i)

/-- The scopes that can be reached from some: by way of parents, and of the
    scopes that bound values capture. -/
inductive Heap.Reaches (h : Heap) (roots : ScopeId → Prop) : ScopeId → Prop
  | root {i} (start : roots i) : Reaches h roots i
  | parent {i j} (reach : Reaches h roots i) (outer : h.parent? i = some j) : Reaches h roots j
  | capture {i j s e} (reach : Reaches h roots i) (found : h.scopes[i]? = some s)
    (bound : e ∈ s.bindings.entries) (captures : e.2.Captures j) : Reaches h roots j

/-- The scopes that a task starts from. -/
def Task.Roots : Task → ScopeId → Prop
  | .expr _ j | .stmt _ j | .block _ j | .program _ j | .round _ j => fun i => i = j
  | .apply callee args => fun i => callee.Captures i ∨ ∃ v ∈ args, v.Captures i

namespace Confinement

/-- Only what is reached, and new scopes, are seen. -/
def reach (h : Heap) (roots : ScopeId → Prop) : Confinement where
  works i := h.Reaches roots i ∨ h.size ≤ i
  sees i := h.Reaches roots i ∨ h.size ≤ i
  allows v := ∀ n params body i, v = .function n params body i → h.Reaches roots i ∨ h.size ≤ i
  sees_of_works := id
  allows_function := by
    intro n params body i
    constructor
    · exact fun allowed => allowed n params body i rfl
    · rintro seen n' params' body' i' ⟨⟩
      exact seen
  allows_plain := by
    rintro v - other n params body i rfl
    exact absurd rfl other

variable {h : Heap} {roots : ScopeId → Prop}

theorem within_reach {v : Value} (reached : ∀ i, v.Captures i → h.Reaches roots i) :
    v.Within (reach h roots) := by
  rintro w held n params body i rfl
  exact .inl (reached i ⟨n, params, body, held⟩)

theorem heap_within_reach : h.Within (reach h roots) := by
  constructor
  · exact fun i new => .inr new
  · rintro i s (reached | new) found
    · constructor
      · exact fun j outer => .inl (reached.parent (by simp [Heap.parent?, found, outer]))
      · exact fun e bound => within_reach fun j captures => reached.capture found bound captures
    · rw [Array.getElem?_eq_none new] at found
      cases found

theorem task_within_reach (t : Task) (h : Heap) : t.Within (reach h t.Roots) := by
  cases t with
  | expr | stmt | block | program | round => exact .inl (.root rfl)
  | apply callee args =>
    constructor
    · exact within_reach fun i captures => .root (.inl captures)
    · exact fun v mem => within_reach fun i captures => .root (.inr ⟨v, mem, captures⟩)

end Confinement

/-- A task leaves every scope as it is that cannot be reached from where it
    starts. -/
theorem Task.untouched_perform [Digesting] {t : Task} {fuel : Nat} {s s' : Store} {answer : Answer}
    (h : t.perform fuel s = some (answer, s')) {i : ScopeId} (old : i < s.heap.size)
    (hidden : ¬ s.heap.Reaches t.Roots i) : s'.heap.scopes[i]? = s.heap.scopes[i]? := by
  obtain ⟨-, growth, -⟩ := within_perform (Confinement.task_within_reach t s.heap)
    Confinement.heap_within_reach h
  refine growth.same i old ?_
  rintro (reached | new)
  · exact hidden reached
  · exact absurd old (Nat.not_lt.mpr new)

/-- A call in the second scope reaches the third, which the function in its
    array closes over, but not the first, which binds the name it rebinds too. -/
theorem Task.untouched_perform_twin :
    let _ : Digesting := ⟨fun _ => 0⟩
    let f : Value := .function 0 ["y"] [
      .assign "x" (.identifier "y"), .assign "z" (.boolean true)] 2
    let t : Task := .expr (.call (.index (.identifier "fs") (.integer 0)) [.integer 7]) 1
    let s : Store := ⟨⟨#[
      ⟨⟨[("x", .integer 1)]⟩, none⟩,
      ⟨⟨[("x", .integer 2), ("fs", .array [f])]⟩, none⟩,
      ⟨⟨[("z", .integer 3)]⟩, some 1⟩]⟩, 1, 0, ""⟩
    let s' : Store := ⟨⟨#[
      ⟨⟨[("x", .integer 1)]⟩, none⟩,
      ⟨⟨[("x", .integer 7), ("fs", .array [f])]⟩, none⟩,
      ⟨⟨[("z", .boolean true)]⟩, some 1⟩, ⟨⟨[("y", .integer 7)]⟩, some 2⟩]⟩, 1, 0, ""⟩
    t.perform 100 s = some (⟨.value .null, ""⟩, s') ∧ 0 < s.heap.size ∧
      ¬ s.heap.Reaches t.Roots 0 ∧ s'.heap.scopes[0]? = s.heap.scopes[0]? := by
  intro _ f t s s'
  have run : t.perform 100 s = some (⟨.value .null, ""⟩, s') := by cbv
  have old : 0 < s.heap.size := by decide
  have inner : ∀ i, s.heap.Reaches t.Roots i → i = 1 ∨ i = 2 := by
    intro i reached
    induction reached with
    | root start => exact .inl start
    | parent _ outer ih =>
      rcases ih with rfl | rfl <;> cases outer
      exact .inl rfl
    | capture _ found bound captures ih =>
      obtain ⟨n, params, body, held⟩ := captures
      rcases ih with rfl | rfl <;> cases found
      · rcases List.mem_cons.mp bound with rfl | bound
        · cases held
        · cases List.mem_singleton.mp bound
          rcases held with _ | _ | ⟨mem, held⟩
          rw [List.mem_singleton.mp mem] at held
          change Value.Holds (.function _ _ _ 2) _ at held
          cases held
          exact .inr rfl
      · cases List.mem_singleton.mp bound
        cases held
  have hidden : ¬ s.heap.Reaches t.Roots 0 := fun reached => by
    rcases inner 0 reached with same | same <;> cases same
  exact ⟨run, old, hidden, untouched_perform run old hidden⟩

end Script
