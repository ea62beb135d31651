/-
  Script/Proofs/Eval/Error.lean
  =============================
  **Errors are never stored.**

  An error is an ordinary value, but it only passes: it is bound to no name, put
  into no array or table and wrapped by no return.  So where no scope holds an
  error at any depth, none does after a task, and what the task yields is an
  error itself or holds none.

  Main statement: `Task.errorFree_perform`.
-/
import Script.Proofs.Eval.Confined

namespace Script

/-- No error is the value or held by it, at any depth. -/
def Value.ErrorFree (v : Value) : Prop := ∀ message, ¬ v.Holds (.error message)

/-- No scope binds a name to a value that is or holds an error. -/
def Heap.ErrorFree (h : Heap) : Prop :=
  ∀ (i : ScopeId) (s : Scope), h.scopes[i]? = some s → ∀ e ∈ s.bindings.entries, e.2.ErrorFree

/-- A task is given no error to begin with. -/
def Task.ErrorFree : Task → Prop
  | .apply callee args => callee.ErrorFree ∧ ∀ v ∈ args, v.ErrorFree
  | _ => True

namespace Confinement

/-- Every scope may be used, and every value met but errors. -/
def errorFree : Confinement where
  works _ := True
  sees _ := True
  allows v := v.isError = false
  sees_of_works := id
  allows_function := by simp [Value.isError]
  allows_plain sound _ := sound

theorem within_errorFree {v : Value} : v.Within errorFree ↔ v.ErrorFree := by
  constructor
  · intro within message held
    cases within _ held
  · intro free w held
    cases w with
    | error message => exact absurd held (free message)
    | _ => rfl

theorem heap_within_errorFree {h : Heap} : h.Within errorFree ↔ h.ErrorFree := by
  constructor
  · exact fun within i s found e bound =>
      within_errorFree.mp ((within.scope i s trivial found).values e bound)
  · intro free
    constructor
    · exact fun _ _ => trivial
    · exact fun i s _ found =>
        ⟨fun _ _ => trivial, fun e bound => within_errorFree.mpr (free i s found e bound)⟩

theorem task_within_errorFree {t : Task} (free : t.ErrorFree) : t.Within errorFree := by
  cases t with
  | apply callee args =>
    obtain ⟨hf, ha⟩ := free
    exact ⟨within_errorFree.mpr hf, fun v mem => within_errorFree.mpr (ha v mem)⟩
  | _ => exact trivial

end Confinement

/-- A task that is performed where no error is stored stores none, and yields an
    error or a value that holds none. -/
theorem Task.errorFree_perform [Digesting] {t : Task} {fuel : Nat} {s s' : Store} {answer : Answer}
    (ht : t.ErrorFree) (hs : s.heap.ErrorFree) (h : t.perform fuel s = some (answer, s')) :
    s'.heap.ErrorFree ∧
      ∀ v, answer.outcome = .value v → v.isError = true ∨ v.ErrorFree := by
  obtain ⟨heap, -, yields⟩ := within_perform (Confinement.task_within_errorFree ht)
    (Confinement.heap_within_errorFree.mpr hs) h
  refine ⟨Confinement.heap_within_errorFree.mp heap, fun v hv => ?_⟩
  exact (yields v hv).imp_right Confinement.within_errorFree.mp

/-- The second of two calls divides by zero; what both have stored before is in
    place, and the array that the first one's result was for is not. -/
theorem Task.errorFree_perform_division :
    let _ : Digesting := ⟨fun _ => 0⟩
    let body : Block := [
      .assign "x" (.array [.identifier "x", .identifier "y"]),
      .return (.binary (.integer 10) .div (.identifier "y"))]
    let t : Task := .program ⟨[
      .define "f" (.function ["y"] body),
      .define "z" (.array [.call (.identifier "f") [.integer 2],
        .call (.identifier "f") [.integer 0]])]⟩ 0
    let s : Store := ⟨⟨#[⟨⟨[("x", .null)]⟩, none⟩]⟩, 0, 0, ""⟩
    let stored : Value := .array [.array [.null, .integer 2], .integer 0]
    let s' : Store := ⟨⟨#[
      ⟨⟨[("x", stored), ("f", .function 0 ["y"] body 0)]⟩, none⟩,
      ⟨⟨[("y", .integer 2)]⟩, some 0⟩, ⟨⟨[("y", .integer 0)]⟩, some 0⟩]⟩, 1, 0, ""⟩
    t.ErrorFree ∧ s.heap.ErrorFree ∧
      t.perform 100 s = some (⟨.value Failure.divisionByZero.value, ""⟩, s') ∧
      s'.heap.ErrorFree := by
  intro _ body t s stored s'
  have free : s.heap.ErrorFree := by
    rintro (_ | i) scope found e bound message held
    · cases found
      cases List.mem_singleton.mp bound
      cases held
    · cases found
  have run : t.perform 100 s = some (⟨.value Failure.divisionByZero.value, ""⟩, s') := by
    with_unfolding_all rfl
  have none : t.ErrorFree := trivial
  exact ⟨none, free, run, (errorFree_perform none free run).1⟩

end Script
