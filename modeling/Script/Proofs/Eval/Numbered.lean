/-
  Script/Proofs/Eval/Numbered.lean
  ================================
  **The numbers of functions.**

  A function value carries what it is made of, and a number, which is all that
  equality looks at.  The number is the count of the functions made before, so it
  is given once, and copies of the value go wherever values go.  Hence among all
  the values that a run meets, at every depth, one number stands for one function,
  and equal values are one value.

  Main statements: `Machine.numbered_of_step`, `Machine.numbered_of_steps`, and
  `Task.numbered_perform`.
-/
import Script.Proofs.Eval.Met
import Script.Proofs.Value.Equal

namespace Script

/-! ### Numbered values -/

/-- Whether a value, by itself, is no function, or the one that its number stands
    for among so many. -/
def Value.Made (c : Closures) (made : Nat) : Value → Prop
  | .function n ps b i => n < made ∧ c n = ⟨ps, b, i⟩
  | _ => True

/-- The function values that a store has made are numbered below their count, and
    its scopes bind no others. -/
def Store.Numbered (c : Closures) (s : Store) : Prop := s.heap.Every (Value.Made c s.functions)

/-- What a task starts from are function values that the store has made. -/
def Task.Numbered (c : Closures) (s : Store) : Task → Prop
  | .apply callee args =>
    callee.Every (Value.Made c s.functions) ∧ ∀ v ∈ args, v.Every (Value.Made c s.functions)
  | _ => True

namespace Value

variable {c c' : Closures} {made made' : Nat}

theorem onFunctions_made : OnFunctions (Made c made) := by
  intro v other
  cases v with
  | function => exact absurd rfl other
  | _ => trivial

theorem known_of_made {v : Value} (h : v.Made c made) : v.Known c := by
  cases v with
  | function => exact h.2
  | _ => trivial

theorem Every.of {v : Value} (h : v.Every (Made c made)) : v.Of c := h.mono fun _ => known_of_made

/-- What was made stays when more functions are made. -/
theorem Made.later (more : made ≤ made') (same : ∀ n < made, c' n = c n) {v : Value}
    (h : v.Made c made) : v.Made c' made' := by
  cases v with
  | function n ps b i => exact ⟨Nat.lt_of_lt_of_le h.1 more, (same n h.1).trans h.2⟩
  | _ => trivial

end Value

/-! ### Stores -/

namespace Store.Numbered

variable {c : Closures} {s : Store}

theorem empty (c : Closures) : Store.empty.Numbered c := by
  rintro i scope ⟨⟩

/-- A new root binds nothing. -/
theorem ofStore (numbered : s.Numbered c) : (Session.ofStore s).store.Numbered c :=
  Heap.Every.alloc numbered none Table.forall_mem_empty

end Store.Numbered

/-! ### Machines -/

namespace Machine

variable {c : Closures}

/-- All functions that a machine meets are among those that its store has made. -/
def Numbered (c : Closures) (m : Machine) : Prop :=
  m.Meets (Value.Made c m.store.functions) m.store.functions

/-- A literal that is evaluated becomes the function of the next number. -/
theorem numbered_of_literal {ps : List String} {b : Block} {i : ScopeId} {stack : List Frame}
    {store : Store} (numbered : Numbered c ⟨.eval (.function ps b) i, stack, store⟩) :
    ∃ c', (∀ n < store.functions, c' n = c n) ∧
      Numbered c' (evalExpr (.function ps b) i stack store) := by
  let c' : Closures := Function.update c store.functions ⟨ps, b, i⟩
  have same : ∀ n < store.functions, c' n = c n := fun n old =>
    Function.update_of_ne (Nat.ne_of_lt old) _ _
  have new : c' store.functions = ⟨ps, b, i⟩ := Function.update_self ..
  have later : ∀ v : Value, v.Made c store.functions → v.Made c' (store.functions + 1) :=
    fun v => Value.Made.later (Nat.le_succ _) same
  refine ⟨c', same, ?_⟩
  constructor
  · exact (Value.every_atom rfl).mpr ⟨Nat.lt_succ_self _, new⟩
  · exact fun f hf => (numbered.stack f hf).mono later
  · exact numbered.heap.mono later
  · exact Nat.le_refl _

/-- After a step, the numbers given before stand for what they stood for, and the
    machine meets no functions but numbered ones. -/
theorem numbered_of_step [Digesting] {m m' : Machine} (numbered : m.Numbered c)
    (h : m.step = .running m') :
    ∃ c', m.store.functions ≤ m'.store.functions ∧ (∀ n < m.store.functions, c' n = c n) ∧
      m'.Numbered c' := by
  by_cases literal : ∃ ps b i, m.control = .eval (.function ps b) i
  · obtain ⟨control, stack, store⟩ := m
    obtain ⟨ps, b, i, rfl⟩ := literal
    cases h
    obtain ⟨c', same, after⟩ := numbered_of_literal numbered
    exact ⟨c', Nat.le_succ _, same, after⟩
  · have other : ∀ ps b i, m.control ≠ .eval (.function ps b) i :=
      fun ps b i same => literal ⟨ps, b, i, same⟩
    have after := meets_of_step Value.onFunctions_made numbered other h
    have later : ∀ v : Value, v.Made c m.store.functions → v.Made c m'.store.functions :=
      fun v => Value.Made.later after.functions fun _ _ => rfl
    exact ⟨c, after.functions, fun _ _ => rfl, after.mono later (Nat.le_refl _)⟩

/-- What holds of every step holds of a run. -/
theorem numbered_of_steps [Digesting] {m m' : Machine} (numbered : m.Numbered c)
    (steps : Steps m m') :
    ∃ c', m.store.functions ≤ m'.store.functions ∧ (∀ n < m.store.functions, c' n = c n) ∧
      m'.Numbered c' := by
  induction steps with
  | refl => exact ⟨c, Nat.le_refl _, fun _ _ => rfl, numbered⟩
  | tail _ next ih =>
    obtain ⟨c₁, more, same, numbered⟩ := ih
    obtain ⟨c₂, more', same', numbered'⟩ := numbered_of_step numbered next
    refine ⟨c₂, Nat.le_trans more more', fun n old => ?_, numbered'⟩
    exact (same' n (Nat.lt_of_lt_of_le old more)).trans (same n old)

end Machine

/-! ### Tasks -/

namespace Task

variable {c : Closures}

theorem functions_start (t : Task) (s : Store) : (t.start s).store.functions = s.functions := by
  cases t with
  | stmt st i => cases st <;> rfl
  | _ => rfl

theorem numbered_start {t : Task} {s : Store} (ht : t.Numbered c s) (hs : s.Numbered c) :
    (t.start s).Numbered c := by
  rw [Machine.Numbered, functions_start]
  have empty : ∀ f ∈ ([] : List Frame), f.Meets (Value.Made c s.functions) := nofun
  cases t with
  | expr | block | program => exact ⟨trivial, empty, hs, Nat.le_refl _⟩
  | stmt st i =>
    have heap : { s with output := "" }.heap.Every (Value.Made c s.functions) := hs
    exact Machine.meets_execStmt empty heap (Nat.le_refl _) st i
  | round body i =>
    exact ⟨trivial, empty, Heap.Every.alloc hs _ Table.forall_mem_empty, Nat.le_refl _⟩
  | apply callee args => exact ⟨ht, empty, hs, Nat.le_refl _⟩

/-- Performed where one number stands for one function, a task keeps it so, for all
    that it binds and for its result; the numbers given before stand for what they
    stood for. -/
theorem numbered_perform [Digesting] {t : Task} {fuel : Nat} {s s' : Store} {answer : Answer}
    (ht : t.Numbered c s) (hs : s.Numbered c) (h : t.perform fuel s = some (answer, s')) :
    ∃ c', s.functions ≤ s'.functions ∧ (∀ n < s.functions, c' n = c n) ∧ s'.Numbered c' ∧
      ∀ v, answer.outcome = .value v → v.Every (Value.Made c' s'.functions) := by
  obtain ⟨m, o, steps, halts, rfl, rfl⟩ := steps_of_perform h
  obtain ⟨c', more, same, numbered⟩ := Machine.numbered_of_steps (numbered_start ht hs) steps
  rw [functions_start] at more same
  refine ⟨c', more, same, numbered.heap, fun v hv => ?_⟩
  obtain ⟨-, ⟨code, rfl⟩ | ⟨w, rfl, given, -⟩⟩ := Machine.halted_cases halts
  · cases t <;> cases hv
  · have result : w.Every (Value.Made c' m.store.functions) := by
      have control := numbered.control
      rwa [given] at control
    cases t with
    | program =>
      cases hv
      exact Value.onFunctions_made.unreturned result
    | _ =>
      cases hv
      exact result

end Task

end Script
