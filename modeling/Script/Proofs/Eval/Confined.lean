/-
  Script/Proofs/Eval/Confined.lean
  ================================
  **Runs in a confinement.**

  A machine is within a confinement when it works in scopes it may work in, and
  all values in its control, on its stack and in the scopes it sees are within.
  A step then leads to such a machine again, and changes scopes only as the
  confinement admits.

  Main statements: `Machine.follows_of_step` for one step, and
  `Task.within_perform` for a task that is performed.
-/
import Script.Proofs.Eval.Run
import Script.Proofs.Heap.Growth

namespace Script

/-! ### Machines within a confinement -/

/-- What a frame goes on with: scopes that may be worked in, values within the
    confinement. -/
def Frame.Within (C : Confinement) : Frame → Prop
  | .unary _ | .return | .leave => True
  | .left _ _ i | .branch _ _ i | .test _ _ i | .again _ _ i | .callee _ i | .collection _ i
  | .define _ i | .assign _ i | .sequence _ i => C.works i
  | .right _ v | .index v => v.Within C
  | .argument v done _ i => C.works i ∧ v.Within C ∧ ∀ v ∈ done, v.Within C
  | .item done _ i => C.works i ∧ ∀ v ∈ done, v.Within C
  | .key done _ _ i => C.works i ∧ (Value.table done).Within C
  | .value done _ k _ i => C.works i ∧ (Value.table done).Within C ∧ k.Within C

def Control.Within (C : Confinement) : Control → Prop
  | .eval _ i | .exec _ i => C.works i
  | .call callee args => callee.Within C ∧ ∀ v ∈ args, v.Within C
  | .give v => v.Passes C

structure Machine.Within (C : Confinement) (m : Machine) : Prop where
  control : m.control.Within C
  stack : ∀ f ∈ m.stack, f.Within C
  heap : m.store.heap.Within C

/-- A machine within a confinement, behind admitted changes of a heap. -/
structure Machine.Follows (C : Confinement) (h : Heap) (m : Machine) : Prop where
  within : m.Within C
  growth : C.Growth h m.store.heap

namespace Machine

variable {C : Confinement} {stack : List Frame} {store : Store}

/-! ### One step -/

theorem follows_same {control : Control} {h : Heap} (same : store.heap = h)
    (hc : control.Within C) (hk : ∀ f ∈ stack, f.Within C) (hh : h.Within C) :
    Follows C h ⟨control, stack, store⟩ := by
  subst same
  exact ⟨⟨hc, hk, hh⟩, C.growth_refl _⟩

theorem follows_push {control : Control} {f : Frame} (hc : control.Within C)
    (hf : f.Within C) (hk : ∀ f ∈ stack, f.Within C) (hh : store.heap.Within C) :
    Follows C store.heap ⟨control, f :: stack, store⟩ :=
  follows_same rfl hc (List.forall_mem_cons.mpr ⟨hf, hk⟩) hh

theorem passes_nameValue (hh : store.heap.Within C) {i : ScopeId} (seen : C.sees i)
    (name : String) : (store.nameValue i name).Passes C := by
  unfold Store.nameValue
  split
  · rename_i v found
    exact (hh.lookup? seen found).passes
  · split
    · exact Value.within_builtin.passes
    · exact Value.passes_failure _

section Continue

variable {i : ScopeId} (works : C.works i) (hk : ∀ f ∈ stack, f.Within C)
  (hh : store.heap.Within C)

include works hk hh

theorem follows_continueCall {callee : Value} {done : List Value} (rest : List Expr)
    (hf : callee.Within C) (hd : ∀ v ∈ done, v.Within C) :
    Follows C store.heap (continueCall callee done rest i stack store) := by
  cases rest with
  | nil => exact follows_same rfl ⟨hf, hd⟩ hk hh
  | cons e rest => exact follows_push works ⟨works, hf, hd⟩ hk hh

theorem follows_continueArray {done : List Value} (rest : List Expr)
    (hd : ∀ v ∈ done, v.Within C) :
    Follows C store.heap (continueArray done rest i stack store) := by
  cases rest with
  | nil => exact follows_same rfl (Value.within_array.mpr hd).passes hk hh
  | cons e rest => exact follows_push works ⟨works, hd⟩ hk hh

theorem follows_continueTable {done : Entries} (rest : List (Expr × Expr))
    (hd : (Value.table done).Within C) :
    Follows C store.heap (continueTable done rest i stack store) := by
  rcases rest with _ | ⟨⟨key, value⟩, rest⟩
  · exact follows_same rfl hd.passes hk hh
  · exact follows_push works ⟨works, hd⟩ hk hh

theorem follows_evalExpr (e : Expr) : Follows C store.heap (evalExpr e i stack store) := by
  cases e with
  | identifier name =>
    exact follows_same rfl (passes_nameValue hh (C.sees_of_works works) name) hk hh
  | integer n => exact follows_same rfl Value.within_integer.passes hk hh
  | string text => exact follows_same rfl Value.within_string.passes hk hh
  | boolean b => exact follows_same rfl Value.within_boolean.passes hk hh
  | unary op operand => exact follows_push works trivial hk hh
  | function params body =>
    exact follows_same rfl (Value.within_function.mpr (C.sees_of_works works)).passes hk hh
  | array items => exact follows_continueArray works hk hh items (by simp)
  | table pairs =>
    exact follows_continueTable works hk hh pairs (by simp [Table.empty])
  | binary | conditional | loop | call | index =>
    exact follows_push works works hk hh

theorem follows_execStmt (s : Stmt) : Follows C store.heap (execStmt s i stack store) := by
  cases s with
  | define | assign => exact follows_push works works hk hh
  | «return» value => exact follows_push works trivial hk hh
  | bare | block => exact follows_same rfl works hk hh

theorem follows_execBlock (b : Block) : Follows C store.heap (execBlock b i stack store) := by
  cases b with
  | nil => exact follows_same rfl Value.within_null.passes hk hh
  | cons s rest =>
    have hk' : ∀ f ∈ .sequence rest i :: stack, f.Within C :=
      List.forall_mem_cons.mpr ⟨works, hk⟩
    exact follows_execStmt works hk' hh s

end Continue

/-- A block that runs in a scope of its own, inside one that is seen. -/
theorem follows_alloc (hh : store.heap.Within C) {parent : ScopeId} (seen : C.sees parent)
    {bindings : Table String Value} (hb : ∀ e ∈ bindings.entries, e.2.Within C) (body : Block)
    (hk : ∀ f ∈ stack, f.Within C) (depth : Nat) :
    Follows C store.heap
      ⟨.exec body store.heap.size, stack,
        { store with heap := store.heap.alloc (some parent) bindings, depth := depth }⟩ := by
  constructor
  · exact ⟨hh.fresh _ (Nat.le_refl _), hk, hh.alloc seen hb⟩
  · exact C.growth_alloc _ _ _

theorem follows_callValue {callee : Value} {args : List Value} (hf : callee.Within C)
    (ha : ∀ v ∈ args, v.Within C) (hk : ∀ f ∈ stack, f.Within C) (hh : store.heap.Within C)
    {m : Machine} (h : callValue callee args stack store = .running m) :
    Follows C store.heap m := by
  rcases callValue_cases h with ⟨n, params, body, scope, rfl, -, rfl⟩ | ⟨b, v, text, -, reply, rfl⟩ |
    ⟨failure, rfl⟩
  · have bindings := forall_mem_parameterBindings Value.within_null params args Table.forall_mem_empty ha
    have hk' : ∀ f ∈ .leave :: stack, f.Within C := List.forall_mem_cons.mpr ⟨trivial, hk⟩
    exact follows_alloc hh (Value.within_function.mp hf) bindings body hk' _
  · exact follows_same rfl (b.passes_call ha reply) hk hh
  · exact follows_same rfl (Value.passes_failure _) hk hh

theorem follows_resume [Digesting] {f : Frame} {v : Value} (hf : f.Within C) (hv : v.Within C)
    (hk : ∀ f ∈ stack, f.Within C) (hh : store.heap.Within C) :
    Follows C store.heap (resume f v stack store) := by
  cases f with
  | unary op => exact follows_same rfl (op.passes_apply v) hk hh
  | left op right i => exact follows_push hf hv hk hh
  | right op left => exact follows_same rfl (op.passes_apply left v) hk hh
  | branch consequence alternative i =>
    simp only [resume]
    split
    · exact follows_same rfl hf hk hh
    · split
      · exact follows_same rfl hf hk hh
      · exact follows_same rfl Value.within_null.passes hk hh
  | test condition body i =>
    simp only [resume]
    split
    · have hk' : ∀ f ∈ .again condition body i :: stack, f.Within C :=
        List.forall_mem_cons.mpr ⟨hf, hk⟩
      exact follows_alloc hh (C.sees_of_works hf) Table.forall_mem_empty body hk' store.depth
    · exact follows_same rfl Value.within_null.passes hk hh
  | again condition body i =>
    simp only [resume]
    split
    · exact follows_same rfl hv.passes hk hh
    · exact follows_push hf hf hk hh
  | callee args i => exact follows_continueCall hf hk hh args hv (by simp)
  | argument callee done rest i =>
    obtain ⟨works, hc, hd⟩ := hf
    have all := List.forall_mem_append.mpr ⟨hd, List.forall_mem_singleton.mpr hv⟩
    exact follows_continueCall works hk hh rest hc all
  | item done rest i =>
    obtain ⟨works, hd⟩ := hf
    have all := List.forall_mem_append.mpr ⟨hd, List.forall_mem_singleton.mpr hv⟩
    exact follows_continueArray works hk hh rest all
  | key done value rest i =>
    obtain ⟨works, hd⟩ := hf
    simp only [resume]
    split
    · exact follows_push works ⟨works, hd, hv⟩ hk hh
    · exact follows_same rfl (Value.passes_failure _) hk hh
  | value done place key rest i =>
    obtain ⟨works, hd, hkey⟩ := hf
    have all : ∀ e ∈ (done.insert place (key, v)).entries, e.2.1.Within C ∧ e.2.2.Within C :=
      Table.forall_mem_insert (Value.within_table.mp hd) ⟨hkey, hv⟩
    exact follows_continueTable works hk hh rest (Value.within_table.mpr all)
  | collection index i => exact follows_push hf hv hk hh
  | index collection => exact follows_same rfl (Value.passes_at hf v) hk hh
  -- the only frames that change a scope: one in place, one where the name is found
  | define name i =>
    exact ⟨⟨Value.within_null.passes, hk, hh.define i name hv⟩, C.growth_define _ hf name v⟩
  | assign name i =>
    simp only [resume]
    split
    · rename_i owner found
      obtain ⟨seen, bound⟩ := hh.owner? (C.sees_of_works hf) found
      exact ⟨⟨Value.within_null.passes, hk, hh.define owner name hv⟩,
        C.growth_rebind seen bound v⟩
    · exact follows_same rfl (Value.passes_failure _) hk hh
  | «return» => exact follows_same rfl (Value.within_returned.mpr hv).passes hk hh
  | sequence rest i =>
    simp only [resume]
    split
    · exact follows_same rfl hv.passes hk hh
    · exact follows_same rfl hf hk hh
  | leave => exact follows_same rfl hv.unreturned.passes hk hh

theorem follows_passError (f : Frame) {v : Value} (hv : v.Passes C)
    (hk : ∀ f ∈ stack, f.Within C) (hh : store.heap.Within C) :
    Follows C store.heap (passError f v stack store) := by
  cases f <;> exact follows_same rfl hv hk hh

/-- A step of a machine within a confinement leads to one within it, and changes
    the scopes only as it admits. -/
theorem follows_of_step [Digesting] {m m' : Machine} (within : m.Within C)
    (h : m.step = .running m') : Follows C m.store.heap m' := by
  obtain ⟨control, stack, store⟩ := m
  obtain ⟨hc, hk, hh⟩ := within
  cases control with
  | eval e i =>
    cases h
    exact follows_evalExpr hc hk hh e
  | exec b i =>
    cases h
    exact follows_execBlock hc hk hh b
  | call callee args => exact follows_callValue hc.1 hc.2 hk hh h
  | give v =>
    cases stack with
    | nil => cases h
    | cons f stack =>
      obtain ⟨hf, hk⟩ := List.forall_mem_cons.mp hk
      simp only [step] at h
      split at h
      · cases h
        exact follows_passError f hc hk hh
      · rename_i sound
        cases h
        exact follows_resume hf (hc.within (by simpa using sound)) hk hh

/-- What holds of every step holds of a run. -/
theorem follows_of_steps [Digesting] {m m' : Machine} (within : m.Within C) (steps : Steps m m') :
    Follows C m.store.heap m' := by
  refine steps.keeps (P := Follows C m.store.heap) (fun before next => ?_)
    ⟨within, C.growth_refl _⟩
  have after := follows_of_step before.within next
  exact ⟨after.within, before.growth.trans after.growth⟩

end Machine

/-! ### Tasks in a confinement -/

namespace Task

variable {C : Confinement}

/-- What a task starts from is within a confinement. -/
def Within (C : Confinement) : Task → Prop
  | .expr _ i | .stmt _ i | .block _ i | .program _ i => C.works i
  | .round _ i => C.sees i
  | .apply callee args => callee.Within C ∧ ∀ v ∈ args, v.Within C

theorem follows_enter {t : Task} {s : Store} (ht : t.Within C) (hs : s.heap.Within C) :
    Machine.Follows C s.heap (t.enter s) := by
  cases t with
  | expr | block | program | apply => exact Machine.follows_same rfl ht (by simp) hs
  | stmt st i => exact Machine.follows_execStmt ht (by simp) hs st
  | round body i =>
    exact Machine.follows_alloc hs ht Table.forall_mem_empty body (by simp) s.depth

/-- A task that is performed keeps the heap within the confinement, changes it
    only as admitted, and yields an error or a value within. -/
theorem within_perform [Digesting] {t : Task} {fuel : Nat} {s s' : Store} {answer : Answer}
    (ht : t.Within C) (hs : s.heap.Within C) (h : t.perform fuel s = some (answer, s')) :
    s'.heap.Within C ∧ C.Growth s.heap s'.heap ∧
      ∀ v, answer.outcome = .value v → v.Passes C := by
  obtain ⟨m, o, steps, halts, rfl, rfl⟩ := steps_of_perform h
  have first : Machine.Follows C s.heap (t.start s) :=
    follows_enter (s := { s with output := "" }) ht hs
  have last := Machine.follows_of_steps first.within steps
  refine ⟨last.within.heap, first.growth.trans last.growth, ?_⟩
  intro v hv
  obtain ⟨-, ⟨code, rfl⟩ | ⟨w, rfl, given, -⟩⟩ := Machine.halted_cases halts
  · cases t <;> cases hv
  · have passes : w.Passes C := by
      have control := last.within.control
      rwa [given] at control
    cases t with
    | program =>
      cases hv
      exact passes.unreturned
    | _ =>
      cases hv
      exact passes

end Task

end Script
