/-
  Script/Proofs/Eval/Met.lean
  ===========================
  **What a run meets.**

  The values that a run meets are in its control, on its stack and in its scopes.
  A step computes new ones from those that are there, and makes one anew where it
  evaluates a function literal.  So a property that only functions may lack, once
  it holds of all that a machine meets, at every depth, holds on until the next
  function is made.

  Main statements: `Heap.Every.alloc`, `Heap.Every.define` and
  `Heap.Every.nameValue` for the scopes, and `Machine.meets_of_step` for a step.
-/
import Script.Proofs.Eval.Run
import Script.Proofs.Heap.Growth

namespace Script

/-! ### Scopes -/

/-- All that is bound to a name has a property, at every depth. -/
def Heap.Every (p : Value → Prop) (h : Heap) : Prop :=
  ∀ (i : ScopeId) (s : Scope), h.scopes[i]? = some s → ∀ e ∈ s.bindings.entries, e.2.Every p

namespace Heap.Every

variable {p : Value → Prop} {h : Heap}

theorem mono {q : Value → Prop} (imp : ∀ v, p v → q v) (hh : h.Every p) : h.Every q :=
  fun i s found e bound => (hh i s found e bound).mono imp

theorem alloc (hh : h.Every p) (parent : Option ScopeId) {bindings : Table String Value}
    (hb : ∀ e ∈ bindings.entries, e.2.Every p) : (h.alloc parent bindings).Every p := by
  intro i s found
  rcases h.scopes_alloc_cases _ _ found with ⟨-, found⟩ | ⟨-, rfl⟩
  · exact hh i s found
  · exact hb

theorem define (hh : h.Every p) (i : ScopeId) (name : String) {v : Value} (hv : v.Every p) :
    (h.define i name v).Every p := by
  intro j s found
  obtain ⟨s₀, before, rfl | rfl⟩ := h.scopes_define_cases i name v found
  · exact hh j s before
  · exact Table.forall_mem_insert (hh j s₀ before) hv

theorem binding? (hh : h.Every p) {i : ScopeId} {name : String} {v : Value}
    (bound : h.binding? i name = some v) : v.Every p := by
  obtain ⟨s, hs, get⟩ := Option.bind_eq_some_iff.mp bound
  exact hh i s hs _ (Table.mem_of_find? get)

theorem lookup? (hh : h.Every p) {i : ScopeId} {name : String} {v : Value}
    (found : h.lookup? i name = some v) : v.Every p := by
  obtain ⟨j, -, bound⟩ := Option.bind_eq_some_iff.mp found
  exact hh.binding? bound

/-- A name that is not bound is a built-in function, or an error. -/
theorem nameValue {s : Store} (lenient : Value.Lenient p)
    (hh : s.heap.Every p) (i : ScopeId) (name : String) : (s.nameValue i name).ErrorOr p := by
  unfold Store.nameValue
  split
  · rename_i v found
    exact (hh.lookup? found).errorOr
  · split
    · exact (lenient.builtin _).errorOr
    · exact Value.errorOr_failure _

end Heap.Every

/-! ### Machines -/

/-- The values that wait in a frame have a property, at every depth. -/
def Frame.Meets (p : Value → Prop) : Frame → Prop
  | .right _ v | .index v => v.Every p
  | .argument f done _ _ => f.Every p ∧ ∀ v ∈ done, v.Every p
  | .item done _ _ => ∀ v ∈ done, v.Every p
  | .key done _ _ _ => (Value.table done).Every p
  | .value done _ k _ _ => (Value.table done).Every p ∧ k.Every p
  | _ => True

def Control.Meets (p : Value → Prop) : Control → Prop
  | .call f args => f.Every p ∧ ∀ v ∈ args, v.Every p
  | .give v => v.Every p
  | .eval _ _ | .exec _ _ => True

/-- All values that a machine meets have a property, at every depth, and it has made
    at least so many function values. -/
structure Machine.Meets (p : Value → Prop) (made : Nat) (m : Machine) : Prop where
  control : m.control.Meets p
  stack : ∀ f ∈ m.stack, f.Meets p
  heap : m.store.heap.Every p
  functions : made ≤ m.store.functions

section Mono

variable {p q : Value → Prop} (imp : ∀ v, p v → q v)

include imp

theorem Frame.Meets.mono {f : Frame} (hf : f.Meets p) : f.Meets q := by
  cases f with
  | right | index | key => exact Value.Every.mono imp hf
  | argument => exact ⟨hf.1.mono imp, fun v hv => (hf.2 v hv).mono imp⟩
  | item => exact fun v hv => (hf v hv).mono imp
  | value => exact ⟨hf.1.mono imp, hf.2.mono imp⟩
  | _ => trivial

theorem Control.Meets.mono {control : Control} (hc : control.Meets p) : control.Meets q := by
  cases control with
  | call => exact ⟨hc.1.mono imp, fun v hv => (hc.2 v hv).mono imp⟩
  | give => exact Value.Every.mono imp hc
  | eval | exec => trivial

theorem Machine.Meets.mono {made made' : Nat} {m : Machine} (meets : m.Meets p made)
    (functions : made' ≤ m.store.functions) : m.Meets q made' :=
  ⟨meets.control.mono imp, fun f hf => (meets.stack f hf).mono imp, meets.heap.mono imp, functions⟩

end Mono

namespace Machine

variable {p : Value → Prop} {made : Nat} {stack : List Frame} {store : Store}

section Step

variable (on : Value.OnFunctions p) (hk : ∀ f ∈ stack, f.Meets p) (hh : store.heap.Every p)
  (hm : made ≤ store.functions)

theorem meets_push {control : Control} {f : Frame} (hc : control.Meets p) (hf : f.Meets p)
    (hk : ∀ f ∈ stack, f.Meets p) (hh : store.heap.Every p) (hm : made ≤ store.functions) :
    Meets p made ⟨control, f :: stack, store⟩ :=
  ⟨hc, List.forall_mem_cons.mpr ⟨hf, hk⟩, hh, hm⟩

include on hk hh hm

theorem meets_failure (f : Failure) : Meets p made ⟨.give f.value, stack, store⟩ :=
  ⟨on.failure f, hk, hh, hm⟩

theorem meets_null : Meets p made ⟨.give .null, stack, store⟩ :=
  ⟨on.lenient.null, hk, hh, hm⟩

omit on in
theorem meets_continueCall {f : Value} {done : List Value} (rest : List Expr) (i : ScopeId)
    (hf : f.Every p) (hd : ∀ v ∈ done, v.Every p) :
    Meets p made (continueCall f done rest i stack store) := by
  cases rest with
  | nil => exact ⟨⟨hf, hd⟩, hk, hh, hm⟩
  | cons e rest => exact meets_push trivial ⟨hf, hd⟩ hk hh hm

theorem meets_continueArray {done : List Value} (rest : List Expr) (i : ScopeId)
    (hd : ∀ v ∈ done, v.Every p) : Meets p made (continueArray done rest i stack store) := by
  cases rest with
  | nil => exact ⟨on.lenient.array.mpr hd, hk, hh, hm⟩
  | cons e rest => exact meets_push trivial hd hk hh hm

omit on in
theorem meets_continueTable {done : Entries} (rest : List (Expr × Expr)) (i : ScopeId)
    (hd : (Value.table done).Every p) : Meets p made (continueTable done rest i stack store) := by
  rcases rest with _ | ⟨⟨key, value⟩, rest⟩
  · exact ⟨hd, hk, hh, hm⟩
  · exact meets_push trivial hd hk hh hm

theorem meets_evalExpr {e : Expr} (other : ∀ ps b, e ≠ .function ps b) (i : ScopeId) :
    Meets p made (evalExpr e i stack store) := by
  cases e with
  | identifier name =>
    exact ⟨on.of_errorOr (hh.nameValue on.lenient i name), hk, hh, hm⟩
  | integer n => exact ⟨on.lenient.integer n, hk, hh, hm⟩
  | string text => exact ⟨on.lenient.string text, hk, hh, hm⟩
  | boolean b => exact ⟨on.lenient.boolean b, hk, hh, hm⟩
  | function ps b => exact absurd rfl (other ps b)
  | array items => exact meets_continueArray on hk hh hm items i (by simp)
  | table pairs =>
    have empty : (Value.table .empty).Every p := on.lenient.table.mpr (by simp [Table.empty])
    exact meets_continueTable hk hh hm pairs i empty
  | unary | binary | conditional | loop | call | index =>
    exact meets_push trivial trivial hk hh hm

omit on in
theorem meets_execStmt (s : Stmt) (i : ScopeId) : Meets p made (execStmt s i stack store) := by
  cases s with
  | define | assign | «return» => exact meets_push trivial trivial hk hh hm
  | bare | block => exact ⟨trivial, hk, hh, hm⟩

theorem meets_execBlock (b : Block) (i : ScopeId) : Meets p made (execBlock b i stack store) := by
  cases b with
  | nil => exact meets_null on hk hh hm
  | cons s rest =>
    have hk' : ∀ f ∈ .sequence rest i :: stack, f.Meets p :=
      List.forall_mem_cons.mpr ⟨trivial, hk⟩
    exact meets_execStmt hk' hh hm s i

theorem meets_callValue {f : Value} {args : List Value} (hf : f.Every p)
    (ha : ∀ v ∈ args, v.Every p) {m : Machine} (h : callValue f args stack store = .running m) :
    Meets p made m := by
  rcases callValue_cases h with ⟨n, params, body, scope, rfl, -, rfl⟩ |
    ⟨b, v, text, -, reply, rfl⟩ | ⟨failure, rfl⟩
  · have bindings := forall_mem_parameterBindings on.lenient.null params args
      Table.forall_mem_empty ha
    exact meets_push trivial trivial hk (hh.alloc _ bindings) hm
  · exact ⟨on.of_errorOr (b.errorOr_call on.lenient ha reply), hk, hh, hm⟩
  · exact meets_failure on hk hh hm failure

theorem meets_resume [Digesting] {f : Frame} {v : Value} (hf : f.Meets p) (hv : v.Every p) :
    Meets p made (resume f v stack store) := by
  have given {w : Value} (hw : w.ErrorOr p) : Meets p made ⟨.give w, stack, store⟩ :=
    ⟨on.of_errorOr hw, hk, hh, hm⟩
  cases f with
  | unary op => exact given (op.errorOr_apply on.lenient v)
  | left op right i => exact meets_push trivial hv hk hh hm
  | right op left => exact given (op.errorOr_apply on.lenient left v)
  | branch consequence alternative i =>
    simp only [resume]
    split
    · exact ⟨trivial, hk, hh, hm⟩
    · split
      · exact ⟨trivial, hk, hh, hm⟩
      · exact meets_null on hk hh hm
  | test condition body i =>
    simp only [resume]
    split
    · exact meets_push trivial trivial hk (hh.alloc _ Table.forall_mem_empty) hm
    · exact meets_null on hk hh hm
  | again condition body i =>
    simp only [resume]
    split
    · exact ⟨hv, hk, hh, hm⟩
    · exact meets_push trivial trivial hk hh hm
  | callee args i => exact meets_continueCall hk hh hm args i hv (by simp)
  | argument callee done rest i =>
    obtain ⟨hc, hd⟩ := hf
    have all := List.forall_mem_append.mpr ⟨hd, List.forall_mem_singleton.mpr hv⟩
    exact meets_continueCall hk hh hm rest i hc all
  | item done rest i =>
    have all := List.forall_mem_append.mpr ⟨hf, List.forall_mem_singleton.mpr hv⟩
    exact meets_continueArray on hk hh hm rest i all
  | key done value rest i =>
    simp only [resume]
    split
    · exact meets_push trivial ⟨hf, hv⟩ hk hh hm
    · exact meets_failure on hk hh hm _
  | value done place key rest i =>
    obtain ⟨hd, hkey⟩ := hf
    have all : ∀ e ∈ (done.insert place (key, v)).entries, e.2.1.Every p ∧ e.2.2.Every p :=
      Table.forall_mem_insert (on.lenient.table.mp hd) ⟨hkey, hv⟩
    exact meets_continueTable hk hh hm rest i (on.lenient.table.mpr all)
  | collection index i => exact meets_push trivial hv hk hh hm
  | index collection => exact given (Value.errorOr_at on.lenient hf v)
  | define name i => exact meets_null on hk (hh.define i name hv) hm
  | assign name i =>
    simp only [resume]
    split
    · rename_i owner found
      exact meets_null on hk (hh.define owner name hv) hm
    · exact meets_failure on hk hh hm _
  | «return» => exact ⟨on.returned.mpr hv, hk, hh, hm⟩
  | sequence rest i =>
    simp only [resume]
    split
    · exact ⟨hv, hk, hh, hm⟩
    · exact ⟨trivial, hk, hh, hm⟩
  | leave => exact ⟨on.unreturned hv, hk, hh, hm⟩

omit on in
theorem meets_passError (f : Frame) {v : Value} (hv : v.Every p) :
    Meets p made (passError f v stack store) := by
  cases f <;> exact ⟨hv, hk, hh, hm⟩

end Step

/-- A step that makes no function meets no value but what comes of those before. -/
theorem meets_of_step [Digesting] (on : Value.OnFunctions p) {m m' : Machine}
    (meets : m.Meets p made) (other : ∀ ps b i, m.control ≠ .eval (.function ps b) i)
    (h : m.step = .running m') : m'.Meets p made := by
  obtain ⟨control, stack, store⟩ := m
  obtain ⟨hc, hk, hh, hm⟩ := meets
  cases control with
  | eval e i =>
    cases h
    exact meets_evalExpr on hk hh hm (fun ps b same => other ps b i (same ▸ rfl)) i
  | exec b i =>
    cases h
    exact meets_execBlock on hk hh hm b i
  | call f args => exact meets_callValue on hk hh hm hc.1 hc.2 h
  | give v =>
    cases stack with
    | nil => cases h
    | cons f stack =>
      obtain ⟨hf, hk⟩ := List.forall_mem_cons.mp hk
      simp only [step] at h
      split at h
      · cases h
        exact meets_passError hk hh hm f hc
      · cases h
        exact meets_resume on hk hh hm hf hc

end Machine

end Script
