/-
  Script/Proofs/Eval/Returned.lean
  ================================
  **Returns do not leak from disciplined code.**

  The wrapper that a return puts around its payload is an ordinary value, and
  only blocks, loops and the ends of calls and programs treat it specially.  In
  disciplined code it meets nothing else: while it is on its way, the stack is
  one that passes it on to such an end, and everywhere else values hold no
  wrapper at any depth.

  Main statements: `Machine.disciplined_of_step` for one step, and
  `Task.unwrapped_perform` for a program.
-/
import Script.Proofs.Eval.Met
import Script.Proofs.Expr.Disciplined

namespace Script

/-! ### Values and scopes -/

/-- Whether a value, by itself, is neither a wrapper nor a function that may
    hand one on. -/
def Value.unwrapped : Value → Bool
  | .returned _ => false
  | .function _ _ body _ => Block.disciplined true body
  | _ => true

/-- No wrapper of a return is the value or held by it, at any depth, and the
    functions among these values have disciplined bodies. -/
def Value.Unwrapped (v : Value) : Prop := v.Every fun w => w.unwrapped = true

/-- All that is bound to a name is unwrapped. -/
def Heap.Unwrapped (h : Heap) : Prop :=
  ∀ (i : ScopeId) (s : Scope), h.scopes[i]? = some s → ∀ e ∈ s.bindings.entries, e.2.Unwrapped

namespace Value

theorem lenient_unwrapped : Lenient fun w => w.unwrapped = true := by
  intro v _ function returned
  cases v with
  | function => exact absurd rfl function
  | returned => exact absurd rfl returned
  | _ => rfl

theorem Unwrapped.null : null.Unwrapped := lenient_unwrapped.null

theorem Unwrapped.error (message : String) : (error message).Unwrapped := (every_atom rfl).mpr rfl

theorem unwrapped_array {items : List Value} :
    (array items).Unwrapped ↔ ∀ v ∈ items, v.Unwrapped :=
  lenient_unwrapped.array

theorem unwrapped_table {entries : Entries} : (table entries).Unwrapped ↔
    ∀ e ∈ entries.entries, e.2.1.Unwrapped ∧ e.2.2.Unwrapped :=
  lenient_unwrapped.table

theorem unwrapped_function {n : Nat} {ps : List String} {b : Block} {i : ScopeId} :
    (function n ps b i).Unwrapped ↔ Block.disciplined true b = true :=
  every_atom rfl

theorem Unwrapped.kind_ne {v : Value} (h : v.Unwrapped) : v.kind ≠ .returned := by
  cases v with
  | returned payload => cases h _ .self
  | _ => simp [kind]

theorem unreturned_of_kind_ne {v : Value} (h : v.kind ≠ .returned) : v.unreturned = v := by
  cases v with
  | returned payload => exact absurd rfl h
  | _ => rfl

theorem ErrorOr.unwrapped {v : Value} (h : v.ErrorOr fun w => w.unwrapped = true) :
    v.Unwrapped := by
  rcases h with failed | h
  · cases v with
    | error message => exact .error message
    | _ => cases failed
  · exact h

end Value

namespace Heap.Unwrapped

variable {h : Heap}

theorem alloc (hh : h.Unwrapped) (parent : Option ScopeId) {bindings : Table String Value}
    (hb : ∀ e ∈ bindings.entries, e.2.Unwrapped) : (h.alloc parent bindings).Unwrapped :=
  Heap.Every.alloc hh parent hb

theorem define (hh : h.Unwrapped) (i : ScopeId) (name : String) {v : Value} (hv : v.Unwrapped) :
    (h.define i name v).Unwrapped :=
  Heap.Every.define hh i name hv

theorem nameValue {s : Store} (hh : s.heap.Unwrapped) (i : ScopeId) (name : String) :
    (s.nameValue i name).Unwrapped :=
  (Heap.Every.nameValue Value.lenient_unwrapped hh i name).unwrapped

end Heap.Unwrapped

/-! ### Disciplined machines -/

/-- What a frame goes on with, where `returns` says whether the stack below it
    passes returns on. -/
def Frame.Disciplined (returns : Bool) : Frame → Prop
  | .unary _ | .define _ _ | .assign _ _ | .leave => True
  | .left _ e _ | .collection e _ => e.disciplined false = true
  | .right _ v | .index v => v.Unwrapped
  | .branch b a _ =>
    Block.disciplined returns b = true ∧ Block.disciplinedElse returns a = true
  | .test c b _ | .again c b _ => c.disciplined false = true ∧ Block.disciplined returns b = true
  | .callee args _ => Expr.disciplinedEach args = true
  | .argument f done rest _ =>
    f.Unwrapped ∧ (∀ v ∈ done, v.Unwrapped) ∧ Expr.disciplinedEach rest = true
  | .item done rest _ => (∀ v ∈ done, v.Unwrapped) ∧ Expr.disciplinedEach rest = true
  | .key done e rest _ =>
    (Value.table done).Unwrapped ∧ e.disciplined false = true ∧ Expr.disciplinedPairs rest = true
  | .value done _ k rest _ =>
    (Value.table done).Unwrapped ∧ k.Unwrapped ∧ Expr.disciplinedPairs rest = true
  | .return => returns = true
  | .sequence b _ => Block.disciplined returns b = true

/-- What is evaluated is disciplined; only a stack that passes returns on is
    handed a wrapper. -/
def Control.Disciplined (returns : Bool) : Control → Prop
  | .eval e _ => e.disciplined returns = true
  | .exec b _ => Block.disciplined returns b = true
  | .call f args => f.Unwrapped ∧ ∀ v ∈ args, v.Unwrapped
  | .give v => v.unreturned.Unwrapped ∧ (v.kind = .returned → returns = true)

namespace Machine

/-- Whether a stack passes a return on to the end of a call or of the program. -/
@[simp] def returns : List Frame → Bool
  | [] | .leave :: _ => true
  | .sequence _ _ :: k | .again _ _ _ :: k => returns k
  | _ :: _ => false

/-- Every frame is disciplined above the stack below it. -/
@[simp] def DisciplinedStack : List Frame → Prop
  | [] => True
  | f :: k => f.Disciplined (returns k) ∧ DisciplinedStack k

structure Disciplined (m : Machine) : Prop where
  control : m.control.Disciplined (returns m.stack)
  stack : DisciplinedStack m.stack
  heap : m.store.heap.Unwrapped

variable {stack : List Frame} {store : Store}

/-! ### One step -/

theorem given {v : Value} (hv : v.Unwrapped) (returns : Bool) :
    (Control.give v).Disciplined returns := by
  constructor
  · rwa [Value.unreturned_of_kind_ne hv.kind_ne]
  · exact fun wrapper => absurd wrapper hv.kind_ne

/-- A stack that does not pass returns on is handed none. -/
theorem unwrapped_of_given {v : Value} (h : (Control.give v).Disciplined false) : v.Unwrapped := by
  obtain ⟨payload, wrapper⟩ := h
  have kind : v.kind ≠ .returned := fun returned => by cases wrapper returned
  rwa [Value.unreturned_of_kind_ne kind] at payload

theorem disciplined_give {v : Value} (hv : v.Unwrapped) (hk : DisciplinedStack stack)
    (hh : store.heap.Unwrapped) : Disciplined ⟨.give v, stack, store⟩ :=
  ⟨given hv _, hk, hh⟩

section Continue

variable (hk : DisciplinedStack stack) (hh : store.heap.Unwrapped)

include hk hh

theorem disciplined_continueCall {f : Value} {done : List Value} {rest : List Expr} (i : ScopeId)
    (hf : f.Unwrapped) (hd : ∀ v ∈ done, v.Unwrapped)
    (hr : Expr.disciplinedEach rest = true) :
    Disciplined (continueCall f done rest i stack store) := by
  cases rest with
  | nil => exact ⟨⟨hf, hd⟩, hk, hh⟩
  | cons e rest =>
    obtain ⟨first, others⟩ := (Bool.and_eq_true _ _).mp hr
    exact ⟨first, ⟨⟨hf, hd, others⟩, hk⟩, hh⟩

theorem disciplined_continueArray {done : List Value} {rest : List Expr} (i : ScopeId)
    (hd : ∀ v ∈ done, v.Unwrapped) (hr : Expr.disciplinedEach rest = true) :
    Disciplined (continueArray done rest i stack store) := by
  cases rest with
  | nil => exact disciplined_give (Value.unwrapped_array.mpr hd) hk hh
  | cons e rest =>
    obtain ⟨first, others⟩ := (Bool.and_eq_true _ _).mp hr
    exact ⟨first, ⟨⟨hd, others⟩, hk⟩, hh⟩

theorem disciplined_continueTable {done : Entries} {rest : List (Expr × Expr)} (i : ScopeId)
    (hd : (Value.table done).Unwrapped) (hr : Expr.disciplinedPairs rest = true) :
    Disciplined (continueTable done rest i stack store) := by
  rcases rest with _ | ⟨⟨key, value⟩, rest⟩
  · exact disciplined_give hd hk hh
  · simp only [Expr.disciplinedPairs, Bool.and_eq_true] at hr
    obtain ⟨⟨first, second⟩, others⟩ := hr
    exact ⟨first, ⟨⟨hd, second, others⟩, hk⟩, hh⟩

theorem disciplined_evalExpr {e : Expr} (i : ScopeId) (he : e.disciplined (returns stack) = true) :
    Disciplined (evalExpr e i stack store) := by
  cases e with
  | identifier name => exact disciplined_give (hh.nameValue i name) hk hh
  | integer n => exact disciplined_give (Value.lenient_unwrapped.integer n) hk hh
  | string text => exact disciplined_give (Value.lenient_unwrapped.string text) hk hh
  | boolean b => exact disciplined_give (Value.lenient_unwrapped.boolean b) hk hh
  | function params body => exact disciplined_give (Value.unwrapped_function.mpr he) hk hh
  | array items => exact disciplined_continueArray hk hh i (by simp) he
  | table pairs =>
    have empty : (Value.table .empty).Unwrapped := Value.unwrapped_table.mpr (by simp [Table.empty])
    exact disciplined_continueTable hk hh i empty he
  | unary op operand => exact ⟨he, ⟨trivial, hk⟩, hh⟩
  | conditional c b a =>
    simp only [Expr.disciplined, Bool.and_eq_true] at he
    exact ⟨he.1.1, ⟨⟨he.1.2, he.2⟩, hk⟩, hh⟩
  | loop c b =>
    obtain ⟨condition, body⟩ := (Bool.and_eq_true _ _).mp he
    exact ⟨condition, ⟨⟨condition, body⟩, hk⟩, hh⟩
  | binary | call | index =>
    obtain ⟨first, second⟩ := (Bool.and_eq_true _ _).mp he
    exact ⟨first, ⟨second, hk⟩, hh⟩

theorem disciplined_execStmt {st : Stmt} (i : ScopeId)
    (hs : st.disciplined (returns stack) = true) : Disciplined (execStmt st i stack store) := by
  cases st with
  | define | assign => exact ⟨hs, ⟨trivial, hk⟩, hh⟩
  | «return» value =>
    obtain ⟨passes, value⟩ := (Bool.and_eq_true _ _).mp hs
    exact ⟨value, ⟨passes, hk⟩, hh⟩
  | bare | block => exact ⟨hs, hk, hh⟩

theorem disciplined_execBlock {b : Block} (i : ScopeId)
    (hb : Block.disciplined (returns stack) b = true) :
    Disciplined (execBlock b i stack store) := by
  cases b with
  | nil => exact disciplined_give .null hk hh
  | cons st rest =>
    obtain ⟨first, others⟩ := (Bool.and_eq_true _ _).mp hb
    have hk' : DisciplinedStack (.sequence rest i :: stack) := ⟨others, hk⟩
    exact disciplined_execStmt hk' hh i first

end Continue

/-- A call runs a body, for which a stack is set up that passes returns on, or
    answers at once with a value that holds none. -/
theorem called_cases {f : Value} {args : List Value} (hf : f.Unwrapped)
    (ha : ∀ v ∈ args, v.Unwrapped) (hh : store.heap.Unwrapped) {m : Machine}
    (h : callValue f args stack store = .running m) :
    (∃ b i s, m = ⟨.exec b i, .leave :: stack, s⟩ ∧ Block.disciplined true b = true ∧
        s.heap.Unwrapped) ∨
      ∃ v s, m = ⟨.give v, stack, s⟩ ∧ v.Unwrapped ∧ s.heap.Unwrapped := by
  rcases callValue_cases h with ⟨n, params, body, scope, rfl, -, rfl⟩ | ⟨b, v, text, -, reply, rfl⟩ |
    ⟨failure, rfl⟩
  · have bindings := forall_mem_parameterBindings .null params args Table.forall_mem_empty ha
    exact .inl ⟨_, _, _, rfl, Value.unwrapped_function.mp hf, hh.alloc _ bindings⟩
  · exact .inr ⟨v, _, rfl, (b.errorOr_call Value.lenient_unwrapped ha reply).unwrapped, hh⟩
  · exact .inr ⟨_, _, rfl, .error _, hh⟩

theorem disciplined_callValue {f : Value} {args : List Value} (hf : f.Unwrapped)
    (ha : ∀ v ∈ args, v.Unwrapped) (hk : DisciplinedStack stack) (hh : store.heap.Unwrapped)
    {m : Machine} (h : callValue f args stack store = .running m) : Disciplined m := by
  rcases called_cases hf ha hh h with ⟨b, i, s, rfl, hb, hs⟩ | ⟨v, s, rfl, hv, hs⟩
  · exact ⟨hb, ⟨trivial, hk⟩, hs⟩
  · exact disciplined_give hv hk hs

/-- A frame that does not pass returns on is handed a value that holds none. -/
theorem disciplined_resume [Digesting] {f : Frame} {v : Value} (hf : f.Disciplined (returns stack))
    (hv : (Control.give v).Disciplined (returns (f :: stack))) (hk : DisciplinedStack stack)
    (hh : store.heap.Unwrapped) : Disciplined (resume f v stack store) := by
  cases f with
  -- the three kinds of frame that a return may be handed to
  | sequence rest i =>
    simp only [resume]
    split
    · exact ⟨hv, hk, hh⟩
    · exact ⟨hf, hk, hh⟩
  | again condition body i =>
    simp only [resume]
    split
    · exact ⟨hv, hk, hh⟩
    · exact ⟨hf.1, ⟨hf, hk⟩, hh⟩
  | leave => exact disciplined_give hv.1 hk hh
  | unary op =>
    exact disciplined_give (op.errorOr_apply Value.lenient_unwrapped v).unwrapped hk hh
  | left op right i => exact ⟨hf, ⟨unwrapped_of_given hv, hk⟩, hh⟩
  | right op left =>
    exact disciplined_give (op.errorOr_apply Value.lenient_unwrapped left v).unwrapped hk hh
  | branch consequence alternative i =>
    obtain ⟨hc, ha⟩ := hf
    simp only [resume]
    split
    · exact ⟨hc, hk, hh⟩
    · split
      · exact ⟨ha, hk, hh⟩
      · exact disciplined_give .null hk hh
  | test condition body i =>
    simp only [resume]
    split
    · exact ⟨hf.2, ⟨hf, hk⟩, hh.alloc _ Table.forall_mem_empty⟩
    · exact disciplined_give .null hk hh
  | callee args i =>
    exact disciplined_continueCall hk hh i (unwrapped_of_given hv) (by simp) hf
  | argument callee done rest i =>
    obtain ⟨hc, hd, hr⟩ := hf
    have all := List.forall_mem_append.mpr
      ⟨hd, List.forall_mem_singleton.mpr (unwrapped_of_given hv)⟩
    exact disciplined_continueCall hk hh i hc all hr
  | item done rest i =>
    obtain ⟨hd, hr⟩ := hf
    have all := List.forall_mem_append.mpr
      ⟨hd, List.forall_mem_singleton.mpr (unwrapped_of_given hv)⟩
    exact disciplined_continueArray hk hh i all hr
  | key done value rest i =>
    obtain ⟨hd, he, hr⟩ := hf
    simp only [resume]
    split
    · exact ⟨he, ⟨⟨hd, unwrapped_of_given hv, hr⟩, hk⟩, hh⟩
    · exact disciplined_give (.error _) hk hh
  | value done place key rest i =>
    obtain ⟨hd, hkey, hr⟩ := hf
    have all : ∀ e ∈ (done.insert place (key, v)).entries, e.2.1.Unwrapped ∧ e.2.2.Unwrapped :=
      Table.forall_mem_insert (Value.unwrapped_table.mp hd) ⟨hkey, unwrapped_of_given hv⟩
    exact disciplined_continueTable hk hh i (Value.unwrapped_table.mpr all) hr
  | collection index i => exact ⟨hf, ⟨unwrapped_of_given hv, hk⟩, hh⟩
  | index collection =>
    exact disciplined_give (Value.errorOr_at Value.lenient_unwrapped hf v).unwrapped hk hh
  | define name i =>
    exact disciplined_give .null hk (hh.define i name (unwrapped_of_given hv))
  | assign name i =>
    simp only [resume]
    split
    · rename_i owner found
      exact disciplined_give .null hk (hh.define owner name (unwrapped_of_given hv))
    · exact disciplined_give (.error _) hk hh
  | «return» => exact ⟨⟨unwrapped_of_given hv, fun _ => hf⟩, hk, hh⟩

theorem disciplined_passError (f : Frame) {v : Value} (failed : v.isError = true)
    (hk : DisciplinedStack stack) (hh : store.heap.Unwrapped) :
    Disciplined (passError f v stack store) := by
  have hv : v.Unwrapped := Value.ErrorOr.unwrapped (.inl failed)
  cases f <;> exact disciplined_give hv hk hh

/-- A step of a disciplined machine leads to a disciplined machine. -/
theorem disciplined_of_step [Digesting] {m m' : Machine} (disciplined : m.Disciplined)
    (h : m.step = .running m') : m'.Disciplined := by
  obtain ⟨control, stack, store⟩ := m
  obtain ⟨hc, hk, hh⟩ := disciplined
  cases control with
  | eval e i =>
    cases h
    exact disciplined_evalExpr hk hh i hc
  | exec b i =>
    cases h
    exact disciplined_execBlock hk hh i hc
  | call f args => exact disciplined_callValue hc.1 hc.2 hk hh h
  | give v =>
    cases stack with
    | nil => cases h
    | cons f stack =>
      obtain ⟨hf, hk⟩ := hk
      simp only [step] at h
      split at h
      · rename_i failed
        cases h
        exact disciplined_passError f failed hk hh
      · cases h
        exact disciplined_resume hf hc hk hh

theorem disciplined_of_steps [Digesting] {m m' : Machine} (disciplined : m.Disciplined)
    (steps : Steps m m') : m'.Disciplined :=
  steps.keeps (P := Disciplined) disciplined_of_step disciplined

/-! ### The ends of calls -/

/-- `m.Answers v`: the next step ends a call, with the value `v`; either the
    body of the function is left, or there is no body to run. -/
inductive Answers [Digesting] : Machine → Value → Prop
  | leave {v w k s s'} (next : step ⟨.give v, .leave :: k, s⟩ = .running ⟨.give w, k, s'⟩) :
      Answers ⟨.give v, .leave :: k, s⟩ w
  | call {f args w k s s'} (next : step ⟨.call f args, k, s⟩ = .running ⟨.give w, k, s'⟩) :
      Answers ⟨.call f args, k, s⟩ w

theorem unwrapped_of_answers [Digesting] {m : Machine} {w : Value} (disciplined : m.Disciplined)
    (h : m.Answers w) : w.Unwrapped := by
  cases h with
  | @leave v w k s s' next =>
    obtain ⟨⟨payload, -⟩, -, -⟩ := disciplined
    simp only [step] at next
    split at next
    · rename_i failed
      cases next
      exact Value.ErrorOr.unwrapped (.inl failed)
    · cases next
      exact payload
  | @call f args w k s s' next =>
    obtain ⟨⟨hf, ha⟩, -, hh⟩ := disciplined
    rcases called_cases hf ha hh next with ⟨b, i, s'', body, -, -⟩ | ⟨v, s'', answer, hv, -⟩
    · cases body
    · cases answer
      exact hv

end Machine

/-! ### Programs -/

namespace Task

theorem disciplined_start {p : Program} (hp : p.disciplined = true) (i : ScopeId) {s : Store}
    (hs : s.heap.Unwrapped) : ((program p i).start s).Disciplined :=
  ⟨hp, trivial, hs⟩

/-- Where a disciplined program runs among unwrapped values, no call answers
    with the wrapper of a return, nor does the program, and none is stored. -/
theorem unwrapped_perform [Digesting] {p : Program} (hp : p.disciplined = true) (i : ScopeId)
    {s : Store} (hs : s.heap.Unwrapped) :
    (∀ m w, Machine.Steps ((program p i).start s) m → m.Answers w → w.Unwrapped) ∧
      ∀ fuel answer s', (program p i).perform fuel s = some (answer, s') →
        s'.heap.Unwrapped ∧ ∀ v, answer.outcome = .value v → v.Unwrapped := by
  have start := disciplined_start hp i hs
  constructor
  · intro m w steps answers
    exact Machine.unwrapped_of_answers (Machine.disciplined_of_steps start steps) answers
  · intro fuel answer s' h
    obtain ⟨m, o, steps, halts, rfl, rfl⟩ := steps_of_perform h
    obtain ⟨control, -, heap⟩ := Machine.disciplined_of_steps start steps
    refine ⟨heap, ?_⟩
    rintro v hv
    obtain ⟨-, ⟨code, rfl⟩ | ⟨w, rfl, given, -⟩⟩ := Machine.halted_cases halts
    · cases hv
    · rw [given] at control
      cases hv
      exact control.1

/-- A return that leaves a conditional, a loop and a call, and one that leaves
    the program from a conditional. -/
theorem unwrapped_perform_search :
    let _ : Digesting := ⟨fun _ => 0⟩
    let body : Block := [.bare (.loop (.boolean true) [
      .bare (.conditional (.binary (.identifier "n") .less (.integer 1))
        [.return (.array [.identifier "n"])] none),
      .assign "n" (.binary (.identifier "n") .sub (.integer 1))])]
    let p : Program := ⟨[
      .define "x" (.call (.identifier "f") [.integer 1]),
      .bare (.conditional (.identifier "x") [.return (.identifier "x")] none),
      .bare (.identifier "f")]⟩
    let f : Value := .function 0 ["n"] body 0
    let x : Value := .array [.integer 0]
    let s : Store := ⟨⟨#[⟨⟨[("f", f)]⟩, none⟩]⟩, 1, 0, ""⟩
    let s' : Store := ⟨⟨#[⟨⟨[("f", f), ("x", x)]⟩, none⟩, ⟨⟨[("n", .integer 0)]⟩, some 0⟩,
      ⟨.empty, some 1⟩, ⟨.empty, some 1⟩]⟩, 1, 0, ""⟩
    p.disciplined = true ∧ s.heap.Unwrapped ∧
      (program p 0).perform 100 s = some (⟨.value x, ""⟩, s') ∧ s'.heap.Unwrapped ∧
      x.Unwrapped := by
  intro _ body p f x s s'
  have disciplined : p.disciplined = true := by decide
  have unwrapped : s.heap.Unwrapped := by
    rintro (_ | i) scope found e bound
    · cases found
      cases List.mem_singleton.mp bound
      exact Value.unwrapped_function.mpr (by decide)
    · cases found
  have run : (program p 0).perform 100 s = some (⟨.value x, ""⟩, s') := by cbv
  obtain ⟨heap, result⟩ := (unwrapped_perform disciplined 0 unwrapped).2 100 _ s' run
  exact ⟨disciplined, unwrapped, run, heap, result x rfl⟩

end Task

end Script
