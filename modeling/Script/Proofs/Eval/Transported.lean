/-
  Script/Proofs/Eval/Transported.lean
  ===================================
  **Runs in another setting.**

  A machine that is carried to another setting takes the same steps there, as
  long as no text that it makes depends on the setting: neither a message that
  mentions a name, nor a line that shows a function.

  Main statements: `Machine.step_transport` for one step, and
  `Machine.run_transport` for a run.
-/
import Script.Proofs.Eval.Run
import Script.Proofs.Value.Transported

namespace Script

/-! ### Machines in another setting -/

def Frame.transport (T : Transport) : Frame → Frame
  | .unary op => .unary op
  | .left op e i => .left op (e.rename T.name) (T.scope i)
  | .right op v => .right op (v.transport T)
  | .branch b a i => .branch (Block.rename T.name b) (Block.renameElse T.name a) (T.scope i)
  | .test c b i => .test (c.rename T.name) (Block.rename T.name b) (T.scope i)
  | .again c b i => .again (c.rename T.name) (Block.rename T.name b) (T.scope i)
  | .callee args i => .callee (Expr.renameEach T.name args) (T.scope i)
  | .argument f done rest i =>
    .argument (f.transport T) (done.map (Value.transport T)) (Expr.renameEach T.name rest)
      (T.scope i)
  | .item done rest i =>
    .item (done.map (Value.transport T)) (Expr.renameEach T.name rest) (T.scope i)
  | .key done e rest i =>
    .key (Entries.transport T done) (e.rename T.name) (Expr.renamePairs T.name rest) (T.scope i)
  | .value done place v rest i =>
    .value (Entries.transport T done) place (v.transport T) (Expr.renamePairs T.name rest)
      (T.scope i)
  | .collection e i => .collection (e.rename T.name) (T.scope i)
  | .index v => .index (v.transport T)
  | .define name i => .define (T.name name) (T.scope i)
  | .assign name i => .assign (T.name name) (T.scope i)
  | .return => .return
  | .sequence b i => .sequence (Block.rename T.name b) (T.scope i)
  | .leave => .leave

def Control.transport (T : Transport) : Control → Control
  | .eval e i => .eval (e.rename T.name) (T.scope i)
  | .exec b i => .exec (Block.rename T.name b) (T.scope i)
  | .call f args => .call (f.transport T) (args.map (Value.transport T))
  | .give v => .give (v.transport T)

def Store.transport (T : Transport) (s : Store) : Store where
  heap := s.heap.transport T
  functions := T.functions + s.functions
  depth := s.depth
  output := s.output

def Machine.transport (T : Transport) (m : Machine) : Machine where
  control := m.control.transport T
  stack := m.stack.map (Frame.transport T)
  store := m.store.transport T

def Outcome.transport (T : Transport) : Outcome → Outcome
  | .value v => .value (v.transport T)
  | .exit code => .exit code

def Progress.transport (T : Transport) : Progress → Progress
  | .running m => .running (m.transport T)
  | .halted o s => .halted (o.transport T) (s.transport T)

theorem Store.alloc_transport (T : Transport) (s : Store) (i : ScopeId)
    (bindings : Table String Value) :
    (s.transport T).alloc (some (T.scope i)) (bindings.transport T.name (Value.transport T)) =
      (T.scope (s.alloc (some i) bindings).1, (s.alloc (some i) bindings).2.transport T) := by
  simp [Store.alloc, Store.transport, Heap.alloc_transport]

theorem Store.define_transport (T : Transport) (s : Store) (i : ScopeId) (name : String)
    (v : Value) :
    (s.transport T).define (T.scope i) (T.name name) (v.transport T) =
      (s.define i name v).transport T := by
  simp [Store.define, Store.transport, Heap.define_transport]

theorem parameterBindings_transport (T : Transport) (params : List String) (args : List Value)
    (t : Table String Value) :
    parameterBindings (params.map T.name) (args.map (Value.transport T))
        (t.transport T.name (Value.transport T)) =
      (parameterBindings params args t).transport T.name (Value.transport T) := by
  induction params generalizing args t with
  | nil => rfl
  | cons p ps ih =>
    cases args with
    | nil =>
      rw [parameterBindings, ← ih, ← Table.insert_transport T.injective]
      rfl
    | cons v vs =>
      rw [parameterBindings, ← ih, ← Table.insert_transport T.injective]
      rfl

namespace Machine

variable {T : Transport}

/-- No text that the next step makes depends on the setting: no name is missing
    that is another one there, and no value is printed that has another text. -/
structure Discreet (T : Transport) (m : Machine) : Prop where
  mentioned : ∀ name i, m.control = .eval (.identifier name) i →
    m.store.heap.lookup? i name = none → Builtin.ofName? name = none → T.name name = name
  rebound : ∀ v name i k, m.control = .give v → m.stack = .assign name i :: k →
    m.store.heap.owner? i name = none → T.name name = name
  printed : ∀ args, m.control = .call (.builtin .print) args →
    ∀ v ∈ args, (v.transport T).render = v.render

/-! ### One step -/

section Step

variable (i : ScopeId) (k : List Frame) (s : Store)

theorem continueCall_transport (f : Value) (done : List Value) (rest : List Expr) :
    continueCall (f.transport T) (done.map (Value.transport T)) (Expr.renameEach T.name rest)
        (T.scope i) (k.map (Frame.transport T)) (s.transport T) =
      (continueCall f done rest i k s).transport T := by
  cases rest <;> rfl

theorem continueArray_transport (done : List Value) (rest : List Expr) :
    continueArray (done.map (Value.transport T)) (Expr.renameEach T.name rest)
        (T.scope i) (k.map (Frame.transport T)) (s.transport T) =
      (continueArray done rest i k s).transport T := by
  cases rest with
  | nil => simp [continueArray, transport, Control.transport]
  | cons => rfl

theorem continueTable_transport (done : Entries) (rest : List (Expr × Expr)) :
    continueTable (Entries.transport T done) (Expr.renamePairs T.name rest)
        (T.scope i) (k.map (Frame.transport T)) (s.transport T) =
      (continueTable done rest i k s).transport T := by
  cases rest with
  | nil => simp [continueTable, transport, Control.transport]
  | cons => rfl

theorem nameValue_transport (name : String)
    (mentioned : s.heap.lookup? i name = none → Builtin.ofName? name = none → T.name name = name) :
    (s.transport T).nameValue (T.scope i) (T.name name) = (s.nameValue i name).transport T := by
  simp only [Store.nameValue, Store.transport, Heap.lookup?_transport, T.ofName?_name]
  cases found : s.heap.lookup? i name with
  | some v => rfl
  | none =>
    cases builtin : Builtin.ofName? name with
    | some b => rfl
    | none =>
      simp only [Option.map_none, Value.transport_failure]
      rw [mentioned found builtin]

theorem evalExpr_transport (e : Expr)
    (mentioned : ∀ name, e = .identifier name → s.heap.lookup? i name = none →
      Builtin.ofName? name = none → T.name name = name) :
    evalExpr (e.rename T.name) (T.scope i) (k.map (Frame.transport T)) (s.transport T) =
      (evalExpr e i k s).transport T := by
  cases e with
  | identifier name =>
    simp only [Expr.rename, evalExpr, nameValue_transport i s name (mentioned name rfl)]
    rfl
  | array items => exact continueArray_transport i k s [] items
  | table pairs => exact continueTable_transport i k s .empty pairs
  | _ => rfl

theorem execStmt_transport (st : Stmt) :
    execStmt (st.rename T.name) (T.scope i) (k.map (Frame.transport T)) (s.transport T) =
      (execStmt st i k s).transport T := by
  cases st <;> rfl

theorem execBlock_transport (b : Block) :
    execBlock (Block.rename T.name b) (T.scope i) (k.map (Frame.transport T)) (s.transport T) =
      (execBlock b i k s).transport T := by
  cases b with
  | nil => rfl
  | cons st rest => exact execStmt_transport i (.sequence rest i :: k) s st

omit i in
theorem callValue_transport (f : Value) (args : List Value)
    (printed : f = .builtin .print → ∀ v ∈ args, (v.transport T).render = v.render) :
    callValue (f.transport T) (args.map (Value.transport T)) (k.map (Frame.transport T))
        (s.transport T) =
      (callValue f args k s).transport T := by
  cases f with
  | function n params body scope =>
    simp only [Value.transport_function, callValue]
    by_cases room : s.depth < maxCallDepth
    · have bound : parameterBindings (params.map T.name) (args.map (Value.transport T)) .empty =
          (parameterBindings params args .empty).transport T.name (Value.transport T) :=
        parameterBindings_transport T params args .empty
      rw [if_pos room, if_pos (show (s.transport T).depth < maxCallDepth from room), bound]
      simp only [s.alloc_transport T]
      rfl
    · rw [if_neg room, if_neg (show ¬ (s.transport T).depth < maxCallDepth from room)]
      rfl
  | builtin b =>
    have text : b = .print → ∀ v ∈ args, (v.transport T).render = v.render := by
      rintro rfl
      exact printed rfl
    simp only [Value.transport_builtin, callValue, b.call_transport T args text]
    cases b.call args <;> rfl
  | _ => simp [callValue, Progress.transport, transport, Control.transport, Value.kind]

theorem resume_transport [Digesting] (f : Frame) (v : Value)
    (rebound : ∀ name i, f = .assign name i → s.heap.owner? i name = none → T.name name = name) :
    resume (f.transport T) (v.transport T) (k.map (Frame.transport T)) (s.transport T) =
      (resume f v k s).transport T := by
  cases f with
  | unary op =>
    simp only [Frame.transport, resume, op.apply_transport T]
    rfl
  | right op left =>
    simp only [Frame.transport, resume, op.apply_transport T]
    rfl
  | index collection =>
    simp only [Frame.transport, resume, Value.at_transport]
    rfl
  | leave =>
    simp only [Frame.transport, resume, Value.unreturned_transport]
    rfl
  | branch b a i =>
    simp only [Frame.transport, resume, Value.truthy_transport]
    split
    · rfl
    · cases a <;> rfl
  | test c b i =>
    simp only [Frame.transport, resume, Value.truthy_transport]
    split
    · have fresh := s.alloc_transport T i .empty
      rw [show Table.transport T.name (Value.transport T) .empty = Table.empty from rfl] at fresh
      simp only [fresh]
      rfl
    · rfl
  | again c b i =>
    simp only [Frame.transport, resume, Value.endsBlock_transport]
    split <;> rfl
  | callee args i => exact continueCall_transport i k s v [] args
  | argument f done rest i =>
    have taken := continueCall_transport (T := T) i k s f (done ++ [v]) rest
    rwa [List.map_append] at taken
  | item done rest i =>
    have taken := continueArray_transport (T := T) i k s (done ++ [v]) rest
    rwa [List.map_append] at taken
  | key done e rest i =>
    simp only [Frame.transport, resume, Value.key?_transport, Value.kind_transport]
    split <;> rfl
  | value done place key rest i =>
    have taken := continueTable_transport (T := T) i k s (done.insert place (key, v)) rest
    rwa [Entries.insert_transport] at taken
  | define name i =>
    simp only [Frame.transport, resume, s.define_transport T]
    rfl
  | assign name i =>
    have found : (s.transport T).heap.owner? (T.scope i) (T.name name) =
        (s.heap.owner? i name).map T.scope := s.heap.owner?_transport T i name
    simp only [Frame.transport, resume, found]
    cases owner : s.heap.owner? i name with
    | none =>
      rw [rebound name i rfl owner]
      rfl
    | some j =>
      simp only [Option.map_some, s.define_transport T]
      rfl
  | sequence rest i =>
    have same : (Block.rename T.name rest).isEmpty = rest.isEmpty := by cases rest <;> rfl
    simp only [Frame.transport, resume, Value.endsBlock_transport, same]
    split <;> rfl
  | _ => rfl

theorem passError_transport (f : Frame) (v : Value) :
    passError (f.transport T) (v.transport T) (k.map (Frame.transport T)) (s.transport T) =
      (passError f v k s).transport T := by
  cases f <;> rfl

end Step

/-- A machine takes the same step in another setting, if no text that it makes
    depends on the setting. -/
theorem step_transport [Digesting] {m : Machine} (discreet : m.Discreet T) :
    (m.transport T).step = m.step.transport T := by
  obtain ⟨control, stack, store⟩ := m
  cases control with
  | eval e i =>
    refine congrArg Progress.running (evalExpr_transport i stack store e ?_)
    rintro name rfl
    exact discreet.mentioned name i rfl
  | exec b i => exact congrArg Progress.running (execBlock_transport i stack store b)
  | call f args =>
    refine callValue_transport stack store f args ?_
    rintro rfl
    exact discreet.printed args rfl
  | give v =>
    cases stack with
    | nil => rfl
    | cons f stack =>
      have passed := passError_transport (T := T) stack store f v
      have resumed := resume_transport (T := T) stack store f v fun name i frame =>
        discreet.rebound v name i stack rfl (by rw [frame])
      simp only [transport, Control.transport, List.map_cons, step, Value.isError_transport, passed,
        resumed]
      split <;> rfl

/-! ### Runs -/

/-- A machine runs as it does here in another setting, if no text that it makes
    on the way depends on the setting. -/
theorem run_transport [Digesting] {m : Machine} (discreet : ∀ m', Steps m m' → m'.Discreet T)
    (fuel : Nat) :
    run fuel (m.transport T) =
      (run fuel m).map fun (o, s) => (o.transport T, s.transport T) := by
  induction fuel generalizing m with
  | zero => rfl
  | succ fuel ih =>
    rw [run, run, step_transport (discreet m .refl)]
    cases next : m.step with
    | running m' => exact ih fun m'' steps => discreet m'' (.head next steps)
    | halted o s => rfl

theorem steps_transport [Digesting] {m m' : Machine} (discreet : ∀ m', Steps m m' → m'.Discreet T)
    (steps : Steps m m') : Steps (m.transport T) (m'.transport T) := by
  induction steps with
  | refl => exact .refl
  | tail before next ih =>
    refine ih.tail ?_
    rw [step_transport (discreet _ before), next]
    rfl

/-- Where names stay, no text depends on the setting. -/
theorem discreet_of_id (same : T.name = id) (m : Machine) : m.Discreet T where
  mentioned name _ _ _ _ := congrFun same name
  rebound _ name _ _ _ _ _ := congrFun same name
  printed _ _ v _ := v.render_transport_of_id same

end Machine

end Script
