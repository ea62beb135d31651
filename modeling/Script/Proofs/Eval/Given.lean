/-
  Script/Proofs/Eval/Given.lean
  =============================
  **What tasks give.**

  A task gives a value if the machine that starts it on an empty stack gets to
  the point where it hands over that value.  Whatever waits below then gets the
  value, so what a task gives follows from what its parts give: there is one rule
  for each construct, and where a part gives an error, so does the whole.

  Main statements: `Task.Gives.onto`, the rules for expressions, statements,
  blocks and calls, and `Machine.steps_continueCall` for arguments in turn, by
  induction on them.
-/
import Script.Proofs.Eval.Above

namespace Script

variable [Digesting]

namespace Machine

theorem steps_above {m m' : Machine} (steps : Steps m m') (k : List Frame) :
    Steps (m.above k) (m'.above k) := by
  induction steps with
  | refl => exact .refl
  | tail _ next ih => exact ih.tail (running_above next k)

end Machine

namespace Task

open Machine

/-- The task, started in one store, gives a value and leaves another store. -/
def Gives (t : Task) (s : Store) (v : Value) (s' : Store) : Prop :=
  Steps (t.enter s) ⟨.give v, [], s'⟩

variable {t : Task} {i : ScopeId} {e : Expr} {s s₁ s₂ s₃ : Store} {v w : Value}

/-! ### Tasks above a stack -/

/-- Above a stack, the task gives its value to that stack. -/
theorem Gives.onto (gives : t.Gives s v s₁) (k : List Frame) :
    Steps ((t.enter s).above k) ⟨.give v, k, s₁⟩ :=
  steps_above gives k

/-- The innermost frame takes a value that is not an error. -/
theorem Gives.under (gives : t.Gives s v s₁) (fine : v.isError = false) (f : Frame)
    (k : List Frame) : Steps ((t.enter s).above (f :: k)) (resume f v k s₁) := by
  refine (gives.onto (f :: k)).tail ?_
  simp [step, fine]

/-- An error passes by the innermost frame, unless a call ends there. -/
theorem Gives.past (gives : t.Gives s v s₁) (failed : v.isError = true) (f : Frame)
    (inner : f ≠ .leave) (k : List Frame) :
    Steps ((t.enter s).above (f :: k)) ⟨.give v, k, s₁⟩ := by
  refine (gives.onto (f :: k)).tail ?_
  have passes : passError f v k s₁ = ⟨.give v, k, s₁⟩ := by
    cases f with
    | leave => exact absurd rfl inner
    | _ => rfl
  simp [step, failed, passes]

/-! ### Expressions -/

theorem gives_bound {name : String} (bound : s.heap.lookup? i name = some v) :
    (expr (.identifier name) i).Gives s v s := by
  refine .single ?_
  simp only [enter, step, evalExpr, Store.nameValue, bound]

/-- A name that nothing binds stands for what is built in. -/
theorem gives_builtin_name {name : String} {b : Builtin} (free : s.heap.lookup? i name = none)
    (known : Builtin.ofName? name = some b) :
    (expr (.identifier name) i).Gives s (.builtin b) s := by
  refine .single ?_
  simp only [enter, step, evalExpr, Store.nameValue, free, known]

theorem gives_integer (n : Int64) : (expr (.integer n) i).Gives s (.integer n) s :=
  .single rfl

theorem gives_boolean (b : Bool) : (expr (.boolean b) i).Gives s (.boolean b) s :=
  .single rfl

theorem gives_function (params : List String) (body : Block) :
    (expr (.function params body) i).Gives s (.function s.functions params body i)
      { s with functions := s.functions + 1 } :=
  .single rfl

theorem Gives.unary (operand : (expr e i).Gives s v s₁) (fine : v.isError = false)
    (op : UnaryOp) : (expr (.unary op e) i).Gives s (op.apply v) s₁ :=
  .head rfl (operand.under fine (.unary op) [])

section Binary

variable {l r : Expr}

theorem Gives.binary (left : (expr l i).Gives s v s₁) (fine : v.isError = false)
    (right : (expr r i).Gives s₁ w s₂) (fine' : w.isError = false)
    (op : BinaryOp) :
    (expr (.binary l op r) i).Gives s (op.apply v w) s₂ := by
  have second : Steps ⟨.eval (.binary l op r) i, [], s⟩ ⟨.eval r i, [.right op v], s₁⟩ :=
    .head rfl (left.under fine (.left op r i) [])
  exact second.trans (right.under fine' (.right op v) [])

theorem Gives.binary_right_failed (left : (expr l i).Gives s v s₁) (fine : v.isError = false)
    (right : (expr r i).Gives s₁ w s₂) (failed : w.isError = true)
    (op : BinaryOp) :
    (expr (.binary l op r) i).Gives s w s₂ := by
  have second : Steps ⟨.eval (.binary l op r) i, [], s⟩ ⟨.eval r i, [.right op v], s₁⟩ :=
    .head rfl (left.under fine (.left op r i) [])
  exact second.trans (right.past failed (.right op v) nofun [])

end Binary

section Conditional

variable {c : Expr} {b : Block}

theorem Gives.conditional_true (condition : (expr c i).Gives s v s₁) (fine : v.isError = false)
    (holds : v.truthy = true) (body : (block b i).Gives s₁ w s₂) (a : Option Block) :
    (expr (.conditional c b a) i).Gives s w s₂ := by
  have chosen : resume (.branch b a i) v [] s₁ = ⟨.exec b i, [], s₁⟩ := if_pos holds
  exact .head rfl ((condition.under fine (.branch b a i) []).trans (chosen ▸ body))

theorem Gives.conditional_false (condition : (expr c i).Gives s v s₁) (fine : v.isError = false)
    (fails : v.truthy = false) (body : (block b i).Gives s₁ w s₂) (b' : Block) :
    (expr (.conditional c b' (some b)) i).Gives s w s₂ := by
  have chosen : resume (.branch b' (some b) i) v [] s₁ = ⟨.exec b i, [], s₁⟩ := by
    simp [resume, fails]
  exact .head rfl ((condition.under fine (.branch b' (some b) i) []).trans (chosen ▸ body))

end Conditional

/-! ### Expressions in turn -/

/-- Expressions, one after the other, give values and no errors. -/
inductive GivesEach (i : ScopeId) : List Expr → Store → List Value → Store → Prop
  | nil {s : Store} : GivesEach i [] s [] s
  | cons {e : Expr} {es : List Expr} {s s₁ s₂ : Store} {v : Value} {vs : List Value}
      (first : (expr e i).Gives s v s₁) (fine : v.isError = false)
      (others : GivesEach i es s₁ vs s₂) : GivesEach i (e :: es) s (v :: vs) s₂

/-- Pairs of a key and a value, in turn, give entries to be inserted. -/
inductive GivesPairs (i : ScopeId) :
    List (Expr × Expr) → Store → List (Key × (Value × Value)) → Store → Prop
  | nil {s : Store} : GivesPairs i [] s [] s
  | cons {key value : Expr} {ps : List (Expr × Expr)} {s s₁ s₂ s₃ : Store} {v w : Value} {k : Key}
      {es : List (Key × (Value × Value))} (first : (expr key i).Gives s v s₁)
      (place : v.key? = some k) (second : (expr value i).Gives s₁ w s₂)
      (fine : w.isError = false) (others : GivesPairs i ps s₂ es s₃) :
      GivesPairs i ((key, value) :: ps) s ((k, (v, w)) :: es) s₃

end Task

namespace Machine

open Script.Task

variable {i : ScopeId} {s s' : Store} {es : List Expr} {vs : List Value}

theorem steps_continueCall (each : GivesEach i es s vs s') (f : Value) (done : List Value)
    (rest : List Expr) (k : List Frame) :
    Steps (continueCall f done (es ++ rest) i k s) (continueCall f (done ++ vs) rest i k s') := by
  induction each generalizing done with
  | nil =>
    rw [List.append_nil]
    exact .refl
  | @cons e es _ _ _ v vs first fine _ ih =>
    have next := ih (done ++ [v])
    rw [List.append_assoc] at next
    exact (first.under fine (.argument f done (es ++ rest) i) k).trans next

theorem steps_continueArray (each : GivesEach i es s vs s') (done : List Value) (k : List Frame) :
    Steps (continueArray done es i k s) ⟨.give (.array (done ++ vs)), k, s'⟩ := by
  induction each generalizing done with
  | nil =>
    rw [List.append_nil]
    exact .refl
  | @cons e es _ _ _ v vs first fine _ ih =>
    have next := ih (done ++ [v])
    rw [List.append_assoc] at next
    exact (first.under fine (.item done es i) k).trans next

theorem isError_of_key? {v : Value} {k : Key} (place : v.key? = some k) :
    v.isError = false := by
  cases v <;> first | rfl | cases place

theorem steps_continueTable {ps : List (Expr × Expr)} {entries : List (Key × (Value × Value))}
    (each : GivesPairs i ps s entries s') (done : Entries) (k : List Frame) :
    Steps (continueTable done ps i k s)
      ⟨.give (.table (entries.foldl (fun t e => t.insert e.1 e.2) done)), k, s'⟩ := by
  induction each generalizing done with
  | nil => exact .refl
  | @cons key value ps _ s₁ _ _ v _ place _ first stands second fine _ ih =>
    have keyed : resume (.key done value ps i) v k s₁ =
        ⟨.eval value i, .value done place v ps i :: k, s₁⟩ := by
      simp [resume, stands]
    have opened := first.under (isError_of_key? stands) (.key done value ps i) k
    rw [keyed] at opened
    exact opened.trans ((second.under fine (.value done place v ps i) k).trans (ih _))

end Machine

namespace Task

open Machine

variable {i : ScopeId} {e : Expr} {es : List Expr} {vs : List Value} {s s₁ s₂ s₃ : Store}
  {f v w : Value}

theorem GivesEach.array (each : GivesEach i es s vs s₁) :
    (expr (.array es) i).Gives s (.array vs) s₁ :=
  .head rfl (steps_continueArray each [] [])

theorem GivesPairs.table {ps : List (Expr × Expr)} {entries : List (Key × (Value × Value))}
    (each : GivesPairs i ps s entries s₁) :
    (expr (.table ps) i).Gives s (.table (Table.ofList entries)) s₁ :=
  .head rfl (steps_continueTable each .empty [])

theorem Gives.call (callee : (expr e i).Gives s f s₁) (fine : f.isError = false)
    (arguments : GivesEach i es s₁ vs s₂) (called : (apply f vs).Gives s₂ v s₃) :
    (expr (.call e es) i).Gives s v s₃ := by
  have begun : Steps ⟨.eval (.call e es) i, [], s⟩ (continueCall f [] es i [] s₁) :=
    .head rfl (callee.under fine (.callee es i) [])
  have ended := steps_continueCall arguments f [] [] []
  rw [List.append_nil] at ended
  exact begun.trans (ended.trans called)

/-- An argument that gives an error ends the call before it begins. -/
theorem Gives.call_argument_failed (callee : (expr e i).Gives s f s₁) (fine : f.isError = false)
    (arguments : GivesEach i es s₁ vs s₂) {e' : Expr} (argument : (expr e' i).Gives s₂ v s₃)
    (failed : v.isError = true) (rest : List Expr) :
    (expr (.call e (es ++ e' :: rest)) i).Gives s v s₃ := by
  have begun : Steps ⟨.eval (.call e (es ++ e' :: rest)) i, [], s⟩
      (continueCall f [] (es ++ e' :: rest) i [] s₁) :=
    .head rfl (callee.under fine (.callee (es ++ e' :: rest) i) [])
  have reached := steps_continueCall arguments f [] (e' :: rest) []
  exact begun.trans (reached.trans (argument.past failed (.argument f ([] ++ vs) rest i) nofun []))

/-! ### Statements and blocks -/

theorem Gives.define (value : (expr e i).Gives s v s₁) (fine : v.isError = false)
    (name : String) : (stmt (.define name e) i).Gives s .null (s₁.define i name v) :=
  value.under fine (.define name i) []

/-- A name is rebound in the scope that it is found in. -/
theorem Gives.assign (value : (expr e i).Gives s v s₁) (fine : v.isError = false) {name : String}
    {owner : ScopeId} (found : s₁.heap.owner? i name = some owner) :
    (stmt (.assign name e) i).Gives s .null (s₁.define owner name v) := by
  have rebound : resume (.assign name i) v [] s₁ = ⟨.give .null, [], s₁.define owner name v⟩ := by
    simp only [resume, found]
  have given := value.under fine (.assign name i) []
  rwa [rebound] at given

theorem Gives.bare (gives : (expr e i).Gives s v s₁) : (stmt (.bare e) i).Gives s v s₁ :=
  gives

section Block

variable {st : Stmt} {rest : Block}

theorem Gives.sequence (first : (stmt st i).Gives s v s₁) (rest : Block) :
    Steps ((block (st :: rest) i).enter s)
      (if v.endsBlock || rest.isEmpty then ⟨.give v, [], s₁⟩ else ⟨.exec rest i, [], s₁⟩) := by
  have begun : step ((block (st :: rest) i).enter s) =
      .running ((execStmt st i [] s).above [.sequence rest i]) := by
    rw [← execStmt_above]
    rfl
  refine .head begun ((first.onto [.sequence rest i]).tail ?_)
  cases v <;> rfl

theorem Gives.last (first : (stmt st i).Gives s v s₁) : (block [st] i).Gives s v s₁ := by
  have ended := first.sequence []
  rwa [List.isEmpty_nil, Bool.or_true, if_pos rfl] at ended

theorem Gives.cons (first : (stmt st i).Gives s v s₁) (goes : v.endsBlock = false)
    (filled : rest.isEmpty = false) (others : (block rest i).Gives s₁ w s₂) :
    (block (st :: rest) i).Gives s w s₂ := by
  have begun := first.sequence rest
  rw [goes, filled] at begun
  exact begun.trans others

end Block

/-! ### Calls -/

section Apply

variable {number : Nat} {params : List String} {body : Block} {args : List Value}

/-- The store in which the body of a call runs, if its scope is made inside the
    scope `i`. -/
def inner (i : ScopeId) (params : List String) (args : List Value) (s : Store) : Store :=
  { s with
    heap := s.heap.alloc (some i) (parameterBindings params args .empty)
    depth := s.depth + 1 }

/-- A call gives what its body gives, without the layer of a return. -/
theorem Gives.apply (room : s.depth < maxCallDepth)
    (runs : (block body s.heap.size).Gives (inner i params args s) v s₁) :
    (Task.apply (.function number params body i) args).Gives s v.unreturned
      { s₁ with depth := s₁.depth - 1 } := by
  have begun : step ((Task.apply (.function number params body i) args).enter s) =
      .running (((block body s.heap.size).enter (inner i params args s)).above [.leave]) := by
    simp only [enter, step, callValue, if_pos room]
    rfl
  refine .head begun ((runs.onto [.leave]).tail ?_)
  cases v <;> rfl

/-- With as many calls active as there may be, a call gives an error. -/
theorem gives_overflow (full : maxCallDepth ≤ s.depth) :
    (Task.apply (.function number params body i) args).Gives s Failure.stackOverflow.value s := by
  refine .single ?_
  simp only [enter, step, callValue, if_neg (Nat.not_lt_of_le full)]

theorem gives_builtin {b : Builtin} (replies : b.call args = .value v) :
    (Task.apply (.builtin b) args).Gives s v s := by
  refine .single ?_
  simp only [enter, step, callValue, replies]

/-- A call of a built-in function by its name, if nothing else is bound to that. -/
theorem GivesEach.call_builtin {es : List Expr} {b : Builtin} (each : GivesEach i es s args s₁)
    (free : s.heap.lookup? i b.name = none) (replies : b.call args = .value v) :
    (expr (.call (.identifier b.name) es) i).Gives s v s₁ :=
  (gives_builtin_name free b.ofName?_name).call rfl each (gives_builtin replies)

end Apply

end Task

end Script
