/-
  Script/Proofs/Eval/Depth.lean
  =============================
  **The number of active calls.**

  A step enters a call, leaves one, or does not look at their number.  So the
  number is always that at the start of the run and the calls that wait on the
  stack together, and comes back to the start when nothing waits any more.

  The limit on it shows only in the error of a call that exceeds it, which no
  frame keeps.  A run that ends in another way is therefore, step by step, the
  run from any smaller number.

  Main statements: `Machine.callStep` says what a step can do,
  `Task.depth_perform` what a task does.
-/
import Script.Proofs.Eval.Run

namespace Script

/-- A store in which another number of calls is active. -/
def Store.atDepth (s : Store) (n : Nat) : Store := { s with depth := n }

namespace Machine

def atDepth (m : Machine) (n : Nat) : Machine := { m with store := m.store.atDepth n }

/-- The calls that wait on a stack. -/
def calls : List Frame → Nat
  | [] => 0
  | .leave :: k => calls k + 1
  | _ :: k => calls k

theorem calls_cons {f : Frame} (inner : f ≠ .leave) (k : List Frame) :
    calls (f :: k) = calls k := by
  cases f with
  | leave => exact absurd rfl inner
  | _ => rfl

/-! ### What a step can do -/

/-- A step that neither looks at the number of active calls nor changes it. -/
structure Level (k : List Frame) (next : Store → Machine) : Prop where
  uniform : ∀ s n, next (s.atDepth n) = (next s).atDepth n
  calls : ∀ s, calls (next s).stack = calls k

theorem Level.depth {k : List Frame} {next : Store → Machine} (level : Level k next)
    (s : Store) : (next s).store.depth = s.depth := by
  have same : next s = (next s).atDepth s.depth := level.uniform s s.depth
  rw [same]
  rfl

theorem Level.of_cons {f : Frame} {k : List Frame} {next : Store → Machine} (inner : f ≠ .leave)
    (level : Level (f :: k) next) : Level k next :=
  ⟨level.uniform, fun s => (level.calls s).trans (calls_cons inner k)⟩

theorem Level.cons {f : Frame} {k : List Frame} {next : Store → Machine} (inner : f ≠ .leave)
    (level : Level k next) : Level (f :: k) next :=
  ⟨level.uniform, fun s => (level.calls s).trans (calls_cons inner k).symm⟩

theorem Level.congr {k : List Frame} {next next' : Store → Machine} (level : Level k next)
    (same : ∀ s, next' s = next s) : Level k next' := by
  rwa [funext same]

theorem level_same (c : Control) (k : List Frame) : Level k fun s => ⟨c, k, s⟩ :=
  ⟨fun _ _ => rfl, fun _ => rfl⟩

theorem level_push (c : Control) {f : Frame} (inner : f ≠ .leave) (k : List Frame) :
    Level k fun s => ⟨c, f :: k, s⟩ :=
  (level_same c (f :: k)).of_cons inner

theorem level_continueCall (callee : Value) (done : List Value) (rest : List Expr) (i : ScopeId)
    (k : List Frame) : Level k (continueCall callee done rest i k) := by
  cases rest with
  | nil => exact level_same _ k
  | cons => exact level_push _ (by simp) k

theorem level_continueArray (done : List Value) (rest : List Expr) (i : ScopeId)
    (k : List Frame) : Level k (continueArray done rest i k) := by
  cases rest with
  | nil => exact level_same _ k
  | cons => exact level_push _ (by simp) k

theorem level_continueTable (done : Entries) (rest : List (Expr × Expr)) (i : ScopeId)
    (k : List Frame) : Level k (continueTable done rest i k) := by
  cases rest with
  | nil => exact level_same _ k
  | cons => exact level_push _ (by simp) k

theorem level_evalExpr (e : Expr) (i : ScopeId) (k : List Frame) : Level k (evalExpr e i k) := by
  cases e with
  | identifier | function => exact ⟨fun _ _ => rfl, fun _ => rfl⟩
  | integer | string | boolean => exact level_same _ k
  | array items => exact level_continueArray [] items i k
  | table pairs => exact level_continueTable .empty pairs i k
  | unary | binary | conditional | loop | call | index => exact level_push _ (by simp) k

theorem level_execStmt (st : Stmt) (i : ScopeId) (k : List Frame) : Level k (execStmt st i k) := by
  cases st with
  | define | assign | «return» => exact level_push _ (by simp) k
  | bare | block => exact level_same _ k

theorem level_execBlock (b : Block) (i : ScopeId) (k : List Frame) :
    Level k (execBlock b i k) := by
  cases b with
  | nil => exact level_same _ k
  | cons st rest => exact (level_execStmt st i _).of_cons (by simp)

theorem level_resume [Digesting] {f : Frame} (inner : f ≠ .leave) (v : Value) (k : List Frame) :
    Level k (resume f v k) := by
  cases f with
  | unary | right | index | «return» => exact level_same _ k
  | left | collection => exact level_push _ (by simp) k
  | branch consequence alternative i =>
    by_cases holds : v.truthy = true
    · exact (level_same (.exec consequence i) k).congr fun s => by simp [resume, holds]
    · cases alternative with
      | none => exact (level_same (.give .null) k).congr fun s => by simp [resume, holds]
      | some b => exact (level_same (.exec b i) k).congr fun s => by simp [resume, holds]
  | test condition body i =>
    by_cases holds : v.truthy = true
    · constructor <;> intros <;> simp only [resume, holds] <;> rfl
    · exact (level_same (.give .null) k).congr fun s => by simp [resume, holds]
  | again condition body i =>
    by_cases ends : v.endsBlock = true
    · exact (level_same (.give v) k).congr fun s => by simp [resume, ends]
    · exact (level_push (.eval condition i) (f := .test condition body i) (by simp) k).congr
        fun s => by simp [resume, ends]
  | callee args i => exact level_continueCall v [] args i k
  | argument callee done rest i => exact level_continueCall callee (done ++ [v]) rest i k
  | item done rest i => exact level_continueArray (done ++ [v]) rest i k
  | key done value rest i =>
    cases hk : v.key? with
    | none =>
      exact (level_same (.give (Failure.unusableKey v.kind).value) k).congr
        fun s => by simp [resume, hk]
    | some place =>
      exact (level_push (.eval value i) (f := .value done place v rest i) (by simp) k).congr
        fun s => by simp [resume, hk]
  | value done place key rest i => exact level_continueTable (done.insert place (key, v)) rest i k
  | define name i => exact ⟨fun _ _ => rfl, fun _ => rfl⟩
  | assign name i =>
    constructor
    · intro s n
      simp only [resume, Store.atDepth]
      split <;> rfl
    · intro s
      simp only [resume]
      split <;> rfl
  | sequence rest i =>
    by_cases ends : (v.endsBlock || rest.isEmpty) = true
    · exact (level_same (.give v) k).congr fun s => by simp only [resume, ends, if_true]
    · exact (level_same (.exec rest i) k).congr fun s => by simp [resume, ends]
  | leave => exact absurd rfl inner

theorem level_passError {f : Frame} (inner : f ≠ .leave) (v : Value) (k : List Frame) :
    Level k (passError f v k) := by
  cases f with
  | leave => exact absurd rfl inner
  | _ => exact level_same _ k

/-- What a step from a control and a stack does to the number of active calls,
    whatever the store is. -/
inductive CallStep [Digesting] (c : Control) (k : List Frame) : Prop
  | level (next : Store → Machine) (level : Level k next)
    (step : ∀ s, step ⟨c, k, s⟩ = .running (next s))
  | enter (next : Store → Machine) (level : Level (.leave :: k) next)
    (step : ∀ s, step ⟨c, k, s⟩ = .running (if s.depth < maxCallDepth
      then (next s).atDepth (s.depth + 1) else ⟨.give Failure.stackOverflow.value, k, s⟩))
  | leave (v : Value) (k' : List Frame) (waits : k = .leave :: k')
    (step : ∀ s, step ⟨c, k, s⟩ = .running ⟨.give v, k', s.atDepth (s.depth - 1)⟩)
  | halt (o : Outcome) (step : ∀ s, step ⟨c, k, s⟩ = .halted o s)

theorem callStep [Digesting] (c : Control) (k : List Frame) : CallStep c k := by
  cases c with
  | eval e i => exact .level _ (level_evalExpr e i k) fun _ => rfl
  | exec b i => exact .level _ (level_execBlock b i k) fun _ => rfl
  | call callee args =>
    cases callee with
    | function n params body i =>
      refine .enter (fun s => ⟨.exec body s.heap.size, .leave :: k,
        { s with heap := s.heap.alloc (some i) (parameterBindings params args .empty) }⟩)
        ⟨fun _ _ => rfl, fun _ => rfl⟩ fun s => ?_
      simp only [Machine.step, callValue]
      split <;> rfl
    | builtin b =>
      have call : ∀ s, Machine.step ⟨.call (.builtin b) args, k, s⟩ =
          callValue (.builtin b) args k s := fun _ => rfl
      cases reply : b.call args with
      | value v =>
        exact .level _ (level_same (.give v) k) fun s => by simp [call, callValue, reply]
      | printed line v =>
        have level : Level k fun s => ⟨.give v, k, s.print line⟩ :=
          ⟨fun _ _ => rfl, fun _ => rfl⟩
        exact .level _ level fun s => by simp [call, callValue, reply]
      | exit code => exact .halt (.exit code) fun s => by simp [call, callValue, reply]
    | _ => exact .level _ (level_same _ k) fun _ => rfl
  | give v =>
    cases k with
    | nil => exact .halt (.value v) fun _ => rfl
    | cons f k =>
      by_cases waits : f = .leave
      · subst waits
        by_cases failed : v.isError = true
        · exact .leave v k rfl fun s => by
            simp [Machine.step, failed, passError, Store.atDepth]
        · exact .leave v.unreturned k rfl fun s => by
            simp [Machine.step, failed, resume, Store.atDepth]
      · by_cases failed : v.isError = true
        · exact .level _ ((level_passError waits v k).cons waits) fun s => by
            simp [Machine.step, failed]
        · exact .level _ ((level_resume waits v k).cons waits) fun s => by
            simp [Machine.step, failed]

/-! ### The number during a run -/

/-- The active calls are those at the start and those that wait on the stack,
    and no more than may be active. -/
structure Balanced (d : Nat) (m : Machine) : Prop where
  depth : m.store.depth = d + calls m.stack
  bounded : m.store.depth ≤ maxCallDepth

theorem balanced_of_step [Digesting] {d : Nat} {m m' : Machine} (balanced : Balanced d m)
    (h : m.step = .running m') : Balanced d m' := by
  obtain ⟨c, k, s⟩ := m
  obtain ⟨depth, bounded⟩ := balanced
  cases callStep c k with
  | level next level step =>
    rw [step] at h
    cases h
    rw [← level.calls s, ← level.depth s] at depth
    exact ⟨depth, level.depth s ▸ bounded⟩
  | enter next level step =>
    rw [step] at h
    cases h
    split
    · rename_i free
      refine ⟨?_, free⟩
      show s.depth + 1 = d + calls (next s).stack
      rw [level.calls s]
      exact congrArg Nat.succ depth
    · exact ⟨depth, bounded⟩
  | leave v k' waits step =>
    subst waits
    rw [step] at h
    cases h
    simp only [calls] at depth
    constructor <;> simp only [Store.atDepth]
    · rw [depth]
      rfl
    · exact Nat.le_trans (Nat.sub_le _ _) bounded
  | halt o step =>
    rw [step] at h
    cases h

theorem balanced_of_steps [Digesting] {d : Nat} {m m' : Machine} (balanced : Balanced d m)
    (steps : Steps m m') : Balanced d m' :=
  steps.keeps (P := Balanced d) balanced_of_step balanced

/-! ### Runs from another number -/

/-- The configuration in which the calls on the stack are counted from another
    number. -/
def rebase (m : Machine) (d : Nat) : Machine := m.atDepth (d + calls m.stack)

/-- A call has exceeded the limit. -/
def Overflows (m : Machine) : Prop := m.control = .give Failure.stackOverflow.value

theorem rebase_step [Digesting] {d d' : Nat} (less : d' ≤ d) {m m' : Machine}
    (balanced : Balanced d m) (h : m.step = .running m') :
    m'.Overflows ∨ (m.rebase d').step = .running (m'.rebase d') := by
  obtain ⟨c, k, s⟩ := m
  obtain ⟨depth, -⟩ := balanced
  simp only [rebase, atDepth] at depth ⊢
  cases callStep c k with
  | level next level step =>
    rw [step] at h ⊢
    cases h
    rw [level.calls s, level.uniform]
    exact .inr rfl
  | enter next level step =>
    rw [step] at h ⊢
    cases h
    by_cases free : s.depth < maxCallDepth
    · right
      -- where fewer calls are active, there is room for this one too
      have free' : d' + calls k < maxCallDepth := by omega
      have waits : d' + calls k + 1 = d' + calls (next s).stack :=
        congrArg (d' + ·) (level.calls s).symm
      rw [if_pos free, if_pos (show (s.atDepth (d' + calls k)).depth < maxCallDepth from free'),
        level.uniform]
      exact congrArg (fun n => Progress.running ((next s).atDepth n)) waits
    · left
      rw [if_neg free]
      rfl
  | leave v k' waits step =>
    subst waits
    rw [step] at h ⊢
    cases h
    exact .inr rfl
  | halt o step =>
    rw [step] at h
    cases h

theorem rebase_halted [Digesting] {d' : Nat} {m : Machine} {o : Outcome} {s : Store}
    (h : m.step = .halted o s) :
    (m.rebase d').step = .halted o (s.atDepth (d' + calls m.stack)) := by
  obtain ⟨c, k, s₀⟩ := m
  cases callStep c k with
  | level _ _ step | enter _ _ step | leave _ _ _ step =>
    rw [step] at h
    cases h
  | halt o' step =>
    rw [step] at h
    cases h
    exact step _

theorem rebase_run [Digesting] {d d' : Nat} (less : d' ≤ d) {fuel : Nat} {m : Machine} {o : Outcome}
    {s : Store} (balanced : Balanced d m) (h : run fuel m = some (o, s))
    (other : o ≠ .value Failure.stackOverflow.value) :
    run fuel (m.rebase d') = some (o, s.atDepth (d' + (s.depth - d))) := by
  induction fuel generalizing m with
  | zero => cases h
  | succ fuel ih =>
    simp only [run] at h ⊢
    split at h
    · rename_i m' next
      rcases rebase_step less balanced next with overflows | next'
      -- from an overflow on, the run can only end with its error
      · obtain ⟨c, k, s'⟩ := m'
        cases overflows
        exact absurd (run_error rfl h) other
      · simp only [next']
        exact ih (balanced_of_step balanced next) h
    · rename_i halts
      cases h
      obtain ⟨rfl, -⟩ := halted_cases halts
      have counted : m.store.depth - d = calls m.stack := by
        rw [balanced.depth, Nat.add_sub_cancel_left]
      simp only [rebase_halted halts, counted]

end Machine

/-! ### Tasks -/

namespace Task

theorem level_enter (t : Task) : Machine.Level [] t.enter := by
  cases t with
  | expr | block | program | apply => exact Machine.level_same _ []
  | stmt st i => exact Machine.level_execStmt st i []
  | round => exact ⟨fun _ _ => rfl, fun _ => rfl⟩

theorem balanced_start (t : Task) {s : Store} (bounded : s.depth ≤ maxCallDepth) :
    Machine.Balanced s.depth (t.start s) := by
  have depth : (t.start s).store.depth = s.depth := t.level_enter.depth _
  have calls : Machine.calls (t.start s).stack = 0 := t.level_enter.calls _
  exact ⟨by rw [depth, calls]; rfl, depth ▸ bounded⟩

theorem rebase_start (t : Task) (s : Store) (d : Nat) :
    (t.start s).rebase d = t.start (s.atDepth d) := by
  have calls : Machine.calls (t.start s).stack = 0 := t.level_enter.calls _
  rw [Machine.rebase, calls]
  exact (t.level_enter.uniform { s with output := "" } d).symm

/-- No task lets more calls be active than may be, and one that ends with a
    value leaves as many active as it found.  Unless that value is the error of
    too many calls, it does the same where fewer are active. -/
theorem depth_perform [Digesting] (t : Task) (s : Store) (bounded : s.depth ≤ maxCallDepth) :
    (∀ m, Machine.Steps (t.start s) m → m.store.depth ≤ maxCallDepth) ∧
      ∀ fuel answer s', t.perform fuel s = some (answer, s') →
        (∀ v, answer.outcome = .value v → s'.depth = s.depth) ∧
          (answer.outcome ≠ .value Failure.stackOverflow.value → ∀ d ≤ s.depth,
            t.perform fuel (s.atDepth d) =
              some (answer, s'.atDepth (d + (s'.depth - s.depth)))) := by
  have start := t.balanced_start bounded
  constructor
  · exact fun m steps => (Machine.balanced_of_steps start steps).bounded
  intro fuel answer s' h
  constructor
  · intro v hv
    obtain ⟨m, o, steps, halts, rfl, rfl⟩ := steps_of_perform h
    obtain ⟨-, ⟨code, rfl⟩ | ⟨w, rfl, -, done⟩⟩ := Machine.halted_cases halts
    · cases t <;> cases hv
    · have depth := (Machine.balanced_of_steps start steps).depth
      rwa [done] at depth
  · intro other d less
    obtain ⟨⟨o, s₁⟩, halts, done⟩ := Option.map_eq_some_iff.mp h
    cases done
    have other' : o ≠ .value Failure.stackOverflow.value := by
      rintro rfl
      cases t <;> exact other rfl
    have rebased := Machine.rebase_run less start halts other'
    rw [rebase_start] at rebased
    rw [perform, rebased]
    rfl

/-- The last call that may be active; the run does not tell from the first. -/
theorem depth_perform_last :
    let _ : Digesting := ⟨fun _ => 0⟩
    let t : Task := .expr (.call (.function ["n"] [.return (.identifier "n")]) [.integer 3]) 0
    let s : Store := ⟨⟨#[⟨.empty, none⟩]⟩, 0, 9999, "before"⟩
    let s' : Store := ⟨⟨#[⟨.empty, none⟩, ⟨⟨[("n", .integer 3)]⟩, some 0⟩]⟩, 1, 9999, ""⟩
    s.depth ≤ maxCallDepth ∧ t.perform 20 s = some (⟨.value (.integer 3), ""⟩, s') ∧
      t.perform 20 (s.atDepth 0) = some (⟨.value (.integer 3), ""⟩, s'.atDepth 0) := by
  intro _ t s s'
  have bounded : s.depth ≤ maxCallDepth := by decide
  have run : t.perform 20 s = some (⟨.value (.integer 3), ""⟩, s') := by cbv
  obtain ⟨back, same⟩ := (t.depth_perform s bounded).2 20 _ s' run
  have early := same (by simp [Failure.value]) 0 s.depth.zero_le
  rw [back _ rfl, Nat.sub_self] at early
  exact ⟨bounded, run, early⟩

end Task

end Script
