/-
  Script/Proofs/Session/Counting.lean
  ===================================
  **Counters that share nothing.**

  A function makes counters: each call of it leaves a scope with a number of its
  own, and answers with a function that adds one to this number.  All counters
  come of the same literal and lie in the same outer scope, and every call of one
  makes a further scope; but what it rebinds is found in the scope that the
  counter was made in.  So calls of one counter are counted, whatever calls of
  others come between.

  Main statements: what a call does to the scopes (`Counting.gives_counter`,
  `Counting.gives_maker`) and to a session with counters
  (`Session.Counters.withCount`, `Session.Counters.withCounter`); calls in turn
  and actions in turn (`Session.Counters.gives_each`, `Session.Counters.run`), each
  by induction; and `Session.counts_calls`.
-/
import Mathlib
import Script.Proofs.Expr.Rendered
import Script.Proofs.Heap.Extended
import Script.Proofs.Heap.Visible
import Script.Proofs.Session.Run

namespace Script

namespace Counting

/-! ### The program -/

/-- The text that binds the function. -/
def source : String := "
        let makeCounter = fn() \x7b
            let i = 0;
            fn() \x7b
                i = i + 1;
                i
            \x7d
        \x7d;
    "

def counterBody : Block :=
  [.assign "i" (.binary (.identifier "i") .add (.integer 1)), .bare (.identifier "i")]

def makerBody : Block := [.define "i" (.integer 0), .bare (.function [] counterBody)]

/-- A counter whose number is bound in the scope `k`. -/
def counter (number : Nat) (k : ScopeId) : Value := .function number [] counterBody k

/-- The function that makes counters, made in the scope `g`. -/
def maker (number : Nat) (g : ScopeId) : Value := .function number [] makerBody g

set_option maxRecDepth 8192 in
theorem ofString_source :
    Program.ofString source = .ok ⟨[.define "makeCounter" (.function [] makerBody)]⟩ := by
  unfold Program.ofString Parsed.ofString TokenStream.ofString Scanner.ofString
  -- a literal is made of its characters, which need not be computed from its bytes
  rw [show source.toList = _ from String.toList_ofList]
  cbv

/-! ### What calls do to the scopes -/

/-- The scopes behind a call of a counter with its number in the scope `k`. -/
def counted (h : Heap) (k : ScopeId) (n : Int64) : Heap :=
  (h.alloc (some k) .empty).define k "i" (.integer n)

/-- The scopes behind a call, in the scope `g`, that makes a counter. -/
def extended (h : Heap) (g : ScopeId) : Heap :=
  (h.alloc (some g) .empty).define h.size "i" (.integer 0)

section Calls

variable [Digesting] {s : Store} {g k : ScopeId} {number : Nat} {n : Int64}

/-- A counter answers with its number and one, and this is its number then. -/
theorem gives_counter (room : s.depth < maxCallDepth) (inside : k < s.heap.size)
    (own : s.heap.binding? k "i" = some (.integer n)) :
    (Task.apply (counter number k) []).Gives s (.integer (n + 1))
      { s with heap := counted s.heap k (n + 1) } := by
  let j := s.heap.size
  let s₁ := Task.inner k [] [] s
  let s₂ := s₁.define k "i" (.integer (n + 1))
  have other : k ≠ j := Nat.ne_of_lt inside
  -- the scope of the call binds nothing, so the number is found around it
  have unbound : s₁.heap.binding? j "i" = none := s.heap.binding?_alloc_size _ _
  have outer : s₁.heap.parent? j = some k := s.heap.parent?_alloc_size _
  have own₁ : s₁.heap.binding? k "i" = some (.integer n) :=
    ((s.heap.extends_alloc _ _).binding? inside _).trans own
  have found : s₁.heap.owner? j "i" = some k :=
    (Heap.owner?_outer unbound outer inside).trans (Heap.owner?_bound (by rw [own₁]; rfl))
  have before : s₁.heap.lookup? j "i" = some (.integer n) :=
    (Heap.lookup?_outer unbound outer inside).trans (Heap.lookup?_bound own₁)
  have after : s₂.heap.lookup? j "i" = some (.integer (n + 1)) := by
    have unbound₂ : s₂.heap.binding? j "i" = none :=
      (s₁.heap.binding?_define_of_ne (.inl other)).trans unbound
    have outer₂ : s₂.heap.parent? j = some k := (s₁.heap.parent?_define _ _ _ _).trans outer
    have inside₁ : k < s₁.heap.size := Nat.lt_of_lt_of_le inside (s.heap.extends_alloc _ _).size
    rw [Heap.lookup?_outer unbound₂ outer₂ inside]
    exact Heap.lookup?_bound (Heap.binding?_define_self inside₁)
  have sum := (Task.gives_bound before).binary rfl (Task.gives_integer 1) rfl .add
  have runs : (Task.block counterBody j).Gives s₁ (.integer (n + 1)) s₂ :=
    (sum.assign rfl found).cons rfl rfl (Task.gives_bound after).bare.last
  exact Task.Gives.apply room runs

/-- A call answers with a new counter, with its number in a new scope. -/
theorem gives_maker (room : s.depth < maxCallDepth) :
    (Task.apply (maker number g) []).Gives s (counter s.functions s.heap.size)
      { s with heap := extended s.heap g, functions := s.functions + 1 } := by
  have runs : (Task.block makerBody s.heap.size).Gives (Task.inner g [] [] s)
      (counter s.functions s.heap.size) _ :=
    ((Task.gives_integer 0).define rfl "i").cons rfl rfl (Task.gives_function _ _).bare.last
  exact Task.Gives.apply room runs

end Calls

/-! ### What becomes of bindings -/

section Bindings

variable {h : Heap} {i g k : ScopeId} {n : Int64} {name : String}

/-- Nothing but its number changes when a counter is called. -/
theorem binding?_counted (inside : i < h.size) (other : i ≠ k) :
    (counted h k n).binding? i name = h.binding? i name := by
  rw [counted, Heap.binding?_define_of_ne (.inl other.symm)]
  exact (h.extends_alloc _ _).binding? inside name

theorem size_le_counted : h.size ≤ (counted h k n).size := by
  rw [counted, Heap.size_define]
  exact (h.extends_alloc _ _).size

theorem binding?_counted_self (inside : k < h.size) :
    (counted h k n).binding? k "i" = some (.integer n) :=
  Heap.binding?_define_self (Nat.lt_of_lt_of_le inside (h.extends_alloc _ _).size)

/-- A counter that is made changes nothing. -/
theorem extends_extended (h : Heap) (g : ScopeId) : h.Extends (extended h g) :=
  (h.extends_alloc _ _).define (Nat.le_refl _) _ _

theorem lt_size_extended : h.size < (extended h g).size := by
  simp [extended]

theorem binding?_extended_size : (extended h g).binding? h.size "i" = some (.integer 0) :=
  Heap.binding?_define_self (by simp)

end Bindings

/-! ### Calls in turn -/

/-- How often each counter has been called behind calls of these. -/
def tally (count : String → Nat) (xs : List String) (y : String) : Nat := count y + xs.count y

theorem tally_cons (count : String → Nat) (x : String) (xs : List String) :
    tally (tally count [x]) xs = tally count (x :: xs) := by
  funext y
  rw [tally, tally, tally, List.count_singleton, List.count_cons]
  omega

/-- What calls of these counters answer, if each has been called so often before. -/
def numbers (count : String → Nat) : List String → List Value
  | [] => []
  | x :: xs => .integer (.ofNat (count x + 1)) :: numbers (tally count [x]) xs

theorem length_numbers (count : String → Nat) (xs : List String) :
    (numbers count xs).length = xs.length := by
  induction xs generalizing count with
  | nil => rfl
  | cons x xs ih => exact congrArg (· + 1) (ih _)

/-- A call answers with the number of calls of this counter up to it. -/
theorem numbers_getElem? {count : String → Nat} {xs : List String} {x : String} {q : Nat}
    (there : xs[q]? = some x) :
    (numbers count xs)[q]? = some (.integer (.ofNat (tally count (xs.take (q + 1)) x))) := by
  induction xs generalizing count q with
  | nil => cases there
  | cons y xs ih =>
    cases q with
    | zero =>
      obtain rfl := Option.some.inj there
      simp [numbers, tally]
    | succ q => rw [numbers, List.getElem?_cons_succ, ih there, tally_cons, List.take_succ_cons]

/-! ### Actions -/

/-- What is done with counters: one is made and bound to a name by a text, or
    called by a text, or called from outside; or some are called, one after the other,
    in the items of an array. -/
inductive Action where
  | make (name : String)
  | call (name : String)
  | apply (name : String)
  | list (names : List String)
deriving DecidableEq, Repr

/-- The text that makes a counter and binds it to the name. -/
def makeText (x : String) : String := "let " ++ x ++ " = makeCounter()"

/-- The text that calls the counter of that name. -/
def callText (x : String) : String := x ++ "()"

/-- The text of the array of what calls of these counters answer. -/
def listText (xs : List String) : String := "[" ++ ", ".intercalate (xs.map callText) ++ "]"

/-- What a text without errors answers. -/
def accepted? : Except (List Diagnostic) Answer × Session → Option (Answer × Session)
  | (.ok answer, s) => some (answer, s)
  | (.error _, _) => none

namespace Action

def perform [Digesting] (fuel : Nat) (s : Session) : Action → Option (Answer × Session)
  | .make x => (s.eval fuel (makeText x)).bind accepted?
  | .call x => (s.eval fuel (callText x)).bind accepted?
  | .apply x => (s.lookup? x).bind fun f => s.apply fuel f []
  | .list xs => (s.eval fuel (listText xs)).bind accepted?

/-- The counters that are called, in that order. -/
def called : Action → List String
  | .make _ => []
  | .call x | .apply x => [x]
  | .list xs => xs

/-- The names of counters behind an action. -/
def names (known : List String) : Action → List String
  | .make x => x :: known
  | .call _ | .apply _ | .list _ => known

/-- A counter gets a name that is new, and not that of the function, and is called
    by its name. -/
def admissible (known : List String) : Action → Bool
  | .make x => isName x && x != "makeCounter" && !known.contains x
  | a => a.called.all known.contains

/-- The answer to an action, by what the calls answer. -/
def answer : Action → List Value → Answer
  | .make _, _ => ⟨.value .null, ""⟩
  | .call _, vs | .apply _, vs => ⟨.value (vs.headD .null), ""⟩
  | .list _, vs => ⟨.value (.array vs), ""⟩

end Action

/-- Perform actions, one after the other, and report all answers. -/
def performAll [Digesting] (fuel : Nat) (s : Session) : List Action → Option (List Answer × Session)
  | [] => some ([], s)
  | a :: as =>
    (a.perform fuel s).bind fun (answer, s') =>
      (performAll fuel s' as).map fun (answers, s'') => (answer :: answers, s'')

/-- Only counters that have been made are called, and no two of them have the same
    name. -/
def admissible (known : List String) : List Action → Bool
  | [] => true
  | a :: as => a.admissible known && admissible (a.names known) as

/-- The answers to actions, if each counter has been called so often before. -/
def answers (count : String → Nat) : List Action → List Answer
  | [] => []
  | a :: as => a.answer (numbers count a.called) :: answers (tally count a.called) as

theorem length_answers (count : String → Nat) (as : List Action) :
    (answers count as).length = as.length := by
  induction as generalizing count with
  | nil => rfl
  | cons a as ih => exact congrArg (· + 1) (ih _)

theorem answers_getElem? {count : String → Nat} {as : List Action} {a : Action} {p : Nat}
    (there : as[p]? = some a) :
    (answers count as)[p]? =
      some (a.answer (numbers (tally count ((as.take p).flatMap Action.called)) a.called)) := by
  induction as generalizing count p with
  | nil => cases there
  | cons b as ih =>
    cases p with
    | zero =>
      obtain rfl := Option.some.inj there
      rfl
    | succ p =>
      have sum : tally (tally count b.called) ((as.take p).flatMap Action.called) =
          tally count (((b :: as).take (p + 1)).flatMap Action.called) := by
        funext y
        rw [tally, tally, tally, List.take_succ_cons, List.flatMap_cons, List.count_append]
        omega
      rw [answers, List.getElem?_cons_succ, ih there, sum]

/-! ### Texts -/

/-- The call of the counter of that name. -/
def callExpr (x : String) : Expr := .call (.identifier x) []

theorem ofString_of_render {p : Program} {text : String} (printable : p.printable = true)
    (same : p.render = text) : Program.ofString text = .ok p := by
  rw [Program.ofString, ← same, Parsed.ofString_of_printable printable]
  rfl

theorem render_callExpr (x : String) : (callExpr x).render = callText x := by
  simp [callExpr, callText, Expr.render, Expr.renderEach, String.append_assoc]

theorem ofString_makeText {x : String} (name : isName x = true) :
    Program.ofString (makeText x) = .ok ⟨[.define x (callExpr "makeCounter")]⟩ := by
  have maker : isName "makeCounter" = true := by decide
  apply ofString_of_render
  · simp [Program.printable, callExpr, name, maker]
  · simp [Program.render, Block.renderEach, Stmt.render, render_callExpr, callText, makeText,
      String.append_assoc]

theorem ofString_callText {x : String} (name : isName x = true) :
    Program.ofString (callText x) = .ok ⟨[.bare (callExpr x)]⟩ := by
  apply ofString_of_render
  · simp [Program.printable, callExpr, name]
  · simp [Program.render, Block.renderEach, Stmt.render, render_callExpr]

theorem printableEach_callExpr {xs : List String} (names : ∀ x ∈ xs, isName x = true) :
    Expr.printableEach (xs.map callExpr) = true := by
  induction xs with
  | nil => rfl
  | cons x xs ih =>
    obtain ⟨name, others⟩ := List.forall_mem_cons.mp names
    simp [callExpr, name, ih others]

theorem renderEach_callExpr (xs : List String) :
    Expr.renderEach (xs.map callExpr) = xs.map callText := by
  induction xs with
  | nil => rfl
  | cons x xs ih => rw [List.map_cons, Expr.renderEach, render_callExpr, ih, List.map_cons]

theorem ofString_listText {xs : List String} (names : ∀ x ∈ xs, isName x = true) :
    Program.ofString (listText xs) = .ok ⟨[.bare (.array (xs.map callExpr))]⟩ := by
  apply ofString_of_render
  · simp [Program.printable, printableEach_callExpr names]
  · simp [Program.render, Block.renderEach, Stmt.render, Expr.render, renderEach_callExpr, listText]

end Counting

namespace Session

open Counting

/-! ### Sessions with counters -/

/-- A session with counters of these names, each called so often, and with its
    number in the scope `own` of its name. -/
structure Counters (s : Session) (own : String → ScopeId) (known : List String)
    (count : String → Nat) : Prop extends s.Rested where
  inside : s.root < s.store.heap.size
  maker : ∃ number, s.store.heap.binding? s.root "makeCounter" = some (maker number s.root)
  names : ∀ x ∈ known, isName x = true
  bound : ∀ x ∈ known, ∃ number, s.store.heap.binding? s.root x = some (counter number (own x))
  made : ∀ x ∈ known, own x < s.store.heap.size ∧ own x ≠ s.root
  number : ∀ x ∈ known, s.store.heap.binding? (own x) "i" = some (.integer (.ofNat (count x)))
  apart : ∀ x ∈ known, ∀ y ∈ known, own x = own y → x = y
  fresh : ∀ x ∉ known, count x = 0

/-- The session behind a call of the counter with its number in the scope `k`. -/
def withCount (s : Session) (k : ScopeId) (n : Int64) : Session :=
  ⟨{ s.store with heap := counted s.store.heap k n }, s.root⟩

/-- The session behind a call of the function, when the counter that it answers with
    has been bound to the name. -/
def withCounter (s : Session) (x : String) : Session :=
  ⟨{ s.store with
    heap := (extended s.store.heap s.root).define s.root x
      (counter s.store.functions s.store.heap.size)
    functions := s.store.functions + 1 }, s.root⟩

/-! ### Actions of a session -/

/-- Given steps enough, the session answers the action so, and goes on as `s'`. -/
def Performs [Digesting] (s : Session) (a : Action) (answer : Answer) (s' : Session) : Prop :=
  ∃ fuel, ∀ n ≥ fuel, a.perform n s = some (answer, s')

/-- Given steps enough, the session answers the actions so, and goes on as `s'`. -/
def PerformsAll [Digesting] (s : Session) (as : List Action) (answers : List Answer)
    (s' : Session) : Prop :=
  ∃ fuel, ∀ n ≥ fuel, performAll n s as = some (answers, s')

section Performs

variable [Digesting] {s s' s'' : Session} {a : Action} {as : List Action} {answer : Answer}
  {answers : List Answer} {x text : String} {f : Value}

theorem Evaluates.accepted (evaluates : s.Evaluates text answer s') :
    ∃ fuel, ∀ n ≥ fuel, (s.eval n text).bind accepted? = some (answer, s') := by
  obtain ⟨fuel, runs⟩ := evaluates
  refine ⟨fuel, ?_⟩
  intro n enough
  rw [runs n enough]
  rfl

theorem Applies.performs (applies : s.Applies f [] answer s') (bound : s.lookup? x = some f) :
    s.Performs (.apply x) answer s' := by
  obtain ⟨fuel, runs⟩ := applies
  refine ⟨fuel, ?_⟩
  intro n enough
  rw [Action.perform, bound, Option.bind_some, runs n enough]

theorem Performs.cons (first : s.Performs a answer s') (others : s'.PerformsAll as answers s'') :
    s.PerformsAll (a :: as) (answer :: answers) s'' := by
  obtain ⟨fuel, runs⟩ := first
  obtain ⟨fuel', runs'⟩ := others
  refine ⟨max fuel fuel', ?_⟩
  intro n enough
  rw [performAll, runs n (Nat.le_trans (Nat.le_max_left ..) enough), Option.bind_some]
  dsimp only
  rw [runs' n (Nat.le_trans (Nat.le_max_right ..) enough)]
  rfl

end Performs

namespace Counters

variable {s : Session} {own : String → ScopeId} {known : List String} {count : String → Nat}
  {x : String}

/-- A call of a counter counts for this counter, and for no other. -/
theorem withCount (counters : s.Counters own known count) (hx : x ∈ known) :
    (s.withCount (own x) (.ofNat (count x + 1))).Counters own known (tally count [x]) := by
  obtain ⟨inside, other⟩ := counters.made x hx
  let s' := s.withCount (own x) (.ofNat (count x + 1))
  have root (name : String) :
      s'.store.heap.binding? s.root name = s.store.heap.binding? s.root name :=
    binding?_counted counters.inside other.symm
  have same (y : String) (different : x ≠ y) : tally count [x] y = count y := by
    simp [tally, different]
  constructor
  · exact ⟨counters.depth, counters.output⟩
  · exact Nat.lt_of_lt_of_le counters.inside size_le_counted
  · obtain ⟨number, bound⟩ := counters.maker
    exact ⟨number, (root _).trans bound⟩
  · exact counters.names
  · intro y hy
    obtain ⟨number, bound⟩ := counters.bound y hy
    exact ⟨number, (root _).trans bound⟩
  · intro y hy
    obtain ⟨inside', other'⟩ := counters.made y hy
    exact ⟨Nat.lt_of_lt_of_le inside' size_le_counted, other'⟩
  · intro y hy
    by_cases equal : x = y
    · subst equal
      have more : tally count [x] x = count x + 1 := by simp [tally]
      rw [more]
      exact binding?_counted_self inside
    · -- the number of another counter is in another scope
      have elsewhere : own y ≠ own x := fun scope => equal (counters.apart y hy x hx scope).symm
      rw [same y equal]
      exact (binding?_counted (counters.made y hy).1 elsewhere).trans (counters.number y hy)
  · exact counters.apart
  · intro y hy
    have different : x ≠ y := by
      rintro rfl
      exact hy hx
    rw [same y different]
    exact counters.fresh y hy

/-- A counter that is made has not been called, and changes no other. -/
theorem withCounter (counters : s.Counters own known count) (name : isName x = true)
    (other : x ≠ "makeCounter") (new : x ∉ known) :
    (s.withCounter x).Counters (Function.update own x s.store.heap.size) (x :: known) count := by
  have grown := extends_extended s.store.heap s.root
  have inside : s.root < (extended s.store.heap s.root).size :=
    Nat.lt_of_lt_of_le counters.inside grown.size
  have different : ∀ y ∈ known, y ≠ x := by
    rintro y hy rfl
    exact new hy
  have old {i : ScopeId} {y : String} (there : i < s.store.heap.size) (apart : s.root ≠ i ∨ x ≠ y) :
      (s.withCounter x).store.heap.binding? i y = s.store.heap.binding? i y :=
    (Heap.binding?_define_of_ne apart).trans (grown.binding? there y)
  constructor
  · exact ⟨counters.depth, counters.output⟩
  · show s.root < (Heap.define _ _ _ _).size
    rwa [Heap.size_define]
  · obtain ⟨number, bound⟩ := counters.maker
    exact ⟨number, (old counters.inside (.inr other)).trans bound⟩
  · exact List.forall_mem_cons.mpr ⟨name, counters.names⟩
  · refine List.forall_mem_cons.mpr ⟨⟨s.store.functions, ?_⟩, fun y hy => ?_⟩
    · rw [Function.update_self]
      exact Heap.binding?_define_self inside
    · obtain ⟨number, bound⟩ := counters.bound y hy
      rw [Function.update_of_ne (different y hy)]
      exact ⟨number, (old counters.inside (.inr (different y hy).symm)).trans bound⟩
  · show ∀ y ∈ x :: known, _ < (Heap.define _ _ _ _).size ∧ _
    rw [Heap.size_define]
    refine List.forall_mem_cons.mpr ⟨?_, fun y hy => ?_⟩
    · rw [Function.update_self]
      exact ⟨lt_size_extended, Nat.ne_of_gt counters.inside⟩
    · obtain ⟨inside', other'⟩ := counters.made y hy
      rw [Function.update_of_ne (different y hy)]
      exact ⟨Nat.lt_of_lt_of_le inside' grown.size, other'⟩
  · refine List.forall_mem_cons.mpr ⟨?_, fun y hy => ?_⟩
    · rw [Function.update_self, counters.fresh x new]
      exact (Heap.binding?_define_of_ne (.inl (Nat.ne_of_lt counters.inside))).trans
        binding?_extended_size
    · obtain ⟨inside', other'⟩ := counters.made y hy
      rw [Function.update_of_ne (different y hy)]
      exact (old inside' (.inl other'.symm)).trans (counters.number y hy)
  · -- the new scope is none of the old ones
    have scope : ∀ y ∈ known, own y ≠ s.store.heap.size := fun y hy =>
      Nat.ne_of_lt (counters.made y hy).1
    intro y hy z hz same
    rcases List.mem_cons.mp hy with rfl | hy'
    · rcases List.mem_cons.mp hz with rfl | hz'
      · rfl
      · rw [Function.update_self, Function.update_of_ne (different z hz')] at same
        exact absurd same.symm (scope z hz')
    · rw [Function.update_of_ne (different y hy')] at same
      rcases List.mem_cons.mp hz with rfl | hz'
      · rw [Function.update_self] at same
        exact absurd same (scope y hy')
      · rw [Function.update_of_ne (different z hz')] at same
        exact counters.apart y hy' z hz' same
  · intro y hy
    exact counters.fresh y fun known => hy (List.mem_cons_of_mem x known)

/-! ### Calls -/

theorem depth_lt (counters : s.Counters own known count) : s.store.depth < maxCallDepth := by
  rw [counters.depth]
  decide

theorem lookup? (counters : s.Counters own known count) (hx : x ∈ known) :
    ∃ number, s.lookup? x = some (counter number (own x)) := by
  obtain ⟨number, bound⟩ := counters.bound x hx
  exact ⟨number, Heap.lookup?_bound bound⟩

variable [Digesting]

theorem gives_apply (counters : s.Counters own known count) (hx : x ∈ known) (number : Nat) :
    (Task.apply (counter number (own x)) []).Gives s.store (.integer (.ofNat (count x + 1)))
      (s.withCount (own x) (.ofNat (count x + 1))).store := by
  have next : (Int64.ofNat (count x) + 1 : Int64) = .ofNat (count x + 1) :=
    (Int64.ofNat_add (count x) 1).symm
  rw [← next]
  exact gives_counter counters.depth_lt (counters.made x hx).1 (counters.number x hx)

theorem gives_call (counters : s.Counters own known count) (hx : x ∈ known) :
    (Task.expr (callExpr x) s.root).Gives s.store (.integer (.ofNat (count x + 1)))
      (s.withCount (own x) (.ofNat (count x + 1))).store := by
  obtain ⟨number, bound⟩ := counters.lookup? hx
  exact (Task.gives_bound bound).call rfl .nil (counters.gives_apply hx number)

/-- Calls in turn, of counters in any order, answer with the numbers of their calls. -/
theorem gives_each {xs : List String} (counters : s.Counters own known count)
    (all : ∀ x ∈ xs, x ∈ known) :
    ∃ s' : Session, s'.root = s.root ∧ s'.Counters own known (tally count xs) ∧
      Task.GivesEach s.root (xs.map callExpr) s.store (numbers count xs) s'.store := by
  induction xs generalizing s count with
  | nil => exact ⟨s, rfl, counters, .nil⟩
  | cons x xs ih =>
    obtain ⟨hx, others⟩ := List.forall_mem_cons.mp all
    obtain ⟨s', root, counters', each⟩ := ih (counters.withCount hx) others
    rw [tally_cons] at counters'
    exact ⟨s', root, counters', .cons (counters.gives_call hx) rfl each⟩

/-! ### Actions -/

theorem make (counters : s.Counters own known count)
    (admissible : (Action.make x).admissible known = true) :
    ∃ s' own', s.Performs (.make x) ⟨.value .null, ""⟩ s' ∧
      s'.Counters own' (x :: known) count := by
  simp only [Action.admissible, Bool.and_eq_true, bne_iff_ne, Bool.not_eq_true',
    List.contains_eq_mem, decide_eq_false_iff_not] at admissible
  obtain ⟨⟨name, other⟩, new⟩ := admissible
  obtain ⟨number, bound⟩ := counters.maker
  have made := (Task.gives_bound (Heap.lookup?_bound bound)).call rfl .nil
    (gives_maker counters.depth_lt)
  have counters' := counters.withCounter name other new
  have evaluates : s.Evaluates (makeText x) ⟨.value .null, ""⟩ (s.withCounter x) :=
    counters.evaluates counters'.toRested rfl (ofString_makeText name) (made.define rfl x).last
  exact ⟨_, _, evaluates.accepted, counters'⟩

theorem step (counters : s.Counters own known count) {a : Action}
    (admissible : a.admissible known = true) :
    ∃ s' own', s.Performs a (a.answer (numbers count a.called)) s' ∧
      s'.Counters own' (a.names known) (tally count a.called) := by
  cases a with
  | make x => exact counters.make admissible
  | call x =>
    have hx : x ∈ known := by simpa [Action.admissible, Action.called] using admissible
    have counters' := counters.withCount hx
    have evaluates := counters.evaluates counters'.toRested rfl
      (ofString_callText (counters.names x hx)) (counters.gives_call hx).bare.last
    exact ⟨_, own, evaluates.accepted, counters'⟩
  | apply x =>
    have hx : x ∈ known := by simpa [Action.admissible, Action.called] using admissible
    have counters' := counters.withCount hx
    obtain ⟨number, bound⟩ := counters.lookup? hx
    have applies := counters.applies counters'.toRested rfl (counters.gives_apply hx number)
    exact ⟨_, own, applies.performs bound, counters'⟩
  | list xs =>
    have all : ∀ x ∈ xs, x ∈ known := by simpa [Action.admissible, Action.called] using admissible
    have names : ∀ x ∈ xs, isName x = true := fun x hx => counters.names x (all x hx)
    obtain ⟨s', root, counters', each⟩ := counters.gives_each all
    have evaluates := counters.evaluates counters'.toRested root (ofString_listText names)
      each.array.bare.last
    exact ⟨s', own, evaluates.accepted, counters'⟩

/-- Whatever is done with counters, each counts the calls of its own. -/
theorem run (counters : s.Counters own known count) {as : List Action}
    (admissible : Counting.admissible known as = true) :
    ∃ s', s.PerformsAll as (answers count as) s' := by
  induction as generalizing s own known count with
  | nil => exact ⟨s, 0, fun _ _ => rfl⟩
  | cons a as ih =>
    obtain ⟨first, others⟩ := Bool.and_eq_true_iff.mp admissible
    obtain ⟨s', own', performs, counters'⟩ := counters.step first
    obtain ⟨s'', performs'⟩ := ih counters' others
    exact ⟨s'', performs.cons performs'⟩

end Counters

/-- The session that the text leaves has no counters yet. -/
theorem evaluates_counters [Digesting] : ∃ s : Session,
    new.Evaluates Counting.source ⟨.value .null, ""⟩ s ∧
      s.Counters (fun _ => s.root) [] fun _ => 0 := by
  let s : Session :=
    ⟨{ new.store.define new.root "makeCounter" (maker 0 new.root) with functions := 1 }, new.root⟩
  have gives : (Task.block [.define "makeCounter" (.function [] makerBody)] new.root).Gives
      new.store .null s.store :=
    ((Task.gives_function [] makerBody).define rfl "makeCounter").last
  refine ⟨s, evaluates_of_gives rested_new ofString_source gives, ?_⟩
  constructor
  · exact ⟨rfl, rfl⟩
  · decide
  · exact ⟨0, rfl⟩
  · exact List.forall_mem_nil _
  · exact List.forall_mem_nil _
  · exact List.forall_mem_nil _
  · exact List.forall_mem_nil _
  · exact List.forall_mem_nil _
  · intro x _
    rfl

/-- The text binds a function that makes counters.  Counters may be made and called,
    by texts or from outside, as often as one likes and in any order; each call of a
    counter answers with the number of calls of this counter so far, as a word of 64
    bits, whatever calls of others come between. -/
theorem counts_calls [Digesting] :
    ∃ s : Session, new.Evaluates Counting.source ⟨.value .null, ""⟩ s ∧
      ∀ as : List Action, admissible [] as = true →
        ∃ (answers : List Answer) (s' : Session), s.PerformsAll as answers s' ∧
          answers.length = as.length ∧
          ∀ (p : Nat) (a : Action), as[p]? = some a →
            ∃ vs : List Value, answers[p]? = some (a.answer vs) ∧ vs.length = a.called.length ∧
              ∀ (q : Nat) (x : String), a.called[q]? = some x →
                vs[q]? = some (.integer (.ofNat
                  (((as.take p).flatMap Action.called ++ a.called.take (q + 1)).count x))) := by
  obtain ⟨s, evaluates, counters⟩ := evaluates_counters
  refine ⟨s, evaluates, ?_⟩
  intro as admissible
  obtain ⟨s', performs⟩ := counters.run admissible
  refine ⟨answers _ as, s', performs, length_answers _ as, ?_⟩
  intro p a there
  refine ⟨_, answers_getElem? there, length_numbers _ _, ?_⟩
  intro q x called
  rw [numbers_getElem? called, tally, tally, List.count_append, Nat.zero_add]

/-- Two counters, called in an array as they are called in turn, and afterwards one
    by one. -/
theorem counts_calls_two :
    let _ : Digesting := ⟨fun _ => 0⟩
    ∃ (s s' : Session) (made made' : Answer), new.Evaluates Counting.source ⟨.value .null, ""⟩ s ∧
      s.PerformsAll [.make "counterA", .make "counterB", .list ["counterA", "counterA", "counterB"],
          .call "counterB", .apply "counterA"]
        [made, made', ⟨.value (.array [.integer 1, .integer 2, .integer 1]), ""⟩,
          ⟨.value (.integer 2), ""⟩, ⟨.value (.integer 3), ""⟩] s' := by
  intro _
  obtain ⟨s, evaluates, counts⟩ := counts_calls
  obtain ⟨answers, s', performs, length, reported⟩ := counts
    [.make "counterA", .make "counterB", .list ["counterA", "counterA", "counterB"],
      .call "counterB", .apply "counterA"] (by decide)
  obtain ⟨made, made', each, second, third, rfl⟩ : ∃ made made' each second third,
      answers = [made, made', each, second, third] := by
    match answers, length with
    | [made, made', each, second, third], _ => exact ⟨made, made', each, second, third, rfl⟩
  obtain ⟨vs, answered, all, numbers⟩ := reported 2 _ rfl
  obtain ⟨us, answered', single, numbers'⟩ := reported 3 _ rfl
  obtain ⟨ws, answered'', single', numbers''⟩ := reported 4 _ rfl
  obtain ⟨one, two, three, rfl⟩ := List.length_eq_three.mp all
  obtain ⟨four, rfl⟩ := List.length_eq_one_iff.mp single
  obtain ⟨five, rfl⟩ := List.length_eq_one_iff.mp single'
  obtain rfl := Option.some.inj (numbers 0 _ rfl)
  obtain rfl := Option.some.inj (numbers 1 _ rfl)
  obtain rfl := Option.some.inj (numbers 2 _ rfl)
  obtain rfl := Option.some.inj (numbers' 0 _ rfl)
  obtain rfl := Option.some.inj (numbers'' 0 _ rfl)
  obtain rfl := Option.some.inj answered
  obtain rfl := Option.some.inj answered'
  obtain rfl := Option.some.inj answered''
  exact ⟨s, s', made, made', evaluates, performs⟩

end Session

end Script
