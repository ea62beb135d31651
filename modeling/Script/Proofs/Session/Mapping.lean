/-
  Script/Proofs/Session/Mapping.lean
  ==================================
  **A function applied to every item of an array, by recursion.**

  The function makes another one, in the scope of its call, that goes through the
  items: it calls itself with the rest of them and with what there is already, and
  the mapped function in between.  So an item takes one call more than the rest of
  the array, and the last one needs room for a call of the mapped function, too.

  Main statements: `Mapping.gives_iter`, by induction on the items that are left;
  `Mapping.gives_map`; and `Session.applies_map`, for the function that doubles.
-/
import Mathlib
import Script.Proofs.Heap.Extended
import Script.Proofs.Heap.Visible
import Script.Proofs.Session.Run

namespace Script

namespace Mapping

/-! ### The program -/

/-- The text that binds the two functions and applies one of them to the other. -/
def source : String := "
        let map = fn(arr, f) \x7b
            let iter = fn(arr, accumulated) \x7b
                if (len(arr) == 0) \x7b
                    accumulated
                \x7d else \x7b
                    iter(rest(arr), push(accumulated, f(first(arr))))
                \x7d
            \x7d;
            iter(arr, [])
        \x7d;
        let double = fn(x) \x7b x * 2 \x7d;
        map([1, 2, 3, 4], double)
    "

/-- The call of a built-in function by its name. -/
def builtinCall (b : Builtin) (args : List Expr) : Expr := .call (.identifier b.name) args

/-- The first item, mapped. -/
def mapped : Expr := .call (.identifier "f") [builtinCall .first [.identifier "arr"]]

/-- The call for the items behind the first. -/
def next : Expr :=
  .call (.identifier "iter")
    [builtinCall .rest [.identifier "arr"], builtinCall .push [.identifier "accumulated", mapped]]

def iterBody : Block :=
  [.bare (.conditional (.binary (builtinCall .len [.identifier "arr"]) .equal (.integer 0))
    [.bare (.identifier "accumulated")] (some [.bare next]))]

def mapBody : Block :=
  [.define "iter" (.function ["arr", "accumulated"] iterBody),
    .bare (.call (.identifier "iter") [.identifier "arr", .array []])]

def doubleBody : Block := [.bare (.binary (.identifier "x") .mul (.integer 2))]

/-- What the text denotes. -/
def program : Program :=
  ⟨[.define "map" (.function ["arr", "f"] mapBody),
    .define "double" (.function ["x"] doubleBody),
    .bare (.call (.identifier "map")
      [.array [.integer 1, .integer 2, .integer 3, .integer 4], .identifier "double"])]⟩

/-- The function that goes through the items, made in the scope `k`. -/
def iter (number : Nat) (k : ScopeId) : Value :=
  .function number ["arr", "accumulated"] iterBody k

def map (number : Nat) (g : ScopeId) : Value := .function number ["arr", "f"] mapBody g

def double (number : Nat) (g : ScopeId) : Value := .function number ["x"] doubleBody g

set_option maxRecDepth 8192 in
theorem ofString_source : Program.ofString source = .ok program := by
  unfold Program.ofString Parsed.ofString TokenStream.ofString Scanner.ofString
  -- a literal is made of its characters, which need not be computed from its bytes
  rw [show source.toList = _ from String.toList_ofList]
  cbv

/-! ### What the scopes show -/

/-- What the names stand for from a scope, if `map` was called with `f` and made
    the other function, in the scope `k` of its call. -/
structure Shows (h : Heap) (i : ScopeId) (number : Nat) (k : ScopeId) (f : Value) : Prop where
  inside : i < h.size
  iter : h.lookup? i "iter" = some (iter number k)
  callee : h.lookup? i "f" = some f
  free : ∀ b : Builtin, h.lookup? i b.name = none

section Shows

variable {h h' : Heap} {i k : ScopeId} {number : Nat} {f : Value}

theorem Shows.extends (shows : Shows h i number k f) (more : h.Extends h') :
    Shows h' i number k f where
  inside := Nat.lt_of_lt_of_le shows.inside more.size
  iter := (more.lookup? shows.inside _).trans shows.iter
  callee := (more.lookup? shows.inside _).trans shows.callee
  free b := (more.lookup? shows.inside _).trans (shows.free b)

/-- A call of the other function sees the same from within. -/
theorem Shows.inner (shows : Shows h i number k f) (v w : Value) :
    Shows (h.alloc (some i) (parameterBindings ["arr", "accumulated"] [v, w] .empty)) h.size
      number k f where
  inside := by simp
  iter := (Heap.lookup?_alloc_free shows.inside rfl).trans shows.iter
  callee := (Heap.lookup?_alloc_free shows.inside rfl).trans shows.callee
  free b := by
    have unbound : (parameterBindings ["arr", "accumulated"] [v, w] .empty).get? b.name = none := by
      cases b <;> rfl
    exact (Heap.lookup?_alloc_free shows.inside unbound).trans (shows.free b)

end Shows

/-! ### What a call answers -/

/-- The items that were there and, behind them, the others mapped, if so many
    calls may yet be nested. -/
def answer (calls : Nat) (g : Int64 → Int64) (done : List Value) (xs : List Int64) : Value :=
  if xs.length < calls then .array (done ++ xs.map fun x => .integer (g x))
  else Failure.stackOverflow.value

section Answer

variable {calls : Nat} {g : Int64 → Int64} {done : List Value} {x : Int64} {xs : List Int64}

theorem answer_none : answer 0 g done xs = Failure.stackOverflow.value :=
  if_neg (Nat.not_lt_zero _)

theorem answer_nil : answer (calls + 1) g done [] = .array done := by
  simp [answer]

theorem answer_cons : answer (calls + 1) g done (x :: xs) =
    answer calls g (done ++ [.integer (g x)]) xs := by
  simp [answer]

theorem unreturned_answer : (answer calls g done xs).unreturned = answer calls g done xs := by
  unfold answer
  split <;> rfl

/-- Of the lengths that fit a word, only zero is the word zero. -/
theorem ofNat_succ_ne_zero {n : Nat} (short : n + 1 < 2 ^ 64) :
    (Int64.ofNat (n + 1) == 0) = false := by
  rw [beq_eq_false_iff_ne]
  intro zero
  have bits := congrArg (fun n : Int64 => n.toBitVec.toNat) zero
  simp at bits
  omega

end Answer

section Call

variable [Digesting]

/-- The value is a function from integers to integers that leaves nothing behind
    but scopes of its own, unless no further call is possible. -/
structure Computes (f : Value) (g : Int64 → Int64) : Prop where
  fine : f.isError = false
  value : ∀ (s : Store) (x : Int64), s.depth < maxCallDepth → ∃ h, s.heap.Extends h ∧
    (Task.apply f [.integer x]).Gives s (.integer (g x)) { s with heap := h }
  full : ∀ (s : Store) (x : Int64), maxCallDepth ≤ s.depth →
    (Task.apply f [.integer x]).Gives s Failure.stackOverflow.value s

variable {s : Store} {i k : ScopeId} {number calls : Nat} {f : Value} {g : Int64 → Int64}
  {done : List Value} {x : Int64} {xs : List Int64}

/-! ### The items that are left -/

theorem gives_test (shows : Shows s.heap i number k f) {items : List Value}
    (items_bound : s.heap.lookup? i "arr" = some (.array items)) :
    (Task.expr (.binary (builtinCall .len [.identifier "arr"]) .equal (.integer 0)) i).Gives s
      (.boolean (Int64.ofNat items.length == 0)) s := by
  have items := Task.gives_bound items_bound
  have length := Task.GivesEach.call_builtin (.cons items rfl .nil) (shows.free .len) rfl
  exact length.binary rfl (Task.gives_integer 0) rfl .equal

section Next

variable (shows : Shows s.heap i number k f) (computes : Computes f g)
  (items : s.heap.lookup? i "arr" = some (.array ((x :: xs).map .integer)))
  (others : s.heap.lookup? i "accumulated" = some (.array done))

include shows items

theorem gives_first :
    (Task.expr (builtinCall .first [.identifier "arr"]) i).Gives s (.integer x) s :=
  Task.GivesEach.call_builtin (.cons (Task.gives_bound items) rfl .nil) (shows.free .first) rfl

theorem gives_rest :
    (Task.expr (builtinCall .rest [.identifier "arr"]) i).Gives s (.array (xs.map .integer)) s :=
  Task.GivesEach.call_builtin (.cons (Task.gives_bound items) rfl .nil) (shows.free .rest) rfl

include computes others

/-- With room for a call of the mapped function, the next call is made. -/
theorem gives_next {v : Value} (room : s.depth < maxCallDepth)
    (called : ∀ h, s.heap.Extends h → ∃ h', h.Extends h' ∧
      (Task.apply (iter number k) [.array (xs.map .integer), .array (done ++ [.integer (g x)])]).Gives
        { s with heap := h } v { s with heap := h' }) :
    ∃ h', s.heap.Extends h' ∧ (Task.expr next i).Gives s v { s with heap := h' } := by
  obtain ⟨h, more, computed⟩ := computes.value s x room
  obtain ⟨h', more', called⟩ := called h more
  have mapped := (Task.gives_bound shows.callee).call computes.fine
    (.cons (gives_first shows items) rfl .nil) computed
  have pushed := Task.GivesEach.call_builtin
    (.cons (Task.gives_bound others) rfl (.cons mapped rfl .nil)) (shows.free .push) rfl
  exact ⟨h', more.trans more', (Task.gives_bound shows.iter).call rfl
    (.cons (gives_rest shows items) rfl (.cons pushed rfl .nil)) called⟩

/-- Without, there is an error, and no further call is made. -/
theorem gives_next_full (full : maxCallDepth ≤ s.depth) :
    (Task.expr next i).Gives s Failure.stackOverflow.value s := by
  have mapped := (Task.gives_bound shows.callee).call computes.fine
    (.cons (gives_first shows items) rfl .nil) (computes.full s x full)
  have push := Task.gives_builtin_name (shows.free .push) (Builtin.ofName?_name .push)
  have pushed := push.call_argument_failed rfl (.cons (Task.gives_bound others) rfl .nil) mapped rfl []
  exact (Task.gives_bound shows.iter).call_argument_failed rfl
    (.cons (gives_rest shows items) rfl .nil) pushed rfl []

end Next

/-! ### The calls -/

/-- What the body gives, in the scope of a call, from what the next call gives. -/
theorem gives_iterBody (shows : Shows s.heap i number k f) (computes : Computes f g)
    (items : s.heap.lookup? i "arr" = some (.array (xs.map .integer)))
    (others : s.heap.lookup? i "accumulated" = some (.array done)) (short : xs.length < 2 ^ 64)
    (left : s.depth + calls = maxCallDepth)
    (called : ∀ x xs', xs = x :: xs' → ∀ h, s.heap.Extends h → ∃ h', h.Extends h' ∧
      (Task.apply (iter number k) [.array (xs'.map .integer), .array (done ++ [.integer (g x)])]).Gives
        { s with heap := h } (answer calls g (done ++ [.integer (g x)]) xs') { s with heap := h' }) :
    ∃ h', s.heap.Extends h' ∧
      (Task.block iterBody i).Gives s (answer (calls + 1) g done xs) { s with heap := h' } := by
  have test := gives_test shows items
  rw [List.length_map] at test
  cases xs with
  | nil =>
    refine ⟨s.heap, .refl _, ?_⟩
    rw [answer_nil]
    exact (test.conditional_true rfl rfl (Task.gives_bound others).bare.last _).bare.last
  | cons x xs =>
    rw [List.length_cons, ofNat_succ_ne_zero short] at test
    rw [answer_cons]
    cases calls with
    | zero =>
      have full := gives_next_full shows computes items others (Nat.le_of_eq left.symm)
      refine ⟨s.heap, .refl _, ?_⟩
      rw [answer_none]
      exact (test.conditional_false rfl rfl full.bare.last _).bare.last
    | succ calls =>
      obtain ⟨h, more, gives⟩ :=
        gives_next shows computes items others (by omega) (called x xs rfl)
      exact ⟨h, more, (test.conditional_false rfl rfl gives.bare.last _).bare.last⟩

theorem gives_iter (shows : Shows s.heap k number k f) (computes : Computes f g)
    (short : xs.length < 2 ^ 64) (left : s.depth + calls = maxCallDepth) (done : List Value) :
    ∃ h, s.heap.Extends h ∧
      (Task.apply (iter number k) [.array (xs.map .integer), .array done]).Gives s
        (answer calls g done xs) { s with heap := h } := by
  induction calls generalizing s done xs with
  | zero =>
    refine ⟨s.heap, .refl _, ?_⟩
    rw [answer_none]
    exact Task.gives_overflow (Nat.le_of_eq left.symm)
  | succ calls ih =>
    let args : List Value := [.array (xs.map .integer), .array done]
    let s₁ := Task.inner k ["arr", "accumulated"] args s
    have grown : s.heap.Extends s₁.heap := s.heap.extends_alloc _ _
    have left₁ : s₁.depth + calls = maxCallDepth := by
      show s.depth + 1 + calls = _
      omega
    obtain ⟨h, more, runs⟩ := gives_iterBody (s := s₁) (shows.inner _ _) computes
      (Heap.lookup?_alloc_bound _ rfl) (Heap.lookup?_alloc_bound _ rfl) short left₁ (by
        rintro x xs rfl h more
        exact ih (s := { s₁ with heap := h }) (shows.extends (grown.trans more))
          (Nat.lt_of_succ_lt short) left₁ _)
    have called : (Task.apply (iter number k) args).Gives s (answer (calls + 1) g done xs).unreturned
        { s with heap := h } :=
      Task.Gives.apply (by omega) runs
    rw [unreturned_answer] at called
    exact ⟨h, grown.trans more, called⟩

theorem gives_map (number : Nat) {f : Value} (inside : i < s.heap.size)
    (free : ∀ b : Builtin, s.heap.lookup? i b.name = none) (computes : Computes f g)
    (short : xs.length < 2 ^ 64) (left : s.depth + (calls + 1) = maxCallDepth) :
    ∃ h, s.heap.Extends h ∧
      (Task.apply (map number i) [.array (xs.map .integer), f]).Gives s (answer calls g [] xs)
        { s with heap := h, functions := s.functions + 1 } := by
  let args : List Value := [.array (xs.map .integer), f]
  let s₁ := Task.inner i ["arr", "f"] args s
  let k := s.heap.size
  let s₂ := { s₁ with functions := s.functions + 1 }.define k "iter" (iter s.functions k)
  have made : k < s₁.heap.size := by
    show k < (s.heap.alloc _ _).size
    simp [k]
  have grown : s.heap.Extends s₂.heap := (s.heap.extends_alloc _ _).define (Nat.le_refl _) _ _
  have iter_bound : s₂.heap.lookup? k "iter" = some (iter s.functions k) :=
    Heap.lookup?_bound (s₁.heap.binding?_define_self made)
  have kept (name : String) (other : "iter" ≠ name) : s₂.heap.binding? k name =
      (parameterBindings ["arr", "f"] args .empty).get? name :=
    (s₁.heap.binding?_define_of_ne (.inr other)).trans (s.heap.binding?_alloc_size _ _)
  have shows : Shows s₂.heap k s.functions k f := by
    constructor
    · show k < (s₁.heap.define _ _ _).size
      rw [Heap.size_define]
      exact made
    · exact iter_bound
    · exact Heap.lookup?_bound (kept "f" (by decide))
    · intro b
      have unbound : s₂.heap.binding? k b.name = none := by
        rw [kept b.name (by cases b <;> decide)]
        cases b <;> rfl
      have outer : s₂.heap.parent? k = some i :=
        (s₁.heap.parent?_define _ _ _ _).trans (s.heap.parent?_alloc_size _)
      rw [Heap.lookup?_outer unbound outer inside, grown.lookup? inside, free b]
  have items : s₂.heap.lookup? k "arr" = some (.array (xs.map .integer)) :=
    Heap.lookup?_bound (kept "arr" (by decide))
  have left₂ : s₂.depth + calls = maxCallDepth := by
    show s.depth + 1 + calls = _
    omega
  obtain ⟨h, more, called⟩ := gives_iter shows computes short left₂ []
  have defined : (Task.stmt (.define "iter" (.function ["arr", "accumulated"] iterBody)) k).Gives s₁
      .null s₂ :=
    (Task.gives_function _ _).define rfl "iter"
  have rest := (Task.gives_bound iter_bound).call rfl
    (.cons (Task.gives_bound items) rfl (.cons Task.GivesEach.nil.array rfl .nil)) called
  have runs : (Task.block mapBody k).Gives s₁ (answer calls g [] xs) { s₂ with heap := h } :=
    defined.cons rfl rfl rest.bare.last
  have applied : (Task.apply (map number i) args).Gives s (answer calls g [] xs).unreturned
      { s with heap := h, functions := s.functions + 1 } :=
    Task.Gives.apply (by omega) runs
  rw [unreturned_answer] at applied
  exact ⟨h, grown.trans more, applied⟩

theorem computes_double : Computes (double number i) (2 * ·) where
  fine := rfl
  value s x room := by
    have argument : (Task.inner i ["x"] [.integer x] s).heap.lookup? s.heap.size "x" =
        some (.integer x) :=
      Heap.lookup?_alloc_bound _ rfl
    have product := (Task.gives_bound argument).binary rfl (Task.gives_integer 2) rfl .mul
    have called : (Task.apply (double number i) [.integer x]).Gives s (.integer (x * 2))
        { s with heap := (Task.inner i ["x"] [.integer x] s).heap } :=
      Task.Gives.apply room product.bare.last
    rw [Int64.mul_comm] at called
    exact ⟨_, s.heap.extends_alloc _ _, called⟩
  full s x full := Task.gives_overflow full

end Call

theorem answer_calls {g : Int64 → Int64} {xs : List Int64} : answer 9999 g [] xs =
    if xs.length ≤ 9998 then .array (xs.map fun x => .integer (g x))
    else .error "stack overflow" := by
  simp only [answer, Nat.lt_succ_iff]
  rfl

end Mapping

namespace Session

open Mapping

/-- Bind names in the root scope, one after the other. -/
def defineAll (bindings : List (String × Value)) (s : Session) : Session :=
  bindings.foldl (fun s b => s.define b.1 b.2) s

/-- The session is at rest, and no name of a built-in function is bound to
    anything else in its root scope. -/
structure Unshadowed (s : Session) : Prop extends s.Rested where
  inside : s.root < s.store.heap.size
  outermost : s.store.heap.parent? s.root = none
  free : ∀ b : Builtin, s.lookup? b.name = none

variable {s : Session}

theorem Unshadowed.define (unshadowed : s.Unshadowed) {name : String}
    (other : Builtin.ofName? name = none) (v : Value) : (s.define name v).Unshadowed := by
  have outermost := (s.store.heap.parent?_define s.root name v s.root).trans unshadowed.outermost
  refine ⟨⟨unshadowed.depth, unshadowed.output⟩, ?_, outermost, ?_⟩
  · show s.root < (s.store.heap.define s.root name v).size
    rw [Heap.size_define]
    exact unshadowed.inside
  · intro b
    have different : name ≠ b.name := by
      rintro rfl
      rw [b.ofName?_name] at other
      cases other
    have free := unshadowed.free b
    rw [lookup?, Heap.lookup?_outermost unshadowed.outermost] at free
    exact (Heap.lookup?_outermost outermost _).trans
      ((s.store.heap.binding?_define_of_ne (.inr different)).trans free)

theorem Unshadowed.extends (unshadowed : s.Unshadowed) {h : Heap} (more : s.store.heap.Extends h)
    (functions : Nat) :
    (⟨{ s.store with heap := h, functions }, s.root⟩ : Session).Unshadowed where
  depth := unshadowed.depth
  output := unshadowed.output
  inside := Nat.lt_of_lt_of_le unshadowed.inside more.size
  outermost := (more.parent? unshadowed.inside).trans unshadowed.outermost
  free b := (more.lookup? unshadowed.inside _).trans (unshadowed.free b)

theorem Unshadowed.defineAll (unshadowed : s.Unshadowed) {bindings : List (String × Value)}
    (others : ∀ b ∈ bindings, Builtin.ofName? b.1 = none) : (s.defineAll bindings).Unshadowed := by
  induction bindings generalizing s with
  | nil => exact unshadowed
  | cons b bindings ih =>
    obtain ⟨other, others⟩ := List.forall_mem_cons.1 others
    exact ih (unshadowed.define other b.2) others

theorem root_defineAll (bindings : List (String × Value)) (s : Session) :
    (s.defineAll bindings).root = s.root := by
  induction bindings generalizing s with
  | nil => rfl
  | cons b bindings ih => exact ih _

/-- What a call of `map` gives in the root scope. -/
theorem Unshadowed.gives_map [Digesting] {f : Value} {g : Int64 → Int64} {xs : List Int64}
    (unshadowed : s.Unshadowed) (number : Nat) (computes : Computes f g) (short : xs.length < 2 ^ 64) :
    ∃ h, s.store.heap.Extends h ∧
      (Task.apply (map number s.root) [.array (xs.map .integer), f]).Gives s.store
        (if xs.length ≤ 9998 then .array (xs.map fun x => .integer (g x))
          else .error "stack overflow")
        { s.store with heap := h, functions := s.store.functions + 1 } := by
  have left : s.store.depth + (9999 + 1) = maxCallDepth := by
    rw [unshadowed.depth]
    rfl
  rw [← answer_calls]
  exact Mapping.gives_map number unshadowed.inside unshadowed.free computes short left

/-- Where no name of a built-in function is rebound, `map` does what it is meant
    to do, and leaves all bindings as they were. -/
theorem Unshadowed.applies [Digesting] {f : Value} {g : Int64 → Int64} {xs : List Int64}
    (unshadowed : s.Unshadowed) (number : Nat) (computes : Computes f g) (short : xs.length < 2 ^ 64) :
    ∃ s' : Session, s.Applies (map number s.root) [.array (xs.map .integer), f]
        ⟨.value (if xs.length ≤ 9998 then .array (xs.map fun x => .integer (g x))
          else .error "stack overflow"), ""⟩ s' ∧
      s'.store.depth = 0 ∧ s'.root = s.root ∧ ∀ name, s'.lookup? name = s.lookup? name := by
  obtain ⟨h, more, gives⟩ := unshadowed.gives_map number computes short
  have applies := applies_of_gives unshadowed.toRested gives
  rw [unshadowed.output] at applies
  exact ⟨_, applies, unshadowed.depth, rfl, more.lookup? unshadowed.inside⟩

/-- What the text itself comes to, and the session it leaves. -/
theorem evaluates_source [Digesting] :
    ∃ s : Session,
      new.Evaluates source ⟨.value (.array [.integer 2, .integer 4, .integer 6, .integer 8]), ""⟩ s ∧
      s.Unshadowed ∧ s.lookup? "map" = some (map 0 s.root) ∧
      s.lookup? "double" = some (double 1 s.root) := by
  let s₀ : Session := ⟨{ (new.store.define new.root "map" (map 0 new.root)).define new.root "double"
    (double 1 new.root) with functions := 2 }, new.root⟩
  have unshadowed : s₀.Unshadowed :=
    ⟨⟨rfl, rfl⟩, by decide, rfl, fun b => (Heap.lookup?_outermost rfl _).trans (by cases b <;> rfl)⟩
  have computes : Computes (double 1 new.root) (2 * ·) := computes_double
  have map_bound : s₀.lookup? "map" = some (map 0 new.root) := Heap.lookup?_bound rfl
  have double_bound : s₀.lookup? "double" = some (double 1 new.root) := Heap.lookup?_bound rfl
  have few : ([1, 2, 3, 4] : List Int64).length < 2 ^ 64 := by decide
  obtain ⟨h, more, called⟩ := unshadowed.gives_map 0 computes few
  have items : (Task.expr (.array [.integer 1, .integer 2, .integer 3, .integer 4]) new.root).Gives
      s₀.store (.array [.integer 1, .integer 2, .integer 3, .integer 4]) s₀.store :=
    Task.GivesEach.array (.cons (Task.gives_integer 1) rfl (.cons (Task.gives_integer 2) rfl
      (.cons (Task.gives_integer 3) rfl (.cons (Task.gives_integer 4) rfl .nil))))
  have applied := (Task.gives_bound map_bound).call rfl
    (.cons items rfl (.cons (Task.gives_bound double_bound) rfl .nil)) called
  have doubled := applied.bare.last
  have mapped : (Task.stmt (.define "map" (.function ["arr", "f"] mapBody)) new.root).Gives new.store
      .null { new.store.define new.root "map" (map 0 new.root) with functions := 1 } :=
    (Task.gives_function _ _).define rfl "map"
  have gives : (Task.block program.statements new.root).Gives new.store
      (.array [.integer 2, .integer 4, .integer 6, .integer 8])
      { s₀.store with heap := h, functions := 3 } :=
    mapped.cons rfl rfl (((Task.gives_function _ _).define rfl "double").cons rfl rfl doubled)
  have stays (name : String) := more.lookup? unshadowed.inside name
  exact ⟨_, evaluates_of_gives rested_new ofString_source gives, unshadowed.extends more 3,
    (stays "map").trans map_bound, (stays "double").trans double_bound⟩

/-- The text binds a function that doubles all items of an array, if there are at
    most 9998 of them, and that answers more items than these with the error of too
    many calls; no array has so many items that their number does not fit a word.
    This is so whatever else is bound in the root scope, the array for instance, if it
    hides no built-in function; and all that is bound there stays. -/
theorem applies_map [Digesting] :
    ∃ (s : Session) (map double : Value),
      new.Evaluates source ⟨.value (.array [.integer 2, .integer 4, .integer 6, .integer 8]), ""⟩ s ∧
      s.lookup? "map" = some map ∧ s.lookup? "double" = some double ∧ s.store.depth = 0 ∧
      ∀ (bindings : List (String × Value)) (xs : List Int64),
        (∀ b ∈ bindings, Builtin.ofName? b.1 = none) → xs.length < 2 ^ 64 →
        ∃ s' : Session,
          (s.defineAll bindings).Applies map [.array (xs.map .integer), double]
            ⟨.value (if xs.length ≤ 9998 then .array (xs.map fun x => .integer (2 * x))
              else .error "stack overflow"), ""⟩ s' ∧
          s'.store.depth = 0 ∧ s'.root = s.root ∧
          ∀ name, s'.lookup? name = (s.defineAll bindings).lookup? name := by
  obtain ⟨s, evaluated, unshadowed, map_bound, double_bound⟩ := evaluates_source
  refine ⟨s, _, _, evaluated, map_bound, double_bound, unshadowed.depth, ?_⟩
  intro bindings xs others short
  obtain ⟨s', applies, depth, root, same⟩ :=
    (unshadowed.defineAll others).applies 0 computes_double short
  rw [root_defineAll] at applies root
  exact ⟨s', applies, depth, root, same⟩

/-- A product that does not fit wraps around, and the array, bound in the root
    scope, stays. -/
theorem applies_map_wrapping :
    let _ : Digesting := ⟨fun _ => 0⟩
    ∃ (s s' : Session) (map double : Value),
      new.Evaluates source ⟨.value (.array [.integer 2, .integer 4, .integer 6, .integer 8]), ""⟩ s ∧
      s.lookup? "map" = some map ∧ s.lookup? "double" = some double ∧
      (s.define "xs" (.array [.integer 4611686018427387904, .integer (-5)])).Applies map
        [.array [.integer 4611686018427387904, .integer (-5)], double]
        ⟨.value (.array [.integer Int64.minValue, .integer (-10)]), ""⟩ s' ∧
      s'.lookup? "xs" =
        (s.define "xs" (.array [.integer 4611686018427387904, .integer (-5)])).lookup? "xs" := by
  intro _
  obtain ⟨s, map, double, evaluates, map_bound, double_bound, -, applies⟩ := applies_map
  obtain ⟨s', applied, -, -, same⟩ :=
    applies [("xs", .array [.integer 4611686018427387904, .integer (-5)])]
      [4611686018427387904, -5] (by decide) (by decide)
  exact ⟨s, s', map, double, evaluates, map_bound, double_bound, applied, same "xs"⟩

end Session

end Script
