/-
  Script/Proofs/Session/Summation.lean
  ====================================
  **A recursion, up to the last call there is room for.**

  A function that adds up the integers to its argument calls itself once for each
  of them, and every call but the last is still active when the next begins.  So
  what it answers depends on how many calls may yet be nested: if these suffice,
  the sum, and otherwise the error of too many calls, which passes by every sum
  that is still to be formed.  A negative argument counts down to the least
  integer, wraps around to the largest, and is never near zero in time.

  Main statements: `Summation.gives_call`, by induction on the number of calls
  that are left, and `Session.applies_sum`.
-/
import Mathlib
import Script.Proofs.Heap.Extended
import Script.Proofs.Session.Run

namespace Script

namespace Summation

/-- The text that binds the function. -/
def source : String :=
  "let sum = fn(n) \x7b if (n == 0) \x7b 0 \x7d else \x7b n + sum(n - 1) \x7d \x7d;"

/-- The argument and the sum of the integers below it. -/
def more : Expr :=
  .binary (.identifier "n") .add
    (.call (.identifier "sum") [.binary (.identifier "n") .sub (.integer 1)])

/-- What the function does. -/
def body : Block :=
  [.bare (.conditional (.binary (.identifier "n") .equal (.integer 0)) [.bare (.integer 0)]
    (some [.bare more]))]

/-- The function, made in the scope `g`. -/
def function (number : Nat) (g : ScopeId) : Value := .function number ["n"] body g

theorem ofString_source :
    Program.ofString source = .ok ⟨[.define "sum" (.function ["n"] body)]⟩ := by
  cbv

/-! ### What a call answers -/

/-- The answer to a call, if so many calls may yet be nested. -/
def answer (calls : Nat) (n : Int64) : Value :=
  if 0 ≤ n.toInt ∧ n.toInt < calls then .integer (.ofInt (n.toInt * (n.toInt + 1) / 2))
  else Failure.stackOverflow.value

theorem answer_none (n : Int64) : answer 0 n = Failure.stackOverflow.value := by
  apply if_neg
  omega

theorem answer_zero (calls : Nat) : answer (calls + 1) 0 = .integer 0 := by
  apply if_pos
  have zero : (0 : Int64).toInt = 0 := rfl
  omega

theorem unreturned_answer (calls : Nat) (n : Int64) :
    (answer calls n).unreturned = answer calls n := by
  unfold answer
  split <;> rfl

/-- Before the least integer comes the largest. -/
theorem toInt_pred (n : Int64) :
    (n - 1).toInt = if n.toInt = -2 ^ 63 then 2 ^ 63 - 1 else n.toInt - 1 := by
  have low := n.le_toInt
  have high := n.toInt_lt
  have one : (1 : Int64).toInt = 1 := rfl
  rw [Int64.toInt_sub, one]
  split <;> rename_i least
  · rw [least]
    rfl
  · exact Int.bmod_eq_of_le (by omega) (by omega)

theorem triangle_succ (m : Int) : (m + 1) * (m + 1 + 1) / 2 = m + 1 + m * (m + 1) / 2 := by
  have split : (m + 1) * (m + 1 + 1) = m * (m + 1) + (m + 1) * 2 := by ring
  rw [split, Int.add_mul_ediv_right _ _ (by decide), Int.add_comm]

/-- An argument other than zero takes one call more than the one before it; it is
    added to what this call answers. -/
theorem answer_succ {calls : Nat} (few : calls ≤ maxCallDepth) {n : Int64} (other : n ≠ 0) :
    (∃ m, answer calls (n - 1) = .integer m ∧ answer (calls + 1) n = .integer (n + m)) ∨
      answer calls (n - 1) = Failure.stackOverflow.value ∧
        answer (calls + 1) n = Failure.stackOverflow.value := by
  have nonzero : n.toInt ≠ 0 := by
    intro zero
    exact other (Int64.toInt.inj zero)
  have pred := toInt_pred n
  unfold maxCallDepth at few
  by_cases enough : 0 ≤ n.toInt ∧ n.toInt < (calls + 1 : Nat)
  · left
    rw [if_neg (by omega)] at pred
    refine ⟨.ofInt ((n.toInt - 1) * (n.toInt - 1 + 1) / 2), ?_, ?_⟩
    · unfold answer
      rw [pred]
      exact if_pos (by omega)
    · have sum := triangle_succ (n.toInt - 1)
      rw [show n.toInt - 1 + 1 = n.toInt by omega] at sum
      unfold answer
      rw [if_pos enough, sum, Int64.ofInt_add, Int64.ofInt_toInt,
        show n.toInt - 1 + 1 = n.toInt by omega]
  · right
    constructor
    · apply if_neg
      split at pred <;> omega
    · exact if_neg enough

/-! ### The calls -/

section Call

variable [Digesting] {s : Store} {g : ScopeId} {number calls : Nat}

/-- What the body gives, in the scope of a call, from what the next call gives. -/
theorem gives_body {i : ScopeId} {n : Int64} {h : Heap} (few : calls ≤ maxCallDepth)
    (argument : s.heap.lookup? i "n" = some (.integer n))
    (callee : s.heap.lookup? i "sum" = some (function number g)) (more : s.heap.Extends h)
    (next : (Task.apply (function number g) [.integer (n - 1)]).Gives s (answer calls (n - 1))
      { s with heap := h }) :
    ∃ h', s.heap.Extends h' ∧
      (Task.block body i).Gives s (answer (calls + 1) n) { s with heap := h' } := by
  have name := Task.gives_bound argument
  have test : (Task.expr (.binary (.identifier "n") .equal (.integer 0)) i).Gives s
      (.boolean (n == 0)) s :=
    name.binary rfl (Task.gives_integer 0) rfl .equal
  have pred : (Task.expr (.binary (.identifier "n") .sub (.integer 1)) i).Gives s
      (.integer (n - 1)) s :=
    name.binary rfl (Task.gives_integer 1) rfl .sub
  have call := (Task.gives_bound callee).call rfl (.cons pred rfl .nil) next
  by_cases zero : n = 0
  · subst zero
    refine ⟨s.heap, .refl _, ?_⟩
    rw [answer_zero]
    have base : (Task.block [.bare (.integer 0)] i).Gives s (.integer 0) s :=
      (Task.gives_integer 0).bare.last
    exact (test.conditional_true rfl rfl base _).bare.last
  · refine ⟨h, more, ?_⟩
    have fails : Value.truthy (.boolean (n == 0)) = false := beq_false_of_ne zero
    obtain ⟨m, below, sum⟩ | ⟨below, fails'⟩ := answer_succ few zero
    · rw [below] at call
      rw [sum]
      exact (test.conditional_false rfl fails (name.binary rfl call rfl .add).bare.last _).bare.last
    · rw [below] at call
      rw [fails']
      have failed := name.binary_right_failed rfl call rfl .add
      exact (test.conditional_false rfl fails failed.bare.last _).bare.last

theorem gives_call (inside : g < s.heap.size)
    (bound : s.heap.lookup? g "sum" = some (function number g))
    (left : s.depth + calls = maxCallDepth) (n : Int64) :
    ∃ h, s.heap.Extends h ∧ (Task.apply (function number g) [.integer n]).Gives s (answer calls n)
      { s with heap := h } := by
  induction calls generalizing s n with
  | zero =>
    refine ⟨s.heap, .refl _, ?_⟩
    rw [answer_none]
    exact Task.gives_overflow (Nat.le_of_eq left.symm)
  | succ calls ih =>
    let s₁ := Task.inner g ["n"] [.integer n] s
    have grown : s.heap.Extends s₁.heap := s.heap.extends_alloc _ _
    have argument : s₁.heap.lookup? s.heap.size "n" = some (.integer n) :=
      Heap.lookup?_alloc_bound _ rfl
    have callee : s₁.heap.lookup? s.heap.size "sum" = some (function number g) :=
      (Heap.lookup?_alloc_free inside rfl).trans bound
    have kept : s₁.heap.lookup? g "sum" = some (function number g) :=
      (grown.lookup? inside _).trans bound
    have left₁ : s₁.depth + calls = maxCallDepth := by
      show s.depth + 1 + calls = _
      omega
    obtain ⟨h, more, next⟩ := ih (Nat.lt_of_lt_of_le inside grown.size) kept left₁ (n - 1)
    obtain ⟨h', more', runs⟩ := gives_body (by omega) argument callee more next
    have called : (Task.apply (function number g) [.integer n]).Gives s
        (answer (calls + 1) n).unreturned { s with heap := h' } :=
      Task.Gives.apply (by omega) runs
    rw [unreturned_answer] at called
    exact ⟨h', grown.trans more', called⟩

end Call

theorem answer_maxCallDepth (n : Int64) : answer maxCallDepth n =
    if 0 ≤ n.toInt ∧ n.toInt ≤ 9999 then .integer (.ofInt (n.toInt * (n.toInt + 1) / 2))
    else .error "stack overflow" := by
  have room : n.toInt < maxCallDepth ↔ n.toInt ≤ 9999 := by
    unfold maxCallDepth
    omega
  simp only [answer, room]
  rfl

end Summation

namespace Session

open Summation

/-- The text binds a function that sums up the integers to its argument if there
    are at most 9999 of them, answers every other argument with the error of too
    many calls, and leaves no call active and its own name as it was. -/
theorem applies_sum [Digesting] :
    ∃ (s : Session) (f : Value), new.Evaluates source ⟨.value .null, ""⟩ s ∧
      s.lookup? "sum" = some f ∧ s.store.depth = 0 ∧
      ∀ n : Int64, ∃ s' : Session,
        s.Applies f [.integer n]
          ⟨.value (if 0 ≤ n.toInt ∧ n.toInt ≤ 9999 then .integer (.ofInt (n.toInt * (n.toInt + 1) / 2))
            else .error "stack overflow"), ""⟩ s' ∧
        s'.store.depth = 0 ∧ s'.root = s.root ∧ s'.lookup? "sum" = some f := by
  let f := function 0 new.root
  let s : Session := ⟨{ new.store.define new.root "sum" f with functions := 1 }, new.root⟩
  have rested : s.Rested := ⟨rfl, rfl⟩
  have inside : s.root < s.store.heap.size := by decide
  have bound : s.store.heap.lookup? s.root "sum" = some f := Heap.lookup?_bound rfl
  have gives : (Task.block [.define "sum" (.function ["n"] body)] new.root).Gives new.store .null
      s.store :=
    ((Task.gives_function ["n"] body).define rfl "sum").last
  refine ⟨s, f, evaluates_of_gives rested_new ofString_source gives, bound, rfl, ?_⟩
  intro n
  obtain ⟨h, more, gives⟩ := gives_call inside bound (Nat.zero_add _) n
  rw [answer_maxCallDepth] at gives
  refine ⟨_, applies_of_gives rested gives, rfl, rfl, ?_⟩
  exact (more.lookup? inside "sum").trans bound

end Session

end Script
