/-
  Script/Proofs/Eval/Arithmetic.lean
  ==================================
  **Arithmetic on integers.**

  A tree of integer literals, prefix minus and the four operations is evaluated
  from left to right, each operation behind its operands, and no scope is read or
  changed.  Sums, differences, products and negations wrap around, and the word
  of a sum is the sum of the words; so however often a tree without divisions
  wraps on the way, its value is the word of its exact integer value.  Quotients
  are not kept so: what they are of are the words of their operands, and a
  division by zero ends the evaluation with an error.

  Main statements: `Arithmetic.wrapped_eq_ofInt_exact`; what a tree steps to above
  any stack, `Arithmetic.steps_of_defined` and `Arithmetic.steps_of_undefined`; and
  `Arithmetic.run_expr`.
-/
import Script.Proofs.Eval.Run

namespace Script

/-! ### Trees -/

/-- The operations of arithmetic. -/
inductive Operation where
  | add
  | sub
  | mul
  | div
deriving DecidableEq, Repr

namespace Operation

def operator : Operation → BinaryOp
  | .add => .add
  | .sub => .sub
  | .mul => .mul
  | .div => .div

/-- The operation on all integers; a quotient is cut off towards zero. -/
def exact : Operation → Int → Int → Int
  | .add, x, y => x + y
  | .sub, x, y => x - y
  | .mul, x, y => x * y
  | .div, x, y => x.tdiv y

end Operation

/-- Trees of integer literals, prefix minus and operations. -/
inductive Arithmetic where
  | literal (n : Int64)
  | negate (a : Arithmetic)
  | binary (a : Arithmetic) (op : Operation) (b : Arithmetic)
deriving DecidableEq, Repr

namespace Arithmetic

/-- The expression that a tree is. -/
def expr : Arithmetic → Expr
  | literal n => .integer n
  | negate a => .unary .negate a.expr
  | binary a op b => .binary a.expr op.operator b.expr

/-- There is no division in the tree. -/
def whole : Arithmetic → Bool
  | literal _ => true
  | negate a => a.whole
  | binary a op b => a.whole && op != .div && b.whole

/-- The value among all integers. -/
def exact : Arithmetic → Int
  | literal n => n.toInt
  | negate a => -a.exact
  | binary a op b => op.exact a.exact b.exact

/-- The value where each operation is brought back to 64 bits. -/
def wrapped : Arithmetic → Int64
  | literal n => n
  | negate a => .ofInt (-a.wrapped.toInt)
  | binary a op b => .ofInt (op.exact a.wrapped.toInt b.wrapped.toInt)

/-- What the tree divides by, in the order in which the divisions are done: from
    left to right, and inner ones first. -/
def divisors : Arithmetic → List Arithmetic
  | literal _ => []
  | negate a => a.divisors
  | binary a op b => a.divisors ++ b.divisors ++ if op = .div then [b] else []

/-- A division by zero is reached: there is one, and none before it. -/
def DividesByZero (a : Arithmetic) : Prop :=
  ∃ before d after, a.divisors = before ++ d :: after ∧ (∀ e ∈ before, e.wrapped ≠ 0) ∧
    d.wrapped = 0

end Arithmetic

/-! ### Words -/

namespace Operation

/-- Quotients of words that do not fit wrap as well. -/
theorem ofInt_tdiv (x y : Int64) : Int64.ofInt (x.toInt.tdiv y.toInt) = x / y := by
  rw [← Int64.toInt_inj, Int64.toInt_div, Int64.toInt_ofInt]

/-- Of sums, differences and products, the words of the operands make the word of
    the result. -/
theorem ofInt_exact {op : Operation} (ring : op ≠ .div) (x y : Int) :
    Int64.ofInt (op.exact (Int64.ofInt x).toInt (Int64.ofInt y).toInt) =
      .ofInt (op.exact x y) := by
  cases op with
  | add => simp only [exact, Int64.ofInt_add, Int64.ofInt_toInt]
  | sub => simp only [exact, Int64.ofInt_sub, Int64.ofInt_toInt]
  | mul => simp only [exact, Int64.ofInt_mul, Int64.ofInt_toInt]
  | div => exact absurd rfl ring

/-- An operator computes the word of the exact result, unless it would divide by
    zero. -/
theorem applyInteger_operator {op : Operation} {x y : Int64} (fine : op = .div → y ≠ 0) :
    op.operator.applyInteger x y = .integer (.ofInt (op.exact x.toInt y.toInt)) := by
  cases op with
  | add => simp only [operator, exact, BinaryOp.applyInteger, Int64.ofInt_add, Int64.ofInt_toInt]
  | sub => simp only [operator, exact, BinaryOp.applyInteger, Int64.ofInt_sub, Int64.ofInt_toInt]
  | mul => simp only [operator, exact, BinaryOp.applyInteger, Int64.ofInt_mul, Int64.ofInt_toInt]
  | div => simp only [operator, exact, BinaryOp.applyInteger, ofInt_tdiv, if_neg (fine rfl)]

end Operation

namespace Arithmetic

/-- Without divisions, the word of the exact value is what comes of wrapping on
    the way. -/
theorem wrapped_eq_ofInt_exact {a : Arithmetic} (whole : a.whole = true) :
    a.wrapped = .ofInt a.exact := by
  induction a with
  | literal n => exact (Int64.ofInt_toInt n).symm
  | negate a ih =>
    rw [wrapped, exact, Int64.ofInt_neg, Int64.ofInt_neg, Int64.ofInt_toInt, ih whole]
  | binary a op b iha ihb =>
    simp only [Arithmetic.whole, Bool.and_eq_true, bne_iff_ne] at whole
    obtain ⟨⟨wholeA, ring⟩, wholeB⟩ := whole
    rw [wrapped, exact, iha wholeA, ihb wholeB, Operation.ofInt_exact ring]

/-! ### Divisions by zero -/

/-- Nothing in the tree is divided by zero. -/
def Defined (a : Arithmetic) : Prop := ∀ d ∈ a.divisors, d.wrapped ≠ 0

instance (a : Arithmetic) : Decidable a.Defined :=
  inferInstanceAs (Decidable (∀ d ∈ a.divisors, d.wrapped ≠ 0))

theorem defined_binary {a b : Arithmetic} {op : Operation} :
    (binary a op b).Defined ↔ a.Defined ∧ b.Defined ∧ (op = .div → b.wrapped ≠ 0) := by
  by_cases divides : op = .div <;>
    simp [Defined, divisors, divides, or_imp, forall_and]

theorem defined_of_whole {a : Arithmetic} (whole : a.whole = true) : a.Defined := by
  induction a with
  | literal n => exact List.forall_mem_nil _
  | negate a ih => exact ih whole
  | binary a op b iha ihb =>
    simp only [Arithmetic.whole, Bool.and_eq_true, bne_iff_ne] at whole
    obtain ⟨⟨wholeA, ring⟩, wholeB⟩ := whole
    exact defined_binary.mpr ⟨iha wholeA, ihb wholeB, fun divides => absurd divides ring⟩

/-- Of the divisions by zero that there are, the first is reached. -/
theorem dividesByZero_iff {a : Arithmetic} : a.DividesByZero ↔ ¬ a.Defined := by
  constructor
  · rintro ⟨before, d, after, split, -, zero⟩ defined
    exact defined d (split ▸ List.mem_append_right _ List.mem_cons_self) zero
  · intro undefined
    obtain ⟨d, mem, zero⟩ : ∃ d ∈ a.divisors, d.wrapped = 0 := by
      simpa [Defined] using undefined
    obtain ⟨first, found⟩ := Option.isSome_iff_exists.mp
      (List.find?_isSome (p := fun d => d.wrapped == 0).mpr ⟨d, mem, by simpa using zero⟩)
    obtain ⟨zero, before, after, split, earlier⟩ := List.find?_eq_some_iff_append.mp found
    exact ⟨before, first, after, split, fun e he => by simpa using earlier e he, by simpa using zero⟩

/-! ### Evaluation -/

section Steps

variable [Digesting] (i : ScopeId) (s : Store)

open Machine

/-- A tree is evaluated to its word, above any stack and without a trace. -/
theorem steps_of_defined {a : Arithmetic} (defined : a.Defined) (k : List Frame) :
    Steps ⟨.eval a.expr i, k, s⟩ ⟨.give (.integer a.wrapped), k, s⟩ := by
  induction a generalizing k with
  | literal n => exact .single rfl
  | negate a ih =>
    have negated : Steps ⟨.give (.integer a.wrapped), .unary .negate :: k, s⟩
        ⟨.give (.integer (negate a).wrapped), k, s⟩ := by
      rw [wrapped, Int64.ofInt_neg, Int64.ofInt_toInt]
      exact .single rfl
    exact .head rfl ((ih defined _).trans negated)
  | binary a op b iha ihb =>
    obtain ⟨definedA, definedB, fine⟩ := defined_binary.mp defined
    have applied : Steps
        ⟨.give (.integer b.wrapped), .right op.operator (.integer a.wrapped) :: k, s⟩
        ⟨.give (.integer (binary a op b).wrapped), k, s⟩ := by
      rw [wrapped, ← Operation.applyInteger_operator fine]
      exact .single rfl
    exact .head rfl ((iha definedA _).trans (.head rfl ((ihb definedB _).trans applied)))

/-- A tree that divides by zero is evaluated to that error: from where it first
    does, the error passes by everything that waits. -/
theorem steps_of_undefined {a : Arithmetic} (undefined : ¬ a.Defined) (k : List Frame) :
    Steps ⟨.eval a.expr i, k, s⟩ ⟨.give Failure.divisionByZero.value, k, s⟩ := by
  induction a generalizing k with
  | literal n => exact absurd (List.forall_mem_nil _) undefined
  | negate a ih => exact .head rfl ((ih undefined _).tail rfl)
  | binary a op b iha ihb =>
    by_cases definedA : a.Defined
    · have second : Steps ⟨.eval (binary a op b).expr i, k, s⟩
          ⟨.eval b.expr i, .right op.operator (.integer a.wrapped) :: k, s⟩ :=
        .head rfl ((steps_of_defined i s definedA _).tail rfl)
      by_cases definedB : b.Defined
      · obtain ⟨rfl, zero⟩ : op = .div ∧ b.wrapped = 0 := by
          simpa [defined_binary, definedA, definedB] using undefined
        have divided : BinaryOp.div.applyInteger a.wrapped b.wrapped =
            Failure.divisionByZero.value := by
          rw [BinaryOp.applyInteger, if_pos zero]
        refine second.trans ((steps_of_defined i s definedB _).tail ?_)
        rw [← divided]
        rfl
      · exact second.trans ((ihb definedB _).tail rfl)
    · exact .head rfl ((iha definedA _).tail rfl)

end Steps

/-- **Arithmetic is exact up to the word.**  A tree of integer literals, prefix
    minus and operations is evaluated, in any scope of any store, to one value,
    and the store is as before.  Without divisions this is the word of the exact
    value, which is the same modulo 2 ^ 64.  With divisions it is the word that
    comes of wrapping on the way, or else just the error of a division by zero, if
    one is reached; and the least integer divided by minus one is the least
    integer. -/
theorem run_expr [Digesting] (a : Arithmetic) (i : ScopeId) (s : Store) :
    ∃ v, (∃ fuel, ∀ n ≥ fuel, Machine.run n ⟨.eval a.expr i, [], s⟩ = some (.value v, s)) ∧
      (a.whole = true → ∃ n : Int64, v = .integer n ∧ n.toInt = a.exact.bmod Int64.size) ∧
      (v = .integer a.wrapped ∨ v = .error "division by zero") ∧
      (v = .error "division by zero" ↔ a.DividesByZero) ∧
      (∀ b c, a = .binary b .div c → ¬ a.DividesByZero → b.wrapped = Int64.minValue →
        c.wrapped = -1 → v = .integer Int64.minValue) := by
  by_cases defined : a.Defined
  · refine ⟨.integer a.wrapped, ?_, ?_, .inl rfl, ?_, ?_⟩
    · exact Machine.run_of_steps_halted (steps_of_defined i s defined []) rfl
    · intro whole
      refine ⟨a.wrapped, rfl, ?_⟩
      calc a.wrapped.toInt = (Int64.ofInt a.exact).toInt := by rw [wrapped_eq_ofInt_exact whole]
        _ = a.exact.bmod Int64.size := Int64.toInt_ofInt
    · simp [dividesByZero_iff, defined]
    · rintro b c rfl - least minus
      rw [wrapped, least, minus]
      rfl
  · have reached : a.DividesByZero := dividesByZero_iff.mpr defined
    refine ⟨.error "division by zero", ?_, ?_, .inr rfl, ?_, ?_⟩
    · exact Machine.run_of_steps_halted (steps_of_undefined i s defined []) rfl
    · exact fun whole => absurd (defined_of_whole whole) defined
    · exact iff_of_true rfl reached
    · exact fun _ _ _ fine => absurd reached fine

/-- One more than the largest integer, divided by minus one. -/
theorem run_expr_least :
    let _ : Digesting := ⟨fun _ => 0⟩
    let a : Arithmetic :=
      .binary (.binary (.literal Int64.maxValue) .add (.literal 1)) .div (.negate (.literal 1))
    ¬ a.DividesByZero ∧ ∃ fuel, ∀ n ≥ fuel,
      Machine.run n ⟨.eval a.expr 0, [], .empty⟩ =
        some (.value (.integer Int64.minValue), .empty) := by
  intro _ a
  have fine : ¬ a.DividesByZero := fun reached => dividesByZero_iff.mp reached (by decide)
  obtain ⟨v, ends, -, -, -, least⟩ := a.run_expr 0 .empty
  obtain rfl : v = .integer Int64.minValue := least _ _ rfl fine (by decide) (by decide)
  exact ⟨fine, ends⟩

end Arithmetic

end Script
