/-
  Script/Proofs/Value/Equal.lean
  ==============================
  **Equal values.**

  Two values are equal when they are the same but for what functions are made of:
  a function is told from others by its number alone.  So equality is an
  equivalence, whatever the numbers stand for.  Where every number stands for one
  function, as in a run, equal values are one value, down to their texts.

  Main statements: `Value.beq_iff_resolve`, `Value.beq_table_ofList`,
  `Builtin.beq_call` and `Value.Of.beq_iff_eq`.
-/
import Script.Proofs.Table.Indexed
import Script.Proofs.Value.Mapped
import Script.Proofs.Value.Part
import Script.Value.Equality

namespace Script

/-! ### Functions by their numbers -/

/-- What a function value is made of. -/
structure Closure where
  params : List String
  body : Block
  scope : ScopeId
deriving Inhabited

/-- What each number of a function stands for. -/
abbrev Closures := Nat → Closure

mutual

/-- A value in which every function is the one that its number stands for. -/
def Value.resolve (c : Closures) : Value → Value
  | .integer n => .integer n
  | .boolean b => .boolean b
  | .string text => .string text
  | .null => .null
  | .returned payload => .returned (payload.resolve c)
  | .error message => .error message
  | .function n _ _ _ => .function n (c n).params (c n).body (c n).scope
  | .builtin b => .builtin b
  | .array items => .array (Value.resolveEach c items)
  | .table ⟨entries⟩ => .table ⟨Value.resolveEntries c entries⟩

def Value.resolveEach (c : Closures) : List Value → List Value
  | [] => []
  | v :: rest => v.resolve c :: Value.resolveEach c rest

def Value.resolveEntries (c : Closures) :
    List (Key × (Value × Value)) → List (Key × (Value × Value))
  | [] => []
  | (k, (key, value)) :: rest =>
    (k, (key.resolve c, value.resolve c)) :: Value.resolveEntries c rest

end

namespace Value

variable (c : Closures)

theorem resolveEach_eq (items : List Value) : resolveEach c items = items.map (resolve c) := by
  induction items with
  | nil => rfl
  | cons v rest ih => rw [resolveEach, ih, List.map_cons]

theorem resolveEntries_eq (entries : List (Key × (Value × Value))) :
    resolveEntries c entries = entries.map fun e => (e.1, (e.2.1.resolve c, e.2.2.resolve c)) := by
  induction entries with
  | nil => rfl
  | cons e rest ih => rw [resolveEntries, ih, List.map_cons]

theorem faithful_resolve : Faithful (resolve c) where
  bare {v} bare := by
    cases v with
    | function | returned | array | table => cases bare
    | _ => rfl
  function _ _ _ _ := ⟨_, _, _, _, rfl⟩
  returned _ := rfl
  array items := congrArg array (resolveEach_eq c items)
  table entries := congrArg (fun es => table ⟨es⟩) (resolveEntries_eq c entries.entries)

end Value

/-! ### Equality -/

mutual

/-- Values are equal when they are the same once every function in them is the one
    that its number stands for, whatever the numbers stand for. -/
theorem Value.beq_iff_resolve (c : Closures) : ∀ v w : Value,
    v.beq w = true ↔ v.resolve c = w.resolve c
  | .returned v, w => by
    cases w with
    | returned w => simp [Value.beq, Value.resolve, Value.beq_iff_resolve c v w]
    | _ => simp [Value.beq, Value.resolve]
  | .array vs, w => by
    cases w with
    | array ws => simp [Value.beq, Value.resolve, Value.beqList_iff_resolve c vs ws]
    | _ => simp [Value.beq, Value.resolve]
  | .table ⟨es⟩, w => by
    cases w with
    | table entries =>
      obtain ⟨fs⟩ := entries
      simp [Value.beq, Value.resolve, Value.beqEntries_iff_resolve c es fs]
    | _ => simp [Value.beq, Value.resolve]
  | .function n ps b i, w => by
    cases w with
    | function m qs d j =>
      simp only [Value.beq, Value.resolve, beq_iff_eq, Value.function.injEq]
      -- one number stands for one function
      constructor
      · rintro rfl
        exact ⟨rfl, rfl, rfl, rfl⟩
      · exact And.left
    | _ => simp [Value.beq, Value.resolve]
  | .integer _, w | .boolean _, w | .string _, w | .null, w | .error _, w | .builtin _, w => by
    cases w <;> simp [Value.beq, Value.resolve]

theorem Value.beqList_iff_resolve (c : Closures) : ∀ vs ws : List Value,
    Value.beqList vs ws = true ↔ Value.resolveEach c vs = Value.resolveEach c ws
  | [], [] => by simp [Value.beqList]
  | [], _ :: _ | _ :: _, [] => by simp [Value.beqList, Value.resolveEach]
  | v :: vs, w :: ws => by
    simp [Value.beqList, Value.resolveEach, Value.beq_iff_resolve c v w,
      Value.beqList_iff_resolve c vs ws]

theorem Value.beqEntries_iff_resolve (c : Closures) : ∀ es fs : List (Key × (Value × Value)),
    Value.beqEntries es fs = true ↔ Value.resolveEntries c es = Value.resolveEntries c fs
  | [], [] => by simp [Value.beqEntries]
  | [], _ :: _ | _ :: _, [] => by simp [Value.beqEntries, Value.resolveEntries]
  | (k, (v, x)) :: es, (l, (w, y)) :: fs => by
    simp [Value.beqEntries, Value.resolveEntries, Value.beq_iff_resolve c v w,
      Value.beq_iff_resolve c x y, Value.beqEntries_iff_resolve c es fs, and_assoc]

end

theorem Value.beq_self (v : Value) : v.beq v = true := (Value.beq_iff_resolve default v v).mpr rfl

instance : EquivBEq Value where
  rfl {v} := v.beq_self
  symm {v w} equal :=
    (Value.beq_iff_resolve default w v).mpr ((Value.beq_iff_resolve default v w).mp equal).symm
  trans {u v w} first second :=
    (Value.beq_iff_resolve default u w).mpr
      (((Value.beq_iff_resolve default u v).mp first).trans
        ((Value.beq_iff_resolve default v w).mp second))

example (ps : List String) (b : Block) (i : ScopeId) :
    (Value.function 0 ps b i == Value.function 1 ps b i) = false := rfl

/-- Equal values look the same from outside: they have one kind, one truth and, however
    texts are digested, one key. -/
theorem Value.seen_of_beq [Digesting] {v w : Value} (equal : (v == w) = true) :
    v.kind = w.kind ∧ v.truthy = w.truthy ∧ v.key? = w.key? := by
  have same : v.resolve default = w.resolve default := (Value.beq_iff_resolve default v w).mp equal
  have faithful := Value.faithful_resolve default
  refine ⟨?_, ?_, ?_⟩
  · rw [← faithful.kind v, same, faithful.kind]
  · rw [← faithful.truthy v, same, faithful.truthy]
  · rw [← faithful.key? v, same, faithful.key?]

/-! ### Tables -/

theorem Value.beqEntries_iff (es fs : List (Key × (Value × Value))) :
    Value.beqEntries es fs = true ↔ es.map Prod.fst = fs.map Prod.fst ∧
      List.Forall₂ (fun a b => (a == b) = true) (es.map Prod.snd) (fs.map Prod.snd) := by
  induction es generalizing fs with
  | nil => cases fs <;> simp [Value.beqEntries]
  | cons e es ih =>
    obtain ⟨k, v, x⟩ := e
    cases fs with
    | nil => simp [Value.beqEntries]
    | cons f fs =>
      obtain ⟨l, w, y⟩ := f
      have pair : ((v, x) == (w, y)) = (v.beq w && x.beq y) := rfl
      simp only [Value.beqEntries, List.map_cons, List.cons.injEq, List.forall₂_cons, pair,
        Bool.and_eq_true, beq_iff_eq, ih]
      tauto

/-- Tables made by insertions are compared as their two parts are: what is stored
    under each key, and the order of the keys. -/
theorem Value.beq_table_ofList [Hashable Key] (es fs : List (Key × (Value × Value))) :
    (Value.table (.ofList es) == Value.table (.ofList fs)) =
      (Indexed.ofList es == Indexed.ofList fs) := by
  rw [Bool.eq_iff_iff, (Indexed.shows_ofList es).beq_iff (Indexed.shows_ofList fs)]
  exact Value.beqEntries_iff (Table.ofList es).entries (Table.ofList fs).entries

/-! ### Replies -/

/-- Whether two replies are the same up to the equality of values. -/
def Reply.beq : Reply → Reply → Bool
  | .value v, .value w => v == w
  | .printed line v, .printed line' w => line == line' && v == w
  | .exit code, .exit code' => code == code'
  | _, _ => false

instance : BEq Reply := ⟨Reply.beq⟩

theorem Reply.beq_of_map_eq {c : Closures} {r s : Reply}
    (same : r.map (Value.resolve c) = s.map (Value.resolve c)) : (r == s) = true := by
  cases r with
  | value v =>
    cases s with
    | value w => exact (Value.beq_iff_resolve c v w).mpr (Reply.value.inj same)
    | _ => cases same
  | printed line v =>
    cases s with
    | printed line' w =>
      obtain ⟨rfl, values⟩ := Reply.printed.inj same
      exact (Bool.and_eq_true _ _).mpr ⟨BEq.refl line, (Value.beq_iff_resolve c v w).mpr values⟩
    | _ => cases same
  | exit code =>
    cases s with
    | exit code' => exact Reply.exit.inj same ▸ BEq.refl code
    | _ => cases same

/-- A built-in function replies the same to equal arguments, unless it prints them. -/
theorem Builtin.beq_call {b : Builtin} (quiet : b ≠ .print) {args args' : List Value}
    (equal : List.Forall₂ (fun v w => (v == w) = true) args args') :
    (b.call args == b.call args') = true := by
  have same : args.map (Value.resolve default) = args'.map (Value.resolve default) := by
    rw [← List.forall₂_eq_eq_eq, List.forall₂_map_left_iff, List.forall₂_map_right_iff]
    exact equal.imp fun v w => (Value.beq_iff_resolve default v w).mp
  have faithful := Value.faithful_resolve default
  have replies := fun args => faithful.call b args fun print => absurd print quiet
  exact Reply.beq_of_map_eq (by rw [← replies, ← replies, same])

/-! ### Values of one run -/

/-- Whether a value, by itself, is no function, or the one that its number stands
    for. -/
def Value.Known (c : Closures) : Value → Prop
  | .function n ps b i => c n = ⟨ps, b, i⟩
  | _ => True

/-- Every function that a value holds is the one that its number stands for. -/
def Value.Of (c : Closures) (v : Value) : Prop := v.Every (Known c)

namespace Value

variable {c : Closures}

theorem onFunctions_known : OnFunctions (Known c) := by
  intro v other
  cases v with
  | function => exact absurd rfl other
  | _ => trivial

theorem of_function {n : Nat} {ps : List String} {b : Block} {i : ScopeId} :
    (function n ps b i).Of c ↔ c n = ⟨ps, b, i⟩ :=
  every_atom rfl

theorem of_returned {v : Value} : (returned v).Of c ↔ v.Of c := onFunctions_known.returned

theorem of_array {items : List Value} : (array items).Of c ↔ ∀ v ∈ items, v.Of c :=
  onFunctions_known.lenient.array

theorem of_table {entries : Entries} :
    (table entries).Of c ↔ ∀ e ∈ entries.entries, e.2.1.Of c ∧ e.2.2.Of c :=
  onFunctions_known.lenient.table

end Value

mutual

theorem Value.resolve_of {c : Closures} : ∀ {v : Value}, v.Of c → v.resolve c = v
  | .integer _, _ | .boolean _, _ | .string _, _ | .null, _ | .error _, _ | .builtin _, _ => rfl
  | .function n ps b i, h => by
    rw [Value.resolve, Value.of_function.mp h]
  | .returned _, h => congrArg Value.returned (Value.resolve_of (Value.of_returned.mp h))
  | .array _, h => congrArg Value.array (Value.resolveEach_of (Value.of_array.mp h))
  | .table ⟨_⟩, h =>
    congrArg (fun es => Value.table ⟨es⟩) (Value.resolveEntries_of (Value.of_table.mp h))

theorem Value.resolveEach_of {c : Closures} : ∀ {items : List Value},
    (∀ v ∈ items, v.Of c) → Value.resolveEach c items = items
  | [], _ => rfl
  | v :: rest, h => by
    obtain ⟨first, others⟩ := List.forall_mem_cons.mp h
    rw [Value.resolveEach, Value.resolve_of first, Value.resolveEach_of others]

theorem Value.resolveEntries_of {c : Closures} : ∀ {entries : List (Key × (Value × Value))},
    (∀ e ∈ entries, e.2.1.Of c ∧ e.2.2.Of c) → Value.resolveEntries c entries = entries
  | [], _ => rfl
  | (k, (key, value)) :: rest, h => by
    obtain ⟨⟨stored, kept⟩, others⟩ := List.forall_mem_cons.mp h
    rw [Value.resolveEntries, Value.resolve_of stored, Value.resolve_of kept,
      Value.resolveEntries_of others]

end

/-- Where every number stands for one function, equal values are one value. -/
theorem Value.Of.beq_iff_eq {c : Closures} {v w : Value} (hv : v.Of c) (hw : w.Of c) :
    (v == w) = true ↔ v = w := by
  refine (Value.beq_iff_resolve c v w).trans ?_
  rw [Value.resolve_of hv, Value.resolve_of hw]

end Script
