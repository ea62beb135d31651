/-
  Script/Proofs/Value/Part.lean
  =============================
  **The values that a value holds.**

  A value may hold others: under a return, in an array, as a key or a stored
  value of a table.  A property is said of a value at every depth when all that
  it holds have it.  Operators, subscripts and built-in functions make no
  function values and no payloads of returns, so what they compute has every
  property at every depth that their operands have, unless it is an error; a
  property that only functions may lack, errors have as well.

  A confinement says which scopes a run may work in, which it may see, and what
  every value it meets has to satisfy.

  Main statements: `UnaryOp.errorOr_apply`, `BinaryOp.errorOr_apply`,
  `Value.errorOr_at` and `Builtin.errorOr_call`.
-/
import Script.Builtin.Call
import Script.Eval.Operator

namespace Script

namespace Value

/-- `v.Holds w`: the value `w` is `v`, or is held by it at some depth. -/
inductive Holds : Value → Value → Prop
  | self {v} : Holds v v
  | payload {v w} (h : Holds v w) : Holds (.returned v) w
  | item {items v w} (mem : v ∈ items) (h : Holds v w) : Holds (.array items) w
  | key {entries : Entries} {e w} (mem : e ∈ entries.entries) (h : Holds e.2.1 w) :
    Holds (.table entries) w
  | stored {entries : Entries} {e w} (mem : e ∈ entries.entries) (h : Holds e.2.2 w) :
    Holds (.table entries) w

/-- A property of a value at every depth. -/
def Every (p : Value → Prop) (v : Value) : Prop := ∀ w, v.Holds w → p w

variable {p : Value → Prop}

theorem every_returned {v : Value} : (returned v).Every p ↔ p (returned v) ∧ v.Every p := by
  constructor
  · intro h
    exact ⟨h _ .self, fun w hw => h w (.payload hw)⟩
  · rintro ⟨top, inner⟩ w hw
    cases hw with
    | self => exact top
    | payload hw => exact inner w hw

theorem every_array {items : List Value} :
    (array items).Every p ↔ p (array items) ∧ ∀ v ∈ items, v.Every p := by
  constructor
  · intro h
    exact ⟨h _ .self, fun v mem w hw => h w (.item mem hw)⟩
  · rintro ⟨top, inner⟩ w hw
    cases hw with
    | self => exact top
    | item mem hw => exact inner _ mem w hw

theorem every_table {entries : Entries} : (table entries).Every p ↔
    p (table entries) ∧ ∀ e ∈ entries.entries, e.2.1.Every p ∧ e.2.2.Every p := by
  constructor
  · intro h
    exact ⟨h _ .self, fun e mem => ⟨fun w hw => h w (.key mem hw), fun w hw => h w (.stored mem hw)⟩⟩
  · rintro ⟨top, inner⟩ w hw
    cases hw with
    | self => exact top
    | key mem hw => exact (inner _ mem).1 w hw
    | stored mem hw => exact (inner _ mem).2 w hw

/-- Whether a value holds no other. -/
def isAtom : Value → Bool
  | .returned _ | .array _ | .table _ => false
  | _ => true

theorem Every.mono {q : Value → Prop} (imp : ∀ v, p v → q v) {v : Value} (h : v.Every p) :
    v.Every q :=
  fun w held => imp w (h w held)

theorem every_atom {v : Value} (atom : v.isAtom = true) : v.Every p ↔ p v := by
  constructor
  · exact fun h => h v .self
  · intro h w hw
    cases hw with
    | self => exact h
    | payload | item | key | stored => cases atom

end Value

@[simp] theorem Failure.isError_value (f : Failure) : f.value.isError = true := rfl

/-! ### What is computed from values -/

namespace Value

variable {p : Value → Prop}

/-- A property that only functions, errors and the payloads of returns may lack. -/
def Lenient (p : Value → Prop) : Prop :=
  ∀ v : Value, v.isError = false → v.kind ≠ .function → v.kind ≠ .returned → p v

/-- An error on its way, or a value with a property at every depth. -/
def ErrorOr (p : Value → Prop) (v : Value) : Prop := v.isError = true ∨ v.Every p

theorem Every.errorOr {v : Value} (h : v.Every p) : v.ErrorOr p := .inr h

theorem errorOr_failure (f : Failure) : f.value.ErrorOr p := .inl rfl

namespace Lenient

variable (lenient : Lenient p)

include lenient

theorem atom {v : Value} (atom : v.isAtom = true) (sound : v.isError = false)
    (other : v.kind ≠ .function) : v.Every p := by
  refine (every_atom atom).mpr (lenient v sound other ?_)
  cases v with
  | returned payload => cases atom
  | _ => simp [kind]

theorem integer (n : Int64) : (integer n).Every p := lenient.atom rfl rfl (by simp [kind])

theorem boolean (b : Bool) : (boolean b).Every p := lenient.atom rfl rfl (by simp [kind])

theorem string (text : String) : (string text).Every p := lenient.atom rfl rfl (by simp [kind])

theorem null : null.Every p := lenient.atom rfl rfl (by simp [kind])

theorem builtin (b : Builtin) : (builtin b).Every p := lenient.atom rfl rfl (by simp [kind])

theorem array {items : List Value} : (array items).Every p ↔ ∀ v ∈ items, v.Every p :=
  every_array.trans (and_iff_right (lenient _ rfl (by simp [kind]) (by simp [kind])))

theorem table {entries : Entries} :
    (table entries).Every p ↔ ∀ e ∈ entries.entries, e.2.1.Every p ∧ e.2.2.Every p :=
  every_table.trans (and_iff_right (lenient _ rfl (by simp [kind]) (by simp [kind])))

theorem getD {v? : Option Value} (h : ∀ v, v? = some v → v.Every p) :
    (v?.getD .null).Every p := by
  cases v? with
  | none => exact lenient.null
  | some v => exact h v rfl

end Lenient

/-- A property that only functions may lack. -/
def OnFunctions (p : Value → Prop) : Prop := ∀ v : Value, v.kind ≠ .function → p v

namespace OnFunctions

variable (on : OnFunctions p)

include on

theorem lenient : Lenient p := fun v _ other _ => on v other

theorem returned {v : Value} : (returned v).Every p ↔ v.Every p :=
  every_returned.trans (and_iff_right (on _ (by simp [kind])))

theorem of_errorOr {v : Value} (h : v.ErrorOr p) : v.Every p := by
  rcases h with failed | h
  · cases v with
    | error message => exact (every_atom rfl).mpr (on _ (by simp [kind]))
    | _ => cases failed
  · exact h

theorem failure (f : Failure) : f.value.Every p := on.of_errorOr (.inl rfl)

theorem unreturned {v : Value} (h : v.Every p) : v.unreturned.Every p := by
  cases v with
  | returned payload => exact on.returned.mp h
  | _ => exact h

end OnFunctions

end Value

/-- What a built-in function replies with, if it does not end the run. -/
def Reply.value? : Reply → Option Value
  | .value v | .printed _ v => some v
  | .exit _ => none

section Computed

variable {p : Value → Prop} (lenient : Value.Lenient p)

include lenient

theorem UnaryOp.errorOr_apply (op : UnaryOp) (v : Value) : (op.apply v).ErrorOr p := by
  cases op with
  | not => exact (lenient.boolean _).errorOr
  | negate =>
    cases v with
    | integer n => exact (lenient.integer _).errorOr
    | _ => exact Value.errorOr_failure _

theorem BinaryOp.errorOr_applyInteger (op : BinaryOp) (a b : Int64) :
    (op.applyInteger a b).ErrorOr p := by
  cases op with
  | add | sub | mul => exact (lenient.integer _).errorOr
  | less | greater | equal | notEqual => exact (lenient.boolean _).errorOr
  | div =>
    simp only [BinaryOp.applyInteger]
    split
    · exact Value.errorOr_failure _
    · exact (lenient.integer _).errorOr

theorem BinaryOp.errorOr_apply (op : BinaryOp) (left right : Value) :
    (op.apply left right).ErrorOr p := by
  unfold BinaryOp.apply
  split
  · exact op.errorOr_applyInteger lenient _ _
  · exact (lenient.string _).errorOr
  · exact (lenient.boolean _).errorOr
  · exact (lenient.boolean _).errorOr
  · split
    · exact Value.errorOr_failure _
    · exact Value.errorOr_failure _

theorem Value.errorOr_at [Digesting] {collection : Value} (h : collection.Every p) (index : Value) :
    (collection.at index).ErrorOr p := by
  unfold Value.at
  split
  · rename_i items i
    split
    · refine (lenient.getD fun v hv => ?_).errorOr
      exact lenient.array.mp h v (List.mem_of_getElem? hv)
    · exact lenient.null.errorOr
  · rename_i entries
    split
    · refine (lenient.getD fun v hv => ?_).errorOr
      obtain ⟨e, he, rfl⟩ := Option.map_eq_some_iff.mp hv
      exact (lenient.table.mp h _ (Table.mem_of_find? he)).2
    · exact Value.errorOr_failure _
  · exact Value.errorOr_failure _

theorem Builtin.errorOr_compute (b : Builtin) {args : List Value} (h : ∀ v ∈ args, v.Every p) :
    (b.compute args).ErrorOr p := by
  unfold Builtin.compute
  split
  case h_1 | h_2 | h_3 => exact (lenient.integer _).errorOr
  case h_4 | h_5 | h_6 | h_7 | h_8 | h_9 => exact (lenient.string _).errorOr
  case h_10 items =>
    have inner := lenient.array.mp (h _ List.mem_cons_self)
    exact (lenient.getD fun v hv => inner v (List.mem_of_head? hv)).errorOr
  case h_11 items =>
    have inner := lenient.array.mp (h _ List.mem_cons_self)
    exact (lenient.getD fun v hv => inner v (List.mem_of_getLast? hv)).errorOr
  case h_12 => exact lenient.null.errorOr
  case h_13 first items =>
    have inner := lenient.array.mp (h _ List.mem_cons_self)
    exact (lenient.array.mpr fun v hv => inner v (List.mem_cons_of_mem _ hv)).errorOr
  case h_14 items v =>
    have inner := lenient.array.mp (h _ List.mem_cons_self)
    refine (lenient.array.mpr fun w hw => ?_).errorOr
    rcases List.mem_append.mp hw with hw | hw
    · exact inner w hw
    · rw [List.mem_singleton.mp hw]
      exact h v (by simp)
  case h_15 entries =>
    have inner := lenient.table.mp (h _ List.mem_cons_self)
    refine (lenient.array.mpr fun v hv => ?_).errorOr
    simp only [Table.values, List.map_map, List.mem_map] at hv
    obtain ⟨e, he, rfl⟩ := hv
    exact (inner e he).1
  case h_16 => exact Value.errorOr_failure _
  case h_17 => exact lenient.null.errorOr

theorem Builtin.errorOr_call (b : Builtin) {args : List Value} (h : ∀ v ∈ args, v.Every p)
    {v : Value} (reply : (b.call args).value? = some v) : v.ErrorOr p := by
  unfold Builtin.call at reply
  split at reply
  · unfold Builtin.callAny at reply
    split at reply
    case h_1 | h_2 => cases reply
    case h_3 | h_4 =>
      cases reply
      exact Value.errorOr_failure _
    case h_5 =>
      cases reply
      exact lenient.null.errorOr
    case h_6 =>
      cases reply
      exact b.errorOr_compute lenient h
  · split at reply
    · cases reply
      exact b.errorOr_compute lenient h
    · cases reply
      exact Value.errorOr_failure _

end Computed

/-! ### Confinements -/

/-- What a run is confined to: scopes that statements may run in, scopes that
    may be seen from there or from a function value, and values, each by
    itself, that may be met.  Only function values and errors are restricted. -/
structure Confinement where
  works : ScopeId → Prop
  sees : ScopeId → Prop
  allows : Value → Prop
  sees_of_works : ∀ {i}, works i → sees i
  allows_function : ∀ {n ps b i}, allows (.function n ps b i) ↔ sees i
  allows_plain : ∀ {v}, v.isError = false → v.kind ≠ .function → allows v

/-- What a confinement allows is restricted for functions and errors only. -/
theorem Confinement.lenient (C : Confinement) : Value.Lenient C.allows :=
  fun _ sound other _ => C.allows_plain sound other

namespace Value

variable {C : Confinement}

/-- All that a value holds is allowed. -/
def Within (C : Confinement) (v : Value) : Prop := v.Every C.allows

/-- What a computation may hand on: a value within the confinement, or an
    error on its way. -/
def Passes (C : Confinement) (v : Value) : Prop := v.isError = true ∨ v.Within C

theorem Within.passes {v : Value} (h : v.Within C) : v.Passes C := .inr h

theorem passes_failure (f : Failure) : f.value.Passes C := .inl rfl

theorem Passes.within {v : Value} (h : v.Passes C) (sound : v.isError = false) : v.Within C := by
  rcases h with failed | h
  · rw [sound] at failed
    cases failed
  · exact h

@[simp] theorem within_integer {n : Int64} : (integer n).Within C := C.lenient.integer n

@[simp] theorem within_boolean {b : Bool} : (boolean b).Within C := C.lenient.boolean b

@[simp] theorem within_string {text : String} : (string text).Within C := C.lenient.string text

@[simp] theorem within_null : null.Within C := C.lenient.null

@[simp] theorem within_builtin {b : Builtin} : (builtin b).Within C := C.lenient.builtin b

@[simp] theorem within_function {n : Nat} {ps : List String} {b : Block} {i : ScopeId} :
    (function n ps b i).Within C ↔ C.sees i :=
  (every_atom rfl).trans C.allows_function

@[simp] theorem within_returned {v : Value} : (returned v).Within C ↔ v.Within C :=
  every_returned.trans (and_iff_right (C.allows_plain rfl (by simp [kind])))

@[simp] theorem within_array {items : List Value} :
    (array items).Within C ↔ ∀ v ∈ items, v.Within C :=
  C.lenient.array

@[simp] theorem within_table {entries : Entries} : (table entries).Within C ↔
    ∀ e ∈ entries.entries, e.2.1.Within C ∧ e.2.2.Within C :=
  C.lenient.table

theorem Within.unreturned {v : Value} (h : v.Within C) : v.unreturned.Within C := by
  cases v with
  | returned payload => exact within_returned.mp h
  | _ => exact h

theorem Passes.unreturned {v : Value} (h : v.Passes C) : v.unreturned.Passes C := by
  rcases h with failed | h
  · cases v with
    | error message => exact .inl rfl
    | _ => cases failed
  · exact h.unreturned.passes

theorem passes_at [Digesting] {collection : Value} (h : collection.Within C) (index : Value) :
    (collection.at index).Passes C :=
  errorOr_at C.lenient h index

end Value

section Computed

variable {C : Confinement}

theorem UnaryOp.passes_apply (op : UnaryOp) (v : Value) : (op.apply v).Passes C :=
  op.errorOr_apply C.lenient v

theorem BinaryOp.passes_apply (op : BinaryOp) (left right : Value) :
    (op.apply left right).Passes C :=
  op.errorOr_apply C.lenient left right

theorem Builtin.passes_call (b : Builtin) {args : List Value} (h : ∀ v ∈ args, v.Within C)
    {v : Value} (reply : (b.call args).value? = some v) : v.Passes C :=
  b.errorOr_call C.lenient h reply

end Computed

end Script
