/-
  Script/Proofs/Value/Mapped.lean
  ===============================
  **Maps of values that change functions only.**

  A faithful map exchanges what function values are made of, at every depth, and
  leaves the rest of a value in place.  The built-in functions do not look into
  functions, unless they print them: what they make of mapped arguments is the
  mapped result.

  Main statements: `Value.Faithful.compute` and `Value.Faithful.call`.
-/
import Script.Builtin.Call

namespace Script

/-- A reply with another value. -/
def Reply.map (F : Value → Value) : Reply → Reply
  | .value v => .value (F v)
  | .printed line v => .printed line (F v)
  | .exit code => .exit code

namespace Builtin

/-- Two arguments or more are for adding an item to an array. -/
theorem compute_of_more {b : Builtin} {v : Value} {rest : List Value} (w : Value)
    (other : ¬ (b = .push ∧ v.kind = .array ∧ rest = [])) :
    b.compute (v :: w :: rest) = (Failure.unsupportedArgument b v.kind).value := by
  cases b with
  | push =>
    cases v with
    | array items =>
      cases rest with
      | nil => simp [Value.kind] at other
      | cons => rfl
    | _ => rfl
  | _ => simp [compute]

/-- A run ends with a number, or with none. -/
theorem call_exit_of_other {v : Value} (other : v.kind ≠ .integer) :
    call .exit [v] = .value (Failure.unsupportedArgument .exit v.kind).value := by
  cases v with
  | integer code => exact absurd rfl other
  | _ => rfl

end Builtin

namespace Value

/-- Whether a value is no function and holds no other value. -/
def isBare : Value → Bool
  | .function .. | .returned _ | .array _ | .table _ => false
  | _ => true

/-- What a map of values has to do to be faithful: a function becomes a function,
    what holds other values holds them mapped, and all else stays. -/
structure Faithful (F : Value → Value) : Prop where
  bare : ∀ {v : Value}, v.isBare = true → F v = v
  function : ∀ n ps b i, ∃ n' ps' b' i', F (.function n ps b i) = .function n' ps' b' i'
  returned : ∀ v, F (.returned v) = .returned (F v)
  array : ∀ items, F (.array items) = .array (items.map F)
  table : ∀ entries : Entries,
    F (.table entries) = .table ⟨entries.entries.map fun e => (e.1, (F e.2.1, F e.2.2))⟩

namespace Faithful

variable {F : Value → Value} (faithful : Faithful F)

include faithful

/-! #### What is seen from outside -/

/-- What does not look into a value does not see what was mapped. -/
theorem observed {α : Type} (see : Value → α)
    (function : ∀ n ps b i n' ps' b' i', see (.function n ps b i) = see (.function n' ps' b' i'))
    (returned : ∀ v w, see (.returned v) = see (.returned w))
    (array : ∀ items items', see (.array items) = see (.array items'))
    (table : ∀ entries entries', see (.table entries) = see (.table entries')) (v : Value) :
    see (F v) = see v := by
  cases v with
  | function n ps b i =>
    obtain ⟨n', ps', b', i', mapped⟩ := faithful.function n ps b i
    rw [mapped]
    exact function ..
  | returned v => exact faithful.returned v ▸ returned _ _
  | array items => exact faithful.array items ▸ array _ _
  | table entries => exact faithful.table entries ▸ table _ _
  | _ => rw [faithful.bare rfl]

theorem kind (v : Value) : (F v).kind = v.kind :=
  faithful.observed Value.kind (by intros; rfl) (by intros; rfl) (by intros; rfl) (by intros; rfl) v

theorem truthy (v : Value) : (F v).truthy = v.truthy :=
  faithful.observed Value.truthy (by intros; rfl) (by intros; rfl) (by intros; rfl)
    (by intros; rfl) v

theorem key? [Digesting] (v : Value) : (F v).key? = v.key? :=
  faithful.observed Value.key? (by intros; rfl) (by intros; rfl) (by intros; rfl) (by intros; rfl) v

theorem failure (f : Failure) : F f.value = f.value := faithful.bare rfl

theorem getD (v? : Option Value) : (v?.map F).getD .null = F (v?.getD .null) := by
  cases v? with
  | none => exact (faithful.bare rfl).symm
  | some v => rfl

/-! #### Built-in functions -/

theorem compute_array (b : Builtin) (items : List Value) :
    b.compute [F (.array items)] = F (b.compute [.array items]) := by
  rw [faithful.array]
  cases b with
  | first => simp only [Builtin.compute, List.head?_map, faithful.getD]
  | last => simp only [Builtin.compute, List.getLast?_map, faithful.getD]
  | rest =>
    cases items with
    | nil => exact (faithful.bare rfl).symm
    | cons v items => exact (faithful.array items).symm
  | len =>
    simp only [Builtin.compute, List.length_map]
    exact (faithful.bare rfl).symm
  | type | print | exit | push | keys => exact (faithful.bare rfl).symm

theorem compute_table (b : Builtin) (entries : Entries) :
    b.compute [F (.table entries)] = F (b.compute [.table entries]) := by
  rw [faithful.table]
  cases b with
  | keys => simp [Builtin.compute, Table.values, faithful.array]
  | len =>
    simp only [Builtin.compute, Table.size, List.length_map]
    exact (faithful.bare rfl).symm
  | type | print | exit | first | last | rest | push => exact (faithful.bare rfl).symm

theorem compute_single (b : Builtin) (v : Value) : b.compute [F v] = F (b.compute [v]) := by
  cases v with
  | array items => exact faithful.compute_array b items
  | table entries => exact faithful.compute_table b entries
  | function n ps body i =>
    obtain ⟨n', ps', body', i', mapped⟩ := faithful.function n ps body i
    rw [mapped]
    cases b <;> exact (faithful.bare rfl).symm
  | returned v =>
    rw [faithful.returned]
    cases b <;> exact (faithful.failure _).symm
  | _ =>
    rw [faithful.bare rfl]
    cases b <;> exact (faithful.bare rfl).symm

/-- What is computed from mapped values is the mapped result. -/
theorem compute (b : Builtin) (args : List Value) :
    b.compute (args.map F) = F (b.compute args) := by
  rcases args with _ | ⟨v, _ | ⟨w, rest⟩⟩
  · cases b <;> exact (faithful.bare rfl).symm
  · exact faithful.compute_single b v
  · by_cases pushed : b = .push ∧ v.kind = .array ∧ rest = []
    · obtain ⟨rfl, array, rfl⟩ := pushed
      cases v with
      | array items => simp [Builtin.compute, faithful.array]
      | _ => cases array
    · have mapped : ¬ (b = .push ∧ (F v).kind = .array ∧ rest.map F = []) := by
        rwa [faithful.kind, List.map_eq_nil_iff]
      rw [List.map_cons, List.map_cons, Builtin.compute_of_more (F w) mapped,
        Builtin.compute_of_more w pushed, faithful.kind, faithful.failure]

/-- What a built-in function replies to mapped values is the mapped reply, if it
    does not print a value that has another text then. -/
theorem call (b : Builtin) (args : List Value)
    (text : b = .print → ∀ v ∈ args, (F v).render = v.render) :
    b.call (args.map F) = (b.call args).map F := by
  have fixed : ∀ n, b.arity? = some n → b.call (args.map F) = (b.call args).map F := by
    intro n arity
    simp only [Builtin.call, arity, List.length_map, faithful.compute b]
    split
    · rfl
    · exact congrArg Reply.value (faithful.failure _).symm
  cases b with
  | print =>
    have line : Builtin.printedLine (args.map F) = Builtin.printedLine args := by
      simp only [Builtin.printedLine, List.map_map]
      exact congrArg String.join (List.map_congr_left fun v hv => by simp [text rfl v hv])
    simp only [Builtin.call, Builtin.arity?, Builtin.callAny, line, Reply.map]
    rw [faithful.bare rfl]
  | exit =>
    rcases args with _ | ⟨v, _ | ⟨w, rest⟩⟩
    · rfl
    · by_cases integer : v.kind = .integer
      · cases v with
        | integer code =>
          rw [List.map_cons, List.map_nil, faithful.bare rfl]
          rfl
        | _ => cases integer
      · have mapped : (F v).kind ≠ .integer := by rwa [faithful.kind]
        rw [List.map_cons, List.map_nil, Builtin.call_exit_of_other mapped,
          Builtin.call_exit_of_other integer, Reply.map, faithful.kind, faithful.failure]
    · simp [Builtin.call, Builtin.arity?, Builtin.callAny, Reply.map, faithful.failure]
  | len | type | first | last | rest | keys => exact fixed 1 rfl
  | push => exact fixed 2 rfl

end Faithful

end Value

end Script
