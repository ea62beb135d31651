/-
  Script/Proofs/Value/Transported.lean
  ====================================
  **Values and scopes carried to another setting.**

  A program may run where its names are other names, where function values have
  been made before, and where its scopes lie inside a scope that sees no name.
  The values it meets there are the same up to the names, the numbers and the
  scopes of function values.  Operators, subscripts, built-in functions and the
  scopes themselves do not tell the difference: each of them commutes with the
  transport.

  Main statements: `UnaryOp.apply_transport`, `BinaryOp.apply_transport`,
  `Value.at_transport`, `Builtin.call_transport`, `Heap.lookup?_transport` and
  `Value.render_transport`.
-/
import Mathlib.Logic.Function.Defs
import Script.Eval.Machine
import Script.Proofs.Expr.Renamed
import Script.Proofs.Heap.Growth
import Script.Proofs.Value.Mapped

namespace Script

/-! ### Tables -/

namespace Table

variable {κ α β : Type}

/-- A table with other keys and other values in the same places. -/
def transport (f : κ → κ) (g : α → β) (t : Table κ α) : Table κ β :=
  ⟨t.entries.map fun e => (f e.1, g e.2)⟩

variable [DecidableEq κ] {f : κ → κ} (injective : f.Injective) (g : α → β)

include injective

theorem put_transport (k : κ) (a : α) (es : List (κ × α)) :
    put (f k) (g a) (es.map fun e => (f e.1, g e.2)) =
      (put k a es).map fun e => (f e.1, g e.2) := by
  induction es with
  | nil => rfl
  | cons e rest ih =>
    simp only [put, List.map_cons, injective.eq_iff]
    split
    · rfl
    · rw [ih, List.map_cons]

theorem insert_transport (t : Table κ α) (k : κ) (a : α) :
    (t.transport f g).insert (f k) (g a) = (t.insert k a).transport f g :=
  congrArg Table.mk (put_transport injective g k a t.entries)

theorem find?_transport (k : κ) (es : List (κ × α)) :
    find? (f k) (es.map fun e => (f e.1, g e.2)) = (find? k es).map g := by
  induction es with
  | nil => rfl
  | cons e rest ih =>
    simp only [find?, List.map_cons, injective.eq_iff]
    split
    · rfl
    · exact ih

theorem get?_transport (t : Table κ α) (k : κ) :
    (t.transport f g).get? (f k) = (t.get? k).map g :=
  find?_transport injective g k t.entries

theorem contains_transport (t : Table κ α) (k : κ) :
    (t.transport f g).contains (f k) = t.contains k := by
  rw [contains, get?_transport injective, Option.isSome_map, contains]

end Table

/-! ### Transports -/

/-- Another setting for a run: the names that its names become there, the scopes
    that were there before, the one around its roots, if there is one, from which
    no name is seen, and how many function values have been made. -/
structure Transport where
  name : String → String
  below : Heap
  outer? : Option ScopeId
  functions : Nat
  injective : name.Injective
  builtin : ∀ b : Builtin, name b.name = b.name
  bare : ∀ i name, outer? = some i → below.owner? i name = none
  older : ∀ i, outer? = some i → i < below.size

namespace Transport

variable (T : Transport)

/-- The scopes of a run come behind those that were there before. -/
def scope (i : ScopeId) : ScopeId := T.below.size + i

/-- The built-in functions keep their names, and no other name becomes theirs. -/
theorem ofName?_name (name : String) : Builtin.ofName? (T.name name) = Builtin.ofName? name := by
  have same (b : Builtin) : b.name == T.name name ↔ b.name == name := by
    rw [beq_iff_eq, beq_iff_eq, ← T.builtin b, T.injective.eq_iff, T.builtin]
  simp only [Builtin.ofName?, Bool.eq_iff_iff.mpr (same _)]

end Transport

/-! ### Values -/

mutual

/-- A value in another setting: its functions have other names, numbers and
    scopes there. -/
def Value.transport (T : Transport) : Value → Value
  | .integer n => .integer n
  | .boolean b => .boolean b
  | .string text => .string text
  | .null => .null
  | .returned payload => .returned (payload.transport T)
  | .error message => .error message
  | .function n ps b i =>
    .function (T.functions + n) (ps.map T.name) (Block.rename T.name b) (T.scope i)
  | .builtin b => .builtin b
  | .array items => .array (Value.transportEach T items)
  | .table ⟨entries⟩ => .table ⟨Value.transportEntries T entries⟩

def Value.transportEach (T : Transport) : List Value → List Value
  | [] => []
  | v :: rest => v.transport T :: Value.transportEach T rest

def Value.transportEntries (T : Transport) :
    List (Key × (Value × Value)) → List (Key × (Value × Value))
  | [] => []
  | (k, (key, value)) :: rest =>
    (k, (key.transport T, value.transport T)) :: Value.transportEntries T rest

end

/-- The entries of a table value in another setting. -/
def Entries.transport (T : Transport) (entries : Entries) : Entries :=
  Table.transport id (fun e => (e.1.transport T, e.2.transport T)) entries

namespace Value

variable (T : Transport)

theorem transportEach_eq (items : List Value) :
    transportEach T items = items.map (Value.transport T) := by
  induction items with
  | nil => rfl
  | cons v rest ih => rw [transportEach, ih, List.map_cons]

theorem transportEntries_eq (entries : List (Key × (Value × Value))) :
    transportEntries T entries =
      entries.map fun e => (e.1, (e.2.1.transport T, e.2.2.transport T)) := by
  induction entries with
  | nil => rfl
  | cons e rest ih => rw [transportEntries, ih, List.map_cons]

@[simp] theorem transport_integer (n : Int64) : (integer n).transport T = integer n := rfl

@[simp] theorem transport_boolean (b : Bool) : (boolean b).transport T = boolean b := rfl

@[simp] theorem transport_string (text : String) : (string text).transport T = string text := rfl

@[simp] theorem transport_null : null.transport T = null := rfl

@[simp] theorem transport_returned (v : Value) :
    (returned v).transport T = returned (v.transport T) := rfl

@[simp] theorem transport_error (message : String) : (error message).transport T = error message :=
  rfl

@[simp] theorem transport_function (n : Nat) (ps : List String) (b : Block) (i : ScopeId) :
    (function n ps b i).transport T =
      function (T.functions + n) (ps.map T.name) (Block.rename T.name b) (T.scope i) := rfl

@[simp] theorem transport_builtin (b : Builtin) : (builtin b).transport T = builtin b := rfl

@[simp] theorem transport_array (items : List Value) :
    (array items).transport T = array (items.map (Value.transport T)) := by
  rw [transport, transportEach_eq]

@[simp] theorem transport_table (entries : Entries) :
    (table entries).transport T = table (Entries.transport T entries) := by
  obtain ⟨entries⟩ := entries
  rw [transport, transportEntries_eq]
  rfl

/-- All that changes is what function values are made of. -/
theorem faithful_transport : Faithful (Value.transport T) where
  bare {v} bare := by
    cases v with
    | function | returned | array | table => cases bare
    | _ => rfl
  function _ _ _ _ := ⟨_, _, _, _, rfl⟩
  returned _ := rfl
  array := transport_array T
  table := transport_table T

/-! #### What is seen of a value -/

@[simp] theorem kind_transport (v : Value) : (v.transport T).kind = v.kind := by
  cases v <;> simp [kind]

@[simp] theorem truthy_transport (v : Value) : (v.transport T).truthy = v.truthy := by
  cases v <;> simp [truthy]

@[simp] theorem isError_transport (v : Value) : (v.transport T).isError = v.isError := by
  cases v <;> simp [isError]

@[simp] theorem endsBlock_transport (v : Value) : (v.transport T).endsBlock = v.endsBlock := by
  cases v <;> simp [endsBlock]

@[simp] theorem key?_transport [Digesting] (v : Value) : (v.transport T).key? = v.key? := by
  cases v <;> simp [key?]

theorem unreturned_transport (v : Value) :
    (v.transport T).unreturned = v.unreturned.transport T := by
  cases v <;> simp [unreturned]

@[simp] theorem transport_failure (f : Failure) : f.value.transport T = f.value := rfl

end Value

/-- What a value holds, it holds in another setting. -/
theorem Value.Holds.transport (T : Transport) {v w : Value} (held : v.Holds w) :
    (v.transport T).Holds (w.transport T) := by
  induction held with
  | self => exact .self
  | payload _ ih => exact .payload ih
  | item mem _ ih =>
    rw [Value.transport_array]
    exact .item (List.mem_map_of_mem mem) ih
  | key mem _ ih =>
    rw [Value.transport_table]
    exact .key (List.mem_map_of_mem mem) ih
  | stored mem _ ih =>
    rw [Value.transport_table]
    exact .stored (List.mem_map_of_mem mem) ih

/-! ### What is computed from values -/

section Computed

variable (T : Transport)

theorem UnaryOp.apply_transport (op : UnaryOp) (v : Value) :
    op.apply (v.transport T) = (op.apply v).transport T := by
  cases op with
  | not => simp [UnaryOp.apply]
  | negate => cases v <;> simp [UnaryOp.apply, Value.kind]

theorem BinaryOp.applyInteger_transport (op : BinaryOp) (a b : Int64) :
    (op.applyInteger a b).transport T = op.applyInteger a b := by
  cases op with
  | div =>
    simp only [BinaryOp.applyInteger]
    split <;> rfl
  | _ => rfl

omit T in
theorem BinaryOp.apply_of_other {op : BinaryOp} {left right : Value} (integer : left.kind ≠ .integer)
    (string : left.kind ≠ .string) (boolean : left.kind ≠ .boolean) :
    op.apply left right = if left.kind = right.kind
      then (Failure.binaryOperator left.kind op right.kind).value
      else (Failure.mismatch left.kind op right.kind).value := by
  cases left with
  | integer => exact absurd rfl integer
  | string => exact absurd rfl string
  | boolean => exact absurd rfl boolean
  | _ => rfl

theorem BinaryOp.apply_transport (op : BinaryOp) (left right : Value) :
    op.apply (left.transport T) (right.transport T) = (op.apply left right).transport T := by
  cases left with
  | integer a =>
    cases right with
    | integer b => simp [BinaryOp.apply, BinaryOp.applyInteger_transport]
    | _ => simp [BinaryOp.apply, Value.kind]
  | string a =>
    cases right with
    | string b => cases op <;> simp [BinaryOp.apply, Value.kind]
    | _ => simp [BinaryOp.apply, Value.kind]
  | boolean a =>
    cases right with
    | boolean b => cases op <;> simp [BinaryOp.apply, Value.kind]
    | _ => simp [BinaryOp.apply, Value.kind]
  | _ =>
    rw [BinaryOp.apply_of_other (by simp [Value.kind]) (by simp [Value.kind]) (by simp [Value.kind]),
      BinaryOp.apply_of_other (by simp [Value.kind]) (by simp [Value.kind]) (by simp [Value.kind])]
    simp only [Value.kind_transport, apply_ite (Value.transport T), Value.transport_failure]

theorem Entries.get?_transport (entries : Entries) (k : Key) :
    (Entries.transport T entries).get? k =
      (entries.get? k).map fun e => (e.1.transport T, e.2.transport T) :=
  Table.get?_transport Function.injective_id _ entries k

theorem Entries.insert_transport (entries : Entries) (k : Key) (key value : Value) :
    Entries.transport T (entries.insert k (key, value)) =
      (Entries.transport T entries).insert k (key.transport T, value.transport T) :=
  (Table.insert_transport Function.injective_id _ entries k (key, value)).symm

theorem Value.at_transport [Digesting] (collection index : Value) :
    (collection.transport T).at (index.transport T) = (collection.at index).transport T := by
  cases collection with
  | array items =>
    cases index with
    | integer i =>
      rw [Value.transport_array, Value.transport]
      simp only [Value.at]
      split
      · rw [List.getElem?_map, (Value.faithful_transport T).getD]
      · rw [Value.transport]
    | _ => simp [Value.at, Value.kind]
  | table entries =>
    simp only [Value.transport_table, Value.at, Value.key?_transport, Value.kind_transport]
    split
    · rw [Entries.get?_transport, Option.map_map, ← (Value.faithful_transport T).getD, Option.map_map]
      rfl
    · exact (Value.transport_failure T _).symm
  | _ => simp [Value.at, Value.kind]

/-- A reply in another setting. -/
def Reply.transport : Reply → Reply
  | .value v => .value (v.transport T)
  | .printed line v => .printed line (v.transport T)
  | .exit code => .exit code

/-- A built-in function does the same in another setting, if it does not print a
    value that has another text there. -/
theorem Builtin.call_transport (b : Builtin) (args : List Value)
    (text : b = .print → ∀ v ∈ args, (v.transport T).render = v.render) :
    b.call (args.map (Value.transport T)) = (b.call args).transport T := by
  rw [(Value.faithful_transport T).call b args text]
  cases b.call args <;> rfl

end Computed

/-! ### Scopes -/

/-- A scope in another setting. -/
def Scope.transport (T : Transport) (s : Scope) : Scope where
  bindings := s.bindings.transport T.name (Value.transport T)
  parent? := match s.parent? with
    | none => T.outer?
    | some i => some (T.scope i)

/-- Scopes in another setting, behind those that were there before. -/
def Heap.transport (T : Transport) (h : Heap) : Heap :=
  ⟨T.below.scopes ++ h.scopes.map (Scope.transport T)⟩

namespace Heap

variable (T : Transport) (h : Heap)

@[simp] theorem size_transport : (h.transport T).size = T.scope h.size := by
  simp [transport, size, Transport.scope]

theorem scopes_transport (i : ScopeId) :
    (h.transport T).scopes[T.scope i]? = h.scopes[i]?.map (Scope.transport T) := by
  simp [transport, Transport.scope, size, Array.getElem?_append_right]

theorem scopes_transport_below {i : ScopeId} (old : i < T.below.size) :
    (h.transport T).scopes[i]? = T.below.scopes[i]? :=
  Array.getElem?_append_left old

/-- The scopes that were there before see what they saw. -/
theorem owner?_transport_below {i : ScopeId} (old : i < T.below.size) (name : String) :
    (h.transport T).owner? i name = T.below.owner? i name := by
  induction i using Nat.strongRecOn with
  | ind i ih =>
    rw [owner?, owner?, h.scopes_transport_below T old]
    cases T.below.scopes[i]? with
    | none => rfl
    | some s =>
      simp only
      split
      · rfl
      cases s.parent? with
      | none => rfl
      | some parent =>
        simp only
        split
        · rename_i older
          exact ih parent older (Nat.lt_trans older old)
        · rfl

theorem owner?_transport (i : ScopeId) (name : String) :
    (h.transport T).owner? (T.scope i) (T.name name) = (h.owner? i name).map T.scope := by
  induction i using Nat.strongRecOn with
  | ind i ih =>
    rw [owner?, owner?, h.scopes_transport T]
    cases h.scopes[i]? with
    | none => rfl
    | some s =>
      simp only [Option.map_some, Scope.transport, Table.contains_transport T.injective]
      split
      · rfl
      cases s.parent? with
      | none =>
        cases around : T.outer? with
        | none => rfl
        | some j =>
          have old := T.older j around
          simp only [h.owner?_transport_below T old, T.bare j _ around, ite_self, Option.map_none]
      | some j =>
        have order : T.scope j < T.scope i ↔ j < i := Nat.add_lt_add_iff_left
        simp only [order]
        split
        · rename_i older
          exact ih j older
        · rfl

theorem binding?_transport (i : ScopeId) (name : String) :
    (h.transport T).binding? (T.scope i) (T.name name) =
      (h.binding? i name).map (Value.transport T) := by
  rw [binding?, binding?, h.scopes_transport T]
  cases h.scopes[i]? with
  | none => rfl
  | some s => exact Table.get?_transport T.injective _ s.bindings name

theorem lookup?_transport (i : ScopeId) (name : String) :
    (h.transport T).lookup? (T.scope i) (T.name name) =
      (h.lookup? i name).map (Value.transport T) := by
  rw [lookup?, lookup?, owner?_transport]
  cases h.owner? i name with
  | none => rfl
  | some owner => exact h.binding?_transport T owner name

theorem alloc_transport (i : ScopeId) (bindings : Table String Value) :
    (h.alloc (some i) bindings).transport T =
      (h.transport T).alloc (some (T.scope i)) (bindings.transport T.name (Value.transport T)) := by
  simp [transport, alloc, Scope.transport]

theorem define_transport (i : ScopeId) (name : String) (v : Value) :
    (h.define i name v).transport T =
      (h.transport T).define (T.scope i) (T.name name) (v.transport T) := by
  have apart {j : ScopeId} (old : j < T.below.size) : T.scope i ≠ j := by
    rintro rfl
    exact absurd old (Nat.not_lt.mpr (Nat.le_add_right _ _))
  refine congrArg Heap.mk (Array.ext_getElem? fun j => ?_)
  by_cases old : j < T.below.size
  · refine ((h.define i name v).scopes_transport_below T old).trans ?_
    exact ((scopes_define_of_ne _ _ _ _ (apart old)).trans (h.scopes_transport_below T old)).symm
  · obtain ⟨k, rfl⟩ : ∃ k, j = T.scope k :=
      ⟨j - T.below.size, (Nat.add_sub_cancel' (Nat.le_of_not_lt old)).symm⟩
    refine ((h.define i name v).scopes_transport T k).trans ?_
    by_cases same : i = k
    · subst same
      refine Eq.trans ?_ (scopes_define_self _ _ _ _).symm
      rw [scopes_define_self, scopes_transport, Option.map_map, Option.map_map]
      refine congrArg (h.scopes[i]?.map ·) (funext fun s => ?_)
      simp [Scope.transport, Table.insert_transport T.injective]
    · have other : T.scope i ≠ T.scope k := fun equal => same (Nat.add_left_cancel equal)
      refine Eq.trans ?_ (scopes_define_of_ne _ _ _ _ other).symm
      rw [scopes_define_of_ne _ _ _ _ same, scopes_transport]

end Heap

/-! ### Texts -/

mutual

/-- A value has the same text in another setting if the functions that it holds
    have. -/
theorem Value.render_transport {T : Transport} : ∀ v : Value,
    (v.Every fun w => w.kind = .function → (w.transport T).render = w.render) →
      (v.transport T).render = v.render
  | .integer _, _ | .boolean _, _ | .string _, _ | .null, _ | .error _, _ | .builtin _, _ => rfl
  | .function _ _ _ _, h => h _ .self rfl
  | .returned payload, h => Value.render_transport payload fun w held => h w (.payload held)
  | .array items, h => by
    rw [Value.transport, Value.render, Value.render,
      Value.renderEach_transport items fun v mem w held => h w (.item mem held)]
  | .table ⟨entries⟩, h => by
    rw [Value.transport, Value.render, Value.render, Value.renderEntries_transport entries
      fun e mem => ⟨fun w held => h w (.key mem held), fun w held => h w (.stored mem held)⟩]

theorem Value.renderEach_transport {T : Transport} : ∀ items : List Value,
    (∀ v ∈ items, v.Every fun w => w.kind = .function → (w.transport T).render = w.render) →
      Value.renderEach (Value.transportEach T items) = Value.renderEach items
  | [], _ => rfl
  | v :: rest, h => by
    obtain ⟨first, others⟩ := List.forall_mem_cons.mp h
    rw [Value.transportEach, Value.renderEach, Value.render_transport v first,
      Value.renderEach_transport rest others, Value.renderEach]

theorem Value.renderEntries_transport {T : Transport} :
    ∀ entries : List (Key × (Value × Value)),
    (∀ e ∈ entries,
      (e.2.1.Every fun w => w.kind = .function → (w.transport T).render = w.render) ∧
      e.2.2.Every fun w => w.kind = .function → (w.transport T).render = w.render) →
      Value.renderEntries (Value.transportEntries T entries) = Value.renderEntries entries
  | [], _ => rfl
  | (k, (key, value)) :: rest, h => by
    obtain ⟨⟨stored, kept⟩, others⟩ := List.forall_mem_cons.mp h
    rw [Value.transportEntries, Value.renderEntries, Value.render_transport key stored,
      Value.render_transport value kept, Value.renderEntries_transport rest others,
      Value.renderEntries]

end

/-- Where names stay, every text stays. -/
theorem Value.render_transport_of_id {T : Transport} (same : T.name = id) (v : Value) :
    (v.transport T).render = v.render := by
  refine v.render_transport fun w _ function => ?_
  cases w with
  | function n ps b i => simp [Value.render, same, Block.rename_id]
  | _ => cases function

end Script
