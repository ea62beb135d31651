/-
  Script/Table.lean
  =================
  **Tables that remember the order in which their keys came.**

  A table is a list of entries.  Inserting under a key it has replaces what was
  stored there and keeps the key's place; a new key goes last.

  Main statements: looking up after an insertion (`Table.get?_insert`), and the
  keys after an insertion (`Table.keys_insert`).
-/
namespace Script

/-- Entries in the order in which their keys were first inserted. -/
structure Table (κ α : Type) where
  entries : List (κ × α)
deriving Repr, Inhabited

namespace Table

variable {κ α : Type}

def empty : Table κ α := ⟨[]⟩

def keys (t : Table κ α) : List κ := t.entries.map Prod.fst

/-- The values, in the order of their keys. -/
def values (t : Table κ α) : List α := t.entries.map Prod.snd

def size (t : Table κ α) : Nat := t.entries.length

def isEmpty (t : Table κ α) : Bool := t.entries.isEmpty

theorem forall_mem_empty {p : κ × α → Prop} : ∀ e ∈ (empty : Table κ α).entries, p e := by
  simp [empty]

variable [DecidableEq κ]

/-- Put a value under a key of a list of entries. -/
def put (k : κ) (a : α) : List (κ × α) → List (κ × α)
  | [] => [(k, a)]
  | (k', a') :: rest => if k' = k then (k, a) :: rest else (k', a') :: put k a rest

/-- Insert a value, in place of the one already stored under the key. -/
def insert (t : Table κ α) (k : κ) (a : α) : Table κ α := ⟨put k a t.entries⟩

/-- The value stored under a key in a list of entries. -/
def find? (k : κ) : List (κ × α) → Option α
  | [] => none
  | (k', a) :: rest => if k' = k then some a else find? k rest

def get? (t : Table κ α) (k : κ) : Option α := find? k t.entries

def contains (t : Table κ α) (k : κ) : Bool := (t.get? k).isSome

/-- The table made by inserting entries one after the other. -/
def ofList (entries : List (κ × α)) : Table κ α :=
  entries.foldl (fun t e => t.insert e.1 e.2) empty

/-! ### Laws -/

@[simp] theorem get?_empty (k : κ) : (empty : Table κ α).get? k = none := rfl

theorem find?_put (k k' : κ) (a : α) (es : List (κ × α)) :
    find? k' (put k a es) = if k = k' then some a else find? k' es := by
  induction es with
  | nil => simp [put, find?]
  | cons e rest ih =>
    obtain ⟨k₀, a₀⟩ := e
    by_cases h : k₀ = k
    · subst h
      by_cases h' : k₀ = k' <;> simp [put, find?, h']
    · by_cases h' : k₀ = k'
      · subst h'
        simp [put, find?, h, Ne.symm h]
      · simp [put, find?, h, h', ih]

/-- Only the key inserted under is affected. -/
theorem get?_insert (t : Table κ α) (k k' : κ) (a : α) :
    (t.insert k a).get? k' = if k = k' then some a else t.get? k' :=
  find?_put k k' a t.entries

theorem map_fst_put (k : κ) (a : α) (es : List (κ × α)) :
    (put k a es).map Prod.fst =
      if k ∈ es.map Prod.fst then es.map Prod.fst else es.map Prod.fst ++ [k] := by
  induction es with
  | nil => simp [put]
  | cons e rest ih =>
    obtain ⟨k₀, a₀⟩ := e
    by_cases h : k₀ = k
    · simp [put, h]
    · have h' : k ≠ k₀ := Ne.symm h
      simp only [put, h, if_false, List.map_cons, ih, List.mem_cons, h', false_or]
      split <;> simp

/-- A key keeps its place; a new one goes last. -/
theorem keys_insert (t : Table κ α) (k : κ) (a : α) :
    (t.insert k a).keys = if k ∈ t.keys then t.keys else t.keys ++ [k] :=
  map_fst_put k a t.entries

theorem find?_isSome (k : κ) (es : List (κ × α)) :
    (find? k es).isSome = true ↔ k ∈ es.map Prod.fst := by
  induction es with
  | nil => simp [find?]
  | cons e rest ih =>
    obtain ⟨k₀, a₀⟩ := e
    by_cases h : k₀ = k
    · simp [find?, h]
    · simp [find?, h, Ne.symm h, ih]

theorem mem_of_find? {k : κ} {a : α} {es : List (κ × α)} (h : find? k es = some a) :
    (k, a) ∈ es := by
  induction es with
  | nil => cases h
  | cons e rest ih =>
    obtain ⟨k₀, a₀⟩ := e
    by_cases same : k₀ = k
    · subst same
      simp only [find?, if_true, Option.some.injEq] at h
      exact h ▸ List.mem_cons_self
    · simp only [find?, same, if_false] at h
      exact List.mem_cons_of_mem _ (ih h)

theorem eq_or_mem_of_mem_put {k : κ} {a : α} {es : List (κ × α)} {e : κ × α}
    (h : e ∈ put k a es) : e = (k, a) ∨ e ∈ es := by
  induction es with
  | nil => exact .inl (List.mem_singleton.mp h)
  | cons e₀ rest ih =>
    simp only [put] at h
    split at h <;> rcases List.mem_cons.mp h with h | h
    · exact .inl h
    · exact .inr (List.mem_cons_of_mem _ h)
    · exact .inr (h ▸ List.mem_cons_self)
    · exact (ih h).imp_right (List.mem_cons_of_mem _)

/-- What holds of all entries and of a new one holds after its insertion. -/
theorem forall_mem_insert {p : κ × α → Prop} {t : Table κ α} {k : κ} {a : α}
    (old : ∀ e ∈ t.entries, p e) (new : p (k, a)) : ∀ e ∈ (t.insert k a).entries, p e := by
  intro e he
  rcases eq_or_mem_of_mem_put he with rfl | he
  · exact new
  · exact old e he

/-- The keys are those under which something is stored. -/
theorem contains_iff (t : Table κ α) (k : κ) : t.contains k = true ↔ k ∈ t.keys :=
  find?_isSome k t.entries

end Table

end Script
