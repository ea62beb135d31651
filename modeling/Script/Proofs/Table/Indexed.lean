/-
  Script/Proofs/Table/Indexed.lean
  ================================
  **What a table shows of the insertions that made it.**

  Each key is there once, in the place of its first insertion, with what was
  inserted under it last.

  A table can also be kept in two parts: a map, which finds what is stored under
  a key, and the keys in their order, which is only added to when the map did not
  have the key.  What is stored is then read by going through the order, so a key
  that one part has and the other has not would lose it.  The parts stay in step:
  an indexed table shows what the table does, insertion by insertion.  Two of them
  are equal when their maps and their orders are, and so when the tables are, entry
  by entry.

  Main statements: `Table.keys_ofList`, `Table.get?_ofList`, the step lemma
  `Indexed.Shows.insert`, `Table.ofList_exact`, which puts them together, and
  `Indexed.Shows.beq_iff`.
-/
import Mathlib
import Script.Table

namespace Script

namespace Table

variable {κ α : Type} [DecidableEq κ]

/-- What was inserted last under a key. -/
def latest? (es : List (κ × α)) (k : κ) : Option α :=
  ((es.filter fun e => e.1 = k).getLast?).map Prod.snd

/-! ### One table -/

theorem ofList_append_singleton (es : List (κ × α)) (e : κ × α) :
    ofList (es ++ [e]) = (ofList es).insert e.1 e.2 := by
  simp [ofList]

theorem latest?_append_singleton (es : List (κ × α)) (e : κ × α) (k : κ) :
    latest? (es ++ [e]) k = if e.1 = k then some e.2 else latest? es k := by
  by_cases same : e.1 = k <;> simp [latest?, same]

/-- A key holds what was inserted under it last. -/
theorem get?_ofList (es : List (κ × α)) (k : κ) : (ofList es).get? k = latest? es k := by
  induction es using List.reverseRecOn with
  | nil => rfl
  | append_singleton es e ih =>
    rw [ofList_append_singleton, get?_insert, ih, latest?_append_singleton]

/-- The keys stand in the order in which they were first inserted. -/
theorem keys_ofList (es : List (κ × α)) : (ofList es).keys = (es.map Prod.fst).eraseDups := by
  induction es using List.reverseRecOn with
  | nil => rfl
  | append_singleton es e ih =>
    rw [ofList_append_singleton, keys_insert, ih, List.map_append, List.eraseDups_append]
    by_cases old : e.1 ∈ es.map Prod.fst <;>
      simp [List.removeAll, old, List.eraseDups_cons, List.mem_eraseDups]

theorem nodup_keys_insert {t : Table κ α} (nodup : t.keys.Nodup) (k : κ) (a : α) :
    (t.insert k a).keys.Nodup := by
  rw [keys_insert]
  split
  · exact nodup
  · rename_i new
    exact List.concat_eq_append ▸ nodup.concat new

theorem nodup_keys_ofList (es : List (κ × α)) : (ofList es).keys.Nodup := by
  induction es using List.reverseRecOn with
  | nil => exact List.nodup_nil
  | append_singleton es e ih =>
    rw [ofList_append_singleton]
    exact nodup_keys_insert ih e.1 e.2

/-- What holds of all entries that are inserted holds of those that are there. -/
theorem forall_mem_ofList {es : List (κ × α)} {p : κ × α → Prop} (h : ∀ e ∈ es, p e) :
    ∀ e ∈ (ofList es).entries, p e := by
  induction es using List.reverseRecOn with
  | nil => exact forall_mem_empty
  | append_singleton es e ih =>
    rw [ofList_append_singleton]
    have old : ∀ e' ∈ es, p e' := fun e' mem => h e' (List.mem_append_left _ mem)
    exact forall_mem_insert (ih old) (h e (List.mem_append_right _ List.mem_cons_self))

theorem put_of_not_mem {k : κ} {es : List (κ × α)} (new : k ∉ es.map Prod.fst) (a : α) :
    put k a es = es ++ [(k, a)] := by
  induction es with
  | nil => rfl
  | cons e es ih =>
    rw [List.map_cons, List.mem_cons, not_or] at new
    rw [put, if_neg (Ne.symm new.1), ih new.2]
    rfl

/-- Entries of which no two have one key stay as they are inserted. -/
theorem ofList_of_nodup {es : List (κ × α)} (nodup : (es.map Prod.fst).Nodup) :
    ofList es = ⟨es⟩ := by
  induction es using List.reverseRecOn with
  | nil => rfl
  | append_singleton es e ih =>
    rw [List.map_append, List.map_singleton] at nodup
    have apart := List.nodup_append.mp nodup
    have new : e.1 ∉ es.map Prod.fst := by
      intro old
      exact apart.2.2 _ old _ List.mem_cons_self rfl
    rw [ofList_append_singleton, ih apart.1, insert, put_of_not_mem new]

/-- Where no key comes twice, an entry is found under its key. -/
theorem get?_of_mem {t : Table κ α} (nodup : t.keys.Nodup) {e : κ × α} (mem : e ∈ t.entries) :
    t.get? e.1 = some e.2 := by
  obtain ⟨es⟩ := t
  change (es.map Prod.fst).Nodup at nodup
  change e ∈ es at mem
  change find? e.1 es = some e.2
  induction es with
  | nil => cases mem
  | cons e₀ es ih =>
    obtain ⟨new, nodup⟩ := List.nodup_cons.mp nodup
    rcases List.mem_cons.mp mem with rfl | mem
    · simp [find?]
    · have different : e₀.1 ≠ e.1 := fun same => new (same ▸ List.mem_map_of_mem mem)
      simp [find?, different, ih nodup mem]

/-- Looking up the keys in turn finds the values in turn. -/
theorem map_get?_keys {t : Table κ α} (nodup : t.keys.Nodup) :
    t.keys.map t.get? = t.values.map some := by
  rw [keys, values, List.map_map, List.map_map]
  exact List.map_congr_left fun e mem => get?_of_mem nodup mem

/-- Values in turn are related when what is found under each key is. -/
theorem forall₂_values_iff {r : α → α → Prop} {t u : Table κ α} (left : t.keys.Nodup)
    (right : u.keys.Nodup) (same : t.keys = u.keys) :
    List.Forall₂ r t.values u.values ↔ ∀ k ∈ t.keys, Option.Rel r (t.get? k) (u.get? k) :=
  calc List.Forall₂ r t.values u.values
    _ ↔ List.Forall₂ (Option.Rel r) (t.values.map some) (u.values.map some) := by
      simp only [List.forall₂_map_left_iff, List.forall₂_map_right_iff, Option.rel_some_some]
    _ ↔ List.Forall₂ (Option.Rel r) (t.keys.map t.get?) (t.keys.map u.get?) := by
      rw [← map_get?_keys left, ← map_get?_keys right, same]
    _ ↔ ∀ k ∈ t.keys, Option.Rel r (t.get? k) (u.get? k) := by
      rw [List.forall₂_map_left_iff, List.forall₂_map_right_iff, List.forall₂_same]

omit [DecidableEq κ] in
theorem size_eq_length_keys (t : Table κ α) : t.size = t.keys.length := by
  simp [size, keys]

/-- A table has as many entries as different keys were inserted. -/
theorem size_ofList (es : List (κ × α)) : (ofList es).size = (es.map Prod.fst).toFinset.card := by
  have same : (ofList es).keys.toFinset = (es.map Prod.fst).toFinset := by
    ext k
    rw [keys_ofList, List.mem_toFinset, List.mem_eraseDups, List.mem_toFinset]
  rw [size_eq_length_keys, ← List.toFinset_card_of_nodup (nodup_keys_ofList es), same]

end Table

/-! ### Two parts -/

/-- A table in two parts: what is stored under each key, and the keys in their
    order. -/
structure Indexed (κ α : Type) [DecidableEq κ] [Hashable κ] where
  pairs : Std.HashMap κ α
  order : List κ

namespace Indexed

variable {κ α : Type} [DecidableEq κ] [Hashable κ]

def empty : Indexed κ α := ⟨∅, []⟩

/-- Store a value under a key, and add the key to the order if it is new. -/
def insert (x : Indexed κ α) (k : κ) (a : α) : Indexed κ α :=
  ⟨x.pairs.insert k a, if k ∈ x.pairs then x.order else x.order ++ [k]⟩

/-- What the keys in their order lead to; a key that leads to nothing is passed
    over. -/
def values (x : Indexed κ α) : List α := x.order.filterMap fun k => x.pairs[k]?

def ofList (es : List (κ × α)) : Indexed κ α :=
  es.foldl (fun x e => x.insert e.1 e.2) empty

/-- Two indexed tables are compared part by part: whether they have as many keys,
    whether what the one has under a key equals what the other has there, and
    whether the keys come in one order. -/
def beq [BEq α] (x y : Indexed κ α) : Bool :=
  (x.pairs.size == y.pairs.size && x.pairs.all fun k a => y.pairs[k]?.any (a == ·)) &&
    x.order == y.order

instance [BEq α] : BEq (Indexed κ α) := ⟨beq⟩

/-- An indexed table shows the keys of a table, and finds under each what the
    table has there. -/
structure Shows (x : Indexed κ α) (t : Table κ α) : Prop where
  order : x.order = t.keys
  finds : ∀ k, x.pairs[k]? = t.get? k
  size : x.pairs.size = t.size
  nodup : t.keys.Nodup

namespace Shows

variable {x : Indexed κ α} {t : Table κ α}

/-- The map has the keys of the order, and no others. -/
theorem mem_iff (shows : x.Shows t) (k : κ) : k ∈ x.pairs ↔ k ∈ t.keys := by
  rw [← Table.contains_iff, Table.contains, ← shows.finds k, ← Std.HashMap.isSome_getElem?_iff_mem]

theorem empty : (Indexed.empty : Indexed κ α).Shows .empty := by
  constructor <;> simp [Indexed.empty, Table.empty, Table.keys, Table.size, Table.get?, Table.find?]

theorem insert (shows : x.Shows t) (k : κ) (a : α) : (x.insert k a).Shows (t.insert k a) := by
  have same : k ∈ x.pairs ↔ k ∈ t.keys := shows.mem_iff k
  constructor
  · simp only [Indexed.insert, Table.keys_insert, same, shows.order]
  · intro k'
    simp only [Indexed.insert, Std.HashMap.getElem?_insert, Table.get?_insert, shows.finds,
      beq_iff_eq]
  · rw [Indexed.insert, Std.HashMap.size_insert, Table.size_eq_length_keys, Table.keys_insert,
      shows.size, Table.size_eq_length_keys]
    by_cases old : k ∈ t.keys
    · rw [if_pos (same.mpr old), if_pos old]
    · rw [if_neg (mt same.mp old), if_neg old, List.length_append, List.length_singleton]
  · exact Table.nodup_keys_insert shows.nodup k a

/-- Nothing is passed over. -/
theorem values (shows : x.Shows t) : x.values = t.values := by
  have found : x.order.map (fun k => x.pairs[k]?) = t.values.map some := by
    rw [shows.order, ← Table.map_get?_keys shows.nodup]
    exact List.map_congr_left fun k _ => shows.finds k
  calc x.values = (x.order.map fun k => x.pairs[k]?).filterMap id := by
        rw [Indexed.values, List.filterMap_map]
        rfl
    _ = (t.values.map some).filterMap id := by rw [found]
    _ = t.values := by rw [List.filterMap_map]; exact List.filterMap_some

/-- One map has in another what equals each of its values, when what the tables
    find under each key is equal. -/
theorem all_iff [BEq α] {y : Indexed κ α} {u : Table κ α} (left : x.Shows t) (right : y.Shows u) :
    (x.pairs.all fun k a => y.pairs[k]?.any (a == ·)) = true ↔
      ∀ k ∈ t.keys, Option.Rel (fun a b => (a == b) = true) (t.get? k) (u.get? k) := by
  rw [Std.HashMap.all_eq_true_iff_forall_mem_getElem]
  refine forall_congr' fun k => ?_
  rw [← left.mem_iff k, ← left.finds k, ← right.finds k]
  refine forall_congr' fun mem => ?_
  rw [Std.HashMap.getElem?_eq_some_getElem mem]
  cases y.pairs[k]? with
  | none => simp
  | some b => simp

/-- Two indexed tables are equal when the tables that they show have the same keys,
    in one order, and equal values in turn. -/
theorem beq_iff [BEq α] {y : Indexed κ α} {u : Table κ α} (left : x.Shows t) (right : y.Shows u) :
    (x == y) = true ↔
      t.keys = u.keys ∧ List.Forall₂ (fun a b => (a == b) = true) t.values u.values := by
  change ((_ == _ && _) && _ == _) = true ↔ _
  rw [Bool.and_eq_true, Bool.and_eq_true, beq_iff_eq, beq_iff_eq, left.all_iff right, left.order,
    right.order, left.size, right.size]
  constructor
  · rintro ⟨⟨-, equal⟩, same⟩
    exact ⟨same, (Table.forall₂_values_iff left.nodup right.nodup same).mpr equal⟩
  · rintro ⟨same, equal⟩
    refine ⟨⟨?_, (Table.forall₂_values_iff left.nodup right.nodup same).mp equal⟩, same⟩
    rw [Table.size_eq_length_keys, Table.size_eq_length_keys, same]

end Shows

theorem shows_ofList (es : List (κ × α)) : (ofList es).Shows (Table.ofList es) := by
  induction es using List.reverseRecOn with
  | nil => exact .empty
  | append_singleton es e ih =>
    have last : ofList (es ++ [e]) = (ofList es).insert e.1 e.2 := by simp [ofList]
    rw [last, Table.ofList_append_singleton]
    exact ih.insert e.1 e.2

end Indexed

/-! ### Insertions and what they leave -/

section Exact

variable {κ α : Type} [DecidableEq κ] [Hashable κ]

/-- **Tables are maps in the order of insertion.**  For every list of insertions
    into an empty table: the map and the order of the indexed table hold the same
    keys, each once, and it shows what the table shows.  There are as many
    entries as different keys were inserted, and as many values to go through;
    what is found under a key is what was inserted under it last; and the values
    come in the order of the first insertions of their keys, and are the last
    ones. -/
theorem Table.ofList_exact (es : List (κ × α)) :
    ((Indexed.ofList es).order.Nodup ∧
      (∀ k, k ∈ (Indexed.ofList es).order ↔ k ∈ (Indexed.ofList es).pairs) ∧
      (Indexed.ofList es).order = (Table.ofList es).keys ∧
      (∀ k, (Indexed.ofList es).pairs[k]? = (Table.ofList es).get? k) ∧
      (Indexed.ofList es).pairs.size = (Table.ofList es).size ∧
      (Indexed.ofList es).values = (Table.ofList es).values) ∧
    (Table.ofList es).keys.Nodup ∧
    (∀ k, k ∈ (Table.ofList es).keys ↔ ((Table.ofList es).get? k).isSome = true) ∧
    (Table.ofList es).size = (es.map Prod.fst).toFinset.card ∧
    (Table.ofList es).values.length = (Table.ofList es).size ∧
    (∀ k, (Table.ofList es).get? k = Table.latest? es k) ∧
    (Table.ofList es).keys = (es.map Prod.fst).eraseDups ∧
    (Table.ofList es).values.map some = (es.map Prod.fst).eraseDups.map (Table.latest? es) := by
  have shows : (Indexed.ofList es).Shows (Table.ofList es) := Indexed.shows_ofList es
  refine ⟨⟨?_, ?_, shows.order, shows.finds, shows.size, shows.values⟩, shows.nodup, ?_,
    Table.size_ofList es, ?_, Table.get?_ofList es, Table.keys_ofList es, ?_⟩
  · exact shows.order ▸ shows.nodup
  · exact fun k => shows.order ▸ (shows.mem_iff k).symm
  · exact fun k => (Table.contains_iff _ k).symm
  · simp [Table.values, Table.size]
  · rw [← Table.map_get?_keys shows.nodup, Table.keys_ofList]
    exact List.map_congr_left fun k _ => Table.get?_ofList es k

example : (Table.ofList [("b", 1), ("a", 2), ("b", 3)]).entries = [("b", 3), ("a", 2)] := by decide

end Exact

end Script
