/-
  Script/Proofs/Session/Plain.lean
  ================================
  **Values that their own text stands for.**

  Integers, booleans, and arrays and tables of them print as literals of the
  language: a negative integer as a sign and digits, a table with its entries in
  the order of their keys, and an empty collection with nothing inside.  So the
  text of such a value, however deeply it is nested, is a program that comes to
  the value again.

  Main statements: `Value.Plain.spells`, by induction on the value, and
  `Value.comesTo_render`.
-/
import Script.Proofs.Session.Spelled
import Script.Proofs.Table.Indexed
import Script.Proofs.Value.Equal

namespace Script

/-! ### Plain values -/

variable [Digesting]

/-- Values made of integers other than the least one, of booleans, and of arrays
    and tables of such values.  Every entry of a table is inserted under the key
    that its key value stands for, so this is an integer or a boolean; what is
    inserted again under a key replaces what was there. -/
inductive Value.Plain : Value → Prop
  | integer {n : Int64} (other : n ≠ Int64.minValue) : Plain (.integer n)
  | boolean (b : Bool) : Plain (.boolean b)
  | array {items : List Value} (each : ∀ v ∈ items, Plain v) : Plain (.array items)
  | table {es : List (Key × (Value × Value))} (stand : ∀ e ∈ es, e.2.1.key? = some e.1)
    (keys : ∀ e ∈ es, Plain e.2.1) (values : ∀ e ∈ es, Plain e.2.2) :
    Plain (.table (Table.ofList es))

/-- The text of the value spells it. -/
abbrev Value.Spelled (v : Value) : Prop := ∃ e, Spells v.render e v

/-! ### Booleans -/

theorem spells_boolean (b : Bool) : Spells (Value.boolean b).render (.boolean b) (.boolean b) where
  written := ⟨_, Expr.Scanned.boolean b⟩
  gives _ _ := Task.gives_boolean b
  stays := rfl

/-! ### Items in turn -/

/-- The texts of values, each behind a comma, write expressions that give them. -/
theorem exists_moreItems {items : List Value} (each : ∀ v ∈ items, v.Spelled) :
    ∃ es, Yields (Expr.WrittenMoreItems es) (behind ',' (Value.renderEach items)) ∧
      ∀ i s, Task.GivesEach i es s items s := by
  induction items with
  | nil => exact ⟨[], .nil .nil, fun _ _ => .nil⟩
  | cons v items ih =>
    obtain ⟨⟨e, first⟩, others⟩ := List.forall_mem_cons.mp each
    obtain ⟨es, written, gives⟩ := ih others
    obtain ⟨w, writes⟩ := first.written
    refine ⟨e :: es, .behind rfl writes written fun _ _ _ => .cons, ?_⟩
    intro i s
    exact .cons (first.gives i s) first.fine (gives i s)

theorem exists_items {items : List Value} (each : ∀ v ∈ items, v.Spelled) :
    ∃ es, Yields (Expr.WrittenItems es) (", ".intercalate (Value.renderEach items)).toList ∧
      ∀ i s, Task.GivesEach i es s items s := by
  cases items with
  | nil => exact ⟨[], .nil .nil, fun _ _ => .nil⟩
  | cons v items =>
    obtain ⟨⟨e, first⟩, others⟩ := List.forall_mem_cons.mp each
    obtain ⟨es, written, gives⟩ := exists_moreItems others
    obtain ⟨w, writes⟩ := first.written
    refine ⟨e :: es, .intercalate rfl rfl writes written fun _ _ => .cons, ?_⟩
    intro i s
    exact .cons (first.gives i s) first.fine (gives i s)

theorem spelled_array {items : List Value} (each : ∀ v ∈ items, v.Spelled) :
    (Value.array items).Spelled := by
  obtain ⟨es, written, gives⟩ := exists_items each
  exact ⟨.array es, ⟨_, yields_array written⟩, fun i s => (gives i s).array, rfl⟩

/-! ### Entries in turn -/

/-- An entry whose key value and value are spelled by their texts, and that stands
    under the key of its key value. -/
structure SpelledEntry (e : Key × (Value × Value)) : Prop where
  stands : e.2.1.key? = some e.1
  key : e.2.1.Spelled
  value : e.2.2.Spelled

theorem exists_morePairs {entries : List (Key × (Value × Value))}
    (each : ∀ e ∈ entries, SpelledEntry e) :
    ∃ ps, Yields (Expr.WrittenMorePairs ps) (behind ',' (Value.renderEntries entries)) ∧
      ∀ i s, Task.GivesPairs i ps s entries s := by
  induction entries with
  | nil => exact ⟨[], .nil .nil, fun _ _ => .nil⟩
  | cons e entries ih =>
    obtain ⟨⟨stands, ⟨key, first⟩, value, second⟩, others⟩ := List.forall_mem_cons.mp each
    obtain ⟨ps, written, gives⟩ := ih others
    obtain ⟨w, writesKey⟩ := first.written
    obtain ⟨w', writesValue⟩ := second.written
    refine ⟨(key, value) :: ps, .behind rfl (yields_keyed writesKey writesValue) written ?_, ?_⟩
    · rintro comma _ us isComma ⟨ks, t, vs, rfl, writtenKey, isColon, writtenValue⟩ more
      simpa using Expr.WrittenMorePairs.cons isComma writtenKey isColon writtenValue more
    · intro i s
      exact .cons (first.gives i s) stands (second.gives i s) second.fine (gives i s)

theorem exists_pairs {entries : List (Key × (Value × Value))}
    (each : ∀ e ∈ entries, SpelledEntry e) :
    ∃ ps, Yields (Expr.WrittenPairs ps) (", ".intercalate (Value.renderEntries entries)).toList ∧
      ∀ i s, Task.GivesPairs i ps s entries s := by
  cases entries with
  | nil => exact ⟨[], .nil .nil, fun _ _ => .nil⟩
  | cons e entries =>
    obtain ⟨⟨stands, ⟨key, first⟩, value, second⟩, others⟩ := List.forall_mem_cons.mp each
    obtain ⟨ps, written, gives⟩ := exists_morePairs others
    obtain ⟨w, writesKey⟩ := first.written
    obtain ⟨w', writesValue⟩ := second.written
    refine ⟨(key, value) :: ps, .intercalate rfl rfl (yields_keyed writesKey writesValue) written ?_, ?_⟩
    · rintro _ us ⟨ks, t, vs, rfl, writtenKey, isColon, writtenValue⟩ more
      simpa using Expr.WrittenPairs.cons writtenKey isColon writtenValue more
    · intro i s
      exact .cons (first.gives i s) stands (second.gives i s) second.fine (gives i s)

theorem spelled_table {t : Entries} (nodup : t.keys.Nodup)
    (each : ∀ e ∈ t.entries, SpelledEntry e) : (Value.table t).Spelled := by
  obtain ⟨entries⟩ := t
  obtain ⟨ps, written, gives⟩ := exists_pairs each
  refine ⟨.table ps, ⟨_, yields_table written⟩, ?_, rfl⟩
  intro i s
  -- no key comes twice, so inserting the entries one by one changes none
  have table := (gives i s).table
  rwa [Table.ofList_of_nodup nodup] at table

/-! ### The text of a plain value -/

theorem Value.Plain.spelled {v : Value} (plain : v.Plain) : v.Spelled := by
  induction plain with
  | integer other => exact spells_integer other
  | boolean b => exact ⟨_, spells_boolean b⟩
  | array _ each => exact spelled_array each
  | @table es stand _ _ keys values =>
    have each : ∀ e ∈ es, SpelledEntry e := fun e mem => ⟨stand e mem, keys e mem, values e mem⟩
    exact spelled_table (Table.nodup_keys_ofList es) (Table.forall_mem_ofList each)

/-- Evaluated on its own, the text of a plain value comes to that very value, which
    is equal to itself in the language, too. -/
theorem Value.comesTo_render {v : Value} (plain : v.Plain) :
    ComesTo v.render v ∧ (v == v) = true := by
  obtain ⟨e, spells⟩ := plain.spelled
  exact ⟨spells.comesTo, v.beq_self⟩

omit [Digesting] in
/-- Negative integers, an empty array and an empty table, and a key under which
    something is inserted twice. -/
theorem Value.comesTo_render_nested :
    let _ : Digesting := ⟨fun _ => 0⟩
    let one : Key := ⟨.integer, 1⟩
    let yes : Key := ⟨.boolean, 1⟩
    let t : Entries := .ofList [(one, (.integer 1, .array [.integer 7])),
      (yes, (.boolean true, .table (.ofList []))),
      (one, (.integer 1, .integer (-9223372036854775807)))]
    let v : Value := .array [.integer (-3), .table t, .array []]
    v.Plain ∧ v.render = "[-3, \x7b1: -9223372036854775807, true: \x7b\x7d\x7d, []]" ∧
      ComesTo "[-3, \x7b1: -9223372036854775807, true: \x7b\x7d\x7d, []]" v := by
  intro _ one yes t v
  have number : (Value.integer 1).key? = some one := rfl
  have truth : (Value.boolean true).key? = some yes := rfl
  have plain : v.Plain := by
    have empty : (Value.table (.ofList [])).Plain := .table nofun nofun nofun
    have key : (Value.integer 1).Plain := .integer (by decide)
    have seven : (Value.integer 7).Plain := .integer (by decide)
    have seventh : (Value.array [.integer 7]).Plain := .array (by simp [seven])
    have last : (Value.integer (-9223372036854775807)).Plain := .integer (by decide)
    have first : (Value.integer (-3)).Plain := .integer (by decide)
    have none : (Value.array []).Plain := .array nofun
    have table : (Value.table t).Plain :=
      .table (by simp [number, truth]) (by simp [key, Value.Plain.boolean])
        (by simp [seventh, empty, last])
    exact .array (by simp [first, table, none])
  have text : v.render = "[-3, \x7b1: -9223372036854775807, true: \x7b\x7d\x7d, []]" := by cbv
  exact ⟨plain, text, text ▸ (Value.comesTo_render plain).1⟩

end Script
