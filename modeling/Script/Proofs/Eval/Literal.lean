/-
  Script/Proofs/Eval/Literal.lean
  ===============================
  **What a table literal makes.**

  A table literal evaluates its pairs from the first to the last, in each the
  key before the value, and stores every pair under the key that its key value
  stands for.  So a stored pair can be found under its own key value, and pairs
  whose keys have one digest are one entry: the last of them, in the place of
  the first.  Nothing is assumed of how texts are digested.

  Main statements: `Machine.run_continueTable`, by induction on the pairs that
  are left, `Entries.at_table`, and `Machine.run_table`, which puts together
  literals, subscripts, `len`, `keys` and the text of the table.
-/
import Script.Proofs.Eval.Above
import Script.Proofs.Table.Indexed

namespace Script

variable [Digesting]

namespace Machine

variable {fuel : Nat} {i : ScopeId} {s s' : Store}

/-! ### Pairs in turn -/

/-- The pairs of a literal, evaluated one after the other: what each key and each
    value comes to, and the store behind the last. -/
inductive EvaluatesPairs (scope : ScopeId) :
    List (Expr × Expr) → Store → List (Value × Value) → Store → Prop
  | nil {s : Store} : EvaluatesPairs scope [] s [] s
  | cons {key value : Expr} {rest : List (Expr × Expr)} {s s₁ s₂ s₃ : Store} {v w : Value}
      {vs : List (Value × Value)} {n m : Nat}
      (first : run n ⟨.eval key scope, [], s⟩ = some (.value v, s₁))
      (second : run m ⟨.eval value scope, [], s₁⟩ = some (.value w, s₂))
      (others : EvaluatesPairs scope rest s₂ vs s₃) :
      EvaluatesPairs scope ((key, value) :: rest) s ((v, w) :: vs) s₃

/-- A run that evaluates an expression for a frame, and does not end with an
    error, evaluates it by itself and then hands its value to the frame. -/
theorem run_eval_frame {e : Expr} {f : Frame} {r : Value} (fine : r.isError = false)
    (h : run fuel ⟨.eval e i, [f], s⟩ = some (.value r, s')) :
    ∃ n v s₁ m, run n ⟨.eval e i, [], s⟩ = some (.value v, s₁) ∧
      run m (resume f v [] s₁) = some (.value r, s') := by
  rcases run_above (m := ⟨.eval e i, [], s⟩) (k := [f]) h with
    ⟨code, exits, -⟩ | ⟨v, s₁, evaluates, rest, -, goes⟩
  · cases exits
  refine ⟨fuel, v, s₁, ?_⟩
  cases failed : v.isError with
  | true =>
    cases run_error failed goes
    rw [failed] at fine
    cases fine
  | false =>
    obtain _ | m := rest
    · cases goes
    simp only [run, step, failed, Bool.false_eq_true, if_false] at goes
    exact ⟨m, evaluates, goes⟩

/-- A table that comes of the pairs of a literal comes of evaluating them in turn
    and inserting each under the key that its key value stands for. -/
theorem run_continueTable {pairs : List (Expr × Expr)} {done t : Entries}
    (h : run fuel (continueTable done pairs i [] s) = some (.value (.table t), s')) :
    ∃ es : List (Key × (Value × Value)), EvaluatesPairs i pairs s (es.map Prod.snd) s' ∧
      (∀ e ∈ es, e.2.1.key? = some e.1) ∧ t = es.foldl (fun t e => t.insert e.1 e.2) done := by
  induction pairs generalizing fuel done s with
  | nil =>
    obtain _ | fuel := fuel
    · cases h
    cases h
    exact ⟨[], .nil, List.forall_mem_nil _, rfl⟩
  | cons pair pairs ih =>
    obtain ⟨key, value⟩ := pair
    obtain ⟨n, v, s₁, m, first, goes⟩ := run_eval_frame rfl h
    cases place : v.key? with
    | none =>
      -- a key value that stands for no key is an error, which would be the result
      simp only [resume, place] at goes
      cases run_error (Failure.isError_value _) goes
    | some k =>
      simp only [resume, place] at goes
      obtain ⟨n', w, s₂, m', second, goes⟩ := run_eval_frame rfl goes
      obtain ⟨es, others, stand, built⟩ := ih goes
      exact ⟨(k, (v, w)) :: es, .cons first second others,
        List.forall_mem_cons.mpr ⟨place, stand⟩, built⟩

end Machine

/-! ### Entries under their keys -/

namespace Entries

variable {es : List (Key × (Value × Value))}

theorem latest?_eq (stand : ∀ e ∈ es, e.2.1.key? = some e.1) (k : Key) :
    Table.latest? es k = ((es.map Prod.snd).filter fun p => p.1.key? = some k).getLast? := by
  have same : es.filter (fun e => e.1 = k) = es.filter fun e => e.2.1.key? = some k :=
    List.filter_congr fun e mem => by simp [stand e mem]
  rw [Table.latest?, same, List.filter_map, List.getLast?_map]
  rfl

/-- What a table has at a key value: the value of the last pair that was inserted
    under the key that this stands for. -/
theorem at_ofList (stand : ∀ e ∈ es, e.2.1.key? = some e.1) {q : Value} {k : Key}
    (place : q.key? = some k) :
    (Value.table (Table.ofList es)).at q =
      ((((es.map Prod.snd).filter fun p => p.1.key? = some k).getLast?).map Prod.snd).getD
        .null := by
  rw [← latest?_eq stand k, ← Table.get?_ofList]
  simp only [Value.at, place]

/-- A stored pair is found under its own key value. -/
theorem at_stored {t : Entries} (nodup : t.keys.Nodup)
    (stand : ∀ e ∈ t.entries, e.2.1.key? = some e.1) {p : Value × Value} (mem : p ∈ t.values) :
    (Value.table t).at p.1 = p.2 := by
  obtain ⟨e, there, rfl⟩ := List.mem_map.mp mem
  simp only [Value.at, stand e there, Table.get?_of_mem nodup there, Option.map_some,
    Option.getD_some]

theorem map_key?_values {t : Entries} (stand : ∀ e ∈ t.entries, e.2.1.key? = some e.1) :
    (t.values.map fun p => p.1.key?) = t.keys.map some := by
  rw [Table.values, Table.keys, List.map_map, List.map_map]
  exact List.map_congr_left stand

omit [Digesting] in
theorem renderEntries_eq (es : List (Key × (Value × Value))) :
    Value.renderEntries es = es.map fun e => e.2.1.render ++ ": " ++ e.2.2.render := by
  induction es with
  | nil => rfl
  | cons e es ih => rw [Value.renderEntries, ih, List.map_cons]

/-- What a table has to do with the pairs that were evaluated for it, `vs`, their
    keys `ks`, and the pairs that it shows. -/
structure Agrees (t : Entries) (vs : List (Value × Value)) (ks : List Key)
    (shown : List (Value × Value)) : Prop where
  /-- Each key value stands for a key. -/
  stand : (vs.map fun p => p.1.key?) = ks.map some
  /-- At a value that stands for a key the table has the value of the last pair
      with this key, or null. -/
  found : ∀ q k, q.key? = some k → (Value.table t).at q =
    (((vs.filter fun p => p.1.key? = some k).getLast?).map Prod.snd).getD .null
  /-- There are as many entries as different keys. -/
  counted : Builtin.len.call [.table t] = .value (.integer (Int64.ofNat ks.toFinset.card))
  listed : Builtin.keys.call [.table t] = .value (.array (shown.map Prod.fst))
  length : shown.length = ks.toFinset.card
  displayed : (Value.table t).render =
    "\x7b" ++ ", ".intercalate (shown.map fun p => p.1.render ++ ": " ++ p.2.render) ++ "\x7d"
  /-- The pairs shown come in the order in which their keys were first given. -/
  order : (shown.map fun p => p.1.key?) = ks.eraseDups.map some
  /-- At each key value shown the table has the value shown with it. -/
  same : ∀ n (hn : n < shown.length), (Value.table t).at shown[n].1 = shown[n].2

theorem agrees_ofList (stand : ∀ e ∈ es, e.2.1.key? = some e.1) :
    Agrees (Table.ofList es) (es.map Prod.snd) (es.map Prod.fst) (Table.ofList es).values where
  stand := by
    rw [List.map_map, List.map_map]
    exact List.map_congr_left stand
  found q k place := at_ofList stand place
  counted := by
    rw [← Table.size_ofList]
    rfl
  listed := rfl
  length := by
    rw [← Table.size_ofList]
    exact List.length_map _
  displayed := by
    rw [Value.render, renderEntries_eq, Table.values, List.map_map]
    rfl
  order := by rw [map_key?_values (Table.forall_mem_ofList stand), Table.keys_ofList]
  same n hn :=
    at_stored (Table.nodup_keys_ofList es) (Table.forall_mem_ofList stand) (List.getElem_mem hn)

end Entries

/-! ### Literals -/

/-- **Literals, subscripts, `len`, `keys` and display agree.**  A table that comes
    of a literal comes of evaluating its pairs in turn, and agrees with them and
    with what it shows, however texts are digested. -/
theorem Machine.run_table {pairs : List (Expr × Expr)} {i : ScopeId} {s s' : Store} {fuel : Nat}
    {t : Entries} (h : run fuel ⟨.eval (.table pairs) i, [], s⟩ = some (.value (.table t), s')) :
    ∃ vs ks shown, EvaluatesPairs i pairs s vs s' ∧ t.Agrees vs ks shown := by
  obtain _ | fuel := fuel
  · cases h
  obtain ⟨es, evaluates, stand, rfl⟩ := run_continueTable h
  exact ⟨_, _, _, evaluates, Entries.agrees_ofList stand⟩

omit [Digesting] in
/-- All texts have one digest here, so "left" and "right" are one key; its second
    key value and its last value are shown, in the first place.  The first key
    rebinds the name that the values look up. -/
theorem Machine.run_table_alias :
    let _ : Digesting := ⟨fun _ => 0⟩
    let pairs : List (Expr × Expr) := [
      (.conditional (.boolean true) [.assign "n" (.integer 5), .bare (.string "left")] none,
        .identifier "n"),
      (.boolean true, .integer 2), (.string "right", .binary (.identifier "n") .add (.integer 1))]
    let s : Store := ⟨⟨#[⟨⟨[("n", .integer 1)]⟩, none⟩]⟩, 0, 0, ""⟩
    let s' : Store := ⟨⟨#[⟨⟨[("n", .integer 5)]⟩, none⟩]⟩, 0, 0, ""⟩
    let t : Entries := ⟨[(⟨.string, 0⟩, (.string "right", .integer 6)),
      (⟨.boolean, 1⟩, (.boolean true, .integer 2))]⟩
    run 40 ⟨.eval (.table pairs) 0, [], s⟩ = some (.value (.table t), s') ∧
      ∃ vs ks shown, EvaluatesPairs 0 pairs s vs s' ∧ t.Agrees vs ks shown := by
  intro _ pairs s s' t
  have evaluated : run 40 ⟨.eval (.table pairs) 0, [], s⟩ = some (.value (.table t), s') := by cbv
  exact ⟨evaluated, run_table evaluated⟩

end Script
