/-
  Script/Proofs/Session/Reached.lean
  ==================================
  **The values that a session has shown.**

  From outside, a session evaluates texts, calls values, and binds and looks up
  names; of the values that it has shown, others can be put together.  Only the
  evaluation of a literal makes a function.  So whatever is done, and in whatever
  order, one number stands for one function among all values that were shown, and
  what equality says of such values holds of every session.

  Main statements: `Session.Reached.numbered`, by induction on what was done, and
  `Session.Reached.beq_iff_eq`; `Value.beq_congruent` puts the laws of equality
  together.
-/
import Script.Proofs.Eval.Numbered

namespace Script

/-- The value that an evaluation ended with, if it did not end the process. -/
def Answer.values (answer : Answer) : List Value :=
  match answer.outcome with
  | .value v => [v]
  | .exit _ => []

namespace Session

/-! ### What is done from outside -/

/-- `s.Reached vs`: a session that can be reached from a new one, and the values that
    were shown, or put together of what was shown, on the way. -/
inductive Reached [Digesting] : Session → List Value → Prop
  | new : Reached .new []
  | eval {s s' : Session} {vs : List Value} {fuel : Nat} {source : String} {answer : Answer}
    (reached : Reached s vs) (h : s.eval fuel source = some (.ok answer, s')) :
    Reached s' (answer.values ++ vs)
  | apply {s s' : Session} {vs args : List Value} {fuel : Nat} {callee : Value} {answer : Answer}
    (reached : Reached s vs) (shown : ∀ v ∈ callee :: args, v ∈ vs)
    (h : s.apply fuel callee args = some (answer, s')) : Reached s' (answer.values ++ vs)
  | lookup {s : Session} {vs : List Value} {name : String} {v : Value} (reached : Reached s vs)
    (h : s.lookup? name = some v) : Reached s (v :: vs)
  | define {s : Session} {vs : List Value} {v : Value} (reached : Reached s vs) (shown : v ∈ vs)
    (name : String) : Reached (s.define name v) vs
  | assign {s s' : Session} {vs : List Value} {name : String} {v : Value} (reached : Reached s vs)
    (shown : v ∈ vs) (h : s.assign? name v = some s') : Reached s' vs
  | clear {s : Session} {vs : List Value} (reached : Reached s vs) : Reached (.ofStore s.store) vs
  /-- A value is put together: the functions in it were shown. -/
  | compose {s : Session} {vs : List Value} {v : Value} (reached : Reached s vs)
    (parts : ∀ w, v.Holds w → w.kind = .function → ∃ u ∈ vs, u.Holds w) : Reached s (v :: vs)

/-! ### Numbers -/

variable {c : Closures} {s s' : Session} {vs : List Value}

/-- The functions that the scopes of a session bind, and those in some values, are
    among those that the session has made, each with a number of its own. -/
structure Numbered (c : Closures) (s : Session) (vs : List Value) : Prop where
  store : s.store.Numbered c
  values : ∀ v ∈ vs, v.Every (Value.Made c s.store.functions)

section Tasks

variable [Digesting]

theorem perform_of_eval {fuel : Nat} {source : String} {answer : Answer}
    (h : s.eval fuel source = some (.ok answer, s')) :
    ∃ p, (Task.program p s.root).perform fuel s.store = some (answer, s'.store) := by
  cases read : Program.ofString source with
  | error ds =>
    rw [eval, read] at h
    cases h
  | ok p =>
    refine ⟨p, ?_⟩
    rw [eval, read] at h
    obtain ⟨_, run, same⟩ := Option.map_eq_some_iff.mp h
    obtain ⟨⟨answer', store⟩, performed, rfl⟩ := Option.map_eq_some_iff.mp run
    cases same
    rw [Task.perform_program, performed]

theorem perform_of_apply {fuel : Nat} {callee : Value} {args : List Value} {answer : Answer}
    (h : s.apply fuel callee args = some (answer, s')) :
    (Task.apply callee args).perform fuel s.store = some (answer, s'.store) := by
  obtain ⟨⟨answer', store⟩, performed, same⟩ := Option.map_eq_some_iff.mp h
  cases same
  rw [Task.perform_apply, performed]

/-- A task adds its result to the values that were shown. -/
theorem Numbered.perform (numbered : s.Numbered c vs) {t : Task} (ht : t.Numbered c s.store)
    {fuel : Nat} {answer : Answer} (h : t.perform fuel s.store = some (answer, s'.store)) :
    ∃ c', s'.Numbered c' (answer.values ++ vs) := by
  obtain ⟨c', more, same, store, result⟩ := Task.numbered_perform ht numbered.store h
  refine ⟨c', store, ?_⟩
  intro v mem
  rcases List.mem_append.mp mem with last | before
  · rw [Answer.values] at last
    split at last
    · rename_i w ended
      obtain rfl := List.mem_singleton.mp last
      exact result v ended
    · cases last
  · exact (numbered.values v before).mono fun _ => Value.Made.later more same

end Tasks

namespace Reached

variable [Digesting]

/-- **In every session one number stands for one function**, among all values that
    are bound or were shown. -/
theorem numbered (reached : s.Reached vs) : ∃ c, s.Numbered c vs := by
  induction reached with
  | new => exact ⟨default, .ofStore (.empty _), nofun⟩
  | eval _ h ih =>
    obtain ⟨c, numbered⟩ := ih
    obtain ⟨p, performed⟩ := perform_of_eval h
    exact numbered.perform (t := .program p _) trivial performed
  | apply _ shown h ih =>
    obtain ⟨c, numbered⟩ := ih
    obtain ⟨callee, args⟩ := List.forall_mem_cons.mp shown
    have task : (Task.apply _ _).Numbered c _ :=
      ⟨numbered.values _ callee, fun v mem => numbered.values v (args v mem)⟩
    exact numbered.perform task (perform_of_apply h)
  | lookup _ h ih =>
    obtain ⟨c, store, values⟩ := ih
    exact ⟨c, store, List.forall_mem_cons.mpr ⟨Heap.Every.lookup? store h, values⟩⟩
  | define _ shown name ih =>
    obtain ⟨c, store, values⟩ := ih
    exact ⟨c, Heap.Every.define store _ name (values _ shown), values⟩
  | assign _ shown h ih =>
    obtain ⟨c, store, values⟩ := ih
    obtain ⟨heap, assigned, rfl⟩ := Option.map_eq_some_iff.mp h
    obtain ⟨owner, -, rfl⟩ := Option.map_eq_some_iff.mp assigned
    exact ⟨c, Heap.Every.define store owner _ (values _ shown), values⟩
  | clear _ ih =>
    obtain ⟨c, store, values⟩ := ih
    exact ⟨c, store.ofStore, values⟩
  | @compose s vs v _ parts ih =>
    obtain ⟨c, store, values⟩ := ih
    refine ⟨c, store, List.forall_mem_cons.mpr ⟨?_, values⟩⟩
    intro w held
    by_cases function : w.kind = .function
    · obtain ⟨u, mem, holds⟩ := parts w held function
      exact values u mem w holds
    · exact Value.onFunctions_made w function

/-- Equal values that a session has shown are one value. -/
theorem beq_iff_eq (reached : s.Reached vs) {v w : Value} (hv : v ∈ vs) (hw : w ∈ vs) :
    (v == w) = true ↔ v = w := by
  obtain ⟨c, numbered⟩ := reached.numbered
  exact (numbered.values v hv).of.beq_iff_eq (numbered.values w hw).of

end Reached

end Session

/-! ### The laws of equality -/

/-- **Equality is an equivalence and a congruence.**  It is reflexive, symmetric
    and transitive on all values, and on tables it compares what is stored under
    each key and the order in which the keys came.  Equal values have one kind,
    one truth and, however texts are digested, one key, and the built-in functions
    but the one that prints reply the same to them, up to equality again.  Where
    every number stands for one function they also have one text, and one detailed
    text; and so they have if one session has shown both. -/
theorem Value.beq_congruent [Digesting] [Escaping] :
    ((∀ v : Value, (v == v) = true) ∧
      (∀ v w : Value, (v == w) = true → (w == v) = true) ∧
      ∀ u v w : Value, (u == v) = true → (v == w) = true → (u == w) = true) ∧
    (∀ [Hashable Key] (es fs : List (Key × (Value × Value))),
      (Value.table (.ofList es) == Value.table (.ofList fs)) =
        (Indexed.ofList es == Indexed.ofList fs)) ∧
    (∀ v w : Value, (v == w) = true →
      v.kind = w.kind ∧ v.truthy = w.truthy ∧ v.key? = w.key? ∧
      (∀ b : Builtin, b ≠ .print → (b.call [v] == b.call [w]) = true) ∧
      ∀ c : Closures, v.Of c → w.Of c → v.render = w.render ∧ v.inspect = w.inspect) ∧
    ∀ (s : Session) (vs : List Value), s.Reached vs → ∀ v ∈ vs, ∀ w ∈ vs, (v == w) = true →
      v.render = w.render ∧ v.inspect = w.inspect := by
  refine ⟨⟨fun v => BEq.refl v, fun v w => BEq.symm, fun u v w => BEq.trans⟩, ?_, ?_, ?_⟩
  · exact fun es fs => Value.beq_table_ofList es fs
  · intro v w equal
    obtain ⟨kind, truthy, key⟩ := Value.seen_of_beq equal
    refine ⟨kind, truthy, key, fun b quiet => Builtin.beq_call quiet (.cons equal .nil), ?_⟩
    intro c hv hw
    obtain rfl := (hv.beq_iff_eq hw).mp equal
    exact ⟨rfl, rfl⟩
  · intro s vs reached v hv w hw equal
    obtain rfl := (reached.beq_iff_eq hv hw).mp equal
    exact ⟨rfl, rfl⟩

/-- One of the tables had another value under a key before; both hold one function,
    which an array holds under a return, too.  The session shows its function in an
    array, and again when it has a second name. -/
theorem Value.beq_congruent_overwritten :
    let _ : Digesting := ⟨fun _ => 0⟩
    let _ : Escaping := ⟨fun _ => true⟩
    let body : Block := [.bare (.identifier "x")]
    let c : Closures := fun _ => ⟨["x"], body, 0⟩
    let f : Value := .function 7 ["x"] body 0
    let a : Key := ⟨.string, 0⟩
    let one : Key := ⟨.integer, 1⟩
    let v : Value := .array [.returned f, .table (.ofList
      [(a, (.string "a", .null)), (one, (.integer 1, f)), (a, (.string "a", .integer 2))])]
    let w : Value := .array [.returned f, .table (.ofList
      [(a, (.string "a", .integer 2)), (one, (.integer 1, f))])]
    (v == w) = true ∧ v.Of c ∧ w.Of c ∧
      (Builtin.last.call [v] == Builtin.last.call [w]) = true ∧
      v.inspect = "[fn(x) { x }, \x7ba: 2, 1: fn(x) { x }\x7d]" ∧ w.inspect = v.inspect ∧
      ∃ (s : Session) (u u' : Value), s.Reached [u', u] ∧ (u == u') = true ∧
        u.inspect = "[fn(x) { x }]" ∧ u'.inspect = u.inspect := by
  intro _ _ body c f a one v w
  have equal : (v == w) = true := by decide
  have function : f.Of c := Value.of_function.mpr rfl
  have key : (Value.string "a").Of c := Value.onFunctions_known.lenient.string "a"
  have number (n : Int64) : (Value.integer n).Of c := Value.onFunctions_known.lenient.integer n
  have null : Value.null.Of c := Value.onFunctions_known.lenient.null
  have items {es : List (Key × (Value × Value))} (entries : ∀ e ∈ es, e.2.1.Of c ∧ e.2.2.Of c) :
      (Value.array [.returned f, .table (.ofList es)]).Of c := by
    have table : (Value.table (.ofList es)).Of c :=
      Value.of_table.mpr (Table.forall_mem_ofList entries)
    simp [Value.of_array, Value.of_returned, function, table]
  have left : v.Of c := items (by simp [key, number, null, function])
  have right : w.Of c := items (by simp [key, number, function])
  let g : Value := .function 0 ["x"] body 0
  let bound (bindings : List (String × Value)) : Session :=
    ⟨⟨⟨#[⟨⟨bindings⟩, none⟩]⟩, 1, 0, ""⟩, 0⟩
  have first : Session.new.eval 30 "let f = fn(x) \x7b x \x7d; [f]" =
      some (.ok ⟨.value (.array [g]), ""⟩, bound [("f", g)]) := by cbv
  have second : (bound [("f", g)]).eval 30 "let h = f; [h]" =
      some (.ok ⟨.value (.array [g]), ""⟩, bound [("f", g), ("h", g)]) := by cbv
  have reached : (bound [("f", g), ("h", g)]).Reached [.array [g], .array [g]] :=
    .eval (.eval .new first) second
  obtain ⟨-, -, equals, sessions⟩ := Value.beq_congruent
  obtain ⟨-, -, -, replies, texts⟩ := equals v w equal
  have again : (Value.array [g] == .array [g]) = true := by decide
  obtain ⟨-, shown⟩ :=
    sessions _ _ reached _ List.mem_cons_self _ (.tail _ List.mem_cons_self) again
  exact ⟨equal, left, right, replies .last (by decide), by cbv, (texts c left right).2.symm,
    _, _, _, reached, again, by cbv, shown⟩

end Script
