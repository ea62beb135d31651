/-
  Script/Proofs/Eval/Nested.lean
  ==============================
  **Scopes lie no deeper than the text.**

  Calls nest as deeply as a run takes them, and a function value is called far
  from where it was made.  But the scope of a call lies inside the scope of the
  function literal, and the scope of a round inside that of the loop.  So
  wherever a piece of code runs or waits, in a scope, there is room inside that
  scope for the bodies that are nested in the code; and wherever a function
  value is kept, there is room inside its scope for its body.

  Main statements: `Machine.nested_of_step` for one step, and
  `Session.chain_ofStore` for every scope in every state of a run.
-/
import Script.Proofs.Eval.Run
import Script.Proofs.Expr.Nesting
import Script.Proofs.Heap.Chain

namespace Script

variable {E : Extent} {h h' : Heap}

/-! ### Values and scopes -/

/-- There is room inside the scope of a function value for its body. -/
def Value.roomy (E : Extent) (h : Heap) : Value → Prop
  | .function _ _ body i => h.Room E i (Block.nesting body + 1)
  | _ => True

/-- There is room for the bodies of all function values that are the value or
    held by it. -/
def Value.Nested (E : Extent) (h : Heap) (v : Value) : Prop := v.Every (roomy E h)

/-- The scopes that the run has made are no more than its extent admits, and
    there is room for the functions bound there. -/
structure Heap.Nested (E : Extent) (h : Heap) : Prop where
  room : ∀ i, E.base ≤ i → i < h.size → h.Room E i 0
  values : ∀ i s, E.base ≤ i → h.scopes[i]? = some s → ∀ e ∈ s.bindings.entries, e.2.Nested E h

namespace Value

theorem onFunctions_roomy : OnFunctions (roomy E h) := by
  intro v other
  cases v with
  | function => exact absurd rfl other
  | _ => trivial

theorem lenient_roomy : Lenient (roomy E h) := onFunctions_roomy.lenient

theorem Nested.null : null.Nested E h := lenient_roomy.null

theorem nested_array {items : List Value} :
    (array items).Nested E h ↔ ∀ v ∈ items, v.Nested E h :=
  lenient_roomy.array

theorem nested_table {entries : Entries} : (table entries).Nested E h ↔
    ∀ e ∈ entries.entries, e.2.1.Nested E h ∧ e.2.2.Nested E h :=
  lenient_roomy.table

theorem nested_function {n : Nat} {ps : List String} {b : Block} {i : ScopeId} :
    (function n ps b i).Nested E h ↔ h.Room E i (Block.nesting b + 1) :=
  every_atom rfl

theorem Nested.keep {v : Value} (keeps : h.Keeps h') (hv : v.Nested E h) : v.Nested E h' := by
  intro w held
  have roomy := hv w held
  cases w with
  | function => exact Heap.Room.keep keeps roomy
  | _ => trivial

end Value

namespace Heap.Nested

variable {i : ScopeId} {n : Nat}

theorem alloc (nested : h.Nested E) (room : h.Room E i (n + 1)) {bindings : Table String Value}
    (hb : ∀ e ∈ bindings.entries, e.2.Nested E h) : (h.alloc (some i) bindings).Nested E := by
  have keeps := h.keeps_alloc (some i) bindings
  constructor
  · intro j new made
    rw [size_alloc] at made
    rcases Nat.lt_succ_iff_lt_or_eq.mp made with old | rfl
    · exact (nested.room j new old).keep keeps
    · exact (room.alloc bindings).mono (Nat.zero_le n)
  · intro j s new found e bound
    rcases h.scopes_alloc_cases _ _ found with ⟨-, found⟩ | ⟨-, rfl⟩
    · exact (nested.values j s new found e bound).keep keeps
    · exact (hb e bound).keep keeps

theorem define (nested : h.Nested E) (i : ScopeId) (name : String) {v : Value}
    (hv : v.Nested E h) : (h.define i name v).Nested E := by
  have keeps := h.keeps_define i name v
  constructor
  · intro j new made
    rw [size_define] at made
    exact (nested.room j new made).keep keeps
  · intro j s new found
    obtain ⟨s₀, found, same⟩ := h.scopes_define_cases i name v found
    have before : ∀ e ∈ s₀.bindings.entries, e.2.Nested E (h.define i name v) :=
      fun e bound => (nested.values j s₀ new found e bound).keep keeps
    rcases same with rfl | rfl
    · exact before
    · exact Table.forall_mem_insert before (hv.keep keeps)

theorem lookup? (nested : h.Nested E) (room : h.Room E i n) {name : String} {v : Value}
    (found : h.lookup? i name = some v) : v.Nested E h := by
  obtain ⟨js, chain, older, new, -⟩ := room
  obtain ⟨j, owner, bound⟩ := Option.bind_eq_some_iff.mp found
  obtain ⟨s, hs, get⟩ := Option.bind_eq_some_iff.mp bound
  exact nested.values j s (new j (chain.binds_of_owner? older owner).1) hs _ (Table.mem_of_find? get)

theorem nameValue {s : Store} (nested : s.heap.Nested E) (room : s.heap.Room E i n)
    (name : String) : (s.nameValue i name).Nested E s.heap := by
  unfold Store.nameValue
  split
  · rename_i v found
    exact nested.lookup? room found
  · split
    · exact Value.lenient_roomy.builtin _
    · exact Value.onFunctions_roomy.failure _

end Heap.Nested

/-! ### Machines -/

/-- There is room for the bodies in the code that a frame goes on with, and for
    those of the functions that wait in it. -/
def Frame.Nested (E : Extent) (h : Heap) : Frame → Prop
  | .unary _ | .define _ _ | .assign _ _ | .return | .leave => True
  | .left _ e i | .collection e i => h.Room E i e.nesting
  | .right _ v | .index v => v.Nested E h
  | .branch b a i => h.Room E i (max (Block.nesting b) (Block.nestingElse a))
  | .test c b i | .again c b i => h.Room E i (max c.nesting (Block.nesting b + 1))
  | .callee args i => h.Room E i (Expr.nestingEach args)
  | .argument f done rest i =>
    f.Nested E h ∧ (∀ v ∈ done, v.Nested E h) ∧ h.Room E i (Expr.nestingEach rest)
  | .item done rest i => (∀ v ∈ done, v.Nested E h) ∧ h.Room E i (Expr.nestingEach rest)
  | .key done e rest i =>
    (Value.table done).Nested E h ∧ h.Room E i (max e.nesting (Expr.nestingPairs rest))
  | .value done _ k rest i =>
    (Value.table done).Nested E h ∧ k.Nested E h ∧ h.Room E i (Expr.nestingPairs rest)
  | .sequence b i => h.Room E i (Block.nesting b)

def Control.Nested (E : Extent) (h : Heap) : Control → Prop
  | .eval e i => h.Room E i e.nesting
  | .exec b i => h.Room E i (Block.nesting b)
  | .call f args => f.Nested E h ∧ ∀ v ∈ args, v.Nested E h
  | .give v => v.Nested E h

theorem Frame.Nested.keep {f : Frame} (keeps : h.Keeps h') (hf : f.Nested E h) :
    f.Nested E h' := by
  cases f with
  | unary | define | assign | «return» | leave => trivial
  | left | collection | branch | test | again | callee | sequence => exact Heap.Room.keep keeps hf
  | right | index => exact Value.Nested.keep keeps hf
  | argument =>
    obtain ⟨callee, done, room⟩ := hf
    exact ⟨callee.keep keeps, fun v hv => (done v hv).keep keeps, room.keep keeps⟩
  | item =>
    obtain ⟨done, room⟩ := hf
    exact ⟨fun v hv => (done v hv).keep keeps, room.keep keeps⟩
  | key =>
    obtain ⟨done, room⟩ := hf
    exact ⟨done.keep keeps, room.keep keeps⟩
  | value =>
    obtain ⟨done, key, room⟩ := hf
    exact ⟨done.keep keeps, key.keep keeps, room.keep keeps⟩

namespace Machine

structure Nested (E : Extent) (m : Machine) : Prop where
  control : m.control.Nested E m.store.heap
  stack : ∀ f ∈ m.stack, f.Nested E m.store.heap
  heap : m.store.heap.Nested E

variable {stack : List Frame} {store : Store} {i : ScopeId}

theorem nested_push {control : Control} {f : Frame} (hc : control.Nested E store.heap)
    (hf : f.Nested E store.heap) (hk : ∀ f ∈ stack, f.Nested E store.heap)
    (hh : store.heap.Nested E) : Nested E ⟨control, f :: stack, store⟩ :=
  ⟨hc, List.forall_mem_cons.mpr ⟨hf, hk⟩, hh⟩

section Continue

variable (hk : ∀ f ∈ stack, f.Nested E store.heap) (hh : store.heap.Nested E)

include hk hh

theorem nested_continueCall {f : Value} {done : List Value} {rest : List Expr}
    (hf : f.Nested E store.heap) (hd : ∀ v ∈ done, v.Nested E store.heap)
    (room : store.heap.Room E i (Expr.nestingEach rest)) :
    Nested E (continueCall f done rest i stack store) := by
  cases rest with
  | nil => exact ⟨⟨hf, hd⟩, hk, hh⟩
  | cons e rest =>
    have others := room.mono (Nat.le_max_right _ _)
    exact nested_push (room.mono (Nat.le_max_left _ _)) ⟨hf, hd, others⟩ hk hh

theorem nested_continueArray {done : List Value} {rest : List Expr}
    (hd : ∀ v ∈ done, v.Nested E store.heap)
    (room : store.heap.Room E i (Expr.nestingEach rest)) :
    Nested E (continueArray done rest i stack store) := by
  cases rest with
  | nil => exact ⟨Value.nested_array.mpr hd, hk, hh⟩
  | cons e rest =>
    have others := room.mono (Nat.le_max_right _ _)
    exact nested_push (room.mono (Nat.le_max_left _ _)) ⟨hd, others⟩ hk hh

theorem nested_continueTable {done : Entries} {rest : List (Expr × Expr)}
    (hd : (Value.table done).Nested E store.heap)
    (room : store.heap.Room E i (Expr.nestingPairs rest)) :
    Nested E (continueTable done rest i stack store) := by
  rcases rest with _ | ⟨⟨key, value⟩, rest⟩
  · exact ⟨hd, hk, hh⟩
  · have others := room.mono (Nat.le_max_right _ _)
    exact nested_push (room.mono (Nat.le_max_left _ _)) ⟨hd, others⟩ hk hh

theorem nested_evalExpr {e : Expr} (room : store.heap.Room E i e.nesting) :
    Nested E (evalExpr e i stack store) := by
  cases e with
  | identifier name => exact ⟨hh.nameValue room name, hk, hh⟩
  | integer n => exact ⟨Value.lenient_roomy.integer n, hk, hh⟩
  | string text => exact ⟨Value.lenient_roomy.string text, hk, hh⟩
  | boolean b => exact ⟨Value.lenient_roomy.boolean b, hk, hh⟩
  | function params body => exact ⟨Value.nested_function.mpr room, hk, hh⟩
  | array items => exact nested_continueArray hk hh (by simp) room
  | table pairs =>
    have empty : (Value.table .empty).Nested E store.heap :=
      Value.nested_table.mpr Table.forall_mem_empty
    exact nested_continueTable hk hh empty room
  | unary op operand => exact nested_push room trivial hk hh
  -- a loop waits with its condition too, which is evaluated again
  | loop c b => exact nested_push (room.mono (Nat.le_max_left _ _)) room hk hh
  | binary | conditional | call | index =>
    have others := room.mono (Nat.le_max_right _ _)
    exact nested_push (room.mono (Nat.le_max_left _ _)) others hk hh

theorem nested_execStmt {st : Stmt} (room : store.heap.Room E i st.nesting) :
    Nested E (execStmt st i stack store) := by
  cases st with
  | define | assign | «return» => exact nested_push room trivial hk hh
  | bare | block => exact ⟨room, hk, hh⟩

theorem nested_execBlock {b : Block} (room : store.heap.Room E i (Block.nesting b)) :
    Nested E (execBlock b i stack store) := by
  cases b with
  | nil => exact ⟨.null, hk, hh⟩
  | cons st rest =>
    have others : (Frame.sequence rest i).Nested E store.heap := room.mono (Nat.le_max_right _ _)
    exact nested_execStmt (List.forall_mem_cons.mpr ⟨others, hk⟩) hh (room.mono (Nat.le_max_left _ _))

/-- A body that runs in a scope of its own takes the room that is left for it. -/
theorem nested_enter {body : Block} (room : store.heap.Room E i (Block.nesting body + 1))
    {bindings : Table String Value} (hb : ∀ e ∈ bindings.entries, e.2.Nested E store.heap)
    (depth : Nat) : Nested E ⟨.exec body store.heap.size, stack,
      { store with heap := store.heap.alloc (some i) bindings, depth := depth }⟩ := by
  constructor
  · exact room.alloc bindings
  · exact fun f hf => (hk f hf).keep (store.heap.keeps_alloc _ _)
  · exact hh.alloc room hb

theorem nested_callValue {f : Value} {args : List Value} (hf : f.Nested E store.heap)
    (ha : ∀ v ∈ args, v.Nested E store.heap) {m : Machine}
    (h : callValue f args stack store = .running m) : Nested E m := by
  rcases callValue_cases h with ⟨n, params, body, scope, rfl, -, rfl⟩ | ⟨b, v, text, -, reply, rfl⟩ |
    ⟨failure, rfl⟩
  · -- the caller's scope plays no part: the body runs inside the scope of the literal
    have bindings := forall_mem_parameterBindings .null params args Table.forall_mem_empty ha
    have hk' : ∀ f ∈ .leave :: stack, f.Nested E store.heap :=
      List.forall_mem_cons.mpr ⟨trivial, hk⟩
    exact nested_enter hk' hh (Value.nested_function.mp hf) bindings _
  · exact ⟨Value.onFunctions_roomy.of_errorOr (b.errorOr_call Value.lenient_roomy ha reply), hk, hh⟩
  · exact ⟨Value.onFunctions_roomy.failure _, hk, hh⟩

theorem nested_resume [Digesting] {f : Frame} {v : Value} (hf : f.Nested E store.heap)
    (hv : v.Nested E store.heap) : Nested E (resume f v stack store) := by
  cases f with
  | unary op =>
    exact ⟨Value.onFunctions_roomy.of_errorOr (op.errorOr_apply Value.lenient_roomy v), hk, hh⟩
  | left op right i => exact nested_push hf hv hk hh
  | right op left =>
    exact ⟨Value.onFunctions_roomy.of_errorOr (op.errorOr_apply Value.lenient_roomy left v),
      hk, hh⟩
  | branch consequence alternative i =>
    simp only [resume]
    split
    · exact ⟨hf.mono (Nat.le_max_left _ _), hk, hh⟩
    · split
      · exact ⟨hf.mono (Nat.le_max_right _ _), hk, hh⟩
      · exact ⟨.null, hk, hh⟩
  | test condition body i =>
    simp only [resume]
    split
    · have hk' : ∀ f ∈ .again condition body i :: stack, f.Nested E store.heap :=
        List.forall_mem_cons.mpr ⟨hf, hk⟩
      exact nested_enter hk' hh (hf.mono (Nat.le_max_right _ _)) Table.forall_mem_empty store.depth
    · exact ⟨.null, hk, hh⟩
  | again condition body i =>
    simp only [resume]
    split
    · exact ⟨hv, hk, hh⟩
    · exact nested_push (hf.mono (Nat.le_max_left _ _)) hf hk hh
  | callee args i => exact nested_continueCall hk hh hv (by simp) hf
  | argument callee done rest i =>
    obtain ⟨hc, hd, room⟩ := hf
    have all := List.forall_mem_append.mpr ⟨hd, List.forall_mem_singleton.mpr hv⟩
    exact nested_continueCall hk hh hc all room
  | item done rest i =>
    obtain ⟨hd, room⟩ := hf
    have all := List.forall_mem_append.mpr ⟨hd, List.forall_mem_singleton.mpr hv⟩
    exact nested_continueArray hk hh all room
  | key done value rest i =>
    obtain ⟨hd, room⟩ := hf
    simp only [resume]
    split
    · have others := room.mono (Nat.le_max_right _ _)
      exact nested_push (room.mono (Nat.le_max_left _ _)) ⟨hd, hv, others⟩ hk hh
    · exact ⟨Value.onFunctions_roomy.failure _, hk, hh⟩
  | value done place key rest i =>
    obtain ⟨hd, hkey, room⟩ := hf
    have all := Table.forall_mem_insert (Value.nested_table.mp hd) (k := place) (a := (key, v))
      ⟨hkey, hv⟩
    exact nested_continueTable hk hh (Value.nested_table.mpr all) room
  | collection index i => exact nested_push hf hv hk hh
  | index collection =>
    exact ⟨Value.onFunctions_roomy.of_errorOr (Value.errorOr_at Value.lenient_roomy hf v),
      hk, hh⟩
  -- binding a value moves no scope, so what waits keeps its room
  | define name i =>
    have keeps := store.heap.keeps_define i name v
    exact ⟨.null, fun f hf => (hk f hf).keep keeps, hh.define i name hv⟩
  | assign name i =>
    simp only [resume]
    split
    · rename_i owner found
      have keeps := store.heap.keeps_define owner name v
      exact ⟨.null, fun f hf => (hk f hf).keep keeps, hh.define owner name hv⟩
    · exact ⟨Value.onFunctions_roomy.failure _, hk, hh⟩
  | «return» => exact ⟨Value.onFunctions_roomy.returned.mpr hv, hk, hh⟩
  | sequence rest i =>
    simp only [resume]
    split
    · exact ⟨hv, hk, hh⟩
    · exact ⟨hf, hk, hh⟩
  | leave => exact ⟨Value.onFunctions_roomy.unreturned hv, hk, hh⟩

end Continue

/-- A step of a machine whose code has room leads to such a machine. -/
theorem nested_of_step [Digesting] {m m' : Machine} (nested : m.Nested E)
    (h : m.step = .running m') : m'.Nested E := by
  obtain ⟨control, stack, store⟩ := m
  obtain ⟨hc, hk, hh⟩ := nested
  cases control with
  | eval e i =>
    cases h
    exact nested_evalExpr hk hh hc
  | exec b i =>
    cases h
    exact nested_execBlock hk hh hc
  | call f args => exact nested_callValue hk hh hc.1 hc.2 h
  | give v =>
    cases stack with
    | nil => cases h
    | cons f stack =>
      obtain ⟨hf, hk⟩ := List.forall_mem_cons.mp hk
      simp only [step] at h
      split at h
      · cases h
        cases f <;> exact ⟨hc, hk, hh⟩
      · cases h
        exact nested_resume hk hh hf hc

theorem nested_of_steps [Digesting] {m m' : Machine} (nested : m.Nested E) (steps : Steps m m') :
    m'.Nested E :=
  steps.keeps (P := Nested E) nested_of_step nested

end Machine

/-! ### Programs -/

namespace Session

/-- Inside a new root there is room for what is nested in a program. -/
theorem nested_ofStore (s : Store) (p : Program) :
    ((Task.program p (ofStore s).root).start (ofStore s).store).Nested
      ⟨s.heap.size, p.nesting + 1⟩ := by
  let h := s.heap.alloc none .empty
  have found : h.scopes[s.heap.size]? = some ⟨.empty, none⟩ := s.heap.scopes_alloc_size none .empty
  have room : h.Room ⟨s.heap.size, p.nesting + 1⟩ s.heap.size p.nesting := by
    refine ⟨[s.heap.size], .root (by simp [h]) (by simp [Heap.parent?, found]), ?_, ?_, ?_⟩
    · exact List.pairwise_singleton _ _
    · exact List.forall_mem_singleton.mpr (Nat.le_refl _)
    · exact Nat.le_of_eq (Nat.add_comm _ _)
  have root : ∀ i, s.heap.size ≤ i → i < h.size → i = s.heap.size := by
    intro i new made
    rw [Heap.size_alloc] at made
    omega
  constructor
  · exact room
  · exact fun f hf => absurd hf List.not_mem_nil
  · constructor
    · intro i new made
      rw [root i new made]
      exact room.mono (Nat.zero_le _)
    · intro i scope new there e bound
      have there : h.scopes[i]? = some scope := there
      have made : i < h.size := (Array.getElem?_eq_some_iff.mp there).1
      rw [root i new made, found] at there
      cases there
      cases bound

/-- In every state of the run of a program on a new root, each scope that the run
    has made leads to a root in no more scopes than the program has bodies nested
    in each other, and one; it meets none of them twice; and looking a name up or
    rebinding it from there takes no more calls. -/
theorem chain_ofStore [Digesting] (s : Store) (p : Program) {m : Machine}
    (steps : Machine.Steps ((Task.program p (ofStore s).root).start (ofStore s).store) m)
    {i : ScopeId} (new : s.heap.size ≤ i) (made : i < m.store.heap.size) :
    ∃ js, m.store.heap.Chain i js ∧ js.Nodup ∧ js.length ≤ p.nesting + 1 ∧ ∀ name,
      m.store.heap.lookupWithin? (p.nesting + 1) i name = some (m.store.heap.lookup? i name) ∧
      ∀ v, m.store.heap.assignWithin? (p.nesting + 1) i name v =
        some (m.store.heap.assign? i name v) := by
  have nested := Machine.nested_of_steps (nested_ofStore s p) steps
  obtain ⟨js, chain, older, -, few⟩ := nested.heap.room i new made
  refine ⟨js, chain, older.imp Nat.ne_of_gt, few, fun name => ⟨?_, fun v => ?_⟩⟩
  · exact chain.lookupWithin?_eq older few
  · exact chain.assignWithin?_eq older few v

/-- A function that is made in a round of a loop in a call, and called in turn:
    its scope lies inside that of the round, of the call, and the root. -/
theorem chain_ofStore_closure :
    let _ : Digesting := ⟨fun _ => 0⟩
    let body : Block := [.bare (.loop (.boolean true) [
      .return (.function ["x"] [.bare (.binary (.identifier "x") .add (.identifier "n"))])])]
    let p : Program := ⟨[
      .define "f" (.function ["n"] body),
      .bare (.call (.call (.identifier "f") [.integer 1]) [.integer 5])]⟩
    let h : Heap := ⟨#[⟨⟨[("f", .function 0 ["n"] body 0)]⟩, none⟩,
      ⟨⟨[("n", .integer 1)]⟩, some 0⟩, ⟨.empty, some 1⟩, ⟨⟨[("x", .integer 5)]⟩, some 2⟩]⟩
    ∃ m, Machine.Steps ((Task.program p (ofStore .empty).root).start (ofStore .empty).store) m ∧
      m.store.heap = h ∧ p.nesting = 3 ∧ ∃ js, h.Chain 3 js ∧ js.Nodup ∧ js.length ≤ 4 ∧ ∀ name,
        h.lookupWithin? 4 3 name = some (h.lookup? 3 name) ∧
        ∀ v, h.assignWithin? 4 3 name v = some (h.assign? 3 name v) := by
  intro _ body p h
  have run : Machine.run 100 ((Task.program p (ofStore .empty).root).start (ofStore .empty).store) =
      some (.value (.integer 6), ⟨h, 2, 0, ""⟩) := by cbv
  obtain ⟨m, steps, halts⟩ := Machine.steps_of_run run
  have heap : m.store.heap = h := by rw [(Machine.halted_cases halts).1]
  have depth : p.nesting = 3 := by decide
  have chain := chain_ofStore .empty p steps (i := 3) (by decide) (by rw [heap]; decide)
  rw [heap, depth] at chain
  exact ⟨m, steps, heap, depth, chain⟩

end Session

end Script
