/-
  Script/Proofs/Session/Transported.lean
  ======================================
  **Sessions carried to another setting.**

  A session may go on in a process in which other sessions were held before: its
  scopes then lie behind theirs, and its function values have higher numbers.
  It answers every line as it would on its own, since no answer shows a scope or
  a number, and goes on to the session carried along.

  Main statements: `Session.eval_transport` and `Session.respond_transport`.
-/
import Script.Repl
import Script.Proofs.Eval.Alone
import Script.Proofs.Session.Run

namespace Script

theorem Outcome.unreturned_transport (T : Transport) (o : Outcome) :
    (o.transport T).unreturned = o.unreturned.transport T := by
  cases o with
  | value v => exact congrArg Outcome.value (v.unreturned_transport T)
  | exit code => rfl

def Answer.transport (T : Transport) (a : Answer) : Answer := ⟨a.outcome.transport T, a.printed⟩

namespace Session

def transport (T : Transport) (s : Session) : Session := ⟨s.store.transport T, T.scope s.root⟩

variable {T : Transport}

/-- A new root lies in no other scope, so it comes behind all scopes in a setting
    without a scope around it. -/
theorem ofStore_transport (bare : T.outer? = none) (s : Store) :
    (ofStore s).transport T = ofStore (s.transport T) := by
  have root : (s.heap.alloc none .empty).transport T = (s.heap.transport T).alloc none .empty := by
    simp [Heap.transport, Heap.alloc, Scope.transport, Table.transport, Table.empty, bare]
  have fresh : T.scope s.heap.size = (s.heap.transport T).size := (s.heap.size_transport T).symm
  simp only [ofStore, transport, Store.alloc, Store.transport, root, fresh]

variable (same : T.name = id) (s : Session)

include same

theorem start_transport (p : Program) :
    (s.transport T).start p = (s.start p).transport T := by
  simp only [start, Task.start, Task.enter, Machine.transport, Control.transport, same,
    Block.rename_id]
  rfl

theorem eval_transport [Digesting] (fuel : Nat) (source : String) :
    (s.transport T).eval fuel source = (s.eval fuel source).map fun (result, s') =>
      (result.map (Answer.transport T), s'.transport T) := by
  cases read : Program.ofString source with
  | error ds =>
    rw [eval, eval, read]
    rfl
  | ok p =>
    have runs := Machine.run_transport (fun m _ => Machine.discreet_of_id same m) fuel
      (m := s.start p)
    rw [eval_eq read, eval_eq read, start_transport same, runs, Option.map_map, Option.map_map]
    refine congrArg (Option.map · _) (funext fun r => ?_)
    simp only [Function.comp_apply, answered, r.1.unreturned_transport T]
    rfl

/-! ### The prompt -/

end Session

def Next.transport (T : Transport) : Next → Next
  | .line s => .line (s.transport T)
  | .done status => .done status

def Exchange.transport (T : Transport) (e : Exchange) : Exchange :=
  ⟨e.written, e.next.transport T⟩

theorem writtenValue_transport {T : Transport} (same : T.name = id) (mark : String) (v : Value) :
    writtenValue mark (v.transport T) = writtenValue mark v := by
  have shown := v.render_transport_of_id same
  cases v <;> simp_all [writtenValue]

namespace Session

variable {T : Transport} (same : T.name = id) (s : Session) (fuel : Nat) (line : String)

include same

theorem answerLine_transport [Digesting] [Escaping] :
    (s.transport T).answerLine fuel line = (s.answerLine fuel line).map (Exchange.transport T) := by
  rw [answerLine, answerLine, eval_transport same, Option.map_map, Option.map_map]
  refine congrArg (Option.map · _) (funext fun r => ?_)
  obtain ⟨ds | ⟨v | code, printed⟩, s'⟩ := r
  · rfl
  · have shown := writtenValue_transport same "=> " v
    exact congrArg (fun w => (⟨.out printed ++ w, .line (s'.transport T)⟩ : Exchange)) shown
  · rfl

/-- A line is answered the same in another setting. -/
theorem respond_transport [Digesting] [Escaping] (bare : T.outer? = none) :
    (s.transport T).respond fuel line = (s.respond fuel line).map (Exchange.transport T) := by
  unfold respond
  split
  · rfl
  · rfl
  · rfl
  · rfl
  · have root := (ofStore_transport bare s.store).symm
    exact congrArg (fun s' => some (⟨.out "Environment cleared.\n", .line s'⟩ : Exchange)) root
  · exact s.answerLine_transport same fuel _

end Session

end Script
