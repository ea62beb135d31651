/-
  Script/Proofs/Eval/Alone.lean
  =============================
  **A program on its own.**

  On a new root scope a program sees nothing of what was there before.  So its
  run there is the run in which the root is the only scope, carried to a setting
  behind the scopes of the store.  Two runs that are carried from this one can
  be compared.

  Main statements: `Program.transport_alone` and `Session.runProgram_ofStore`.
-/
import Script.Proofs.Eval.Depth
import Script.Proofs.Eval.Transported

namespace Script

/-- The setting behind the scopes of a heap, inside one that sees no name. -/
def Transport.behind (below : Heap) (outer? : Option ScopeId) (functions : Nat)
    (bare : ∀ i name, outer? = some i → below.owner? i name = none)
    (older : ∀ i, outer? = some i → i < below.size) : Transport where
  name := id
  below := below
  outer? := outer?
  functions := functions
  injective := Function.injective_id
  builtin _ := rfl
  bare := bare
  older := older

/-- The program at its start, in a root scope that is the only scope. -/
def Program.alone (p : Program) (depth : Nat) : Machine :=
  ⟨.exec p.statements Session.new.root, [], Session.new.store.atDepth depth⟩

/-- In another setting, the root scope is a new one inside the scope around it. -/
theorem Program.transport_alone (T : Transport) (p : Program) (depth : Nat) :
    (p.alone depth).transport T =
      ⟨.exec (Block.rename T.name p.statements) T.below.size, [],
        ⟨T.below.alloc T.outer? .empty, T.functions, depth, ""⟩⟩ := by
  have root : (Heap.empty.alloc none .empty).transport T = T.below.alloc T.outer? .empty := by
    simp [Heap.empty, Heap.alloc, Heap.transport, Scope.transport, Table.transport, Table.empty]
  have store : (p.alone depth).store.transport T =
      ⟨T.below.alloc T.outer? .empty, T.functions, depth, ""⟩ := by
    rw [← root]
    rfl
  simp only [Machine.transport, store]
  rfl

theorem Program.transport_alone_of_id {T : Transport} (same : T.name = id) (p : Program)
    (depth : Nat) : (p.alone depth).transport T =
      ⟨.exec p.statements T.below.size, [],
        ⟨T.below.alloc T.outer? .empty, T.functions, depth, ""⟩⟩ := by
  rw [p.transport_alone, same, Block.rename_id]

namespace Session

/-- Running a program on a new root scope of a store is one run of the machine. -/
theorem runProgram_ofStore [Digesting] (fuel : Nat) (p : Program) (s : Store) :
    (ofStore s).runProgram fuel p =
      (Machine.run fuel ⟨.exec p.statements s.heap.size, [],
        ⟨s.heap.alloc none .empty, s.functions, s.depth, ""⟩⟩).map fun (o, s') =>
          (⟨o.unreturned, s'.output⟩, ⟨{ s' with output := "" }, s.heap.size⟩) := by
  simp only [runProgram, Store.runProgram, Store.perform, Option.map_map]
  rfl

end Session

end Script
