/-
  Script/Proofs/Expr/Renamed.lean
  ===============================
  **Programs under other names.**

  A renaming changes the names that a tree binds, rebinds and mentions, the
  parameters of its function literals included, and nothing else.
-/
import Script.Expr

namespace Script

mutual

/-- An expression with another name for each of its names. -/
@[simp] def Expr.rename (r : String → String) : Expr → Expr
  | .identifier name => .identifier (r name)
  | .integer value => .integer value
  | .string text => .string text
  | .boolean value => .boolean value
  | .unary op e => .unary op (e.rename r)
  | .binary left op right => .binary (left.rename r) op (right.rename r)
  | .conditional c b a => .conditional (c.rename r) (Block.rename r b) (Block.renameElse r a)
  | .loop c b => .loop (c.rename r) (Block.rename r b)
  | .function ps b => .function (ps.map r) (Block.rename r b)
  | .call f args => .call (f.rename r) (Expr.renameEach r args)
  | .array es => .array (Expr.renameEach r es)
  | .table ps => .table (Expr.renamePairs r ps)
  | .index c i => .index (c.rename r) (i.rename r)

@[simp] def Stmt.rename (r : String → String) : Stmt → Stmt
  | .define name e => .define (r name) (e.rename r)
  | .assign name e => .assign (r name) (e.rename r)
  | .return e => .return (e.rename r)
  | .bare e => .bare (e.rename r)
  | .block b => .block (Block.rename r b)

@[simp] def Block.rename (r : String → String) : List Stmt → List Stmt
  | [] => []
  | s :: ss => s.rename r :: Block.rename r ss

@[simp] def Block.renameElse (r : String → String) : Option (List Stmt) → Option (List Stmt)
  | none => none
  | some b => some (Block.rename r b)

@[simp] def Expr.renameEach (r : String → String) : List Expr → List Expr
  | [] => []
  | e :: es => e.rename r :: Expr.renameEach r es

@[simp] def Expr.renamePairs (r : String → String) : List (Expr × Expr) → List (Expr × Expr)
  | [] => []
  | (key, value) :: ps => (key.rename r, value.rename r) :: Expr.renamePairs r ps

end

def Program.rename (r : String → String) (p : Program) : Program := ⟨Block.rename r p.statements⟩

mutual

theorem Expr.rename_id : ∀ e : Expr, e.rename id = e
  | .identifier _ | .integer _ | .string _ | .boolean _ => rfl
  | .unary _ e => by simp [e.rename_id]
  | .binary l _ r => by simp [l.rename_id, r.rename_id]
  | .conditional c b a => by simp [c.rename_id, Block.rename_id b, Block.renameElse_id a]
  | .loop c b => by simp [c.rename_id, Block.rename_id b]
  | .function _ b => by simp [Block.rename_id b]
  | .call f args => by simp [f.rename_id, Expr.renameEach_id args]
  | .array es => by simp [Expr.renameEach_id es]
  | .table ps => by simp [Expr.renamePairs_id ps]
  | .index c i => by simp [c.rename_id, i.rename_id]
termination_by structural e => e

theorem Stmt.rename_id : ∀ s : Stmt, s.rename id = s
  | .define _ e | .assign _ e | .return e | .bare e => by simp [e.rename_id]
  | .block b => by simp [Block.rename_id b]
termination_by structural s => s

theorem Block.rename_id : ∀ b : List Stmt, Block.rename id b = b
  | [] => rfl
  | s :: ss => by simp [s.rename_id, Block.rename_id ss]
termination_by structural b => b

theorem Block.renameElse_id : ∀ a : Option (List Stmt), Block.renameElse id a = a
  | none => rfl
  | some b => by simp [Block.rename_id b]
termination_by structural a => a

theorem Expr.renameEach_id : ∀ es : List Expr, Expr.renameEach id es = es
  | [] => rfl
  | e :: es => by simp [e.rename_id, Expr.renameEach_id es]
termination_by structural es => es

theorem Expr.renamePairs_id : ∀ ps : List (Expr × Expr), Expr.renamePairs id ps = ps
  | [] => rfl
  | (key, value) :: ps => by simp [key.rename_id, value.rename_id, Expr.renamePairs_id ps]
termination_by structural ps => ps

end

end Script
