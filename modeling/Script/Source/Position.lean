/-
  Script/Source/Position.lean
  ===========================
  **Places in a source text.**

  A position is reached by reading characters from the start of the text: it
  counts the bytes read, the line breaks read, and the characters read since
  the last line break.  Nothing but the characters read decides it.
-/
namespace Script

/-- A place in a text: bytes before it, and its line and column, counted from
    one.  Columns count characters. -/
structure Position where
  offset : Nat
  line : Nat
  column : Nat
deriving DecidableEq, Repr, Inhabited

def Position.start : Position := ⟨0, 1, 1⟩

/-- The position behind one character; only a line feed begins a new line. -/
def Position.after (p : Position) (c : Char) : Position :=
  if c = '\n' then ⟨p.offset + c.utf8Size, p.line + 1, 1⟩
  else ⟨p.offset + c.utf8Size, p.line, p.column + 1⟩

/-- The position behind a run of characters. -/
def Position.afterAll (p : Position) (cs : List Char) : Position :=
  cs.foldl Position.after p

@[simp] theorem Position.afterAll_nil (p : Position) : p.afterAll [] = p := rfl

@[simp] theorem Position.afterAll_cons (p : Position) (c : Char) (cs : List Char) :
    p.afterAll (c :: cs) = (p.after c).afterAll cs := rfl

theorem Position.afterAll_append (p : Position) (xs ys : List Char) :
    p.afterAll (xs ++ ys) = (p.afterAll xs).afterAll ys := by
  simp [Position.afterAll, List.foldl_append]

end Script
