/-
  Script/Parse/Cursor.lean
  ========================
  **A place between two tokens.**

  The parser decides by the next token and, when it recovers from a fault, by
  the token it read last.  A cursor holds that token and the tokens still
  unread; behind the last of them it sees the end token.

  Main statements: reading, requiring a token and resuming after a fault never
  lengthen what is unread (`Cursor.read_length_le`, `Cursor.resume_length_le`),
  and a token that was required and found shortens it
  (`Cursor.expect_length_lt`).
-/
import Script.Diagnostic
import Script.Token.Scan

namespace Script

/-- The token read last, the tokens unread, and the span of the end. -/
structure Cursor where
  last : Token
  rest : List Token
  stop : Span
deriving DecidableEq, Repr, Inhabited

/-- A cursor in front of a stream, where nothing has been read. -/
def Cursor.ofStream (s : TokenStream) : Cursor := ⟨.endOfInput s.stop, s.tokens, s.stop⟩

def Cursor.peek (c : Cursor) : Token := c.rest.headD (.endOfInput c.stop)

def Cursor.read (c : Cursor) : Cursor := { c with last := c.peek, rest := c.rest.tail }

/-- Put the token read last back, unless it is the end token. -/
def Cursor.unread (c : Cursor) : Cursor :=
  if c.last.kind = .endOfInput then c else { c with rest := c.last :: c.rest }

/-- Read a token of the given kind.  Any other token stays unread and is the
    place of a diagnostic. -/
def Cursor.expect (kind : TokenKind) (c : Cursor) : Except Diagnostic Cursor :=
  if c.peek.kind = kind then .ok c.read
  else .error ⟨.unexpected kind c.peek.kind, c.peek.span⟩

/-- Read every semicolon that follows. -/
def Cursor.skipSemicolons (c : Cursor) : Cursor :=
  match _h : c.rest with
  | [] => c
  | t :: _ => if t.kind = .semicolon then c.read.skipSemicolons else c
termination_by c.rest.length
decreasing_by simp_all [Cursor.read]

/-- After a fault, read up to a place where a statement can begin: behind a
    semicolon or closing brace that was read last, or before a closing brace or
    the end of the text. -/
def Cursor.resume (c : Cursor) : Cursor :=
  match _h : c.rest with
  | [] => c
  | t :: _ =>
    if c.last.kind = .semicolon ∨ c.last.kind = .rightBrace ∨ t.kind = .rightBrace then c
    else c.read.resume
termination_by c.rest.length
decreasing_by simp_all [Cursor.read]

/-! ### Token by token -/

theorem Cursor.skipSemicolons_of_semicolon {c : Cursor} (next : c.peek.kind = .semicolon) :
    c.skipSemicolons = c.read.skipSemicolons := by
  obtain ⟨last, _ | ⟨t, ts⟩, stop⟩ := c
  · cases next
  · rw [skipSemicolons]
    exact if_pos next

theorem Cursor.skipSemicolons_of_other {c : Cursor} (next : c.peek.kind ≠ .semicolon) :
    c.skipSemicolons = c := by
  obtain ⟨last, _ | ⟨t, ts⟩, stop⟩ := c
  · rw [skipSemicolons]
  · rw [skipSemicolons]
    exact if_neg next

theorem Cursor.resume_of_ended {c : Cursor} (ended : c.rest = []) : c.resume = c := by
  obtain ⟨last, _ | ⟨t, ts⟩, stop⟩ := c
  · rw [resume]
  · cases ended

theorem Cursor.resume_of_stop {c : Cursor} (stops : c.last.kind = .semicolon ∨
    c.last.kind = .rightBrace ∨ c.peek.kind = .rightBrace) : c.resume = c := by
  obtain ⟨last, _ | ⟨t, ts⟩, stop⟩ := c
  · rw [resume]
  · rw [resume]
    exact if_pos stops

theorem Cursor.resume_of_going {c : Cursor} (unread : c.rest ≠ [])
    (going : ¬(c.last.kind = .semicolon ∨ c.last.kind = .rightBrace ∨
      c.peek.kind = .rightBrace)) : c.resume = c.read.resume := by
  obtain ⟨last, _ | ⟨t, ts⟩, stop⟩ := c
  · exact absurd rfl unread
  · rw [resume]
    exact if_neg going

/-! ### How much is left -/

@[simp] theorem Cursor.read_rest (c : Cursor) : c.read.rest = c.rest.tail := rfl

@[simp] theorem Cursor.read_last (c : Cursor) : c.read.last = c.peek := rfl

theorem Cursor.read_length_le (c : Cursor) : c.read.rest.length ≤ c.rest.length := by
  simp

theorem Cursor.read_length_lt {c : Cursor} (h : c.peek.kind ≠ .endOfInput) :
    c.read.rest.length < c.rest.length := by
  rcases c with ⟨last, _ | ⟨t, ts⟩, stop⟩
  · exact absurd rfl h
  · simp [Cursor.read]

theorem Cursor.read_length_lt_of_unread {c : Cursor} (unread : c.rest ≠ []) :
    c.read.rest.length < c.rest.length := by
  obtain ⟨last, _ | ⟨t, ts⟩, stop⟩ := c
  · exact absurd rfl unread
  · exact Nat.lt_succ_self _

theorem Cursor.expect_eq_read {kind : TokenKind} {c c' : Cursor} (h : c.expect kind = .ok c') :
    c' = c.read ∧ c.peek.kind = kind := by
  unfold Cursor.expect at h
  split at h
  · cases h; exact ⟨rfl, by assumption⟩
  · cases h

theorem Cursor.expect_length_lt {kind : TokenKind} {c c' : Cursor}
    (h : c.expect kind = .ok c') (ne : kind ≠ .endOfInput) :
    c'.rest.length < c.rest.length := by
  obtain ⟨rfl, hk⟩ := Cursor.expect_eq_read h
  exact Cursor.read_length_lt (hk ▸ ne)

theorem Cursor.skipSemicolons_length_le (c : Cursor) :
    c.skipSemicolons.rest.length ≤ c.rest.length := by
  fun_induction Cursor.skipSemicolons c with
  | case1 => exact Nat.le_refl _
  | case2 c t ts h hk ih => exact Nat.le_trans ih c.read_length_le
  | case3 => exact Nat.le_refl _

theorem Cursor.resume_length_le (c : Cursor) : c.resume.rest.length ≤ c.rest.length := by
  fun_induction Cursor.resume c with
  | case1 => exact Nat.le_refl _
  | case2 => exact Nat.le_refl _
  | case3 c t ts h hk ih => exact Nat.le_trans ih c.read_length_le

end Script
