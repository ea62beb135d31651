/-
  Script/Proofs/Parse/Isolated.lean
  =================================
  **Faults stay in their statements.**

  A semicolon that no block holds separates a program: whatever is wrong before
  it, the parser gets to it without having seen anything behind, and goes on
  there as at the beginning of a program.

  Main statement: `Parsed.ofStream_append`.
-/
import Mathlib
import Script.Proofs.Parse.Surrounded

namespace Script

/-! ### Outside of blocks -/

/-- Whether a fault under a control belongs to a statement of the program itself. -/
def ParseControl.OnTop (control : ParseControl) : Prop :=
  ∃ done, control.enclosing? = some (done, .program)

theorem OperandRule.onTop {f : Precedence} {k : ExprStack} {ts : List Token}
    {p : ParseControl × List Token} (h : OperandRule f k ts p)
    (top : ∃ done, k.enclosing? = some (done, .program))
    (plain : ∀ t ∈ ts, t.kind ≠ .leftBrace) : p.1.OnTop := by
  cases h with
  | function word params brace => exact absurd brace (plain _ (by simp))
  | _ => exact top

/-- Without a brace, no rule leads into a block. -/
theorem Rule.onTop {p q : ParseControl × List Token} (h : Rule p q) (top : p.1.OnTop)
    (plain : ∀ t ∈ p.2, t.kind ≠ .leftBrace) (unread : p.2 ≠ []) : q.1.OnTop := by
  cases h with
  | operand rule => exact rule.onTop top plain
  | begin rule other => exact rule.onTop top plain
  | consequence right brace | loopBody right brace | alternative word brace =>
    exact absurd brace (plain _ (by simp))
  | closeProgram => exact absurd rfl unread
  | closeBlock block right =>
    obtain ⟨done, around⟩ := top
    cases around
    cases block
  | bare last | bareSemicolon semicolon | headed head =>
    obtain ⟨done, around⟩ := top
    cases around
    exact ⟨_, rfl⟩
  | _ => exact top

namespace ParseState

variable {T : Surroundings}

theorem onTop_of_step? {s s' : ParseState} (h : s.step? = some s') (top : s.control.OnTop)
    (plain : ∀ t ∈ s.cursor.rest, t.kind ≠ .leftBrace)
    (unread : s.cursor.rest ≠ [] ∨ ∃ k, s.control = .failed k) : s'.control.OnTop := by
  cases move_of_step? h with
  | rule rule same =>
    refine rule.onTop top plain (unread.resolve_right ?_)
    rintro ⟨k, failed⟩
    obtain ⟨control, c, ds⟩ := s
    cases failed
    cases rule
  | fault control inside read recorded =>
    obtain ⟨done, around⟩ := top
    rw [ParseControl.OnTop, control]
    exact ⟨done, inside.trans around⟩
  | unclosed control block before after recorded =>
    obtain ⟨done, around⟩ := top
    rw [control] at around
    cases around
    cases block
  | resume control inside after behind same =>
    obtain ⟨done, around⟩ := top
    rw [control] at around
    cases inside.symm.trans around
    rcases after with after | ⟨-, block⟩
    · rw [after]
      exact ⟨_, rfl⟩
    · cases block

/-! ### Up to the semicolon -/

/-- The parser comes to the semicolon that ends the part, and is then before
    another statement of the program, also where more is behind. -/
theorem finish_to_semicolon {stream : TokenStream} (more : T.behind = some stream)
    {s : ParseState} (top : s.control.OnTop) (plain : ∀ t ∈ s.cursor.rest, t.kind ≠ .leftBrace)
    (guarded : T.Hidden s.cursor ∨ s.cursor.Spent ∧ s.control.isResting = true) :
    ∃ done c ds, c.Spent ∧ s.finish = finish ⟨.statements done .program, c, ds⟩ ∧
      (s.within T).finish = (within T ⟨.statements done .program, c, ds⟩).finish := by
  induction size : s.size using Nat.strongRecOn generalizing s with
  | ind n ih =>
    subst size
    by_cases arrived : s.cursor.Spent ∧ ∃ done k, s.control = .statements done k
    · obtain ⟨control, c, ds⟩ := s
      obtain ⟨spent, done, k, resting⟩ := arrived
      obtain ⟨done', around⟩ := top
      cases resting
      cases around
      exact ⟨_, _, _, spent, rfl, rfl⟩
    have guarded' : T.Hidden s.cursor ∨ s.cursor.Spent ∧ ∃ k, s.control = .failed k := by
      refine guarded.imp id fun ⟨spent, resting⟩ => ⟨spent, ?_⟩
      cases control : s.control with
      | failed k => exact ⟨k, rfl⟩
      | statements done k => exact absurd ⟨spent, done, k, control⟩ arrived
      | _ =>
        rw [control] at resting
        cases resting
    have unread : s.cursor.rest ≠ [] ∨ ∃ k, s.control = .failed k := by
      refine guarded'.imp (fun hidden ended => ?_) And.right
      rw [Cursor.nothing_of_hidden hidden ended] at more
      cases more
    obtain ⟨s', next⟩ := top.elim fun _ around => step?_of_enclosing around
    obtain ⟨next', guarded''⟩ := within_of_step? guarded' next
    have behind := (move_of_step? next).behind
    obtain ⟨done, c, ds, spent, part, whole⟩ := ih _ (size_lt_of_step next)
      (onTop_of_step? next top plain unread) (fun t ht => plain t (behind.subset ht)) guarded'' rfl
    exact ⟨done, c, ds, spent, (finish_of_step? next).trans part,
      (finish_of_step? next').trans whole⟩

/-! ### From the semicolon on -/

/-- Where the part ends with the program, the whole run is the run on the part. -/
theorem finish_within (nothing : T.behind = none) (s : ParseState) :
    (s.within T).finish = s.finish.within T := by
  fun_induction finish s with
  | case1 s stopped => exact finish_of_stopped (within_of_stopped (.inl (.inl nothing)) stopped)
  | case2 s s' next ih =>
    obtain ⟨next', -⟩ := within_of_step? (T := T) (.inl (.inl nothing)) next
    rw [finish_of_step? next', ih]

/-- What is read from a state on. -/
def parsed (s : ParseState) : Parsed := ⟨s.finish.program, s.finish.diagnostics⟩

/-- At the end of the text, a program is what has been read of it. -/
theorem parsed_ended (done : Block) (last : Token) (stop : Span) (ds : List Diagnostic) :
    parsed ⟨.statements done .program, ⟨last, [], stop⟩, ds⟩ = ⟨⟨done⟩, ds⟩ := by
  have next : step? ⟨.statements done .program, ⟨last, [], stop⟩, ds⟩ =
      some ⟨.closed done .program, ⟨last, [], stop⟩, ds⟩ := rfl
  have stopped : step? ⟨.closed done .program, ⟨last, [], stop⟩, ds⟩ = none := rfl
  rw [parsed, finish_of_step? next, finish_of_stopped stopped]
  rfl

/-- Before a statement, the token read last does not matter. -/
theorem finish_statements {t : Token} {ts : List Token} (done : Block) (k : BlockStack)
    (last last' : Token) (stop : Span) (ds : List Diagnostic) :
    finish ⟨.statements done k, ⟨last, t :: ts, stop⟩, ds⟩ =
      finish ⟨.statements done k, ⟨last', t :: ts, stop⟩, ds⟩ := by
  have same : step? ⟨.statements done k, ⟨last, t :: ts, stop⟩, ds⟩ =
      step? ⟨.statements done k, ⟨last', t :: ts, stop⟩, ds⟩ := rfl
  obtain ⟨s', next⟩ :
      ∃ s', step? ⟨.statements done k, ⟨last, t :: ts, stop⟩, ds⟩ = some s' := ⟨_, rfl⟩
  rw [finish_of_step? next, finish_of_step? (same.symm.trans next)]

theorem parsed_statements (done : Block) (last last' : Token) (ts : List Token) (stop : Span)
    (ds : List Diagnostic) :
    parsed ⟨.statements done .program, ⟨last, ts, stop⟩, ds⟩ =
      parsed ⟨.statements done .program, ⟨last', ts, stop⟩, ds⟩ := by
  cases ts with
  | nil => rw [parsed_ended, parsed_ended]
  | cons t ts => rw [parsed, parsed, finish_statements done .program last last']

/-- Statements that are read behind others are read as by themselves. -/
theorem parsed_behind (done : Block) (last : Token) (back : TokenStream) (ds : List Diagnostic) :
    parsed ⟨.statements done .program, ⟨last, back.tokens, back.stop⟩, ds⟩ =
      ⟨⟨done ++ (Parsed.ofStream back).program.statements⟩,
        ds ++ (Parsed.ofStream back).diagnostics⟩ := by
  let T : Surroundings := ⟨done, ds, none, nofun⟩
  have begins : (start back).within T =
      ⟨.statements done .program, .ofStream back, ds⟩ := by
    simp [start, within, ParseControl.within, BlockStack.join, T,
      Cursor.within_of_nothing (T := T) rfl]
  have closed : (start back).finish.control =
      .closed (Parsed.ofStream back).program.statements .program :=
    (Prod.mk.inj (finish_start back)).1
  rw [parsed_statements done last (.endOfInput back.stop)]
  show parsed ⟨.statements done .program, .ofStream back, ds⟩ = _
  rw [← begins, parsed, finish_within rfl]
  congr 1
  simp only [program, within, closed, ParseControl.within, BlockStack.join, BlockStack.within]
  rfl

end ParseState

/-! ### Programs in two parts -/

/-- A text without an opening brace and a semicolon before another text, which
    does not begin with a semicolon: the statements are those of the first text
    followed by those of the second, and so are the diagnostics, whatever is
    wrong. -/
theorem Parsed.ofStream_append {front back : List Token} {semicolon : Token}
    (plain : ∀ t ∈ front, t.kind ≠ .leftBrace)
    (separates : semicolon.kind = .semicolon) (fresh : nextKind back ≠ .semicolon)
    (stop stop' : Span) :
    Parsed.ofStream ⟨front ++ semicolon :: back, stop⟩ =
      ⟨⟨(Parsed.ofStream ⟨front ++ [semicolon], stop'⟩).program.statements ++
          (Parsed.ofStream ⟨back, stop⟩).program.statements⟩,
        (Parsed.ofStream ⟨front ++ [semicolon], stop'⟩).diagnostics ++
          (Parsed.ofStream ⟨back, stop⟩).diagnostics⟩ := by
  let T : Surroundings := ⟨[], [], some ⟨back, stop⟩, by rintro _ ⟨⟩; exact fresh⟩
  have top : (ParseState.start ⟨front ++ [semicolon], stop'⟩).control.OnTop := ⟨[], rfl⟩
  have braceless : ∀ t ∈ (ParseState.start ⟨front ++ [semicolon], stop'⟩).cursor.rest,
      t.kind ≠ .leftBrace := by
    intro t ht
    rcases List.mem_append.mp ht with ht | ht
    · exact plain t ht
    · rw [List.mem_singleton.mp ht, separates]
      decide
  obtain ⟨done, ⟨last, rest, stop₁⟩, ds, ⟨ended, -⟩, first, whole⟩ :=
    ParseState.finish_to_semicolon (T := T) rfl top braceless
      (.inl (.inr ⟨front, semicolon, rfl, separates⟩))
  dsimp only at ended
  subst ended
  have begins : (ParseState.start ⟨front ++ [semicolon], stop'⟩).within T =
      ⟨.statements [] .program, ⟨.endOfInput stop', front ++ semicolon :: back, stop⟩, []⟩ := by
    simp [ParseState.start, ParseState.within, ParseControl.within, BlockStack.join, T,
      Cursor.within_of_stream (T := T) rfl, Cursor.ofStream]
  have front' : Parsed.ofStream ⟨front ++ [semicolon], stop'⟩ = ⟨⟨done⟩, ds⟩ := by
    rw [← ParseState.parsed_ended done last stop₁ ds, ParseState.parsed, ← first]
    rfl
  have arrives : ParseState.within T ⟨.statements done .program, ⟨last, [], stop₁⟩, ds⟩ =
      ⟨.statements done .program, ⟨last, back, stop⟩, ds⟩ := by
    simp [ParseState.within, ParseControl.within, BlockStack.join, T,
      Cursor.within_of_stream (T := T) rfl]
  rw [front', ← ParseState.parsed_behind done last ⟨back, stop⟩ ds, ← arrives,
    ParseState.parsed, ← whole, begins]
  exact ParseState.parsed_statements [] _ _ _ stop []

/-- A binding that lacks its sign, and a return behind it that does not end well. -/
theorem Parsed.ofStream_append_binding :
    let token (kind : TokenKind) (literal : String) (n : Nat) : Token :=
      ⟨kind, literal, ⟨n, n + 1, 1, n + 1⟩⟩
    let front := [token .letWord "let" 0, token .identifier "x" 4, token .integer "1" 6]
    let semicolon := token .semicolon ";" 7
    let back := [token .returnWord "return" 9, token .identifier "y" 16, token .rightParen ")" 17]
    let stop : Span := ⟨18, 18, 1, 19⟩
    let first := Parsed.ofStream ⟨front ++ [semicolon], stop⟩
    let second := Parsed.ofStream ⟨back, stop⟩
    (∀ t ∈ front, t.kind ≠ .leftBrace) ∧ semicolon.kind = .semicolon ∧
      nextKind back ≠ .semicolon ∧
      first = ⟨⟨[]⟩, [⟨.unexpected .assign .integer, ⟨6, 7, 1, 7⟩⟩]⟩ ∧
      second = ⟨⟨[.return (.identifier "y")]⟩, [⟨.noOperand .rightParen, ⟨17, 18, 1, 18⟩⟩]⟩ ∧
      Parsed.ofStream ⟨front ++ semicolon :: back, stop⟩ =
        ⟨⟨first.program.statements ++ second.program.statements⟩,
          first.diagnostics ++ second.diagnostics⟩ := by
  refine ⟨by decide, rfl, by decide, ?first, ?second, ?whole⟩
  case first => cbv
  case second => cbv
  case whole => exact Parsed.ofStream_append (by decide) rfl (by decide) _ _

end Script
