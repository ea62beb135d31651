/-
  Script/Proofs/Parse/Body.lean
  =============================
  **Faults stay in their function.**

  Whatever is wrong between the braces of a function that a binding names, the
  binding is read, with the statements that could be read of the body as if it
  were a program, and so is what follows it.

  Main statement: `Parsed.ofStream_binding`.
-/
import Script.Proofs.Parse.Enclosed

namespace Script

namespace ParseState

/-- A block without inner braces is read as a program, and closed at its brace. -/
theorem finish_braceless {bad : List Token} {brace : Token} (behind : List Token)
    (plain : ∀ t ∈ bad, t.kind ≠ .leftBrace ∧ t.kind ≠ .rightBrace ∧ t.kind ≠ .endOfInput)
    {k : BlockStack} (block : k.isBlock = true) (closes : brace.kind = .rightBrace)
    (last : Token) (stop stop' : Span) (ds : List Diagnostic) :
    ∃ ds', ds'.length = ds.length + (Parsed.ofStream ⟨bad, stop'⟩).diagnostics.length ∧
      finish ⟨.statements [] k, ⟨last, bad ++ brace :: behind, stop⟩, ds⟩ =
        finish ⟨.closed (Parsed.ofStream ⟨bad, stop'⟩).program.statements k,
          ⟨brace, behind, stop⟩, ds'⟩ := by
  let E : Enclosure := ⟨k, brace, behind, stop, block, closes⟩
  have inside : Enclosed E ds.length
      ⟨.statements [] k, ⟨.endOfInput stop', bad ++ brace :: behind, stop⟩, ds⟩
      (start ⟨bad, stop'⟩) :=
    ⟨rfl, rfl, ⟨⟨nofun, nofun⟩, plain⟩, .inl rfl, rfl⟩
  obtain ⟨ds', count, ends⟩ := finish_inside inside
  refine ⟨ds', count, .trans ?_ ends⟩
  cases bad <;> exact finish_statements [] k _ _ stop ds

/-- From the word that begins a binding of a function to the body. -/
theorem finish_to_body {w name sign word left param right opens : Token}
    (head : [w, name, sign, word, left, param, right, opens].map Token.kind =
      [.letWord, .identifier, .assign, .functionWord, .leftParen, .identifier, .rightParen,
        .leftBrace])
    (last : Token) (ts : List Token) (stop : Span) (ds : List Diagnostic) :
    finish ⟨.statements [] .program,
        ⟨last, [w, name, sign, word, left, param, right, opens] ++ ts, stop⟩, ds⟩ =
      finish ⟨.statements [] (.functionBody [param.literal] .lowest
        (.statement (.define name.literal) [] .program)), ⟨opens, ts, stop⟩, ds⟩ := by
  simp only [List.map_cons, List.map_nil, List.cons.injEq, and_true] at head
  obtain ⟨hw, hname, hsign, hword, hleft, hparam, hright, hopens⟩ := head
  have params : parameterList ⟨word, left :: param :: right :: opens :: ts, stop⟩ =
      .ok ([param.literal], ⟨right, opens :: ts, stop⟩) := by
    have one : NameList [param.literal] [param] := .one hparam
    have read := parameters_of_nameList one hright (opens :: ts) stop [] left
    simpa [parameterList, Cursor.expect_cons hleft, hparam] using read
  have binds : step? ⟨.statements [] .program,
      ⟨last, [w, name, sign, word, left, param, right, opens] ++ ts, stop⟩, ds⟩ =
      some ⟨.operand .lowest (.statement (.define name.literal) [] .program),
        ⟨sign, word :: left :: param :: right :: opens :: ts, stop⟩, ds⟩ := by
    simp [step?, nextStatement, beginStatement, require, goto, hw, Cursor.expect_cons hname,
      Cursor.expect_cons hsign]
  have begins : step? ⟨.operand .lowest (.statement (.define name.literal) [] .program),
      ⟨sign, word :: left :: param :: right :: opens :: ts, stop⟩, ds⟩ =
      some ⟨.statements [] (.functionBody [param.literal] .lowest
        (.statement (.define name.literal) [] .program)), ⟨opens, ts, stop⟩, ds⟩ := by
    simp [step?, readOperand, require, goto, hword, params, Cursor.expect_cons hopens]
  rw [finish_of_step? binds, finish_of_step? begins]

/-- From the closing brace of the body to the statement behind the binding. -/
theorem finish_from_body {semicolon : Token} {rest : List Token}
    (separates : semicolon.kind = .semicolon) (fresh : nextKind rest ≠ .semicolon)
    (ps : List String) (body : Block) (name : String) (last : Token) (stop : Span)
    (ds : List Diagnostic) :
    finish ⟨.closed body (.functionBody ps .lowest (.statement (.define name) [] .program)),
        ⟨last, semicolon :: rest, stop⟩, ds⟩ =
      finish ⟨.statements [.define name (.function ps body)] .program,
        ⟨semicolon, rest, stop⟩, ds⟩ := by
  let k : ExprStack := .statement (.define name) [] .program
  have literal : step? ⟨.closed body (.functionBody ps .lowest k),
      ⟨last, semicolon :: rest, stop⟩, ds⟩ =
      some ⟨.extend .lowest (.function ps body) k, ⟨last, semicolon :: rest, stop⟩, ds⟩ := rfl
  have ended : step? ⟨.extend .lowest (.function ps body) k,
      ⟨last, semicolon :: rest, stop⟩, ds⟩ =
      some ⟨.whole (.function ps body) k, ⟨last, semicolon :: rest, stop⟩, ds⟩ := by
    simp [step?, extendBy, goto, separates, TokenKind.extension?]
  have skipped : (⟨last, semicolon :: rest, stop⟩ : Cursor).skipSemicolons =
      ⟨semicolon, rest, stop⟩ := by
    have next : (⟨last, semicolon :: rest, stop⟩ : Cursor).peek.kind = .semicolon := separates
    rw [Cursor.skipSemicolons_of_semicolon next, Cursor.read_cons,
      Cursor.skipSemicolons_of_other (by rwa [Cursor.peek_kind])]
  have bound : step? ⟨.whole (.function ps body) k, ⟨last, semicolon :: rest, stop⟩, ds⟩ =
      some ⟨.statements [.define name (.function ps body)] .program,
        ⟨semicolon, rest, stop⟩, ds⟩ := by
    simp [step?, deliver, goto, k, skipped, StmtHead.complete]
  rw [finish_of_step? literal, finish_of_step? ended, finish_of_step? bound]

end ParseState

/-- **Errors in the body of a function stay there.**  If the body has no braces,
    and no semicolon follows the one behind it, then its statements are those of
    the body by itself, whatever is wrong there; the statements behind are those
    of the rest by itself, and no diagnostic comes from both or from neither. -/
theorem Parsed.ofStream_binding {w name sign word left param right opens closes semicolon : Token}
    (head : [w, name, sign, word, left, param, right, opens].map Token.kind =
      [.letWord, .identifier, .assign, .functionWord, .leftParen, .identifier, .rightParen,
        .leftBrace])
    (ends : closes.kind = .rightBrace) (separates : semicolon.kind = .semicolon)
    {body rest : List Token}
    (plain : ∀ t ∈ body, t.kind ≠ .leftBrace ∧ t.kind ≠ .rightBrace ∧ t.kind ≠ .endOfInput)
    (fresh : nextKind rest ≠ .semicolon) (stop stop' : Span) :
    let whole := Parsed.ofStream ⟨[w, name, sign, word, left, param, right, opens] ++
      (body ++ closes :: semicolon :: rest), stop⟩
    let inner := Parsed.ofStream ⟨body, stop'⟩
    let others := Parsed.ofStream ⟨rest, stop⟩
    whole.program.statements =
        .define name.literal (.function [param.literal] inner.program.statements) ::
          others.program.statements ∧
      whole.diagnostics.length = inner.diagnostics.length + others.diagnostics.length := by
  intro whole inner others
  let k : BlockStack :=
    .functionBody [param.literal] .lowest (.statement (.define name.literal) [] .program)
  obtain ⟨ds, count, closed⟩ := ParseState.finish_braceless (k := k) (semicolon :: rest) plain
    rfl ends opens stop stop' []
  have read : whole =
      ⟨⟨.define name.literal (.function [param.literal] inner.program.statements) ::
        others.program.statements⟩, ds ++ others.diagnostics⟩ := by
    have behind := ParseState.parsed_behind
      [.define name.literal (.function [param.literal] inner.program.statements)] semicolon
      ⟨rest, stop⟩ ds
    rw [ParseState.parsed, ← ParseState.finish_from_body separates fresh _ _ _ closes, ← closed,
      ← ParseState.finish_to_body head (.endOfInput stop)] at behind
    exact behind
  constructor
  · rw [read]
  · rw [read, List.length_append, count, List.length_nil, Nat.zero_add]

/-- A body with two faults, the second of them at its brace, and one behind it. -/
theorem Parsed.ofStream_binding_faults :
    let token (kind : TokenKind) (literal : String) : Token := ⟨kind, literal, ⟨0, 1, 1, 1⟩⟩
    let head := [token .letWord "let", token .identifier "f", token .assign "=",
      token .functionWord "fn", token .leftParen "(", token .identifier "x",
      token .rightParen ")", token .leftBrace "\x7b"]
    let closes := token .rightBrace "\x7d"
    let semicolon := token .semicolon ";"
    let body := [token .letWord "let", token .integer "1", semicolon, token .identifier "x",
      semicolon, token .identifier "x", token .plus "+"]
    let rest := [token .identifier "y", semicolon, token .comma ","]
    let stop : Span := ⟨1, 1, 1, 2⟩
    let inner := Parsed.ofStream ⟨body, stop⟩
    let others := Parsed.ofStream ⟨rest, stop⟩
    inner.program = ⟨[.bare (.identifier "x")]⟩ ∧ inner.diagnostics.length = 2 ∧
      others.program = ⟨[.bare (.identifier "y")]⟩ ∧ others.diagnostics.length = 1 ∧
      let whole := Parsed.ofStream ⟨head ++ (body ++ closes :: semicolon :: rest), stop⟩
      whole.program.statements =
          .define "f" (.function ["x"] inner.program.statements) :: others.program.statements ∧
        whole.diagnostics.length = inner.diagnostics.length + others.diagnostics.length := by
  refine ⟨?body, ?bodyFaults, ?rest, ?restFaults, ?whole⟩
  case body => cbv
  case bodyFaults => cbv
  case rest => cbv
  case restFaults => cbv
  case whole => exact Parsed.ofStream_binding rfl rfl rfl (by decide) (by decide) _ _

end Script
