/-
  Script/Proofs/Parse/Marks.lean
  ==============================
  **Parsing loses no token, adds none and moves none.**

  Between two steps, the marks of what the parser has read stand on its stack
  and in its control; with those of the tokens unread they are the marks of the
  text.  Every rule keeps them, but for the one that reads a comma before a
  closing brace and then wants an operand: no rule leads on from there.

  Main statements: what a rule keeps (`Rule.total`), what a run keeps
  (`Reads.total`), and that a text and the text of its program agree token by
  token (`Program.agrees_of_ofString`).
-/
import Mathlib
import Script.Proofs.Expr.Marks
import Script.Proofs.Parse.Printable

namespace Script

/-! ### What has been read -/

/-- The marks of the beginning of a statement. -/
@[simp] def StmtHead.marks : StmtHead → List Mark
  | .define name => [.kind .letWord, .text .identifier name, .kind .assign]
  | .assign name => [.text .identifier name, .kind .assign]
  | .return => [.kind .returnWord]
  | .bare => []

mutual

/-- The marks of what has been read of the constructs on a stack. -/
@[simp] def ExprStack.marks : ExprStack → List Mark
  | .alone => []
  | .operand op _ k => k.marks ++ [.kind op.kind]
  | .right l op _ k => k.marks ++ (l.marks ++ [.kind op.kind])
  | .group _ k => k.marks
  | .argument f done _ k => k.marks ++ (f.marks ++ terminated (Expr.marksEach done))
  | .item done _ k => k.marks ++ .kind .leftBracket :: terminated (Expr.marksEach done)
  | .subscript c _ k => k.marks ++ (c.marks ++ [.kind .leftBracket])
  | .key done _ k => k.marks ++ .kind .leftBrace :: terminated (Expr.marksPairs done)
  | .value done key _ k =>
    k.marks ++ .kind .leftBrace :: (terminated (Expr.marksPairs done) ++
      (key.marks ++ [.kind .colon]))
  | .ifCondition _ k => k.marks ++ [.kind .ifWord]
  | .whileCondition _ k => k.marks ++ [.kind .whileWord]
  | .statement head done k => k.marks ++ (Block.marks done ++ head.marks)

@[simp] def BlockStack.marks : BlockStack → List Mark
  | .program => []
  | .consequence c _ k => k.marks ++ .kind .ifWord :: (c.marks ++ [.kind .leftBrace])
  | .alternative c b _ k =>
    k.marks ++ .kind .ifWord :: (c.marks ++ (braced (Block.marks b) ++
      [.kind .elseWord, .kind .leftBrace]))
  | .loopBody c _ k => k.marks ++ .kind .whileWord :: (c.marks ++ [.kind .leftBrace])
  | .functionBody ps _ k =>
    k.marks ++ .kind .functionWord :: (separated (nameMarks ps) ++ [.kind .leftBrace])

end

/-- The marks of what has been read at a control.  The brace that closes a block
    has been read when the block is handed over. -/
@[simp] def ParseControl.marks : ParseControl → List Mark
  | .operand _ k | .failed k => k.marks
  | .extend _ e k | .whole e k => k.marks ++ e.marks
  | .statements b k => k.marks ++ Block.marks b
  | .closed b k => k.marks ++ (Block.marks b ++ if k.isBlock then [.kind .rightBrace] else [])

/-- The marks of what has been read and of what is still to come. -/
@[simp] def total (p : ParseControl × List Token) : List Mark := p.1.marks ++ marks p.2

theorem StmtHead.marks_complete (head : StmtHead) (e : Expr) :
    (head.complete e).marks = head.marks ++ e.marks := by
  cases head <;> rfl

/-! ### The rules keep the marks -/

/-- An operand is due where a brace closes. -/
def Stuck (p : ParseControl × List Token) : Prop :=
  (∃ f k, p.1 = .operand f k) ∧ nextKind p.2 = .rightBrace

theorem Stuck.not_rule {p q : ParseControl × List Token} (stuck : Stuck p) : ¬ Rule p q := by
  obtain ⟨control, ts⟩ := p
  obtain ⟨⟨f, k, rfl⟩, brace⟩ := stuck
  intro h
  cases h with
  | operand rule =>
    cases ts with
    | nil => cases brace
    | cons t ts =>
      have first := rule.beginsOperand
      rw [nextKind_cons] at brace
      rw [brace] at first
      cases first

theorem Token.marks_of_atom? {t : Token} {e : Expr} (h : t.atom? = some e) (ts : List Token) :
    Script.marks (t :: ts) = e.marks ++ Script.marks ts := by
  obtain ⟨kind, literal, span⟩ := t
  cases kind <;> simp only [Token.atom?, Option.some.injEq, reduceCtorEq] at h
  case integer =>
    obtain ⟨n, denotes, rfl⟩ := Option.map_eq_some_iff.mp h
    have value := (integerOfLiteral?_eq_some denotes).2
    simp [Script.marks, significant, Token.counts, Token.mark, value]
  all_goals subst h; rfl

theorem NameList.marks {ps : List String} {ts : List Token} (h : NameList ps ts)
    (rest : List Token) :
    Script.marks (ts ++ rest) = separated (nameMarks ps) ++ Script.marks rest := by
  induction h with
  | one name => simp [marks_identifier name, nameMarks, separated]
  | @more t comma names ts name isComma others ih =>
    have inside : nextKind (ts ++ rest) ≠ .rightBrace := by
      cases others <;> simp_all
    have first : nameMarks names ≠ [] := by
      cases others <;> simp [nameMarks]
    have shape : separated (nameMarks (t.literal :: names))
        = .text .identifier t.literal :: .kind .comma :: separated (nameMarks names) := by
      simp only [nameMarks, List.map_cons, separated] at first ⊢
      rw [List.intercalate_cons_of_ne_nil first]
      rfl
    rw [List.cons_append, List.cons_append, marks_identifier name, marks_comma isComma inside, ih,
      shape]
    rfl

theorem ParameterList.marks {ps : List String} {ts : List Token} (h : ParameterList ps ts)
    (rest : List Token) :
    Script.marks (ts ++ rest) = separated (nameMarks ps) ++ Script.marks rest := by
  cases h with
  | empty left right =>
    rw [List.cons_append, marks_silent (by rw [left]; rfl)]
    exact marks_silent (by rw [right]; rfl) rest
  | @names l r _ ts left names right =>
    rw [List.cons_append, List.append_assoc, marks_silent (by rw [left]; rfl), names.marks]
    exact congrArg _ (marks_silent (by rw [right]; rfl) rest)

theorem OperandRule.total {f : Precedence} {k : ExprStack} {ts : List Token}
    {p : ParseControl × List Token} (h : OperandRule f k ts p) :
    k.marks ++ marks ts = Script.total p := by
  cases h with
  | atom token => simp [Token.marks_of_atom? token]
  | @unary t op ts sign =>
    have kind := TokenKind.eq_of_unary? sign
    have plain : t.kind.plain = true := by rw [kind]; cases op <;> rfl
    simp [marks_plain plain, kind]
  | group left =>
    simp [marks_silent, left]
  | function word params brace =>
    simp [marks_plain, word, params.marks, brace]
  | emptyArray left right | emptyTable left right | conditional left right | loop left right =>
    simp [marks_plain, marks_silent, left, right]
  | array left | table left =>
    simp [marks_plain, left]

theorem Rule.total {p q : ParseControl × List Token} (h : Rule p q) (going : ¬ Stuck q) :
    Script.total p = Script.total q := by
  cases h with
  | operand rule => exact rule.total
  | begin rule other =>
    rw [← rule.total]
    simp
  | @operator t op f e k ts sign tight =>
    have kind := TokenKind.eq_of_operator sign
    have plain : t.kind.plain = true := by rw [kind]; cases op <;> rfl
    simp [marks_plain plain, kind]
  -- a comma counts if the run goes on behind it
  | @nextArgument t e c done f k ts comma | @nextItem t e done f k ts comma =>
    have inside : nextKind ts ≠ .rightBrace := fun brace => going ⟨⟨_, _, rfl⟩, brace⟩
    simp [marks_comma comma inside]
  | nextKey comma filled =>
    simp [marks_comma comma filled]
  | @closeTableComma t r e done key f k ts comma right =>
    have last : nextKind (r :: ts) = .rightBrace := right
    simp [marks_lastComma comma last, marks_plain, right]
  | headed headed =>
    simp [StmtHead.marks_complete, marks_dropWhile_semicolon]
  | define word name sign =>
    simp [marks_plain, word, sign, marks_identifier name]
  | assign name sign =>
    simp [marks_plain, sign, marks_identifier name]
  | _ =>
    simp_all [BlockStack.isBlock, marks_plain, marks_silent]

/-- A run by rules keeps the marks, if something is left to do at its end. -/
theorem Reads.total {p q : ParseControl × List Token} (h : Reads p q) (going : ¬ Stuck q) :
    Script.total p = Script.total q := by
  induction h using Relation.ReflTransGen.head_induction_on with
  | refl => rfl
  | @head p r rule rest ih =>
    -- a stuck point has no next one, so none is on the way
    have onward : ¬ Stuck r := by
      intro stuck
      rcases rest.cases_head with same | ⟨r', rule', _⟩
      · exact going (same ▸ stuck)
      · exact stuck.not_rule rule'
    exact (rule.total onward).trans ih

/-! ### Texts and their programs -/

theorem Parsed.eq_of_ofString {source : String} {p : Program}
    (h : Program.ofString source = .ok p) : Parsed.ofString source = ⟨p, []⟩ := by
  rw [Program.ofString, Parsed.toExcept] at h
  split at h
  · rename_i accepted
    have clean := List.isEmpty_iff.mp accepted
    have program := Except.ok.inj h
    rw [← program, ← clean]
  · cases h

/-- The program that a text denotes has the marks of the text. -/
theorem Program.marks_of_ofString {source : String} {p : Program}
    (h : Parsed.ofString source = ⟨p, []⟩) :
    marks (TokenStream.ofString source).tokens = Block.marks p.statements := by
  let s := ParseState.start (.ofString source)
  have accepted : s.finish.diagnostics = [] := congrArg Parsed.diagnostics h
  have program : (Parsed.ofString source).program = p := congrArg Parsed.program h
  have done : s.finish.point = (.closed p.statements .program, []) := by
    rw [← program]
    exact ParseState.finish_start _
  have reads := s.reads_of_accepted (fun k => by simp [s, ParseState.start]) accepted
  have going : ¬ Stuck s.finish.point := by
    rw [done]
    rintro ⟨⟨f, k, same⟩, -⟩
    cases same
  have kept := reads.total going
  rw [done] at kept
  simpa [ParseState.point, s, ParseState.start, BlockStack.isBlock, Cursor.ofStream] using kept

theorem significant_toList (s : TokenStream) : significant s.toList = significant s.tokens := by
  obtain ⟨ts, stop⟩ := s
  induction ts with
  | nil => rfl
  | cons t ts ih =>
    -- behind the end token there is none, and before it none looks for a brace
    have next : nextKind (ts ++ [Token.endOfInput stop]) = nextKind ts := by
      cases ts <;> rfl
    have same : t.counts (ts ++ [Token.endOfInput stop]) = t.counts ts := by
      simp [Token.counts, next]
    simp only [TokenStream.toList, List.cons_append, significant, same] at ih ⊢
    rw [ih]

/-- A text that denotes a program and the text of that program agree token by
    token, parentheses, semicolons and last commas of tables apart. -/
theorem Program.agrees_of_ofString {source : String} {p : Program}
    (h : Program.ofString source = .ok p) :
    List.Forall₂ Token.Agrees (significant (TokenStream.ofString source).toList)
      (significant (TokenStream.ofString p.render).toList) := by
  have parsed := Parsed.eq_of_ofString h
  have printable : p.printable = true := by
    simpa [parsed] using Parsed.program_printable source
  have marked := Program.marks_of_ofString parsed
  have marked' := Program.marks_of_ofString (Parsed.ofString_of_printable printable)
  rw [significant_toList, significant_toList, forall₂_agrees_iff, marked, marked']

/-- Leading zeros, parentheses, the other word for a function, a comma behind the
    last pair and empty statements, none of which the tree keeps. -/
theorem Program.agrees_of_ofString_table :
    let source := "let t = \x7b\"k\": (007), \"m\": func(x, y) \x7b x; \x7d,\x7d;; f (t)[((\"k\"))]"
    let first : Expr := .function ["x", "y"] [.bare (.identifier "x")]
    let p : Program := ⟨[
      .define "t" (.table [(.string "k", .integer 7), (.string "m", first)]),
      .bare (.index (.call (.identifier "f") [.identifier "t"]) (.string "k"))]⟩
    Program.ofString source = .ok p ∧
      List.Forall₂ Token.Agrees (significant (TokenStream.ofString source).toList)
        (significant (TokenStream.ofString p.render).toList) := by
  intro source first p
  have accepted : Program.ofString source = .ok p := by cbv
  exact ⟨accepted, Program.agrees_of_ofString accepted⟩

end Script
