/-
  Script/Proofs/Parse/Rule.lean
  =============================
  **The parser as a set of rules.**

  As long as nothing is wrong, what the parser does next depends only on its
  control and on the tokens unread.  `OperandRule` and `Rule` say which control
  it goes to and how many tokens it reads on the way, one rule for each thing
  it can meet; the places of tokens, the token read last and the diagnostics
  play no part in them.

  Main statement: the parser follows every rule (`ParseState.step?_of_rule`).
-/
import Script.Proofs.Parse.Lookahead

namespace Script

/-! ### The rules -/

/-- What an operand begins with, above which floor and under which stack. -/
inductive OperandRule (f : Precedence) (k : ExprStack) :
    List Token → ParseControl × List Token → Prop
  | atom {t e ts} (token : t.atom? = some e) : OperandRule f k (t :: ts) (.extend f e k, ts)
  | unary {t op ts} (sign : t.kind.unary? = some op) :
      OperandRule f k (t :: ts) (.operand .unary (.operand op f k), ts)
  | group {l ts} (left : l.kind = .leftParen) :
      OperandRule f k (l :: ts) (.operand .lowest (.group f k), ts)
  | emptyArray {l r ts} (left : l.kind = .leftBracket) (right : r.kind = .rightBracket) :
      OperandRule f k (l :: r :: ts) (.extend f (.array []) k, ts)
  | array {l ts} (left : l.kind = .leftBracket) (filled : nextKind ts ≠ .rightBracket) :
      OperandRule f k (l :: ts) (.operand .lowest (.item [] f k), ts)
  | emptyTable {l r ts} (left : l.kind = .leftBrace) (right : r.kind = .rightBrace) :
      OperandRule f k (l :: r :: ts) (.extend f (.table []) k, ts)
  | table {l ts} (left : l.kind = .leftBrace) (filled : nextKind ts ≠ .rightBrace) :
      OperandRule f k (l :: ts) (.operand .lowest (.key [] f k), ts)
  | conditional {w l ts} (word : w.kind = .ifWord) (left : l.kind = .leftParen) :
      OperandRule f k (w :: l :: ts) (.operand .lowest (.ifCondition f k), ts)
  | loop {w l ts} (word : w.kind = .whileWord) (left : l.kind = .leftParen) :
      OperandRule f k (w :: l :: ts) (.operand .lowest (.whileCondition f k), ts)
  | function {w ps us b ts} (word : w.kind = .functionWord) (params : ParameterList ps us)
      (brace : b.kind = .leftBrace) :
      OperandRule f k (w :: (us ++ b :: ts)) (.statements [] (.functionBody ps f k), ts)

/-- What the parser does when nothing is wrong. -/
inductive Rule : ParseControl × List Token → ParseControl × List Token → Prop
  | operand {f k ts p} (rule : OperandRule f k ts p) : Rule (.operand f k, ts) p
  -- extending an expression
  | operator {t op f e k ts} (sign : t.kind.extension? = some (.operator op))
      (tight : f < op.precedence) :
      Rule (.extend f e k, t :: ts) (.operand op.precedence (.right e op f k), ts)
  | subscript {l f e k ts} (left : l.kind = .leftBracket) (tight : f < .index) :
      Rule (.extend f e k, l :: ts) (.operand .lowest (.subscript e f k), ts)
  | emptyCall {l r f e k ts} (left : l.kind = .leftParen) (right : r.kind = .rightParen)
      (tight : f < .call) : Rule (.extend f e k, l :: r :: ts) (.extend f (.call e []) k, ts)
  | call {l f e k ts} (left : l.kind = .leftParen) (filled : nextKind ts ≠ .rightParen)
      (tight : f < .call) :
      Rule (.extend f e k, l :: ts) (.operand .lowest (.argument e [] f k), ts)
  | whole {f e k ts} (loose : ∀ x, (nextKind ts).extension? = some x → ¬ f < x.precedence) :
      Rule (.extend f e k, ts) (.whole e k, ts)
  -- handing over an expression
  | unary {op e f k ts} : Rule (.whole e (.operand op f k), ts) (.extend f (.unary op e) k, ts)
  | binary {l op e f k ts} :
      Rule (.whole e (.right l op f k), ts) (.extend f (.binary l op e) k, ts)
  | closeGroup {r e f k ts} (right : r.kind = .rightParen) :
      Rule (.whole e (.group f k), r :: ts) (.extend f e k, ts)
  | nextArgument {t e c done f k ts} (comma : t.kind = .comma) :
      Rule (.whole e (.argument c done f k), t :: ts)
        (.operand .lowest (.argument c (done ++ [e]) f k), ts)
  | closeCall {r e c done f k ts} (right : r.kind = .rightParen) :
      Rule (.whole e (.argument c done f k), r :: ts) (.extend f (.call c (done ++ [e])) k, ts)
  | nextItem {t e done f k ts} (comma : t.kind = .comma) :
      Rule (.whole e (.item done f k), t :: ts) (.operand .lowest (.item (done ++ [e]) f k), ts)
  | closeArray {r e done f k ts} (right : r.kind = .rightBracket) :
      Rule (.whole e (.item done f k), r :: ts) (.extend f (.array (done ++ [e])) k, ts)
  | closeSubscript {r e c f k ts} (right : r.kind = .rightBracket) :
      Rule (.whole e (.subscript c f k), r :: ts) (.extend f (.index c e) k, ts)
  | key {t e done f k ts} (colon : t.kind = .colon) :
      Rule (.whole e (.key done f k), t :: ts) (.operand .lowest (.value done e f k), ts)
  | closeTable {r e done key f k ts} (right : r.kind = .rightBrace) :
      Rule (.whole e (.value done key f k), r :: ts)
        (.extend f (.table (done ++ [(key, e)])) k, ts)
  | closeTableComma {t r e done key f k ts} (comma : t.kind = .comma)
      (right : r.kind = .rightBrace) :
      Rule (.whole e (.value done key f k), t :: r :: ts)
        (.extend f (.table (done ++ [(key, e)])) k, ts)
  | nextKey {t e done key f k ts} (comma : t.kind = .comma) (filled : nextKind ts ≠ .rightBrace) :
      Rule (.whole e (.value done key f k), t :: ts)
        (.operand .lowest (.key (done ++ [(key, e)]) f k), ts)
  | consequence {r b e f k ts} (right : r.kind = .rightParen) (brace : b.kind = .leftBrace) :
      Rule (.whole e (.ifCondition f k), r :: b :: ts) (.statements [] (.consequence e f k), ts)
  | loopBody {r b e f k ts} (right : r.kind = .rightParen) (brace : b.kind = .leftBrace) :
      Rule (.whole e (.whileCondition f k), r :: b :: ts) (.statements [] (.loopBody e f k), ts)
  | bare {e done k ts} (last : nextKind ts ≠ .semicolon) :
      Rule (.whole e (.statement .bare done k), ts) (.statements (done ++ [.bare e]) k, ts)
  | bareSemicolon {t e done k ts} (semicolon : t.kind = .semicolon) :
      Rule (.whole e (.statement .bare done k), t :: ts) (.statements (done ++ [.bare e]) k, ts)
  | headed {head e done k ts} (headed : head ≠ .bare) :
      Rule (.whole e (.statement head done k), ts)
        (.statements (done ++ [head.complete e]) k, ts.dropWhile (·.kind = .semicolon))
  -- going on with a list of statements
  | define {w t a done k ts} (word : w.kind = .letWord) (name : t.kind = .identifier)
      (sign : a.kind = .assign) :
      Rule (.statements done k, w :: t :: a :: ts)
        (.operand .lowest (.statement (.define t.literal) done k), ts)
  | assign {t a done k ts} (name : t.kind = .identifier) (sign : a.kind = .assign) :
      Rule (.statements done k, t :: a :: ts)
        (.operand .lowest (.statement (.assign t.literal) done k), ts)
  | return {w done k ts} (word : w.kind = .returnWord) :
      Rule (.statements done k, w :: ts) (.operand .lowest (.statement .return done k), ts)
  | begin {t done k ts p} (rule : OperandRule .lowest (.statement .bare done k) (t :: ts) p)
      (other : t.kind = .identifier → nextKind ts ≠ .assign) : Rule (.statements done k, t :: ts) p
  | closeBlock {r done k ts} (block : k.isBlock = true) (right : r.kind = .rightBrace) :
      Rule (.statements done k, r :: ts) (.closed done k, ts)
  | closeProgram {done} : Rule (.statements done .program, []) (.closed done .program, [])
  -- handing over a list of statements
  | conditional {c b f k ts} (last : nextKind ts ≠ .elseWord) :
      Rule (.closed b (.consequence c f k), ts) (.extend f (.conditional c b none) k, ts)
  | alternative {w l c b f k ts} (word : w.kind = .elseWord) (brace : l.kind = .leftBrace) :
      Rule (.closed b (.consequence c f k), w :: l :: ts) (.statements [] (.alternative c b f k), ts)
  | conditionalElse {c b b' f k ts} :
      Rule (.closed b' (.alternative c b f k), ts) (.extend f (.conditional c b (some b')) k, ts)
  | loop {c b f k ts} : Rule (.closed b (.loopBody c f k), ts) (.extend f (.loop c b) k, ts)
  | function {ps b f k ts} :
      Rule (.closed b (.functionBody ps f k), ts) (.extend f (.function ps b) k, ts)

theorem OperandRule.beginsOperand {f : Precedence} {k : ExprStack} {t : Token}
    {ts : List Token} {p : ParseControl × List Token} (h : OperandRule f k (t :: ts) p) :
    t.kind.beginsOperand = true := by
  cases h with
  | atom token => exact Token.beginsOperand_of_atom? token
  | unary sign => exact TokenKind.beginsOperand_of_unary? sign
  | group h | emptyArray h | array h | emptyTable h | table h | conditional h | loop h
  | function h => simp [h, TokenKind.beginsOperand]

/-! ### What the rules read -/

theorem OperandRule.behind {f : Precedence} {k : ExprStack} {ts : List Token}
    {p : ParseControl × List Token} (h : OperandRule f k ts p) : p.2 <:+ ts := by
  cases h with
  | atom | unary | group | array | table => exact List.suffix_cons _ _
  | emptyArray | emptyTable | conditional | loop => exact List.suffix_append [_, _] _
  | @function w ps us b ts word params brace => exact ⟨w :: (us ++ [b]), by simp⟩

/-- A rule reads tokens from the front. -/
theorem Rule.behind {p q : ParseControl × List Token} (h : Rule p q) : q.2 <:+ p.2 := by
  cases h with
  | operand rule | begin rule _ => exact rule.behind
  | headed => exact List.dropWhile_suffix _
  | define => exact List.suffix_append [_, _, _] _
  | emptyCall | closeTableComma | consequence | loopBody | assign | alternative =>
    exact List.suffix_append [_, _] _
  | whole | unary | binary | bare | closeProgram | conditional | conditionalElse | loop
  | function => exact List.suffix_rfl
  | _ => exact List.suffix_cons _ _

/-! ### Parameters -/

theorem parameters_of_expect {names : List String} {c c' : Cursor}
    (h : c.expect .identifier = .ok c') :
    parameters names c =
      if c'.peek.kind = .comma then parameters (names ++ [c'.last.literal]) c'.read
      else match c'.expect .rightParen with
        | .error d => .error (d, c')
        | .ok c'' => .ok (names ++ [c'.last.literal], c'') := by
  rw [parameters]
  split
  · rename_i d missing
    rw [h] at missing
    cases missing
  · rename_i c'' found
    rw [h] at found
    cases found
    rfl

theorem parameters_of_missing {names : List String} {c : Cursor} {d : Diagnostic}
    (h : c.expect .identifier = .error d) : parameters names c = .error (d, c) := by
  rw [parameters]
  split
  · rename_i d' missing
    rw [h] at missing
    cases missing
    rfl
  · rename_i c' found
    rw [h] at found
    cases found

theorem parameters_of_nameList {ps : List String} {ts : List Token} (h : NameList ps ts)
    {r : Token} (right : r.kind = .rightParen) (rest : List Token) (stop : Span) :
    ∀ (names : List String) (last : Token),
      parameters names ⟨last, ts ++ r :: rest, stop⟩ = .ok (names ++ ps, ⟨r, rest, stop⟩) := by
  induction h with
  | one name =>
    intro names last
    simp [parameters_of_expect (Cursor.expect_cons name _ _ _), Cursor.expect_cons, right]
  | more name comma _ ih =>
    intro names last
    simp [parameters_of_expect (Cursor.expect_cons name _ _ _), comma, ih]

theorem parameterList_of_tokens {ps : List String} {ts : List Token} (h : ParameterList ps ts)
    (last : Token) (rest : List Token) (stop : Span) :
    ∃ last', parameterList ⟨last, ts ++ rest, stop⟩ = .ok (ps, ⟨last', rest, stop⟩) := by
  cases h with
  | @empty l r left right =>
    exact ⟨r, by simp [parameterList, Cursor.expect_cons, left, right]⟩
  | @names l r _ ts left names right =>
    have first : nextKind (ts ++ r :: rest) = .identifier := by
      cases names <;> simpa
    have read := parameters_of_nameList names right rest stop [] l
    exact ⟨r, by simp [parameterList, Cursor.expect_cons, left, Cursor.peek_kind, first, read]⟩

/-- The tokens read by a reading of parameters that succeeds.  In any case, no
    brace is read. -/
theorem parameters_cases (names : List String) (c : Cursor) :
    match parameters names c with
    | .error (_, c') => c.Skips c'
    | .ok (ps, c') => c.Skips c' ∧ ∃ qs ts r, ps = names ++ qs ∧ NameList qs ts ∧
        r.kind = .rightParen ∧ c.rest = ts ++ r :: c'.rest := by
  fun_induction parameters names c with
  | case1 => exact .here
  | case2 names c c' h names' comma ih =>
    obtain ⟨name, read⟩ := Cursor.rest_of_expect h (by decide)
    have after := Cursor.rest_of_peek (comma) (by decide)
    have skips := (Cursor.skips_of_expect h rfl).read (by rw [comma]; rfl)
    split at ih
    · exact skips.trans ih
    · obtain ⟨more, qs, ts, r, rfl, hq, right, hr⟩ := ih
      refine ⟨skips.trans more, c'.last.literal :: qs, c'.last :: c'.peek :: ts, r,
        by simp [names'], ?_, right, ?_⟩
      · exact .more name comma hq
      · rw [read, after, hr]; rfl
  | case3 names c c' h names' hk d => exact Cursor.skips_of_expect h rfl
  | case4 names c c' h names' hk c'' h' =>
    obtain ⟨name, read⟩ := Cursor.rest_of_expect h (by decide)
    obtain ⟨right, read'⟩ := Cursor.rest_of_expect h' (by decide)
    exact ⟨(Cursor.skips_of_expect h rfl).trans (Cursor.skips_of_expect h' rfl),
      [c'.last.literal], [c'.last], c''.last, rfl, .one name, right, by rw [read, read']; rfl⟩

theorem parameterList_cases (c : Cursor) :
    match parameterList c with
    | .error (_, c') => c.Skips c'
    | .ok (ps, c') => c.Skips c' ∧ ∃ us, ParameterList ps us ∧ c.rest = us ++ c'.rest := by
  cases h : c.expect .leftParen with
  | error d =>
    simp only [parameterList, h]
    exact .here
  | ok c' =>
    obtain ⟨left, read⟩ := Cursor.rest_of_expect h (by decide)
    have skips := Cursor.skips_of_expect h rfl
    simp only [parameterList, h]
    by_cases right : c'.peek.kind = .rightParen
    · simp only [right, if_true]
      exact ⟨skips.read (by rw [right]; rfl), [c'.last, c'.peek], .empty left right, by
        rw [read, Cursor.rest_of_peek right (by decide)]; rfl⟩
    · simp only [right, if_false]
      have names := parameters_cases [] c'
      split at names
      · exact skips.trans names
      · obtain ⟨more, ps, ts, r, rfl, hps, right, hr⟩ := names
        exact ⟨skips.trans more, c'.last :: (ts ++ [r]), .names left hps right,
          by rw [read, hr]; simp⟩

/-! ### Following the rules -/

namespace ParseState

/-- What the rules see of a state. -/
def point (s : ParseState) : ParseControl × List Token := (s.control, s.cursor.rest)

@[simp] theorem point_mk (control : ParseControl) (c : Cursor) (ds : List Diagnostic) :
    point ⟨control, c, ds⟩ = (control, c.rest) := rfl

theorem readOperand_of_rule {f : Precedence} {k : ExprStack} {s : ParseState}
    {p : ParseControl × List Token} (h : OperandRule f k s.cursor.rest p) :
    (s.readOperand f k).point = p ∧ (s.readOperand f k).diagnostics = s.diagnostics := by
  obtain ⟨control, ⟨last, rest, stop⟩, ds⟩ := s
  dsimp only at h
  cases h with
  | @atom t _ _ token =>
    unfold Token.atom? at token
    split at token <;> simp_all [readOperand, goto]
    obtain ⟨n, hn, rfl⟩ := token
    simp [hn]
  | unary sign =>
    unfold TokenKind.unary? at sign
    split at sign <;> simp_all [readOperand, goto]
  | group left => simp [readOperand, goto, left]
  | emptyArray left right => simp [readOperand, goto, left, right]
  | array left filled => simp [readOperand, goto, left, Cursor.peek_kind, filled]
  | emptyTable left right => simp [readOperand, goto, left, right]
  | table left filled => simp [readOperand, goto, left, Cursor.peek_kind, filled]
  | conditional word left => simp [readOperand, goto, require, word, Cursor.expect_cons left]
  | loop word left => simp [readOperand, goto, require, word, Cursor.expect_cons left]
  | @function w ps us b ts word params brace =>
    obtain ⟨last', read⟩ := parameterList_of_tokens params w (b :: ts) stop
    simp [readOperand, goto, require, word, read, Cursor.expect_cons brace]

/-- A statement that is neither a binding nor a return begins as an operand. -/
theorem nextStatement_bare {s : ParseState} {done : Block} {k : BlockStack} {t : Token}
    {ts : List Token} (unread : s.cursor.rest = t :: ts) (first : t.kind.beginsOperand = true)
    (other : t.kind = .identifier → nextKind ts ≠ .assign) :
    s.nextStatement done k = s.readOperand .lowest (.statement .bare done k) := by
  obtain ⟨control, ⟨last, rest, stop⟩, ds⟩ := s
  dsimp only at unread
  subst unread
  have noBrace : t.kind ≠ .rightBrace := fun h => by simp [h, TokenKind.beginsOperand] at first
  simp only [nextStatement, noBrace, and_false, if_false, beginStatement, Cursor.read_cons]
  split <;> rename_i hk
  · simp [hk, TokenKind.beginsOperand] at first
  · simp [hk, TokenKind.beginsOperand] at first
  · simp [Cursor.peek_kind, other hk]
  · rfl

theorem step?_of_rule {s : ParseState} {p : ParseControl × List Token} (h : Rule s.point p) :
    ∃ s', s.step? = some s' ∧ s'.point = p ∧ s'.diagnostics = s.diagnostics := by
  obtain ⟨control, ⟨last, rest, stop⟩, ds⟩ := s
  dsimp only [point] at h
  cases h with
  | operand rule => exact ⟨_, rfl, readOperand_of_rule rule⟩
  | operator sign tight => simp [step?, extendBy, goto, sign, Extension.precedence, tight]
  | subscript left tight =>
    simp [step?, extendBy, goto, left, TokenKind.extension?, Extension.precedence, tight]
  | emptyCall left right tight =>
    simp [step?, extendBy, goto, left, right, TokenKind.extension?, Extension.precedence, tight]
  | call left filled tight =>
    simp [step?, extendBy, goto, left, filled, TokenKind.extension?, Extension.precedence, tight,
      Cursor.peek_kind]
  | whole loose =>
    simp only [step?, extendBy, Cursor.peek_kind]
    split
    · simp [goto]
    · rename_i x hx
      simp [goto, loose x hx]
  | unary => simp [step?, deliver, goto]
  | binary => simp [step?, deliver, goto]
  | closeGroup right => simp [step?, deliver, goto, require, Cursor.expect_cons right]
  | nextArgument comma => simp [step?, deliver, goto, comma]
  | closeCall right => simp [step?, deliver, goto, require, Cursor.expect_cons right, right]
  | nextItem comma => simp [step?, deliver, goto, comma]
  | closeArray right => simp [step?, deliver, goto, require, Cursor.expect_cons right, right]
  | closeSubscript right => simp [step?, deliver, goto, require, Cursor.expect_cons right]
  | key colon => simp [step?, deliver, goto, require, Cursor.expect_cons colon]
  | closeTable right => simp [step?, deliver, goto, right]
  | closeTableComma comma right =>
    simp [step?, deliver, goto, require, Cursor.expect_cons comma, comma, right]
  | nextKey comma filled =>
    simp [step?, deliver, goto, require, Cursor.expect_cons comma, comma, filled,
      Cursor.peek_kind]
  | consequence right brace =>
    simp [step?, deliver, goto, require, Cursor.expect_cons right, Cursor.expect_cons brace]
  | loopBody right brace =>
    simp [step?, deliver, goto, require, Cursor.expect_cons right, Cursor.expect_cons brace]
  | bare last =>
    simp [step?, deliver, goto, StmtHead.complete, Cursor.peek_kind, last]
  | bareSemicolon semicolon => simp [step?, deliver, goto, StmtHead.complete, semicolon]
  | headed headed => simp [step?, deliver, goto, headed, Cursor.skipSemicolons_rest]
  | define word name sign =>
    simp [step?, nextStatement, beginStatement, goto, require, word, Cursor.expect_cons name,
      Cursor.expect_cons sign]
  | assign name sign => simp [step?, nextStatement, beginStatement, goto, name, sign]
  | «return» word => simp [step?, nextStatement, beginStatement, goto, word]
  | begin rule other =>
    refine ⟨_, congrArg some (nextStatement_bare rfl rule.beginsOperand other), ?_⟩
    exact readOperand_of_rule rule
  | closeBlock block right => simp [step?, nextStatement, goto, block, right]
  | closeProgram => simp [step?, nextStatement, goto, BlockStack.isBlock]
  | conditional last => simp [step?, deliverBlock, goto, Cursor.peek_kind, last]
  | alternative word brace =>
    simp [step?, deliverBlock, goto, require, word, Cursor.expect_cons brace]
  | conditionalElse => simp [step?, deliverBlock, goto]
  | loop => simp [step?, deliverBlock, goto]
  | function => simp [step?, deliverBlock, goto]

end ParseState

end Script
