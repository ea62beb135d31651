/-
  Script/Proofs/Parse/Enclosed.lean
  =================================
  **The parser inside of a block.**

  Between the braces of a block the parser does what it does on a program of its
  own, up to the closing brace.  This stands where a program ends, and ends
  every expression as the end of the text does; but where the parser looks for
  an operand it reads the brace, and then closes the block when it recovers.

  Main statements: `ParseState.step_inside`, and `ParseState.finish_inside`,
  by which a block without inner braces is read as a program.
-/
import Script.Proofs.Parse.Isolated

namespace Script

/-- What is around the inside of a block: the construct that waits for the
    statements, and the text from the closing brace on. -/
structure Enclosure where
  list : BlockStack
  brace : Token
  behind : List Token
  stop : Span
  block : list.isBlock = true
  closes : brace.kind = .rightBrace

variable {E : Enclosure}

/-! ### Stacks -/

/-- Whether a stack stands on a program, with no block and no table around. -/
def ExprStack.flat : ExprStack → Bool
  | .alone | .key .. | .value .. => false
  | .operand _ _ k | .right _ _ _ k | .group _ k | .argument _ _ _ k | .item _ _ k
  | .subscript _ _ k | .ifCondition _ k | .whileCondition _ k => k.flat
  | .statement _ _ k => !k.isBlock

def ParseControl.flat : ParseControl → Bool
  | .operand _ k | .extend _ _ k | .whole _ k | .failed k => k.flat
  | .statements _ k => !k.isBlock
  | .closed .. => false

/-- A stack on a program, set on a block. -/
@[simp] def ExprStack.inside (E : Enclosure) : ExprStack → ExprStack
  | .alone => .alone
  | .operand op f k => .operand op f (k.inside E)
  | .right e op f k => .right e op f (k.inside E)
  | .group f k => .group f (k.inside E)
  | .argument e done f k => .argument e done f (k.inside E)
  | .item done f k => .item done f (k.inside E)
  | .subscript e f k => .subscript e f (k.inside E)
  | .key done f k => .key done f (k.inside E)
  | .value done e f k => .value done e f (k.inside E)
  | .ifCondition f k => .ifCondition f (k.inside E)
  | .whileCondition f k => .whileCondition f (k.inside E)
  | .statement head done _ => .statement head done E.list

def ParseControl.inside (E : Enclosure) : ParseControl → ParseControl
  | .operand f k => .operand f (k.inside E)
  | .extend f e k => .extend f e (k.inside E)
  | .whole e k => .whole e (k.inside E)
  | .statements done _ => .statements done E.list
  | .closed done _ => .closed done E.list
  | .failed k => .failed (k.inside E)

theorem BlockStack.eq_program {k : BlockStack} (h : (!k.isBlock) = true) : k = .program := by
  cases k with
  | program => rfl
  | _ => cases h

theorem ExprStack.enclosing?_of_flat : ∀ {k : ExprStack}, k.flat = true →
    ∃ done, k.enclosing? = some (done, .program) ∧
      (k.inside E).enclosing? = some (done, E.list)
  | .operand _ _ k, h | .right _ _ _ k, h | .group _ k, h | .argument _ _ _ k, h
  | .item _ _ k, h | .subscript _ _ k, h | .ifCondition _ k, h | .whileCondition _ k, h =>
    ExprStack.enclosing?_of_flat (k := k) h
  | .statement _ done k, h => ⟨done, by rw [BlockStack.eq_program h]; rfl, rfl⟩

/-! ### Cursors -/

/-- Whether a token of a kind ends a list of statements. -/
def TokenKind.endsList : TokenKind → Bool
  | .rightBrace | .endOfInput => true
  | _ => false

namespace Cursor

/-- No brace is unread or was read last, and the text does not end before the
    tokens do. -/
structure Braceless (c : Cursor) : Prop where
  last : c.last.kind ≠ .leftBrace ∧ c.last.kind ≠ .rightBrace
  rest : ∀ t ∈ c.rest, t.kind ≠ .leftBrace ∧ t.kind ≠ .rightBrace ∧ t.kind ≠ .endOfInput

/-- A cursor in front of the same tokens, with the closing brace behind them. -/
def inside (E : Enclosure) (c : Cursor) : Cursor :=
  ⟨c.last, c.rest ++ E.brace :: E.behind, E.stop⟩

/-- The cursor behind the closing brace. -/
def beyond (E : Enclosure) : Cursor := ⟨E.brace, E.behind, E.stop⟩

variable {c : Cursor} {kind : TokenKind}

theorem Braceless.read (h : c.Braceless) : c.read.Braceless := by
  obtain ⟨last, _ | ⟨t, ts⟩, stop⟩ := c
  · exact ⟨⟨nofun, nofun⟩, nofun⟩
  · obtain ⟨left, right, -⟩ := h.rest t List.mem_cons_self
    exact ⟨⟨left, right⟩, fun u mem => h.rest u (.tail _ mem)⟩

theorem peek_inside (unread : c.rest ≠ []) : (c.inside E).peek = c.peek := by
  obtain ⟨last, _ | ⟨t, ts⟩, stop⟩ := c
  · exact absurd rfl unread
  · rfl

theorem read_inside (unread : c.rest ≠ []) : (c.inside E).read = c.read.inside E := by
  obtain ⟨last, _ | ⟨t, ts⟩, stop⟩ := c
  · exact absurd rfl unread
  · rfl

theorem read_inside_nil (ended : c.rest = []) : (c.inside E).read = beyond E := by
  obtain ⟨last, rest, stop⟩ := c
  cases ended
  rfl

theorem peek_kind_inside_nil (ended : c.rest = []) : (c.inside E).peek.kind = .rightBrace := by
  obtain ⟨last, rest, stop⟩ := c
  cases ended
  exact E.closes

/-- Whoever asks for another token does not tell the closing brace from the end
    of the text. -/
theorem peek_kind_inside (other : kind.endsList = false) :
    (c.inside E).peek.kind = kind ↔ c.peek.kind = kind := by
  by_cases unread : c.rest = []
  · have part : c.peek.kind = .endOfInput := by rw [peek_kind, unread]; rfl
    rw [peek_kind_inside_nil unread, part]
    constructor <;>
    · rintro rfl
      cases other
  · rw [peek_inside unread]

theorem unread_of_peek (h : c.peek.kind = kind) (other : kind.endsList = false) : c.rest ≠ [] := by
  intro ended
  rw [peek_kind, ended] at h
  subst h
  cases other

theorem extension?_inside : (c.inside E).peek.kind.extension? = c.peek.kind.extension? := by
  by_cases unread : c.rest = []
  · rw [peek_kind_inside_nil unread, peek_kind, unread]
    rfl
  · rw [peek_inside unread]

theorem expect_inside (c : Cursor) (kind : TokenKind) (other : kind.endsList = false) :
    match c.expect kind with
    | .ok c' => (c.inside E).expect kind = .ok (c'.inside E)
    | .error _ => ∃ d, (c.inside E).expect kind = .error d := by
  have same := peek_kind_inside (E := E) (c := c) other
  unfold expect
  by_cases found : c.peek.kind = kind
  · rw [if_pos found, if_pos (same.2 found), read_inside (unread_of_peek found other)]
  · rw [if_neg found, if_neg (mt same.1 found)]
    exact ⟨_, rfl⟩

theorem Braceless.expect (h : c.Braceless) {c' : Cursor} (found : c.expect kind = .ok c') :
    c'.Braceless := by
  obtain ⟨rfl, -⟩ := expect_eq_read found
  exact h.read

theorem skipSemicolons_inside (h : c.Braceless) :
    (c.inside E).skipSemicolons = c.skipSemicolons.inside E ∧ c.skipSemicolons.Braceless := by
  induction size : c.rest.length using Nat.strongRecOn generalizing c with
  | ind n ih =>
    subst size
    have same : (c.inside E).peek.kind = .semicolon ↔ c.peek.kind = .semicolon :=
      peek_kind_inside rfl
    by_cases next : c.peek.kind = .semicolon
    · rw [skipSemicolons_of_semicolon next, skipSemicolons_of_semicolon (same.2 next),
        read_inside (unread_of_peek next rfl)]
      exact ih _ (read_length_lt (by simp [next])) h.read rfl
    · rw [skipSemicolons_of_other next, skipSemicolons_of_other (mt same.1 next)]
      exact ⟨rfl, h⟩

theorem resume_inside (h : c.Braceless) :
    (c.inside E).resume = c.resume.inside E ∧ c.resume.Braceless := by
  induction size : c.rest.length using Nat.strongRecOn generalizing c with
  | ind n ih =>
    subst size
    by_cases unread : c.rest = []
    · rw [resume_of_stop (.inr (.inr (peek_kind_inside_nil unread))), resume_of_ended unread]
      exact ⟨rfl, h⟩
    have peek := peek_inside (E := E) unread
    by_cases stops : c.last.kind = .semicolon ∨ c.last.kind = .rightBrace ∨
        c.peek.kind = .rightBrace
    · rw [resume_of_stop stops, resume_of_stop (by rwa [peek])]
      exact ⟨rfl, h⟩
    · rw [resume_of_going unread stops, resume_of_going (by simp [inside]) (by rwa [peek]),
        read_inside unread]
      exact ih _ (read_length_lt_of_unread unread) h.read rfl

end Cursor

/-! ### Parameters -/

/-- What a reading of parameters inside of a block has in common with the reading
    without the block. -/
def ParametersInside (E : Enclosure) (whole part :
    Except (Diagnostic × Cursor) (List String × Cursor)) : Prop :=
  match part with
  | .error (_, c) => c.Braceless ∧ ∃ d, whole = .error (d, c.inside E)
  | .ok (ps, c) => c.Braceless ∧ whole = .ok (ps, c.inside E)

theorem parameters_inside (names : List String) {c : Cursor} (h : c.Braceless) :
    ParametersInside E (parameters names (c.inside E)) (parameters names c) := by
  have name := c.expect_inside (E := E) .identifier rfl
  fun_induction parameters names c with
  | case1 names c d missing =>
    rw [missing] at name
    obtain ⟨d', missing'⟩ := name
    rw [parameters_of_missing missing']
    exact ⟨h, d', rfl⟩
  | case2 names c c' found names' comma ih =>
    rw [found] at name
    have comma' : (c'.inside E).peek.kind = .comma := (Cursor.peek_kind_inside rfl).2 comma
    rw [parameters_of_expect name, if_pos comma',
      Cursor.read_inside (Cursor.unread_of_peek comma rfl)]
    exact ih (h.expect found).read (Cursor.expect_inside _ _ rfl)
  | case3 names c c' found other d missing =>
    rw [found] at name
    have other' : ¬(c'.inside E).peek.kind = .comma := mt (Cursor.peek_kind_inside rfl).1 other
    have right := c'.expect_inside (E := E) .rightParen rfl
    rw [missing] at right
    obtain ⟨d', missing'⟩ := right
    rw [parameters_of_expect name, if_neg other', missing']
    exact ⟨h.expect found, d', rfl⟩
  | case4 names c c' found names' other c'' found' =>
    rw [found] at name
    have other' : ¬(c'.inside E).peek.kind = .comma := mt (Cursor.peek_kind_inside rfl).1 other
    have right := c'.expect_inside (E := E) .rightParen rfl
    rw [found'] at right
    rw [parameters_of_expect name, if_neg other', right]
    exact ⟨(h.expect found).expect found', rfl⟩

theorem parameterList_inside {c : Cursor} (h : c.Braceless) :
    ParametersInside E (parameterList (c.inside E)) (parameterList c) := by
  have left := c.expect_inside (E := E) .leftParen rfl
  unfold parameterList
  cases found : c.expect .leftParen with
  | error d =>
    rw [found] at left
    obtain ⟨d', missing⟩ := left
    rw [missing]
    exact ⟨h, d', rfl⟩
  | ok c' =>
    rw [found] at left
    rw [left]
    have same : (c'.inside E).peek.kind = .rightParen ↔ c'.peek.kind = .rightParen :=
      Cursor.peek_kind_inside rfl
    by_cases right : c'.peek.kind = .rightParen
    · simp only [if_pos right, if_pos (same.2 right)]
      exact ⟨(h.expect found).read,
        by rw [Cursor.read_inside (Cursor.unread_of_peek right rfl)]⟩
    · simp only [if_neg right, if_neg (mt same.1 right)]
      exact parameters_inside [] (h.expect found)

/-! ### Steps -/

namespace ParseState

/-- What the parser comes to inside of a block: what it comes to without the
    block, with the closing brace behind what is unread; or it has just read
    that brace where it would have met the end of the text, and failed.  It has
    recorded as much as without the block, and `n` diagnostics before. -/
structure Enclosed (E : Enclosure) (n : Nat) (whole part : ParseState) : Prop where
  control : whole.control = part.control.inside E
  flat : part.control.flat = true
  braceless : part.cursor.Braceless
  cursor : whole.cursor = part.cursor.inside E ∨
    (∃ k, part.control = .failed k) ∧ part.cursor.rest = [] ∧ whole.cursor = .beyond E
  count : whole.diagnostics.length = n + part.diagnostics.length

variable {n : Nat} {w s : ParseState} {c : Cursor} {k : ExprStack}

section Enclosed

theorem Enclosed.goto (count : w.diagnostics.length = n + s.diagnostics.length)
    {control control' : ParseControl} (same : control' = control.inside E)
    (flat : control.flat = true) (h : c.Braceless) :
    Enclosed E n (w.goto control' (c.inside E)) (s.goto control c) :=
  ⟨same, flat, h, .inl rfl, count⟩

theorem Enclosed.fail (count : w.diagnostics.length = n + s.diagnostics.length)
    (flat : k.flat = true) (h : c.Braceless) (d d' : Diagnostic) :
    Enclosed E n (w.fail (k.inside E) (c.inside E) d') (s.fail k c d) where
  control := rfl
  flat := flat
  braceless := h
  cursor := .inl rfl
  count := by simp [ParseState.fail, count, Nat.add_assoc]

/-- What fails with the token that it read fails inside of the block too; where
    the text ended, it has read the closing brace there. -/
theorem Enclosed.failRead (count : w.diagnostics.length = n + s.diagnostics.length)
    (flat : k.flat = true) (h : c.Braceless) (d d' : Diagnostic) :
    Enclosed E n (w.fail (k.inside E) (c.inside E).read d') (s.fail k c.read d) := by
  by_cases unread : c.rest = []
  · refine ⟨rfl, flat, h.read, .inr ⟨⟨k, rfl⟩, ?_, Cursor.read_inside_nil unread⟩, ?_⟩
    · exact congrArg List.tail unread
    · simp [ParseState.fail, count, Nat.add_assoc]
  · rw [Cursor.read_inside unread]
    exact .fail count flat h.read d d'

theorem Enclosed.require (count : w.diagnostics.length = n + s.diagnostics.length)
    (flat : k.flat = true) (h : c.Braceless) (kind : TokenKind) (other : kind.endsList = false)
    {next next' : Cursor → ParseState}
    (found : ∀ c' : Cursor, c'.Braceless → c'.last.kind = kind →
      Enclosed E n (next' (c'.inside E)) (next c')) :
    Enclosed E n (w.require kind (k.inside E) (c.inside E) next') (s.require kind k c next) := by
  have same := c.expect_inside (E := E) kind other
  unfold ParseState.require
  cases reads : c.expect kind with
  | error d =>
    rw [reads] at same
    obtain ⟨d', missing⟩ := same
    rw [missing]
    exact .fail count flat h d d'
  | ok c' =>
    rw [reads] at same
    rw [same]
    obtain ⟨rfl, kind'⟩ := Cursor.expect_eq_read reads
    exact found _ h.read kind'

theorem Enclosed.choose {kind : TokenKind} (other : kind.endsList = false)
    {r₁ r₂ r₁' r₂' : ParseState}
    (found : (c.inside E).read = c.read.inside E → Enclosed E n r₁' r₁)
    (missing : Enclosed E n r₂' r₂) :
    Enclosed E n (if (c.inside E).peek.kind = kind then r₁' else r₂')
      (if c.peek.kind = kind then r₁ else r₂) := by
  have same : (c.inside E).peek.kind = kind ↔ c.peek.kind = kind := Cursor.peek_kind_inside other
  by_cases next : c.peek.kind = kind
  · rw [if_pos next, if_pos (same.2 next)]
    exact found (Cursor.read_inside (Cursor.unread_of_peek next other))
  · rw [if_neg next, if_neg (mt same.1 next)]
    exact missing

/-- Behind an item of a list, in parentheses or brackets: a comma and the next
    item, or the end of the list. -/
theorem Enclosed.separated (count : w.diagnostics.length = n + s.diagnostics.length)
    (flat : k.flat = true) (h : c.Braceless) (close : TokenKind) (other : close.endsList = false)
    (more : ExprStack) (flat' : more.flat = true) (f : Precedence) (e : Expr) :
    Enclosed E n
      (if (c.inside E).peek.kind = .comma then
        w.goto (.operand .lowest (more.inside E)) (c.inside E).read
      else w.require close (k.inside E) (c.inside E) fun c => w.goto (.extend f e (k.inside E)) c)
      (if c.peek.kind = .comma then s.goto (.operand .lowest more) c.read
      else s.require close k c fun c => s.goto (.extend f e k) c) := by
  refine .choose rfl (fun reads => ?_)
    (.require count flat h close other fun c' h' _ => .goto count rfl flat h')
  rw [reads]
  exact .goto count rfl flat' h.read

/-- No block begins here. -/
theorem Enclosed.requireBrace (count : w.diagnostics.length = n + s.diagnostics.length)
    (flat : k.flat = true) (h : c.Braceless) {next next' : Cursor → ParseState} :
    Enclosed E n (w.require .leftBrace (k.inside E) (c.inside E) next')
      (s.require .leftBrace k c next) :=
  .require count flat h .leftBrace rfl fun _ h' brace => absurd brace h'.last.1

end Enclosed

/-- No operand begins with a token that ends a list of statements. -/
theorem readOperand_refused {s : ParseState} (ended : s.cursor.peek.kind.endsList = true)
    (f : Precedence) (k : ExprStack) : ∃ d, s.readOperand f k = s.fail k s.cursor.read d := by
  have last : s.cursor.read.last.kind.endsList = true := ended
  unfold readOperand
  generalize s.cursor.read = c at last
  cases hk : c.last.kind <;> simp_all [TokenKind.endsList]

variable (cursor : w.cursor = s.cursor.inside E) (h : s.cursor.Braceless)
  (count : w.diagnostics.length = n + s.diagnostics.length)

include cursor h count

theorem readOperand_inside (f : Precedence) (flat : k.flat = true) :
    Enclosed E n (w.readOperand f (k.inside E)) (s.readOperand f k) := by
  by_cases unread : s.cursor.rest = []
  · have ended : s.cursor.peek.kind.endsList = true := by rw [Cursor.peek_kind, unread]; rfl
    have ended' : w.cursor.peek.kind.endsList = true := by
      rw [cursor, Cursor.peek_kind_inside_nil unread]
      rfl
    obtain ⟨d, part⟩ := readOperand_refused ended f k
    obtain ⟨d', whole⟩ := readOperand_refused ended' f (k.inside E)
    rw [part, whole, cursor]
    exact .failRead count flat h d d'
  have read : w.cursor.read = s.cursor.read.inside E := by rw [cursor, Cursor.read_inside unread]
  have h' := h.read
  simp only [readOperand, read]
  generalize s.cursor.read = c at h'
  have last : (c.inside E).last = c.last := rfl
  rw [last]
  cases hk : c.last.kind with
  | identifier | string | trueWord | falseWord | bang | minus | leftParen =>
    exact .goto count rfl flat h'
  | integer =>
    simp only
    split
    · exact .goto count rfl flat h'
    · exact .fail count flat h' _ _
  | leftBracket =>
    refine .choose rfl (fun reads => ?_) (.goto count rfl flat h')
    rw [reads]
    exact .goto count rfl flat h'.read
  | leftBrace => exact absurd hk h'.last.1
  | ifWord | whileWord =>
    exact .require count flat h' .leftParen rfl fun c' h'' _ => .goto count rfl flat h''
  | functionWord =>
    have params := parameterList_inside (E := E) h'
    cases reads : parameterList c with
    | error r =>
      rw [reads] at params
      obtain ⟨h'', d', whole⟩ := params
      simp only [whole]
      exact .fail count flat h'' _ _
    | ok r =>
      rw [reads] at params
      obtain ⟨h'', whole⟩ := params
      simp only [whole]
      exact .requireBrace count flat h''
  | _ => exact .fail count flat h' _ _

theorem extendBy_inside (f : Precedence) (e : Expr) (flat : k.flat = true) :
    Enclosed E n (w.extendBy f e (k.inside E)) (s.extendBy f e k) := by
  have sign : w.cursor.peek.kind.extension? = s.cursor.peek.kind.extension? := by
    rw [cursor, Cursor.extension?_inside]
  simp only [extendBy, sign]
  split
  · rw [cursor]
    exact .goto count rfl flat h
  rename_i x extends_
  have unread : s.cursor.rest ≠ [] := by
    intro ended
    rw [Cursor.peek_kind, ended] at extends_
    cases extends_
  have read : w.cursor.read = s.cursor.read.inside E := by rw [cursor, Cursor.read_inside unread]
  split
  · rw [read]
    cases x with
    | operator op => exact .goto count rfl flat h.read
    | subscript => exact .goto count rfl flat h.read
    | arguments =>
      refine .choose rfl (fun reads => ?_) (.goto count rfl flat h.read)
      rw [reads]
      exact .goto count rfl flat h.read.read
  · rw [cursor]
    exact .goto count rfl flat h

theorem deliver_inside (e : Expr) (flat : k.flat = true) :
    ∃ w' s', w.deliver e (k.inside E) = some w' ∧ s.deliver e k = some s' ∧ Enclosed E n w' s' := by
  cases k with
  | alone | key | value => cases flat
  | operand | right =>
    refine ⟨_, _, rfl, rfl, ?_⟩
    rw [cursor]
    exact .goto count rfl flat h
  | group f k =>
    have flat' : k.flat = true := flat
    refine ⟨_, _, rfl, rfl, ?_⟩
    rw [cursor]
    exact .require count flat' h .rightParen rfl fun c' h' _ => .goto count rfl flat' h'
  | subscript collection f k =>
    have flat' : k.flat = true := flat
    refine ⟨_, _, rfl, rfl, ?_⟩
    rw [cursor]
    exact .require count flat' h .rightBracket rfl fun c' h' _ => .goto count rfl flat' h'
  | argument callee done f k =>
    have flat' : k.flat = true := flat
    simp only [ExprStack.inside, deliver, ← apply_ite some]
    refine ⟨_, _, rfl, rfl, ?_⟩
    rw [cursor]
    exact .separated count flat' h _ rfl (.argument callee (done ++ [e]) f k) flat' f _
  | item done f k =>
    have flat' : k.flat = true := flat
    simp only [ExprStack.inside, deliver, ← apply_ite some]
    refine ⟨_, _, rfl, rfl, ?_⟩
    rw [cursor]
    exact .separated count flat' h _ rfl (.item (done ++ [e]) f k) flat' f _
  | ifCondition f k | whileCondition f k =>
    have flat' : k.flat = true := flat
    refine ⟨_, _, rfl, rfl, ?_⟩
    rw [cursor]
    exact .require count flat' h .rightParen rfl fun c' h' _ => .requireBrace count flat' h'
  | statement head done k =>
    refine ⟨_, _, rfl, rfl, ?_⟩
    rw [cursor]
    split
    · have same : (s.cursor.inside E).peek.kind = .semicolon ↔ s.cursor.peek.kind = .semicolon :=
        Cursor.peek_kind_inside rfl
      by_cases semicolon : s.cursor.peek.kind = .semicolon
      · rw [if_pos semicolon, if_pos (same.2 semicolon),
          Cursor.read_inside (Cursor.unread_of_peek semicolon rfl)]
        exact .goto count rfl flat h.read
      · rw [if_neg semicolon, if_neg (mt same.1 semicolon)]
        exact .goto count rfl flat h
    · obtain ⟨same, h'⟩ := Cursor.skipSemicolons_inside (E := E) h
      rw [same]
      exact .goto count rfl flat h'

theorem beginStatement_inside (unread : s.cursor.rest ≠ []) (done : Block) :
    Enclosed E n (w.beginStatement done E.list) (s.beginStatement done .program) := by
  have read : w.cursor.read = s.cursor.read.inside E := by rw [cursor, Cursor.read_inside unread]
  have operand := readOperand_inside cursor h count .lowest (k := .statement .bare done .program) rfl
  have h' := h.read
  simp only [beginStatement, read]
  generalize s.cursor.read = c at h'
  have last : (c.inside E).last = c.last := rfl
  rw [last]
  split
  · refine .require (k := .statement .bare done .program) count rfl h' .identifier rfl ?_
    intro c₁ h₁ _
    refine .require (k := .statement .bare done .program) count rfl h₁ .assign rfl fun c₂ h₂ _ => ?_
    exact .goto count rfl rfl h₂
  · exact .goto count rfl rfl h'
  · refine .choose rfl (fun reads => ?_) operand
    rw [reads]
    exact .goto count rfl rfl h'.read
  · exact operand

theorem nextStatement_inside (unread : s.cursor.rest ≠ []) (done : Block) :
    Enclosed E n (w.nextStatement done E.list) (s.nextStatement done .program) := by
  have peek : w.cursor.peek = s.cursor.peek := by rw [cursor, Cursor.peek_inside unread]
  have unread' : w.cursor.rest ≠ [] := by simp [cursor, Cursor.inside]
  have noBrace : ¬(E.list.isBlock ∧ w.cursor.peek.kind = .rightBrace) := by
    rintro ⟨-, brace⟩
    rw [peek] at brace
    exact h.read.last.2 brace
  rw [nextStatement_of_unread unread, nextStatement_of_unread unread', if_neg noBrace,
    if_neg (by rintro ⟨block, -⟩; cases block)]
  exact beginStatement_inside cursor h count unread done

theorem recover_inside (flat : k.flat = true) :
    ∃ w' s', w.recover (k.inside E) = some w' ∧ s.recover k = some s' ∧ Enclosed E n w' s' := by
  obtain ⟨done, around, around'⟩ := ExprStack.enclosing?_of_flat (E := E) flat
  obtain ⟨same, h'⟩ := Cursor.resume_inside (E := E) h
  have last : (s.cursor.resume.inside E).last.kind ≠ .rightBrace := h'.last.2
  have part : s.recover k = some (s.goto (.statements done .program) s.cursor.resume) := by
    simp [recover, around, BlockStack.isBlock]
  have whole : w.recover (k.inside E) =
      some (w.goto (.statements done E.list) (s.cursor.resume.inside E)) := by
    simp [recover, around', cursor, same, last]
  exact ⟨_, _, whole, part, .goto count rfl rfl h'⟩

omit cursor h count in
/-- Inside of the block the parser takes the steps that it takes without it, as
    long as it does not read the closing brace. -/
theorem step_inside (inside : Enclosed E n w s) (cursor : w.cursor = s.cursor.inside E)
    (unread : s.cursor.rest ≠ [] ∨ ∀ done k, s.control ≠ .statements done k) :
    ∃ w' s', w.step? = some w' ∧ s.step? = some s' ∧ Enclosed E n w' s' := by
  obtain ⟨control, flat, h, -, count⟩ := inside
  obtain ⟨control', c', ds'⟩ := w
  obtain ⟨control₀, c, ds⟩ := s
  dsimp only at control
  subst control
  cases control₀ with
  | operand f k => exact ⟨_, _, rfl, rfl, readOperand_inside cursor h count f flat⟩
  | extend f e k => exact ⟨_, _, rfl, rfl, extendBy_inside cursor h count f e flat⟩
  | whole e k => exact deliver_inside cursor h count e flat
  | statements done k =>
    obtain rfl := BlockStack.eq_program flat
    have unread' : c.rest ≠ [] := unread.resolve_right fun other => other done .program rfl
    exact ⟨_, _, rfl, rfl, nextStatement_inside cursor h count unread' done⟩
  | closed b k => cases flat
  | failed k => exact recover_inside cursor h count flat

/-! ### To the closing brace -/

/-- Where the text ends, the program is what has been read, and the block is
    closed behind its brace. -/
def Arrives (E : Enclosure) (n : Nat) (w s : ParseState) : Prop :=
  ∃ ds, ds.length = n + (parsed s).diagnostics.length ∧
    w.finish = finish ⟨.closed (parsed s).program.statements E.list, .beyond E, ds⟩

omit cursor h count in
theorem arrives_of_step? {w' s' : ParseState} (whole : w.step? = some w') (part : s.step? = some s')
    (arrives : Arrives E n w' s') : Arrives E n w s := by
  have same : parsed s = parsed s' := by rw [parsed, parsed, finish_of_step? part]
  obtain ⟨ds, length, ends⟩ := arrives
  exact ⟨ds, same ▸ length, by rw [finish_of_step? whole, ends, same]⟩

omit cursor h count in
theorem arrives_at_brace {done : Block} {ds ds' : List Diagnostic} (h : c.rest = [])
    (count : ds'.length = n + ds.length) :
    Arrives E n ⟨.statements done E.list, c.inside E, ds'⟩ ⟨.statements done .program, c, ds⟩ := by
  obtain ⟨last, rest, stop⟩ := c
  cases h
  have closes : step? ⟨.statements done E.list, Cursor.inside E ⟨last, [], stop⟩, ds'⟩ =
      some ⟨.closed done E.list, .beyond E, ds'⟩ := by
    simp [step?, nextStatement, Cursor.inside, Cursor.beyond, E.block, E.closes, goto]
  rw [Arrives, parsed_ended, finish_of_step? closes]
  exact ⟨ds', count, rfl⟩

omit cursor h count in
/-- Where the brace was read for an operand, the block is closed as it recovers. -/
theorem arrives_beyond {ds ds' : List Diagnostic} (flat : k.flat = true) (h : c.rest = [])
    (count : ds'.length = n + ds.length) :
    Arrives E n ⟨.failed (k.inside E), .beyond E, ds'⟩ ⟨.failed k, c, ds⟩ := by
  obtain ⟨done, around, around'⟩ := ExprStack.enclosing?_of_flat (E := E) flat
  obtain ⟨last, rest, stop⟩ := c
  cases h
  have ended : (⟨last, [], stop⟩ : Cursor).resume = ⟨last, [], stop⟩ := Cursor.resume_of_ended rfl
  have read : (Cursor.beyond E).resume = .beyond E := Cursor.resume_of_stop (.inr (.inl E.closes))
  have part : step? ⟨.failed k, ⟨last, [], stop⟩, ds⟩ =
      some ⟨.statements done .program, ⟨last, [], stop⟩, ds⟩ := by
    simp [step?, recover, around, ended, BlockStack.isBlock, goto]
  have whole : step? ⟨.failed (k.inside E), .beyond E, ds'⟩ =
      some ⟨.closed done E.list, .beyond E, ds'⟩ := by
    have closing : E.list.isBlock = true ∧ (Cursor.beyond E).last.kind = .rightBrace :=
      ⟨E.block, E.closes⟩
    simp [step?, recover, around', read, closing, goto]
  rw [Arrives, parsed, finish_of_step? part, ← parsed, parsed_ended, finish_of_step? whole]
  exact ⟨ds', count, rfl⟩

omit cursor h count in
/-- The block closes behind its brace, with the statements that a program would
    have, and as many diagnostics. -/
theorem finish_inside (inside : Enclosed E n w s) : Arrives E n w s := by
  induction size : s.size using Nat.strongRecOn generalizing w s with
  | ind size ih =>
    subst size
    rcases inside.cursor with cursor | ⟨⟨k, failed⟩, ended, beyond⟩
    · by_cases arrived : s.cursor.rest = [] ∧ ∃ done k, s.control = .statements done k
      · obtain ⟨control, flat, -, -, count⟩ := inside
        obtain ⟨ended, done, k, resting⟩ := arrived
        obtain ⟨control', c', ds'⟩ := w
        obtain ⟨control₀, c, ds⟩ := s
        cases resting
        cases control
        cases cursor
        obtain rfl := BlockStack.eq_program flat
        exact arrives_at_brace ended count
      · have unread : s.cursor.rest ≠ [] ∨ ∀ done k, s.control ≠ .statements done k :=
          (not_and_or.1 arrived).imp id fun other done k resting => other ⟨done, k, resting⟩
        obtain ⟨w', s', whole, part, inside'⟩ := step_inside inside cursor unread
        exact arrives_of_step? whole part (ih _ (size_lt_of_step part) inside' rfl)
    · obtain ⟨control, flat, -, -, count⟩ := inside
      obtain ⟨control', c', ds'⟩ := w
      obtain ⟨control₀, c, ds⟩ := s
      cases failed
      cases control
      cases beyond
      exact arrives_beyond flat ended count

end ParseState

end Script
