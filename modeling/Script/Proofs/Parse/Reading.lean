/-
  Script/Proofs/Parse/Reading.lean
  ================================
  **The parser reads what is written.**

  Reading an operand above a floor takes all of a written expression if the
  operator at its root binds more tightly than the floor, and stops behind it
  if what follows binds no more tightly than the loosest construct still open
  at its right end: its grip.  Parentheses close everything, and so does a
  call, a subscript or a literal.

  Main statements: `Expr.Written.legible` and, for lists of statements,
  `Block.Written.legible`; then that a stream which writes an expression, or a
  program, is read as it (`Parsed.ofStream_of_written`, `Parsed.ofStream_of_block`).
-/
import Script.Proofs.Expr.Written
import Script.Proofs.Parse.Run

namespace Script

/-! ### What may follow -/

/-- Whether a kind of token ends every expression it follows. -/
@[simp] def TokenKind.closes : TokenKind → Bool
  | .endOfInput | .comma | .semicolon | .colon | .rightParen | .rightBrace | .rightBracket => true
  | _ => false

/-- What may follow an expression whose right end holds on to operators that
    bind more tightly than `p`. -/
def Follows (p : Precedence) (ts : List Token) : Prop :=
  nextKind ts ≠ .elseWord ∧ ∀ x, (nextKind ts).extension? = some x → x.precedence ≤ p

/-- How tightly an operator must bind to be taken by the right end of an
    expression: more tightly than this. -/
def Expr.grip (w : Bool) (e : Expr) : Precedence :=
  match w, e with
  | false, .binary _ op _ => op.precedence
  | false, .unary .. => .unary
  | _, _ => .index

theorem Follows.of_closes {p : Precedence} {ts : List Token}
    (h : (nextKind ts).closes = true) : Follows p ts := by
  unfold Follows
  generalize nextKind ts = kind at h
  cases kind <;> simp_all [TokenKind.extension?]

theorem Follows.mono {p q : Precedence} {ts : List Token} (h : Follows p ts) (le : p ≤ q) :
    Follows q ts :=
  ⟨h.1, fun x hx => Nat.le_trans (h.2 x hx) le⟩

theorem Follows.of_extension {p : Precedence} {t : Token} {ts : List Token} {x : Extension}
    (h : t.kind.extension? = some x) (le : x.precedence ≤ p) : Follows p (t :: ts) := by
  constructor
  · intro word
    rw [nextKind_cons] at word
    simp [word, TokenKind.extension?] at h
  · intro x' hx'
    rw [nextKind_cons, h] at hx'
    cases hx'
    exact le

theorem Follows.loose {p f : Precedence} {ts : List Token} (h : Follows p ts) (le : p ≤ f) :
    ∀ x, (nextKind ts).extension? = some x → ¬ f < x.precedence :=
  fun x hx => Nat.not_lt.mpr (Nat.le_trans (h.2 x hx) le)

theorem BinaryOp.precedence_lt_unary (op : BinaryOp) : op.precedence < .unary := by
  cases op <;> decide

theorem BinaryOp.lowest_lt_precedence (op : BinaryOp) : Precedence.lowest < op.precedence :=
  (Extension.operator op).lowest_lt_precedence

theorem Extension.precedence_le_index (x : Extension) : x.precedence ≤ .index := by
  rcases x with op | _ | _
  · cases op <;> decide
  · decide
  · decide

/-! ### Legible tokens -/

/-- The parser reads `ts` as `e`, wherever an operand is due. -/
def Expr.Legible (w : Bool) (e : Expr) (ts : List Token) : Prop :=
  ∀ (f : Precedence) (k : ExprStack) (rest : List Token), f < .call →
    (w = false → ∀ op, e.root? = some op → f < op.precedence) → Follows (e.grip w) rest →
    Reads (.operand f k, ts ++ rest) (.extend f e k, rest)

theorem Expr.Legible.whole {w : Bool} {e : Expr} {ts : List Token} (h : Expr.Legible w e ts)
    {k : ExprStack} {rest : List Token} (closed : (nextKind rest).closes = true) :
    Reads (.operand .lowest k, ts ++ rest) (.whole e k, rest) := by
  have read : Reads (.operand .lowest k, ts ++ rest) (.extend .lowest e k, rest) :=
    h _ _ _ (by decide) (fun _ op _ => op.lowest_lt_precedence) (.of_closes closed)
  exact read.tail (.whole ((Follows.of_closes closed (p := .lowest)).loose (Nat.le_refl _)))

/-- The parser reads `ts` as the statement `s`, up to its end. -/
def Stmt.Legible (s : Stmt) (ts : List Token) : Prop :=
  ∃ head e, head.complete e = s ∧
    ∀ (done : Block) (k : BlockStack) (rest : List Token), (nextKind rest).closes = true →
      Reads (.statements done k, ts ++ rest) (.whole e (.statement head done k), rest)

/-- The parser reads `ts` as the statements `b`, up to a brace or the end. -/
def Block.Legible (b : Block) (ts : List Token) : Prop :=
  ∀ (done : Block) (k : BlockStack) (rest : List Token), (nextKind rest).closes = true →
    nextKind rest ≠ .semicolon →
    Reads (.statements done k, ts ++ rest) (.statements (done ++ b) k, rest)

/-- The parser reads `ts`, behind a brace, as the block `b`. -/
def Block.LegibleBraced (b : Block) (ts : List Token) : Prop :=
  ∃ l us, ts = l :: us ∧ l.kind = .leftBrace ∧
    ∀ (k : BlockStack) (rest : List Token), k.isBlock = true →
      Reads (.statements [] k, us ++ rest) (.closed b k, rest)

/-! ### Statements -/

theorem Rule.endStatement {head : StmtHead} {e : Expr} {done : Block} {k : BlockStack}
    {ts : List Token} (last : nextKind ts ≠ .semicolon) :
    Rule (.whole e (.statement head done k), ts) (.statements (done ++ [head.complete e]) k, ts) := by
  have stay : ts.dropWhile (·.kind = .semicolon) = ts := by
    cases ts with
    | nil => rfl
    | cons t ts => simp_all
  have headed (h : head ≠ .bare) :
      Rule (.whole e (.statement head done k), ts)
        (.statements (done ++ [head.complete e]) k, ts.dropWhile (·.kind = .semicolon)) :=
    .headed h
  rw [stay] at headed
  cases head with
  | bare => exact .bare last
  | define _ | assign _ | «return» => exact headed StmtHead.noConfusion

theorem Rule.endStatementSemicolon {head : StmtHead} {e : Expr} {done : Block} {k : BlockStack}
    {t : Token} {ts : List Token} (semicolon : t.kind = .semicolon)
    (last : nextKind ts ≠ .semicolon) :
    Rule (.whole e (.statement head done k), t :: ts)
      (.statements (done ++ [head.complete e]) k, ts) := by
  have stay : (t :: ts).dropWhile (·.kind = .semicolon) = ts := by
    cases ts with
    | nil => simp [semicolon]
    | cons u ts => simp_all
  have headed (h : head ≠ .bare) :
      Rule (.whole e (.statement head done k), t :: ts)
        (.statements (done ++ [head.complete e]) k, (t :: ts).dropWhile (·.kind = .semicolon)) :=
    .headed h
  rw [stay] at headed
  cases head with
  | bare => exact .bareSemicolon semicolon
  | define _ | assign _ | «return» => exact headed StmtHead.noConfusion

/-- A bare expression begins its statement as an operand, the first rule apart. -/
theorem Expr.Legible.bare {w : Bool} {e : Expr} {ts : List Token} (h : Expr.Legible w e ts)
    (written : Expr.Written w e ts) : Stmt.Legible (.bare e) ts := by
  refine ⟨.bare, e, rfl, ?_⟩
  intro done k rest closed
  have read := h.whole (k := .statement .bare done k) closed
  obtain ⟨t, us, rfl, -, other⟩ := written.begins
  have noAssign : nextKind rest ≠ .assign := fun sign => by simp [sign] at closed
  rcases read.cases_head with same | ⟨p, rule, read⟩
  · cases same
  · cases rule with
    | operand rule => exact .head (.begin rule fun name => other name rest noAssign) read

/-! ### Lists -/

theorem Expr.WrittenMoreItems.closes {es : List Expr} {us rest : List Token}
    (h : Expr.WrittenMoreItems es us) (closed : (nextKind rest).closes = true) :
    (nextKind (us ++ rest)).closes = true := by
  cases h with
  | nil => exact closed
  | cons comma _ _ => simp [comma]

theorem Expr.WrittenMorePairs.closes {ps : List (Expr × Expr)} {us rest : List Token}
    (h : Expr.WrittenMorePairs ps us) (closed : (nextKind rest).closes = true) :
    (nextKind (us ++ rest)).closes = true := by
  cases h with
  | nil => exact closed
  | cons comma _ _ _ _ => simp [comma]

theorem Block.WrittenMore.closes {ss : Block} {us rest : List Token}
    (h : Block.WrittenMore ss us) (closed : (nextKind rest).closes = true) :
    (nextKind (us ++ rest)).closes = true := by
  cases h with
  | nil => exact closed
  | cons semicolon _ _ => simp [semicolon]

theorem Expr.Written.nextKind_ne {kind : TokenKind} {w : Bool} {e : Expr} {ts rest : List Token}
    (h : Expr.Written w e ts) (never : kind.beginsOperand = false) :
    nextKind (ts ++ rest) ≠ kind := by
  obtain ⟨t, us, rfl, first, -⟩ := h.begins
  intro same
  rw [List.cons_append, nextKind_cons] at same
  simp [same, never] at first

theorem Stmt.Written.nextKind_ne_semicolon {s : Stmt} {ts rest : List Token}
    (h : Stmt.Written s ts) : nextKind (ts ++ rest) ≠ .semicolon := by
  cases h with
  | define word _ _ _ | «return» word _ => simp [word]
  | assign name _ _ => simp [name]
  | bare expr => exact expr.nextKind_ne rfl

/-- A construct that takes expressions one after another, with commas between. -/
def TakesItems (frame : List Expr → ExprStack) : Prop :=
  ∀ (done : List Expr) (e : Expr) (t : Token) (ts : List Token), t.kind = .comma →
    Rule (.whole e (frame done), t :: ts) (.operand .lowest (frame (done ++ [e])), ts)

/-- The parser reads `us` as the expressions `es`, each behind a comma. -/
def Expr.LegibleMoreItems (es : List Expr) (us : List Token) : Prop :=
  ∀ (frame : List Expr → ExprStack), TakesItems frame →
    ∀ (done : List Expr) (e : Expr) (rest : List Token), (nextKind rest).closes = true →
      ∃ done' e', done' ++ [e'] = done ++ e :: es ∧
        Reads (.whole e (frame done), us ++ rest) (.whole e' (frame done'), rest)

/-- The parser reads `us` as the pairs `ps`, each behind a comma. -/
def Expr.LegibleMorePairs (ps : List (Expr × Expr)) (us : List Token) : Prop :=
  ∀ (done : List (Expr × Expr)) (key e : Expr) (f : Precedence) (k : ExprStack)
    (rest : List Token), (nextKind rest).closes = true →
      ∃ done' key' e', done' ++ [(key', e')] = done ++ (key, e) :: ps ∧
        Reads (.whole e (.value done key f k), us ++ rest) (.whole e' (.value done' key' f k), rest)

/-- The parser reads `us` as the statements `ss`, each behind a semicolon. -/
def Block.LegibleMore (ss : Block) (us : List Token) : Prop :=
  ∀ (head : StmtHead) (e : Expr) (done : Block) (k : BlockStack) (rest : List Token),
    (nextKind rest).closes = true → nextKind rest ≠ .semicolon →
    Reads (.whole e (.statement head done k), us ++ rest)
      (.statements (done ++ head.complete e :: ss) k, rest)

/-- The parser reads `ts` as the second block of a conditional, if there is one. -/
def Block.LegibleElse (a : Option Block) (ts : List Token) : Prop :=
  ∀ (c : Expr) (b : Block) (f : Precedence) (k : ExprStack) (rest : List Token),
    nextKind rest ≠ .elseWord →
    Reads (.closed b (.consequence c f k), ts ++ rest) (.extend f (.conditional c b a) k, rest)

/-! ### Reading back -/

theorem Expr.le_grip {p : Precedence} {w : Bool} {e : Expr} (low : p ≤ .unary)
    (root : w = false → ∀ op, e.root? = some op → p ≤ op.precedence) : p ≤ e.grip w := by
  have top : p ≤ .index := Nat.le_trans low (by decide)
  cases w with
  | true => exact top
  | false =>
    cases e with
    | binary l op r => exact root rfl op rfl
    | unary op e => exact low
    | _ => exact top

theorem Expr.Legible.atom {t : Token} {e : Expr} (token : t.atom? = some e) :
    Expr.Legible false e [t] :=
  fun _ _ _ _ _ _ => .single (.operand (.atom token))

theorem Expr.Legible.group {l r : Token} {w : Bool} {e : Expr} {ts : List Token}
    (left : l.kind = .leftParen) (inside : Expr.Legible w e ts) (right : r.kind = .rightParen) :
    Expr.Legible true e (l :: (ts ++ [r])) := by
  intro f k rest _ _ _
  simp only [List.cons_append, List.append_assoc, List.nil_append]
  refine .head (.operand (.group left)) ?_
  exact (inside.whole (by simp [right])).tail (.closeGroup right)

theorem Expr.Legible.unary {t : Token} {op : UnaryOp} {w : Bool} {e : Expr} {ts : List Token}
    (sign : t.kind.unary? = some op) (operand : Expr.Legible w e ts)
    (parens : e.root? ≠ none → w = true) : Expr.Legible false (.unary op e) (t :: ts) := by
  intro f k rest _ _ follows
  have noRoot : w = false → ∀ op', e.root? ≠ some op' := by
    intro bare op' root
    simp [parens (by simp [root])] at bare
  have bound : Precedence.unary ≤ e.grip w :=
    Expr.le_grip (Nat.le_refl _) fun bare op' root => absurd root (noRoot bare op')
  refine .head (.operand (.unary sign)) ?_
  refine (operand _ _ _ (by decide) (fun bare op' root => absurd root (noRoot bare op'))
    (follows.mono bound)).trans ?_
  exact .head (.whole (follows.loose (Nat.le_refl _))) (.single .unary)

theorem Expr.Legible.binary {t : Token} {op : BinaryOp} {w w' : Bool} {l r : Expr}
    {ls rs : List Token} (left : Expr.Legible w l ls)
    (leftParens : ∀ op', l.root? = some op' → op'.precedence < op.precedence → w = true)
    (sign : t.kind.extension? = some (.operator op)) (right : Expr.Legible w' r rs)
    (rightParens : ∀ op', r.root? = some op' → op'.precedence ≤ op.precedence → w' = true) :
    Expr.Legible false (.binary l op r) (ls ++ t :: rs) := by
  intro f k rest low above follows
  have tight : f < op.precedence := above rfl op rfl
  have belowUnary : op.precedence ≤ .unary := Nat.le_of_lt op.precedence_lt_unary
  have leftRoot : w = false → ∀ op', l.root? = some op' → op.precedence ≤ op'.precedence := by
    intro bare op' root
    refine Nat.le_of_not_lt ?_
    intro looser
    simp [leftParens op' root looser] at bare
  have rightRoot : w' = false → ∀ op', r.root? = some op' → op.precedence < op'.precedence := by
    intro bare op' root
    refine Nat.lt_of_not_le ?_
    intro looser
    simp [rightParens op' root looser] at bare
  rw [List.append_assoc, List.cons_append]
  -- the left operand ends before the operator, which is no tighter than its grip
  refine (left f _ _ low (fun bare op' root => Nat.lt_of_lt_of_le tight (leftRoot bare op' root))
    (.of_extension sign (Expr.le_grip belowUnary leftRoot))).trans ?_
  refine .head (.operator sign tight) ?_
  refine (right _ _ _ (Nat.lt_of_lt_of_le op.precedence_lt_unary (by decide)) rightRoot
    (follows.mono (Expr.le_grip belowUnary fun bare op' root =>
      Nat.le_of_lt (rightRoot bare op' root)))).trans ?_
  exact .head (.whole (follows.loose (Nat.le_refl _))) (.single .binary)

theorem takesItems_argument (c : Expr) (f : Precedence) (k : ExprStack) :
    TakesItems fun done => .argument c done f k :=
  fun _ _ _ _ comma => .nextArgument comma

theorem takesItems_item (f : Precedence) (k : ExprStack) : TakesItems fun done => .item done f k :=
  fun _ _ _ _ comma => .nextItem comma

/-- What stands before the bracket of a call or a subscript is read as a whole. -/
theorem Expr.Legible.head {w : Bool} {e : Expr} {ts : List Token} (h : Expr.Legible w e ts)
    (parens : e.isOperator = true → w = true) {f : Precedence} {k : ExprStack} {t : Token}
    {rest : List Token} (low : f < .call) {x : Extension} (sign : t.kind.extension? = some x) :
    Reads (.operand f k, ts ++ t :: rest) (.extend f e k, t :: rest) := by
  have top : e.grip w = .index := by
    cases w <;> cases e <;> simp_all [Expr.grip, Expr.isOperator]
  refine h _ _ _ low (fun bare op root => ?_) (top ▸ .of_extension sign x.precedence_le_index)
  cases e <;> simp_all [Expr.root?, Expr.isOperator]

theorem Expr.Legible.items {w : Bool} {e : Expr} {es : List Expr} {ts us : List Token}
    (first : Expr.Legible w e ts) (more : Expr.LegibleMoreItems es us)
    (written : Expr.WrittenMoreItems es us) {frame : List Expr → ExprStack}
    (takes : TakesItems frame) {rest : List Token} (closed : (nextKind rest).closes = true) :
    ∃ done e', done ++ [e'] = e :: es ∧
      Reads (.operand .lowest (frame []), ts ++ (us ++ rest)) (.whole e' (frame done), rest) := by
  obtain ⟨done, e', all, read⟩ := more frame takes [] e rest closed
  exact ⟨done, e', all, (first.whole (written.closes closed)).trans read⟩

theorem Expr.Legible.call {l r : Token} {w w' : Bool} {c e : Expr} {es : List Expr}
    {cs ts us : List Token} (callee : Expr.Legible w c cs)
    (parens : c.isOperator = true → w = true) (left : l.kind = .leftParen)
    (written : Expr.Written w' e ts) (first : Expr.Legible w' e ts)
    (others : Expr.WrittenMoreItems es us) (more : Expr.LegibleMoreItems es us)
    (right : r.kind = .rightParen) :
    Expr.Legible false (.call c (e :: es)) (cs ++ l :: (ts ++ us ++ [r])) := by
  intro f k rest low _ _
  simp only [List.cons_append, List.append_assoc, List.nil_append]
  refine (callee.head parens low (by rw [left]; rfl)).trans ?_
  refine .head (.call left (written.nextKind_ne rfl) low) ?_
  have closed : (nextKind (r :: rest)).closes = true := by simp [right]
  obtain ⟨done, e', all, read⟩ := first.items more others (takesItems_argument c f k) closed
  refine read.trans ?_
  rw [← all]
  exact .single (.closeCall right)

theorem Expr.Legible.emptyCall {l r : Token} {w : Bool} {c : Expr} {cs : List Token}
    (callee : Expr.Legible w c cs) (parens : c.isOperator = true → w = true)
    (left : l.kind = .leftParen) (right : r.kind = .rightParen) :
    Expr.Legible false (.call c []) (cs ++ l :: [r]) := by
  intro f k rest low _ _
  simp only [List.cons_append, List.append_assoc, List.nil_append]
  refine (callee.head parens low (by rw [left]; rfl)).trans ?_
  exact .single (.emptyCall left right low)

theorem Expr.Legible.index {l r : Token} {w w' : Bool} {c i : Expr} {cs ts : List Token}
    (collection : Expr.Legible w c cs) (parens : c.isOperator = true → w = true)
    (left : l.kind = .leftBracket) (subscript : Expr.Legible w' i ts)
    (right : r.kind = .rightBracket) :
    Expr.Legible false (.index c i) (cs ++ l :: (ts ++ [r])) := by
  intro f k rest low _ _
  simp only [List.cons_append, List.append_assoc, List.nil_append]
  refine (collection.head parens low (by rw [left]; rfl)).trans ?_
  refine .head (.subscript left (Nat.lt_trans low (by decide))) ?_
  exact (subscript.whole (by simp [right])).tail (.closeSubscript right)

theorem Expr.Legible.array {l r : Token} {w : Bool} {e : Expr} {es : List Expr}
    {ts us : List Token} (left : l.kind = .leftBracket) (written : Expr.Written w e ts)
    (first : Expr.Legible w e ts) (others : Expr.WrittenMoreItems es us)
    (more : Expr.LegibleMoreItems es us) (right : r.kind = .rightBracket) :
    Expr.Legible false (.array (e :: es)) (l :: (ts ++ us ++ [r])) := by
  intro f k rest _ _ _
  simp only [List.cons_append, List.append_assoc, List.nil_append]
  refine .head (.operand (.array left (written.nextKind_ne rfl))) ?_
  have closed : (nextKind (r :: rest)).closes = true := by simp [right]
  obtain ⟨done, e', all, read⟩ := first.items more others (takesItems_item f k) closed
  refine read.trans ?_
  rw [← all]
  exact .single (.closeArray right)

theorem Expr.LegibleMoreItems.cons {t : Token} {w : Bool} {e : Expr} {es : List Expr}
    {ts us : List Token} (comma : t.kind = .comma) (next : Expr.Legible w e ts)
    (others : Expr.WrittenMoreItems es us) (more : Expr.LegibleMoreItems es us) :
    Expr.LegibleMoreItems (e :: es) (t :: (ts ++ us)) := by
  intro frame takes done e' rest closed
  rw [List.cons_append, List.append_assoc]
  obtain ⟨done', last, all, read⟩ := more frame takes (done ++ [e']) e rest closed
  refine ⟨done', last, by rw [all]; simp, .head (takes _ _ _ _ comma) ?_⟩
  exact (next.whole (others.closes closed)).trans read

theorem Expr.Legible.table {l r t : Token} {w w' : Bool} {key e : Expr}
    {ps : List (Expr × Expr)} {ks vs us : List Token} (left : l.kind = .leftBrace)
    (written : Expr.Written w key ks) (firstKey : Expr.Legible w key ks) (colon : t.kind = .colon)
    (firstValue : Expr.Legible w' e vs) (others : Expr.WrittenMorePairs ps us)
    (more : Expr.LegibleMorePairs ps us) (right : r.kind = .rightBrace) :
    Expr.Legible false (.table ((key, e) :: ps)) (l :: (ks ++ t :: (vs ++ us) ++ [r])) := by
  intro f k rest _ _ _
  simp only [List.cons_append, List.append_assoc, List.nil_append]
  refine .head (.operand (.table left (written.nextKind_ne rfl))) ?_
  refine (firstKey.whole (by simp [colon])).trans (.head (.key colon) ?_)
  have closed : (nextKind (r :: rest)).closes = true := by simp [right]
  refine (firstValue.whole (others.closes closed)).trans ?_
  obtain ⟨done, key', e', all, read⟩ := more [] key e f k (r :: rest) closed
  refine read.trans ?_
  rw [List.nil_append] at all
  rw [← all]
  exact .single (.closeTable right)

theorem Expr.LegibleMorePairs.cons {t t' : Token} {w w' : Bool} {key e : Expr}
    {ps : List (Expr × Expr)} {ks vs us : List Token} (comma : t.kind = .comma)
    (written : Expr.Written w key ks) (nextKey : Expr.Legible w key ks) (colon : t'.kind = .colon)
    (nextValue : Expr.Legible w' e vs) (others : Expr.WrittenMorePairs ps us)
    (more : Expr.LegibleMorePairs ps us) :
    Expr.LegibleMorePairs ((key, e) :: ps) (t :: (ks ++ t' :: (vs ++ us))) := by
  intro done key' e' f k rest closed
  simp only [List.cons_append, List.append_assoc]
  obtain ⟨done', lastKey, last, all, read⟩ := more (done ++ [(key', e')]) key e f k rest closed
  refine ⟨done', lastKey, last, by rw [all]; simp, ?_⟩
  refine .head (.nextKey comma (written.nextKind_ne rfl)) ?_
  refine (nextKey.whole (by simp [colon])).trans (.head (.key colon) ?_)
  exact (nextValue.whole (others.closes closed)).trans read

theorem Expr.Legible.conditional {i l r : Token} {w : Bool} {c : Expr} {b : Block}
    {a : Option Block} {cs bs as : List Token} (word : i.kind = .ifWord)
    (left : l.kind = .leftParen) (condition : Expr.Legible w c cs) (right : r.kind = .rightParen)
    (consequence : Block.LegibleBraced b bs) (alternative : Block.LegibleElse a as) :
    Expr.Legible false (.conditional c b a) (i :: l :: (cs ++ r :: (bs ++ as))) := by
  intro f k rest _ _ follows
  obtain ⟨brace, us, rfl, hb, body⟩ := consequence
  simp only [List.cons_append, List.append_assoc]
  refine .head (.operand (.conditional word left)) ?_
  refine (condition.whole (by simp [right])).trans ?_
  refine .head (.consequence right hb) ((body _ _ rfl).trans ?_)
  exact alternative _ _ _ _ _ follows.1

theorem Block.LegibleElse.none : Block.LegibleElse none [] :=
  fun _ _ _ _ _ last => .single (.conditional last)

theorem Block.LegibleElse.some {i : Token} {b : Block} {ts : List Token} (word : i.kind = .elseWord)
    (block : Block.LegibleBraced b ts) : Block.LegibleElse (some b) (i :: ts) := by
  intro c b' f k rest _
  obtain ⟨brace, us, rfl, hb, body⟩ := block
  exact .head (.alternative word hb) ((body _ _ rfl).tail .conditionalElse)

theorem Expr.Legible.loop {i l r : Token} {w : Bool} {c : Expr} {b : Block} {cs bs : List Token}
    (word : i.kind = .whileWord) (left : l.kind = .leftParen) (condition : Expr.Legible w c cs)
    (right : r.kind = .rightParen) (body : Block.LegibleBraced b bs) :
    Expr.Legible false (.loop c b) (i :: l :: (cs ++ r :: bs)) := by
  intro f k rest _ _ _
  obtain ⟨brace, us, rfl, hb, read⟩ := body
  simp only [List.cons_append, List.append_assoc]
  refine .head (.operand (.loop word left)) ?_
  refine (condition.whole (by simp [right])).trans ?_
  exact .head (.loopBody right hb) ((read _ _ rfl).tail .loop)

theorem Expr.Legible.function {i : Token} {ps : List String} {b : Block} {us bs : List Token}
    (word : i.kind = .functionWord) (params : ParameterList ps us)
    (body : Block.LegibleBraced b bs) :
    Expr.Legible false (.function ps b) (i :: (us ++ bs)) := by
  intro f k rest _ _ _
  obtain ⟨brace, vs, rfl, hb, read⟩ := body
  simp only [List.cons_append, List.append_assoc]
  exact .head (.operand (.function word params hb)) ((read _ _ rfl).tail .function)

theorem Block.LegibleBraced.braces {l r : Token} {b : Block} {ts : List Token}
    (left : l.kind = .leftBrace) (body : Block.Legible b ts) (right : r.kind = .rightBrace) :
    Block.LegibleBraced b (l :: (ts ++ [r])) := by
  refine ⟨l, ts ++ [r], rfl, left, ?_⟩
  intro k rest block
  rw [List.append_assoc]
  have read : Reads (.statements [] k, ts ++ r :: rest) (.statements b k, r :: rest) :=
    body _ _ _ (by simp [right]) (by simp [right])
  exact read.tail (.closeBlock block right)

theorem Stmt.Legible.block {s : Stmt} {ss : Block} {ts us : List Token} (first : Stmt.Legible s ts)
    (others : Block.WrittenMore ss us) (more : Block.LegibleMore ss us) :
    Block.Legible (s :: ss) (ts ++ us) := by
  intro done k rest closed last
  obtain ⟨head, e, rfl, read⟩ := first
  rw [List.append_assoc]
  exact (read done k _ (others.closes closed)).trans (more _ _ _ _ _ closed last)

theorem Block.Legible.nil : Block.Legible [] [] := by
  intro done k rest _ _
  rw [List.append_nil]
  exact .refl

theorem Block.LegibleMore.nil : Block.LegibleMore [] [] :=
  fun _ _ _ _ _ _ last => .single (.endStatement last)

theorem Block.LegibleMore.cons {t : Token} {s : Stmt} {ss : Block} {ts us : List Token}
    (semicolon : t.kind = .semicolon) (written : Stmt.Written s ts) (next : Stmt.Legible s ts)
    (others : Block.WrittenMore ss us) (more : Block.LegibleMore ss us) :
    Block.LegibleMore (s :: ss) (t :: (ts ++ us)) := by
  intro head e done k rest closed last
  obtain ⟨head', e', rfl, read⟩ := next
  rw [List.cons_append, List.append_assoc]
  refine .head (.endStatementSemicolon semicolon written.nextKind_ne_semicolon) ?_
  refine (read _ _ _ (others.closes closed)).trans ?_
  have others := more head' e' (done ++ [head.complete e]) k rest closed last
  rwa [List.append_assoc, List.singleton_append] at others

/-! ### Everything written is legible -/

mutual

theorem Expr.Written.legible : ∀ {w e ts}, Expr.Written w e ts → Expr.Legible w e ts
  | _, _, _, .atom token => .atom token
  | _, _, _, .group left inside right => .group left inside.legible right
  | _, _, _, .unary sign operand parens => .unary sign operand.legible parens
  | _, _, _, .binary left leftParens sign right rightParens =>
    .binary left.legible leftParens sign right.legible rightParens
  | _, _, _, .call callee parens left .nil right =>
    .emptyCall callee.legible parens left right
  | _, _, _, .call callee parens left (.cons first more) right =>
    .call callee.legible parens left first first.legible more more.legible right
  | _, _, _, .index collection parens left subscript right =>
    .index collection.legible parens left subscript.legible right
  | _, _, _, .array left .nil right => fun _ _ _ _ _ _ => .single (.operand (.emptyArray left right))
  | _, _, _, .array left (.cons first more) right =>
    .array left first first.legible more more.legible right
  | _, _, _, .table left .nil right => fun _ _ _ _ _ _ => .single (.operand (.emptyTable left right))
  | _, _, _, .table left (.cons key colon value more) right =>
    .table left key key.legible colon value.legible more more.legible right
  | _, _, _, .conditional word left condition right consequence alternative =>
    .conditional word left condition.legible right consequence.legible alternative.legible
  | _, _, _, .loop word left condition right body =>
    .loop word left condition.legible right body.legible
  | _, _, _, .function word params body => .function word params body.legible

theorem Expr.WrittenMoreItems.legible :
    ∀ {es us}, Expr.WrittenMoreItems es us → Expr.LegibleMoreItems es us
  | _, _, .nil => fun _ _ done e _ _ => ⟨done, e, rfl, .refl⟩
  | _, _, .cons comma next more => .cons comma next.legible more more.legible

theorem Expr.WrittenMorePairs.legible :
    ∀ {ps us}, Expr.WrittenMorePairs ps us → Expr.LegibleMorePairs ps us
  | _, _, .nil => fun done key e _ _ _ _ => ⟨done, key, e, rfl, .refl⟩
  | _, _, .cons comma key colon value more =>
    .cons comma key key.legible colon value.legible more more.legible

theorem Stmt.Written.legible : ∀ {s ts}, Stmt.Written s ts → Stmt.Legible s ts
  | _, _, .define word name sign value =>
    ⟨.define _, _, rfl, fun _ _ _ closed => .head (.define word name sign) (value.legible.whole closed)⟩
  | _, _, .assign name sign value =>
    ⟨.assign _, _, rfl, fun _ _ _ closed => .head (.assign name sign) (value.legible.whole closed)⟩
  | _, _, .return word value =>
    ⟨.return, _, rfl, fun _ _ _ closed => .head (.return word) (value.legible.whole closed)⟩
  | _, _, .bare expr => expr.legible.bare expr

theorem Block.WrittenMore.legible : ∀ {ss us}, Block.WrittenMore ss us → Block.LegibleMore ss us
  | _, _, .nil => .nil
  | _, _, .cons semicolon next more => .cons semicolon next next.legible more more.legible

theorem Block.WrittenBraced.legible :
    ∀ {b ts}, Block.WrittenBraced b ts → Block.LegibleBraced b ts
  | _, _, .braces left body right => .braces left body.legible right

theorem Block.Written.legible : ∀ {b ts}, Block.Written b ts → Block.Legible b ts
  | _, _, .nil => .nil
  | _, _, .cons first more => first.legible.block more more.legible

theorem Block.WrittenElse.legible : ∀ {a ts}, Block.WrittenElse a ts → Block.LegibleElse a ts
  | _, _, .none => .none
  | _, _, .some word block => .some word block.legible

end

/-! ### Streams -/

/-- A stream that writes statements is read as them. -/
theorem Parsed.ofStream_of_block {b : Block} {ts : List Token} (h : Block.Written b ts)
    (stop : Span) : Parsed.ofStream ⟨ts, stop⟩ = ⟨⟨b⟩, []⟩ := by
  have read : Reads (.statements [] .program, ts) (.statements b .program, []) := by
    simpa using h.legible [] .program [] rfl (by decide)
  obtain ⟨s, reached, clean, finish⟩ :=
    ParseState.finish_of_reads (read.tail .closeProgram)
      (s := .start ⟨ts, stop⟩) rfl
  obtain ⟨control, ⟨last, rest, stop'⟩, ds⟩ := s
  cases reached
  cases clean
  have stopped := finish.trans (ParseState.finish_of_stopped rfl)
  rw [ParseState.start] at stopped
  simp [Parsed.ofStream, Parsed.ofCursor, stopped, ParseState.program]

/-- However an expression is written, with the parentheses that precedence asks
    for and any others, its tokens are read as that expression and nothing else. -/
theorem Parsed.ofStream_of_written {w : Bool} {e : Expr} {ts : List Token}
    (h : Expr.Written w e ts) (stop : Span) :
    Parsed.ofStream ⟨ts, stop⟩ = ⟨⟨[.bare e]⟩, []⟩ := by
  have statement : Block.Written [.bare e] ts := by
    simpa using Block.Written.cons (.bare h) .nil
  exact Parsed.ofStream_of_block statement stop

/-- The tokens `a - b - -(c) * d[0]`: the differences group to the left, the
    product binds more tightly, and the sign takes its operand only. -/
theorem Parsed.ofStream_of_written_differences :
    let a : Token := ⟨.identifier, "a", default⟩
    let b : Token := ⟨.identifier, "b", default⟩
    let c : Token := ⟨.identifier, "c", default⟩
    let d : Token := ⟨.identifier, "d", default⟩
    let zero : Token := ⟨.integer, "0", default⟩
    let mark (kind : TokenKind) : Token := ⟨kind, kind.name, default⟩
    let ts := [a, mark .minus, b, mark .minus, mark .minus, mark .leftParen, c, mark .rightParen,
      mark .asterisk, d, mark .leftBracket, zero, mark .rightBracket]
    let e : Expr :=
      .binary (.binary (.identifier "a") .sub (.identifier "b")) .sub
        (.binary (.unary .negate (.identifier "c")) .mul (.index (.identifier "d") (.integer 0)))
    Expr.Written false e ts ∧ Parsed.ofStream ⟨ts, default⟩ = ⟨⟨[.bare e]⟩, []⟩ := by
  intro a b c d zero mark ts e
  have name (t : Token) (h : t.kind = .identifier) :
      Expr.Written false (.identifier t.literal) [t] :=
    .atom (by simp [Token.atom?, h])
  have difference : Expr.Written false (.binary (.identifier "a") .sub (.identifier "b"))
      [a, mark .minus, b] :=
    .binary (name a rfl) (by simp [Expr.root?]) rfl (name b rfl) (by simp [Expr.root?])
  have sign : Expr.Written false (.unary .negate (.identifier "c"))
      [mark .minus, mark .leftParen, c, mark .rightParen] :=
    .unary rfl (.group rfl (name c rfl) rfl) (fun _ => rfl)
  have digit : zero.atom? = some (.integer 0) :=
    congrArg (Option.map Expr.integer) (by decide : integerOfLiteral? "0" = some 0)
  have item : Expr.Written false (.index (.identifier "d") (.integer 0))
      [d, mark .leftBracket, zero, mark .rightBracket] :=
    .index (name d rfl) (by simp [Expr.isOperator]) rfl (.atom digit) rfl
  have product : Expr.Written false
      (.binary (.unary .negate (.identifier "c")) .mul (.index (.identifier "d") (.integer 0))) _ :=
    .binary (t := mark .asterisk) sign (by simp [Expr.root?]) rfl item (by simp [Expr.root?])
  have written : Expr.Written false e ts :=
    .binary (t := mark .minus) difference (by simp [Expr.root?]; decide) rfl product
      (by simp [Expr.root?]; decide)
  exact ⟨written, Parsed.ofStream_of_written written default⟩

end Script
