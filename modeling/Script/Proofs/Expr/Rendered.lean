/-
  Script/Proofs/Expr/Rendered.lean
  ================================
  **The text of a tree writes the tree.**

  Read token by token, the text of a printable tree is one of the sequences
  that write it.  Operators and subscripts stand in parentheses there, so no
  precedence matters; and behind an expression the text goes on with a
  character that cannot lengthen its last word or number.

  Main statements: `Expr.scanned` and, for lists of statements,
  `Block.scanned`; then that the text of a program is read as that program
  (`Program.ofString_render`).
-/
import Script.Proofs.Expr.Printable
import Script.Proofs.Parse.Reading
import Script.Proofs.Text.Decimal

namespace Script

attribute [simp] Expr.render Stmt.render Block.renderEach Block.renderElse Expr.renderEach
  Expr.renderPairs

/-! ### Words and operators -/

theorem cuts_keyword {word : String} {kind : TokenKind} (h : TokenKind.ofKeyword? word = some kind)
    (letters : word.toList.all isLetter = true) {rest : List Char} (stop : Boundary rest) :
    Cuts (word.toList ++ rest) kind word rest := by
  have ne : word.toList ≠ [] := by
    intro empty
    rw [String.toList_eq_nil_iff.mp empty] at h
    cases h
  have cut := cuts_word ne (List.all_eq_true.mp letters) stop
  rwa [String.ofList_toList, TokenKind.ofWord, h] at cut

theorem cuts_name {name : String} (h : isName name = true) {rest : List Char}
    (stop : Boundary rest) : Cuts (name.toList ++ rest) .identifier name rest := by
  simp only [isName, Bool.and_eq_true, Bool.not_eq_true', List.isEmpty_eq_false_iff,
    Option.isNone_iff_eq_none] at h
  obtain ⟨⟨ne, letters⟩, free⟩ := h
  have cut := cuts_word ne (List.all_eq_true.mp letters) stop
  rwa [String.ofList_toList, TokenKind.ofWord, free] at cut

theorem cuts_binaryOp (op : BinaryOp) (rest : List Char) :
    ∃ literal, Cuts (op.symbol.toList ++ rest) op.kind literal rest := by
  cases op with
  | equal => exact ⟨_, cuts_equal rest⟩
  | notEqual => exact ⟨_, cuts_notEqual rest⟩
  | _ => exact ⟨_, cuts_symbol rfl rest⟩

theorem cuts_unaryOp (op : UnaryOp) {rest : List Char} (other : rest.head? ≠ some '=') :
    ∃ literal, Cuts (op.symbol.toList ++ rest) op.kind literal rest := by
  cases op with
  | not => exact ⟨_, cuts_bang other⟩
  | negate => exact ⟨_, cuts_symbol rfl rest⟩

/-! ### Texts in front of others -/

/-- In front of anything that ends a word, the text `cs` yields tokens of which
    `P` holds. -/
def Yields (P : List Token → Prop) (cs : List Char) : Prop :=
  ∀ rest, Boundary rest → Scans P (cs ++ rest) rest

/-- Texts, each behind a mark and a blank. -/
def behind (mark : Char) (xs : List String) : List Char :=
  xs.flatMap fun x => mark :: ' ' :: x.toList

theorem toList_intercalate_cons {sep : String} {mark : Char} (h : sep.toList = [mark, ' '])
    (x : String) (xs : List String) :
    (sep.intercalate (x :: xs)).toList = x.toList ++ behind mark xs := by
  induction xs generalizing x with
  | nil => simp [behind]
  | cons y xs ih => simp [ih, h, behind]

theorem Boundary.symbol {c : Char} {kind : TokenKind} (h : symbol? c = some kind)
    (cs : List Char) : Boundary (c :: cs) := by
  have letter : isLetter c = false := by
    rw [Bool.eq_false_iff]
    intro letter
    rw [symbol?_of_letter letter] at h
    cases h
  have digit : c.isDigit = false := by
    rw [Bool.eq_false_iff]
    intro digit
    rw [symbol?_of_digit digit] at h
    cases h
  exact .cons letter digit

theorem Boundary.behind {mark : Char} {kind : TokenKind} (h : symbol? mark = some kind)
    (xs : List String) {rest : List Char} (stop : Boundary rest) :
    Boundary (behind mark xs ++ rest) := by
  cases xs with
  | nil => exact stop
  | cons x xs => exact .symbol h _

section Lists

variable {P Q R : List Token → Prop} {mark : Char} {kind : TokenKind} {x : String}
  {xs : List String}

theorem Yields.nil (h : P []) : Yields P [] :=
  fun _ _ => .nothing h

theorem Yields.behind (isSymbol : symbol? mark = some kind) (first : Yields P x.toList)
    (others : Yields Q (behind mark xs))
    (join : ∀ t ts us, t.kind = kind → P ts → Q us → R (t :: (ts ++ us))) :
    Yields R (Script.behind mark (x :: xs)) := by
  intro rest stop
  have shape : Script.behind mark (x :: xs) ++ rest
      = mark :: ' ' :: (x.toList ++ (Script.behind mark xs ++ rest)) := by
    simp [Script.behind]
  rw [shape]
  apply Scans.cons (cuts_symbol isSymbol _)
  intro t isMark _
  apply Scans.blank rfl
  apply (first _ (.behind isSymbol xs stop)).append
  intro ts holds
  exact (others rest stop).mono fun us holds' => join t ts us isMark holds holds'

theorem Yields.intercalate {sep : String} (h : sep.toList = [mark, ' '])
    (isSymbol : symbol? mark = some kind) (first : Yields P x.toList)
    (others : Yields Q (Script.behind mark xs)) (join : ∀ ts us, P ts → Q us → R (ts ++ us)) :
    Yields R (sep.intercalate (x :: xs)).toList := by
  intro rest stop
  rw [toList_intercalate_cons h, List.append_assoc]
  apply (first _ (.behind isSymbol xs stop)).append
  intro ts holds
  exact (others rest stop).mono fun us holds' => join ts us holds holds'

end Lists

theorem yields_names {ps : List String} (names : ps.all isName = true) (ne : ps ≠ []) :
    Yields (NameList ps) (", ".intercalate ps).toList := by
  induction ps with
  | nil => exact absurd rfl ne
  | cons p ps ih =>
    intro rest stop
    rw [List.all_cons, Bool.and_eq_true] at names
    cases ps with
    | nil =>
      rw [String.intercalate_singleton]
      refine .cons (cuts_name names.1 stop) fun t isName isLiteral => .nothing ?_
      exact isLiteral ▸ .one isName
    | cons q ps =>
      simp only [String.intercalate_cons_cons, String.toList_append, List.append_assoc]
      apply Scans.cons (cuts_name names.1 (.cons rfl rfl))
      intro t isName isLiteral
      apply Scans.cons (cuts_symbol rfl _)
      intro comma isComma _
      apply Scans.blank rfl
      refine (ih names.2 (by simp) rest stop).mono ?_
      intro ts written
      exact isLiteral ▸ .more isName isComma written

theorem scans_parameters {ps : List String} (names : ps.all isName = true) (rest : List Char) :
    Scans (ParameterList ps) ('(' :: ((", ".intercalate ps).toList ++ ')' :: rest)) rest := by
  apply Scans.cons (cuts_symbol rfl _)
  intro left isLeft _
  cases ps with
  | nil => exact .cons (cuts_symbol rfl _) fun right isRight _ => .nothing (.empty isLeft isRight)
  | cons p ps =>
    apply (yields_names names (by simp) _ (.cons rfl rfl)).append
    intro ts written
    exact .cons (cuts_symbol rfl _) fun right isRight _ => .nothing (.names isLeft written isRight)

/-! ### How texts begin -/

theorem head?_append_ne {cs rest : List Char} {c : Char} (h : cs.head? ≠ some '=') (other : c ≠ '=') :
    (cs ++ c :: rest).head? ≠ some '=' := by
  cases cs with
  | nil => simpa using other
  | cons d ds => simpa using h

theorem Expr.head?_render : ∀ {e : Expr}, e.printable = true → e.render.toList.head? ≠ some '='
  | .identifier name, h => by
    simp only [Expr.printable, isName, Bool.and_eq_true] at h
    intro first
    have letter := List.all_eq_true.mp h.1.2 '=' (List.mem_of_head? first)
    exact absurd letter (by decide)
  | .integer value, h => by
    rw [Expr.printable, decide_eq_true_eq] at h
    rw [Expr.render, toString_toInt h, String.toList_ofList]
    intro first
    exact absurd (isDigit_of_mem_toDigits (List.mem_of_head? first)) (by decide)
  | .boolean value, _ => by cases value <;> decide
  | .call callee args, h => by
    simp only [Expr.printable, Bool.and_eq_true] at h
    have shape : (Expr.call callee args).render.toList = callee.render.toList ++
        '(' :: ((", ".intercalate (Expr.renderEach args)).toList ++ [')']) := by
      simp
    rw [shape]
    exact head?_append_ne (Expr.head?_render h.1) (by decide)
  | .string _, _ | .unary _ _, _ | .binary _ _ _, _ | .conditional _ _ _, _ | .loop _ _, _
  | .function _ _, _ | .array _, _ | .table _, _ | .index _ _, _ => by simp

/-! ### Texts of expressions -/

/-- Whether the text of an expression stands in parentheses. -/
def Expr.wrapped : Expr → Bool
  | .unary .. | .binary .. | .index .. => true
  | _ => false

theorem Expr.wrapped_of_isOperator {e : Expr} (h : e.isOperator = true) : e.wrapped = true := by
  cases e <;> simp_all [Expr.isOperator, Expr.wrapped]

theorem Expr.wrapped_of_root? {e : Expr} (h : e.root? ≠ none) : e.wrapped = true := by
  cases e <;> simp_all [Expr.root?, Expr.wrapped]

/-- The text of an expression writes it. -/
abbrev Expr.Scanned (e : Expr) : Prop := Yields (Expr.Written e.wrapped e) e.render.toList

abbrev Stmt.Scanned (s : Stmt) : Prop := Yields (Stmt.Written s) s.render.toList

/-- The texts of statements, separated by semicolons, write them. -/
abbrev Block.Scanned (b : Block) : Prop :=
  Yields (Block.Written b) ("; ".intercalate (Block.renderEach b)).toList

theorem Expr.Scanned.identifier {name : String} (h : isName name = true) :
    (Expr.identifier name).Scanned := by
  intro rest stop
  refine .cons (cuts_name h stop) fun t isName isLiteral => .nothing (.atom ?_)
  simp [Token.atom?, isName, isLiteral]

/-- Digits write the integer that they denote. -/
theorem yields_numeral {literal : String} {n : Int64} (numeral : IsNumeral literal)
    (denotes : integerOfLiteral? literal = some n) :
    Yields (Expr.Written false (.integer n)) literal.toList := by
  intro rest stop
  have digits := cuts_digits numeral.1 (List.all_eq_true.mp numeral.2) stop
  rw [String.ofList_toList] at digits
  refine .cons digits fun t isInteger isLiteral => .nothing (.atom ?_)
  simp only [Token.atom?, isInteger, isLiteral, denotes, Option.map_some]

theorem Expr.Scanned.integer {n : Int64} (h : 0 ≤ n.toInt) : (Expr.integer n).Scanned :=
  yields_numeral (isNumeral_toString h) (integerOfLiteral?_toString h)

theorem Expr.Scanned.string {text : String} (h : isUnquoted text = true) :
    (Expr.string text).Scanned := by
  intro rest _
  have shape : (Expr.string text).render.toList ++ rest = '"' :: (text.toList ++ '"' :: rest) := by
    simp
  rw [shape]
  refine .cons (cuts_quoted (List.all_eq_true.mp h) rest) fun t isString isLiteral =>
    .nothing (.atom ?_)
  simp [Token.atom?, isString, isLiteral]

theorem Expr.Scanned.boolean (value : Bool) : (Expr.boolean value).Scanned := by
  intro rest stop
  cases value with
  | true =>
    have word : Cuts ("true".toList ++ rest) .trueWord "true" rest := cuts_keyword rfl rfl stop
    refine .cons word fun t isWord _ => .nothing (.atom ?_)
    simp [Token.atom?, isWord]
  | false =>
    have word : Cuts ("false".toList ++ rest) .falseWord "false" rest := cuts_keyword rfl rfl stop
    refine .cons word fun t isWord _ => .nothing (.atom ?_)
    simp [Token.atom?, isWord]

theorem Expr.Scanned.unary {op : UnaryOp} {e : Expr} (printable : e.printable = true)
    (operand : e.Scanned) : (Expr.unary op e).Scanned := by
  intro rest _
  have shape : (Expr.unary op e).render.toList ++ rest
      = '(' :: (op.symbol.toList ++ (e.render.toList ++ ')' :: rest)) := by
    simp
  have other : (e.render.toList ++ ')' :: rest).head? ≠ some '=' :=
    head?_append_ne (Expr.head?_render printable) (by decide)
  obtain ⟨literal, sign⟩ := cuts_unaryOp op other
  rw [shape]
  apply Scans.cons (cuts_symbol rfl _)
  intro left isLeft _
  apply Scans.cons sign
  intro t isSign _
  apply (operand _ (.cons rfl rfl)).append
  intro ts written
  refine .cons (cuts_symbol rfl _) fun right isRight _ => .nothing ?_
  have signed : Expr.Written false (.unary op e) (t :: ts) :=
    .unary (isSign ▸ op.unary?_kind) written Expr.wrapped_of_root?
  exact .group isLeft signed isRight

theorem Expr.Scanned.binary {l r : Expr} {op : BinaryOp} (left : l.Scanned) (right : r.Scanned) :
    (Expr.binary l op r).Scanned := by
  intro rest _
  have shape : (Expr.binary l op r).render.toList ++ rest = '(' :: (l.render.toList ++
      ' ' :: (op.symbol.toList ++ ' ' :: (r.render.toList ++ ')' :: rest))) := by
    simp
  obtain ⟨literal, sign⟩ := cuts_binaryOp op (' ' :: (r.render.toList ++ ')' :: rest))
  rw [shape]
  apply Scans.cons (cuts_symbol rfl _)
  intro paren isLeft _
  apply (left _ (.cons rfl rfl)).append
  intro ls writtenLeft
  apply Scans.blank rfl
  apply Scans.cons sign
  intro t isSign _
  apply Scans.blank rfl
  apply (right _ (.cons rfl rfl)).append
  intro rs writtenRight
  refine .cons (cuts_symbol rfl _) fun close isRight _ => .nothing ?_
  have operation : Expr.Written false (.binary l op r) (ls ++ t :: rs) :=
    .binary writtenLeft (fun _ root _ => Expr.wrapped_of_root? (by simp [root]))
      (isSign ▸ op.extension?_kind) writtenRight
      (fun _ root _ => Expr.wrapped_of_root? (by simp [root]))
  simpa [Expr.wrapped] using Expr.Written.group isLeft operation isRight

theorem Expr.Scanned.index {c i : Expr} (collection : c.Scanned) (subscript : i.Scanned) :
    (Expr.index c i).Scanned := by
  intro rest _
  have shape : (Expr.index c i).render.toList ++ rest = '(' :: (c.render.toList ++
      '[' :: (i.render.toList ++ ']' :: ')' :: rest)) := by
    simp
  rw [shape]
  apply Scans.cons (cuts_symbol rfl _)
  intro paren isLeft _
  apply (collection _ (.cons rfl rfl)).append
  intro cs writtenCollection
  apply Scans.cons (cuts_symbol rfl _)
  intro bracket isBracket _
  apply (subscript _ (.cons rfl rfl)).append
  intro ts writtenSubscript
  apply Scans.cons (cuts_symbol rfl _)
  intro bracket' isBracket' _
  refine .cons (cuts_symbol rfl _) fun close isRight _ => .nothing ?_
  have item : Expr.Written false (.index c i) (cs ++ bracket :: (ts ++ [bracket'])) :=
    .index writtenCollection Expr.wrapped_of_isOperator isBracket writtenSubscript isBracket'
  simpa [Expr.wrapped] using Expr.Written.group isLeft item isRight

/-! ### Texts of calls and literals -/

theorem Expr.Scanned.call {f : Expr} {args : List Expr} (callee : f.Scanned)
    (arguments : Yields (Expr.WrittenItems args) (", ".intercalate (Expr.renderEach args)).toList) :
    (Expr.call f args).Scanned := by
  intro rest _
  have shape : (Expr.call f args).render.toList ++ rest = f.render.toList ++
      '(' :: ((", ".intercalate (Expr.renderEach args)).toList ++ ')' :: rest) := by
    simp
  rw [shape]
  apply (callee _ (.cons rfl rfl)).append
  intro ts written
  apply Scans.cons (cuts_symbol rfl _)
  intro left isLeft _
  apply (arguments _ (.cons rfl rfl)).append
  intro us items
  refine .cons (cuts_symbol rfl _) fun right isRight _ => .nothing ?_
  exact .call written Expr.wrapped_of_isOperator isLeft items isRight

/-- Texts of items between brackets write an array. -/
theorem yields_array {es : List Expr} {text : String}
    (items : Yields (Expr.WrittenItems es) text.toList) :
    Yields (Expr.Written false (.array es)) ("[" ++ text ++ "]").toList := by
  intro rest _
  have shape : ("[" ++ text ++ "]").toList ++ rest = '[' :: (text.toList ++ ']' :: rest) := by
    simp
  rw [shape]
  apply Scans.cons (cuts_symbol rfl _)
  intro left isLeft _
  apply (items _ (.cons rfl rfl)).append
  intro us written
  exact .cons (cuts_symbol rfl _) fun right isRight _ => .nothing (.array isLeft written isRight)

theorem Expr.Scanned.array {es : List Expr}
    (items : Yields (Expr.WrittenItems es) (", ".intercalate (Expr.renderEach es)).toList) :
    (Expr.array es).Scanned :=
  yields_array items

/-- Texts of pairs between braces write a table. -/
theorem yields_table {ps : List (Expr × Expr)} {text : String}
    (pairs : Yields (Expr.WrittenPairs ps) text.toList) :
    Yields (Expr.Written false (.table ps)) ("\x7b" ++ text ++ "\x7d").toList := by
  intro rest _
  have shape : ("\x7b" ++ text ++ "\x7d").toList ++ rest = '{' :: (text.toList ++ '}' :: rest) := by
    simp
  rw [shape]
  apply Scans.cons (cuts_symbol rfl _)
  intro left isLeft _
  apply (pairs _ (.cons rfl rfl)).append
  intro us written
  exact .cons (cuts_symbol rfl _) fun right isRight _ => .nothing (.table isLeft written isRight)

theorem Expr.Scanned.table {ps : List (Expr × Expr)}
    (pairs : Yields (Expr.WrittenPairs ps) (", ".intercalate (Expr.renderPairs ps)).toList) :
    (Expr.table ps).Scanned :=
  yields_table pairs

/-! ### Texts of statements and blocks -/

theorem Stmt.Scanned.define {name : String} {e : Expr} (h : isName name = true)
    (value : e.Scanned) : (Stmt.define name e).Scanned := by
  intro rest stop
  have shape : (Stmt.define name e).render.toList ++ rest = "let".toList ++
      ' ' :: (name.toList ++ ' ' :: '=' :: ' ' :: (e.render.toList ++ rest)) := by
    simp
  rw [shape]
  apply Scans.cons (cuts_keyword rfl rfl (.cons rfl rfl))
  intro i isWord _
  apply Scans.blank rfl
  apply Scans.cons (cuts_name h (.cons rfl rfl))
  intro t isName isLiteral
  apply Scans.blank rfl
  apply Scans.cons (cuts_assign (by simp))
  intro a isSign _
  apply Scans.blank rfl
  exact (value rest stop).mono fun ts written => isLiteral ▸ .define isWord isName isSign written

theorem Stmt.Scanned.assign {name : String} {e : Expr} (h : isName name = true)
    (value : e.Scanned) : (Stmt.assign name e).Scanned := by
  intro rest stop
  have shape : (Stmt.assign name e).render.toList ++ rest
      = name.toList ++ ' ' :: '=' :: ' ' :: (e.render.toList ++ rest) := by
    simp
  rw [shape]
  apply Scans.cons (cuts_name h (.cons rfl rfl))
  intro t isName isLiteral
  apply Scans.blank rfl
  apply Scans.cons (cuts_assign (by simp))
  intro a isSign _
  apply Scans.blank rfl
  exact (value rest stop).mono fun ts written => isLiteral ▸ .assign isName isSign written

theorem Stmt.Scanned.return {e : Expr} (value : e.Scanned) : (Stmt.return e).Scanned := by
  intro rest stop
  have shape : (Stmt.return e).render.toList ++ rest
      = "return".toList ++ ' ' :: (e.render.toList ++ rest) := by
    simp
  rw [shape]
  apply Scans.cons (cuts_keyword rfl rfl (.cons rfl rfl))
  intro i isWord _
  apply Scans.blank rfl
  exact (value rest stop).mono fun ts written => .return isWord written

theorem Stmt.Scanned.bare {e : Expr} (expr : e.Scanned) : (Stmt.bare e).Scanned :=
  fun rest stop => (expr rest stop).mono fun _ written => .bare written

/-- The blank between the braces of an empty block goes the same way as those
    around its statements. -/
theorem scans_braced {b : Block} (body : Block.Scanned b) (rest : List Char) :
    Scans (Block.WrittenBraced b) ((bracedBlock (Block.renderEach b)).toList ++ rest) rest := by
  have close : Scans (fun us => ∃ r, r.kind = .rightBrace ∧ us = [r]) (' ' :: '}' :: rest) rest :=
    .blank rfl (.cons (cuts_symbol rfl _) fun r isRight _ => .nothing ⟨r, isRight, rfl⟩)
  cases b with
  | nil =>
    refine .cons (cuts_symbol rfl (' ' :: '}' :: rest)) fun l isLeft _ => ?_
    refine close.mono ?_
    intro us ends
    obtain ⟨r, isRight, rfl⟩ := ends
    exact .braces isLeft .nil isRight
  | cons s ss =>
    have shape : (bracedBlock (Block.renderEach (s :: ss))).toList ++ rest = '{' :: ' ' ::
        (("; ".intercalate (Block.renderEach (s :: ss))).toList ++ ' ' :: '}' :: rest) := by
      simp [bracedBlock]
    rw [shape]
    apply Scans.cons (cuts_symbol rfl _)
    intro l isLeft _
    apply Scans.blank rfl
    apply (body _ (.cons rfl rfl)).append
    intro ts written
    refine close.mono ?_
    intro us ends
    obtain ⟨r, isRight, rfl⟩ := ends
    exact .braces isLeft written isRight

theorem yields_alternative {b : Block} (body : Block.Scanned b) :
    Yields (Block.WrittenElse (some b)) (Block.renderElse (some b)).toList := by
  intro rest _
  have shape : (Block.renderElse (some b)).toList ++ rest = ' ' :: ("else".toList ++
      ' ' :: ((bracedBlock (Block.renderEach b)).toList ++ rest)) := by
    simp
  rw [shape]
  refine .blank rfl (.cons (cuts_keyword rfl rfl (.cons rfl rfl)) fun i isWord _ => .blank rfl ?_)
  exact (scans_braced body rest).mono fun ts written => .some isWord written

theorem Expr.Scanned.conditional {c : Expr} {b : Block} {a : Option Block} (condition : c.Scanned)
    (body : Block.Scanned b)
    (alternative : Yields (Block.WrittenElse a) (Block.renderElse a).toList) :
    (Expr.conditional c b a).Scanned := by
  intro rest stop
  have shape : (Expr.conditional c b a).render.toList ++ rest = "if".toList ++ ' ' :: '(' ::
      (c.render.toList ++ ')' :: ' ' :: ((bracedBlock (Block.renderEach b)).toList ++
        ((Block.renderElse a).toList ++ rest))) := by
    simp
  rw [shape]
  apply Scans.cons (cuts_keyword rfl rfl (.cons rfl rfl))
  intro i isWord _
  apply Scans.blank rfl
  apply Scans.cons (cuts_symbol rfl _)
  intro left isLeft _
  apply (condition _ (.cons rfl rfl)).append
  intro cs written
  apply Scans.cons (cuts_symbol rfl _)
  intro right isRight _
  apply Scans.blank rfl
  apply (scans_braced body _).append
  intro bs block
  exact (alternative rest stop).mono fun us others =>
    .conditional isWord isLeft written isRight block others

theorem Expr.Scanned.loop {c : Expr} {b : Block} (condition : c.Scanned)
    (body : Block.Scanned b) : (Expr.loop c b).Scanned := by
  intro rest _
  have shape : (Expr.loop c b).render.toList ++ rest = "while".toList ++ ' ' :: '(' ::
      (c.render.toList ++ ')' :: ' ' :: ((bracedBlock (Block.renderEach b)).toList ++ rest)) := by
    simp
  rw [shape]
  apply Scans.cons (cuts_keyword rfl rfl (.cons rfl rfl))
  intro i isWord _
  apply Scans.blank rfl
  apply Scans.cons (cuts_symbol rfl _)
  intro left isLeft _
  apply (condition _ (.cons rfl rfl)).append
  intro cs written
  apply Scans.cons (cuts_symbol rfl _)
  intro right isRight _
  apply Scans.blank rfl
  exact (scans_braced body rest).mono fun bs block => .loop isWord isLeft written isRight block

theorem Expr.Scanned.function {ps : List String} {b : Block} (names : ps.all isName = true)
    (body : Block.Scanned b) : (Expr.function ps b).Scanned := by
  intro rest _
  have shape : (Expr.function ps b).render.toList ++ rest = "fn".toList ++
      '(' :: ((", ".intercalate ps).toList ++
        ')' :: ' ' :: ((bracedBlock (Block.renderEach b)).toList ++ rest)) := by
    simp
  rw [shape]
  apply Scans.cons (cuts_keyword rfl rfl (.cons rfl rfl))
  intro i isWord _
  apply (scans_parameters names _).append
  intro us params
  apply Scans.blank rfl
  exact (scans_braced body rest).mono fun bs block => .function isWord params block

/-! ### The text of every printable tree -/

/-- A pair of a table, without commas. -/
def Expr.WrittenPair (key value : Expr) (ts : List Token) : Prop :=
  ∃ ks t vs, ts = ks ++ t :: vs ∧ Expr.Written key.wrapped key ks ∧ t.kind = .colon ∧
    Expr.Written value.wrapped value vs

/-- Texts of a key and of a value, with a colon between them, write a pair. -/
theorem yields_keyed {w w' : Bool} {key value : Expr} {text text' : String}
    (first : Yields (Expr.Written w key) text.toList)
    (second : Yields (Expr.Written w' value) text'.toList) :
    Yields (fun ts => ∃ ks t vs, ts = ks ++ t :: vs ∧ Expr.Written w key ks ∧ t.kind = .colon ∧
      Expr.Written w' value vs) (text ++ ": " ++ text').toList := by
  intro rest stop
  have shape : (text ++ ": " ++ text').toList ++ rest
      = text.toList ++ ':' :: ' ' :: (text'.toList ++ rest) := by
    simp
  rw [shape]
  apply (first _ (.cons rfl rfl)).append
  intro ks writtenKey
  apply Scans.cons (cuts_symbol rfl _)
  intro t isColon _
  apply Scans.blank rfl
  refine (second rest stop).mono ?_
  intro vs writtenValue
  exact ⟨ks, t, vs, rfl, writtenKey, isColon, writtenValue⟩

theorem yields_pair {key value : Expr} (first : key.Scanned) (second : value.Scanned) :
    Yields (Expr.WrittenPair key value) (key.render ++ ": " ++ value.render).toList :=
  yields_keyed first second

mutual

theorem Expr.scanned : ∀ {e : Expr}, e.printable = true → e.Scanned
  | .identifier _, h => .identifier h
  | .integer _, h => .integer (of_decide_eq_true h)
  | .string _, h => .string h
  | .boolean value, _ => .boolean value
  | .unary _ e, h => .unary h (Expr.scanned (e := e) h)
  | .binary l _ r, h => by
    rw [Expr.printable, Bool.and_eq_true] at h
    exact .binary (Expr.scanned h.1) (Expr.scanned h.2)
  | .conditional c b a, h => by
    simp only [Expr.printable, Bool.and_eq_true] at h
    exact .conditional (Expr.scanned h.1.1) (Block.scanned h.1.2) (Block.scannedElse h.2)
  | .loop c b, h => by
    rw [Expr.printable, Bool.and_eq_true] at h
    exact .loop (Expr.scanned h.1) (Block.scanned h.2)
  | .function ps b, h => by
    rw [Expr.printable, Bool.and_eq_true] at h
    exact .function h.1 (Block.scanned h.2)
  | .call f args, h => by
    rw [Expr.printable, Bool.and_eq_true] at h
    exact .call (Expr.scanned h.1) (Expr.scannedItems h.2)
  | .array es, h => by
    rw [Expr.printable] at h
    exact .array (Expr.scannedItems h)
  | .table ps, h => by
    rw [Expr.printable] at h
    exact .table (Expr.scannedPairs h)
  | .index c i, h => by
    rw [Expr.printable, Bool.and_eq_true] at h
    exact .index (Expr.scanned h.1) (Expr.scanned h.2)

theorem Expr.scannedMore : ∀ {es : List Expr}, Expr.printableEach es = true →
    Yields (Expr.WrittenMoreItems es) (behind ',' (Expr.renderEach es))
  | [], _ => .nil .nil
  | e :: es, h => by
    rw [Expr.printableEach, Bool.and_eq_true] at h
    exact .behind rfl (Expr.scanned h.1) (Expr.scannedMore h.2) fun _ _ _ => .cons

theorem Expr.scannedItems : ∀ {es : List Expr}, Expr.printableEach es = true →
    Yields (Expr.WrittenItems es) (", ".intercalate (Expr.renderEach es)).toList
  | [], _ => .nil .nil
  | e :: es, h => by
    rw [Expr.printableEach, Bool.and_eq_true] at h
    exact .intercalate rfl rfl (Expr.scanned h.1) (Expr.scannedMore h.2) fun _ _ => .cons

theorem Expr.scannedMorePairs : ∀ {ps : List (Expr × Expr)}, Expr.printablePairs ps = true →
    Yields (Expr.WrittenMorePairs ps) (behind ',' (Expr.renderPairs ps))
  | [], _ => .nil .nil
  | (key, value) :: ps, h => by
    simp only [Expr.printablePairs, Bool.and_eq_true] at h
    have pair := yields_pair (Expr.scanned h.1.1) (Expr.scanned h.1.2)
    refine .behind rfl pair (Expr.scannedMorePairs h.2) ?_
    intro comma ts us isComma first others
    obtain ⟨ks, t, vs, rfl, writtenKey, isColon, writtenValue⟩ := first
    simpa using Expr.WrittenMorePairs.cons isComma writtenKey isColon writtenValue others

theorem Expr.scannedPairs : ∀ {ps : List (Expr × Expr)}, Expr.printablePairs ps = true →
    Yields (Expr.WrittenPairs ps) (", ".intercalate (Expr.renderPairs ps)).toList
  | [], _ => .nil .nil
  | (key, value) :: ps, h => by
    simp only [Expr.printablePairs, Bool.and_eq_true] at h
    have pair := yields_pair (Expr.scanned h.1.1) (Expr.scanned h.1.2)
    refine .intercalate rfl rfl pair (Expr.scannedMorePairs h.2) ?_
    intro ts us first others
    obtain ⟨ks, t, vs, rfl, writtenKey, isColon, writtenValue⟩ := first
    simpa using Expr.WrittenPairs.cons writtenKey isColon writtenValue others

theorem Stmt.scanned : ∀ {s : Stmt}, s.printable = true → s.Scanned
  | .define name e, h => by
    rw [Stmt.printable, Bool.and_eq_true] at h
    exact .define h.1 (Expr.scanned h.2)
  | .assign name e, h => by
    rw [Stmt.printable, Bool.and_eq_true] at h
    exact .assign h.1 (Expr.scanned h.2)
  | .return e, h => .return (Expr.scanned (e := e) h)
  | .bare e, h => .bare (Expr.scanned (e := e) h)

theorem Block.scannedMore : ∀ {b : Block}, Block.printable b = true →
    Yields (Block.WrittenMore b) (behind ';' (Block.renderEach b))
  | [], _ => .nil .nil
  | s :: ss, h => by
    rw [Block.printable, Bool.and_eq_true] at h
    exact .behind rfl (Stmt.scanned h.1) (Block.scannedMore h.2) fun _ _ _ => .cons

theorem Block.scanned : ∀ {b : Block}, Block.printable b = true → Block.Scanned b
  | [], _ => .nil .nil
  | s :: ss, h => by
    rw [Block.printable, Bool.and_eq_true] at h
    exact .intercalate rfl rfl (Stmt.scanned h.1) (Block.scannedMore h.2) fun _ _ => .cons

theorem Block.scannedElse : ∀ {a : Option Block}, Block.printableElse a = true →
    Yields (Block.WrittenElse a) (Block.renderElse a).toList
  | none, _ => .nil .none
  | some b, h => yields_alternative (Block.scanned (b := b) h)

end

/-! ### The text of every printable program -/

/-- The tokens of the text of a printable program write its statements. -/
theorem Program.written_of_printable {p : Program} (h : p.printable = true) :
    Block.Written p.statements (TokenStream.ofString p.render).tokens := by
  apply TokenStream.ofString_of_scans
  have scan := Block.scanned h [] .nil
  rwa [List.append_nil] at scan

/-- Reading the text of a printable program again finds nothing wrong with it
    and yields the same program. -/
theorem Parsed.ofString_of_printable {p : Program} (h : p.printable = true) :
    Parsed.ofString p.render = ⟨p, []⟩ :=
  Parsed.ofStream_of_block (Program.written_of_printable h) _

/-- The text of a printable program denotes that program. -/
theorem Program.ofString_render {p : Program} (h : p.printable = true) :
    Program.ofString p.render = .ok p := by
  rw [Program.ofString, Parsed.ofString_of_printable h]
  rfl

/-- A definition, a rebinding and a loop: conditionals and calls as operands, a
    function called where it stands, an empty table and an empty block. -/
theorem Program.ofString_render_loop :
    let clamp : Expr :=
      .conditional (.binary (.identifier "n") .less (.integer 0)) []
        (some [.return (.unary .negate (.call (.identifier "step_by") [.identifier "n", .table []]))])
    let p : Program := ⟨[
      .define "limit" (.call (.function ["n", "bound"] [.bare (.binary clamp .add clamp)])
        [.array [.integer 9223372036854775807, .string "a; b"], .boolean true]),
      .assign "total" (.index (.table [(.string "", clamp)]) (.loop (.boolean false) [])),
      .bare (.loop (.unary .not clamp) [.bare clamp, .return (.binary clamp .equal (.integer 7))])]⟩
    p.printable = true ∧ Program.ofString p.render = .ok p := by
  intro clamp p
  have printable : p.printable = true := by decide
  exact ⟨printable, Program.ofString_render printable⟩

end Script
