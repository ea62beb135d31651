/-
  Script/Proofs/Parse/Braces.lean
  ===============================
  **Open braces.**

  The parser's stack says which braces are open and what each of them has begun.
  A rule reads a brace only to open a construct or to close the innermost one.
  A fault drops the statement around it, with the tables that are open there;
  the text has their closing braces still, so from there on the stack holds
  fewer open braces than the text.  How many a step loses in this way can be
  read off the step.

  Main statements: `Rule.braced`, and `ParseState.account_of_step?`, the account
  of every step.
-/
import Script.Proofs.Parse.Run

namespace Script

/-- What an opening brace has begun: a table literal, or the block that a list of
    statements is read for. -/
inductive OpenBrace where
  | table
  | block (list : BlockStack)

mutual

/-- What the open braces around a place have begun, innermost first. -/
def ExprStack.braces : ExprStack → List OpenBrace
  | .alone => []
  | .operand _ _ k | .right _ _ _ k | .group _ k | .argument _ _ _ k | .item _ _ k
  | .subscript _ _ k | .ifCondition _ k | .whileCondition _ k => k.braces
  | .key _ _ k | .value _ _ _ k => .table :: k.braces
  | .statement _ _ k => k.braces

def BlockStack.braces : BlockStack → List OpenBrace
  | .program => []
  | .consequence c f k => .block (.consequence c f k) :: k.braces
  | .alternative c b f k => .block (.alternative c b f k) :: k.braces
  | .loopBody c f k => .block (.loopBody c f k) :: k.braces
  | .functionBody ps f k => .block (.functionBody ps f k) :: k.braces

end

/-- The number of table literals around a place in the innermost statement. -/
def ExprStack.tables : ExprStack → Nat
  | .alone | .statement .. => 0
  | .operand _ _ k | .right _ _ _ k | .group _ k | .argument _ _ _ k | .item _ _ k
  | .subscript _ _ k | .ifCondition _ k | .whileCondition _ k => k.tables
  | .key _ _ k | .value _ _ _ k => k.tables + 1

/-- The number of table literals around a block in its statement. -/
def BlockStack.tables : BlockStack → Nat
  | .program => 0
  | .consequence _ _ k | .alternative _ _ _ k | .loopBody _ _ k | .functionBody _ _ k => k.tables

/-- The open braces around a list of statements, its own included. -/
def bracesAround : Option (Block × BlockStack) → List OpenBrace
  | none => []
  | some (_, k) => k.braces

namespace ParseControl

def tables : ParseControl → Nat
  | .operand _ k | .extend _ _ k | .whole _ k => k.tables
  | .closed _ k => k.tables
  | .statements .. | .failed _ => 0

def braces : ParseControl → List OpenBrace
  | .operand _ k | .extend _ _ k | .whole _ k => k.braces
  | .statements _ k => k.braces
  | .closed _ k => k.braces.tail
  | .failed k => bracesAround k.enclosing?

end ParseControl

theorem BlockStack.braces_of_isBlock {k : BlockStack} (h : k.isBlock = true) :
    k.braces = .block k :: k.braces.tail := by
  cases k with
  | program => cases h
  | _ => rfl

theorem ExprStack.braces_eq : ∀ k : ExprStack,
    k.braces = List.replicate k.tables .table ++ bracesAround k.enclosing?
  | .alone => rfl
  | .operand _ _ k | .right _ _ _ k | .group _ k | .argument _ _ _ k | .item _ _ k
  | .subscript _ _ k | .ifCondition _ k | .whileCondition _ k => ExprStack.braces_eq k
  | .key _ _ k | .value _ _ _ k => congrArg (OpenBrace.table :: ·) (ExprStack.braces_eq k)
  | .statement _ _ _ => rfl

/-- The open braces are those of the tables in the statement and those around its
    list. -/
theorem ParseControl.braces_eq (control : ParseControl) :
    control.braces = List.replicate control.tables .table ++ bracesAround control.enclosing? := by
  cases control with
  | operand _ k | extend _ _ k | whole _ k => exact k.braces_eq
  | statements _ k | failed k => rfl
  | closed _ k =>
    cases k with
    | program => rfl
    | consequence _ _ k | alternative _ _ _ k | loopBody _ _ k | functionBody _ _ k =>
      exact k.braces_eq

/-! ### Braces of a text -/

def openings (ts : List Token) : Nat := ts.countP (·.kind = .leftBrace)

def closings (ts : List Token) : Nat := ts.countP (·.kind = .rightBrace)

@[simp] theorem openings_append (ts us : List Token) :
    openings (ts ++ us) = openings ts + openings us := List.countP_append ..

@[simp] theorem closings_append (ts us : List Token) :
    closings (ts ++ us) = closings ts + closings us := List.countP_append ..

/-- There is no brace among these tokens. -/
def Plain (ts : List Token) : Prop := ∀ t ∈ ts, t.kind.isBrace = false

theorem Plain.nil : Plain [] := nofun

theorem Plain.cons {t : Token} {ts : List Token} (first : t.kind.isBrace = false)
    (rest : Plain ts) : Plain (t :: ts) := by
  intro u mem
  rcases List.mem_cons.1 mem with rfl | mem
  · exact first
  · exact rest u mem

theorem Plain.openings {ts : List Token} (h : Plain ts) : openings ts = 0 := by
  refine List.countP_eq_zero.2 fun t mem left => ?_
  have := h t mem
  simp_all [TokenKind.isBrace]

theorem Plain.closings {ts : List Token} (h : Plain ts) : closings ts = 0 := by
  refine List.countP_eq_zero.2 fun t mem right => ?_
  have := h t mem
  simp_all [TokenKind.isBrace]

theorem Plain.noClosing {ts : List Token} (h : Plain ts) : ∀ t ∈ ts, t.kind ≠ .rightBrace := by
  intro t mem right
  have := h t mem
  simp_all [TokenKind.isBrace]

theorem NameList.plain {ps : List String} {ts : List Token} (h : NameList ps ts) : Plain ts := by
  induction h with
  | one name => exact .cons (by rw [name]; rfl) .nil
  | more name comma _ ih => exact .cons (by rw [name]; rfl) (.cons (by rw [comma]; rfl) ih)

theorem ParameterList.plain {ps : List String} {ts : List Token} (h : ParameterList ps ts) :
    Plain ts := by
  cases h with
  | empty left right => exact .cons (by rw [left]; rfl) (.cons (by rw [right]; rfl) .nil)
  | names left names right =>
    refine .cons (by rw [left]; rfl) fun t mem => ?_
    rcases List.mem_append.1 mem with mem | mem
    · exact names.plain t mem
    · rw [List.mem_singleton.1 mem, right]
      rfl

/-! ### Rules -/

/-- What a rule does with braces: it reads none; it reads one behind other tokens
    and opens or closes a construct; or it reads an empty table. -/
inductive Braced (p q : ParseControl × List Token) : Prop
  | plain (ws : List Token) (read : p.2 = ws ++ q.2) (plain : Plain ws)
      (same : q.1.braces = p.1.braces)
  | opens (ws : List Token) {l x} (read : p.2 = ws ++ l :: q.2) (plain : Plain ws)
      (left : l.kind = .leftBrace) (more : q.1.braces = x :: p.1.braces)
  | closes (ws : List Token) {r x} (read : p.2 = ws ++ r :: q.2) (plain : Plain ws)
      (right : r.kind = .rightBrace) (fewer : p.1.braces = x :: q.1.braces)
      (closing : ∀ k, x = .block k → ∃ done, p.1 = .statements done k ∧ q.1 = .closed done k)
  | table {l r} (read : p.2 = l :: r :: q.2) (left : l.kind = .leftBrace)
      (right : r.kind = .rightBrace) (same : q.1.braces = p.1.braces)

/-- What the tokens that a rule reads have to do with the braces that are open. -/
theorem Braced.tokens {p q : ParseControl × List Token} (h : Braced p q) :
    ∃ ws, p.2 = ws ++ q.2 ∧ (∀ t ∈ ws.dropLast, t.kind ≠ .rightBrace) ∧
      q.1.braces.length + closings ws = p.1.braces.length + openings ws ∧
      (p.1.braces <:+ q.1.braces ∨ ∃ x, p.1.braces = x :: q.1.braces ∧
        ∀ k, x = .block k → ∃ done, p.1 = .statements done k ∧ q.1 = .closed done k) := by
  cases h with
  | plain ws read plain same =>
    refine ⟨ws, read, fun t mem => plain.noClosing t ((List.dropLast_sublist ws).subset mem), ?_, ?_⟩
    · rw [plain.openings, plain.closings, same]
    · exact .inl (same ▸ List.suffix_rfl)
  | @opens ws l x read plain left more =>
    refine ⟨ws ++ [l], by simpa using read, fun t mem => ?_, ?_, ?_⟩
    · exact plain.noClosing t (by simpa using mem)
    · have read : openings [l] = 1 ∧ closings [l] = 0 := by simp [openings, closings, left]
      rw [openings_append, closings_append, plain.openings, plain.closings, read.1, read.2, more]
      rfl
    · exact .inl (more ▸ List.suffix_cons x _)
  | @closes ws r x read plain right fewer closing =>
    refine ⟨ws ++ [r], by simpa using read, fun t mem => ?_, ?_, .inr ⟨x, fewer, closing⟩⟩
    · exact plain.noClosing t (by simpa using mem)
    · have read : openings [r] = 0 ∧ closings [r] = 1 := by simp [openings, closings, right]
      rw [openings_append, closings_append, plain.openings, plain.closings, read.1, read.2, fewer,
        Nat.zero_add]
      rfl
  | @table l r read left right same =>
    refine ⟨[l, r], read, fun t mem => ?_, ?_, .inl (same ▸ List.suffix_rfl)⟩
    · rw [List.mem_singleton.1 mem, left]
      nofun
    · rw [same]
      simp [openings, closings, left, right]

theorem Token.isBrace_of_atom? {t : Token} {e : Expr} (h : t.atom? = some e) :
    t.kind.isBrace = false := by
  unfold Token.atom? at h
  split at h <;> simp_all [TokenKind.isBrace]

theorem TokenKind.isBrace_of_unary? {kind : TokenKind} {op : UnaryOp}
    (h : kind.unary? = some op) : kind.isBrace = false := by
  unfold TokenKind.unary? at h
  split at h <;> simp_all [TokenKind.isBrace]

theorem OperandRule.braced {f : Precedence} {k : ExprStack} {ts : List Token}
    {q : ParseControl × List Token} (h : OperandRule f k ts q) {p : ParseControl}
    (same : p.braces = k.braces) : Braced (p, ts) q := by
  cases h with
  | @atom t _ _ token =>
    exact .plain [t] rfl (.cons (Token.isBrace_of_atom? token) .nil) same.symm
  | @unary t _ _ sign =>
    exact .plain [t] rfl (.cons (TokenKind.isBrace_of_unary? sign) .nil) same.symm
  | @group t _ h | @array t _ h _ =>
    exact .plain [t] rfl (.cons (by rw [h]; rfl) .nil) same.symm
  | @emptyArray t u _ h h' | @conditional t u _ h h' | @loop t u _ h h' =>
    exact .plain [t, u] rfl (.cons (by rw [h]; rfl) (.cons (by rw [h']; rfl) .nil)) same.symm
  | emptyTable left right => exact .table rfl left right same.symm
  | table left _ => exact .opens [] rfl .nil left (congrArg (OpenBrace.table :: ·) same.symm)
  | @function w ps us b ts word params brace =>
    have more : (ParseControl.statements [] (.functionBody ps f k)).braces =
        .block (.functionBody ps f k) :: p.braces := congrArg (OpenBrace.block _ :: ·) same.symm
    exact .opens (w :: us) (by simp) (.cons (by rw [word]; rfl) params.plain) brace more

theorem TokenKind.isBrace_of_extension? {kind : TokenKind} {x : Extension}
    (h : kind.extension? = some x) : kind.isBrace = false := by
  cases kind <;> first | rfl | cases h

theorem Rule.braced {p q : ParseControl × List Token} (h : Rule p q) : Braced p q := by
  cases h with
  | operand rule => exact rule.braced rfl
  | begin rule _ => exact rule.braced rfl
  | @«operator» t _ _ _ _ _ sign _ =>
    exact .plain [t] rfl (.cons (TokenKind.isBrace_of_extension? sign) .nil) rfl
  | @subscript t _ _ _ _ h _ | @call t _ _ _ _ h _ _ | @closeGroup t _ _ _ _ h
  | @nextArgument t _ _ _ _ _ _ h | @closeCall t _ _ _ _ _ _ h | @nextItem t _ _ _ _ _ h
  | @closeArray t _ _ _ _ _ h | @closeSubscript t _ _ _ _ _ h | @key t _ _ _ _ _ h
  | @nextKey t _ _ _ _ _ _ h _ | @bareSemicolon t _ _ _ _ h | @«return» t _ _ _ h =>
    exact .plain [t] rfl (.cons (by rw [h]; rfl) .nil) rfl
  | @emptyCall t u _ _ _ _ h h' _ | @assign t u _ _ _ h h' =>
    exact .plain [t, u] rfl (.cons (by rw [h]; rfl) (.cons (by rw [h']; rfl) .nil)) rfl
  | @define w t a _ _ _ hw ht ha =>
    refine .plain [w, t, a] rfl ?_ rfl
    exact .cons (by rw [hw]; rfl) (.cons (by rw [ht]; rfl) (.cons (by rw [ha]; rfl) .nil))
  | @headed head e done k ts _ =>
    refine .plain (ts.takeWhile (·.kind = .semicolon)) (List.takeWhile_append_dropWhile).symm ?_ rfl
    intro t mem
    have semicolon := List.all_eq_true.1 (List.all_takeWhile ..) t mem
    rw [of_decide_eq_true semicolon]
    rfl
  | @consequence t _ _ _ _ _ h brace | @loopBody t _ _ _ _ _ h brace
  | @alternative t _ _ _ _ _ _ h brace =>
    exact .opens [t] rfl (.cons (by rw [h]; rfl) .nil) brace rfl
  | closeTable right => exact .closes [] rfl .nil right rfl nofun
  | @closeTableComma t _ _ _ _ _ _ _ h right =>
    exact .closes [t] rfl (.cons (by rw [h]; rfl) .nil) right rfl nofun
  | @closeBlock _ done k _ block right =>
    refine .closes [] rfl .nil right (BlockStack.braces_of_isBlock block) ?_
    rintro _ ⟨⟩
    exact ⟨done, rfl, rfl⟩
  | whole | unary | binary | bare | conditional | conditionalElse | loop | function
  | closeProgram => exact .plain [] rfl .nil rfl

/-! ### Steps -/

theorem Cursor.Skips.tokens {c c' : Cursor} (h : c.Skips c') :
    ∃ ws, c.rest = ws ++ c'.rest ∧ Plain ws ∧ (c'.last.kind.isBrace = true → c' = c) := by
  induction h with
  | here => exact ⟨[], rfl, .nil, fun _ => rfl⟩
  | @read c' before plain ih =>
    obtain ⟨ws, read, plain', -⟩ := ih
    have other (brace : c'.read.last.kind.isBrace = true) : c'.read = c := by
      rw [Cursor.read_last, plain] at brace
      cases brace
    obtain ⟨last, _ | ⟨t, ts⟩, stop⟩ := c'
    · exact ⟨ws, read, plain', other⟩
    · refine ⟨ws ++ [t], by simp [read], fun u mem => ?_, other⟩
      rcases List.mem_append.1 mem with mem | mem
      · exact plain' u mem
      · rw [List.mem_singleton.1 mem]
        exact plain

/-- Resuming reads no closing brace, and stays where one was read last. -/
theorem Cursor.resume_tokens (c : Cursor) :
    ∃ ws, c.rest = ws ++ c.resume.rest ∧ (∀ t ∈ ws, t.kind ≠ .rightBrace) ∧
      (c.last.kind = .rightBrace → c.resume = c) ∧
      (c.last.kind ≠ .rightBrace → c.resume.last.kind ≠ .rightBrace) := by
  fun_induction Cursor.resume c with
  | case1 c ended => exact ⟨[], by simp [ended], by simp, fun _ => rfl, id⟩
  | case2 c t ts unread stops => exact ⟨[], by simp [unread], by simp, fun _ => rfl, id⟩
  | case3 c t ts unread going ih =>
    obtain ⟨ws, read, plain, -, other⟩ := ih
    have next : c.peek = t := by rw [Cursor.peek, unread]; rfl
    rw [not_or, not_or] at going
    refine ⟨t :: ws, ?_, fun u mem => ?_, fun right => absurd right going.2.1, fun _ => ?_⟩
    · rw [unread, List.cons_append, ← read, Cursor.read_rest, unread, List.tail_cons]
    · rcases List.mem_cons.1 mem with rfl | mem
      · exact going.2.2
      · exact plain u mem
    · exact other (by rw [Cursor.read_last, next]; exact going.2.2)

namespace ParseState

/-- What the open braces have begun.  A list of statements that a fault is found
    in behind a closing brace will be closed: that brace is taken for its own. -/
def braces (s : ParseState) : List OpenBrace :=
  match s.control with
  | .failed k =>
    if s.cursor.last.kind = .rightBrace then (bracesAround k.enclosing?).tail
    else bracesAround k.enclosing?
  | control => control.braces

/-- How many open braces a step loses, which are closed in the text but will not
    be closed by the parser.  A fault loses those of the tables in its statement,
    and another one if the closing brace of a construct that is over comes before
    it, for that is taken for the brace of the list.  Resuming the list loses the
    opening braces that it passes over. -/
def lost (s s' : ParseState) : Nat :=
  match s.control, s'.control with
  | .failed _, _ => openings s.cursor.rest - openings s'.cursor.rest
  | control, .failed _ =>
    control.tables +
      if s'.cursor.last.kind = .rightBrace ∧ s'.cursor.rest = s.cursor.rest then 1 else 0
  | _, _ => 0

variable {s s' : ParseState} {k : BlockStack}

theorem braces_of_going (going : ∀ k, s.control ≠ .failed k) : s.braces = s.control.braces := by
  obtain ⟨control, c, ds⟩ := s
  cases control with
  | failed k => exact absurd rfl (going k)
  | _ => rfl

theorem lost_of_going (going : ∀ k, s.control ≠ .failed k) (going' : ∀ k, s'.control ≠ .failed k) :
    s.lost s' = 0 := by
  obtain ⟨control, c, ds⟩ := s
  obtain ⟨control', c', ds'⟩ := s'
  cases control with
  | failed k => exact absurd rfl (going k)
  | _ =>
    cases control' with
    | failed k => exact absurd rfl (going' k)
    | _ => rfl

theorem lost_of_fault (going : ∀ k, s.control ≠ .failed k) {k : ExprStack}
    (failed : s'.control = .failed k) : s.lost s' = s.control.tables +
      if s'.cursor.last.kind = .rightBrace ∧ s'.cursor.rest = s.cursor.rest then 1 else 0 := by
  obtain ⟨control, c, ds⟩ := s
  obtain ⟨control', c', ds'⟩ := s'
  cases failed
  cases control with
  | failed k => exact absurd rfl (going k)
  | _ => rfl

/-- The list of statements `k` is over: it is closed, or it will be as a fault is
    recovered from, at the closing brace that was read last. -/
structure Closing (k : BlockStack) (s : ParseState) : Prop where
  brace : s.cursor.last.kind = .rightBrace
  closing : (∃ b, s.control = .closed b k) ∨
    ∃ j done, s.control = .failed j ∧ j.enclosing? = some (done, k)

theorem Closing.braces_eq (h : Closing k s) : s.braces = k.braces.tail := by
  obtain ⟨control, c, ds⟩ := s
  obtain ⟨brace, ⟨b, closed⟩ | ⟨j, done, failed, inside⟩⟩ := h
  · cases closed
    rfl
  · cases failed
    simp only [braces, inside, bracesAround]
    exact if_pos brace

/-- The account of a step: which tokens it reads, and that the open braces and
    those it loses together are those before it, with what it has read.  If the
    list `k` was open, it still is, or it is over. -/
structure Account (k : BlockStack) (s s' : ParseState) (ws : List Token) : Prop where
  read : s.cursor.rest = ws ++ s'.cursor.rest
  inner : ∀ t ∈ ws.dropLast, t.kind ≠ .rightBrace
  balance : s'.braces.length + closings ws + s.lost s' = s.braces.length + openings ws
  list : k.braces <:+ s'.braces ∨
    Closing k s' ∧ ∀ t, ws.getLast? = some t → s'.cursor.last = t

/-! #### By a rule -/

theorem going_of_rule (rule : Rule s.point s'.point) :
    (∀ k, s.control ≠ .failed k) ∧ ∀ k, s'.control ≠ .failed k := by
  constructor
  · intro k failed
    obtain ⟨control, c, ds⟩ := s
    cases failed
    cases rule
  · intro k failed
    obtain ⟨control, c, ds⟩ := s'
    cases failed
    exact not_failed_of_rule rule

end ParseState

/-- A rule closes a block by reading its brace. -/
theorem Rule.brace_of_closed {done b : Block} {k k' : BlockStack} {ts ts' : List Token}
    (h : Rule (.statements done k, ts) (.closed b k', ts')) (block : k.isBlock = true) :
    ∃ r, r.kind = .rightBrace ∧ ts = r :: ts' := by
  cases h with
  | begin rule _ => cases rule
  | @closeBlock r _ _ _ _ right => exact ⟨r, right, rfl⟩
  | closeProgram => cases block

namespace ParseState

variable {s s' : ParseState} {k : BlockStack}

theorem read_of_closed {done b : Block} (next : s.step? = some s') (rule : Rule s.point s'.point)
    (control : s.control = .statements done k) (control' : s'.control = .closed b k)
    (block : k.isBlock = true) :
    s.cursor.rest = s'.cursor.last :: s'.cursor.rest ∧ s'.cursor.last.kind = .rightBrace := by
  rw [point, point, control, control'] at rule
  obtain ⟨r, right, rest⟩ := rule.brace_of_closed block
  obtain ⟨control₀, ⟨last, ts, stop⟩, ds⟩ := s
  dsimp only at rest control
  subst rest control
  have closes : step? ⟨.statements done k, ⟨last, r :: s'.cursor.rest, stop⟩, ds⟩ =
      some ⟨.closed done k, ⟨r, s'.cursor.rest, stop⟩, ds⟩ := by
    simp [step?, nextStatement, block, right, goto]
  have last' : s'.cursor.last = r := by rw [← Option.some.inj (closes.symm.trans next)]
  rw [last']
  exact ⟨rfl, right⟩

theorem account_of_rule (next : s.step? = some s') (rule : Rule s.point s'.point)
    (block : k.isBlock = true) (around : k.braces <:+ s.braces) : ∃ ws, Account k s s' ws := by
  obtain ⟨going, going'⟩ := going_of_rule rule
  obtain ⟨ws, read, inner, balance, list⟩ := rule.braced.tokens
  rw [braces_of_going going] at around
  refine ⟨ws, read, inner, ?_, ?_⟩
  · rwa [braces_of_going going, braces_of_going going', lost_of_going going going', Nat.add_zero]
  rw [braces_of_going going']
  rcases list with grows | ⟨x, fewer, closing⟩
  · exact .inl (around.trans grows)
  have fewer' : s.control.braces = x :: s'.control.braces := fewer
  rw [fewer', List.suffix_cons_iff] at around
  rcases around with same | inside
  · rw [BlockStack.braces_of_isBlock block] at same
    obtain ⟨rfl, -⟩ := List.cons.inj same
    obtain ⟨done, control, control'⟩ := closing k rfl
    obtain ⟨rest, brace⟩ := read_of_closed next rule control control' block
    have tokens : ws = [s'.cursor.last] := List.append_cancel_right (read.symm.trans rest)
    refine .inr ⟨⟨brace, .inl ⟨done, control'⟩⟩, fun t last => ?_⟩
    rw [tokens] at last
    exact Option.some.inj last
  · exact .inl inside

/-! #### By a fault -/

/-- A block that is open is open around the innermost list of statements. -/
theorem suffix_of_tables {n : Nat} {list : List OpenBrace} (block : k.isBlock = true)
    (h : k.braces <:+ List.replicate n .table ++ list) : k.braces <:+ list := by
  induction n with
  | zero => exact h
  | succ n ih =>
    rw [List.replicate_succ, List.cons_append, List.suffix_cons_iff] at h
    rcases h with same | inside
    · rw [BlockStack.braces_of_isBlock block] at same
      cases same
    · exact ih inside

/-- If its own brace is the innermost of the open ones around a list, a block is
    that list. -/
theorem eq_of_bracesAround {around : Option (Block × BlockStack)} (block : k.isBlock = true)
    (h : k.braces = bracesAround around) : ∃ done, around = some (done, k) := by
  rw [BlockStack.braces_of_isBlock block] at h
  rcases around with _ | ⟨done, k'⟩
  · cases h
  · rw [bracesAround] at h
    cases k' with
    | program => cases h
    | _ =>
      obtain ⟨same, -⟩ := List.cons.inj h
      cases same
      exact ⟨done, rfl⟩

theorem braces_of_failed {j : ExprStack} (failed : s.control = .failed j) :
    s.braces = if s.cursor.last.kind = .rightBrace then (bracesAround j.enclosing?).tail
      else bracesAround j.enclosing? := by
  obtain ⟨control, c, ds⟩ := s
  cases failed
  rfl

theorem account_of_fault (going : ∀ j, s.control ≠ .failed j) {j : ExprStack}
    (failed : s'.control = .failed j) (inside : j.enclosing? = s.control.enclosing?)
    (read : s.cursor.Refuses s'.cursor) (block : k.isBlock = true)
    (around : k.braces <:+ s.braces) : ∃ ws, Account k s s' ws := by
  have before := braces_of_going going
  rw [ParseControl.braces_eq] at before
  rw [before] at around
  have list := suffix_of_tables block around
  have after := braces_of_failed failed
  have lost := lost_of_fault going failed
  rw [inside] at after
  -- behind a closing brace the innermost list is taken to be over
  have shut (brace : s'.cursor.last.kind = .rightBrace) :
      s'.braces.length + 1 = (bracesAround s.control.enclosing?).length ∧
        (k.braces <:+ s'.braces ∨ Closing k s') := by
    rw [if_pos brace] at after
    rw [after]
    cases around' : bracesAround s.control.enclosing? with
    | nil =>
      rw [around', BlockStack.braces_of_isBlock block] at list
      cases List.suffix_nil.1 list
    | cons x rest =>
      refine ⟨rfl, ?_⟩
      rw [around', List.suffix_cons_iff] at list
      refine list.symm.imp id fun same => ?_
      obtain ⟨done, here⟩ := eq_of_bracesAround block (same.trans around'.symm)
      exact ⟨brace, .inr ⟨j, done, failed, inside.trans here⟩⟩
  generalize here : s'.cursor = c' at read
  cases read with
  | skips skips =>
    subst here
    obtain ⟨ws, tokens, plain, stays⟩ := skips.tokens
    by_cases brace : s'.cursor.last.kind = .rightBrace
    · have same : s'.cursor = s.cursor := stays (by rw [brace]; rfl)
      obtain ⟨length, list'⟩ := shut brace
      rw [if_pos ⟨brace, by rw [same]⟩] at lost
      refine ⟨[], by rw [same]; rfl, nofun, ?_, list'.imp id fun closing => ⟨closing, ?_⟩⟩
      · rw [before, lost, List.length_append, List.length_replicate]
        simp only [openings, closings, List.countP_nil]
        omega
      · intro t none
        cases none
    · rw [if_neg brace] at after
      rw [if_neg (fun h => brace h.1), Nat.add_zero] at lost
      refine ⟨ws, tokens, fun t mem => plain.noClosing t ((List.dropLast_sublist ws).subset mem),
        ?_, .inl (after ▸ list)⟩
      rw [before, after, lost, plain.openings, plain.closings, List.length_append,
        List.length_replicate]
      omega
  | brace next =>
    have tokens := Cursor.rest_of_peek next (by decide)
    have last : s'.cursor.last = s.cursor.peek := by rw [here, Cursor.read_last]
    obtain ⟨length, list'⟩ := shut (last ▸ next)
    have shorter : s'.cursor.rest ≠ s.cursor.rest := by
      rw [here, tokens]
      exact (List.cons_ne_self _ _).symm
    rw [if_neg (fun h => shorter h.2), Nat.add_zero] at lost
    refine ⟨[s.cursor.peek], by rw [here]; exact tokens, nofun, ?_,
      list'.imp id fun closing => ⟨closing, ?_⟩⟩
    · rw [before, lost, List.length_append, List.length_replicate]
      simp only [openings, closings, List.countP_singleton, next]
      simp
      omega
    · intro t same
      rw [last]
      exact Option.some.inj same

/-! #### By resuming a list -/

theorem account_of_resume (next : s.step? = some s') {j : ExprStack}
    (failed : s.control = .failed j) (block : k.isBlock = true)
    (around : k.braces <:+ s.braces) : ∃ ws, Account k s s' ws := by
  rw [braces_of_failed failed] at around
  have before := braces_of_failed failed
  have resumes : s.recover j = some s' := by
    obtain ⟨control, c, ds⟩ := s
    cases failed
    exact next
  obtain ⟨ws, tokens, plain, stays, goes⟩ := s.cursor.resume_tokens
  rw [recover] at resumes
  cases inside : j.enclosing? with
  | none =>
    rw [inside] at resumes
    cases resumes
  | some list =>
    obtain ⟨done, outer⟩ := list
    rw [inside] at resumes around before
    by_cases brace : s.cursor.last.kind = .rightBrace
    · rw [if_pos brace] at around before
      have isBlock : outer.isBlock = true := by
        cases outer with
        | program =>
          rw [BlockStack.braces_of_isBlock block] at around
          cases List.suffix_nil.1 around
        | _ => rfl
      simp only [stays brace, isBlock, brace, and_self, if_true] at resumes
      cases resumes
      refine ⟨[], rfl, by simp, ?_, .inl around⟩
      have lost : s.lost (s.goto (.closed done outer) s.cursor) = 0 := by
        simp [ParseState.lost, failed, goto]
      rw [lost, before]
      rfl
    · rw [if_neg brace] at around before
      simp only [goes brace, and_false, if_false] at resumes
      cases resumes
      refine ⟨ws, tokens, fun t mem => plain t ((List.dropLast_sublist ws).subset mem), ?_,
        .inl around⟩
      have lost : s.lost (s.goto (.statements done outer) s.cursor.resume) = openings ws := by
        simp only [ParseState.lost, failed, goto]
        rw [tokens, openings_append, Nat.add_sub_cancel]
      have none : closings ws = 0 := List.countP_eq_zero.2 fun t mem => by simp [plain t mem]
      rw [lost, before, none]
      rfl

/-- Every step before the end of the text has its account. -/
theorem account_of_step? (next : s.step? = some s') (unread : s.cursor.rest ≠ [])
    (block : k.isBlock = true) (around : k.braces <:+ s.braces) : ∃ ws, Account k s s' ws := by
  by_cases failed : ∃ j, s.control = .failed j
  · obtain ⟨j, failed⟩ := failed
    exact account_of_resume next failed block around
  have going : ∀ j, s.control ≠ .failed j := not_exists.1 failed
  rcases move_of_step? next with ⟨rule, -⟩ | ⟨failed', inside, read, -⟩ | ⟨-, -, ended, -, -⟩ |
    ⟨failed', -, -, -, -⟩
  · exact account_of_rule next rule block around
  · exact account_of_fault going failed' inside read block around
  · exact absurd ended unread
  · exact absurd failed' (going _)

end ParseState

end Script
