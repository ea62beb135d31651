/-
  Script/Proofs/Parse/Move.lean
  =============================
  **What a step of the parser can be.**

  Every step uses a rule, or finds a fault, or closes a block at the end of the
  text, or resumes the statement list around a fault.  An invariant of parsing
  needs one case for each of these, and no look at the parser's functions.

  Main statements: the four kinds cover every step (`ParseState.move_of_step?`),
  and what they never do to the tokens unread (`ParseState.Move.behind`).
-/
import Script.Proofs.Parse.Rule

namespace Script

/-! ### The statement list around a place -/

/-- The statement list around a block: the one that holds the construct the
    block belongs to. -/
def BlockStack.enclosing? : BlockStack → Option (Block × BlockStack)
  | .program => none
  | .consequence _ _ k | .alternative _ _ _ k | .loopBody _ _ k | .functionBody _ _ k =>
    k.enclosing?

/-- The statement list that a fault under a control belongs to. -/
def ParseControl.enclosing? : ParseControl → Option (Block × BlockStack)
  | .operand _ k | .extend _ _ k | .whole _ k | .failed k => k.enclosing?
  | .statements done k => some (done, k)
  | .closed _ k => k.enclosing?

theorem Cursor.resume_suffix (c : Cursor) : c.resume.rest <:+ c.rest := by
  fun_induction Cursor.resume c with
  | case1 => exact List.suffix_rfl
  | case2 => exact List.suffix_rfl
  | case3 c t ts h hk ih => exact ih.trans (List.tail_suffix _)

namespace ParseState

/-! ### Attempts -/

/-- What an attempt in a state `s` comes to: a point that `ok` admits, or a
    fault behind `s`, inside the statement list `around`. -/
inductive Attempt (s : ParseState) (around : Option (Block × BlockStack))
    (ok : ParseControl × List Token → Prop) (r : ParseState) : Prop
  | done (reached : ok r.point) (same : r.diagnostics = s.diagnostics)
  | fault {k d} (control : r.control = .failed k) (inside : k.enclosing? = around)
      (read : s.cursor.Refuses r.cursor) (recorded : r.diagnostics = s.diagnostics ++ [d])

section Attempt

variable {s : ParseState} {around : Option (Block × BlockStack)}
  {ok : ParseControl × List Token → Prop}

theorem Attempt.mono {ok' : ParseControl × List Token → Prop} {r : ParseState}
    (h : Attempt s around ok r) (weaker : ∀ p, ok p → ok' p) : Attempt s around ok' r := by
  cases h with
  | done reached same => exact .done (weaker _ reached) same
  | fault control inside read recorded => exact .fault control inside read recorded

theorem Attempt.goto {control : ParseControl} {c : Cursor} (h : ok (control, c.rest)) :
    Attempt s around ok (s.goto control c) :=
  .done h rfl

theorem Attempt.fail {k : ExprStack} {c : Cursor} {d : Diagnostic} (inside : k.enclosing? = around)
    (read : s.cursor.Refuses c) : Attempt s around ok (s.fail k c d) :=
  .fault rfl inside read rfl

theorem Attempt.require {kind : TokenKind} {k : ExprStack} {c : Cursor}
    {next : Cursor → ParseState} (ne : kind ≠ .endOfInput) (inside : k.enclosing? = around)
    (skips : s.cursor.Skips c)
    (found : ∀ c' : Cursor, c'.last.kind = kind → c.rest = c'.last :: c'.rest →
      (kind.isBrace = false → s.cursor.Skips c') → Attempt s around ok (next c')) :
    Attempt s around ok (s.require kind k c next) := by
  unfold ParseState.require
  split
  · rename_i c' h
    obtain ⟨hk, hr⟩ := Cursor.rest_of_expect h ne
    exact found c' hk hr fun plain => skips.trans (Cursor.skips_of_expect h plain)
  · exact .fail inside (.skips skips)

theorem Attempt.choose {kind : TokenKind} {c : Cursor} {r r' : ParseState}
    (ne : kind ≠ .endOfInput)
    (found : c.peek.kind = kind → c.rest = c.peek :: c.read.rest → Attempt s around ok r)
    (other : nextKind c.rest ≠ kind → Attempt s around ok r') :
    Attempt s around ok (if c.peek.kind = kind then r else r') := by
  split
  · rename_i h
    exact found h (Cursor.rest_of_peek h ne)
  · rename_i h
    exact other (by rwa [← Cursor.peek_kind])

end Attempt

theorem readOperand_attempt (s : ParseState) (f : Precedence) (k : ExprStack) :
    Attempt s k.enclosing? (OperandRule f k s.cursor.rest) (s.readOperand f k) := by
  obtain ⟨control, ⟨last, _ | ⟨t, ts⟩, stop⟩, ds⟩ := s
  · exact .fail rfl (Cursor.refuses_read nofun)
  have skips (plain : t.kind.isBrace = false) :
      Cursor.Skips ⟨last, t :: ts, stop⟩ ⟨t, ts, stop⟩ := .read .here plain
  simp only [readOperand, Cursor.read_cons]
  split <;> rename_i hk
  case h_1 | h_3 | h_4 | h_5 => exact .goto (.atom (by simp [Token.atom?, hk]))
  case h_2 =>
    split
    · rename_i n hn
      exact .goto (.atom (by simp [Token.atom?, hk, hn]))
    · exact .fail rfl (.skips (skips (by rw [hk]; rfl)))
  case h_6 | h_7 => exact .goto (.unary (by simp [TokenKind.unary?, hk]))
  case h_8 => exact .goto (.group hk)
  case h_9 =>
    refine .choose (by decide) (fun hk' hr => .goto ?_) fun hk' => .goto (.array hk hk')
    dsimp only at hr
    rw [hr]
    exact .emptyArray hk hk'
  case h_10 =>
    refine .choose (by decide) (fun hk' hr => .goto ?_) fun hk' => .goto (.table hk hk')
    dsimp only at hr
    rw [hr]
    exact .emptyTable hk hk'
  case h_11 | h_12 =>
    refine .require (by decide) rfl (skips (by rw [hk]; rfl)) fun c' left hc _ => .goto ?_
    dsimp only at hc
    rw [hc]
    constructor <;> assumption
  case h_13 =>
    have read := parameterList_cases ⟨t, ts, stop⟩
    split <;> rename_i h <;> rw [h] at read
    · exact .fail rfl (.skips ((skips (by rw [hk]; rfl)).trans read))
    · obtain ⟨more, us, params, hu⟩ := read
      dsimp only at hu
      have skips' := (skips (by rw [hk]; rfl)).trans more
      refine .require (by decide) rfl skips' fun c' brace hc _ => .goto ?_
      rw [hu, hc]
      exact .function hk params brace
  case h_14 noBrace _ _ => exact .fail rfl (Cursor.refuses_read noBrace)

theorem extendBy_attempt (s : ParseState) (f : Precedence) (e : Expr) (k : ExprStack) :
    Attempt s k.enclosing? (Rule (.extend f e k, s.cursor.rest)) (s.extendBy f e k) := by
  unfold extendBy
  split
  · rename_i hx
    refine .goto (.whole fun x hx' => ?_)
    rw [← Cursor.peek_kind, hx] at hx'
    cases hx'
  · rename_i x hx
    have hr := Cursor.rest_of_peek (c := s.cursor) rfl fun h => by simp [h, TokenKind.extension?] at hx
    split
    · rename_i tight
      rw [hr]
      cases x with
      | operator op => exact .goto (.operator hx tight)
      | subscript => exact .goto (.subscript (TokenKind.extension?_eq_subscript hx) tight)
      | arguments =>
        have left := TokenKind.extension?_eq_arguments hx
        refine .choose (by decide) (fun right hr' => .goto ?_) fun filled =>
          .goto (.call left filled tight)
        rw [hr']
        exact .emptyCall left right tight
    · rename_i loose
      refine .goto (.whole fun x' hx' => ?_)
      rw [← Cursor.peek_kind, hx] at hx'
      cases hx'
      exact loose

theorem deliver_attempt {s s' : ParseState} {e : Expr} {k : ExprStack}
    (h : s.deliver e k = some s') :
    Attempt s k.enclosing? (Rule (.whole e k, s.cursor.rest)) s' := by
  cases k <;> simp only [deliver, Option.some.injEq, reduceCtorEq] at h
  case operand => subst h; exact .goto .unary
  case right => subst h; exact .goto .binary
  case group =>
    subst h
    refine .require (by decide) rfl .here fun c right hc _ => .goto ?_
    rw [hc]
    exact .closeGroup right
  case argument =>
    rw [← apply_ite some, Option.some.injEq] at h
    subst h
    refine .choose (by decide) (fun comma hr => .goto ?_) fun _ =>
      .require (by decide) rfl .here fun c right hc _ => .goto ?_
    · rw [hr]
      exact .nextArgument comma
    · rw [hc]
      exact .closeCall right
  case item =>
    rw [← apply_ite some, Option.some.injEq] at h
    subst h
    refine .choose (by decide) (fun comma hr => .goto ?_) fun _ =>
      .require (by decide) rfl .here fun c right hc _ => .goto ?_
    · rw [hr]
      exact .nextItem comma
    · rw [hc]
      exact .closeArray right
  case subscript =>
    subst h
    refine .require (by decide) rfl .here fun c right hc _ => .goto ?_
    rw [hc]
    exact .closeSubscript right
  case key =>
    subst h
    refine .require (by decide) rfl .here fun c colon hc _ => .goto ?_
    rw [hc]
    exact .key colon
  case value =>
    rw [← apply_ite some, Option.some.injEq] at h
    subst h
    refine .choose (by decide) (fun right hr => .goto ?_) fun _ =>
      .require (by decide) rfl .here fun c comma hc _ =>
        .choose (by decide) (fun right hr => .goto ?_) fun filled => .goto ?_
    · rw [hr]
      exact .closeTable right
    · rw [hc, hr]
      exact .closeTableComma comma right
    · rw [hc]
      exact .nextKey comma filled
  case ifCondition =>
    subst h
    refine .require (by decide) rfl .here fun c right hc skips =>
      .require (by decide) rfl (skips rfl) fun c' brace hc' _ => .goto ?_
    rw [hc, hc']
    exact .consequence right brace
  case whileCondition =>
    subst h
    refine .require (by decide) rfl .here fun c right hc skips =>
      .require (by decide) rfl (skips rfl) fun c' brace hc' _ => .goto ?_
    rw [hc, hc']
    exact .loopBody right brace
  case statement head done k =>
    subst h
    refine .goto ?_
    split
    · rename_i bare
      subst bare
      split
      · rename_i semicolon
        rw [Cursor.rest_of_peek semicolon (by decide)]
        exact .bareSemicolon semicolon
      · rename_i last
        exact .bare (by rwa [← Cursor.peek_kind])
    · rename_i headed
      rw [Cursor.skipSemicolons_rest]
      exact .headed headed

theorem beginStatement_attempt {s : ParseState} {t : Token} {ts : List Token}
    (unread : s.cursor.rest = t :: ts) (done : Block) (k : BlockStack) :
    Attempt s (some (done, k)) (Rule (.statements done k, s.cursor.rest))
      (s.beginStatement done k) := by
  obtain ⟨control, ⟨last, rest, stop⟩, ds⟩ := s
  dsimp only at unread
  subst unread
  have operand (other : t.kind = .identifier → nextKind ts ≠ .assign) :
      Attempt ⟨control, ⟨last, t :: ts, stop⟩, ds⟩ (some (done, k))
        (Rule (.statements done k, t :: ts))
        (readOperand ⟨control, ⟨last, t :: ts, stop⟩, ds⟩ .lowest (.statement .bare done k)) :=
    Attempt.mono (readOperand_attempt _ .lowest (.statement .bare done k)) fun _ rule =>
      Rule.begin rule other
  simp only [beginStatement, Cursor.read_cons]
  split <;> rename_i hk
  case h_1 =>
    have skips : Cursor.Skips ⟨last, t :: ts, stop⟩ ⟨t, ts, stop⟩ := .read .here (by
      rw [Cursor.peek_cons, hk]
      rfl)
    refine .require (by decide) rfl skips ?_
    intro c name hc skips'
    dsimp only at hc
    refine .require (by decide) rfl (skips' rfl) fun c' sign hc' _ => .goto ?_
    rw [hc, hc']
    exact .define hk name sign
  case h_2 => exact .goto (.return hk)
  case h_3 =>
    refine .choose (by decide) (fun sign hr => .goto ?_) fun other => operand fun _ => other
    dsimp only at hr
    rw [hr]
    exact .assign hk sign
  case h_4 => exact operand fun name => absurd name hk

theorem deliverBlock_attempt {s s' : ParseState} {b : Block} {k : BlockStack}
    (h : s.deliverBlock b k = some s') :
    Attempt s k.enclosing? (Rule (.closed b k, s.cursor.rest)) s' := by
  cases k <;> simp only [deliverBlock, Option.some.injEq, reduceCtorEq] at h
  case consequence =>
    rw [← apply_ite some, Option.some.injEq] at h
    subst h
    refine .choose (by decide) (fun word hr => ?_) fun last => .goto (.conditional last)
    have skips : s.cursor.Skips s.cursor.read := .read .here (by rw [word]; rfl)
    refine .require (by decide) rfl skips fun c brace hc _ => .goto ?_
    rw [hr, hc]
    exact .alternative word brace
  case alternative => subst h; exact .goto .conditionalElse
  case loopBody => subst h; exact .goto .loop
  case functionBody => subst h; exact .goto .function

/-! ### Moves -/

/-- How the parser gets from a state to the next: by a rule, by finding a fault,
    by closing a block at the end of the text, or by resuming a statement list. -/
inductive Move (s s' : ParseState) : Prop
  | rule (rule : Rule s.point s'.point) (same : s'.diagnostics = s.diagnostics)
  | fault {k d} (control : s'.control = .failed k) (inside : k.enclosing? = s.control.enclosing?)
      (read : s.cursor.Refuses s'.cursor) (recorded : s'.diagnostics = s.diagnostics ++ [d])
  | unclosed {done k d} (control : s.control = .statements done k) (block : k.isBlock = true)
      (before : s.cursor.rest = []) (after : s'.point = (.closed done k, []))
      (recorded : s'.diagnostics = s.diagnostics ++ [d])
  | resume {k done outer} (control : s.control = .failed k)
      (inside : k.enclosing? = some (done, outer))
      (after : s'.control = .statements done outer ∨
        s'.control = .closed done outer ∧ outer.isBlock = true)
      (behind : s'.cursor.rest <:+ s.cursor.rest) (same : s'.diagnostics = s.diagnostics)

/-- No step puts tokens back. -/
theorem Move.behind {s s' : ParseState} (h : Move s s') : s'.cursor.rest <:+ s.cursor.rest := by
  cases h with
  | rule rule _ => exact rule.behind
  | fault _ _ read _ => exact read.suffix
  | resume _ _ _ behind _ => exact behind
  | unclosed _ _ _ after _ => exact (Prod.mk.inj after).2 ▸ List.nil_suffix

theorem Attempt.move {s s' : ParseState} (h : Attempt s s.control.enclosing? (Rule s.point) s') :
    Move s s' := by
  cases h with
  | done reached same => exact .rule reached same
  | fault control inside read recorded => exact .fault control inside read recorded

theorem move_of_nextStatement (done : Block) (k : BlockStack) (c : Cursor)
    (ds : List Diagnostic) :
    Move ⟨.statements done k, c, ds⟩ (nextStatement ⟨.statements done k, c, ds⟩ done k) := by
  obtain ⟨last, _ | ⟨t, ts⟩, stop⟩ := c
  · cases k with
    | program => exact .rule .closeProgram rfl
    | _ => exact .unclosed rfl rfl rfl rfl rfl
  · simp only [nextStatement]
    split
    · rename_i closing
      exact .rule (.closeBlock closing.1 closing.2) rfl
    · exact (beginStatement_attempt rfl done k).move

theorem move_of_recover {s s' : ParseState} {k : ExprStack} (control : s.control = .failed k)
    (h : s.recover k = some s') : Move s s' := by
  unfold recover at h
  split at h
  · cases h
  · rename_i done outer inside
    have behind := Cursor.resume_suffix s.cursor
    dsimp only at h
    split at h <;> cases h
    · rename_i closing
      exact .resume control inside (.inr ⟨rfl, closing.1⟩) behind rfl
    · exact .resume control inside (.inl rfl) behind rfl

theorem move_of_step? {s s' : ParseState} (h : s.step? = some s') : Move s s' := by
  obtain ⟨control, c, ds⟩ := s
  cases control with
  | operand f k =>
    cases h
    exact ((readOperand_attempt _ f k).mono fun _ rule => .operand rule).move
  | extend f e k =>
    cases h
    exact (extendBy_attempt _ f e k).move
  | whole e k => exact (deliver_attempt h).move
  | statements done k =>
    cases h
    exact move_of_nextStatement done k c ds
  | closed b k => exact (deliverBlock_attempt h).move
  | failed k => exact move_of_recover rfl h

end ParseState

end Script
