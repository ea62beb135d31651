/-
  Script/Proofs/Parse/Surrounded.lean
  ===================================
  **The parser in the middle of a program.**

  A part of a program may have statements and diagnostics before it, and tokens
  behind it.  As long as a semicolon ends what the parser reads of the part, it
  does not see past that end: each of its steps is the step that it takes on
  the part by itself.

  Main statement: `ParseState.step?_within`.
-/
import Script.Proofs.Parse.Run

namespace Script

/-- What is around a part of a program: the statements before it, the diagnostics
    recorded before, and the stream behind it, if it does not end where the
    program ends.  No semicolon comes first there, for it would belong to the
    part. -/
structure Surroundings where
  before : Block
  recorded : List Diagnostic
  behind : Option TokenStream
  fresh : ∀ stream ∈ behind, nextKind stream.tokens ≠ .semicolon

/-! ### Stacks -/

/-- The statements of a list that is being read, if those before it are read too. -/
def BlockStack.join (before done : Block) : BlockStack → Block
  | .program => before ++ done
  | _ => done

mutual

/-- A stack on a program that has begun with other statements. -/
@[simp] def ExprStack.within (before : Block) : ExprStack → ExprStack
  | .alone => .alone
  | .operand op f k => .operand op f (k.within before)
  | .right e op f k => .right e op f (k.within before)
  | .group f k => .group f (k.within before)
  | .argument e done f k => .argument e done f (k.within before)
  | .item done f k => .item done f (k.within before)
  | .subscript e f k => .subscript e f (k.within before)
  | .key done f k => .key done f (k.within before)
  | .value done e f k => .value done e f (k.within before)
  | .ifCondition f k => .ifCondition f (k.within before)
  | .whileCondition f k => .whileCondition f (k.within before)
  | .statement head done k => .statement head (k.join before done) (k.within before)

@[simp] def BlockStack.within (before : Block) : BlockStack → BlockStack
  | .program => .program
  | .consequence e f k => .consequence e f (k.within before)
  | .alternative e b f k => .alternative e b f (k.within before)
  | .loopBody e f k => .loopBody e f (k.within before)
  | .functionBody ps f k => .functionBody ps f (k.within before)

end

@[simp] theorem BlockStack.isBlock_within (before : Block) (k : BlockStack) :
    (k.within before).isBlock = k.isBlock := by
  cases k <;> rfl

theorem BlockStack.join_append (before done more : Block) (k : BlockStack) :
    k.join before (done ++ more) = k.join before done ++ more := by
  cases k with
  | program => exact (List.append_assoc _ _ _).symm
  | _ => rfl

theorem ExprStack.enclosing?_within (before : Block) : ∀ k : ExprStack,
    (k.within before).enclosing? =
      k.enclosing?.map fun (done, outer) => (outer.join before done, outer.within before)
  | .alone => rfl
  | .operand _ _ k | .right _ _ _ k | .group _ k | .argument _ _ _ k | .item _ _ k
  | .subscript _ _ k | .key _ _ k | .value _ _ _ k | .ifCondition _ k | .whileCondition _ k =>
    ExprStack.enclosing?_within before k
  | .statement _ _ _ => rfl

def ParseControl.within (before : Block) : ParseControl → ParseControl
  | .operand f k => .operand f (k.within before)
  | .extend f e k => .extend f e (k.within before)
  | .whole e k => .whole e (k.within before)
  | .statements done k => .statements (k.join before done) (k.within before)
  | .closed done k => .closed (k.join before done) (k.within before)
  | .failed k => .failed (k.within before)

/-! ### Cursors -/

namespace Surroundings

variable {T : Surroundings} {c : Cursor}

/-- What is behind the part cannot be seen from a cursor: there is nothing, or
    the last token of the part is a semicolon that is still unread. -/
def Hidden (T : Surroundings) (c : Cursor) : Prop :=
  T.behind = none ∨ ∃ ts t, c.rest = ts ++ [t] ∧ t.kind = .semicolon

end Surroundings

namespace Cursor

/-- A cursor is spent when it has read the semicolon that ends its part. -/
def Spent (c : Cursor) : Prop := c.rest = [] ∧ c.last.kind = .semicolon

/-- A cursor in the whole program. -/
def within (T : Surroundings) (c : Cursor) : Cursor :=
  match T.behind with
  | none => c
  | some stream => ⟨c.last, c.rest ++ stream.tokens, stream.stop⟩

variable {T : Surroundings} {c : Cursor}

@[simp] theorem last_within : (c.within T).last = c.last := by
  unfold within
  split <;> rfl

theorem within_of_nothing (nothing : T.behind = none) (c : Cursor) : c.within T = c := by
  simp [within, nothing]

theorem within_of_stream {stream : TokenStream} (more : T.behind = some stream) (c : Cursor) :
    c.within T = ⟨c.last, c.rest ++ stream.tokens, stream.stop⟩ := by
  simp [within, more]

theorem peek_within (hidden : T.Hidden c) : (c.within T).peek = c.peek := by
  rcases hidden with nothing | ⟨ts, t, last, -⟩
  · rw [within_of_nothing nothing]
  cases more : T.behind with
  | none => rw [within_of_nothing more]
  | some stream =>
    rw [within_of_stream more]
    cases ts <;> simp [peek, last]

theorem read_within (hidden : T.Hidden c) : (c.within T).read = c.read.within T := by
  have next := peek_within hidden
  rcases hidden with nothing | ⟨ts, t, last, -⟩
  · rw [within_of_nothing nothing, within_of_nothing nothing]
  cases more : T.behind with
  | none => rw [within_of_nothing more, within_of_nothing more]
  | some stream =>
    rw [within_of_stream more] at next ⊢
    rw [within_of_stream more]
    cases ts <;> simp_all [read]

theorem hidden_or_spent_read (hidden : T.Hidden c) : T.Hidden c.read ∨ c.read.Spent := by
  rcases hidden with nothing | ⟨_ | ⟨t', ts⟩, t, last, semicolon⟩
  · exact .inl (.inl nothing)
  · right
    simp [Spent, read, peek, last, semicolon]
  · left
    exact .inr ⟨ts, t, by simp [read, last], semicolon⟩

theorem hidden_read (hidden : T.Hidden c) (other : c.peek.kind ≠ .semicolon) : T.Hidden c.read := by
  rcases hidden_or_spent_read hidden with hidden | spent
  · exact hidden
  · exact absurd spent.2 other

theorem expect_within {kind : TokenKind} (hidden : T.Hidden c) :
    (c.within T).expect kind = (c.expect kind).map (within T) := by
  unfold expect
  rw [peek_within hidden, read_within hidden]
  split <;> rfl

theorem hidden_of_expect {kind : TokenKind} {c' : Cursor} (h : c.expect kind = .ok c')
    (ne : kind ≠ .semicolon) (hidden : T.Hidden c) : T.Hidden c' := by
  obtain ⟨rfl, found⟩ := expect_eq_read h
  exact hidden_read hidden (found ▸ ne)

/-! #### Semicolons and resuming -/

theorem rest_within_ne_nil (unread : c.rest ≠ []) : (c.within T).rest ≠ [] := by
  unfold within
  split
  · exact unread
  · simp [unread]

theorem nothing_of_hidden (hidden : T.Hidden c) (done : c.rest = []) : T.behind = none := by
  rcases hidden with nothing | ⟨ts, t, last, -⟩
  · exact nothing
  · rw [done] at last
    cases ts <;> cases last

theorem hidden_of_unread (guarded : T.Hidden c ∨ c.Spent) (unread : c.rest ≠ []) : T.Hidden c :=
  guarded.resolve_right fun spent => unread spent.1

/-- Behind the semicolon that ends the part, no other follows. -/
theorem peek_within_of_spent (spent : c.Spent) : (c.within T).peek.kind ≠ .semicolon := by
  rw [peek_kind]
  cases more : T.behind with
  | none =>
    rw [within_of_nothing more, spent.1]
    simp
  | some stream =>
    rw [within_of_stream more, spent.1]
    exact T.fresh stream more

theorem skipSemicolons_within (hidden : T.Hidden c) :
    (c.within T).skipSemicolons = c.skipSemicolons.within T ∧
      (T.Hidden c.skipSemicolons ∨ c.skipSemicolons.Spent) := by
  induction size : c.rest.length using Nat.strongRecOn generalizing c with
  | ind n ih =>
    subst size
    have same := peek_within hidden
    by_cases next : c.peek.kind = .semicolon
    · rw [skipSemicolons_of_semicolon next, skipSemicolons_of_semicolon (same ▸ next),
        read_within hidden]
      rcases hidden_or_spent_read hidden with hidden' | spent
      · exact ih _ (read_length_lt (by simp [next])) hidden' rfl
      · have ended : c.read.peek.kind ≠ .semicolon := by
          rw [peek_kind, spent.1]
          simp
        rw [skipSemicolons_of_other (peek_within_of_spent spent), skipSemicolons_of_other ended]
        exact ⟨rfl, .inr spent⟩
    · rw [skipSemicolons_of_other next, skipSemicolons_of_other (same ▸ next)]
      exact ⟨rfl, .inl hidden⟩

theorem resume_within (guarded : T.Hidden c ∨ c.Spent) :
    (c.within T).resume = c.resume.within T ∧ (T.Hidden c.resume ∨ c.resume.Spent) := by
  induction size : c.rest.length using Nat.strongRecOn generalizing c with
  | ind n ih =>
    subst size
    by_cases done : c.rest = []
    · rcases guarded with hidden | spent
      · rw [within_of_nothing (nothing_of_hidden hidden done),
          within_of_nothing (nothing_of_hidden hidden done), resume_of_ended done]
        exact ⟨rfl, .inl hidden⟩
      · rw [resume_of_stop (.inl spent.2), resume_of_stop (.inl (by simpa using spent.2))]
        exact ⟨rfl, .inr spent⟩
    · have hidden := hidden_of_unread guarded done
      have same := peek_within hidden
      by_cases stops : c.last.kind = .semicolon ∨ c.last.kind = .rightBrace ∨
          c.peek.kind = .rightBrace
      · rw [resume_of_stop stops, resume_of_stop (by simpa [same] using stops)]
        exact ⟨rfl, .inl hidden⟩
      · rw [resume_of_going done stops,
          resume_of_going (rest_within_ne_nil done) (by simpa [same] using stops),
          read_within hidden]
        exact ih _ (read_length_lt_of_unread done) (hidden_or_spent_read hidden) rfl

end Cursor

/-! ### Parameters -/

/-- What a reading of parameters comes to in the whole program. -/
def parametersWithin (T : Surroundings) :
    Except (Diagnostic × Cursor) (List String × Cursor) →
      Except (Diagnostic × Cursor) (List String × Cursor)
  | .error (d, c) => .error (d, c.within T)
  | .ok (ps, c) => .ok (ps, c.within T)

theorem parameters_within {T : Surroundings} (names : List String) {c : Cursor}
    (hidden : T.Hidden c) :
    parameters names (c.within T) = parametersWithin T (parameters names c) ∧
      T.Hidden (parametersEnd (parameters names c)) := by
  have name : (c.within T).expect .identifier = (c.expect .identifier).map (Cursor.within T) :=
    Cursor.expect_within hidden
  fun_induction parameters names c with
  | case1 names c d h =>
    rw [h] at name
    rw [parameters_of_missing name]
    exact ⟨rfl, hidden⟩
  | case2 names c c' h names' comma ih =>
    rw [h] at name
    have hidden' := Cursor.hidden_of_expect h (by decide) hidden
    have comma' : (c'.within T).peek.kind = .comma := by rwa [Cursor.peek_within hidden']
    have hidden'' := Cursor.hidden_read hidden' (by simp [comma])
    rw [parameters_of_expect name, if_pos comma', Cursor.read_within hidden', Cursor.last_within]
    exact ih hidden'' (Cursor.expect_within hidden'')
  | case3 names c c' h other d h' =>
    rw [h] at name
    have hidden' := Cursor.hidden_of_expect h (by decide) hidden
    have other' : ¬ (c'.within T).peek.kind = .comma := by rwa [Cursor.peek_within hidden']
    rw [parameters_of_expect name, if_neg other', Cursor.expect_within hidden', h']
    exact ⟨rfl, hidden'⟩
  | case4 names c c' h names' other c'' h' =>
    rw [h] at name
    have hidden' := Cursor.hidden_of_expect h (by decide) hidden
    have other' : ¬ (c'.within T).peek.kind = .comma := by rwa [Cursor.peek_within hidden']
    rw [parameters_of_expect name, if_neg other', Cursor.expect_within hidden', h',
      Cursor.last_within]
    exact ⟨rfl, Cursor.hidden_of_expect h' (by decide) hidden'⟩

theorem parameterList_within {T : Surroundings} {c : Cursor} (hidden : T.Hidden c) :
    parameterList (c.within T) = parametersWithin T (parameterList c) ∧
      T.Hidden (parametersEnd (parameterList c)) := by
  unfold parameterList
  rw [Cursor.expect_within hidden]
  cases h : c.expect .leftParen with
  | error d => exact ⟨rfl, hidden⟩
  | ok c' =>
    have hidden' := Cursor.hidden_of_expect h (by decide) hidden
    simp only [Except.map, Cursor.peek_within hidden', Cursor.read_within hidden']
    split
    · rename_i right
      exact ⟨rfl, Cursor.hidden_read hidden' (by simp [right])⟩
    · exact parameters_within [] hidden'

/-! ### Steps -/

/-- Whether the parser is about to begin a statement, perhaps after a fault. -/
def ParseControl.isResting : ParseControl → Bool
  | .statements .. | .failed _ => true
  | _ => false

namespace ParseState

/-- A state in the whole program. -/
def within (T : Surroundings) (s : ParseState) : ParseState :=
  ⟨s.control.within T.before, s.cursor.within T, T.recorded ++ s.diagnostics⟩

/-- What the parser comes to in the whole program is what it comes to on the
    part, and it still does not see what is behind, unless it is about to begin
    a statement there. -/
structure Carried (T : Surroundings) (whole part : ParseState) : Prop where
  same : whole = part.within T
  guarded : T.Hidden part.cursor ∨ part.cursor.Spent ∧ part.control.isResting = true

section Carried

variable {T : Surroundings} {s : ParseState} {c : Cursor}

theorem Carried.goto {control control' : ParseControl} (same : control' = control.within T.before)
    (hidden : T.Hidden c) : Carried T ((s.within T).goto control' (c.within T)) (s.goto control c) :=
  ⟨congrArg (ParseState.mk · _ _) same, .inl hidden⟩

theorem Carried.fail {k : ExprStack} {d : Diagnostic} (guarded : T.Hidden c ∨ c.Spent) :
    Carried T ((s.within T).fail (k.within T.before) (c.within T) d) (s.fail k c d) where
  same := by simp [ParseState.fail, within, ParseControl.within]
  guarded := guarded.imp id fun spent => ⟨spent, rfl⟩

theorem Carried.statements {done : Block} {k : BlockStack} (guarded : T.Hidden c ∨ c.Spent) :
    Carried T
      ((s.within T).goto (.statements (k.join T.before done) (k.within T.before)) (c.within T))
      (s.goto (.statements done k) c) where
  same := rfl
  guarded := guarded.imp id fun spent => ⟨spent, rfl⟩

theorem Carried.require {kind : TokenKind} {k : ExprStack} {next next' : Cursor → ParseState}
    (hidden : T.Hidden c) (ne : kind ≠ .semicolon)
    (found : ∀ c' : Cursor, T.Hidden c' → Carried T (next' (c'.within T)) (next c')) :
    Carried T ((s.within T).require kind (k.within T.before) (c.within T) next')
      (s.require kind k c next) := by
  unfold ParseState.require
  rw [Cursor.expect_within hidden]
  cases h : c.expect kind with
  | error d => exact .fail (.inl hidden)
  | ok c' => exact found c' (Cursor.hidden_of_expect h ne hidden)

theorem Carried.choose {kind : TokenKind} {r₁ r₂ r₁' r₂' : ParseState} (hidden : T.Hidden c)
    (ne : kind ≠ .semicolon) (found : T.Hidden c.read → Carried T r₁' r₁) (other : Carried T r₂' r₂) :
    Carried T (if (c.within T).peek.kind = kind then r₁' else r₂')
      (if c.peek.kind = kind then r₁ else r₂) := by
  rw [Cursor.peek_within hidden]
  split
  · rename_i h
    exact found (Cursor.hidden_read hidden (h ▸ ne))
  · exact other

end Carried

variable {T : Surroundings} {s : ParseState}

theorem readOperand_within (hidden : T.Hidden s.cursor) (f : Precedence) (k : ExprStack) :
    Carried T ((s.within T).readOperand f (k.within T.before)) (s.readOperand f k) := by
  have guarded := Cursor.hidden_or_spent_read hidden
  have read : (s.within T).cursor.read = s.cursor.read.within T := Cursor.read_within hidden
  simp only [readOperand, read, Cursor.last_within]
  generalize s.cursor.read = c at guarded
  have hidden' : c.last.kind ≠ .semicolon → T.Hidden c :=
    fun other => guarded.resolve_right fun spent => other spent.2
  cases hk : c.last.kind with
  | identifier | string | trueWord | falseWord | bang | minus | leftParen =>
    exact .goto rfl (hidden' (by simp [hk]))
  | integer =>
    simp only
    split
    · exact .goto rfl (hidden' (by simp [hk]))
    · exact .fail guarded
  | leftBracket | leftBrace =>
    have hidden' := hidden' (by simp [hk])
    simp only [Cursor.read_within hidden']
    exact .choose hidden' (by decide) (fun hidden'' => .goto rfl hidden'') (.goto rfl hidden')
  | ifWord | whileWord =>
    exact .require (hidden' (by simp [hk])) (by decide) fun c' hidden'' => .goto rfl hidden''
  | functionWord =>
    obtain ⟨same, hidden''⟩ := parameterList_within (hidden' (by simp [hk]))
    simp only [same]
    cases params : parameterList c with
    | error r =>
      rw [params] at hidden''
      exact .fail (.inl hidden'')
    | ok r =>
      rw [params] at hidden''
      exact .require hidden'' (by decide) fun c' hidden₃ => .goto rfl hidden₃
  | _ => exact .fail guarded

theorem extendBy_within (hidden : T.Hidden s.cursor) (f : Precedence) (e : Expr) (k : ExprStack) :
    Carried T ((s.within T).extendBy f e (k.within T.before)) (s.extendBy f e k) := by
  have peek : (s.within T).cursor.peek = s.cursor.peek := Cursor.peek_within hidden
  have read : (s.within T).cursor.read = s.cursor.read.within T := Cursor.read_within hidden
  simp only [extendBy, peek, read]
  split
  · exact .goto rfl hidden
  rename_i x sign
  have other : s.cursor.peek.kind ≠ .semicolon := fun h => by simp [h, TokenKind.extension?] at sign
  have hidden' := Cursor.hidden_read hidden other
  split
  · cases x with
    | operator op => exact .goto rfl hidden'
    | subscript => exact .goto rfl hidden'
    | arguments =>
      simp only [Cursor.read_within hidden']
      exact .choose hidden' (by decide) (fun hidden'' => .goto rfl hidden'') (.goto rfl hidden')
  · exact .goto rfl hidden

/-- The semicolons behind a statement are the same in the whole program. -/
theorem statementEnd_within {c : Cursor} (hidden : T.Hidden c) (head : StmtHead) :
    let ended (c : Cursor) :=
      if head = .bare then if c.peek.kind = .semicolon then c.read else c else c.skipSemicolons
    ended (c.within T) = (ended c).within T ∧ (T.Hidden (ended c) ∨ (ended c).Spent) := by
  dsimp only
  split
  · rw [Cursor.peek_within hidden, Cursor.read_within hidden]
    split
    · exact ⟨rfl, Cursor.hidden_or_spent_read hidden⟩
    · exact ⟨rfl, .inl hidden⟩
  · exact Cursor.skipSemicolons_within hidden

theorem deliver_within (hidden : T.Hidden s.cursor) (e : Expr) (k : ExprStack) :
    Option.Rel (Carried T) ((s.within T).deliver e (k.within T.before)) (s.deliver e k) := by
  have read : (s.within T).cursor.read = s.cursor.read.within T := Cursor.read_within hidden
  cases k with
  | alone => exact .none
  | operand | right => exact .some (.goto rfl hidden)
  | group | subscript | key =>
    exact .some (.require hidden (by decide) fun c hidden' => .goto rfl hidden')
  | argument | item =>
    simp only [ExprStack.within, deliver, read, ← apply_ite some]
    exact .some (.choose hidden (by decide) (fun hidden' => .goto rfl hidden')
      (.require hidden (by decide) fun c hidden' => .goto rfl hidden'))
  | value =>
    simp only [ExprStack.within, deliver, read, ← apply_ite some]
    refine .some (.choose hidden (by decide) (fun hidden' => .goto rfl hidden')
      (.require hidden (by decide) fun c hidden' => ?_))
    rw [Cursor.read_within hidden']
    exact .choose hidden' (by decide) (fun hidden'' => .goto rfl hidden'') (.goto rfl hidden')
  | ifCondition | whileCondition =>
    exact .some (.require hidden (by decide) fun c hidden' =>
      .require hidden' (by decide) fun c' hidden'' => .goto rfl hidden'')
  | statement head done k =>
    obtain ⟨same, guarded⟩ := statementEnd_within hidden head
    have ends : (s.within T).cursor = s.cursor.within T := rfl
    simp only [ExprStack.within, deliver, ends, same, ← BlockStack.join_append]
    exact .some (.statements guarded)

theorem beginStatement_within (hidden : T.Hidden s.cursor) (done : Block) (k : BlockStack) :
    Carried T ((s.within T).beginStatement (k.join T.before done) (k.within T.before))
      (s.beginStatement done k) := by
  have guarded := Cursor.hidden_or_spent_read hidden
  have read : (s.within T).cursor.read = s.cursor.read.within T := Cursor.read_within hidden
  have operand := readOperand_within hidden .lowest (.statement .bare done k)
  simp only [beginStatement, read, Cursor.last_within]
  generalize s.cursor.read = c at guarded
  have hidden' : c.last.kind ≠ .semicolon → T.Hidden c :=
    fun other => guarded.resolve_right fun spent => other spent.2
  split
  · rename_i word
    refine Carried.require (k := .statement .bare done k) (hidden' (by simp [word])) (by decide) ?_
    intro c₁ hidden₁
    refine Carried.require (k := .statement .bare done k) hidden₁ (by decide) fun c₂ hidden₂ => ?_
    simp only [Cursor.last_within]
    exact .goto rfl hidden₂
  · rename_i word
    exact .goto rfl (hidden' (by simp [word]))
  · rename_i name
    have hidden' := hidden' (by simp [name])
    rw [Cursor.read_within hidden']
    exact .choose hidden' (by decide) (fun hidden'' => .goto rfl hidden'') operand
  · exact operand

theorem nextStatement_of_unread (unread : s.cursor.rest ≠ []) (done : Block) (k : BlockStack) :
    s.nextStatement done k =
      if k.isBlock ∧ s.cursor.peek.kind = .rightBrace then s.goto (.closed done k) s.cursor.read
      else s.beginStatement done k := by
  obtain ⟨control, ⟨last, _ | ⟨t, ts⟩, stop⟩, ds⟩ := s
  · exact absurd rfl unread
  · rfl

theorem nextStatement_within (hidden : T.Hidden s.cursor) (done : Block) (k : BlockStack) :
    Carried T ((s.within T).nextStatement (k.join T.before done) (k.within T.before))
      (s.nextStatement done k) := by
  by_cases ended : s.cursor.rest = []
  · have nothing := Cursor.nothing_of_hidden hidden ended
    have stays : (s.within T).cursor = s.cursor := Cursor.within_of_nothing nothing _
    simp only [nextStatement, stays, ended, BlockStack.isBlock_within]
    split
    · refine ⟨?_, .inl (.inl nothing)⟩
      simp [within, ParseControl.within, Cursor.within_of_nothing nothing]
    · refine ⟨?_, .inl (.inl nothing)⟩
      simp [within, ParseState.goto, ParseControl.within, Cursor.within_of_nothing nothing]
  · have unread : (s.within T).cursor.rest ≠ [] := Cursor.rest_within_ne_nil ended
    have peek : (s.within T).cursor.peek = s.cursor.peek := Cursor.peek_within hidden
    have read : (s.within T).cursor.read = s.cursor.read.within T := Cursor.read_within hidden
    rw [nextStatement_of_unread ended, nextStatement_of_unread unread, peek, read,
      BlockStack.isBlock_within]
    split
    · rename_i closing
      exact .goto rfl (Cursor.hidden_read hidden (by simp [closing.2]))
    · exact beginStatement_within hidden done k

theorem deliverBlock_within (hidden : T.Hidden s.cursor) (b : Block) (k : BlockStack) :
    Option.Rel (Carried T) ((s.within T).deliverBlock (k.join T.before b) (k.within T.before))
      (s.deliverBlock b k) := by
  have read : (s.within T).cursor.read = s.cursor.read.within T := Cursor.read_within hidden
  cases k with
  | program => exact .none
  | consequence =>
    simp only [BlockStack.within, BlockStack.join, deliverBlock, read, ← apply_ite some]
    exact .some (.choose hidden (by decide)
      (fun hidden' => .require hidden' (by decide) fun c hidden'' => .goto rfl hidden'')
      (.goto rfl hidden))
  | alternative | loopBody | functionBody => exact .some (.goto rfl hidden)

theorem recover_within (guarded : T.Hidden s.cursor ∨ s.cursor.Spent) (k : ExprStack) :
    Option.Rel (Carried T) ((s.within T).recover (k.within T.before)) (s.recover k) := by
  obtain ⟨same, guarded'⟩ := Cursor.resume_within guarded
  have resumed : (s.within T).cursor.resume = s.cursor.resume.within T := same
  simp only [recover, ExprStack.enclosing?_within]
  cases k.enclosing? with
  | none => exact .none
  | some list =>
    obtain ⟨done, outer⟩ := list
    simp only [Option.map_some, resumed, Cursor.last_within, BlockStack.isBlock_within,
      ← apply_ite some]
    refine .some ?_
    split
    · rename_i closing
      exact .goto rfl (guarded'.resolve_right fun spent => by simp [spent.2] at closing)
    · exact .statements guarded'

/-- In the whole program the parser takes the step that it takes on the part, as
    long as the part is not over. -/
theorem step?_within (guarded : T.Hidden s.cursor ∨ s.cursor.Spent ∧ ∃ k, s.control = .failed k) :
    Option.Rel (Carried T) (s.within T).step? s.step? := by
  obtain ⟨control, c, ds⟩ := s
  have hidden (going : ∀ k, control ≠ .failed k) : T.Hidden c :=
    guarded.resolve_right fun ⟨_, k, failed⟩ => going k failed
  cases control with
  | operand f k => exact .some (readOperand_within (hidden nofun) f k)
  | extend f e k => exact .some (extendBy_within (hidden nofun) f e k)
  | whole e k => exact deliver_within (hidden nofun) e k
  | statements done k => exact .some (nextStatement_within (hidden nofun) done k)
  | closed b k => exact deliverBlock_within (hidden nofun) b k
  | failed k => exact recover_within (guarded.imp id And.left) k

theorem within_of_step? {s' : ParseState}
    (guarded : T.Hidden s.cursor ∨ s.cursor.Spent ∧ ∃ k, s.control = .failed k)
    (next : s.step? = some s') :
    (s.within T).step? = some (s'.within T) ∧
      (T.Hidden s'.cursor ∨ s'.cursor.Spent ∧ s'.control.isResting = true) := by
  have carried := step?_within guarded
  rw [next] at carried
  cases whole : (s.within T).step? with
  | none =>
    rw [whole] at carried
    cases carried
  | some r =>
    rw [whole] at carried
    obtain ⟨⟨same, guarded'⟩⟩ := carried
    exact ⟨congrArg some same, guarded'⟩

theorem within_of_stopped
    (guarded : T.Hidden s.cursor ∨ s.cursor.Spent ∧ ∃ k, s.control = .failed k)
    (stopped : s.step? = none) : (s.within T).step? = none := by
  have carried := step?_within guarded
  rw [stopped] at carried
  cases whole : (s.within T).step? with
  | none => rfl
  | some r =>
    rw [whole] at carried
    cases carried

end ParseState

end Script
