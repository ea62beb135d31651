/-
  Script/Proofs/Parse/Relocated.lean
  ==================================
  **The parser looks at no place.**

  Spans go through the parser unread: it puts the span of a token into a
  diagnostic, and decides nothing by it.  So a run over tokens that stand
  elsewhere is the same run, with its diagnostics elsewhere; and blanks between
  tokens, which only move them, change neither the program nor what is wrong
  with it.

  Main statements: `ParseState.step?_relocate`, `ParseState.finish_relocate`,
  `Parsed.ofStream_relocate` and `Parsed.ofString_respaced`.
-/
import Mathlib
import Script.Proofs.Parse.Run
import Script.Proofs.Token.Respaced

namespace Script

/-! ### Other places -/

def Token.relocate (f : Span → Span) (t : Token) : Token := { t with span := f t.span }

def Diagnostic.relocate (f : Span → Span) (d : Diagnostic) : Diagnostic :=
  { d with span := f d.span }

def TokenStream.relocate (f : Span → Span) (s : TokenStream) : TokenStream :=
  ⟨s.tokens.map (Token.relocate f), f s.stop⟩

def Cursor.relocate (f : Span → Span) (c : Cursor) : Cursor :=
  ⟨c.last.relocate f, c.rest.map (Token.relocate f), f c.stop⟩

def ParseState.relocate (f : Span → Span) (s : ParseState) : ParseState :=
  ⟨s.control, s.cursor.relocate f, s.diagnostics.map (Diagnostic.relocate f)⟩

def Parsed.relocate (f : Span → Span) (p : Parsed) : Parsed :=
  { p with diagnostics := p.diagnostics.map (Diagnostic.relocate f) }

variable {f : Span → Span}

/-! ### Cursors -/

namespace Cursor

variable {c c' : Cursor}

@[simp] theorem peek_relocate (c : Cursor) : (c.relocate f).peek = c.peek.relocate f := by
  obtain ⟨last, _ | ⟨t, ts⟩, stop⟩ := c <;> rfl

theorem kind_peek_relocate (c : Cursor) : (c.relocate f).peek.kind = c.peek.kind := by
  rw [peek_relocate]
  rfl

@[simp] theorem read_relocate (c : Cursor) : (c.relocate f).read = c.read.relocate f := by
  obtain ⟨last, _ | ⟨t, ts⟩, stop⟩ := c <;> rfl

theorem expect_relocate_of_ok {kind : TokenKind} (h : c.expect kind = .ok c') :
    (c.relocate f).expect kind = .ok (c'.relocate f) := by
  obtain ⟨rfl, found⟩ := expect_eq_read h
  have found' : (c.relocate f).peek.kind = kind := by
    rw [peek_relocate]
    exact found
  rw [expect, if_pos found', read_relocate]

theorem expect_relocate_of_error {kind : TokenKind} {d : Diagnostic}
    (h : c.expect kind = .error d) :
    (c.relocate f).expect kind = .error (d.relocate f) := by
  unfold expect at h
  split at h
  · cases h
  · rename_i other
    cases h
    have other' : (c.relocate f).peek.kind ≠ kind := by
      rw [peek_relocate]
      exact other
    rw [expect, if_neg other', peek_relocate]
    rfl

theorem skipSemicolons_relocate (c : Cursor) :
    (c.relocate f).skipSemicolons = c.skipSemicolons.relocate f := by
  induction size : c.rest.length using Nat.strongRecOn generalizing c with
  | ind n ih =>
    subst size
    have same := c.kind_peek_relocate (f := f)
    by_cases next : c.peek.kind = .semicolon
    · rw [skipSemicolons_of_semicolon next, skipSemicolons_of_semicolon (same.trans next),
        read_relocate]
      exact ih _ (read_length_lt (by simp [next])) _ rfl
    · rw [skipSemicolons_of_other next, skipSemicolons_of_other (by rwa [same])]

theorem resume_relocate (c : Cursor) : (c.relocate f).resume = c.resume.relocate f := by
  induction size : c.rest.length using Nat.strongRecOn generalizing c with
  | ind n ih =>
    subst size
    have last : (c.relocate f).last.kind = c.last.kind := rfl
    by_cases ended : c.rest = []
    · have ended' : (c.relocate f).rest = [] := List.map_eq_nil_iff.mpr ended
      rw [resume_of_ended ended, resume_of_ended ended']
    by_cases stops : c.last.kind = .semicolon ∨ c.last.kind = .rightBrace ∨
        c.peek.kind = .rightBrace
    · rw [resume_of_stop stops, resume_of_stop (by rwa [last, kind_peek_relocate])]
    · have unread : (c.relocate f).rest ≠ [] := mt List.map_eq_nil_iff.mp ended
      rw [resume_of_going ended stops,
        resume_of_going unread (by rwa [last, kind_peek_relocate]), read_relocate]
      exact ih _ (read_length_lt_of_unread ended) _ rfl

end Cursor

/-! ### Parameters -/

/-- What reading parameters comes to, at other places. -/
def relocateNames (f : Span → Span) :
    Except (Diagnostic × Cursor) (List String × Cursor) →
      Except (Diagnostic × Cursor) (List String × Cursor)
  | .error (d, c) => .error (d.relocate f, c.relocate f)
  | .ok (names, c) => .ok (names, c.relocate f)

theorem parameters_relocate (names : List String) (c : Cursor) :
    parameters names (c.relocate f) = relocateNames f (parameters names c) := by
  fun_induction parameters names c with
  | case1 names c d h =>
    rw [parameters_of_missing (Cursor.expect_relocate_of_error h)]
    rfl
  | case2 names c c' h names' comma ih =>
    have comma' : (c'.relocate f).peek.kind = .comma := by rwa [Cursor.kind_peek_relocate]
    rw [parameters_of_expect (Cursor.expect_relocate_of_ok h), if_pos comma', Cursor.read_relocate]
    exact ih
  | case3 names c c' h other d h' =>
    have other' : ¬(c'.relocate f).peek.kind = .comma := by rwa [Cursor.kind_peek_relocate]
    rw [parameters_of_expect (Cursor.expect_relocate_of_ok h), if_neg other',
      Cursor.expect_relocate_of_error h']
    rfl
  | case4 names c c' h names' other c'' h' =>
    have other' : ¬(c'.relocate f).peek.kind = .comma := by rwa [Cursor.kind_peek_relocate]
    rw [parameters_of_expect (Cursor.expect_relocate_of_ok h), if_neg other',
      Cursor.expect_relocate_of_ok h']
    rfl

theorem parameterList_relocate (c : Cursor) :
    parameterList (c.relocate f) = relocateNames f (parameterList c) := by
  cases h : c.expect .leftParen with
  | error d =>
    simp only [parameterList, h, Cursor.expect_relocate_of_error h]
    rfl
  | ok c' =>
    simp only [parameterList, h, Cursor.expect_relocate_of_ok h, Cursor.peek_relocate,
      Cursor.read_relocate, parameters_relocate]
    show (if c'.peek.kind = _ then _ else _) = _
    split <;> rfl

/-! ### Steps -/

namespace ParseState

theorem fail_relocate (s : ParseState) (k : ExprStack) (c : Cursor) (d : Diagnostic) :
    (s.relocate f).fail k (c.relocate f) (d.relocate f) = (s.fail k c d).relocate f := by
  simp [fail, relocate]

theorem require_relocate (s : ParseState) (kind : TokenKind) (k : ExprStack) (c : Cursor)
    {next next' : Cursor → ParseState} (same : ∀ c, next' (c.relocate f) = (next c).relocate f) :
    (s.relocate f).require kind k (c.relocate f) next' = (s.require kind k c next).relocate f := by
  unfold require
  cases h : c.expect kind with
  | error d =>
    rw [Cursor.expect_relocate_of_error h]
    exact s.fail_relocate k c d
  | ok c' =>
    rw [Cursor.expect_relocate_of_ok h]
    exact same c'

theorem choose_relocate {p : Prop} [Decidable p] {s s' r r' : ParseState}
    (first : s' = s.relocate f) (second : r' = r.relocate f) :
    (if p then s' else r') = (if p then s else r).relocate f := by
  split
  · exact first
  · exact second

section Step

variable (s : ParseState) (floor : Precedence)

theorem readOperand_relocate (k : ExprStack) :
    (s.relocate f).readOperand floor k = (s.readOperand floor k).relocate f := by
  have read : (s.relocate f).cursor.read = s.cursor.read.relocate f := s.cursor.read_relocate
  simp only [readOperand, read]
  generalize s.cursor.read = c
  have kind : (c.relocate f).last.kind = c.last.kind := rfl
  have literal : (c.relocate f).last.literal = c.last.literal := rfl
  rw [kind, literal, c.kind_peek_relocate, c.read_relocate]
  cases c.last.kind with
  | integer =>
    cases integerOfLiteral? c.last.literal with
    | some n => rfl
    | none => exact s.fail_relocate k c ⟨.integerTooLarge c.last.literal, c.last.span⟩
  | leftBracket | leftBrace => exact choose_relocate rfl rfl
  | ifWord | whileWord => exact s.require_relocate _ k c fun _ => rfl
  | functionWord =>
    simp only [parameterList_relocate]
    rcases parameterList c with ⟨d, c'⟩ | ⟨names, c'⟩
    · exact s.fail_relocate k c' d
    · exact s.require_relocate _ k c' fun _ => rfl
  | identifier | string | trueWord | falseWord | bang | minus | leftParen => rfl
  | _ => exact s.fail_relocate k c ⟨.noOperand _, c.last.span⟩

theorem extendBy_relocate (e : Expr) (k : ExprStack) :
    (s.relocate f).extendBy floor e k = (s.extendBy floor e k).relocate f := by
  have cursor : (s.relocate f).cursor = s.cursor.relocate f := rfl
  simp only [extendBy, cursor, Cursor.read_relocate, Cursor.kind_peek_relocate]
  cases s.cursor.peek.kind.extension? with
  | none => rfl
  | some x =>
    refine choose_relocate ?_ rfl
    cases x with
    | operator op => rfl
    | subscript => rfl
    | arguments => exact choose_relocate rfl rfl

end Step

theorem deliver_relocate (s : ParseState) (e : Expr) (k : ExprStack) :
    (s.relocate f).deliver e k = (s.deliver e k).map (relocate f) := by
  have cursor : (s.relocate f).cursor = s.cursor.relocate f := rfl
  cases k with
  | alone | operand | right => rfl
  | group floor k | subscript _ floor k | key _ floor k =>
    exact congrArg some (s.require_relocate _ k s.cursor fun _ => rfl)
  | argument _ _ floor k | item _ floor k =>
    simp only [deliver, cursor, Cursor.read_relocate, Cursor.kind_peek_relocate, ← apply_ite some,
      Option.map_some]
    exact congrArg some (choose_relocate rfl (s.require_relocate _ k s.cursor fun _ => rfl))
  | value _ _ floor k =>
    simp only [deliver, cursor, Cursor.read_relocate, Cursor.kind_peek_relocate, ← apply_ite some,
      Option.map_some]
    refine congrArg some (choose_relocate rfl (s.require_relocate _ k s.cursor fun c => ?_))
    rw [c.kind_peek_relocate, c.read_relocate]
    exact choose_relocate rfl rfl
  | ifCondition floor k | whileCondition floor k =>
    refine congrArg some (s.require_relocate _ k s.cursor fun c => ?_)
    exact s.require_relocate _ k c fun _ => rfl
  | statement head done k =>
    simp only [deliver, cursor, Cursor.read_relocate, Cursor.kind_peek_relocate,
      Cursor.skipSemicolons_relocate,
      ← apply_ite (Cursor.relocate f)]
    rfl

theorem beginStatement_relocate (s : ParseState) (done : Block) (k : BlockStack) :
    (s.relocate f).beginStatement done k = (s.beginStatement done k).relocate f := by
  have read : (s.relocate f).cursor.read = s.cursor.read.relocate f := s.cursor.read_relocate
  have operand := s.readOperand_relocate (f := f) .lowest (.statement .bare done k)
  simp only [beginStatement, read, operand]
  generalize s.cursor.read = c
  have kind : (c.relocate f).last.kind = c.last.kind := rfl
  rw [kind, c.kind_peek_relocate, c.read_relocate]
  cases c.last.kind with
  | letWord =>
    refine s.require_relocate _ _ c fun c => ?_
    exact s.require_relocate _ _ c fun _ => rfl
  | returnWord => rfl
  | identifier => exact choose_relocate rfl rfl
  | _ => rfl

theorem nextStatement_relocate (s : ParseState) (done : Block) (k : BlockStack) :
    (s.relocate f).nextStatement done k = (s.nextStatement done k).relocate f := by
  have begin := s.beginStatement_relocate (f := f) done k
  obtain ⟨control, ⟨last, _ | ⟨t, ts⟩, stop⟩, ds⟩ := s
  · simp only [nextStatement, relocate, Cursor.relocate, List.map_nil]
    split
    · simp [Cursor.read, Cursor.peek, Token.relocate, Token.endOfInput, Diagnostic.relocate]
    · rfl
  · exact choose_relocate rfl begin

theorem deliverBlock_relocate (s : ParseState) (b : Block) (k : BlockStack) :
    (s.relocate f).deliverBlock b k = (s.deliverBlock b k).map (relocate f) := by
  have cursor : (s.relocate f).cursor = s.cursor.relocate f := rfl
  cases k with
  | program | alternative | loopBody | functionBody => rfl
  | consequence e floor k =>
    simp only [deliverBlock, cursor, Cursor.read_relocate, Cursor.kind_peek_relocate,
      ← apply_ite some, Option.map_some]
    exact congrArg some
      (choose_relocate (s.require_relocate _ k s.cursor.read fun _ => rfl) rfl)

theorem recover_relocate (s : ParseState) (k : ExprStack) :
    (s.relocate f).recover k = (s.recover k).map (relocate f) := by
  have cursor : (s.relocate f).cursor = s.cursor.relocate f := rfl
  simp only [recover, cursor, Cursor.resume_relocate]
  cases k.enclosing? with
  | none => rfl
  | some list =>
    simp only [← apply_ite some, Option.map_some]
    exact congrArg some (choose_relocate rfl rfl)

/-- Elsewhere, a step is the same step. -/
theorem step?_relocate (s : ParseState) : (s.relocate f).step? = s.step?.map (relocate f) := by
  have control : (s.relocate f).control = s.control := rfl
  simp only [step?, control]
  cases s.control with
  | operand floor k => exact congrArg some (s.readOperand_relocate floor k)
  | extend floor e k => exact congrArg some (s.extendBy_relocate floor e k)
  | whole e k => exact s.deliver_relocate e k
  | statements done k => exact congrArg some (s.nextStatement_relocate done k)
  | closed b k => exact s.deliverBlock_relocate b k
  | failed k => exact s.recover_relocate k

/-! ### Runs -/

theorem finish_relocate (s : ParseState) : (s.relocate f).finish = s.finish.relocate f := by
  fun_induction finish s with
  | case1 s h =>
    apply finish_of_stopped
    rw [step?_relocate, h]
    rfl
  | case2 s s' h ih =>
    rw [← ih]
    apply finish_of_step?
    rw [step?_relocate, h]
    rfl

end ParseState

/-- The same tokens elsewhere make the same program, with the same faults elsewhere. -/
theorem Parsed.ofStream_relocate (f : Span → Span) (s : TokenStream) :
    Parsed.ofStream (s.relocate f) = (Parsed.ofStream s).relocate f := by
  have run := (ParseState.start s).finish_relocate (f := f)
  have started : (ParseState.start s).relocate f = ParseState.start (s.relocate f) := rfl
  rw [started] at run
  show Parsed.mk (ParseState.start _).finish.program (ParseState.start _).finish.diagnostics = _
  rw [run]
  rfl

/-! ### Other layouts -/

/-- Tokens that say the same, wherever they stand, make the same program, with the
    same faults in the same order. -/
theorem Parsed.ofStream_of_contents {s s' : TokenStream}
    (same : s'.tokens.map Token.content = s.tokens.map Token.content) :
    (ofStream s').program = (ofStream s).program ∧
      (ofStream s').diagnostics.map Diagnostic.fault =
        (ofStream s).diagnostics.map Diagnostic.fault := by
  -- with all spans taken away, nothing is left but what the tokens say
  let bare : Span → Span := fun _ => default
  have blind (ts : List Token) : ts.map (Token.relocate bare) =
      (ts.map Token.content).map fun (kind, literal) => ⟨kind, literal, default⟩ := by
    rw [List.map_map]
    rfl
  have streams : s'.relocate bare = s.relocate bare := by
    rw [TokenStream.relocate, TokenStream.relocate, blind, blind, same]
  have parsed : (ofStream s').relocate bare = (ofStream s).relocate bare := by
    rw [← ofStream_relocate, ← ofStream_relocate, streams]
  have faults (ds : List Diagnostic) :
      (ds.map (Diagnostic.relocate bare)).map Diagnostic.fault = ds.map Diagnostic.fault := by
    rw [List.map_map]
    rfl
  have programs := congrArg Parsed.program parsed
  constructor
  · exact programs
  · rw [← faults, ← faults (ofStream s).diagnostics]
    exact congrArg (List.map Diagnostic.fault ·.diagnostics) parsed

/-- Blanks may be put in wherever a token begins, and behind all of them unless the
    last one is a string without an end: the tokens say the same then, and the text
    is the same program with the same faults in the same order. -/
theorem Parsed.ofString_respaced (source : String) {t : Token}
    (ht : t ∈ (TokenStream.ofString source).toList)
    (closed : t.kind = .endOfInput →
      ∀ u, (TokenStream.ofString source).tokens.getLast? = some u → ¬u.Unclosed source)
    {w : String} (blank : ∀ c ∈ w.toList, c = ' ' ∨ c = '\t' ∨ c = '\n' ∨ c = '\r') :
    let spaced := insertAt source t.span.start w
    (TokenStream.ofString spaced).toList.map Token.content =
        (TokenStream.ofString source).toList.map Token.content ∧
      (ofString spaced).program = (ofString source).program ∧
      (ofString spaced).diagnostics.map Diagnostic.fault =
        (ofString source).diagnostics.map Diagnostic.fault := by
  intro spaced
  have blank' : ∀ c ∈ w.toList, isBlank c = true := by
    intro c hc
    rcases blank c hc with rfl | rfl | rfl | rfl <;> rfl
  have same : contents spaced.toList = contents source.toList :=
    TokenStream.contents_insertAt source ht closed blank'
  refine ⟨?_, ofStream_of_contents same⟩
  rw [TokenStream.map_content_toList, TokenStream.map_content_toList, same]

/-- A blank and a line feed before the number that a word ends with, and blanks
    behind a string that ends the text. -/
theorem Parsed.ofString_respaced_pieces :
    let source := "let x1==\"a b\""
    insertAt source 5 " \n" = "let x \n1==\"a b\"" ∧
      insertAt source 13 "\t\r" = "let x1==\"a b\"\t\r" ∧
      ∀ spaced ∈ [insertAt source 5 " \n", insertAt source 13 "\t\r"],
        (ofString spaced).program = (ofString source).program ∧
          (ofString spaced).diagnostics.map Diagnostic.fault = [.unexpected .assign .integer] := by
  intro source
  let number : Token := ⟨.integer, "1", ⟨5, 6, 1, 6⟩⟩
  let string : Token := ⟨.string, "a b", ⟨8, 13, 1, 9⟩⟩
  let stop : Token := .endOfInput ⟨13, 13, 1, 14⟩
  have tokens : (TokenStream.ofString source).tokens =
      [⟨.letWord, "let", ⟨0, 3, 1, 1⟩⟩, ⟨.identifier, "x", ⟨4, 5, 1, 5⟩⟩, number,
        ⟨.equal, "==", ⟨6, 8, 1, 7⟩⟩, string] := by cbv
  have all : (TokenStream.ofString source).toList =
      [⟨.letWord, "let", ⟨0, 3, 1, 1⟩⟩, ⟨.identifier, "x", ⟨4, 5, 1, 5⟩⟩, number,
        ⟨.equal, "==", ⟨6, 8, 1, 7⟩⟩, string, stop] := by cbv
  have faults : (ofString source).diagnostics.map Diagnostic.fault =
      [.unexpected .assign .integer] := by cbv
  have closed : ¬string.Unclosed source := by
    rintro ⟨-, text⟩
    revert text
    decide
  have proper : number.kind ≠ .endOfInput := by
    rintro ⟨⟩
  obtain ⟨-, program, faults'⟩ := ofString_respaced source (t := number) (by simp [all])
    (fun ended => absurd ended proper) (w := " \n") (by simp)
  obtain ⟨-, program', faults''⟩ := ofString_respaced source (t := stop) (by simp [all])
    (by simpa [tokens] using fun _ => closed) (w := "\t\r") (by simp)
  refine ⟨by decide, by decide, ?_⟩
  simp only [List.forall_mem_cons]
  exact ⟨⟨program, faults'.trans faults⟩, ⟨program', faults''.trans faults⟩,
    List.forall_mem_nil _⟩

end Script
