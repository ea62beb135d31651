/-
  Script/Proofs/Parse/Located.lean
  ================================
  **Diagnostics point at tokens, in the order of the text.**

  A step that records a diagnostic does so about a token that it has before it,
  and goes on with that token still unread, or just behind it.  So the tokens
  that the diagnostics of a run are about never go back in the text.

  Main statements: what a step records (`ParseState.step?_reports`), and what
  the diagnostics of a text say (`Parsed.located_ofString`).
-/
import Mathlib
import Script.Proofs.Parse.Run
import Script.Proofs.Text.Decimal
import Script.Proofs.Token.Lossless

namespace Script

/-! ### What a diagnostic is about -/

/-- What a fault says of the token it was found at. -/
def Fault.Concerns (t : Token) : Fault → Prop
  | .unexpected expected found => found = t.kind ∧ found ≠ expected
  | .noOperand found => found = t.kind ∧ found.beginsOperand = false
  | .integerTooLarge literal =>
    t.kind = .integer ∧ literal = t.literal ∧ maxInteger < decimalValue literal.toList

/-- A diagnostic at the place of a token, with a fault of that token. -/
def Diagnostic.About (t : Token) (d : Diagnostic) : Prop := d.span = t.span ∧ d.fault.Concerns t

namespace Cursor

variable {c c' : Cursor}

/-- The tokens that a cursor has before it, the end token last. -/
def ahead (c : Cursor) : List Token := c.rest ++ [.endOfInput c.stop]

theorem ahead_eq_cons (c : Cursor) : ∃ ts, c.ahead = c.peek :: ts := by
  obtain ⟨last, _ | ⟨t, ts⟩, stop⟩ := c
  · exact ⟨[], rfl⟩
  · exact ⟨ts ++ [.endOfInput stop], rfl⟩

theorem peek_mem_ahead (c : Cursor) : c.peek ∈ c.ahead := by
  obtain ⟨ts, ahead⟩ := c.ahead_eq_cons
  rw [ahead]
  exact List.mem_cons_self

theorem ahead_read (c : Cursor) : c.read.ahead <:+ c.ahead := by
  obtain ⟨last, _ | ⟨t, ts⟩, stop⟩ := c
  · exact List.suffix_rfl
  · exact List.suffix_cons t _

theorem ahead_skipSemicolons (c : Cursor) : c.skipSemicolons.ahead <:+ c.ahead := by
  fun_induction Cursor.skipSemicolons c with
  | case1 => exact List.suffix_rfl
  | case2 c t ts h hk ih => exact ih.trans c.ahead_read
  | case3 => exact List.suffix_rfl

theorem ahead_resume (c : Cursor) : c.resume.ahead <:+ c.ahead := by
  fun_induction Cursor.resume c with
  | case1 => exact List.suffix_rfl
  | case2 => exact List.suffix_rfl
  | case3 c t ts h hk ih => exact ih.trans c.ahead_read

theorem ahead_of_expect {kind : TokenKind} (h : c.expect kind = .ok c') : c'.ahead <:+ c.ahead := by
  obtain ⟨rfl, -⟩ := expect_eq_read h
  exact c.ahead_read

/-- A token that is required and missing is missing where the next one is. -/
theorem about_of_expect {kind : TokenKind} {d : Diagnostic} (h : c.expect kind = .error d) :
    d.About c.peek := by
  unfold expect at h
  split at h
  · cases h
  · rename_i other
    cases h
    exact ⟨rfl, rfl, other⟩

end Cursor

/-! ### Parameters -/

/-- Parameters are read forward, and a fault is about the token where the
    reading stops. -/
theorem parameters_reports (names : List String) (c : Cursor) :
    match parameters names c with
    | .error (d, c') => c'.ahead <:+ c.ahead ∧ d.About c'.peek
    | .ok (_, c') => c'.ahead <:+ c.ahead := by
  fun_induction parameters names c with
  | case1 names c d h => exact ⟨List.suffix_rfl, Cursor.about_of_expect h⟩
  | case2 names c c' h names' comma ih =>
    have before := c'.ahead_read.trans (Cursor.ahead_of_expect h)
    split at ih
    · exact ⟨ih.1.trans before, ih.2⟩
    · exact ih.trans before
  | case3 names c c' h other d h' =>
    exact ⟨Cursor.ahead_of_expect h, Cursor.about_of_expect h'⟩
  | case4 names c c' h names' other c'' h' =>
    exact (Cursor.ahead_of_expect h').trans (Cursor.ahead_of_expect h)

theorem parameterList_reports (c : Cursor) :
    match parameterList c with
    | .error (d, c') => c'.ahead <:+ c.ahead ∧ d.About c'.peek
    | .ok (_, c') => c'.ahead <:+ c.ahead := by
  cases h : c.expect .leftParen with
  | error d =>
    simp only [parameterList, h]
    exact ⟨List.suffix_rfl, Cursor.about_of_expect h⟩
  | ok c' =>
    have before := Cursor.ahead_of_expect h
    simp only [parameterList, h]
    by_cases right : c'.peek.kind = .rightParen
    · simp only [right, if_true]
      exact c'.ahead_read.trans before
    · simp only [right, if_false]
      have names := parameters_reports [] c'
      split at names
      · exact ⟨names.1.trans before, names.2⟩
      · exact names.trans before

/-! ### Steps -/

namespace ParseState

/-- What a step from a state `s` comes to: it records nothing, or one diagnostic
    about a token that `s` has before it, and has not read beyond that token. -/
inductive Reports (s r : ParseState) : Prop
  | nothing (behind : r.cursor.ahead <:+ s.cursor.ahead) (same : r.diagnostics = s.diagnostics)
  | fault {t ts d} (found : t :: ts <:+ s.cursor.ahead) (behind : r.cursor.ahead <:+ t :: ts)
      (about : d.About t) (recorded : r.diagnostics = s.diagnostics ++ [d])

section Reports

variable {s : ParseState} {c : Cursor}

theorem Reports.behind {r : ParseState} (h : Reports s r) : r.cursor.ahead <:+ s.cursor.ahead := by
  cases h with
  | nothing behind _ => exact behind
  | fault found behind _ _ => exact behind.trans found

theorem Reports.goto {control : ParseControl} (behind : c.ahead <:+ s.cursor.ahead) :
    Reports s (s.goto control c) :=
  .nothing behind rfl

/-- A fault of the next token, which stays unread. -/
theorem Reports.missing {k : ExprStack} {d : Diagnostic} (behind : c.ahead <:+ s.cursor.ahead)
    (about : d.About c.peek) : Reports s (s.fail k c d) := by
  obtain ⟨ts, ahead⟩ := c.ahead_eq_cons
  exact .fault (ahead ▸ behind) (ahead ▸ List.suffix_rfl) about rfl

/-- A fault of the token that has been read to begin an operand. -/
theorem Reports.refused {k : ExprStack} {d : Diagnostic} (about : d.About s.cursor.peek) :
    Reports s (s.fail k s.cursor.read d) := by
  obtain ⟨ts, ahead⟩ := s.cursor.ahead_eq_cons
  exact .fault (ahead ▸ List.suffix_rfl) (ahead ▸ s.cursor.ahead_read) about rfl

theorem Reports.require {kind : TokenKind} {k : ExprStack} {next : Cursor → ParseState}
    (behind : c.ahead <:+ s.cursor.ahead)
    (found : ∀ c' : Cursor, c'.ahead <:+ s.cursor.ahead → Reports s (next c')) :
    Reports s (s.require kind k c next) := by
  unfold ParseState.require
  split
  · rename_i c' h
    exact found c' ((Cursor.ahead_of_expect h).trans behind)
  · rename_i d h
    exact .missing behind (Cursor.about_of_expect h)

theorem Reports.choose {p : Prop} [Decidable p] {r r' : ParseState} (first : Reports s r)
    (second : Reports s r') : Reports s (if p then r else r') := by
  split
  · exact first
  · exact second

end Reports

variable {s : ParseState}

theorem readOperand_reports
    (numeral : s.cursor.peek.kind = .integer → IsNumeral s.cursor.peek.literal) (f : Precedence)
    (k : ExprStack) : Reports s (s.readOperand f k) := by
  have behind := s.cursor.ahead_read
  have again := s.cursor.read.ahead_read.trans behind
  simp only [readOperand, Cursor.read_last]
  cases kind : s.cursor.peek.kind with
  | identifier | string | trueWord | falseWord | bang | minus | leftParen => exact .goto behind
  | integer =>
    simp only
    split
    · exact .goto behind
    · rename_i none
      exact .refused ⟨rfl, kind, rfl, (integerOfLiteral?_eq_none (numeral kind)).mp none⟩
  | leftBracket | leftBrace => exact .choose (.goto again) (.goto behind)
  | ifWord | whileWord => exact .require behind fun c' behind' => .goto behind'
  | functionWord =>
    have params := parameterList_reports s.cursor.read
    simp only
    split <;> rename_i h <;> rw [h] at params
    · exact .missing (params.1.trans behind) params.2
    · exact .require (params.trans behind) fun c' behind' => .goto behind'
  | _ => exact .refused ⟨rfl, kind.symm, rfl⟩

/-- The kinds of token that begin no operand are those that the parser refuses
    where it wants one. -/
theorem readOperand_refuses_iff
    (numeral : s.cursor.peek.kind = .integer → IsNumeral s.cursor.peek.literal) (f : Precedence)
    (k : ExprStack) : s.cursor.peek.kind.beginsOperand = false ↔ s.readOperand f k =
      s.fail k s.cursor.read ⟨.noOperand s.cursor.peek.kind, s.cursor.peek.span⟩ := by
  constructor
  · intro begins
    simp only [readOperand, Cursor.read_last]
    cases kind : s.cursor.peek.kind <;> simp_all [TokenKind.beginsOperand]
  · intro refuses
    have reports := readOperand_reports numeral f k
    rw [refuses] at reports
    cases reports with
    | nothing _ same => simp [fail] at same
    | fault _ _ about recorded =>
      obtain rfl := List.singleton_inj.mp (List.append_cancel_left recorded)
      exact about.2.2

theorem extendBy_reports (f : Precedence) (e : Expr) (k : ExprStack) :
    Reports s (s.extendBy f e k) := by
  have behind := s.cursor.ahead_read
  unfold extendBy
  split
  · exact .goto List.suffix_rfl
  · rename_i x sign
    refine .choose ?_ (.goto List.suffix_rfl)
    cases x with
    | operator op => exact .goto behind
    | subscript => exact .goto behind
    | arguments => exact .choose (.goto (s.cursor.read.ahead_read.trans behind)) (.goto behind)

theorem deliver_reports {s' : ParseState} {e : Expr} {k : ExprStack}
    (h : s.deliver e k = some s') : Reports s s' := by
  have here : s.cursor.ahead <:+ s.cursor.ahead := List.suffix_rfl
  have behind := s.cursor.ahead_read
  cases k with
  | alone => cases h
  | operand | right =>
    cases h
    exact .goto here
  | group | subscript | key =>
    cases h
    exact .require here fun c' behind' => .goto behind'
  | argument | item =>
    simp only [deliver, ← apply_ite some, Option.some.injEq] at h
    subst h
    exact .choose (.goto behind) (.require here fun c' behind' => .goto behind')
  | value =>
    simp only [deliver, ← apply_ite some, Option.some.injEq] at h
    subst h
    refine .choose (.goto behind) (.require here fun c' behind' => ?_)
    exact .choose (.goto (c'.ahead_read.trans behind')) (.goto behind')
  | ifCondition | whileCondition =>
    cases h
    exact .require here fun c' behind' => .require behind' fun c'' behind'' => .goto behind''
  | statement head done k =>
    cases h
    refine .goto ?_
    split
    · split
      · exact behind
      · exact here
    · exact s.cursor.ahead_skipSemicolons

theorem beginStatement_reports
    (numeral : s.cursor.peek.kind = .integer → IsNumeral s.cursor.peek.literal) (done : Block)
    (k : BlockStack) : Reports s (s.beginStatement done k) := by
  have behind := s.cursor.ahead_read
  have operand := readOperand_reports numeral .lowest (.statement .bare done k)
  unfold beginStatement
  dsimp only
  split
  · exact .require behind fun c' behind' => .require behind' fun c'' behind'' => .goto behind''
  · exact .goto behind
  · exact .choose (.goto (s.cursor.read.ahead_read.trans behind)) operand
  · exact operand

theorem nextStatement_reports
    (numeral : s.cursor.peek.kind = .integer → IsNumeral s.cursor.peek.literal) (done : Block)
    (k : BlockStack) : Reports s (s.nextStatement done k) := by
  unfold nextStatement
  split
  · rename_i ended
    split
    · -- the end token is the only one before the cursor
      have ahead : s.cursor.ahead = [.endOfInput s.cursor.stop] := by simp [Cursor.ahead, ended]
      have about : Diagnostic.About (.endOfInput s.cursor.stop)
          ⟨.unexpected .rightBrace .endOfInput, s.cursor.stop⟩ := ⟨rfl, rfl, by decide⟩
      exact .fault (ahead ▸ List.suffix_rfl) (ahead ▸ s.cursor.ahead_read) about rfl
    · exact .goto List.suffix_rfl
  · exact .choose (.goto s.cursor.ahead_read) (beginStatement_reports numeral done k)

theorem deliverBlock_reports {s' : ParseState} {b : Block} {k : BlockStack}
    (h : s.deliverBlock b k = some s') : Reports s s' := by
  cases k with
  | program => cases h
  | consequence =>
    simp only [deliverBlock, ← apply_ite some, Option.some.injEq] at h
    subst h
    exact .choose (.require s.cursor.ahead_read fun c' behind' => .goto behind')
      (.goto List.suffix_rfl)
  | alternative | loopBody | functionBody =>
    cases h
    exact .goto List.suffix_rfl

theorem recover_reports {s' : ParseState} {k : ExprStack} (h : s.recover k = some s') :
    Reports s s' := by
  unfold recover at h
  split at h
  · cases h
  · simp only [← apply_ite some, Option.some.injEq] at h
    subst h
    exact .choose (.goto s.cursor.ahead_resume) (.goto s.cursor.ahead_resume)

/-- A step records at most one diagnostic, about a token before it, and does not
    read beyond that token. -/
theorem step?_reports {s' : ParseState}
    (numeral : s.cursor.peek.kind = .integer → IsNumeral s.cursor.peek.literal)
    (h : s.step? = some s') : Reports s s' := by
  obtain ⟨control, c, ds⟩ := s
  cases control with
  | operand f k =>
    cases h
    exact readOperand_reports numeral f k
  | extend f e k =>
    cases h
    exact extendBy_reports f e k
  | whole e k => exact deliver_reports h
  | statements done k =>
    cases h
    exact nextStatement_reports numeral done k
  | closed b k => exact deliverBlock_reports h
  | failed k => exact recover_reports h

/-! ### Runs -/

/-- The diagnostics of a state are about tokens of a stream, in its order, and
    about none that comes behind a token still unread. -/
structure Located (stream : List Token) (s : ParseState) : Prop where
  behind : s.cursor.ahead <:+ stream
  about : ∀ d ∈ s.diagnostics, ∃ t ∈ stream, d.About t
  ordered : s.diagnostics.Pairwise fun d e => d.span.start ≤ e.span.start
  before : ∀ d ∈ s.diagnostics, ∀ t ∈ s.cursor.ahead, d.span.start ≤ t.span.start

section Located

variable {stream : List Token} (numerals : ∀ t ∈ stream, t.kind = .integer → IsNumeral t.literal)
  (sorted : stream.Pairwise fun t u => t.span.start ≤ u.span.start)

include numerals sorted

theorem located_of_step? {s' : ParseState} (located : s.Located stream) (h : s.step? = some s') :
    s'.Located stream := by
  obtain ⟨behind, about, ordered, before⟩ := located
  have numeral := numerals _ (behind.subset s.cursor.peek_mem_ahead)
  cases step?_reports numeral h with
  | nothing behind' same =>
    constructor
    · exact behind'.trans behind
    · rwa [same]
    · rwa [same]
    · rw [same]
      exact fun d hd t ht => before d hd t (behind'.subset ht)
  | @fault t ts d found behind' new recorded =>
    have place : d.span.start = t.span.start := congrArg Span.start new.1
    -- no token from `t` on starts before `t`
    have later : ∀ u ∈ s'.cursor.ahead, t.span.start ≤ u.span.start := by
      intro u hu
      have fromHere := sorted.sublist (found.trans behind).sublist
      rcases List.mem_cons.mp (behind'.subset hu) with rfl | hu
      · exact Nat.le_refl _
      · exact List.rel_of_pairwise_cons fromHere hu
    have earlier : ∀ e ∈ s.diagnostics, e.span.start ≤ t.span.start :=
      fun e he => before e he t (found.subset List.mem_cons_self)
    constructor
    · exact (behind'.trans found).trans behind
    · rw [recorded]
      intro e he
      rcases List.mem_append.mp he with he | he
      · exact about e he
      · rw [List.mem_singleton.mp he]
        exact ⟨t, (found.trans behind).subset List.mem_cons_self, new⟩
    · rw [recorded, List.pairwise_append]
      refine ⟨ordered, List.pairwise_singleton _ _, fun e he e' he' => ?_⟩
      rw [List.mem_singleton.mp he', place]
      exact earlier e he
    · rw [recorded]
      intro e he u hu
      rcases List.mem_append.mp he with he | he
      · exact Nat.le_trans (earlier e he) (later u hu)
      · rw [List.mem_singleton.mp he, place]
        exact later u hu

theorem finish_located {s : ParseState} (located : s.Located stream) : s.finish.Located stream := by
  fun_induction finish s with
  | case1 => exact located
  | case2 s s' h ih => exact ih (located_of_step? numerals sorted located h)

end Located

theorem located_start (stream : TokenStream) : (start stream).Located stream.toList where
  behind := List.suffix_rfl
  about _ none := absurd none List.not_mem_nil
  ordered := .nil
  before _ none := absurd none List.not_mem_nil

end ParseState

/-! ### Texts -/

theorem Token.Covers.isNumeral {source : String} {t : Token} (covers : t.Covers source)
    (number : t.kind = .integer) : IsNumeral t.literal := by
  have text := covers.literal (by simp [number])
  constructor
  · intro none
    exact covers.solid.2 (by rw [← text]; exact String.toList_eq_nil_iff.mp none)
  · rw [text, List.all_eq_true]
    exact (covers.integer number).inside

theorem TokenStream.isNumeral_of_mem {source : String} {t : Token}
    (h : t ∈ (TokenStream.ofString source).toList) (number : t.kind = .integer) :
    IsNumeral t.literal := by
  have laid := (Scanner.at_ofString source).laid
  rcases List.mem_append.mp h with h | h
  · exact (laid.covers t h).1.isNumeral number
  · rw [List.mem_singleton.mp h] at number
    cases number

/-- The tokens of a text begin one behind the other. -/
theorem TokenStream.sorted_ofString (source : String) :
    (TokenStream.ofString source).toList.Pairwise fun t u => t.span.start ≤ u.span.start := by
  have reads := Scanner.at_ofString source
  have covers := reads.laid.covers
  rw [TokenStream.toList, List.pairwise_append]
  refine ⟨reads.laid.ordered.imp_of_mem fun ht _ ordered => ?_, List.pairwise_singleton _ _, ?_⟩
  · exact Nat.le_trans (Nat.le_of_lt (covers _ ht).1.solid.1) ordered
  · intro t ht u hu
    rw [List.mem_singleton.mp hu]
    have inside := Nat.le_trans (Nat.le_of_lt (covers t ht).1.solid.1) (covers t ht).1.bounded
    exact inside.trans_eq (reads.stop_drainOnto []).1.symm

theorem ParseState.located_finish (source : String) :
    (start (.ofString source)).finish.Located (TokenStream.ofString source).toList :=
  finish_located (fun _ => TokenStream.isNumeral_of_mem) (TokenStream.sorted_ofString source)
    (located_start (.ofString source))

/-- Every diagnostic of a text stands at one of its tokens, the end token
    included, and its fault is one of that token; the diagnostics come in the
    order of their places. -/
theorem Parsed.located_ofString (source : String) :
    (∀ d ∈ (Parsed.ofString source).diagnostics,
      ∃ t ∈ (TokenStream.ofString source).toList, d.span = t.span ∧ d.fault.Concerns t) ∧
    (Parsed.ofString source).diagnostics.Pairwise fun d e => d.span.start ≤ e.span.start := by
  have located := ParseState.located_finish source
  exact ⟨located.about, located.ordered⟩

/-- A binding that lacks its sign, a statement that no operand begins, and a block
    that the end of the text closes. -/
theorem Parsed.located_ofString_faults :
    let source := "let x 1; );\nif (x) \x7b y"
    let ds : List Diagnostic := [
      ⟨.unexpected .assign .integer, ⟨6, 7, 1, 7⟩⟩,
      ⟨.noOperand .rightParen, ⟨9, 10, 1, 10⟩⟩,
      ⟨.unexpected .rightBrace .endOfInput, ⟨22, 22, 2, 11⟩⟩]
    (Parsed.ofString source).diagnostics = ds ∧
      (∀ d ∈ ds, ∃ t ∈ (TokenStream.ofString source).toList,
        d.span = t.span ∧ d.fault.Concerns t) ∧
      ds.Pairwise fun d e => d.span.start ≤ e.span.start := by
  intro source ds
  have recorded : (Parsed.ofString source).diagnostics = ds := by cbv
  have located := Parsed.located_ofString source
  rw [recorded] at located
  exact ⟨recorded, located⟩

end Script
