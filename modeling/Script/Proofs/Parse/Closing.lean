/-
  Script/Proofs/Parse/Closing.lean
  ================================
  **The brace that closes a block.**

  A block whose brace has a matching one is closed there or before, never
  behind it: it ends by as many braces too early as faults on the way have
  lost.  So it is closed by its own brace just if no fault loses one.

  Faults do lose braces: recovery stops at the first closing brace, also when
  it belongs to a table in the statement that is dropped
  (`ParseState.closes_noColon`).

  Main statement: `ParseState.closes_matched`.
-/
import Script.Proofs.Parse.Braces

namespace Script

/-! ### Matched braces -/

/-- As brackets, the braces of these tokens match each other. -/
structure Matched (ts : List Token) : Prop where
  even : openings ts = closings ts
  nested : ∀ us, us <+: ts → closings us ≤ openings us

/-- What is left of matched tokens closes what it opens. -/
theorem Matched.suffix {ts us : List Token} (h : Matched ts) (left : us <:+ ts) :
    openings us ≤ closings us := by
  obtain ⟨ws, rfl⟩ := left
  have even := h.even
  have nested := h.nested ws (List.prefix_append ws us)
  rw [openings_append, closings_append] at even
  omega

/-- Tokens that are read before a closing brace has been passed are tokens up to
    that brace. -/
theorem reads_to_brace {us ws rest behind : List Token} {r : Token} (right : r.kind = .rightBrace)
    (read : us ++ r :: behind = ws ++ rest) (inner : ∀ t ∈ ws.dropLast, t.kind ≠ .rightBrace) :
    ∃ vs, us ++ [r] = ws ++ vs ∧ rest = vs ++ behind := by
  have read' : (us ++ [r]) ++ behind = ws ++ rest := by simpa using read
  rcases List.append_eq_append_iff.1 read' with ⟨more, rfl, rfl⟩ | ⟨vs, same, rest⟩
  · -- nothing is read behind the brace, or it would not be the last token read
    cases more with
    | nil => exact ⟨[], by simp, by simp⟩
    | cons t more =>
      rw [List.dropLast_append_of_ne_nil (List.cons_ne_nil _ _)] at inner
      exact absurd right (inner r (by simp))
  · exact ⟨vs, same, rest⟩

namespace ParseState

/-- The run from a state to the next one in which the list of statements `k` is
    closed, and how many open braces are lost on the way. -/
inductive Closes (k : BlockStack) : ParseState → Nat → ParseState → Prop
  | now {s s' b} (next : s.step? = some s') (closed : s'.control = .closed b k) :
      Closes k s (s.lost s') s'
  | later {s s' n final} (next : s.step? = some s') (going : ∀ b, s'.control ≠ .closed b k)
      (others : Closes k s' n final) : Closes k s (s.lost s' + n) final

variable {k : BlockStack}

/-- A list that is over is closed at the brace that was read last, if not at once. -/
theorem closes_of_closing {s s' : ParseState} (next : s.step? = some s') (block : k.isBlock = true)
    (shut : Closing k s') : ∃ final, Closes k s (s.lost s') final ∧ final.cursor = s'.cursor := by
  obtain ⟨brace, ⟨b, closed⟩ | ⟨j, done, failed, inside⟩⟩ := shut
  · exact ⟨s', .now next closed, rfl⟩
  · obtain ⟨-, -, -, stays, -⟩ := s'.cursor.resume_tokens
    have closes : s'.step? = some (s'.goto (.closed done k) s'.cursor) := by
      simp [step?, failed, recover, inside, stays brace, block, brace]
    have none : s'.lost (s'.goto (.closed done k) s'.cursor) = 0 := by simp [lost, failed, goto]
    have going : ∀ b, s'.control ≠ .closed b k := fun b closed => by
      rw [failed] at closed
      cases closed
    have run := Closes.later next going (.now closes rfl)
    rw [none, Nat.add_zero] at run
    exact ⟨_, run, rfl⟩

theorem enclosing_of_open {s : ParseState} (block : k.isBlock = true)
    (around : k.braces <:+ s.braces) : ∃ list, s.control.enclosing? = some list := by
  have inner : k.braces <:+ bracesAround s.control.enclosing? := by
    by_cases failed : ∃ j, s.control = .failed j
    · obtain ⟨j, failed⟩ := failed
      rw [braces_of_failed failed] at around
      rw [failed]
      split at around
      · exact around.trans (List.tail_suffix _)
      · exact around
    · rw [braces_of_going (not_exists.1 failed), ParseControl.braces_eq] at around
      exact suffix_of_tables block around
  cases list : s.control.enclosing? with
  | none =>
    rw [list, BlockStack.braces_of_isBlock block] at inner
    cases List.suffix_nil.1 inner
  | some _ => exact ⟨_, rfl⟩

/-- While a block is open, its list is closed at its brace or before. -/
theorem closes_of_open {r : Token} {behind : List Token} (block : k.isBlock = true)
    (right : r.kind = .rightBrace) {s : ParseState} {us : List Token} {before : Nat}
    (rest : s.cursor.rest = us ++ r :: behind) (around : k.braces <:+ s.braces)
    (balance : s.braces.length + openings us + before = k.braces.length + closings us) :
    ∃ n final vs, Closes k s n final ∧ final.cursor.last.kind = .rightBrace ∧
      vs <:+ us ++ [r] ∧ final.cursor.rest = vs ++ behind ∧
      closings vs = openings vs + before + n ∧ (vs = [] → final.cursor.last = r) := by
  induction size : s.size using Nat.strongRecOn generalizing s us before with
  | ind size ih =>
    subst size
    obtain ⟨list, enclosing⟩ := enclosing_of_open block around
    obtain ⟨s', next⟩ := step?_of_enclosing enclosing
    have unread : s.cursor.rest ≠ [] := by simp [rest]
    obtain ⟨ws, account⟩ := account_of_step? next unread block around
    obtain ⟨vs, tokens, rest'⟩ := reads_to_brace right (rest.symm.trans account.read) account.inner
    have moved := account.balance
    have opens : openings us = openings ws + openings vs := by
      have := congrArg openings tokens
      simpa [openings, right] using this
    have closes : closings us + 1 = closings ws + closings vs := by
      have := congrArg closings tokens
      simpa [closings, right] using this
    rcases account.list with around' | ⟨shut, last⟩
    · have deeper := around'.length_le
      rcases List.eq_nil_or_concat vs with rfl | ⟨us', r', rfl⟩
      · -- its own brace does not leave the list open
        simp only [openings, closings, List.countP_nil] at *
        omega
      · have tokens' : us ++ [r] = (ws ++ us') ++ [r'] := by simpa using tokens
        obtain ⟨same, last⟩ := List.append_inj' tokens' rfl
        cases last
        have going : ∀ b, s'.control ≠ .closed b k := by
          intro b closed
          have shut : s'.braces = k.braces.tail := by
            rw [braces_of_going (by simp [closed]), closed]
            rfl
          rw [shut, List.length_tail] at deeper
          rw [BlockStack.braces_of_isBlock block, List.length_cons] at deeper
          omega
        have opens' : openings us = openings ws + openings us' := by rw [same, openings_append]
        have closes' : closings us = closings ws + closings us' := by rw [same, closings_append]
        have balance' : s'.braces.length + openings us' + (before + s.lost s') =
            k.braces.length + closings us' := by omega
        obtain ⟨n, final, vs, run, brace, left, behind', lost, last⟩ :=
          ih _ (size_lt_of_step next) (by simpa using rest') around' balance' rfl
        refine ⟨_, final, vs, .later next going run, brace, ?_, behind', by omega, last⟩
        exact left.trans ⟨ws, by rw [same, List.append_assoc]⟩
    · obtain ⟨final, run, stays⟩ := closes_of_closing next block shut
      refine ⟨_, final, vs, run, ?_, ⟨ws, tokens.symm⟩, by rw [stays, rest'], ?_, ?_⟩
      · rw [stays]
        exact shut.brace
      · have depth : s'.braces.length + 1 = k.braces.length := by
          rw [shut.braces_eq, BlockStack.braces_of_isBlock block]
          rfl
        omega
      · rintro rfl
        rw [stays]
        exact last r (by rw [← tokens.trans (List.append_nil ws), List.getLast?_concat])

theorem Closes.unique {s final final' : ParseState} {n n' : Nat} (h : Closes k s n final)
    (h' : Closes k s n' final') : n = n' ∧ final = final' := by
  induction h generalizing n' with
  | now next closed =>
    cases h' with
    | now next' _ =>
      obtain rfl := Option.some.inj (next.symm.trans next')
      exact ⟨rfl, rfl⟩
    | later next' going _ =>
      obtain rfl := Option.some.inj (next.symm.trans next')
      exact absurd closed (going _)
  | later next going _ ih =>
    cases h' with
    | now next' closed =>
      obtain rfl := Option.some.inj (next.symm.trans next')
      exact absurd closed (going _)
    | later next' _ others =>
      obtain rfl := Option.some.inj (next.symm.trans next')
      obtain ⟨rfl, rfl⟩ := ih others
      exact ⟨rfl, rfl⟩

/-! ### Without faults -/

/-- A step that records nothing is not a fault, and loses no brace. -/
theorem lost_of_sound {s s' : ParseState} (next : s.step? = some s')
    (going : ∀ j, s.control ≠ .failed j) (same : s'.diagnostics = s.diagnostics) :
    (∀ j, s'.control ≠ .failed j) ∧ s.lost s' = 0 := by
  cases move_of_step? next with
  | rule rule _ =>
    obtain ⟨-, going'⟩ := going_of_rule rule
    exact ⟨going', lost_of_going going going'⟩
  | fault _ _ _ recorded | unclosed _ _ _ _ recorded =>
    rw [recorded] at same
    exact absurd same (by simp)
  | resume control => exact absurd control (going _)

theorem Closes.keeps_diagnostics {s final : ParseState} {n : Nat} (run : Closes k s n final) :
    s.diagnostics <+: final.diagnostics := by
  induction run with
  | now next _ => exact (move_of_step? next).keeps_diagnostics
  | later next _ _ ih => exact (move_of_step? next).keeps_diagnostics.trans ih

/-- Where nothing is wrong in a block, no brace is lost. -/
theorem Closes.lost_of_sound {s final : ParseState} {n : Nat} (run : Closes k s n final)
    (going : ∀ j, s.control ≠ .failed j) (same : final.diagnostics = s.diagnostics) : n = 0 := by
  induction run with
  | now next _ => exact (ParseState.lost_of_sound next going same).2
  | @later s s' n final next _ others ih =>
    have first := (move_of_step? next).keeps_diagnostics
    have length := others.keeps_diagnostics.length_le
    rw [same] at length
    have same' : s'.diagnostics = s.diagnostics := (first.eq_of_length_le length).symm
    obtain ⟨going', none⟩ := ParseState.lost_of_sound next going same'
    rw [none, ih going' (same.trans same'.symm)]

/-! ### A brace that is lost -/

/-- A table with a name where its colon is due. -/
def noColon : List Token :=
  [⟨.leftBrace, "\x7b", ⟨7, 8, 1, 8⟩⟩, ⟨.identifier, "x", ⟨8, 9, 1, 9⟩⟩,
   ⟨.identifier, "y", ⟨10, 11, 1, 11⟩⟩, ⟨.rightBrace, "\x7d", ⟨11, 12, 1, 12⟩⟩]

theorem matched_noColon : Matched noColon where
  even := rfl
  nested us h := by
    have all : ∀ n < 5, closings (noColon.take n) ≤ openings (noColon.take n) := by decide
    rw [List.prefix_iff_eq_take.1 h]
    exact all _ (Nat.lt_succ_of_le h.length_le)

/-- The brace that closes the function body around that table. -/
def bodyEnd : Token := ⟨.rightBrace, "\x7d", ⟨13, 14, 1, 14⟩⟩

def bodyStack : BlockStack := .functionBody [] .lowest (.statement .bare [] .program)

/-- The parser behind the opening brace of the body. -/
def bodyStart : ParseState :=
  ⟨.statements [] bodyStack,
    ⟨⟨.leftBrace, "\x7b", ⟨5, 6, 1, 6⟩⟩, noColon ++ [bodyEnd], ⟨14, 14, 1, 15⟩⟩, []⟩

/-- The brace of the table is taken for that of the body: the fault drops the
    table, and recovery stops before the first closing brace. -/
theorem closes_noColon : ∃ final, Closes bodyStack bodyStart 1 final ∧
    final.cursor.rest = [bodyEnd] := by
  let table : ExprStack := .key [] .lowest (.statement .bare [] bodyStack)
  let opened := bodyStart.cursor.read
  let s₁ : ParseState := ⟨.operand .lowest table, opened, []⟩
  let s₂ : ParseState := s₁.goto (.extend .lowest (.identifier "x") table) opened.read
  let s₃ : ParseState := s₂.goto (.whole (.identifier "x") table) opened.read
  let s₄ : ParseState := s₃.fail (.statement .bare [] bodyStack) opened.read
    ⟨.unexpected .colon .identifier, ⟨10, 11, 1, 11⟩⟩
  let s₅ : ParseState := s₄.goto (.statements [] bodyStack) opened.read.read
  let final : ParseState := s₅.goto (.closed [] bodyStack) opened.read.read.read
  have opens : bodyStart.step? = some s₁ := rfl
  have reads : s₁.step? = some s₂ ∧ s₂.step? = some s₃ := ⟨rfl, rfl⟩
  have fails : s₃.step? = some s₄ := rfl
  have resumes : s₄.step? = some s₅ := by
    have skips : s₄.cursor.resume = opened.read.read := by
      rw [Cursor.resume, Cursor.resume]
      rfl
    simp only [step?, recover, s₄, fail, ExprStack.enclosing?] at skips ⊢
    rw [skips]
    rfl
  have closes : s₅.step? = some final := rfl
  have run : Closes bodyStack bodyStart _ final :=
    .later opens (by simp [s₁]) <| .later reads.1 (by simp [s₂, goto]) <|
      .later reads.2 (by simp [s₃, goto]) <| .later fails (by simp [s₄, fail]) <|
        .later resumes (by simp [s₅, goto]) <| .now closes rfl
  exact ⟨final, run, rfl⟩

/-! ### Where a block is closed -/

/-- **Where a block is closed.**  From its opening brace, if this has a matching
    one, the parser comes to close the block, at a closing brace that is not
    behind that one.  The text from there to the matching brace closes as many
    braces more than it opens as have been lost on the way.  So the block is
    closed by its own brace if no fault loses a brace, and only then.  Where
    nothing is wrong in the block, none is lost. -/
theorem closes_matched {inner : List Token} {r : Token} (matched : Matched inner)
    (right : r.kind = .rightBrace) (block : k.isBlock = true) (behind : List Token) (last : Token)
    (stop : Span) (ds : List Diagnostic) :
    let s : ParseState := ⟨.statements [] k, ⟨last, inner ++ r :: behind, stop⟩, ds⟩
    (∃ n final, Closes k s n final) ∧ ∀ n final, Closes k s n final →
      final.cursor.last.kind = .rightBrace ∧
        (∃ vs, vs <:+ inner ++ [r] ∧ final.cursor.rest = vs ++ behind ∧
          closings vs = openings vs + n) ∧
        (n = 0 ↔ final.cursor.last = r ∧ final.cursor.rest = behind) ∧
        (final.diagnostics = ds → n = 0) := by
  intro s
  have balance : s.braces.length + openings inner + 0 = k.braces.length + closings inner := by
    rw [matched.even]
    rfl
  obtain ⟨n, final, vs, run, brace, left, rest, lost, last⟩ :=
    closes_of_open block right (s := s) rfl List.suffix_rfl balance
  refine ⟨⟨n, final, run⟩, fun n' final' run' => ?_⟩
  obtain ⟨rfl, rfl⟩ := run.unique run'
  rw [Nat.add_zero] at lost
  refine ⟨brace, ⟨vs, left, rest, lost⟩, ⟨?_, ?_⟩, run.lost_of_sound (by simp [s])⟩
  · rintro rfl
    have none : vs = [] := by
      rcases List.eq_nil_or_concat vs with none | ⟨us, r', rfl⟩
      · exact none
      · -- what is left up to the brace closes one brace more than it opens
        obtain ⟨ws, whole⟩ := left
        have whole' : (ws ++ us) ++ [r'] = inner ++ [r] := by simpa using whole
        obtain ⟨rfl, same⟩ := List.append_inj' whole' rfl
        cases same
        have more := matched.suffix (List.suffix_append ws us)
        simp [openings, closings, right] at lost more
        omega
    subst none
    exact ⟨last rfl, rest⟩
  · rintro ⟨-, here⟩
    have none : vs = [] := List.append_left_eq_self.1 (rest.symm.trans here)
    subst none
    simpa [openings, closings] using lost.symm

theorem closes_matched_noColon : Matched noColon ∧ bodyEnd.kind = .rightBrace ∧
    bodyStack.isBlock = true ∧ ∃ final, Closes bodyStack bodyStart 1 final ∧
      final.cursor.last.kind = .rightBrace ∧
      (∃ vs, vs <:+ noColon ++ [bodyEnd] ∧ final.cursor.rest = vs ++ [] ∧
        closings vs = openings vs + 1) ∧
      ¬ (final.cursor.last = bodyEnd ∧ final.cursor.rest = []) := by
  obtain ⟨final, run, -⟩ := closes_noColon
  obtain ⟨-, places⟩ := closes_matched matched_noColon (r := bodyEnd) rfl (k := bodyStack) rfl []
    bodyStart.cursor.last bodyStart.cursor.stop []
  obtain ⟨brace, left, own, -⟩ := places 1 final run
  exact ⟨matched_noColon, rfl, rfl, final, run, brace, left, fun here => nomatch own.2 here⟩

end ParseState

end Script
