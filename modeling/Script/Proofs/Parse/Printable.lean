/-
  Script/Proofs/Parse/Printable.lean
  ==================================
  **Parsing yields printable programs.**

  Whatever is wrong with a text, the statements that the parser keeps consist
  of literals that stand in the text, and so have a text of their own.  The
  invariant says this of every tree in the control and on the stack; after a
  fault it says it of the statement list that the parser goes back to.

  Main statements: a step preserves the invariant (`ParseState.printable_of_step?`),
  and every text yields a printable program (`Parsed.program_printable`), which
  reads as itself (`Parsed.reread_program`).
-/
import Script.Proofs.Expr.Rendered

namespace Script

/-! ### The invariant -/

/-- Whether the name of a statement has a literal. -/
@[simp] def StmtHead.printable : StmtHead → Bool
  | .define name | .assign name => isName name
  | .return | .bare => true

mutual

/-- Whether all trees on a stack are printable. -/
@[simp] def ExprStack.printable : ExprStack → Bool
  | .alone => true
  | .operand _ _ k | .group _ k | .ifCondition _ k | .whileCondition _ k => k.printable
  | .right e _ _ k | .subscript e _ k => e.printable && k.printable
  | .argument c done _ k => c.printable && Expr.printableEach done && k.printable
  | .item done _ k => Expr.printableEach done && k.printable
  | .key done _ k => Expr.printablePairs done && k.printable
  | .value done key _ k => Expr.printablePairs done && key.printable && k.printable
  | .statement head done k => head.printable && Block.printable done && k.printable

@[simp] def BlockStack.printable : BlockStack → Bool
  | .program => true
  | .consequence c _ k | .loopBody c _ k => c.printable && k.printable
  | .alternative c b _ k => c.printable && Block.printable b && k.printable
  | .functionBody ps _ k => ps.all isName && k.printable

end

/-- The statement list around a place is printable, if there is one. -/
def PrintableAround (around : Option (Block × BlockStack)) : Prop :=
  ∀ done outer, around = some (done, outer) → Block.printable done = true ∧ outer.printable = true

/-- All trees of a control are printable, except those that a fault drops. -/
@[simp] def ParseControl.Printable : ParseControl → Prop
  | .operand _ k => k.printable = true
  | .extend _ e k | .whole e k => e.printable = true ∧ k.printable = true
  | .statements b k | .closed b k => Block.printable b = true ∧ k.printable = true
  | .failed k => PrintableAround k.enclosing?

theorem StmtHead.printable_complete (head : StmtHead) (e : Expr) :
    (head.complete e).printable = (head.printable && e.printable) := by
  cases head <;> rfl

mutual

theorem ExprStack.printable_around : ∀ {k : ExprStack}, k.printable = true →
    PrintableAround k.enclosing?
  | .alone, _ => nofun
  | .operand _ _ k, h | .group _ k, h | .ifCondition _ k, h | .whileCondition _ k, h =>
    ExprStack.printable_around (k := k) h
  | .right _ _ _ k, h | .subscript _ _ k, h | .argument _ _ _ k, h | .item _ _ k, h
  | .key _ _ k, h | .value _ _ _ k, h => by
    simp only [ExprStack.printable, Bool.and_eq_true] at h
    exact ExprStack.printable_around (k := k) h.2
  | .statement head done k, h => by
    simp only [ExprStack.printable, Bool.and_eq_true] at h
    intro done' outer same
    cases same
    exact ⟨h.1.2, h.2⟩

end

theorem BlockStack.printable_around {k : BlockStack} (h : k.printable = true) :
    PrintableAround k.enclosing? := by
  cases k with
  | program => nofun
  | consequence c f k | loopBody c f k | alternative c b f k | functionBody ps f k =>
    simp only [BlockStack.printable, Bool.and_eq_true] at h
    exact ExprStack.printable_around h.2

theorem ParseControl.Printable.around {control : ParseControl} (h : control.Printable) :
    PrintableAround control.enclosing? := by
  cases control with
  | operand f k => exact ExprStack.printable_around h
  | extend f e k | whole e k => exact ExprStack.printable_around h.2
  | statements done k =>
    intro done' outer same
    cases same
    exact h
  | closed b k => exact BlockStack.printable_around h.2
  | failed k => exact h

/-! ### The rules preserve it -/

theorem Token.isName_literal {t : Token} (fits : t.kind.Fits t.literal)
    (name : t.kind = .identifier) : isName t.literal = true := by
  rw [name] at fits
  exact fits

theorem Token.printable_of_atom? {t : Token} {e : Expr} (fits : t.kind.Fits t.literal)
    (h : t.atom? = some e) : e.printable = true := by
  unfold Token.atom? at h
  split at h <;> rename_i kind
  · cases h
    rw [kind] at fits
    exact fits
  · obtain ⟨n, literal, rfl⟩ := Option.map_eq_some_iff.mp h
    exact decide_eq_true (integerOfLiteral?_eq_some literal).1
  · cases h
    rw [kind] at fits
    exact fits
  · cases h; rfl
  · cases h; rfl
  · cases h

theorem NameList.all_isName {ps : List String} {ts : List Token} (h : NameList ps ts)
    (fits : ∀ t ∈ ts, t.kind.Fits t.literal) : ps.all isName = true := by
  induction h with
  | @one t name => simpa using Token.isName_literal (fits t (by simp)) name
  | @more t comma names ts name isComma rest ih =>
    rw [List.all_cons, Bool.and_eq_true]
    exact ⟨Token.isName_literal (fits t (by simp)) name, ih fun u hu => fits u (by simp [hu])⟩

theorem ParameterList.all_isName {ps : List String} {ts : List Token} (h : ParameterList ps ts)
    (fits : ∀ t ∈ ts, t.kind.Fits t.literal) : ps.all isName = true := by
  cases h with
  | empty => rfl
  | names left names right => exact names.all_isName fun t ht => fits t (by simp [ht])

theorem OperandRule.printable {f : Precedence} {k : ExprStack} {ts : List Token}
    {p : ParseControl × List Token} (h : OperandRule f k ts p)
    (fits : ∀ t ∈ ts, t.kind.Fits t.literal) (printable : k.printable = true) : p.1.Printable := by
  cases h with
  | @atom t e ts token => exact ⟨Token.printable_of_atom? (fits t (by simp)) token, printable⟩
  | @function w ps us b ts word params brace =>
    have names := params.all_isName fun t ht => fits t (by simp [ht])
    exact ⟨rfl, by simp [names, printable]⟩
  | emptyArray | emptyTable => exact ⟨rfl, printable⟩
  | unary | group | array | table | conditional | loop =>
    simpa
      using printable

theorem Rule.printable {p q : ParseControl × List Token} (h : Rule p q)
    (fits : ∀ t ∈ p.2, t.kind.Fits t.literal) (printable : p.1.Printable) : q.1.Printable := by
  cases h with
  | operand rule => exact rule.printable fits printable
  | begin rule other =>
    refine rule.printable fits ?_
    simpa using printable
  | @define w t a done k ts word name sign =>
    have named := Token.isName_literal (fits t (by simp)) name
    simpa [named] using printable
  | @assign t a done k ts name sign =>
    have named := Token.isName_literal (fits t (by simp)) name
    simpa [named] using printable
  -- the others only move trees about
  | _ =>
    simp_all [StmtHead.printable_complete]

/-! ### The steps preserve it -/

namespace ParseState

theorem printable_of_move {s s' : ParseState} (h : Move s s')
    (fits : ∀ t ∈ s.cursor.rest, t.kind.Fits t.literal) (printable : s.control.Printable) :
    s'.control.Printable := by
  cases h with
  | rule rule _ => exact rule.printable fits printable
  | fault control inside _ _ =>
    have around := printable.around
    rw [← inside] at around
    rw [control]
    exact around
  | unclosed control _ _ after _ =>
    rw [control] at printable
    rw [(Prod.mk.inj after).1]
    exact printable
  | @resume k done outer control inside after _ _ =>
    rw [control] at printable
    have list := printable done outer inside
    rcases after with after | ⟨after, -⟩
    · rw [after]
      exact list
    · rw [after]
      exact list

theorem finish_printable (s : ParseState) (fits : ∀ t ∈ s.cursor.rest, t.kind.Fits t.literal)
    (printable : s.control.Printable) : s.finish.control.Printable := by
  fun_induction finish s with
  | case1 => exact printable
  | case2 s s' h ih =>
    -- the tokens still unread are among those unread before
    have move := move_of_step? h
    have fits' : ∀ t ∈ s'.cursor.rest, t.kind.Fits t.literal := by
      intro t ht
      exact fits t (move.behind.subset ht)
    exact ih fits' (printable_of_move move fits printable)

end ParseState

/-- Whatever is wrong with a text, the program read from it is printable. -/
theorem Parsed.program_printable (source : String) :
    (Parsed.ofString source).program.printable = true := by
  let s := ParseState.start (.ofString source)
  have printable : s.finish.control.Printable :=
    s.finish_printable (fun _ => TokenStream.fits_of_mem) ⟨rfl, rfl⟩
  have closed := (Prod.mk.inj (ParseState.finish_start (.ofString source))).1
  rw [closed] at printable
  exact printable.1

/-- Whatever is wrong with a text, the program read from it, printed and read
    again, is the same program, and nothing is wrong with it. -/
theorem Parsed.reread_program (source : String) :
    (Parsed.ofString source).program.printable = true ∧
      Parsed.ofString (Parsed.ofString source).program.render
        = ⟨(Parsed.ofString source).program, []⟩ := by
  have printable := Parsed.program_printable source
  exact ⟨printable, Parsed.ofString_of_printable printable⟩

end Script
