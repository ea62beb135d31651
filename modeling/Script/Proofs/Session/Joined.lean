/-
  Script/Proofs/Session/Joined.lean
  =================================
  **Texts in turn, and all of them at once.**

  Texts that a session evaluates one after the other do together what one text
  does that lists their programs, up to the first of them that ends with an
  error or with a return: this one is the last that is evaluated, and nothing
  of the joined text runs behind it.

  Main statement: `Session.eval_joined`.
-/
import Script.Proofs.Eval.Printed
import Script.Proofs.Eval.Sequence
import Script.Proofs.Parse.Marks
import Script.Proofs.Session.Run

namespace Script

/-! ### Programs behind each other -/

/-- The statements of several programs, as one program. -/
def Program.joined (ps : List Program) : Program := ⟨ps.flatMap Program.statements⟩

theorem Block.renderEach_append (b b' : Block) :
    Block.renderEach (b ++ b') = Block.renderEach b ++ Block.renderEach b' := by
  induction b with
  | nil => rfl
  | cons st rest ih => exact congrArg (st.render :: ·) ih

theorem Block.renderEach_ne_nil {b : Block} (h : b ≠ []) : Block.renderEach b ≠ [] := by
  cases b with
  | nil => exact absurd rfl h
  | cons => exact List.cons_ne_nil _ _

theorem Program.joined_ne_nil {p : Program} {ps : List Program}
    (h : ∀ q ∈ p :: ps, q.statements ≠ []) : (Program.joined (p :: ps)).statements ≠ [] :=
  List.append_ne_nil_of_left_ne_nil (h p List.mem_cons_self) _

/-- The texts of programs with statements, separated as statements are, are the
    text of the programs as one. -/
theorem Program.render_joined {ps : List Program} (h : ∀ p ∈ ps, p.statements ≠ []) :
    (Program.joined ps).render = "; ".intercalate (ps.map Program.render) := by
  induction ps with
  | nil => rfl
  | cons p ps ih =>
    cases ps with
    | nil =>
      rw [List.map_cons, List.map_nil, String.intercalate_singleton, Program.joined,
        List.flatMap_singleton]
    | cons q qs =>
      have others : ∀ r ∈ q :: qs, r.statements ≠ [] := fun r mem => h r (.tail _ mem)
      have split : (Program.joined (p :: q :: qs)).render
          = "; ".intercalate (Block.renderEach p.statements ++
            Block.renderEach (Program.joined (q :: qs)).statements) :=
        congrArg ("; ".intercalate ·) (Block.renderEach_append _ _)
      rw [split, String.intercalate_append_of_ne_nil
          (Block.renderEach_ne_nil (h p List.mem_cons_self))
          (Block.renderEach_ne_nil (Program.joined_ne_nil others)),
        List.map_cons, String.intercalate_cons_of_ne_nil (by simp), ← ih others]
      rfl

theorem Program.printable_joined {ps : List Program} (h : ∀ p ∈ ps, p.printable = true) :
    (Program.joined ps).printable = true := by
  induction ps with
  | nil => rfl
  | cons p ps ih =>
    have others := ih fun q mem => h q (.tail _ mem)
    rw [Program.printable, Program.joined, List.flatMap_cons, Block.printable_append]
    exact Bool.and_eq_true_iff.2 ⟨h p List.mem_cons_self, others⟩

/-! ### Texts in turn -/

/-- A text reads without errors, as a program with statements. -/
def Denotes (source : String) (p : Program) : Prop :=
  Program.ofString source = .ok p ∧ p.statements ≠ []

theorem Denotes.printable {source : String} {p : Program} (h : Denotes source p) :
    p.printable = true := by
  have printable := Parsed.program_printable source
  rwa [Parsed.eq_of_ofString h.1] at printable

namespace Session

/-- Whether a text that is evaluated now ends with an error or with a return at
    its top. -/
def stops [Digesting] (fuel : Nat) (source : String) (s : Session) : Bool :=
  match Program.ofString source with
  | .error _ => false
  | .ok p => (s.store.perform fuel (.exec p.statements s.root)).any (·.1.outcome.stops)

/-- Evaluate texts one after the other, to the first that stops: the outcome of
    the last evaluation, what all of them printed, and the session they leave. -/
def evalInTurn [Digesting] (fuel : Nat) (s : Session) : List String → Option (Answer × Session)
  | [] => some (⟨.value .null, ""⟩, s)
  | source :: rest =>
    match s.eval fuel source with
    | some (.ok answer, s') =>
      if rest.isEmpty || s.stops fuel source then some (answer, s')
      else
        (s'.evalInTurn fuel rest).map fun (later, s'') =>
          ({ later with printed := answer.printed ++ later.printed }, s'')
    | _ => none

/-- The joined text of the programs that were read reads as the joined program. -/
theorem ofString_joined {sources : List String} {ps : List Program}
    (denoted : List.Forall₂ Denotes sources ps) :
    Program.ofString ("; ".intercalate (ps.map Program.render)) = .ok (Program.joined ps) := by
  have readable : ∀ p ∈ ps, p.printable = true ∧ p.statements ≠ [] := by
    induction denoted with
    | nil => exact fun p mem => absurd mem List.not_mem_nil
    | cons first others ih =>
      intro p mem
      rcases List.mem_cons.1 mem with rfl | later
      · exact ⟨first.printable, first.2⟩
      · exact ih p later
  have reads := Parsed.ofString_of_printable (Program.printable_joined fun p mem => (readable p mem).1)
  rw [← Program.render_joined fun p mem => (readable p mem).2, Program.ofString, reads]
  rfl

variable {fuel : Nat} {s s' : Session} {answer : Answer}

theorem stops_eq [Digesting] {source : String} {p : Program} (h : Program.ofString source = .ok p) :
    s.stops fuel source = (Machine.run fuel (s.start p)).any (·.1.stops) := by
  rw [stops, h]
  simp only [Store.perform, Option.any_map]
  rfl

/-- What texts do in turn is what their statements do in one run.  A later text
    runs with nothing printed; in the one run the texts before it have printed,
    which makes no difference but that theirs comes first. -/
theorem run_of_evalInTurn [Digesting] {sources : List String} {ps : List Program}
    (denoted : List.Forall₂ Denotes sources ps) (filled : sources ≠ [])
    (h : s.evalInTurn fuel sources = some (answer, s')) :
    ∃ total r, Machine.run total (s.start (Program.joined ps)) = some r ∧
      answered s.root r = (answer, s') := by
  induction denoted generalizing s answer s' with
  | nil => exact absurd rfl filled
  | @cons source p rest ps denotes others ih =>
    obtain ⟨read, statements⟩ := denotes
    rw [evalInTurn, eval_eq read, stops_eq read] at h
    rcases ran : Machine.run fuel (s.start p) with _ | ⟨o, s₁⟩
    · rw [ran] at h
      cases h
    simp only [ran, Option.map_some, Option.any_some] at h
    by_cases last : (rest.isEmpty || o.stops) = true
    · rw [if_pos last] at h
      have ends : o.stops = true ∨ (Program.joined ps).statements = [] := by
        rw [Bool.or_eq_true, List.isEmpty_iff] at last
        rcases last with rfl | stops
        · cases others
          exact .inr rfl
        · exact .inl stops
      obtain ⟨total, runs⟩ := Machine.run_exec_append statements ran (.ended ends)
      exact ⟨total, (o, s₁), runs, Option.some.inj h⟩
    · rw [if_neg last] at h
      rw [Bool.or_eq_true, not_or, List.isEmpty_iff, Bool.not_eq_true] at last
      obtain ⟨more, goes⟩ := last
      obtain ⟨⟨later, s''⟩, evaluated, joined⟩ := Option.map_eq_some_iff.1 h
      obtain ⟨n, ⟨o', s₂⟩, runs, answers⟩ := ih more evaluated
      have printed : Machine.run n ⟨.exec (Program.joined ps).statements s.root, [], s₁⟩
          = some (o', s₂.prepend s₁.output) := by
        let begun : Machine :=
          ⟨.exec (Program.joined ps).statements s.root, [], { s₁ with output := "" }⟩
        have alone : Machine.run n begun = some (o', s₂) := runs
        have ahead := Machine.run_prepend s₁.output n begun
        rw [alone, Machine.prepend, Store.prepend] at ahead
        rwa [String.append_empty] at ahead
      have remains : (Program.joined ps).statements ≠ [] := by
        cases others with
        | nil => exact absurd rfl more
        | cons first => exact List.append_ne_nil_of_left_ne_nil first.2 _
      obtain ⟨total, whole⟩ := Machine.run_exec_append statements ran (.went goes remains printed)
      refine ⟨total, (o', s₂.prepend s₁.output), whole, ?_⟩
      cases answers
      exact joined

/-- **Texts in turn are their joined text.**  The texts of the programs, one
    behind the other, read without errors; if the evaluations end, so does that
    of the joined text, with the outcome of the last of them, all that they
    printed, and the same session behind it. -/
theorem eval_joined [Digesting] {sources : List String} {ps : List Program}
    (denoted : List.Forall₂ Denotes sources ps) (filled : sources ≠ [])
    (h : s.evalInTurn fuel sources = some (answer, s')) :
    ∃ total, s.eval total ("; ".intercalate (ps.map Program.render)) = some (.ok answer, s') := by
  obtain ⟨total, r, runs, answers⟩ := run_of_evalInTurn denoted filled h
  refine ⟨total, ?_⟩
  rw [eval_eq (ofString_joined denoted), runs, Option.map_some, answers]

/-- The second text returns, so the third is not evaluated. -/
theorem eval_joined_return :
    let _ : Digesting := ⟨fun _ => 0⟩
    let sources := ["let x = 1; print(x)", "return x + 1;", "print(x)"]
    (new.evalInTurn 60 sources).map (·.1) = some ⟨.value (.integer 2), "1 \n"⟩ ∧
      ∃ total s', new.eval total "let x = 1; print(x); return (x + 1); print(x)" =
        some (.ok ⟨.value (.integer 2), "1 \n"⟩, s') := by
  intro _ sources
  let x : Expr := .identifier "x"
  let printed : Stmt := .bare (.call (.identifier "print") [x])
  let ps : List Program := [⟨[.define "x" (.integer 1), printed]⟩,
    ⟨[.return (.binary x .add (.integer 1))]⟩, ⟨[printed]⟩]
  have denoted : List.Forall₂ Denotes sources ps :=
    .cons ⟨by cbv, by decide⟩ (.cons ⟨by cbv, by decide⟩ (.cons ⟨by cbv, by decide⟩ .nil))
  have turns : (new.evalInTurn 60 sources).map (·.1) = some ⟨.value (.integer 2), "1 \n"⟩ := by cbv
  obtain ⟨⟨answer, s'⟩, evaluated, same⟩ := Option.map_eq_some_iff.1 turns
  cases same
  obtain ⟨total, joined⟩ := eval_joined denoted (by decide) evaluated
  exact ⟨turns, total, s', joined⟩

end Session

end Script
