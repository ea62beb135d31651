/-
  Script/Proofs/Session/Transcript.lean
  =====================================
  **What a line of a conversation is answered with.**

  Lines that evaluate nothing leave the session as it is, so the answers to the
  other lines do not depend on them.  A line that forgets the bindings goes on
  with a new root in the same process: scopes and function values of before are
  still there, but the session behind that line is a new session carried behind
  them, and answers as a new one does.

  Main statement: `Session.transcript_recent`.
-/
import Mathlib
import Script.Proofs.Session.Transported

namespace Script

/-- A line that evaluates nothing: a blank one, the one that asks for help, or
    one that does not read as a program. -/
def Idle (line : String) : Prop :=
  trimSpace line = "" ∨ trimSpace line = "help" ∨
    ∃ ds, Program.ofString (trimSpace line) = .error ds

namespace Session

variable [Digesting] [Escaping]

/-- What each line of a conversation is answered with, if no line ends it. -/
def transcript (fuel : Nat) (s : Session) : List String → Option (List Written)
  | [] => some []
  | line :: rest =>
    (s.respond fuel line).bind fun exchange =>
      match exchange.next with
      | .line s' => (s'.transcript fuel rest).map (exchange.written :: ·)
      | .done _ => none

variable {fuel : Nat} {s s' : Session} {line : String} {w : Written} {ts : List Written}

theorem transcript_cons {rest : List String} :
    s.transcript fuel (line :: rest) = some ts ↔
      ∃ w s' ts', s.respond fuel line = some ⟨w, .line s'⟩ ∧
        s'.transcript fuel rest = some ts' ∧ ts = w :: ts' := by
  rw [transcript]
  constructor
  · intro h
    obtain ⟨⟨w, next⟩, answered, goes⟩ := Option.bind_eq_some_iff.1 h
    cases next with
    | line s' =>
      obtain ⟨ts', later, same⟩ := Option.map_eq_some_iff.1 goes
      exact ⟨w, s', ts', answered, later, same.symm⟩
    | done status => cases goes
  · rintro ⟨w, s', ts', answered, later, rfl⟩
    simp [answered, later]

/-- A conversation with these answers writes them one after the other, and the
    farewell behind them. -/
theorem converse_of_transcript {lines : List String} (h : s.transcript fuel lines = some ts) :
    s.converse fuel (lines.map some) = some (ts.foldr (· ++ ·) (.out farewell), 0) := by
  induction lines generalizing s ts with
  | nil =>
    cases h
    rfl
  | cons line rest ih =>
    obtain ⟨w, s', ts', answered, later, rfl⟩ := transcript_cons.1 h
    simp [converse, answered, ih later]

/-! ### Lines that evaluate nothing -/

omit [Digesting] [Escaping] in
/-- The words that are commands would read as programs. -/
theorem ofString_word {word : String} (h : word ∈ ["exit", "quit", "clear"]) :
    Program.ofString word = .ok ⟨[.bare (.identifier word)]⟩ := by
  rcases List.mem_cons.1 h with rfl | h
  · cbv
  rcases List.mem_cons.1 h with rfl | h
  · cbv
  obtain rfl := List.mem_singleton.1 h
  cbv

theorem respond_idle (fuel : Nat) (s : Session) (idle : Idle line) :
    ∃ w, s.respond fuel line = some ⟨w, .line s⟩ := by
  rcases idle with blank | help | ⟨ds, fails⟩
  · exact ⟨.nothing, by rw [respond, blank]; rfl⟩
  · exact ⟨.out promptHelp, by rw [respond, help]; rfl⟩
  have other {word : String} (is : trimSpace line = word) : word ∉ ["exit", "quit", "clear"] := by
    intro command
    rw [is, ofString_word command] at fails
    cases fails
  unfold respond
  split
  · exact ⟨_, rfl⟩
  · rename_i is
    exact absurd (by decide) (other is)
  · rename_i is
    exact absurd (by decide) (other is)
  · exact ⟨_, rfl⟩
  · rename_i is
    exact absurd (by decide) (other is)
  · exact ⟨_, by rw [answerLine, eval, fails]; rfl⟩

/-- Without some of the lines that evaluate nothing, here those not marked, the
    other lines are answered as with them. -/
theorem transcript_marked {lines : List (String × Bool)}
    (idle : ∀ l ∈ lines, l.2 = false → Idle l.1)
    (h : s.transcript fuel (lines.map Prod.fst) = some ts) :
    s.transcript fuel ((lines.filter Prod.snd).map Prod.fst) =
      some (((lines.zip ts).filter (·.1.2)).map Prod.snd) := by
  induction lines generalizing s ts with
  | nil => rfl
  | cons l rest ih =>
    obtain ⟨w, s', ts', answered, later, rfl⟩ := transcript_cons.1 h
    have others := ih (fun l' mem => idle l' (.tail _ mem)) later
    obtain ⟨line, marked | marked⟩ := l
    · obtain ⟨w', same⟩ := respond_idle fuel s (idle _ List.mem_cons_self rfl)
      rw [same] at answered
      cases answered
      exact others
    · exact transcript_cons.2 ⟨w, s', _, answered, others, rfl⟩

/-! ### Lines behind a new start -/

theorem rested_of_respond (rested : s.Rested) (h : s.respond fuel line = some ⟨w, .line s'⟩) :
    s'.Rested := by
  unfold respond at h
  split at h
  · cases h
    exact rested
  · cases h
  · cases h
  · cases h
    exact rested
  · cases h
    exact rested.ofStore
  · obtain ⟨⟨result, s₁⟩, evaluated, done⟩ := Option.map_eq_some_iff.1 h
    rcases result with ds | ⟨v | code, printed⟩
    · cases done
      exact rested_of_eval rested evaluated nofun
    · cases done
      exact rested_of_eval rested evaluated nofun
    · cases done

theorem transcript_append {before after : List String} (rested : s.Rested)
    (h : s.transcript fuel (before ++ after) = some ts) :
    ∃ (s' : Session) (t t' : List Written), s'.Rested ∧ s'.transcript fuel after = some t' ∧
      ts = t ++ t' ∧ t.length = before.length := by
  induction before generalizing s ts with
  | nil => exact ⟨s, [], ts, rested, h, rfl, rfl⟩
  | cons line rest ih =>
    obtain ⟨w, s₁, ts', answered, later, rfl⟩ := transcript_cons.1 h
    obtain ⟨s', t, t', rested', ends, rfl, length⟩ := ih (rested_of_respond rested answered) later
    exact ⟨s', w :: t, t', rested', ends, rfl, congrArg (· + 1) length⟩

theorem transcript_transport {T : Transport} (same : T.name = id) (bare : T.outer? = none)
    (s : Session) (lines : List String) :
    (s.transport T).transcript fuel lines = s.transcript fuel lines := by
  induction lines generalizing s with
  | nil => rfl
  | cons line rest ih =>
    rw [transcript, transcript, respond_transport same s fuel line bare, Option.bind_map]
    refine congrArg (Option.bind _) (funext fun exchange => ?_)
    obtain ⟨w, s' | status⟩ := exchange
    · exact congrArg (Option.map _) (ih s')
    · rfl

omit [Digesting] [Escaping] in
/-- A new root in a store is a new session behind the scopes of that store. -/
theorem ofStore_eq_transport (rested : s.Rested) :
    ∃ T : Transport, T.name = id ∧ T.outer? = none ∧ ofStore s.store = new.transport T := by
  let T : Transport := .behind s.store.heap none s.store.functions nofun nofun
  refine ⟨T, rfl, rfl, ?_⟩
  have heap : Heap.empty.transport T = s.store.heap := by
    simp [Heap.transport, Heap.empty, T, Transport.behind]
  have store : Store.empty.transport T = s.store := by
    obtain ⟨⟨h, functions, depth, output⟩, root⟩ := s
    obtain ⟨rfl, rfl⟩ := rested
    rw [Store.transport, Store.empty, heap]
    rfl
  rw [new, ofStore_transport rfl, store]

theorem respond_clear (fuel : Nat) (s : Session) (clear : trimSpace line = "clear") :
    s.respond fuel line = some ⟨.out "Environment cleared.\n", .line (ofStore s.store)⟩ := by
  rw [respond, clear]
  rfl

/-- **An answer depends on the lines that are evaluated since the bindings were
    last forgotten.**  Other lines may be left out, and what comes before need
    not have been said. -/
theorem transcript_recent (fuel : Nat) :
    (∀ (lines : List (String × Bool)) (ts : List Written),
        (∀ l ∈ lines, l.2 = false → Idle l.1) →
        new.transcript fuel (lines.map Prod.fst) = some ts →
        new.transcript fuel ((lines.filter Prod.snd).map Prod.fst) =
          some (((lines.zip ts).filter (·.1.2)).map Prod.snd)) ∧
      ∀ (before after : List String) (clear : String) (ts : List Written),
        trimSpace clear = "clear" →
        new.transcript fuel (before ++ clear :: after) = some ts →
        new.transcript fuel after = some (ts.drop (before.length + 1)) := by
  constructor
  · exact fun lines ts idle h => transcript_marked idle h
  intro before after clear ts forgets h
  obtain ⟨s, t, t', rested, ends, rfl, length⟩ := transcript_append rested_new h
  obtain ⟨w, s', ts', answered, later, rfl⟩ := transcript_cons.1 ends
  rw [respond_clear fuel s forgets] at answered
  cases answered
  obtain ⟨T, same, bare, carried⟩ := ofStore_eq_transport rested
  rw [carried, transcript_transport same bare] at later
  rw [later, ← length, List.drop_append]
  simp

omit [Digesting] [Escaping] in
/-- A line that is no program and a request for help are left out; a binding is
    forgotten. -/
theorem transcript_recent_binding :
    let _ : Digesting := ⟨fun _ => 0⟩
    let _ : Escaping := ⟨fun _ => true⟩
    let lines := [("let = 1", false), (" help ", false), ("let x = 7", true), ("x", true)]
    (∃ ts, new.transcript 20 (lines.map Prod.fst) = some ts ∧
        new.transcript 20 ["let x = 7", "x"] =
          some (((lines.zip ts).filter (·.1.2)).map Prod.snd)) ∧
      ∃ ts, new.transcript 20 ["let x = 7", " clear", "let x = 3", "x"] = some ts ∧
        new.transcript 20 ["let x = 3", "x"] = some (ts.drop 2) := by
  intro _ _ lines
  have wrong : Idle "let = 1" := by
    have fails : (Program.ofString (trimSpace "let = 1")).toOption = none := by cbv
    cases read : Program.ofString (trimSpace "let = 1") with
    | error ds => exact .inr (.inr ⟨ds, read⟩)
    | ok p =>
      rw [read] at fails
      cases fails
  have idle : ∀ l ∈ lines, l.2 = false → Idle l.1 := by
    intro l mem unmarked
    rcases List.mem_cons.1 mem with rfl | mem
    · exact wrong
    rcases List.mem_cons.1 mem with rfl | mem
    · exact .inr (.inl (by cbv))
    rcases List.mem_cons.1 mem with rfl | mem
    · cases unmarked
    obtain rfl := List.mem_singleton.1 mem
    cases unmarked
  have others : (new.transcript 20 [" help ", "let x = 7", "x"]).isSome := by cbv
  have lines' : (new.transcript 20 (["let x = 7"] ++ " clear" :: ["let x = 3", "x"])).isSome := by
    cbv
  obtain ⟨ts, later⟩ := Option.isSome_iff_exists.1 others
  obtain ⟨ts', h'⟩ := Option.isSome_iff_exists.1 lines'
  obtain ⟨w, answered⟩ := respond_idle 20 new wrong
  have h : new.transcript 20 (lines.map Prod.fst) = some (w :: ts) :=
    transcript_cons.2 ⟨w, new, ts, answered, later, rfl⟩
  obtain ⟨kept, fresh⟩ := transcript_recent 20
  exact ⟨⟨w :: ts, h, kept lines _ idle h⟩, ts', h',
    fresh ["let x = 7"] ["let x = 3", "x"] " clear" ts' (by cbv) h'⟩

end Session

end Script
