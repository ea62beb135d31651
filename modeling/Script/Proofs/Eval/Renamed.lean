/-
  Script/Proofs/Eval/Renamed.lean
  ===============================
  **Names do not matter.**

  A program does the same under other names, as long as no two names become one
  and the built-in functions keep theirs.  What could tell the names apart are
  the messages of errors that mention one, and the texts of functions.  A run
  that does not end with an error has met none, since errors are not held back;
  so it is enough that no function is printed.

  Main statement: `Session.runProgram_rename`.
-/
import Mathlib
import Script.Proofs.Eval.Alone

namespace Script

/-! ### Values under other names -/

mutual

/-- A value with other names in the function literals that it holds. -/
def Value.rename (r : String → String) : Value → Value
  | .integer n => .integer n
  | .boolean b => .boolean b
  | .string text => .string text
  | .null => .null
  | .returned payload => .returned (payload.rename r)
  | .error message => .error message
  | .function n ps b i => .function n (ps.map r) (Block.rename r b) i
  | .builtin b => .builtin b
  | .array items => .array (Value.renameEach r items)
  | .table ⟨entries⟩ => .table ⟨Value.renameEntries r entries⟩

def Value.renameEach (r : String → String) : List Value → List Value
  | [] => []
  | v :: rest => v.rename r :: Value.renameEach r rest

def Value.renameEntries (r : String → String) :
    List (Key × (Value × Value)) → List (Key × (Value × Value))
  | [] => []
  | (k, (key, value)) :: rest =>
    (k, (key.rename r, value.rename r)) :: Value.renameEntries r rest

end

def Outcome.rename (r : String → String) : Outcome → Outcome
  | .value v => .value (v.rename r)
  | .exit code => .exit code

/-- Whether a run ended with an error. -/
def Outcome.isError : Outcome → Bool
  | .value v => v.isError
  | .exit _ => false

/-- The same setting under other names. -/
def Transport.rename (T : Transport) (r : String → String) (injective : r.Injective)
    (builtin : ∀ b : Builtin, r b.name = b.name) : Transport :=
  { T with name := r, injective := injective, builtin := builtin }

variable {T : Transport} {r : String → String}

mutual

theorem Value.rename_transport (same : T.name = id) (injective : r.Injective)
    (builtin : ∀ b : Builtin, r b.name = b.name) :
    ∀ v : Value, (v.transport T).rename r = v.transport (T.rename r injective builtin)
  | .integer _ | .boolean _ | .string _ | .null | .error _ | .builtin _ => rfl
  | .returned payload =>
    congrArg Value.returned (Value.rename_transport same injective builtin payload)
  | .function n ps b i => by
    simp [Value.transport, Value.rename, same, Block.rename_id, Transport.rename, Transport.scope]
  | .array items =>
    congrArg Value.array (Value.renameEach_transport same injective builtin items)
  | .table ⟨entries⟩ => congrArg (fun es => Value.table ⟨es⟩)
    (Value.renameEntries_transport same injective builtin entries)

theorem Value.renameEach_transport (same : T.name = id) (injective : r.Injective)
    (builtin : ∀ b : Builtin, r b.name = b.name) :
    ∀ items : List Value, Value.renameEach r (Value.transportEach T items) =
      Value.transportEach (T.rename r injective builtin) items
  | [] => rfl
  | v :: rest => by
    rw [Value.transportEach, Value.renameEach, Value.rename_transport same injective builtin v,
      Value.renameEach_transport same injective builtin rest, Value.transportEach]

theorem Value.renameEntries_transport (same : T.name = id) (injective : r.Injective)
    (builtin : ∀ b : Builtin, r b.name = b.name) :
    ∀ entries : List (Key × (Value × Value)),
      Value.renameEntries r (Value.transportEntries T entries) =
        Value.transportEntries (T.rename r injective builtin) entries
  | [] => rfl
  | (k, (key, value)) :: rest => by
    rw [Value.transportEntries, Value.renameEntries,
      Value.rename_transport same injective builtin key,
      Value.rename_transport same injective builtin value,
      Value.renameEntries_transport same injective builtin rest, Value.transportEntries]

end

namespace Outcome

theorem rename_transport (same : T.name = id) (injective : r.Injective)
    (builtin : ∀ b : Builtin, r b.name = b.name) (o : Outcome) :
    (o.transport T).rename r = o.transport (T.rename r injective builtin) := by
  cases o with
  | value v => exact congrArg Outcome.value (v.rename_transport same injective builtin)
  | exit code => rfl

theorem isError_transport (T : Transport) (o : Outcome) : (o.transport T).isError = o.isError := by
  cases o with
  | value v => exact v.isError_transport T
  | exit code => rfl

theorem isError_of_unreturned {o : Outcome} (sound : o.unreturned.isError = false) :
    o.isError = false := by
  cases o with
  | value v => cases v with
    | returned => rfl
    | _ => exact sound
  | exit code => rfl

theorem rename_unreturned (r : String → String) (o : Outcome) :
    (o.rename r).unreturned = o.unreturned.rename r := by
  cases o with
  | value v => cases v with
    | table entries =>
      obtain ⟨entries⟩ := entries
      rfl
    | _ => rfl
  | exit code => rfl

end Outcome

/-! ### Runs that do not show names -/

namespace Machine

variable [Digesting]

/-- No value that is printed from here on holds a function. -/
def PrintsNoFunction (m : Machine) : Prop :=
  ∀ m', Steps m m' → ∀ args, m'.control = .call (.builtin .print) args →
    ∀ v ∈ args, v.Every fun w => w.kind ≠ .function

/-- Whether a machine is not about to print anything but numbers. -/
def printsNumbers (m : Machine) : Bool :=
  match m.control with
  | .call (.builtin .print) args => args.all fun v => v.kind = .integer
  | _ => true

/-- Whether a run ends in time and prints nothing but numbers. -/
def runsPrintingNumbers : Nat → Machine → Bool
  | 0, _ => false
  | fuel + 1, m => m.printsNumbers &&
    match m.step with
    | .running m' => runsPrintingNumbers fuel m'
    | .halted _ _ => true

theorem printsNoFunction_of_runs {fuel : Nat} {m : Machine}
    (runs : runsPrintingNumbers fuel m = true) : m.PrintsNoFunction := by
  intro m' steps
  -- the machine is deterministic: the steps are those that the test went through
  induction steps using Relation.ReflTransGen.head_induction_on generalizing fuel with
  | refl =>
    obtain _ | fuel := fuel
    · cases runs
    intro args control v mem w held function
    have numbers := ((Bool.and_eq_true _ _).mp runs).1
    rw [printsNumbers, control] at numbers
    have number : v.kind = .integer := of_decide_eq_true (List.all_eq_true.mp numbers v mem)
    cases v with
    | integer n =>
      cases held
      cases function
    | _ => cases number
  | head next _ ih =>
    obtain _ | fuel := fuel
    · cases runs
    have others := ((Bool.and_eq_true _ _).mp runs).2
    rw [next] at others
    exact ih others

/-- A run that does not end with an error has not met one. -/
theorem not_given_of_run {m : Machine} {fuel : Nat} {o : Outcome} {s : Store}
    (h : run fuel m = some (o, s)) (sound : o.isError = false) {v : Value}
    (failed : v.isError = true) {k : List Frame} {s' : Store} : ¬ Steps m ⟨.give v, k, s'⟩ := by
  intro steps
  obtain ⟨rest, ends⟩ := run_of_steps steps h
  rw [run_error failed ends, Outcome.isError, failed] at sound
  cases sound

/-- Where a run ends without an error and prints no function, no text that it
    makes depends on the setting. -/
theorem discreet_of_run {m : Machine} {fuel : Nat} {o : Outcome} {s : Store}
    (h : run fuel m = some (o, s)) (sound : o.isError = false) (plain : m.PrintsNoFunction)
    {m' : Machine} (steps : Steps m m') : m'.Discreet T := by
  constructor
  -- a name that is not bound makes an error, which the run would have ended with
  · intro name i control missing other
    have next : m'.step = .running ⟨.give (Failure.unbound name).value, m'.stack, m'.store⟩ := by
      obtain ⟨c, k, s'⟩ := m'
      obtain rfl : c = .eval (.identifier name) i := control
      simp only [step, evalExpr, Store.nameValue, missing, other]
    exact absurd (steps.tail next) (not_given_of_run h sound rfl)
  · intro v name i k control stack unbound
    obtain ⟨c, k', s'⟩ := m'
    obtain rfl : c = .give v := control
    obtain rfl : k' = .assign name i :: k := stack
    by_cases failed : v.isError = true
    · exact absurd steps (not_given_of_run h sound failed)
    · have next : step ⟨.give v, .assign name i :: k, s'⟩ =
          .running ⟨.give (Failure.unbound name).value, k, s'⟩ := by
        simp only [step, failed, resume, unbound]
        rfl
      exact absurd (steps.tail next) (not_given_of_run h sound rfl)
  · intro args control v mem
    exact v.render_transport fun w held function =>
      absurd function (plain m' steps args control v mem w held)

/-- What holds a function holds one in another setting. -/
theorem PrintsNoFunction.of_transport {m : Machine} (same : T.name = id)
    (plain : (m.transport T).PrintsNoFunction) : m.PrintsNoFunction := by
  intro m' steps args control v mem w held function
  have carried := steps_transport (T := T) (fun m'' _ => discreet_of_id same m'') steps
  have calls : (m'.transport T).control = .call (.builtin .print) (args.map (Value.transport T)) := by
    rw [transport, control]
    rfl
  refine plain _ carried _ calls _ (List.mem_map_of_mem mem) _ (held.transport T) ?_
  rw [Value.kind_transport, function]

end Machine

/-! ### Programs -/

namespace Session

/-- Under other names a program ends where it ends without an error, in as many
    steps, and prints the same, if it prints no function; its result is the same
    but for the names in functions. -/
theorem runProgram_rename [Digesting] (injective : r.Injective)
    (builtin : ∀ b : Builtin, r b.name = b.name) (p : Program) (s : Store) {fuel : Nat}
    {answer : Answer} {after : Session}
    (h : (ofStore s).runProgram fuel p = some (answer, after))
    (sound : answer.outcome.isError = false)
    (plain : ((Task.program p (ofStore s).root).start (ofStore s).store).PrintsNoFunction) :
    ∃ after', (ofStore s).runProgram fuel (p.rename r) =
      some (⟨answer.outcome.rename r, answer.printed⟩, after') := by
  let T : Transport := .behind s.heap none s.functions nofun nofun
  let U := T.rename r injective builtin
  have here : (p.alone s.depth).transport T =
      (Task.program p (ofStore s).root).start (ofStore s).store := p.transport_alone_of_id rfl s.depth
  rw [runProgram_ofStore] at h
  obtain ⟨⟨o, s'⟩, ran, ends⟩ := Option.map_eq_some_iff.mp h
  cases ends
  -- both runs are that of the program on its own, in two settings
  have ran : Machine.run fuel ((p.alone s.depth).transport T) = some (o, s') := by rwa [here]
  rw [Machine.run_transport fun m' _ => Machine.discreet_of_id rfl m'] at ran
  obtain ⟨⟨o, s'⟩, alone, carried⟩ := Option.map_eq_some_iff.mp ran
  cases carried
  have sound : o.isError = false := by
    rw [← Outcome.isError_transport T, Outcome.isError_of_unreturned sound]
  have plain : (p.alone s.depth).PrintsNoFunction := .of_transport (T := T) rfl (by rwa [here])
  have there := Machine.run_transport (T := U)
    (fun m' steps => Machine.discreet_of_run alone sound plain steps) fuel
  rw [p.transport_alone, alone] at there
  refine ⟨⟨{ s'.transport U with output := "" }, s.heap.size⟩, ?_⟩
  rw [runProgram_ofStore, ← Outcome.rename_unreturned, Outcome.rename_transport rfl injective builtin]
  exact congrArg (Option.map _) there

/-- Two names are exchanged: of a closure that is called and printed as a number,
    and in the function that the result holds, but not in a text. -/
theorem runProgram_rename_exchange :
    let _ : Digesting := ⟨fun _ => 0⟩
    let r : String → String := Equiv.swap "x" "y"
    let sum (a b : String) : Block := [.bare (.binary (.identifier a) .add (.identifier b))]
    let p (a b : String) : Program := ⟨[
      .define a (.function [b] [.bare (.function [a] (sum a b))]),
      .define b (.call (.identifier a) [.integer 1]),
      .bare (.call (.identifier "print") [.call (.identifier b) [.integer 2]]),
      .bare (.array [.string "x", .identifier b])]⟩
    let answer (a b : String) : Answer :=
      ⟨.value (.array [.string "x", .function 1 [a] (sum a b) 1]), "3 \n"⟩
    (p "x" "y").rename r = p "y" "x" ∧
      ((ofStore .empty).runProgram 60 (p "x" "y")).map Prod.fst = some (answer "x" "y") ∧
      ((Task.program (p "x" "y") (ofStore .empty).root).start
        (ofStore .empty).store).PrintsNoFunction ∧
      ((ofStore .empty).runProgram 60 (p "y" "x")).map Prod.fst = some (answer "y" "x") := by
  intro _ r sum p answer
  have run : ((ofStore .empty).runProgram 60 (p "x" "y")).map Prod.fst = some (answer "x" "y") := by
    cbv
  have plain : ((Task.program (p "x" "y") (ofStore .empty).root).start
      (ofStore .empty).store).PrintsNoFunction :=
    @Machine.printsNoFunction_of_runs _ 60 _ (by cbv)
  have builtin : ∀ b : Builtin, r b.name = b.name := by
    intro b
    cases b <;> decide
  have exchanged : (p "x" "y").rename r = p "y" "x" := by decide
  refine ⟨exchanged, run, plain, ?_⟩
  obtain ⟨⟨first, after⟩, ran, same⟩ := Option.map_eq_some_iff.mp run
  obtain rfl : first = answer "x" "y" := same
  obtain ⟨after', ran'⟩ := runProgram_rename (Equiv.swap "x" "y").injective builtin _ _ ran rfl plain
  rw [exchanged] at ran'
  rw [ran']
  rfl

end Session

end Script
