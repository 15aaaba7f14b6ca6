import Mathlib.Data.List.Forall2
import Scripting.Proofs.Eval.Calls
import Scripting.Proofs.Session.Positions
import Scripting.Transcript

/-!
The log of a session. At no level does it change what a source does. At the levels debug and
trace it gets, of each source, an entry that it was read, one for each call and one for how it
ended, or else the one that it could not be read; at the other levels it gets none. A logger writes
these entries and no others.
-/

namespace Scripting

def Host.loggedAt (host : Host) (level : Log.Level) : Host := host.logging (level.shows .debug)

/-- The line of an entry, told with the session that it belongs to. -/
def Logger.tell (logger : Logger) (r : Log.Record) : Text :=
  logger.write { r with fields := (Text.utf8 "session", .text logger.session) :: r.fields }

namespace Log

/-- What there is to log, at the levels that log it. -/
def Level.keep (level : Level) (account : List Record) : List Record :=
  if level = .debug ∨ level = .trace then account else []

theorem Level.keep_eq (level : Level) (account : List Record) :
    level.keep account = if level.shows .debug then account else [] := by
  cases level <;> rfl

/-- A debug entry of the interpreter. -/
def entry (message : Text) (fields : List (Text × Field)) : Record :=
  ⟨.debug, message, (Text.utf8 "component", .text (Text.utf8 "interpreter")) :: fields⟩

/-- The entry for a source that was read; the end of the source counts as a token. -/
def parsed (source : Text) (p : Program) : Record :=
  entry (Text.utf8 "parsed\n" ++ p.outline)
    [(Text.utf8 "tokens", .number ((Scan.ofSource source).tokens.length + 1)),
      (Text.utf8 "statements", .number p.length)]

/-- The entry for a call, with the declared name of the function and the number of arguments
that it was given. -/
def call (c : Call) : Record :=
  entry (Text.utf8 "call") [(Text.utf8 "function", .text c.function.name.text),
    (Text.utf8 "arguments", .number c.arguments.length)]

end Log

namespace Session

open Evaluator (execBlock blockCourse)

def entries (S : Session) : List Log.Record := S.state.log.toList.map Log.ofEvent

def unlogged (S : Session) : Session := ⟨{ S.state with log := #[] }⟩

/-- Two steps with the same result, after which the sessions differ in their logs at most. -/
def SameStep (x y : Except RunError Value × Session) : Prop :=
  x.1 = y.1 ∧ x.2.unlogged = y.2.unlogged

/-- The calls that a program makes when nothing is logged. -/
def calls (host : Host) (fuel : Nat) (p : Program) (S : Session) : List Call :=
  (blockCourse (host.logging false) fuel root .null p).calls S.state

/-- What there is to tell of the run of a source. -/
inductive Account (host : Host) (fuel : Nat) (source : Text) (S : Session) :
    Except RunError Value → List Log.Record → Prop
  | unread {e : ParseError} (h : Program.ofSource source = .error e) :
      Account host fuel source S (.error (.parse e))
        [Log.entry (Text.utf8 "parse failed") [(Text.utf8 "error", .text e.message)]]
  | value {p : Program} {v : Value} (h : Program.ofSource source = .ok p) :
      Account host fuel source S (.ok v)
        (Log.parsed source p :: (calls host fuel p S).map Log.call ++
          [Log.entry (Text.utf8 "evaluated") [(Text.utf8 "result", .text v.kind.name)]])
  | failure {p : Program} {e : RuntimeError} (h : Program.ofSource source = .ok p) :
      Account host fuel source S (.error (.runtime e))
        (Log.parsed source p :: (calls host fuel p S).map Log.call ++
          [Log.entry (Text.utf8 "evaluation failed") [(Text.utf8 "error", .text e.message)]])

/-- Sources run one after the other at a level, each of which adds its account to the log as far as
the level keeps it. -/
inductive Logged (host : Host) (level : Log.Level) :
    Session → List Text → List (Except RunError Value × Session) → Prop
  | nil {S : Session} : Logged host level S [] []
  | cons {fuel : Nat} {S T : Session} {source : Text} {sources : List Text}
      {r : Except RunError Value} {rest : List (Except RunError Value × Session)}
      {account : List Log.Record} (h : run (host.loggedAt level) fuel source S = (r, T))
      (ha : Account host fuel source S r account)
      (hl : T.entries = S.entries ++ level.keep account)
      (hs : Logged host level T sources rest) :
      Logged host level S (source :: sources) ((r, T) :: rest)

variable {host : Host} {live : Bool} {fuel : Nat} {source : Text}

theorem trace_logging (s : State) (event : Event) :
    s.trace (host.logging live) event =
      { s with log := s.log ++ if live then #[event] else #[] } := by
  cases live with
  | false => simp [State.trace, Host.logging]
  | true => simp [State.trace, Host.logging]

/-- The run of a source that can be read, by what its program does when nothing is logged. -/
theorem run_logging {p : Program} (hp : Program.ofSource source = .ok p) (S : Session) :
    let event := Event.parsed (Scan.ofSource source).withEnd.length p.length p.outline
    let x := execBlock (host.logging false) fuel root .null p S.state
    run (host.logging live) fuel source S = finish (host.logging live) (x.1, { x.2 with
      log := S.state.log ++ (if live then #[event] else #[]) ++
        Call.told live (calls host fuel p S) }) := by
  rw [run_ok hp, evaluate_eq, trace_logging]
  exact congrArg _ (((Evaluator.telling live host).holdsAt fuel).block root .null p S.state _)

theorem finish_sameStep (host host' : Host) (o : Outcome Value) (s : State)
    (log log' : Array Event) :
    SameStep (finish host (o, { s with log })) (finish host' (o, { s with log := log' })) := by
  constructor
  · cases o <;> rfl
  · obtain ⟨l, hl⟩ := finish_state host (o, { s with log })
    obtain ⟨l', hl'⟩ := finish_state host' (o, { s with log := log' })
    rw [unlogged, unlogged, hl, hl']

theorem eq_of_unlogged {S S' : Session} (h : S.unlogged = S'.unlogged) :
    S' = ⟨{ S.state with log := S'.state.log }⟩ := by
  cases S
  cases S'
  simp only [unlogged, mk.injEq, State.mk.injEq, true_and] at h
  simp only [h]

/-- One step of two sessions that differ in their logs at most, the one logged and the other
one as well, or not. -/
theorem run_sameStep {S S' : Session} (h : S.unlogged = S'.unlogged) (live live' : Bool) :
    SameStep (run (host.logging live) fuel source S) (run (host.logging live') fuel source S') := by
  cases hp : Program.ofSource source with
  | error e =>
      rw [run_error hp, run_error hp, trace_logging, trace_logging]
      exact ⟨rfl, h⟩
  | ok p =>
      have hS :=
        ((Evaluator.telling false host).holdsAt fuel).block root .null p S.state S'.state.log
      rw [run_logging hp, run_logging hp, eq_of_unlogged h, hS]
      exact finish_sameStep _ _ _ _ _ _

theorem ofEvent_parsed (source : Text) (p : Program) :
    Log.ofEvent (.parsed (Scan.ofSource source).withEnd.length p.length p.outline) =
      Log.parsed source p := by
  rw [Scan.withEnd, List.length_append]
  rfl

theorem entries_append (S : Session) (s : State) (first last : Event) (calls : List Call) :
    entries ⟨{ s with
        log := S.state.log ++ (if live then #[first] else #[]) ++ Call.told live calls ++
          if live then #[last] else #[] }⟩ =
      S.entries ++ if live then Log.ofEvent first :: calls.map Log.call ++ [Log.ofEvent last]
        else [] := by
  have hc : Log.ofEvent ∘ Call.event = Log.call := rfl
  cases live with
  | false => simp [entries, Call.told]
  | true => simp [entries, Call.told, hc]

/-- One step of a session adds its account to the log, if the log is on. -/
theorem run_account {S T : Session} {r : Except RunError Value}
    (h : run (host.logging live) fuel source S = (r, T)) (hr : r ≠ .error .exhausted) :
    ∃ account, Account host fuel source S r account ∧
      T.entries = S.entries ++ if live then account else [] := by
  cases hp : Program.ofSource source with
  | error e =>
      rw [run_error hp, trace_logging] at h
      cases h
      refine ⟨_, .unread hp, ?_⟩
      cases live <;> simp [entries, Log.ofEvent, Log.entry]
  | ok p =>
      rw [run_logging hp] at h
      match hx : execBlock (host.logging false) fuel root .null p S.state with
      | (.ok v, s) =>
          simp only [hx, finish, trace_logging] at h
          cases h
          refine ⟨_, .value hp, ?_⟩
          rw [← ofEvent_parsed]
          exact entries_append S s _ (.evaluated v.kind) _
      | (.error e, s) =>
          simp only [hx, finish, trace_logging] at h
          cases h
          refine ⟨_, .failure hp, ?_⟩
          rw [← ofEvent_parsed]
          exact entries_append S s _ (.evaluationFailed e) _
      | (.exhausted, s) =>
          simp only [hx, finish] at h
          cases h
          exact absurd rfl hr

theorem Runs.logged {level : Log.Level} {S : Session} {sources : List Text}
    {rs : List (Except RunError Value × Session)} (h : Runs (host.loggedAt level) S sources rs) :
    Logged host level S sources rs := by
  induction h with
  | nil => exact .nil
  | cons h _ ih =>
      obtain ⟨fuel, h, hr⟩ := h
      obtain ⟨account, ha, hl⟩ := run_account h hr
      rw [← Log.Level.keep_eq] at hl
      exact .cons h ha hl ih

/-- What a logger writes of one source is its account, as far as the level keeps it. -/
theorem runLogged_account {logger : Logger} {S T : Session} {r : Except RunError Value}
    {t : Transcript} (h : S.runLogged host logger source = (r, t, T))
    (hr : r ≠ .error .exhausted) :
    ∃ account, Account host depth source S r account ∧
      t.messages = (logger.level.keep account).flatMap logger.tell := by
  have hrun : run (host.loggedAt logger.level) depth source S = (r, T) :=
    congrArg (fun x => (x.1, x.2.2)) h
  obtain ⟨account, ha, hl⟩ := run_account hrun hr
  rw [← Log.Level.keep_eq] at hl
  refine ⟨account, ha, ?_⟩
  let U := (run (host.loggedAt logger.level) depth source S).2
  have ht : (U.state.log.toList.drop S.state.log.size).flatMap logger.writeEvent = t.messages :=
    congrArg (fun x => x.2.1.messages) h
  have hU : U = T := congrArg Prod.snd hrun
  have hw : logger.writeEvent = logger.tell ∘ Log.ofEvent := rfl
  calc t.messages
      = ((T.state.log.toList.drop S.state.log.size).map Log.ofEvent).flatMap logger.tell := by
        rw [← ht, hU, hw, List.flatMap_map]
        rfl
    _ = (T.entries.drop S.entries.length).flatMap logger.tell := by
        rw [List.map_drop, entries, entries, List.length_map, Array.length_toList]
    _ = (logger.level.keep account).flatMap logger.tell := by
        rw [hl, List.drop_left]

theorem Runs.sameSteps {live live' : Bool} {S S' : Session} (h : S.unlogged = S'.unlogged)
    {sources : List Text} {rs : List (Except RunError Value × Session)}
    (hs : Runs (host.logging live) S sources rs) :
    ∃ rs', Runs (host.logging live') S' sources rs' ∧ List.Forall₂ SameStep rs rs' := by
  induction hs generalizing S' with
  | nil => exact ⟨[], .nil, .nil⟩
  | @cons S T source sources r rest hf hs ih =>
      obtain ⟨fuel, hf, hr⟩ := hf
      have hT : SameStep (r, T) (run (host.logging live') fuel source S') := by
        rw [← hf]
        exact run_sameStep h live live'
      obtain ⟨rs', hs', hall⟩ := ih hT.2
      have hf' : Finishes (host.logging live') source S' r
          (run (host.logging live') fuel source S').2 := ⟨fuel, Prod.ext hT.1.symm rfl, hr⟩
      exact ⟨_, .cons hf' hs', .cons ⟨rfl, hT.2⟩ hall⟩

/-- A session at two levels. If its sources end at one of them, then so they do at the other,
each of them with the same result, the same printed lines and the same bindings. The log gets
an account of each source at the levels debug and trace, and nothing at the others. That is what a
logger at the level writes, and its steps are those of the session at that level. -/
theorem runs_logged (host : Host) (level level' : Log.Level) (sources : List Text) :
    ((∃ rs, Runs (host.loggedAt level) (start host) sources rs) ↔
      ∃ rs, Runs (host.loggedAt level') (start host) sources rs) ∧
    (∀ rs, Runs (host.loggedAt level) (start host) sources rs →
      Logged host level (start host) sources rs ∧
      ∀ rs', Runs (host.loggedAt level') (start host) sources rs' →
        List.Forall₂ SameStep rs rs') ∧
    ∀ (logger : Logger) (S T : Session) (source : Text) (r : Except RunError Value)
      (t : Transcript), logger.level = level → S.runLogged host logger source = (r, t, T) →
        run (host.loggedAt level) depth source S = (r, T) ∧
        (r ≠ .error .exhausted → ∃ account, Account host depth source S r account ∧
          t.messages = (level.keep account).flatMap logger.tell) := by
  refine ⟨⟨fun ⟨_, h⟩ => ?_, fun ⟨_, h⟩ => ?_⟩, fun rs h => ⟨h.logged, fun rs' h' => ?_⟩, ?_⟩
  · obtain ⟨rs', h', -⟩ := h.sameSteps rfl
    exact ⟨rs', h'⟩
  · obtain ⟨rs', h', -⟩ := h.sameSteps rfl
    exact ⟨rs', h'⟩
  · obtain ⟨ss, hs, hall⟩ := h.sameSteps rfl
    rw [Runs.unique h' hs]
    exact hall
  · rintro logger S T source r t rfl ht
    exact ⟨congrArg (fun x => (x.1, x.2.2)) ht, runLogged_account ht⟩

/-- A function calls another one with more arguments than parameters and then fails: two
calls in the order in which they begin, with all their arguments, and the failure. Nothing is
logged at the level above, and all else is the same. -/
theorem runs_logged_extra_arguments :
    let host : Host := {}
    let a := Text.utf8 "func g(x) \x7b x \x7d func f(x) \x7b g(x, 1, 2); y \x7d"
    let b := Text.utf8 "f(3)"
    ∃ x S y T x' S' y' T',
      Runs (host.loggedAt .debug) (start host) [a, b] [(x, S), (y, T)] ∧
      Runs (host.loggedAt .info) (start host) [a, b] [(x', S'), (y', T')] ∧
      SameStep (x, S) (x', S') ∧ SameStep (y, T) (y', T') ∧ T'.entries = [] ∧
      (T.entries.drop 3).map (fun r => r.fields.map fun field => field.2.plain) =
        [[Text.utf8 "interpreter", Text.utf8 "f", Text.utf8 "1"],
          [Text.utf8 "interpreter", Text.utf8 "g", Text.utf8 "3"],
          [Text.utf8 "interpreter", Text.utf8 "Runtime error on line 1: " ++
            Text.utf8 "Cannot resolve name as it does not exist: 'y'"]] := by
  intro host a b
  let S level := (run (host.loggedAt level) 20 a (start host)).2
  let T level := (run (host.loggedAt level) 20 b (S level)).2
  have ended : ∀ level ∈ [Log.Level.debug, .info], ∃ x y,
      Runs (host.loggedAt level) (start host) [a, b] [(x, S level), (y, T level)] := by
    have hd : ∀ level ∈ [Log.Level.debug, .info],
        (run (host.loggedAt level) 20 a (start host)).1.toOption.isSome = true ∧
          failureLine (run (host.loggedAt level) 20 b (S level)).1 = some 1 := by decide +kernel
    intro level hl
    obtain ⟨v, ha⟩ := finishes_of_toOption (hd level hl).1
    obtain ⟨e, -, hb⟩ := finishes_of_failureLine (hd level hl).2
    exact ⟨_, _, .cons ha (.cons hb .nil)⟩
  obtain ⟨x, y, h⟩ := ended .debug (by decide)
  obtain ⟨x', y', h'⟩ := ended .info (by decide)
  have hs := ((runs_logged host .debug .info [a, b]).2.1 _ h).2 _ h'
  simp only [List.forall₂_cons, List.Forall₂.nil, and_true] at hs
  have hT : (T .info).entries = [] := by
    have hlog := ((runs_logged host .info .debug [a, b]).2.1 _ h').1
    cases hlog with
    | cons _ _ hS hlog =>
        cases hlog with
        | cons _ _ hT _ => exact hT.trans (congrArg (· ++ []) hS)
  exact ⟨x, _, y, _, x', _, y', _, h, h', hs.1, hs.2, hT, by decide +kernel⟩

end Session

end Scripting
