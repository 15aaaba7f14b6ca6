import Scripting.Host.Probe
import Scripting.Proofs.Eval.Lines
import Scripting.Proofs.Parse.Joining
import Scripting.Session

/-!
A source in two runs. Two sources run one after the other do what both do in one run, the
second one below the first: they leave the same bindings, print the same lines and give the
same result. Only the lines of errors differ, by as much as the second source is moved.
-/

namespace Scripting

/-- How a value is seen: its kind and its text. -/
def Store.shown (s : Store) (v : Value) : Value.Kind × Text := (v.kind, s.display v)

/-- The names bound in a scope in order, with their constancy and how their values are seen. -/
def Store.bindings (s : Store) (scope : Nat) : List (Text × Bool × Value.Kind × Text) :=
  (s.listing scope).map fun entry => (entry.1, entry.2.constant, s.shown entry.2.value)

theorem Store.shown_mapLines (f : Nat → Nat) (s : Store) (v : Value) :
    (s.mapLines f).shown (v.mapLines f) = s.shown v := by
  rw [shown, shown, Value.kind_mapLines, display_mapLines]

theorem Store.listing_mapLines (f : Nat → Nat) (s : Store) (scope : Nat) :
    (s.mapLines f).listing scope =
      (s.listing scope).map fun entry => (entry.1, entry.2.mapLines f) := by
  rw [listing, listing, getElem?_scopes_mapLines]
  cases s.scopes[scope]? with
  | none => rfl
  | some c =>
      symm
      apply List.map_mergeSort
      intro _ _ _ _
      rfl

theorem Store.bindings_mapLines (f : Nat → Nat) (s : Store) (scope : Nat) :
    (s.mapLines f).bindings scope = s.bindings scope := by
  rw [bindings, bindings, listing_mapLines, List.map_map]
  apply List.map_congr_left
  intro entry _
  exact congrArg (fun v => (entry.1, entry.2.constant, v)) (s.shown_mapLines f entry.2.value)

namespace Host.Probe

theorem finish_blind (r : Except BindingError Value) :
    HostAction.Blind fun f => finish (r.map (Value.mapLines f)) := by
  cases r with
  | error e => exact .fail (.binding e)
  | ok value => exact .done (some value)

theorem raise_blind (arguments : List Value) :
    HostAction.Blind fun f => raise (arguments.map (Value.mapLines f)) := by
  cases arguments with
  | nil =>
      simp only [List.map_nil, raise]
      exact .raise _
  | cons value rest =>
      cases rest with
      | nil =>
          cases value <;> simp only [List.map_cons, List.map_nil, Value.mapLines, raise] <;>
            exact .raise _
      | cons detail more =>
          cases value <;> simp only [List.map_cons, Value.mapLines, raise] <;>
            exact .display detail fun t => .raise _

theorem define_blind (arguments : List Value) :
    HostAction.Blind fun f => define (arguments.map (Value.mapLines f)) := by
  cases arguments with
  | nil => exact .done none
  | cons name rest =>
      cases rest with
      | nil => exact .done none
      | cons value more =>
          simp only [define, List.map_cons, List.isEmpty_map]
          exact .display name fun t => .declare t value _ finish_blind

/-- The probe functions, which act in every way there is, do not look at lines. -/
theorem blind : Host.Blind { functions } := by
  intro name action h arguments
  simp only [Table.get?, functions, Table.find?] at h
  split at h
  · cases h
    exact .done none
  split at h
  · cases h
    cases arguments with
    | nil => exact .fail _
    | cons value more => exact .display value fun t => .fail (.host t)
  split at h
  · cases h
    exact raise_blind arguments
  split at h
  · cases h
    cases arguments with
    | nil => exact .done none
    | cons name more => exact .display name fun t => .lookup t finish_blind
  split at h
  · cases h
    exact define_blind arguments
  split at h
  · cases h
    simp only [count, List.length_map]
    exact .done (some (.number (Number.ofNat arguments.length)))
  · cases h

end Host.Probe

namespace Session

/-- Two sessions with the same bindings at the top, the same printed lines and the same
number of readings of the clock. -/
structure Alike (S T : Session) : Prop where
  bindings : S.state.store.bindings root = T.state.store.bindings root
  printed : S.state.printed = T.state.printed
  readings : S.state.readings = T.state.readings

/-- A source that is run ends with a result and leaves a session. -/
def Finishes (host : Host) (source : Text) (S : Session) (r : Except RunError Value)
    (T : Session) : Prop := ∃ fuel, run host fuel source S = (r, T) ∧ r ≠ .error .exhausted

/-- The same for a program. -/
def Evaluates (host : Host) (p : Program) (S : Session) (r : Except RunError Value)
    (T : Session) : Prop := ∃ fuel, evaluate host fuel p S = (r, T) ∧ r ≠ .error .exhausted

/-- Sources that are run one after the other, each to its end, with the result of each one and
the session after it. -/
inductive Runs (host : Host) : Session → List Text → List (Except RunError Value × Session) → Prop
  | nil {S : Session} : Runs host S [] []
  | cons {S T : Session} {source : Text} {sources : List Text} {r : Except RunError Value}
      {rest : List (Except RunError Value × Session)} (h : Finishes host source S r T)
      (hs : Runs host T sources rest) : Runs host S (source :: sources) ((r, T) :: rest)

/-- The program fails with an error that is told at the line of one of its tokens: whatever
lines its tokens stand on, the line of the error goes with them. -/
def FailsInside (host : Host) (p : Program) (S : Session) (e : RuntimeError) : Prop :=
  ∃ line : Nat, e.line = line ∧
    ∀ f, ∃ T, Evaluates host (p.mapLines f) S (.error (.runtime { e with line := f line })) T

/-- The program fails with an error that is told elsewhere: whatever lines its tokens stand
on, the error is the same. -/
def FailsOutside (host : Host) (p : Program) (S : Session) (e : RuntimeError) : Prop :=
  ∀ f, ∃ T, Evaluates host (p.mapLines f) S (.error (.runtime e)) T

/-- What a run gives in place of the result of its second part alone. `v` is the result of
the first part, after which the session is `S`; the second part alone leaves `T`, and
both together leave `U`. -/
inductive Follows (host : Host) (q : Program) (moved : Nat) (v : Value) (S T U : Session) :
    Except RunError Value → Except RunError Value → Prop
  | nothing {w : Value} (hq : q = []) (hv : U.state.store.shown v = S.state.store.shown v) :
      Follows host q moved v S T U (.ok w) (.ok v)
  | value {w w' : Value} (hq : q ≠ []) (hw : U.state.store.shown w' = T.state.store.shown w) :
      Follows host q moved v S T U (.ok w) (.ok w')
  | inside {e : RuntimeError} (he : FailsInside host q S e) :
      Follows host q moved v S T U (.error (.runtime e))
        (.error (.runtime { e with line := e.line + moved }))
  | outside {e : RuntimeError} (he : FailsOutside host q S e) :
      Follows host q moved v S T U (.error (.runtime e)) (.error (.runtime e))

open Evaluator (execBlock)

/-- The result of a run, and the session after it, by how its evaluation ends. -/
def finish (host : Host) : Outcome Value × State → Except RunError Value × Session
  | (.ok value, s) => (.ok value, ⟨s.trace host (.evaluated value.kind)⟩)
  | (.error e, s) => (.error (.runtime e), ⟨s.trace host (.evaluationFailed e)⟩)
  | (.exhausted, s) => (.error .exhausted, ⟨s⟩)

theorem trace_eq (host : Host) (event : Event) (s : State) :
    s.trace host event = { s with log := (s.trace host event).log } := by
  by_cases h : host.tracing = true <;> simp [State.trace, h]

theorem finish_state (host : Host) (x : Outcome Value × State) :
    ∃ log, (finish host x).2.state = { x.2 with log } := by
  match x with
  | (.ok value, s) => exact ⟨_, trace_eq host _ s⟩
  | (.error e, s) => exact ⟨_, trace_eq host _ s⟩
  | (.exhausted, s) => exact ⟨s.log, rfl⟩

theorem finish_store (host : Host) (x : Outcome Value × State) :
    (finish host x).2.state.store = x.2.store := by
  obtain ⟨log, h⟩ := finish_state host x
  rw [h]

theorem evaluate_eq (host : Host) (fuel : Nat) (p : Program) (S : Session) :
    evaluate host fuel p S = finish host (execBlock host fuel root .null p S.state) := by
  rw [evaluate, Program.evaluate]
  match execBlock host fuel root .null p S.state with
  | (.ok value, s) => rfl
  | (.error e, s) => rfl
  | (.exhausted, s) => rfl

theorem run_ok {source : Text} {p : Program} (h : Program.ofSource source = .ok p) (host : Host)
    (fuel : Nat) (S : Session) : run host fuel source S = evaluate host fuel p
      ⟨S.state.trace host (.parsed (Scan.ofSource source).withEnd.length p.length p.outline)⟩ := by
  have hs : Program.ofScan (Scan.ofSource source) = .ok p := h
  simp only [run, hs]

theorem run_error {source : Text} {e : ParseError} (h : Program.ofSource source = .error e)
    (host : Host) (fuel : Nat) (S : Session) :
    run host fuel source S = (.error (.parse e), ⟨S.state.trace host (.parseFailed e)⟩) := by
  have hs : Program.ofScan (Scan.ofSource source) = .error e := h
  simp only [run, hs]

theorem finish_exhausted (host : Host) (x : Outcome Value × State) :
    (finish host x).1 = .error .exhausted ↔ x.1 = .exhausted := by
  match x with
  | (.ok value, s) => exact ⟨nofun, nofun⟩
  | (.error e, s) => exact ⟨nofun, nofun⟩
  | (.exhausted, s) => exact ⟨fun _ => rfl, fun _ => rfl⟩

theorem evaluates_iff (host : Host) (p : Program) (S T : Session) (r : Except RunError Value) :
    Evaluates host p S r T ↔ ∃ x, Eval.Ends (fun n => execBlock host n root .null p) S.state x ∧
      r = (finish host x).1 ∧ T = (finish host x).2 := by
  constructor
  · rintro ⟨n, hn, hr⟩
    rw [evaluate_eq] at hn
    refine ⟨_, ⟨n, rfl, fun hx => hr ?_⟩, ?_⟩
    · rw [← (finish_exhausted host _).mpr hx, hn]
    · rw [hn]
      exact ⟨rfl, rfl⟩
  · rintro ⟨x, ⟨n, rfl, hx⟩, rfl, rfl⟩
    exact ⟨n, evaluate_eq host n p S, fun he => hx ((finish_exhausted host _).mp he)⟩

theorem finishes_iff {source : Text} {p : Program} (h : Program.ofSource source = .ok p)
    (host : Host) (S : Session) :
    ∃ log, ∀ r T, Finishes host source S r T ↔
      ∃ x, Eval.Ends (fun n => execBlock host n root .null p) { S.state with log } x ∧
        r = (finish host x).1 ∧ T = (finish host x).2 := by
  let event := Event.parsed (Scan.ofSource source).withEnd.length p.length p.outline
  refine ⟨(S.state.trace host event).log, fun r T => ?_⟩
  have hs : Program.ofScan (Scan.ofSource source) = .ok p := h
  rw [← trace_eq host event S.state, ← evaluates_iff host p ⟨S.state.trace host event⟩ T r,
    Finishes, Evaluates]
  simp only [run, hs, event]

variable {host : Host}

theorem Evaluates.unique {p : Program} {S T T' : Session} {r r' : Except RunError Value}
    (ht : Evaluates host p S r T) (ht' : Evaluates host p S r' T') : r = r' ∧ T = T' := by
  obtain ⟨x, hx, rfl, rfl⟩ := (evaluates_iff host p S T r).mp ht
  obtain ⟨x', hx', rfl, rfl⟩ := (evaluates_iff host p S T' r').mp ht'
  rw [hx.unique (Evaluator.block_steady host root .null p) hx']
  exact ⟨rfl, rfl⟩

/-- No error is told both at a token of the program and elsewhere. -/
theorem FailsInside.not_outside {p : Program} {S : Session} {e : RuntimeError}
    (h : FailsInside host p S e) : ¬ FailsOutside host p S e := by
  intro ho
  obtain ⟨n, hn, h⟩ := h
  obtain ⟨T, ht⟩ := h (· + 1)
  obtain ⟨T', ht'⟩ := ho (· + 1)
  have he := (ht.unique ht').1
  simp only [Except.error.injEq, RunError.runtime.injEq] at he
  have hl : ((n + 1 : Nat) : Int) = e.line := congrArg RuntimeError.line he
  omega

theorem Finishes.unique {source : Text} {p : Program} (h : Program.ofSource source = .ok p)
    {S T T' : Session} {r r' : Except RunError Value} (ht : Finishes host source S r T)
    (ht' : Finishes host source S r' T') : r = r' ∧ T = T' := by
  obtain ⟨log, hl⟩ := finishes_iff h host S
  have he {r T} (h : Finishes host source S r T) : Evaluates host p ⟨{ S.state with log }⟩ r T :=
    (evaluates_iff ..).mpr ((hl r T).mp h)
  exact (he ht).unique (he ht')

theorem finishes_of_toOption {fuel : Nat} {source : Text} {S : Session}
    (h : (run host fuel source S).1.toOption.isSome = true) :
    ∃ v, Finishes host source S (.ok v) (run host fuel source S).2 := by
  obtain ⟨v, hv⟩ := Option.isSome_iff_exists.mp h
  exact ⟨v, fuel, Prod.ext (Reading.eq_ok_of_toOption hv) rfl, nofun⟩

/-- The line that a failed run tells. -/
def failureLine : Except RunError Value → Option Int
  | .error (.runtime e) => some e.line
  | _ => none

theorem finishes_of_failureLine {fuel : Nat} {source : Text} {S : Session} {line : Int}
    (h : failureLine (run host fuel source S).1 = some line) :
    ∃ e, e.line = line ∧
      Finishes host source S (.error (.runtime e)) (run host fuel source S).2 := by
  cases hr : (run host fuel source S).1 with
  | ok v => simp [hr, failureLine] at h
  | error e =>
      cases e with
      | runtime e =>
          rw [hr] at h
          exact ⟨e, Option.some.inj h, fuel, Prod.ext hr rfl, nofun⟩
      | _ => simp [hr, failureLine] at h

theorem evaluates_of_ends {p : Program} {S : Session} {x : Outcome Value × State}
    (h : Eval.Ends (fun n => execBlock host n root .null p) S.state x) :
    Evaluates host p S (finish host x).1 (finish host x).2 :=
  (evaluates_iff host p S _ _).mpr ⟨x, h, rfl, rfl⟩

theorem alike_finish (host : Host) (o o' : Outcome Value) (s : State) (log : Array Event) :
    Alike (finish host (o, { s with log })).2 (finish host (o', s)).2 := by
  obtain ⟨l, h⟩ := finish_state host (o, { s with log })
  obtain ⟨l', h'⟩ := finish_state host (o', s)
  constructor <;> rw [h, h']

theorem alike_under (host : Host) (r : Ending Value) (c c' : Change) :
    Alike (finish host (r.under Value.mapLines c)).2
      (finish host (r.under Value.mapLines c')).2 := by
  obtain ⟨t, ht⟩ : ∃ t : State, ∀ c, (r.under Value.mapLines c).2 = t.under c := by
    cases r <;> exact ⟨_, fun _ => rfl⟩
  obtain ⟨log, hs⟩ := finish_state host (r.under Value.mapLines c)
  obtain ⟨log', hs'⟩ := finish_state host (r.under Value.mapLines c')
  constructor
  · rw [hs, hs', ht c, ht c']
    exact (t.store.bindings_mapLines c.lines root).trans
      (t.store.bindings_mapLines c'.lines root).symm
  · rw [hs, hs', ht c, ht c']
    rfl
  · rw [hs, hs', ht c, ht c']
    rfl

section
variable (hb : host.Blind) {q : Program} {S : Session}
include hb

/-- The second part of a run, moved down and after another log, does as it does alone. -/
theorem follows_of_ends (hq : q ≠ []) {log : Array Event} {x : Outcome Value × State}
    (h : Eval.Ends (fun n => execBlock host n root .null q) { S.state with log } x)
    (moved : Nat) (v : Value) (log' : Array Event) :
    ∃ y, Eval.Ends (fun n => execBlock host n root v (q.mapLines (· + moved)))
        { S.state with log := log' } y ∧
      (finish host y).2.Alike (finish host x).2 ∧
      Follows host q moved v S (finish host x).2 (finish host y).2 (finish host x).1
        (finish host y).1 := by
  rw [← Stmt.mapLinesEach_id q] at h
  obtain ⟨r, rfl, hr⟩ := Evaluator.ends_marked hb h
  have hm : Stmt.mapLinesEach (· + moved) q ≠ [] := by
    cases q with
    | nil => exact absurd rfl hq
    | cons s rest => exact List.cons_ne_nil _ _
  have hy := hr (· + moved) log'
  rw [Evaluator.block_last host root hm .null v] at hy
  refine ⟨_, hy, alike_under host r _ _, ?_⟩
  have he (f : Nat → Nat) := evaluates_of_ends (S := S) (hr f S.state.log)
  cases r with
  | ok w t =>
      refine .value hq ?_
      rw [finish_store, finish_store]
      exact (t.store.shown_mapLines _ w).trans (t.store.shown_mapLines _ w).symm
  | token line cause detail t =>
      -- an even mark is a line that the store already held, an odd one a line of `q`
      obtain ⟨n, rfl | rfl⟩ : ∃ n, line = 2 * n ∨ line = 2 * n + 1 := ⟨line / 2, by omega⟩
      · simp only [Ending.under, Evaluator.marked_even, finish] at he ⊢
        exact .outside fun f => ⟨_, he f⟩
      · simp only [Ending.under, Evaluator.marked_odd, finish] at he ⊢
        exact .inside ⟨n, rfl, fun f => ⟨_, he f⟩⟩
  | raised e t => exact .outside fun f => ⟨_, he f⟩
  | exhausted t =>
      obtain ⟨-, -, hx⟩ := hy
      exact absurd rfl hx

end

section
variable (hb : host.Blind) {a b ab : Text} {p q : Program} {S : Session} {moved : Nat}
  (ha : Program.ofSource a = .ok p) (hab : Program.ofSource ab = .ok (p ++ q.mapLines (· + moved)))
include hb ha hab

theorem finishes_of_failure {e : RunError} {T : Session} (h : Finishes host a S (.error e) T) :
    ∃ U, Finishes host ab S (.error e) U ∧ U.Alike T := by
  obtain ⟨log, hl⟩ := finishes_iff ha host S
  obtain ⟨log', hl'⟩ := finishes_iff hab host S
  obtain ⟨x, hx, hr, rfl⟩ := (hl _ _).mp h
  obtain ⟨v, s, rfl⟩ | ⟨e', s, rfl⟩ := hx.cases
  · cases hr
  · obtain ⟨later, hx'⟩ := Evaluator.ends_log hb hx log'
    refine ⟨_, (hl' _ _).mpr ⟨(.error e', { s with log := later }), ?_, hr, rfl⟩,
      alike_finish host _ _ s later⟩
    exact (Evaluator.block_append ..).mpr (.inr ⟨e', _, hx', rfl⟩)

theorem finishes_of_both (hq : Program.ofSource b = .ok q) {v : Value} {T T' : Session}
    {r : Except RunError Value} (h : Finishes host a S (.ok v) T) (h' : Finishes host b T r T') :
    ∃ r' U, Finishes host ab S r' U ∧ U.Alike T' ∧ Follows host q moved v T T' U r r' := by
  obtain ⟨log, hl⟩ := finishes_iff ha host S
  obtain ⟨log', hl'⟩ := finishes_iff hab host S
  obtain ⟨log'', hl''⟩ := finishes_iff hq host T
  obtain ⟨x, hx, hr, rfl⟩ := (hl _ _).mp h
  obtain ⟨y, hy, rfl, rfl⟩ := (hl'' _ _).mp h'
  obtain ⟨w, s, rfl⟩ | ⟨e, s, rfl⟩ := hx.cases
  · cases hr
    obtain ⟨later, hx'⟩ := Evaluator.ends_log hb hx log'
    obtain ⟨l, hs⟩ := finish_state host (.ok v, s)
    by_cases hn : q = []
    · subst hn
      have hz := (Evaluator.block_append host root .null p [] _ _).mpr
        (.inl ⟨v, _, hx', (Evaluator.block_nil ..).mpr rfl⟩)
      refine ⟨_, _, (hl' _ _).mpr ⟨_, hz, rfl, rfl⟩, ?_⟩
      rw [(Evaluator.block_nil ..).mp hy, hs]
      refine ⟨alike_finish host _ _ { s with log := log'' } later, .nothing rfl ?_⟩
      rw [finish_store, finish_store]
    · obtain ⟨z, hz, hz'⟩ := follows_of_ends hb hn hy moved v later
      rw [hs] at hz
      exact ⟨_, _, (hl' _ _).mpr ⟨z, (Evaluator.block_append ..).mpr (.inl ⟨v, _, hx', hz⟩), rfl,
        rfl⟩, hz'⟩
  · cases hr

theorem both_of_finishes (hq : Program.ofSource b = .ok q) {r : Except RunError Value}
    {U : Session} (h : Finishes host ab S r U) :
    (∃ e T, Finishes host a S (.error e) T) ∨
      ∃ v T r T', Finishes host a S (.ok v) T ∧ Finishes host b T r T' := by
  obtain ⟨log, hl⟩ := finishes_iff ha host S
  obtain ⟨log', hl'⟩ := finishes_iff hab host S
  obtain ⟨x, hx, -, -⟩ := (hl' _ _).mp h
  obtain ⟨v, s, hp, hs⟩ | ⟨e, s, hp, -⟩ := (Evaluator.block_append ..).mp hx
  · obtain ⟨later, hp'⟩ := Evaluator.ends_log hb hp log
    obtain ⟨l, hf⟩ := finish_state host (.ok v, { s with log := later })
    obtain ⟨log'', hl''⟩ := finishes_iff hq host (finish host (.ok v, { s with log := later })).2
    have hy : ∃ y,
        Eval.Ends (fun n => execBlock host n root .null q) { s with log := log'' } y := by
      by_cases hn : q = []
      · exact ⟨_, hn ▸ (Evaluator.block_nil ..).mpr rfl⟩
      · obtain ⟨r, -, hr⟩ := Evaluator.ends_marked hb hs
        have hy := hr (fun l => l) log''
        rw [Stmt.mapLinesEach_id, Evaluator.block_last host root hn v .null] at hy
        exact ⟨_, hy⟩
    obtain ⟨y, hy⟩ := hy
    refine .inr ⟨v, _, _, _, (hl _ _).mpr ⟨_, hp', rfl, rfl⟩, (hl'' _ _).mpr ⟨y, ?_, rfl, rfl⟩⟩
    rw [hf]
    exact hy
  · obtain ⟨later, hp'⟩ := Evaluator.ends_log hb hp log
    exact .inl ⟨_, _, (hl _ _).mpr ⟨_, hp', rfl, rfl⟩⟩

end

open Piece (newline)
open Reading (eq_ok_of_toOption)

/-- Two sources that can be read, of which the second does not go on with the last statement
of the first, can be read as one. This one run ends if and only if the first source fails,
or both end one after the other. If the first fails, the error is the same and nothing more
happens. Otherwise all is as after the second, and so is the result. -/
theorem run_split (host : Host) (hh : host.Blind) (S : Session) {a b : Text} {p q : Program}
    (ha : Program.ofSource a = .ok p) (hb : Program.ofSource b = .ok q)
    (hs : Program.Apart a b) :
    (∃ pq, Program.ofSource (a ++ newline :: b) = .ok pq) ∧
    ((∃ r U, Finishes host (a ++ newline :: b) S r U) ↔
      (∃ e T, Finishes host a S (.error e) T) ∨
        ∃ v T r T', Finishes host a S (.ok v) T ∧ Finishes host b T r T') ∧
    (∀ e T r U, Finishes host a S (.error e) T → Finishes host (a ++ newline :: b) S r U →
      r = .error e ∧ U.Alike T) ∧
    (∀ v T r T' r' U, Finishes host a S (.ok v) T → Finishes host b T r T' →
      Finishes host (a ++ newline :: b) S r' U →
      U.Alike T' ∧ Follows host q (a.count newline + 1) v T T' U r r') := by
  have hab := Program.ofSource_newline ha hb hs
  refine ⟨⟨_, hab⟩, ⟨?_, ?_⟩, ?_, ?_⟩
  · rintro ⟨r, U, h⟩
    exact both_of_finishes hh ha hab hb h
  · rintro (⟨e, T, h⟩ | ⟨v, T, r, T', h, h'⟩)
    · obtain ⟨U, hU, -⟩ := finishes_of_failure hh ha hab h
      exact ⟨_, U, hU⟩
    · obtain ⟨r', U, hU, -⟩ := finishes_of_both hh ha hab hb h h'
      exact ⟨r', U, hU⟩
  · intro e T r U h hU
    obtain ⟨U', hU', hA⟩ := finishes_of_failure hh ha hab h
    obtain ⟨rfl, rfl⟩ := hU.unique hab hU'
    exact ⟨rfl, hA⟩
  · intro v T r T' r' U h h' hU
    obtain ⟨r'', U', hU', hF⟩ := finishes_of_both hh ha hab hb h h'
    obtain ⟨rfl, rfl⟩ := hU.unique hab hU'
    exact hF

/-- A parenthesis after a closing brace begins a statement of its own. -/
theorem run_split_after_brace :
    let host : Host := { functions := Host.Probe.functions }
    let a := Text.utf8 "func f(x) \x7b\n  x + 1\n\x7d"
    let b := Text.utf8 "(f)(f(1))"
    Program.Apart a b ∧ ∃ w U, Finishes host (a ++ newline :: b) (start host) (.ok w) U ∧
      U.state.store.shown w = (.number, Text.utf8 "3") := by
  intro host a b
  have hs : Program.Apart a b := .inr (.inr (.inl (by decide +kernel)))
  refine ⟨hs, ?_⟩
  have hp : (Program.ofSource a).toOption.isSome = true := by decide +kernel
  have hq : (Program.ofSource b).toOption.map List.isEmpty = some false := by decide +kernel
  have hv : (run host 30 a (start host)).1.toOption.isSome = true := by decide +kernel
  have hw : (run host 30 b (run host 30 a (start host)).2).1.toOption.map
      (run host 30 b (run host 30 a (start host)).2).2.state.store.shown =
        some (.number, Text.utf8 "3") := by decide +kernel
  obtain ⟨p, ha⟩ := Option.isSome_iff_exists.mp hp
  obtain ⟨q, hb, hn⟩ := Option.map_eq_some_iff.mp hq
  obtain ⟨v, hra⟩ := Option.isSome_iff_exists.mp hv
  obtain ⟨w, hrb, hshown⟩ := Option.map_eq_some_iff.mp hw
  have hta : Finishes host a (start host) (.ok v) _ :=
    ⟨30, Prod.ext (eq_ok_of_toOption hra) rfl, nofun⟩
  have htb : Finishes host b _ (.ok w) _ := ⟨30, Prod.ext (eq_ok_of_toOption hrb) rfl, nofun⟩
  obtain ⟨-, hi, -, hf⟩ := run_split host Host.Probe.blind (start host) (eq_ok_of_toOption ha)
    (eq_ok_of_toOption hb) hs
  obtain ⟨r, U, hU⟩ := hi.mpr (.inr ⟨v, _, _, _, hta, htb⟩)
  cases (hf _ _ _ _ r U hta htb hU).2 with
  | nothing hq =>
      rw [hq] at hn
      cases hn
  | value hq he => exact ⟨_, U, hU, he.trans hshown⟩

end Session

end Scripting
