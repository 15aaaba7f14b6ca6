import Scripting.Proofs.Front.Endings
import Scripting.Proofs.Machine.Simulation
import Scripting.Proofs.Session.Soundness

/-!
Sources run on the machine, one after the other. Each is scanned and parsed by the front end, and
the machine visits the tree that comes out. Its runs are the images of those of a session. So they
never go astray: each source that can be read ends with a value or with an error that a program can
make, and the parts of each scope and of each object stay together.
-/

namespace Scripting

/-- How the run of a source ends. -/
inductive Verdict where
  | unread (e : ParseError)
  | value (v : Datum)
  | failed (e : RuntimeError)
  | astray
  | exhausted

def Verdict.of : Except RunError Value → Verdict
  | .ok v => .value v.datum
  | .error (.parse e) => .unread e
  | .error (.runtime e) => .failed e
  | .error .exhausted => .exhausted

theorem Verdict.of_eq_exhausted {r : Except RunError Value} :
    of r = .exhausted ↔ r = .error .exhausted := by
  cases r with
  | ok v => simp [of]
  | error e => cases e <;> simp [of]

theorem State.machine_trace (host : Host) (event : Event) (s : State) :
    (s.trace host event).machine = s.machine := by
  rw [Session.trace_eq]
  rfl

namespace Production

/-- The first error of the lexer, or else the first one of the parser. -/
def error? (p : Production) : Option ParseError :=
  p.lexer.errors.head?.or (p.parser.bind (·.errors.head?))

theorem run_of_error {source : Text} {e : ParseError} (h : Program.ofSource source = .error e) :
    ∃ p, run source (source.length + 1) = .done () p ∧ p.error? = some e := by
  obtain ⟨p, ending, hr, -, hp⟩ := run_scanned source (Nat.lt_succ_self _)
  refine ⟨p, hr, ?_⟩
  cases ending with
  | lexicalErrors =>
      obtain ⟨-, -, -, e', he, ho⟩ := hp
      cases h.symm.trans ho
      rw [error?, he, Option.some_or]
  | parseError =>
      obtain ⟨hl, -, parser, e', hp, he, -, ho⟩ := hp
      cases h.symm.trans ho
      rw [error?, hl, hp, Option.bind_some, he]
      rfl
  | program =>
      obtain ⟨-, parser, program, -, -, -, -, -, ho⟩ := hp
      cases h.symm.trans ho

theorem run_of_ok {source : Text} {program : Program} (h : Program.ofSource source = .ok program) :
    ∃ p, run source (source.length + 1) = .done () p ∧ p.error? = none ∧
      p.program = some (Stmt.nodes program) := by
  obtain ⟨p, ending, hr, -, hp⟩ := run_scanned source (Nat.lt_succ_self _)
  refine ⟨p, hr, ?_⟩
  cases ending with
  | lexicalErrors =>
      obtain ⟨-, -, -, e, -, ho⟩ := hp
      cases h.symm.trans ho
  | parseError =>
      obtain ⟨-, -, parser, e, -, -, -, ho⟩ := hp
      cases h.symm.trans ho
  | program =>
      obtain ⟨hl, parser, program', ht, hp, he, -, -, ho⟩ := hp
      cases h.symm.trans ho
      rw [error?, hl, hp, Option.bind_some, he]
      exact ⟨rfl, ht⟩

end Production

namespace Machine

open Session (root)

/-- A machine with one scope that binds the built-in names. -/
def start : Machine :=
  Builtin.all.foldl (fun m entry => m.define root entry.1 (some entry.2.datum) true)
    (({} : Machine).newFrame none).2

/-- Visits a program at the top. What has been raised is handed out. -/
def execute (host : Host) (fuel : Nat) (program : List StmtNode) (m : Machine) :
    Verdict × Machine :=
  match visitBlock host fuel root .null program m with
  | .done v m => (.value v, m)
  | .aborted m => (m.raised.elim .astray .failed, { m with raised := none })
  | .astray m => (.astray, m)
  | .exhausted m => (.exhausted, m)

/-- Runs one source. -/
def run (host : Host) (fuel : Nat) (source : Text) (m : Machine) : Verdict × Machine :=
  match Production.run source (source.length + 1) with
  | .done () p =>
    match p.error?, p.program with
    | some e, _ => (.unread e, m)
    | none, some program => m.execute host fuel program
    | none, none => (.astray, m)
  | .aborted _ => (.astray, m)
  | .astray _ => (.astray, m)
  | .exhausted _ => (.exhausted, m)

/-- A source that is run ends with a verdict and leaves a machine. -/
def Finishes (host : Host) (source : Text) (m : Machine) (r : Verdict) (n : Machine) : Prop :=
  ∃ fuel, run host fuel source m = (r, n) ∧ r ≠ .exhausted

/-- Sources that are run one after the other, each to its end. -/
inductive Runs (host : Host) : Machine → List Text → List (Verdict × Machine) → Prop
  | nil {m : Machine} : Runs host m [] []
  | cons {m n : Machine} {source : Text} {sources : List Text} {r : Verdict}
      {rest : List (Verdict × Machine)} (h : Finishes host source m r n)
      (hs : Runs host n sources rest) : Runs host m (source :: sources) ((r, n) :: rest)

/-- The result of a source and the session after it, as the machine has them. -/
def image (x : Except RunError Value × Session) : Verdict × Machine :=
  (.of x.1, x.2.state.machine)

theorem foldl_define {entries : List (Text × Value)} (hn : (entries.map Prod.fst).Nodup)
    {s : State} (hs : ∀ entry ∈ entries, s.store.binding? root entry.1 = none) :
    entries.foldl (fun m entry => m.define root entry.1 (some entry.2.datum) true) s.machine =
      State.machine { s with
        store := entries.foldl (fun s (entry : Text × Value) => s.bind root entry.1 ⟨entry.2, true⟩)
          s.store } := by
  induction entries generalizing s with
  | nil => rfl
  | cons entry rest ih =>
      obtain ⟨hnew, hn⟩ := List.nodup_cons.mp hn
      rw [List.forall_mem_cons] at hs
      rw [List.foldl_cons, List.foldl_cons, s.define_machine hs.1]
      refine ih hn fun other ho => ?_
      have hne : ¬ (root = root ∧ entry.1 = other.1) :=
        fun he => hnew (he.2 ▸ List.mem_map_of_mem ho)
      rw [Store.binding?_bind, if_neg hne]
      exact hs.2 other ho

section
variable {host : Host} (hf : host.functions = .empty)
include hf

theorem machine_start : (Session.start host).state.machine = start := by
  have hempty : ({ store := .empty } : State).machine = {} := by
    simp [State.machine, Store.empty]
  have hnew : ∀ entry ∈ Builtin.all,
      (Store.empty.newScope none).2.binding? root entry.1 = none := by
    intro entry _
    rw [Store.binding?_newScope]
    rfl
  have hd := foldl_define (by decide +kernel : (Builtin.all.map Prod.fst).Nodup)
    (s := { store := (Store.empty.newScope none).2 }) hnew
  rw [start, ← hempty, State.newFrame_machine, hd, Session.start, hf]
  rfl

theorem execute_image (fuel : Nat) (program : Program) {S : Session}
    (hs : S.state.store.Distinct) :
    execute host fuel (Stmt.nodes program) S.state.machine =
        image (Session.evaluate host fuel program S) ∧
      (Session.evaluate host fuel program S).2.state.store.Distinct := by
  have ht := (FollowsAt.all hf fuel).block root .null program S.state hs
  have hn : Value.datum .null = .null := rfl
  rw [execute, Session.evaluate_eq, Session.finish_store]
  rw [hn] at ht
  generalize visitBlock host fuel root .null (Stmt.nodes program) S.state.machine = x at ht
  generalize Evaluator.execBlock host fuel root .null program S.state = y at ht
  cases ht with
  | @ok v s h _ => exact ⟨congrArg (Prod.mk _) (State.machine_trace host _ s).symm, h⟩
  | @error e s h => exact ⟨congrArg (Prod.mk _) (State.machine_trace host _ s).symm, h⟩
  | exhausted h => exact ⟨rfl, h⟩

/-- Running a source does on the machine what it does in a session. -/
theorem run_image (fuel : Nat) (source : Text) {S : Session} (hs : S.state.store.Distinct) :
    run host fuel source S.state.machine = image (Session.run host fuel source S) ∧
      (Session.run host fuel source S).2.state.store.Distinct := by
  cases hp : Program.ofSource source with
  | error e =>
      obtain ⟨p, hr, he⟩ := Production.run_of_error hp
      rw [Session.run_error hp, Session.store_trace, image, State.machine_trace]
      simp only [run, hr, he]
      exact ⟨rfl, hs⟩
  | ok program =>
      obtain ⟨p, hr, he, ht⟩ := Production.run_of_ok hp
      rw [Session.run_ok hp]
      simp only [run, hr, he, ht]
      rw [← State.machine_trace host (.parsed _ _ _) S.state]
      exact execute_image hf fuel program ((Session.store_trace ..).symm ▸ hs)

theorem finishes_iff {source : Text} {S : Session} (hs : S.state.store.Distinct) {r : Verdict}
    {n : Machine} : Finishes host source S.state.machine r n ↔
      ∃ x T, Session.Finishes host source S x T ∧ r = .of x ∧ n = T.state.machine := by
  constructor
  · rintro ⟨fuel, h, hr⟩
    rw [(run_image hf fuel source hs).1] at h
    obtain ⟨rfl, rfl⟩ := Prod.mk.inj h
    exact ⟨_, _, ⟨fuel, rfl, mt Verdict.of_eq_exhausted.mpr hr⟩, rfl, rfl⟩
  · rintro ⟨x, T, ⟨fuel, h, hx⟩, rfl, rfl⟩
    refine ⟨fuel, ?_, mt Verdict.of_eq_exhausted.mp hx⟩
    rw [(run_image hf fuel source hs).1, h]
    rfl

theorem distinct_of_finishes {source : Text} {S T : Session} {x : Except RunError Value}
    (hs : S.state.store.Distinct) (h : Session.Finishes host source S x T) :
    T.state.store.Distinct := by
  obtain ⟨fuel, h, -⟩ := h
  have ht := (run_image hf fuel source hs).2
  rwa [h] at ht

/-- The runs of the machine are those of a session. -/
theorem runs_iff {sources : List Text} {S : Session} (hs : S.state.store.Distinct)
    {results : List (Verdict × Machine)} : Runs host S.state.machine sources results ↔
      ∃ xs, Session.Runs host S sources xs ∧ xs.map image = results := by
  constructor
  · intro h
    generalize hm : S.state.machine = m at h
    induction h generalizing S with
    | nil => exact ⟨[], .nil, rfl⟩
    | cons h _ ih =>
        subst hm
        obtain ⟨x, T, hx, rfl, rfl⟩ := (finishes_iff hf hs).mp h
        obtain ⟨xs, hxs, rfl⟩ := ih (distinct_of_finishes hf hs hx) rfl
        exact ⟨(x, T) :: xs, .cons hx hxs, rfl⟩
  · rintro ⟨xs, h, rfl⟩
    induction h with
    | nil => exact .nil
    | cons h _ ih =>
        have hx := (finishes_iff hf hs).mpr ⟨_, _, h, rfl, rfl⟩
        exact .cons hx (ih (distinct_of_finishes hf hs h))

theorem start_distinct : (Session.start host).state.store.Distinct :=
  (Session.start_has hf fun _ => True).1.tidy.imp fun _ _ => trivial

end

/-- The parts of the memory go together. No value is missing, the constants of a scope are among
its values, and the keys of an object are those that have a field, each listed once. -/
structure Whole (m : Machine) : Prop where
  values : ∀ f ∈ m.frames, ∀ name v, f.values.get? name = some v → v ≠ none
  constants : ∀ f ∈ m.frames, ∀ name, f.isConstant name = true → f.values.contains name = true
  fields : ∀ r ∈ m.records, ∀ key v, r.fields.get? key = some v → v ≠ none
  keys : ∀ r ∈ m.records, r.keys.Nodup ∧ ∀ key, key ∈ r.keys ↔ r.fields.contains key = true

theorem get?_map_some {α β : Type} {f : α → β} {t : Table α} {name : Text} {v : Option β}
    (h : (t.map fun a => some (f a)).get? name = some v) : v ≠ none := by
  rw [Table.get?_map, Option.map_eq_some_iff] at h
  obtain ⟨a, -, rfl⟩ := h
  exact Option.some_ne_none _

theorem whole_machine {s : State} (hs : s.store.Distinct) : s.machine.Whole where
  values f hf name v hv := by
    obtain ⟨c, -, rfl⟩ := Array.mem_map.mp hf
    exact get?_map_some hv
  constants f hf name hc := by
    obtain ⟨c, hm, rfl⟩ := Array.mem_map.mp hf
    obtain ⟨scope, hg⟩ := Array.mem_iff_getElem?.mp hm
    rw [Scope.isConstant_frame (hs.scopes hg).nodup, Option.any_eq_true] at hc
    obtain ⟨b, hb, -⟩ := hc
    rw [Scope.contains_values, Table.contains, hb]
    rfl
  fields r hr key v hv := by
    obtain ⟨t, -, rfl⟩ := Array.mem_map.mp hr
    exact get?_map_some hv
  keys r hr := by
    obtain ⟨t, hm, rfl⟩ := Array.mem_map.mp hr
    obtain ⟨object, hg⟩ := Array.mem_iff_getElem?.mp hm
    refine ⟨(hs.objects hg).nodup, fun key => ?_⟩
    rw [Table.record, Table.contains_map, Table.contains, Option.isSome_iff_exists,
      ← Table.mem_keys_iff]

/-- A value that exists in the memory: its object or its scope has been made, and it is no
function of the host. -/
def Has (m : Machine) : Datum → Prop
  | .object id => id < m.records.size
  | .func _ closure => closure < m.frames.size
  | .native function => ∀ name, function ≠ .host name
  | _ => True

/-- How a source ends that can be read: with a value that exists, or with an error that a program
can make, at the line of a token. -/
def EndsWell (sources : List Text) (m : Machine) : Verdict → Prop
  | .value v => m.Has v
  | .failed e => Session.Proper sources e
  | .unread _ => False
  | .astray => False
  | .exhausted => False

theorem has_datum {line : Nat → Prop} {s : State} {v : Value} (h : s.store.Has line v) :
    s.machine.Has v.datum := by
  cases v with
  | object id => exact Nat.lt_of_lt_of_eq h Array.size_map.symm
  | func function scope => exact Nat.lt_of_lt_of_eq h.1 Array.size_map.symm
  | _ => exact h

theorem endsWell_of {sources : List Text} {T : Session} {x : Except RunError Value}
    (h : Session.EndsWell sources T.state.store x) :
    T.state.machine.EndsWell sources (.of x) := by
  obtain ⟨v, rfl, hv⟩ | ⟨e, rfl, he⟩ := h
  · exact has_datum hv
  · exact he

/-- Whatever sources are run on the machine, without functions of the host: its runs are those of
a session, in whose store all that is held exists at every moment. After each source the memory is
whole, and no value that is missing was ever stored. A source that can be read and that ends has not
gone astray. It gives a value that exists or an error that a program can make, and the line of the
error is the line of a token of one of the sources so far. -/
theorem runs_sound (host : Host) (hf : host.functions = .empty) (sources : List Text) :
    (∀ fuel, ∀ s ∈ Session.moments host fuel sources (Session.start host),
      s.Sound (Store.Has (Session.TokenLine sources))) ∧
    (∀ results, Runs host start sources results ↔
      ∃ xs, Session.Runs host (Session.start host) sources xs ∧ xs.map image = results) ∧
    ∀ results, Runs host start sources results →
      ∀ (i : Nat) (source : Text) (r : Verdict) (m : Machine),
        sources[i]? = some source → results[i]? = some (r, m) →
          m.Whole ∧ m.blank = false ∧
            ∀ p, Program.ofSource source = .ok p → m.EndsWell (sources.take (i + 1)) r := by
  have hi : ∀ results, Runs host start sources results ↔
      ∃ xs, Session.Runs host (Session.start host) sources xs ∧ xs.map image = results := by
    intro results
    rw [← machine_start hf]
    exact runs_iff hf (start_distinct hf)
  refine ⟨fun fuel s => Session.moments_sound hf fuel sources, hi, ?_⟩
  intro results h i source r m hs hr
  obtain ⟨xs, hx, rfl⟩ := (hi results).mp h
  rw [List.getElem?_map, Option.map_eq_some_iff] at hr
  obtain ⟨⟨x, T⟩, hT, he⟩ := hr
  obtain ⟨rfl, rfl⟩ := Prod.mk.inj he
  obtain ⟨hstart, hroot⟩ := Session.start_has hf (Session.TokenLine [])
  obtain ⟨ht, hw⟩ := Session.results_sound hf hx hstart hroot i source x T hs hT
  exact ⟨whole_machine (ht.tidy.imp fun _ _ => trivial), rfl, fun p hp => endsWell_of (hw p hp)⟩

/-- A function fails at its own line, although two sources have been run since, one of which
cannot be read. -/
theorem runs_sound_earlier_line :
    let host : Host := {}
    let a := Text.utf8 "func f(x)\n\x7b\n  x.y\n\x7d"
    let b := Text.utf8 "let o ="
    let c := Text.utf8 "f(2)"
    ∃ x y e m, Runs host start [a, b, c] [x, y, (.failed e, m)] ∧
      e.line = 3 ∧ m.EndsWell [a, b, c] (.failed e) := by
  intro host a b c
  let S := (Session.run host 30 a (Session.start host)).2
  have ha : (Session.run host 30 a (Session.start host)).1.toOption.isSome = true := by
    decide +kernel
  have hb : (Program.ofSource b).toOption.isNone = true := by decide +kernel
  have hc : Session.failureLine (Session.run host 30 c (Session.run host 30 b S).2).1 = some 3 := by
    decide +kernel
  have hp : (Program.ofSource c).toOption.isSome = true := by decide +kernel
  obtain ⟨v, ha⟩ := Session.finishes_of_toOption ha
  obtain ⟨e, he, hc⟩ := Session.finishes_of_failureLine hc
  obtain ⟨p, hp⟩ := Option.isSome_iff_exists.mp hp
  have hb : Session.Finishes host b S (Session.run host 30 b S).1 (Session.run host 30 b S).2 := by
    refine ⟨30, rfl, ?_⟩
    cases hq : Program.ofSource b with
    | ok q =>
        rw [hq] at hb
        cases hb
    | error e =>
        rw [Session.run_error hq]
        intro h
        cases h
  obtain ⟨-, hi, hr⟩ := runs_sound host rfl [a, b, c]
  have h := (hi _).mpr ⟨_, .cons ha (.cons hb (.cons hc .nil)), rfl⟩
  obtain ⟨-, -, hw⟩ := hr _ h 2 c _ _ rfl rfl
  exact ⟨_, _, e, _, h, he, hw p (Reading.eq_ok_of_toOption hp)⟩

end Machine

end Scripting
