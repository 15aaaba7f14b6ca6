import Scripting.Proofs.Eval.Comparison
import Scripting.Proofs.Session.Splitting

/-!
A printer that takes only so many lines. The run of a source does under it what it does under
a printer that takes all lines, up to the first line that is refused, and there it fails.
-/

namespace Scripting

/-- The host with a printer that takes a number of lines, or all of them. -/
def Host.printing (host : Host) (limit : Option Nat) : Host := { host with printLimit := limit }

namespace Print

/-- The error at a line that is refused. -/
def refusal (p : Print) : RuntimeError := ⟨p.line, .printerClosed, []⟩

def texts (ps : List Print) : Array Text := (ps.map text).toArray

theorem size_texts (ps : List Print) : (texts ps).size = ps.length := by
  rw [texts, List.size_toArray, List.length_map]

/-- Lines that are printed one after the other lead from some printed lines to others. -/
inductive Leads : Array Text → List Print → Array Text → Prop
  | nil {a : Array Text} : Leads a [] a
  | cons {p : Print} {ps : List Print} {b : Array Text}
      (h : Leads (p.state.printed.push p.text) ps b) : Leads p.state.printed (p :: ps) b

variable {a b c : Array Text} {ps qs : List Print}

theorem Leads.append (h : Leads a ps b) (h' : Leads b qs c) : Leads a (ps ++ qs) c := by
  induction h with
  | nil => exact h'
  | cons _ ih => exact .cons (ih h')

theorem Leads.eq (h : Leads a ps b) : b = a ++ texts ps := by
  induction h with
  | nil => rw [texts, List.map_nil, Array.append_empty]
  | cons _ ih => rw [ih, texts, texts, List.map_cons, List.push_append_toArray]

/-- Each line is printed after those before it. -/
theorem Leads.printed (h : Leads a ps b) {n : Nat} {p : Print} (hp : ps[n]? = some p) :
    p.state.printed = a ++ texts (ps.take n) := by
  induction h generalizing n with
  | nil => cases hp
  | cons _ ih =>
      cases n with
      | zero =>
          cases hp
          rw [texts, List.take_zero, List.map_nil, Array.append_empty]
      | succ n =>
          rw [ih hp, texts, texts, List.take_succ_cons, List.map_cons, List.push_append_toArray]

end Print

namespace Eval

variable {α β : Type} {limit : Nat} {s : State}

/-- A computation that does what another one does, up to the line of the other's course that a
printer refuses. -/
structure Cut (limit : Nat) (x : Eval α) {y : Eval α} (c : Course y) (s : State) : Prop where
  leads : Print.Leads s.printed (c.prints s) (y s).2.printed
  ending : x s = match (c.prints s)[limit - s.printed.size]? with
    | none => y s
    | some p => (.error p.refusal, p.state)

theorem Plain.printed {x : Eval α} (h : Plain x) (s : State) : (x s).2.printed = s.printed := by
  have hs := h s s.printed s.log s.readings
  rw [hs]

theorem Cut.of_quiet {x y : Eval α} {c : Course y} (hx : x s = y s) (hc : c.prints s = [])
    (hp : (y s).2.printed = s.printed) : Cut limit x c s := by
  constructor
  · rw [hc, hp]
    exact .nil
  · rw [hc]
    exact hx

/-- The lines of what comes next are counted on from those before. -/
theorem Cut.room {x y : Eval α} {c : Course y} (h : Cut limit x c s) {o : Outcome α} {t : State}
    (ht : y s = (o, t)) :
    limit - t.printed.size = limit - s.printed.size - (c.prints s).length := by
  have hl := h.leads.eq
  rw [ht] at hl
  simp only at hl
  rw [hl, Array.size_append, Print.size_texts]
  omega

theorem Cut.bind {x y : Eval α} {f g : α → Eval β} {c : Course y} {d : (a : α) → Course (g a)}
    (hx : Cut limit x c s) (hf : ∀ a t, Cut limit (f a) (d a) t) :
    Cut limit (x >>= f) (c.bind d) s := by
  have hl := hx.leads
  have he := hx.ending
  constructor
  · simp only [Course.bind]
    match hs : y s with
    | (.ok a, t) =>
        rw [hs] at hl
        rw [bind_ok hs]
        exact hl.append (hf a t).leads
    | (.error e, t) =>
        rw [hs] at hl
        rw [bind_error hs, following, List.append_nil]
        exact hl
    | (.exhausted, t) =>
        rw [hs] at hl
        rw [bind_exhausted hs, following, List.append_nil]
        exact hl
  · simp only [Course.bind]
    cases hp : (c.prints s)[limit - s.printed.size]? with
    | some p =>
        -- the refusal comes before what follows
        rw [hp] at he
        rw [bind_error he, List.getElem?_append_left (List.getElem?_eq_some_iff.mp hp).1, hp]
    | none =>
        rw [hp] at he
        rw [List.getElem?_append_right (List.getElem?_eq_none_iff.mp hp)]
        match hs : y s with
        | (.ok a, t) =>
            rw [hs] at he
            rw [bind_ok he, bind_ok hs, ← hx.room hs]
            exact (hf a t).ending
        | (.error e, t) =>
            rw [hs] at he
            rw [bind_error he, bind_error hs, following, List.getElem?_nil]
        | (.exhausted, t) =>
            rw [hs] at he
            rw [bind_exhausted he, bind_exhausted hs, following, List.getElem?_nil]

/-- A line is printed if there is room for it. -/
theorem Cut.print (host : Host) (scope line : Nat) (arguments : List Value) :
    Cut limit (Evaluator.callNative (host.printing (some limit)) scope line arguments .print)
      (Evaluator.nativeCourse (host.printing none) scope line arguments .print) s := by
  constructor
  · let p : Print := ⟨line, Text.join (Text.utf8 " ") (arguments.map s.store.display), s⟩
    exact .cons (p := p) .nil
  · simp only [Evaluator.callNative, Evaluator.printLine, Evaluator.nativeCourse, Host.printing,
      Option.all_some, Option.all_none, if_true, decide_eq_true_eq]
    by_cases h : s.printed.size < limit
    · have hn : limit - s.printed.size ≠ 0 := Nat.sub_ne_zero_of_lt h
      rw [if_pos h, List.getElem?_singleton, if_neg hn]
    · rw [if_neg h, Nat.sub_eq_zero_of_le (Nat.le_of_not_lt h)]
      rfl

end Eval

open Eval Evaluator

/-- The evaluations under a limit are cut from the courses without one. -/
def Host.cutting (host : Host) (limit : Nat) :
    Comparison (host.printing (some limit)) (host.printing none) where
  Holds x _ c := ∀ s, Cut limit x c s
  plain h hc s := .of_quiet rfl (hc s).2 (h.printed s)
  bind hx hf s := (hx s).bind hf
  withUses h s := ⟨(h s).leads, (h s).ending⟩
  functions := rfl
  call c s := by
    refine .of_quiet rfl rfl ?_
    simp only [Eval.trace, State.trace]
    split <;> rfl
  print scope line arguments s := .print host scope line arguments
  time _ _ _ s := .of_quiet rfl rfl rfl

namespace Session

/-- The state in which the program of a source begins. -/
def begun (host : Host) (source : Text) (p : Program) (S : Session) : State :=
  S.state.trace host (.parsed (Scan.ofSource source).withEnd.length p.length p.outline)

/-- The lines that the run of a source asks to be printed, if all of them are. -/
def prints (host : Host) (fuel : Nat) (source : Text) (S : Session) : List Print :=
  match Program.ofSource source with
  | .error _ => []
  | .ok p => (blockCourse (host.printing none) fuel root .null p).prints (begun host source p S)

theorem printed_trace (host : Host) (event : Event) (s : State) :
    (s.trace host event).printed = s.printed := by
  rw [trace_eq]

theorem run_printing {source : Text} {p : Program} (hp : Program.ofSource source = .ok p)
    (host : Host) (limit : Option Nat) (fuel : Nat) (S : Session) :
    run (host.printing limit) fuel source S =
      finish host (execBlock (host.printing limit) fuel root .null p (begun host source p S)) := by
  rw [run_ok hp, evaluate_eq]
  rfl

/-- The run of a source under a limit, by the lines that it asks to be printed without one. -/
theorem run_limited (host : Host) (fuel limit : Nat) (source : Text) (S : Session) :
    run (host.printing (some limit)) fuel source S =
      match (prints host fuel source S)[limit - S.state.printed.size]? with
      | none => run (host.printing none) fuel source S
      | some p =>
        (.error (.runtime p.refusal), ⟨p.state.trace host (.evaluationFailed p.refusal)⟩) := by
  cases hp : Program.ofSource source with
  | error e =>
      rw [run_error hp, run_error hp, prints, hp]
      rfl
  | ok p =>
      have h := (((host.cutting limit).holdsAt fuel).block root .null p
        (begun host source p S)).ending
      rw [begun, printed_trace] at h
      rw [run_printing hp, run_printing hp, prints, hp, begun, h]
      simp only [begun]
      split <;> rfl

theorem prints_lead (host : Host) (fuel : Nat) (source : Text) (S : Session) :
    Print.Leads S.state.printed (prints host fuel source S)
      (run (host.printing none) fuel source S).2.state.printed := by
  cases hp : Program.ofSource source with
  | error e =>
      rw [run_error hp, prints, hp]
      simp only [printed_trace]
      exact .nil
  | ok p =>
      -- the lines are the same whatever the limit is with which the course is compared
      have h := (((host.cutting 0).holdsAt fuel).block root .null p (begun host source p S)).leads
      obtain ⟨log, hs⟩ := finish_state host
        (execBlock (host.printing none) fuel root .null p (begun host source p S))
      rw [run_printing hp, hs, prints, hp]
      rwa [begun, printed_trace] at h

/-- Of the lines that a run asks to be printed, a printer takes the first `n`. If these are all,
then the run is the same as under a printer that takes all. If not, then it fails at the next
one with the error of the printer, in the state in which it asks for it. -/
theorem run_cut (host : Host) (fuel n : Nat) (source : Text) (S : Session) :
    let whole := run (host.printing none) fuel source S
    let cut := run (host.printing (some (S.state.printed.size + n))) fuel source S
    let asked := prints host fuel source S
    whole.2.state.printed = S.state.printed ++ (asked.map Print.text).toArray ∧
      (asked.length ≤ n → cut = whole) ∧
      ∀ p, asked[n]? = some p →
        cut = (.error (.runtime ⟨p.line, .printerClosed, []⟩),
          ⟨p.state.trace host (.evaluationFailed ⟨p.line, .printerClosed, []⟩)⟩) ∧
        cut.2.state.printed = S.state.printed ++ ((asked.take n).map Print.text).toArray := by
  intro whole cut asked
  have hl : Print.Leads S.state.printed asked whole.2.state.printed :=
    prints_lead host fuel source S
  have hr : cut = _ := run_limited host fuel (S.state.printed.size + n) source S
  rw [Nat.add_sub_cancel_left] at hr
  refine ⟨hl.eq, fun hn => ?_, fun p hp => ?_⟩
  · rw [hr, List.getElem?_eq_none_iff.mpr hn]
  · rw [show (prints host fuel source S)[n]? = some p from hp] at hr
    rw [hr, printed_trace]
    exact ⟨rfl, hl.printed hp⟩

/-- The second of three lines is refused, inside a function: the assignment before it is made,
and the one after it is not. -/
theorem run_cut_inside_function :
    let host : Host := {}
    let S := (run host 20 (Text.utf8 "print(0)") (start host)).2
    let source := Text.utf8 "let x = 1;\nfunc f(y) \x7b\nprint(y)\nx = 2\n" ++
      Text.utf8 "print(x)\nx = 3\n\x7d\nf(5)\nprint(x)"
    let cut := run (host.printing (some 2)) 20 source S
    ∃ p, (prints host 20 source S).length = 3 ∧ (prints host 20 source S)[1]? = some p ∧
      cut = (.error (.runtime ⟨p.line, .printerClosed, []⟩), ⟨p.state⟩) ∧ p.line = 5 ∧
      cut.2.state.printed = S.state.printed ++ #[Text.utf8 "5"] ∧
      cut.2.state.store.display <$> (cut.2.state.store.lookup root (Text.utf8 "x")).toOption =
        some (Text.utf8 "2") := by
  intro host S source cut
  have hs : (prints host 20 source S)[1]?.isSome = true ∧ (prints host 20 source S).length = 3 ∧
      (prints host 20 source S)[1]?.map Print.line = some 5 ∧
      ((prints host 20 source S).take 1).map Print.text = [Text.utf8 "5"] ∧
      S.state.printed.size = 1 := by decide +kernel
  obtain ⟨p, hp⟩ := Option.isSome_iff_exists.mp hs.1
  have hc := (run_cut host 20 1 source S).2.2 p hp
  rw [hs.2.2.2.1, hs.2.2.2.2] at hc
  rw [hp] at hs
  exact ⟨p, hs.2.1, hp, hc.1, Option.some.inj hs.2.2.1, hc.2, by decide +kernel⟩

end Session

end Scripting
