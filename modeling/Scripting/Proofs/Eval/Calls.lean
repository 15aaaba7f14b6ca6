import Scripting.Proofs.Eval.Comparison

/-!
What the log of an evaluation tells. An evaluation does the same whether its events are
logged or not; if they are, then its log grows by the calls that the evaluation makes without
a log, in the order in which they begin.
-/

namespace Scripting

/-- The host, with its log on or off. -/
def Host.logging (host : Host) (live : Bool) : Host := { host with tracing := live }

namespace Call

/-- What calls add to a log that is on or off. -/
def told (live : Bool) (calls : List Call) : Array Event :=
  if live then (calls.map event).toArray else #[]

theorem told_nil (live : Bool) : told live [] = #[] := by
  cases live <;> rfl

theorem told_append (live : Bool) (calls later : List Call) :
    told live (calls ++ later) = told live calls ++ told live later := by
  cases live with
  | false => rfl
  | true => simp only [told, if_true, List.map_append, List.append_toArray]

end Call

namespace Eval

variable {α β : Type} {live : Bool}

/-- A computation that does what another one does, and adds the calls of the other's course to
the log. -/
def Told (live : Bool) (x : Eval α) {y : Eval α} (c : Course y) : Prop :=
  ∀ s log, x { s with log } = ((y s).1, { (y s).2 with log := log ++ Call.told live (c.calls s) })

/-- What has to do with the store alone has nothing to do with the log. -/
theorem Plain.log {x : Eval α} (h : Plain x) (s : State) (log : Array Event) :
    x { s with log } = ((x s).1, { (x s).2 with log }) := by
  have hs := h s s.printed s.log s.readings
  have hl := h s s.printed log s.readings
  rw [hl, hs]

theorem Plain.told {x : Eval α} (h : Plain x) {c : Course x} (hc : c.Quiet) : Told live x c := by
  intro s log
  rw [h.log, (hc s).1, Call.told_nil, Array.append_empty]

theorem Told.bind {x y : Eval α} {f g : α → Eval β} {c : Course y} {d : (a : α) → Course (g a)}
    (hx : Told live x c) (hf : ∀ a, Told live (f a) (d a)) : Told live (x >>= f) (c.bind d) := by
  intro s log
  have hx := hx s log
  simp only [Course.bind]
  match hs : y s with
  | (.ok a, t) =>
      rw [hs] at hx
      rw [bind_ok hs, bind_ok hx, hf a, Call.told_append, Array.append_assoc, following]
  | (.error e, t) =>
      rw [hs] at hx
      rw [bind_error hs, bind_error hx, following, List.append_nil]
  | (.exhausted, t) =>
      rw [hs] at hx
      rw [bind_exhausted hs, bind_exhausted hx, following, List.append_nil]

/-- The beginning of a call is the one step that the log tells. -/
theorem Told.call (host : Host) (c : Call) :
    Told live (Eval.trace (host.logging live) c.event) (.call (host.logging false) c) := by
  intro s log
  cases live with
  | false => rfl
  | true => simp [Eval.trace, State.trace, Host.logging, Course.call, Call.told]

end Eval

namespace Evaluator

open Eval

theorem printLine_log (host : Host) (line : Nat) (text : Text) (s : State) (log : Array Event) :
    printLine host line text { s with log } =
      ((printLine host line text s).1, { (printLine host line text s).2 with log }) := by
  simp only [printLine]
  split <;> rfl

/-- The evaluations with a log are told by the courses without one. -/
def telling (live : Bool) (host : Host) : Comparison (host.logging live) (host.logging false) where
  Holds x := Told live x
  plain h hc := h.told hc
  bind hx hf := hx.bind hf
  withUses h := h
  functions := rfl
  call c := .call host c
  print scope line arguments := by
    intro s log
    simp only [nativeCourse, Call.told_nil, Array.append_empty]
    exact printLine_log (host.logging false) line _ s log
  time scope line arguments := by
    intro s log
    simp only [nativeCourse, Course.step, Call.told_nil, Array.append_empty]
    rfl

end Evaluator

end Scripting
