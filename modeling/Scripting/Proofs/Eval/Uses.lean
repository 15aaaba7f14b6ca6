import Scripting.Proofs.Eval.Course
import Scripting.Proofs.Store.Records
import Scripting.Session

/-!
The uses that evaluations make of objects, in order, each with the store right after it. However
an evaluation goes, and whatever it does on the way, every object is at each moment what the uses
before tell: its keys are in the order in which they were first stored under, and what is read of
it is what was stored last. The right side of an assignment, its object and its key may use the
object that is assigned to, and several names may stand for it.
-/

namespace Scripting

namespace Access

/-- What is read of an object was stored last in it. -/
def Recalls (past : List Access) (a : Access) : Prop :=
  ∀ id key value, a = .read id key value → value = lastStored id key past

/-- Uses, each with the store after it, that are true to the uses before them. -/
def Faithful : (past : List Access) → List (Access × Store) → Prop
  | _, [] => True
  | past, (a, t) :: rest =>
    (t.Recorded (past ++ [a]) ∧ a.Recalls past) ∧ Faithful (past ++ [a]) rest

theorem faithful_append (past : List Access) (uses later : List (Access × Store)) :
    Faithful past (uses ++ later) ↔
      Faithful past uses ∧ Faithful (past ++ uses.map Prod.fst) later := by
  induction uses generalizing past with
  | nil => simp [Faithful]
  | cons use rest ih => simp [Faithful, ih, and_assoc]

/-- The store after each of the uses is recorded, and what each reads was stored last. -/
theorem Faithful.at {past : List Access} {before after : List (Access × Store)} {a : Access}
    {t : Store} (h : Faithful past (before ++ (a, t) :: after)) :
    t.Recorded (past ++ before.map Prod.fst ++ [a]) ∧ a.Recalls (past ++ before.map Prod.fst) :=
  ((faithful_append past before _).mp h).2.1

end Access

namespace Eval

open Access (Faithful)

variable {α β : Type}

/-- A computation that leaves all objects as they are. -/
def Apart (x : Eval α) : Prop := ∀ s, (x s).2.store.objects = s.store.objects

namespace Apart

theorem pure (a : α) : Apart (Pure.pure a : Eval α) := fun _ => rfl

theorem exhausted : Apart (Eval.exhausted : Eval α) := fun _ => rfl

theorem fail (line : Nat) (cause : RuntimeError.Cause) (detail : Text) :
    Apart (Eval.fail line cause detail : Eval α) := fun _ => rfl

theorem onStore (line : Nat) (look : Store → Except BindingError α) {change : α → Store → Store}
    (h : ∀ a s, (change a s).objects = s.objects) : Apart (Eval.onStore line look change) := by
  intro s
  rw [Eval.onStore]
  cases look s.store with
  | ok a => exact h a s.store
  | error e => rfl

theorem bind {x : Eval α} {f : α → Eval β} (hx : Apart x) (hf : ∀ a, Apart (f a)) :
    Apart (x >>= f) := by
  intro s
  have ht := hx s
  generalize hr : x s = r at ht
  obtain ⟨o, t⟩ := r
  cases o with
  | ok a =>
      rw [bind_ok hr]
      exact (hf a t).trans ht
  | error e =>
      rw [bind_error hr]
      exact ht
  | exhausted =>
      rw [bind_exhausted hr]
      exact ht

end Apart

namespace Course

/-- The uses of the past and then those of a course. -/
def extend {x : Eval α} (c : Course x) (s : State) (past : List Access) : List Access :=
  past ++ (c.uses s).map Prod.fst

theorem extend_bind {x : Eval α} {f : α → Eval β} (c : Course x) (d : (a : α) → Course (f a))
    {s t : State} {a : α} (h : x s = (.ok a, t)) (past : List Access) :
    (c.bind d).extend s past = (d a).extend t (c.extend s past) := by
  simp only [extend, bind, h, following, List.map_append, List.append_assoc]

theorem extend_step_bind {x : Eval α} {f : α → Eval β} (d : (a : α) → Course (f a)) {s t : State}
    {a : α} (h : x s = (.ok a, t)) (past : List Access) :
    ((step x).bind d).extend s past = (d a).extend t past := by
  have hn : (step x).extend s past = past := List.append_nil past
  rw [extend_bind _ d h, hn]

/-- From a recorded store on, the uses are true to those before, and the store at the end is
recorded with them. -/
def Sound {x : Eval α} (c : Course x) : Prop :=
  ∀ s past, s.store.Recorded past →
    Faithful past (c.uses s) ∧ (x s).2.store.Recorded (c.extend s past)

/-- Two courses with the same uses, whose computations come to the same objects. -/
theorem Sound.of_eq {x : Eval α} {y : Eval β} {c : Course x} {d : Course y} (h : d.Sound)
    (hu : c.uses = d.uses) (ho : ∀ s, (x s).2.store.objects = (y s).2.store.objects) :
    c.Sound := by
  intro s past hs
  obtain ⟨hf, hr⟩ := h s past hs
  rw [extend, hu]
  exact ⟨hf, hr.of_objects (ho s)⟩

/-- A course that has nothing to do with objects. -/
theorem sound_apart {x : Eval α} {c : Course x} (hc : ∀ s, c.uses s = []) (h : Apart x) :
    c.Sound := by
  intro s past hs
  rw [extend, hc, List.map_nil, List.append_nil]
  exact ⟨trivial, hs.of_objects (h s)⟩

theorem sound_step {x : Eval α} (h : Apart x) : (step x).Sound := sound_apart (fun _ => rfl) h

theorem sound_bind {x : Eval α} {f : α → Eval β} {c : Course x} {d : (a : α) → Course (f a)}
    (hc : c.Sound) (hd : ∀ a, (d a).Sound) : (c.bind d).Sound := by
  intro s past hs
  obtain ⟨hf, hr⟩ := hc s past hs
  simp only [extend, bind]
  rw [Access.faithful_append, List.map_append, ← List.append_assoc]
  generalize hx : x s = r at hr
  obtain ⟨o, t⟩ := r
  cases o with
  | ok a =>
      obtain ⟨hg, ht⟩ := hd a t _ hr
      rw [bind_ok hx]
      exact ⟨⟨hf, hg⟩, ht⟩
  | error e =>
      rw [bind_error hx, following, List.map_nil, List.append_nil]
      exact ⟨⟨hf, trivial⟩, hr⟩
  | exhausted =>
      rw [bind_exhausted hx, following, List.map_nil, List.append_nil]
      exact ⟨⟨hf, trivial⟩, hr⟩

end Course

end Eval

namespace Evaluator

open Eval (Course following)

section
variable (host : Host)

/-- Storing the values of properties one by one is storing them all when they are there. -/
theorem evalProperties_eq (fuel scope : Nat) (ps : List Property) (fields : Table Value) :
    evalProperties host fuel scope ps fields = evalEntries host fuel scope ps >>= fun entries =>
      pure (entries.foldl (fun t entry => t.set entry.1 entry.2) fields) := by
  induction fuel generalizing ps fields with
  | zero =>
      rw [evalProperties, evalEntries]
      rfl
  | succ fuel ih =>
      cases ps with
      | nil =>
          rw [evalProperties, evalEntries]
          rfl
      | cons p rest =>
          cases p with
          | shorthand key =>
              simp only [evalProperties, evalEntries, ih, Eval.bind_assoc]
              rfl
          | pair key value =>
              simp only [evalProperties, evalEntries, ih, Eval.bind_assoc]
              rfl

theorem evalExpr_object (fuel scope : Nat) (ps : List Property) :
    evalExpr host (fuel + 1) scope (.object ps) =
      evalEntries host fuel scope ps >>= fun entries => newObject (.ofEntries entries) := by
  rw [evalExpr, evalProperties_eq, Eval.bind_assoc]
  rfl

/-- The entries of a literal have its keys, in order. -/
theorem map_fst_evalEntries {fuel scope : Nat} {ps : List Property} {s t : State}
    {entries : List (Text × Value)} (h : evalEntries host fuel scope ps s = (.ok entries, t)) :
    entries.map Prod.fst = ps.map fun p => p.key.text := by
  induction fuel generalizing ps s entries with
  | zero =>
      rw [evalEntries] at h
      cases h
  | succ fuel ih =>
      cases ps with
      | nil =>
          rw [evalEntries] at h
          cases h
          rfl
      | cons p rest =>
          obtain ⟨value, others, u, hr, he⟩ : ∃ value others u,
              evalEntries host fuel scope rest u = (.ok others, t) ∧
                entries = (p.key.text, value) :: others := by
            cases p with
            | shorthand key | pair key value =>
                rw [evalEntries] at h
                obtain ⟨value, u, -, h⟩ := Eval.bind_eq_ok h
                obtain ⟨others, v, hr, h⟩ := Eval.bind_eq_ok h
                cases h
                exact ⟨value, others, u, hr, rfl⟩
          rw [he, List.map_cons, List.map_cons, ih hr]

end

open Eval (Apart)

section
variable {host : Host}

theorem lookup_apart {scope : Nat} {name : Name} : Apart (lookup scope name) :=
  .onStore _ _ fun _ _ => rfl

theorem declare_apart {scope : Nat} {name : Name} {value : Value} {constant : Bool} :
    Apart (declare scope name value constant) := by
  refine .bind ?_ fun _ => .pure value
  exact .onStore _ _ fun _ _ => rfl

theorem assign_apart {scope : Nat} {name : Name} {value : Value} :
    Apart (assign scope name value) := by
  refine .bind ?_ fun _ => .pure value
  exact .onStore _ _ fun _ _ => rfl

theorem newScope_apart {parent : Option Nat} : Apart (newScope parent) := fun _ => rfl

theorem asObject_apart {line : Nat} {value : Value} : Apart (asObject line value) := by
  cases value with
  | object id => exact .pure _
  | _ => exact .fail _ _ _

theorem asKey_apart {line : Nat} {value : Value} : Apart (asKey line value) := by
  cases value with
  | text t => exact .pure _
  | number n => exact .pure _
  | _ => exact .fail _ _ _

theorem asCondition_apart {line : Nat} {value : Value} : Apart (asCondition line value) := by
  cases value with
  | bool b => exact .pure _
  | _ => exact .fail _ _ _

theorem applyOperator_apart {op : Operator} {line : Nat} {left right : Value} :
    Apart (applyOperator op line left right) := by
  cases left with
  | number x =>
      cases right with
      | number y => exact .pure _
      | _ => exact .fail _ _ _
  | _ => exact .fail _ _ _

/-- Functions of the host look names up and declare them, and show values. -/
theorem perform_apart {scope line : Nat} {action : HostAction} :
    Apart (perform scope line action) := by
  induction action with
  | done _ | fail _ | raise _ => exact fun _ => rfl
  | lookup name next ih => exact fun s => ih _ s
  | declare name value constant next ih =>
      intro s
      simp only [perform, Store.declare]
      cases s.store.declarable scope name with
      | ok => exact ih (.ok value) _
      | error e => exact ih (.error e) s
  | display value next ih => exact fun s => ih _ s

theorem callNative_apart {scope line : Nat} {arguments : List Value} {function : Native} :
    Apart (callNative host scope line arguments function) := by
  cases function with
  | print =>
      intro s
      simp only [callNative, printLine]
      split <;> rfl
  | time => exact fun _ => rfl
  | gate gate =>
      rw [callNative]
      cases gate.apply arguments with
      | ok value => exact .pure _
      | error cause => exact .fail _ _ _
  | host name =>
      rw [callNative]
      cases host.functions.get? name with
      | some action => exact perform_apart
      | none => exact .pure _

theorem trace_apart {event : Event} : Apart (Eval.trace host event) := by
  intro s
  rw [Eval.trace, State.trace]
  split <;> rfl

theorem nativeCourse_sound {scope line : Nat} {arguments : List Value} {function : Native} :
    (nativeCourse host scope line arguments function).Sound := by
  refine Course.sound_apart (fun s => ?_) callNative_apart
  cases function <;> rfl

theorem parametersCourse_sound {scope : Nat} {names : List Name} {values : List Value} :
    (parametersCourse scope names values).Sound := by
  induction names generalizing values with
  | nil => exact Course.sound_step (.pure _)
  | cons name names ih =>
      cases values with
      | nil => exact Course.sound_bind (Course.sound_step declare_apart) fun _ => ih
      | cons value values => exact Course.sound_bind (Course.sound_step declare_apart) fun _ => ih

theorem readCourse_sound {object : Nat} {key : Text} : (readCourse object key).Sound := by
  intro s past hs
  refine ⟨⟨⟨hs.read object key _, ?_⟩, trivial⟩, hs.read object key _⟩
  intro id other value ha
  cases ha
  exact hs.lastStored_eq object key

theorem setCourse_sound {object : Nat} {key : Text} {value : Value} :
    (setCourse object key value).Sound := by
  intro s past hs
  refine ⟨⟨⟨hs.setField object key value, ?_⟩, trivial⟩, hs.setField object key value⟩
  intro id other v ha
  cases ha

theorem makeCourse_sound {entries : List (Text × Value)} : (makeCourse entries).Sound := by
  intro s past hs
  refine ⟨⟨⟨hs.newObject entries, ?_⟩, trivial⟩, hs.newObject entries⟩
  intro id key value ha
  cases ha

/-- An object that a literal makes is recorded by its entries. -/
theorem objectCourse_sound (host : Host) {fuel scope : Nat} {ps : List Property}
    (h : (propertiesCourse host fuel scope ps .empty).Sound) :
    (exprCourse host (fuel + 1) scope (.object ps)).Sound := by
  have hc : ((propertiesCourse host fuel scope ps .empty).along
      (evalEntries host fuel scope ps)).Sound := by
    refine h.of_eq rfl fun s => ?_
    rw [evalProperties_eq, Eval.snd_bind_pure]
  refine (Course.sound_bind hc fun entries => makeCourse_sound).of_eq rfl fun s => ?_
  rw [evalExpr_object]

/-- With this fuel, the uses of every evaluation are true to those before. -/
structure SoundAt (host : Host) (fuel : Nat) : Prop where
  expr : ∀ scope e, (exprCourse host fuel scope e).Sound
  each : ∀ scope es, (eachCourse host fuel scope es).Sound
  properties : ∀ scope ps fields, (propertiesCourse host fuel scope ps fields).Sound
  call : ∀ function closure arguments, (callCourse host fuel function closure arguments).Sound
  stmt : ∀ scope s, (stmtCourse host fuel scope s).Sound
  clauses : ∀ scope line cs otherwise, (clausesCourse host fuel scope line cs otherwise).Sound
  block : ∀ scope last ss, (blockCourse host fuel scope last ss).Sound

end

namespace SoundAt

open Eval.Course (sound_apart sound_bind sound_step)

variable {host : Host} {fuel : Nat}

theorem zero (host : Host) : SoundAt host 0 where
  expr _ _ := sound_step .exhausted
  each _ _ := sound_step .exhausted
  properties _ _ _ := sound_step .exhausted
  call _ _ _ := sound_step .exhausted
  stmt _ _ := sound_step .exhausted
  clauses _ _ _ _ := sound_step .exhausted
  block _ _ _ := sound_step .exhausted

variable (h : SoundAt host fuel)
include h

theorem expr_succ (scope : Nat) (e : Expr) : (exprCourse host (fuel + 1) scope e).Sound := by
  cases e with
  | assign target line value =>
      refine sound_bind (h.expr scope value) fun value => ?_
      cases target with
      | name name => exact sound_step assign_apart
      | member object line key =>
          refine sound_bind (h.expr scope object) fun object => ?_
          exact sound_bind (sound_step asObject_apart) fun id => setCourse_sound
      | index object line key =>
          refine sound_bind (h.expr scope object) fun object => ?_
          refine sound_bind (sound_step asObject_apart) fun id => ?_
          refine sound_bind (h.expr scope key) fun key => ?_
          exact sound_bind (sound_step asKey_apart) fun key => setCourse_sound
      | _ => exact sound_step (.fail _ _ _)
  | binary left op line right =>
      refine sound_bind (h.expr scope left) fun left => ?_
      exact sound_bind (h.expr scope right) fun right => sound_step applyOperator_apart
  | call callee line arguments =>
      refine sound_bind (h.expr scope callee) fun callee => ?_
      refine sound_bind (h.each scope arguments) fun arguments => ?_
      cases callee with
      | native function => exact nativeCourse_sound
      | func function closure => exact h.call function closure arguments
      | _ => exact sound_step (.fail _ _ _)
  | member object line key =>
      refine sound_bind (h.expr scope object) fun object => ?_
      exact sound_bind (sound_step asObject_apart) fun id => readCourse_sound
  | index object line key =>
      refine sound_bind (h.expr scope object) fun object => ?_
      refine sound_bind (sound_step asObject_apart) fun id => ?_
      refine sound_bind (h.expr scope key) fun key => ?_
      exact sound_bind (sound_step asKey_apart) fun key => readCourse_sound
  | name name => exact sound_step lookup_apart
  | number value => exact sound_step (.pure _)
  | text value => exact sound_step (.pure _)
  | bool value => exact sound_step (.pure _)
  | object properties => exact objectCourse_sound host (h.properties scope properties .empty)

theorem each_succ (scope : Nat) (es : List Expr) : (eachCourse host (fuel + 1) scope es).Sound := by
  cases es with
  | nil => exact sound_step (.pure _)
  | cons e rest =>
      refine sound_bind (h.expr scope e) fun value => ?_
      exact sound_bind (h.each scope rest) fun values => sound_step (.pure _)

theorem properties_succ (scope : Nat) (ps : List Property) (fields : Table Value) :
    (propertiesCourse host (fuel + 1) scope ps fields).Sound := by
  cases ps with
  | nil => exact sound_step (.pure _)
  | cons p rest =>
      cases p with
      | shorthand key =>
          exact sound_bind (sound_step lookup_apart) fun value => h.properties scope rest _
      | pair key value =>
          exact sound_bind (h.expr scope value) fun value => h.properties scope rest _

theorem call_succ (function : Function) (closure : Nat) (arguments : List Value) :
    (callCourse host (fuel + 1) function closure arguments).Sound := by
  refine sound_bind (sound_apart (fun _ => rfl) trace_apart) fun _ => ?_
  refine sound_bind (sound_step newScope_apart) fun scope => ?_
  exact sound_bind parametersCourse_sound fun _ => h.block scope .null function.body

theorem stmt_succ (scope : Nat) (s : Stmt) : (stmtCourse host (fuel + 1) scope s).Sound := by
  cases s with
  | expr e => exact h.expr scope e
  | declare constant name type value =>
      cases value with
      | none => exact sound_step declare_apart
      | some e => exact sound_bind (h.expr scope e) fun value => sound_step declare_apart
  | func name parameters body => exact sound_step declare_apart
  | branch line first others otherwise => exact h.clauses scope line (first :: others) otherwise

theorem clauses_succ (scope line : Nat) (cs : List Clause) (otherwise : List Stmt) :
    (clausesCourse host (fuel + 1) scope line cs otherwise).Sound := by
  cases cs with
  | nil =>
      cases otherwise with
      | nil => exact sound_step (.pure _)
      | cons s ss =>
          exact sound_bind (sound_step newScope_apart) fun inner => h.block inner .null (s :: ss)
  | cons c rest =>
      cases c with
      | mk condition body =>
          refine sound_bind (h.expr scope condition) fun value => ?_
          refine sound_bind (sound_step asCondition_apart) fun holds => ?_
          cases holds with
          | true =>
              exact sound_bind (sound_step newScope_apart) fun inner => h.block inner .null body
          | false => exact h.clauses scope line rest otherwise

theorem block_succ (scope : Nat) (last : Value) (ss : List Stmt) :
    (blockCourse host (fuel + 1) scope last ss).Sound := by
  cases ss with
  | nil => exact sound_step (.pure _)
  | cons s rest => exact sound_bind (h.stmt scope s) fun value => h.block scope value rest

theorem succ : SoundAt host (fuel + 1) where
  expr := h.expr_succ
  each := h.each_succ
  properties := h.properties_succ
  call := h.call_succ
  stmt := h.stmt_succ
  clauses := h.clauses_succ
  block := h.block_succ

end SoundAt

theorem soundAt (host : Host) (fuel : Nat) : SoundAt host fuel := by
  induction fuel with
  | zero => exact .zero host
  | succ fuel ih => exact ih.succ

/-- A value that stands for a key: a text does, and a number by its text. -/
inductive StandsFor (key : Text) : Value → Prop
  | text : StandsFor key (.text key)
  | number (n : Number) (h : n.display = key) : StandsFor key (.number n)

section
variable {host : Host} {fuel scope line id : Nat} {object e value : Expr} {s t u w : State}
  {v : Value} {key : Text} {past : List Access}

theorem evalExpr_object_ok {ps : List Property} {entries : List (Text × Value)}
    (h : evalEntries host fuel scope ps s = (.ok entries, t)) :
    evalExpr host (fuel + 1) scope (.object ps) s =
      (.ok (.object t.store.objects.size),
        { t with store := (t.store.newObject (.ofEntries entries)).2 }) := by
  rw [evalExpr_object, Eval.bind_ok h]
  rfl

theorem asKey_ok (h : StandsFor key v) (s : State) : asKey line v s = (.ok key, s) := by
  cases h with
  | text => rfl
  | number n hn => rw [← hn, asKey]; rfl

theorem extend_ok (sound : SoundAt host fuel) (h : s.store.Recorded past)
    (he : evalExpr host fuel scope e s = (.ok v, t)) :
    t.store.Recorded ((exprCourse host fuel scope e).extend s past) := by
  have ht := (sound.expr scope e s past h).2
  rwa [he] at ht

theorem extend_object {ps : List Property} {entries : List (Text × Value)}
    (h : evalEntries host fuel scope ps s = (.ok entries, t)) :
    (exprCourse host (fuel + 1) scope (.object ps)).extend s past =
      (propertiesCourse host fuel scope ps .empty).extend s past ++
        [.made t.store.objects.size entries] := by
  exact Course.extend_bind (Course.along _ (evalEntries host fuel scope ps)) makeCourse h past

theorem asObject_ok (s : State) : asObject line (.object id) s = (.ok id, s) := rfl

section
variable (h : evalExpr host fuel scope object s = (.ok (.object id), t))
include h

theorem evalExpr_member (key : Name) :
    evalExpr host (fuel + 1) scope (.member object line key) s =
      (.ok (((t.store.fields id).get? key.text).getD .null), t) := by
  rw [evalExpr, Eval.bind_ok h]
  rfl

theorem extend_member (key : Name) :
    (exprCourse host (fuel + 1) scope (.member object line key)).extend s past =
      (exprCourse host fuel scope object).extend s past ++
        [.read id key.text (((t.store.fields id).get? key.text).getD .null)] := by
  exact (Course.extend_bind _ _ h past).trans (Course.extend_step_bind _ (asObject_ok t) _)

variable (he : evalExpr host fuel scope e t = (.ok v, u)) (hk : StandsFor key v)
include he hk

theorem evalExpr_index :
    evalExpr host (fuel + 1) scope (.index object line e) s =
      (.ok (((u.store.fields id).get? key).getD .null), u) := by
  rw [evalExpr, Eval.bind_ok h, Eval.bind_ok (asObject_ok t), Eval.bind_ok he,
    Eval.bind_ok (asKey_ok hk u)]
  rfl

theorem extend_index :
    (exprCourse host (fuel + 1) scope (.index object line e)).extend s past =
      (exprCourse host fuel scope e).extend t ((exprCourse host fuel scope object).extend s past) ++
        [.read id key (((u.store.fields id).get? key).getD .null)] := by
  refine (Course.extend_bind _ _ h past).trans ?_
  refine (Course.extend_step_bind _ (asObject_ok t) _).trans ?_
  refine (Course.extend_bind _ _ he _).trans ?_
  exact Course.extend_step_bind _ (asKey_ok hk u) _

end

section
variable {l : Nat} (hv : evalExpr host fuel scope value s = (.ok v, t))
  (h : evalExpr host fuel scope object t = (.ok (.object id), u))
include hv h

theorem evalExpr_assign_member (key : Name) :
    evalExpr host (fuel + 1) scope (.assign (.member object line key) l value) s =
      (.ok v, { u with store := u.store.setField id key.text v }) := by
  rw [evalExpr, Eval.bind_ok hv]
  exact Eval.bind_ok h

theorem extend_assign_member (key : Name) :
    (exprCourse host (fuel + 1) scope (.assign (.member object line key) l value)).extend s past =
      (exprCourse host fuel scope object).extend t
        ((exprCourse host fuel scope value).extend s past) ++ [.set id key.text v] := by
  refine (Course.extend_bind _ _ hv past).trans ?_
  refine (Course.extend_bind _ _ h _).trans ?_
  exact Course.extend_step_bind _ (asObject_ok u) _

variable {k : Value} (he : evalExpr host fuel scope e u = (.ok k, w)) (hk : StandsFor key k)
include he hk

theorem evalExpr_assign_index :
    evalExpr host (fuel + 1) scope (.assign (.index object line e) l value) s =
      (.ok v, { w with store := w.store.setField id key v }) := by
  rw [evalExpr, Eval.bind_ok hv]
  refine (Eval.bind_ok h).trans ?_
  rw [Eval.bind_ok (asObject_ok u), Eval.bind_ok he, Eval.bind_ok (asKey_ok hk w)]
  rfl

theorem extend_assign_index :
    (exprCourse host (fuel + 1) scope (.assign (.index object line e) l value)).extend s past =
      (exprCourse host fuel scope e).extend u ((exprCourse host fuel scope object).extend t
        ((exprCourse host fuel scope value).extend s past)) ++ [.set id key v] := by
  refine (Course.extend_bind _ _ hv past).trans ?_
  refine (Course.extend_bind _ _ h _).trans ?_
  refine (Course.extend_step_bind _ (asObject_ok u) _).trans ?_
  refine (Course.extend_bind _ _ he _).trans ?_
  exact Course.extend_step_bind _ (asKey_ok hk w) _

end

end

/-- Objects keep the order in which their keys were first stored under, and the values that were
stored last. From a store that is recorded by the uses of objects in the past on:

* However a block runs, at its end and right after each of its uses of objects the store is
recorded by all the uses until then, and what is read of an object is what was stored last.
* A literal makes a new object with its keys in order, each with the value it was found to have.
* An assignment to a field, by its name or by a value that stands for it, stores its value there.
* A field that is read, by its name or by a value that stands for it, is what was stored last.

The uses that these expressions make are those of their parts, in order, and then the one that is
told here. -/
theorem objects_recall (host : Host) (fuel scope : Nat) {s : State} {past : List Access}
    (h : s.store.Recorded past) :
    (∀ last ss,
      let course := blockCourse host fuel scope last ss
      (execBlock host fuel scope last ss s).2.store.Recorded (course.extend s past) ∧
      ∀ before a t after, course.uses s = before ++ (a, t) :: after →
        t.Recorded (past ++ before.map Prod.fst ++ [a]) ∧
          a.Recalls (past ++ before.map Prod.fst)) ∧
    (∀ ps entries t, evalEntries host fuel scope ps s = (.ok entries, t) →
      entries.map Prod.fst = ps.map (fun p => p.key.text) ∧
      (exprCourse host (fuel + 1) scope (.object ps)).extend s past =
        (propertiesCourse host fuel scope ps .empty).extend s past ++
          [.made t.store.objects.size entries] ∧
      ∃ u, evalExpr host (fuel + 1) scope (.object ps) s =
          (.ok (.object t.store.objects.size), u) ∧
        u.store.objects.size = t.store.objects.size + 1 ∧
        (u.store.fields t.store.objects.size).StoredBy entries) ∧
    (∀ value v t object id u line l, evalExpr host fuel scope value s = (.ok v, t) →
      evalExpr host fuel scope object t = (.ok (.object id), u) →
      let known := (exprCourse host fuel scope object).extend t
        ((exprCourse host fuel scope value).extend s past)
      (∀ key,
        let e : Expr := .assign (.member object line key) l value
        let later := known ++ [.set id key.text v]
        (exprCourse host (fuel + 1) scope e).extend s past = later ∧
        ∃ w, evalExpr host (fuel + 1) scope e s = (.ok v, w) ∧ w.store.Recorded later) ∧
      ∀ index k w key, evalExpr host fuel scope index u = (.ok k, w) → StandsFor key k →
        let e : Expr := .assign (.index object line index) l value
        let later := (exprCourse host fuel scope index).extend u known ++ [.set id key v]
        (exprCourse host (fuel + 1) scope e).extend s past = later ∧
        ∃ x, evalExpr host (fuel + 1) scope e s = (.ok v, x) ∧ x.store.Recorded later) ∧
    (∀ object id t line, evalExpr host fuel scope object s = (.ok (.object id), t) →
      let known := (exprCourse host fuel scope object).extend s past
      (∀ key,
        let e : Expr := .member object line key
        let v := Access.lastStored id key.text known
        (exprCourse host (fuel + 1) scope e).extend s past = known ++ [.read id key.text v] ∧
        evalExpr host (fuel + 1) scope e s = (.ok v, t)) ∧
      ∀ index k u key, evalExpr host fuel scope index t = (.ok k, u) → StandsFor key k →
        let e : Expr := .index object line index
        let before := (exprCourse host fuel scope index).extend t known
        let v := Access.lastStored id key before
        (exprCourse host (fuel + 1) scope e).extend s past = before ++ [.read id key v] ∧
        evalExpr host (fuel + 1) scope e s = (.ok v, u)) := by
  have sound := soundAt host fuel
  refine ⟨fun last ss => ?_, fun ps entries t he => ?_,
    fun value v t object id u line l hv ho => ?_, fun object id t line ho => ?_⟩
  · obtain ⟨hf, hr⟩ := sound.block scope last ss s past h
    refine ⟨hr, fun before a t after hu => ?_⟩
    rw [hu] at hf
    exact hf.at
  · refine ⟨map_fst_evalEntries host he, extend_object he, _, evalExpr_object_ok he,
      Array.size_push .., ?_⟩
    rw [Store.fields, Store.newObject, Array.getElem?_push_size]
    exact Table.storedBy_ofEntries entries
  · have hu := extend_ok sound (extend_ok sound h hv) ho
    refine ⟨fun key => ⟨extend_assign_member hv ho key, _, evalExpr_assign_member hv ho key,
      hu.setField id key.text v⟩, fun index k w key he hk => ?_⟩
    exact ⟨extend_assign_index hv ho he hk, _, evalExpr_assign_index hv ho he hk,
      (extend_ok sound hu he).setField id key v⟩
  · have ht := extend_ok sound h ho
    refine ⟨fun key => ?_, fun index k u key he hk => ?_⟩
    · dsimp only
      rw [← ht.lastStored_eq]
      exact ⟨extend_member ho key, evalExpr_member ho key⟩
    · dsimp only
      rw [← (extend_ok sound ht he).lastStored_eq]
      exact ⟨extend_index ho he hk, evalExpr_index ho he hk⟩

/-- A literal that repeats a key, and assignments under two names for its object. -/
theorem objects_recall_alias :
    let s := (Session.start {}).state
    let p := (Program.ofSource (Text.utf8 ("let o = \x7b a: 1, b: 2, a: 3 \x7d; " ++
      "let p = o; p.c = o.b; o[\"a\"] = p; p.b"))).toOption.getD []
    let course := blockCourse {} 30 Session.root .null p
    let T := (execBlock {} 30 Session.root .null p s).2.store
    s.store.Recorded [] ∧
      (T.fields 0).keys = [Text.utf8 "a", Text.utf8 "b", Text.utf8 "c"] ∧
      (Access.stored 0 (course.extend s [])).map (fun entries => entries.map Prod.fst) =
        some [Text.utf8 "a", Text.utf8 "b", Text.utf8 "a", Text.utf8 "c", Text.utf8 "a"] ∧
      T.Recorded (course.extend s []) := by
  intro s p course T
  have hs : s.store.Recorded [] := .of_no_objects rfl
  refine ⟨hs, by decide +kernel, by decide +kernel, ?_⟩
  exact ((objects_recall {} 30 Session.root hs).1 .null p).1

end Evaluator

end Scripting
