import Scripting.Proofs.Eval.Course
import Scripting.Proofs.Eval.Lines
import Scripting.Proofs.Program.TokenLines
import Scripting.Proofs.Store.Bindings

/-!
Disciplines. A discipline says which stores, scopes and values may come up in an evaluation,
how a store may change from one moment to a later one, and which errors may end it. If every
operation on the store respects a discipline, then every evaluation does, at every moment of
its course.
-/

namespace Scripting

/-- A store turns into another by way of the stores of a list, each step in a relation. -/
inductive Store.Leads (R : Store → Store → Prop) : Store → List Store → Store → Prop
  | stay {a b : Store} (h : R a b) : Leads R a [] b
  | pass {a b c : Store} {l : List Store} (h : R a b) (t : Leads R b l c) : Leads R a (b :: l) c

namespace Store.Leads

variable {R : Store → Store → Prop} {a b c : Store} {l m : List Store}
  (trans : ∀ s t u : Store, R s t → R t u → R s u)
include trans

theorem le (h : Leads R a l b) : R a b := by
  induction h with
  | stay h => exact h
  | pass h _ ih => exact trans _ _ _ h ih

theorem append (h : Leads R a l b) (h' : Leads R b m c) : Leads R a (l ++ m) c := by
  induction h with
  | stay h =>
      cases h' with
      | stay h' => exact .stay (trans _ _ _ h h')
      | pass h' t => exact .pass (trans _ _ _ h h') t
  | pass h _ ih => exact .pass h (ih h')

theorem pairwise (h : Leads R a l b) (hm : (b :: m).Pairwise R) :
    (a :: (l ++ b :: m)).Pairwise R := by
  have hc {a b : Store} {m : List Store} (h : R a b) (hm : (b :: m).Pairwise R) :
      (a :: b :: m).Pairwise R := by
    refine List.pairwise_cons.mpr ⟨fun t ht => ?_, hm⟩
    obtain rfl | ht := List.mem_cons.mp ht
    · exact h
    · exact trans _ _ _ h ((List.pairwise_cons.mp hm).1 t ht)
  induction h with
  | stay h => exact hc h hm
  | pass h _ ih => exact hc h (ih hm)

end Store.Leads

/-- The values that hold no object and are no function. -/
def Value.isPlain : Value → Bool
  | .object _ | .native _ | .func _ _ => false
  | _ => true

/-- The causes of errors that no program can make. -/
def RuntimeError.Cause.isInternal : Cause → Bool
  | .unhandledNode | .undefinedOperator => true
  | _ => false

theorem Evaluator.gate_inputs_cause {gate : Gate} {vs : List Value} {cause : RuntimeError.Cause}
    (h : gate.inputs vs = .error cause) : cause.isInternal = false := by
  induction vs with
  | nil => cases h
  | cons v vs ih =>
      cases v with
      | bool b =>
          rw [Gate.inputs] at h
          cases hr : gate.inputs vs with
          | ok bs => rw [hr] at h; cases h
          | error e => rw [hr] at h; cases h; exact ih hr
      | _ => cases h; rfl

theorem Evaluator.gate_apply_cause {gate : Gate} {vs : List Value} {cause : RuntimeError.Cause}
    (h : gate.apply vs = .error cause) : cause.isInternal = false := by
  rw [Gate.apply] at h
  split at h
  · cases hr : gate.inputs vs with
    | ok bs => rw [hr] at h; cases h
    | error e => rw [hr] at h; cases h; exact gate_inputs_cause hr
  · cases h
    rfl

def Function.lines (function : Function) : List Nat :=
  (Stmt.func function.name function.parameters function.body).lines

def Outcome.Meets {α : Type} (P : α → Prop) (E : RuntimeError → Prop) : Outcome α → Prop
  | .ok a => P a
  | .error e => E e
  | .exhausted => True

/-- What may come up in an evaluation. Expressions are evaluated in scopes that are `inside`,
names are declared in those that are its `own`. -/
structure Discipline where
  fit : Store → Prop
  step : Store → Store → Prop
  inside : Store → Nat → Prop
  own : Store → Nat → Prop
  value : Store → Value → Prop
  line : Nat → Prop
  error : RuntimeError → Prop

namespace Discipline

open Eval (Course)
open Evaluator

variable {α β : Type}

/-- A change that is allowed, to a store that is. -/
def next (D : Discipline) (s t : Store) : Prop := D.step s t ∧ D.fit t

/-- From a store on, a computation keeps to the discipline all along its course, and its
value has a property in the store at its end. -/
def Holds (D : Discipline) (w : Store) (P : Store → α → Prop) {x : Eval α} (c : Course x) : Prop :=
  D.fit w → ∀ s : State, s.store = w →
    Store.Leads D.next w (c.stores s) (x s).2.store ∧
      (x s).1.Meets (P (x s).2.store) D.error

/-- What operations on the store have to respect. -/
structure Lawful (D : Discipline) (host : Host) : Prop where
  refl : ∀ s, D.step s s
  trans : ∀ {s t u}, D.step s t → D.step t u → D.step s u
  inside_later : ∀ {s t scope}, D.step s t → D.inside s scope → D.inside t scope
  own_later : ∀ {s t scope}, D.step s t → D.own s scope → D.own t scope
  value_later : ∀ {s t v}, D.step s t → D.value s v → D.value t v
  inside_of_own : ∀ {s scope}, D.own s scope → D.inside s scope
  value_plain : ∀ s (v : Value), v.isPlain = true → D.value s v
  value_func : ∀ {s function scope},
    D.value s (.func function scope) ↔ D.inside s scope ∧ ∀ line ∈ function.lines, D.line line
  error_fail : ∀ {line : Nat} {cause : RuntimeError.Cause} {detail : Text}, D.line line →
    cause.isInternal = false → D.error ⟨line, cause, detail⟩
  value_lookup : ∀ {s scope name v}, D.fit s → D.inside s scope → s.lookup scope name = .ok v →
    D.value s v
  next_declare : ∀ {s scope name v} (constant : Bool), D.fit s → D.own s scope → D.value s v →
    s.declarable scope name = .ok () → D.next s (s.bind scope name ⟨v, constant⟩)
  next_assign : ∀ {s scope owner name v}, D.fit s → D.inside s scope → D.value s v →
    s.assignable scope name = .ok owner → D.next s (s.bind owner name ⟨v, false⟩)
  next_newScope : ∀ {s parent}, D.fit s → D.inside s parent →
    D.next s (s.newScope (some parent)).2 ∧
      D.own (s.newScope (some parent)).2 (s.newScope (some parent)).1
  next_newObject : ∀ {s fields}, D.fit s → fields.keys.Nodup →
    (∀ entry ∈ fields.entries, D.value s entry.2) →
    D.next s (s.newObject fields).2 ∧
      D.value (s.newObject fields).2 (.object (s.newObject fields).1)
  value_field : ∀ {s object key v}, D.fit s → D.value s (.object object) →
    (s.fields object).get? key = some v → D.value s v
  next_setField : ∀ {s object key v}, D.fit s → D.value s (.object object) → D.value s v →
    D.next s (s.setField object key v)
  perform_holds : ∀ {s scope line name action arguments}, host.functions.get? name = some action →
    D.inside s scope → D.line line → (∀ v ∈ arguments, D.value s v) →
    D.Holds s D.value (performCourse scope line (action arguments))

variable {D : Discipline} {host : Host} {w : Store} {P : Store → α → Prop} {Q : Store → β → Prop}

namespace Lawful

variable (L : D.Lawful host)
include L

theorem next_trans (s t u : Store) (h : D.next s t) (h' : D.next t u) : D.next s u :=
  ⟨L.trans h.1 h'.1, h'.2⟩

theorem next_refl {s : Store} (h : D.fit s) : D.next s s := ⟨L.refl s, h⟩

theorem value_null : D.value w .null := L.value_plain _ _ rfl

theorem bind {x : Eval α} {f : α → Eval β} {c : Course x} {d : (a : α) → Course (f a)}
    (hx : D.Holds w P c)
    (hf : ∀ t a, D.fit t → D.step w t → P t a → D.Holds t Q (d a)) :
    D.Holds w Q (c.bind d) := by
  intro hw s hs
  obtain ⟨hl, hm⟩ := hx hw s hs
  have hn := hl.le L.next_trans
  simp only [Course.bind]
  match hr : x s with
  | (.ok a, t) =>
      rw [hr] at hl hm hn
      obtain ⟨hl', hm'⟩ := hf t.store a hn.2 hn.1 hm hn.2 t rfl
      rw [Eval.bind_ok hr]
      exact ⟨hl.append L.next_trans hl', hm'⟩
  | (.error e, t) =>
      rw [hr] at hl hm
      rw [Eval.bind_error hr, Eval.following, List.append_nil]
      exact ⟨hl, hm⟩
  | (.exhausted, t) =>
      rw [hr] at hl hm
      rw [Eval.bind_exhausted hr, Eval.following, List.append_nil]
      exact ⟨hl, hm⟩

theorem step {x : Eval α}
    (h : D.fit w → ∀ s : State, s.store = w →
      D.next w (x s).2.store ∧ (x s).1.Meets (P (x s).2.store) D.error) :
    D.Holds w P (.step x) := by
  intro hw s hs
  obtain ⟨hn, hm⟩ := h hw s hs
  exact ⟨.pass hn (.stay (L.next_refl hn.2)), hm⟩

theorem pure {a : α} (h : P w a) : D.Holds w P (.step (Pure.pure a : Eval α)) := by
  refine L.step fun hw s hs => ?_
  subst hs
  exact ⟨L.next_refl hw, h⟩

theorem exhausted : D.Holds w P (.step (Eval.exhausted : Eval α)) := by
  refine L.step fun hw s hs => ?_
  subst hs
  exact ⟨L.next_refl hw, trivial⟩

theorem fails {line : Nat} {cause : RuntimeError.Cause} {detail : Text} (hl : D.line line)
    (hc : cause.isInternal = false) :
    D.Holds w P (.step (Eval.fail line cause detail : Eval α)) := by
  refine L.step fun hw s hs => ?_
  subst hs
  exact ⟨L.next_refl hw, L.error_fail hl hc⟩

theorem onStore {line : Nat} {look : Store → Except BindingError α} {change : α → Store → Store}
    (hl : D.line line)
    (h : ∀ a, D.fit w → look w = .ok a → D.next w (change a w) ∧ P (change a w) a) :
    D.Holds w P (.step (Eval.onStore line look change)) := by
  refine L.step fun hw s hs => ?_
  subst hs
  cases hr : look s.store with
  | ok a =>
      simp only [Eval.onStore, hr]
      exact h a hw hr
  | error e =>
      simp only [Eval.onStore, hr]
      exact ⟨L.next_refl hw, L.error_fail hl rfl⟩

theorem giving {x : Eval α} {b : β} (hx : D.Holds w (fun t _ => Q t b) (.step x)) :
    D.Holds w Q (.step (x >>= fun _ => Pure.pure b)) := by
  refine L.step fun hw s hs => ?_
  obtain ⟨hl, hm⟩ := hx hw s hs
  have hn := hl.le L.next_trans
  match hr : x s with
  | (.ok a, t) =>
      rw [hr] at hm hn
      rw [Eval.bind_ok hr]
      exact ⟨hn, hm⟩
  | (.error e, t) =>
      rw [hr] at hm hn
      rw [Eval.bind_error hr]
      exact ⟨hn, hm⟩
  | (.exhausted, t) =>
      rw [hr] at hn
      rw [Eval.bind_exhausted hr]
      exact ⟨hn, trivial⟩

theorem lookup_holds {scope : Nat} {name : Name} (hi : D.inside w scope) (hl : D.line name.line) :
    D.Holds w D.value (.step (lookup scope name)) :=
  L.onStore hl fun _ hw hr => ⟨L.next_refl hw, L.value_lookup hw hi hr⟩

theorem declare_holds {scope : Nat} {name : Name} {v : Value} (constant : Bool)
    (ho : D.own w scope) (hl : D.line name.line) (hv : D.value w v) :
    D.Holds w D.value (.step (declare scope name v constant)) := by
  refine L.giving (L.onStore hl fun _ hw hr => ?_)
  have hn := L.next_declare constant hw ho hv hr
  exact ⟨hn, L.value_later hn.1 hv⟩

theorem assign_holds {scope : Nat} {name : Name} {v : Value} (hi : D.inside w scope)
    (hl : D.line name.line) (hv : D.value w v) :
    D.Holds w D.value (.step (assign scope name v)) := by
  refine L.giving (L.onStore hl fun _ hw hr => ?_)
  have hn := L.next_assign hw hi hv hr
  exact ⟨hn, L.value_later hn.1 hv⟩

theorem newScope_holds {parent : Nat} (hi : D.inside w parent) :
    D.Holds w D.own (.step (newScope (some parent))) := by
  refine L.step fun hw s hs => ?_
  subst hs
  exact L.next_newScope hw hi

theorem newObject_holds {fields : Table Value} (hk : fields.keys.Nodup)
    (hf : ∀ entry ∈ fields.entries, D.value w entry.2) :
    D.Holds w D.value (.step (newObject fields)) := by
  refine L.step fun hw s hs => ?_
  subst hs
  exact L.next_newObject hw hk hf

theorem getField_holds {object : Nat} {key : Text} (ho : D.value w (.object object)) :
    D.Holds w D.value (.step (getField object key)) := by
  refine L.step fun hw s hs => ?_
  subst hs
  refine ⟨L.next_refl hw, ?_⟩
  show D.value s.store (((s.store.fields object).get? key).getD .null)
  cases hk : (s.store.fields object).get? key with
  | none => exact L.value_null
  | some v => exact L.value_field hw ho hk

theorem setField_holds {object : Nat} {key : Text} {v : Value} (ho : D.value w (.object object))
    (hv : D.value w v) : D.Holds w D.value (.step (setField object key v)) := by
  refine L.step fun hw s hs => ?_
  subst hs
  have hn : D.next s.store (s.store.setField object key v) := L.next_setField hw ho hv
  exact ⟨hn, L.value_later hn.1 hv⟩

theorem asObject_holds {line : Nat} {v : Value} (hl : D.line line) (hv : D.value w v) :
    D.Holds w (fun s id => D.value s (.object id)) (.step (asObject line v)) := by
  cases v with
  | object id => exact L.pure hv
  | _ => exact L.fails hl rfl

theorem asKey_holds {line : Nat} {v : Value} (hl : D.line line) :
    D.Holds w (fun _ _ => True) (.step (asKey line v)) := by
  cases v with
  | text t => exact L.pure trivial
  | number n => exact L.pure trivial
  | _ => exact L.fails hl rfl

theorem asCondition_holds {line : Nat} {v : Value} (hl : D.line line) :
    D.Holds w (fun _ _ => True) (.step (asCondition line v)) := by
  cases v with
  | bool b => exact L.pure trivial
  | _ => exact L.fails hl rfl

theorem applyOperator_holds {op : Operator} {line : Nat} {l r : Value} (hl : D.line line) :
    D.Holds w D.value (.step (applyOperator op line l r)) := by
  cases l with
  | number x =>
      cases r with
      | number y => exact L.pure (L.value_plain _ _ rfl)
      | _ => exact L.fails hl rfl
  | _ => exact L.fails hl rfl

theorem printLine_holds {line : Nat} {text : Text} (hl : D.line line) :
    D.Holds w D.value (.step (printLine host line text)) := by
  refine L.step fun hw s hs => ?_
  subst hs
  rw [printLine]
  split
  · exact ⟨L.next_refl hw, L.value_null⟩
  · exact ⟨L.next_refl hw, L.error_fail hl rfl⟩

theorem native_holds {scope line : Nat} {arguments : List Value} (function : Native)
    (hi : D.inside w scope) (hl : D.line line) (hv : ∀ v ∈ arguments, D.value w v) :
    D.Holds w D.value (nativeCourse host scope line arguments function) := by
  cases function with
  | print => exact fun hw s hs => L.printLine_holds hl hw s hs
  | time =>
      refine L.step fun hw s hs => ?_
      subst hs
      exact ⟨L.next_refl hw, L.value_plain _ _ rfl⟩
  | gate gate =>
      refine L.step fun hw s hs => ?_
      subst hs
      simp only [callNative]
      cases ha : gate.apply arguments with
      | ok v =>
          obtain ⟨b, rfl⟩ := gate_apply_bool ha
          exact ⟨L.next_refl hw, L.value_plain _ _ rfl⟩
      | error cause =>
          exact ⟨L.next_refl hw, L.error_fail hl (gate_apply_cause ha)⟩
  | host name =>
      cases ha : host.functions.get? name with
      | none =>
          intro hw s hs
          subst hs
          simp only [nativeCourse, callNative, ha]
          exact L.pure L.value_null hw s rfl
      | some action =>
          intro hw s hs
          simp only [nativeCourse, callNative, ha]
          exact L.perform_holds ha hi hl hv hw s hs

theorem begin_holds (c : Call) : D.Holds w (fun _ _ => True) (.call host c) := by
  have hc : D.Holds w (fun _ _ => True) (.step (Eval.trace host c.event)) := by
    refine L.step fun hw s hs => ?_
    have ht : (s.trace host c.event).store = w := by
      rw [State.trace]
      split <;> exact hs
    show D.next w (s.trace host c.event).store ∧ True
    rw [ht]
    exact ⟨L.next_refl hw, trivial⟩
  exact fun hw s hs => hc hw s hs

theorem parameters_holds {scope : Nat} {names : List Name} {values : List Value}
    (ho : D.own w scope) (hl : ∀ name ∈ names, D.line name.line)
    (hv : ∀ v ∈ values, D.value w v) :
    D.Holds w (fun _ _ => True) (parametersCourse scope names values) := by
  induction names generalizing values w with
  | nil => exact L.pure trivial
  | cons name names ih =>
      rw [List.forall_mem_cons] at hl
      cases values with
      | nil =>
          refine L.bind (L.declare_holds false ho hl.1 L.value_null) ?_
          exact fun t _ _ hs _ => ih (L.own_later hs ho) hl.2 nofun
      | cons value values =>
          rw [List.forall_mem_cons] at hv
          refine L.bind (L.declare_holds false ho hl.1 hv.1) ?_
          exact fun t _ _ hs _ => ih (L.own_later hs ho) hl.2
            fun v hm => L.value_later hs (hv.2 v hm)

end Lawful

/-- With this fuel, every evaluation keeps to the discipline. -/
structure HoldsAt (D : Discipline) (host : Host) (n : Nat) : Prop where
  expr : ∀ {w scope} {e : Expr}, D.inside w scope → (∀ line ∈ e.lines, D.line line) →
    D.Holds w D.value (exprCourse host n scope e)
  each : ∀ {w scope} {es : List Expr}, D.inside w scope →
    (∀ line ∈ Expr.linesEach es, D.line line) →
    D.Holds w (fun s vs => ∀ v ∈ vs, D.value s v) (eachCourse host n scope es)
  properties : ∀ {w scope} {ps : List Property} {fields : Table Value}, D.inside w scope →
    (∀ line ∈ Property.linesEach ps, D.line line) → fields.keys.Nodup →
    (∀ entry ∈ fields.entries, D.value w entry.2) →
    D.Holds w (fun s fields => fields.keys.Nodup ∧ ∀ entry ∈ fields.entries, D.value s entry.2)
      (propertiesCourse host n scope ps fields)
  call : ∀ {w function closure} {arguments : List Value}, D.value w (.func function closure) →
    (∀ v ∈ arguments, D.value w v) →
    D.Holds w D.value (callCourse host n function closure arguments)
  stmt : ∀ {w scope} {s : Stmt}, D.own w scope → (∀ line ∈ s.lines, D.line line) →
    D.Holds w D.value (stmtCourse host n scope s)
  clauses : ∀ {w scope line} {cs : List Clause} {otherwise : List Stmt}, D.inside w scope →
    D.line line → (∀ line ∈ Clause.linesEach cs, D.line line) →
    (∀ line ∈ Stmt.linesEach otherwise, D.line line) →
    D.Holds w D.value (clausesCourse host n scope line cs otherwise)
  block : ∀ {w scope last} {ss : List Stmt}, D.own w scope → D.value w last →
    (∀ line ∈ Stmt.linesEach ss, D.line line) →
    D.Holds w D.value (blockCourse host n scope last ss)

namespace HoldsAt

variable {n : Nat}

theorem zero (L : D.Lawful host) : HoldsAt D host 0 where
  expr _ _ := L.exhausted
  each _ _ := L.exhausted
  properties _ _ _ _ := L.exhausted
  call _ _ := L.exhausted
  stmt _ _ := L.exhausted
  clauses _ _ _ _ := L.exhausted
  block _ _ _ := L.exhausted

variable (L : D.Lawful host) (h : HoldsAt D host n)
include L h

theorem expr_succ {scope : Nat} {e : Expr} (hi : D.inside w scope)
    (hl : ∀ line ∈ e.lines, D.line line) :
    D.Holds w D.value (exprCourse host (n + 1) scope e) := by
  cases e with
  | assign target line value =>
      simp only [Expr.lines, List.forall_mem_cons, List.forall_mem_append] at hl
      obtain ⟨hl, ht, hv⟩ := hl
      refine L.bind (h.expr hi hv) fun s v _ hs hv => ?_
      have hi := L.inside_later hs hi
      cases target with
      | name name => exact L.assign_holds hi (ht _ (List.mem_singleton_self _)) hv
      | member object line key =>
          simp only [Expr.lines, List.forall_mem_cons] at ht
          refine L.bind (h.expr hi ht.2.2) fun t o _ hs ho => ?_
          refine L.bind (L.asObject_holds ht.1 ho) fun u id _ hs' ho => ?_
          exact L.setField_holds ho (L.value_later (L.trans hs hs') hv)
      | index object line key =>
          simp only [Expr.lines, List.forall_mem_cons, List.forall_mem_append] at ht
          obtain ⟨hl, ho, hk⟩ := ht
          refine L.bind (h.expr hi ho) fun t o _ ht ho => ?_
          refine L.bind (L.asObject_holds hl ho) fun u id _ hu ho => ?_
          have hu := L.trans ht hu
          refine L.bind (h.expr (L.inside_later hu hi) hk) fun x k _ hx _ => ?_
          refine L.bind (L.asKey_holds hl) fun y key _ hy _ => ?_
          have hy := L.trans hx hy
          exact L.setField_holds (L.value_later hy ho) (L.value_later (L.trans hu hy) hv)
      | _ => exact L.fails hl rfl
  | binary left op line right =>
      simp only [Expr.lines, List.forall_mem_cons, List.forall_mem_append] at hl
      obtain ⟨hl, hx, hy⟩ := hl
      refine L.bind (h.expr hi hx) fun s l _ hs _ => ?_
      refine L.bind (h.expr (L.inside_later hs hi) hy) fun t r _ _ _ => ?_
      exact L.applyOperator_holds hl
  | call callee line arguments =>
      simp only [Expr.lines, List.forall_mem_cons, List.forall_mem_append] at hl
      obtain ⟨hl, hf, ha⟩ := hl
      refine L.bind (h.expr hi hf) fun s f _ hs hf => ?_
      have hi := L.inside_later hs hi
      refine L.bind (h.each hi ha) fun t vs _ ht hv => ?_
      cases f with
      | native function => exact L.native_holds function (L.inside_later ht hi) hl hv
      | func function closure => exact h.call (L.value_later ht hf) hv
      | _ => exact L.fails hl rfl
  | member object line key =>
      simp only [Expr.lines, List.forall_mem_cons] at hl
      refine L.bind (h.expr hi hl.2.2) fun s o _ _ ho => ?_
      exact L.bind (L.asObject_holds hl.1 ho) fun t id _ _ ho => L.getField_holds ho
  | index object line key =>
      simp only [Expr.lines, List.forall_mem_cons, List.forall_mem_append] at hl
      obtain ⟨hl, ho, hk⟩ := hl
      refine L.bind (h.expr hi ho) fun s o _ hs ho => ?_
      refine L.bind (L.asObject_holds hl ho) fun t id _ ht ho => ?_
      refine L.bind (h.expr (L.inside_later (L.trans hs ht) hi) hk) fun u k _ hu _ => ?_
      refine L.bind (L.asKey_holds hl) fun x key _ hx _ => ?_
      exact L.getField_holds (L.value_later (L.trans hu hx) ho)
  | name name => exact L.lookup_holds hi (hl _ (List.mem_singleton_self _))
  | number value => exact L.pure (L.value_plain _ _ rfl)
  | text value => exact L.pure (L.value_plain _ _ rfl)
  | bool value => exact L.pure (L.value_plain _ _ rfl)
  | object properties =>
      exact L.bind (h.properties hi hl .nil nofun) fun s fields _ _ hf =>
        L.newObject_holds hf.1 hf.2

theorem each_succ {scope : Nat} {es : List Expr} (hi : D.inside w scope)
    (hl : ∀ line ∈ Expr.linesEach es, D.line line) :
    D.Holds w (fun s vs => ∀ v ∈ vs, D.value s v) (eachCourse host (n + 1) scope es) := by
  cases es with
  | nil => exact L.pure nofun
  | cons e rest =>
      simp only [Expr.linesEach, List.forall_mem_append] at hl
      refine L.bind (h.expr hi hl.1) fun s v _ hs hv => ?_
      refine L.bind (h.each (L.inside_later hs hi) hl.2) fun t vs _ ht hvs => ?_
      exact L.pure (List.forall_mem_cons.mpr ⟨L.value_later ht hv, hvs⟩)

theorem properties_succ {scope : Nat} {ps : List Property} {fields : Table Value}
    (hi : D.inside w scope) (hl : ∀ line ∈ Property.linesEach ps, D.line line)
    (hk : fields.keys.Nodup) (hf : ∀ entry ∈ fields.entries, D.value w entry.2) :
    D.Holds w (fun s fields => fields.keys.Nodup ∧ ∀ entry ∈ fields.entries, D.value s entry.2)
      (propertiesCourse host (n + 1) scope ps fields) := by
  match ps with
  | [] => exact L.pure ⟨hk, hf⟩
  | .shorthand key :: rest =>
      simp only [Property.linesEach, Property.lines, List.forall_mem_append,
        List.forall_mem_singleton] at hl
      refine L.bind (L.lookup_holds hi hl.1) fun s v _ hs hv => ?_
      refine h.properties (L.inside_later hs hi) hl.2 (Table.nodup_keys_set hk ..)
        fun entry he => ?_
      obtain he | rfl := Table.mem_put he
      · exact L.value_later hs (hf entry he)
      · exact hv
  | .pair key value :: rest =>
      simp only [Property.linesEach, Property.lines, List.forall_mem_append,
        List.forall_mem_cons] at hl
      refine L.bind (h.expr hi hl.1.2) fun s v _ hs hv => ?_
      refine h.properties (L.inside_later hs hi) hl.2 (Table.nodup_keys_set hk ..)
        fun entry he => ?_
      obtain he | rfl := Table.mem_put he
      · exact L.value_later hs (hf entry he)
      · exact hv

theorem call_succ {function : Function} {closure : Nat} {arguments : List Value}
    (hf : D.value w (.func function closure)) (hv : ∀ v ∈ arguments, D.value w v) :
    D.Holds w D.value (callCourse host (n + 1) function closure arguments) := by
  obtain ⟨hi, hl⟩ := L.value_func.mp hf
  simp only [Function.lines, Stmt.lines, List.forall_mem_cons, List.forall_mem_append,
    List.forall_mem_map] at hl
  obtain ⟨-, hp, hb⟩ := hl
  unfold callCourse
  refine L.bind (L.begin_holds _) fun s _ _ hs _ => ?_
  refine L.bind (L.newScope_holds (L.inside_later hs hi)) fun t scope _ ht ho => ?_
  have ht := L.trans hs ht
  refine L.bind (L.parameters_holds ho hp fun v hm => L.value_later ht (hv v hm)) ?_
  exact fun u _ _ hu _ => h.block (L.own_later hu ho) L.value_null hb

theorem stmt_succ {scope : Nat} {s : Stmt} (ho : D.own w scope)
    (hl : ∀ line ∈ s.lines, D.line line) :
    D.Holds w D.value (stmtCourse host (n + 1) scope s) := by
  have hi := L.inside_of_own ho
  cases s with
  | expr e => exact h.expr hi hl
  | declare constant name type value =>
      cases value with
      | none =>
          exact L.declare_holds constant ho (hl _ (List.mem_singleton_self _)) L.value_null
      | some e =>
          simp only [Stmt.lines, List.forall_mem_cons] at hl
          refine L.bind (h.expr hi hl.2) fun t v _ ht hv => ?_
          exact L.declare_holds constant (L.own_later ht ho) hl.1 hv
  | func name parameters body =>
      exact L.declare_holds true ho (hl _ (List.mem_cons_self ..)) (L.value_func.mpr ⟨hi, hl⟩)
  | branch line first others otherwise =>
      simp only [Stmt.lines, List.forall_mem_cons, List.forall_mem_append] at hl
      obtain ⟨hl, ⟨hf, ho⟩, he⟩ := hl
      exact h.clauses hi hl (List.forall_mem_append.mpr ⟨hf, ho⟩) he

theorem clauses_succ {scope line : Nat} {cs : List Clause} {otherwise : List Stmt}
    (hi : D.inside w scope) (hl : D.line line) (hc : ∀ line ∈ Clause.linesEach cs, D.line line)
    (ho : ∀ line ∈ Stmt.linesEach otherwise, D.line line) :
    D.Holds w D.value (clausesCourse host (n + 1) scope line cs otherwise) := by
  match cs, otherwise with
  | [], [] => exact L.pure L.value_null
  | [], s :: ss =>
      refine L.bind (L.newScope_holds hi) fun t inner _ _ hn => ?_
      exact h.block hn L.value_null ho
  | .mk condition body :: rest, otherwise =>
      simp only [Clause.linesEach, Clause.lines, List.forall_mem_append] at hc
      obtain ⟨⟨hx, hb⟩, hr⟩ := hc
      refine L.bind (h.expr hi hx) fun s v _ hs _ => ?_
      refine L.bind (L.asCondition_holds hl) fun t holds _ ht _ => ?_
      have hi := L.inside_later (L.trans hs ht) hi
      cases holds with
      | true =>
          refine L.bind (L.newScope_holds hi) fun t inner _ _ hn => ?_
          exact h.block hn L.value_null hb
      | false => exact h.clauses hi hl hr ho

theorem block_succ {scope : Nat} {last : Value} {ss : List Stmt} (ho : D.own w scope)
    (hv : D.value w last) (hl : ∀ line ∈ Stmt.linesEach ss, D.line line) :
    D.Holds w D.value (blockCourse host (n + 1) scope last ss) := by
  cases ss with
  | nil => exact L.pure hv
  | cons s rest =>
      simp only [Stmt.linesEach, List.forall_mem_append] at hl
      refine L.bind (h.stmt ho hl.1) fun t v _ ht hv => ?_
      exact h.block (L.own_later ht ho) hv hl.2

theorem succ : HoldsAt D host (n + 1) where
  expr := h.expr_succ L
  each := h.each_succ L
  properties := h.properties_succ L
  call := h.call_succ L
  stmt := h.stmt_succ L
  clauses := h.clauses_succ L
  block := h.block_succ L

end HoldsAt

theorem Lawful.holdsAt (L : D.Lawful host) (n : Nat) : HoldsAt D host n := by
  induction n with
  | zero => exact .zero L
  | succ n ih => exact ih.succ L

end Discipline

end Scripting
