import Scripting.Eval

/-!
Fuel. What an evaluation ends with does not change when it is given more fuel, so one can
speak of how it ends. Statements in a row end as the first of them do, if these end in an
error, and else as the others do after them.
-/

namespace Scripting

namespace Eval

variable {α β : Type} {x y : Eval α}

/-- What the first computation ends with, the second one ends with too. -/
def Grows (x y : Eval α) : Prop := ∀ s, (x s).1 ≠ .exhausted → y s = x s

theorem Grows.refl (x : Eval α) : Grows x x := fun _ _ => rfl

theorem Grows.exhausted (y : Eval α) : Grows Eval.exhausted y := fun _ h => absurd rfl h

theorem bind_ok {f : α → Eval β} {s s' : State} {a : α} (h : x s = (.ok a, s')) :
    (x >>= f) s = f a s' := by
  simp only [Bind.bind, Eval.bind, h]

theorem bind_error {f : α → Eval β} {s s' : State} {e : RuntimeError}
    (h : x s = (.error e, s')) : (x >>= f) s = (.error e, s') := by
  simp only [Bind.bind, Eval.bind, h]

theorem bind_exhausted {f : α → Eval β} {s s' : State} (h : x s = (.exhausted, s')) :
    (x >>= f) s = (.exhausted, s') := by
  simp only [Bind.bind, Eval.bind, h]

theorem bind_eq_ok {f : α → Eval β} {s t : State} {b : β}
    (h : (x >>= f) s = (.ok b, t)) : ∃ a u, x s = (.ok a, u) ∧ f a u = (.ok b, t) := by
  generalize hx : x s = r
  obtain ⟨o, u⟩ := r
  cases o with
  | ok a => exact ⟨a, u, rfl, (bind_ok hx).symm.trans h⟩
  | error e =>
      rw [bind_error hx] at h
      cases h
  | exhausted =>
      rw [bind_exhausted hx] at h
      cases h

theorem bind_assoc {γ : Type} (x : Eval α) (f : α → Eval β) (g : β → Eval γ) :
    x >>= f >>= g = x >>= fun a => f a >>= g := by
  funext s
  generalize hx : x s = r
  obtain ⟨o, t⟩ := r
  cases o with
  | ok a =>
      rw [bind_ok hx]
      simp only [Bind.bind, Eval.bind, hx]
  | error e => rw [bind_error hx, bind_error (bind_error hx)]
  | exhausted => rw [bind_exhausted hx, bind_exhausted (bind_exhausted hx)]

theorem snd_bind_pure (x : Eval α) (f : α → β) (s : State) :
    ((x >>= fun a => Pure.pure (f a)) s).2 = (x s).2 := by
  generalize hx : x s = r
  obtain ⟨o, t⟩ := r
  cases o with
  | ok a =>
      rw [bind_ok hx]
      rfl
  | error e => rw [bind_error hx]
  | exhausted => rw [bind_exhausted hx]

theorem Grows.bind {f g : α → Eval β} (hx : Grows x y) (hf : ∀ a, Grows (f a) (g a)) :
    Grows (x >>= f) (y >>= g) := by
  intro s h
  have hy := hx s
  match hs : x s with
  | (.ok a, s') =>
      rw [hs] at hy
      rw [bind_ok hs] at h ⊢
      rw [bind_ok (hy nofun)]
      exact hf a s' h
  | (.error e, s') =>
      rw [hs] at hy
      rw [bind_error hs, bind_error (hy nofun)]
  | (.exhausted, s') =>
      rw [bind_exhausted hs] at h
      exact absurd rfl h

/-- More fuel does not change how a computation ends. -/
def Steady (x : Nat → Eval α) : Prop := ∀ n k, Grows (x n) (x (n + k))

/-- How a computation ends, if it ends with enough fuel. -/
def Ends (x : Nat → Eval α) (s : State) (r : Outcome α × State) : Prop :=
  ∃ n, x n s = r ∧ r.1 ≠ .exhausted

/-- After a value the one relation holds with what comes next; an error is the end. -/
def Then (P : Outcome α × State → Prop) (Q : α → State → Outcome β × State → Prop)
    (r : Outcome β × State) : Prop :=
  (∃ a s, P (.ok a, s) ∧ Q a s r) ∨ ∃ e s, P (.error e, s) ∧ r = (.error e, s)

section
variable {x : Nat → Eval α} {s : State} {r r' : Outcome α × State}

theorem Ends.more (hx : Steady x) (h : Ends x s r) : ∃ n, ∀ k, x (n + k) s = r := by
  obtain ⟨n, rfl, hr⟩ := h
  exact ⟨n, fun k => hx n k s hr⟩

theorem Ends.unique (hx : Steady x) (h : Ends x s r) (h' : Ends x s r') : r = r' := by
  obtain ⟨n, hn⟩ := h.more hx
  obtain ⟨m, hm⟩ := h'.more hx
  rw [← hn m, ← hm n, Nat.add_comm]

theorem ends_succ (hx : Steady x) : Ends (fun n => x (n + 1)) s r ↔ Ends x s r := by
  constructor
  · rintro ⟨n, h⟩
    exact ⟨n + 1, h⟩
  · intro h
    obtain ⟨n, hn⟩ := h.more hx
    obtain ⟨-, -, hr⟩ := h
    exact ⟨n, hn 1, hr⟩

theorem Ends.cases (h : Ends x s r) :
    (∃ a s', r = (.ok a, s')) ∨ ∃ e s', r = (.error e, s') := by
  obtain ⟨n, -, hr⟩ := h
  match r, hr with
  | (.ok a, s'), _ => exact .inl ⟨a, s', rfl⟩
  | (.error e, s'), _ => exact .inr ⟨e, s', rfl⟩
  | (.exhausted, s'), hr => exact absurd rfl hr

theorem ends_bind {f : Nat → α → Eval β} {r : Outcome β × State} (hx : Steady x)
    (hf : ∀ a, Steady fun n => f n a) :
    Ends (fun n => x n >>= f n) s r ↔
      Then (Ends x s) (fun a s' => Ends (fun n => f n a) s') r := by
  constructor
  · rintro ⟨n, hn, hr⟩
    subst hn
    dsimp only at hr ⊢
    match hs : x n s with
    | (.ok a, s') =>
        rw [bind_ok hs] at hr ⊢
        exact .inl ⟨a, s', ⟨n, hs, nofun⟩, n, rfl, hr⟩
    | (.error e, s') =>
        rw [bind_error hs]
        exact .inr ⟨e, s', ⟨n, hs, nofun⟩, rfl⟩
    | (.exhausted, s') =>
        rw [bind_exhausted hs] at hr
        exact absurd rfl hr
  · rintro (⟨a, s', ha, hb⟩ | ⟨e, s', he, rfl⟩)
    · obtain ⟨n, hn⟩ := ha.more hx
      obtain ⟨m, hm⟩ := hb.more (hf a)
      obtain ⟨-, -, hr⟩ := hb
      exact ⟨n + m, (bind_ok (hn m)).trans (Nat.add_comm m n ▸ hm n), hr⟩
    · obtain ⟨n, hn, -⟩ := he
      exact ⟨n, bind_error hn, nofun⟩

end

theorem then_assoc {γ : Type} {P : Outcome α × State → Prop}
    {Q : α → State → Outcome β × State → Prop} {R : β → State → Outcome γ × State → Prop}
    {r : Outcome γ × State} :
    Then (Then P Q) R r ↔ Then P (fun a s => Then (Q a s) R) r := by
  constructor
  · rintro (⟨b, s, ⟨a, s', hp, hq⟩ | ⟨e, s', hp, he⟩, hr⟩ |
      ⟨e, s, ⟨a, s', hp, hq⟩ | ⟨e', s', hp, he⟩, hr⟩)
    · exact .inl ⟨a, s', hp, .inl ⟨b, s, hq, hr⟩⟩
    · cases he
    · exact .inl ⟨a, s', hp, .inr ⟨e, s, hq, hr⟩⟩
    · cases he
      exact .inr ⟨e, s, hp, hr⟩
  · rintro (⟨a, s, hp, ⟨b, s', hq, hr⟩ | ⟨e, s', hq, hr⟩⟩ | ⟨e, s, hp, hr⟩)
    · exact .inl ⟨b, s', .inl ⟨a, s, hp, hq⟩, hr⟩
    · exact .inr ⟨e, s', .inl ⟨a, s, hp, hq⟩, hr⟩
    · exact .inr ⟨e, s, .inr ⟨e, s, hp, rfl⟩, hr⟩

end Eval

namespace Evaluator

section
variable {s : State} {scope owner : Nat} {name : Name} {value : Value} {constant : Bool}
  {e : BindingError}

theorem declare_ok (h : s.store.declarable scope name.text = .ok ()) :
    declare scope name value constant s =
      (.ok value, { s with store := s.store.bind scope name.text ⟨value, constant⟩ }) := by
  refine (Eval.bind_ok (a := ()) ?_).trans rfl
  simp only [Eval.onStore, h]

theorem declare_error (h : s.store.declarable scope name.text = .error e) :
    declare scope name value constant s = (.error ⟨name.line, .binding e, []⟩, s) := by
  refine Eval.bind_error ?_
  simp only [Eval.onStore, h]

theorem assign_ok (h : s.store.assignable scope name.text = .ok owner) :
    assign scope name value s =
      (.ok value, { s with store := s.store.bind owner name.text ⟨value, false⟩ }) := by
  refine (Eval.bind_ok (a := owner) ?_).trans rfl
  simp only [Eval.onStore, h]

theorem assign_error (h : s.store.assignable scope name.text = .error e) :
    assign scope name value s = (.error ⟨name.line, .binding e, []⟩, s) := by
  refine Eval.bind_error ?_
  simp only [Eval.onStore, h]

end


open Eval

/-- Every evaluation with the first amount of fuel grows into the one with the second. -/
structure Grown (host : Host) (n m : Nat) : Prop where
  expr : ∀ scope e, Grows (evalExpr host n scope e) (evalExpr host m scope e)
  each : ∀ scope es, Grows (evalEach host n scope es) (evalEach host m scope es)
  properties : ∀ scope ps fields,
    Grows (evalProperties host n scope ps fields) (evalProperties host m scope ps fields)
  call : ∀ function closure arguments, Grows (callFunction host n function closure arguments)
    (callFunction host m function closure arguments)
  stmt : ∀ scope s, Grows (execStmt host n scope s) (execStmt host m scope s)
  clauses : ∀ scope line cs otherwise, Grows (execClauses host n scope line cs otherwise)
    (execClauses host m scope line cs otherwise)
  block : ∀ scope last ss, Grows (execBlock host n scope last ss) (execBlock host m scope last ss)

variable {host : Host} {n m : Nat}

theorem Grown.zero (host : Host) (m : Nat) : Grown host 0 m where
  expr := by intro scope e; rw [evalExpr]; exact .exhausted _
  each := by intro scope es; rw [evalEach]; exact .exhausted _
  properties := by intro scope ps fields; rw [evalProperties]; exact .exhausted _
  call := by intro function closure arguments; rw [callFunction]; exact .exhausted _
  stmt := by intro scope s; rw [execStmt]; exact .exhausted _
  clauses := by intro scope line cs otherwise; rw [execClauses]; exact .exhausted _
  block := by intro scope last ss; rw [execBlock]; exact .exhausted _

namespace Grown

variable (h : Grown host n m)
include h

theorem expr_succ (scope : Nat) (e : Expr) :
    Grows (evalExpr host (n + 1) scope e) (evalExpr host (m + 1) scope e) := by
  cases e with
  | assign target line value =>
      simp only [evalExpr]
      refine (h.expr scope value).bind fun v => ?_
      cases target with
      | member object line key =>
          exact (h.expr scope object).bind fun o => .refl _
      | index object line key =>
          exact (h.expr scope object).bind fun o => (Grows.refl _).bind fun id =>
            (h.expr scope key).bind fun k => .refl _
      | _ => exact .refl _
  | binary left op line right =>
      simp only [evalExpr]
      exact (h.expr scope left).bind fun l => (h.expr scope right).bind fun r => .refl _
  | call callee line arguments =>
      simp only [evalExpr]
      refine (h.expr scope callee).bind fun f => (h.each scope arguments).bind fun vs => ?_
      cases f with
      | func function closure => exact h.call function closure vs
      | _ => exact .refl _
  | member object line key =>
      simp only [evalExpr]
      exact (h.expr scope object).bind fun o => .refl _
  | index object line key =>
      simp only [evalExpr]
      exact (h.expr scope object).bind fun o => (Grows.refl _).bind fun id =>
        (h.expr scope key).bind fun k => .refl _
  | object properties =>
      simp only [evalExpr]
      exact (h.properties scope properties .empty).bind fun fields => .refl _
  | _ =>
      simp only [evalExpr]
      exact .refl _

theorem each_succ (scope : Nat) (es : List Expr) :
    Grows (evalEach host (n + 1) scope es) (evalEach host (m + 1) scope es) := by
  cases es with
  | nil => simp only [evalEach]; exact .refl _
  | cons e rest =>
      simp only [evalEach]
      exact (h.expr scope e).bind fun v => (h.each scope rest).bind fun vs => .refl _

theorem properties_succ (scope : Nat) (ps : List Property) (fields : Table Value) :
    Grows (evalProperties host (n + 1) scope ps fields)
      (evalProperties host (m + 1) scope ps fields) := by
  match ps with
  | [] => simp only [evalProperties]; exact .refl _
  | .shorthand key :: rest =>
      simp only [evalProperties]
      exact (Grows.refl _).bind fun v => h.properties scope rest _
  | .pair key value :: rest =>
      simp only [evalProperties]
      exact (h.expr scope value).bind fun v => h.properties scope rest _

theorem call_succ (function : Function) (closure : Nat) (arguments : List Value) :
    Grows (callFunction host (n + 1) function closure arguments)
      (callFunction host (m + 1) function closure arguments) := by
  simp only [callFunction]
  exact (Grows.refl _).bind fun _ => (Grows.refl _).bind fun scope => (Grows.refl _).bind fun _ =>
    h.block scope .null function.body

theorem stmt_succ (scope : Nat) (s : Stmt) :
    Grows (execStmt host (n + 1) scope s) (execStmt host (m + 1) scope s) := by
  cases s with
  | expr e => simp only [execStmt]; exact h.expr scope e
  | declare constant name type value =>
      cases value with
      | none => simp only [execStmt]; exact .refl _
      | some e =>
          simp only [execStmt]
          exact (h.expr scope e).bind fun v => .refl _
  | func name parameters body => simp only [execStmt]; exact .refl _
  | branch line first others otherwise =>
      simp only [execStmt]
      exact h.clauses scope line (first :: others) otherwise

theorem clauses_succ (scope line : Nat) (cs : List Clause) (otherwise : List Stmt) :
    Grows (execClauses host (n + 1) scope line cs otherwise)
      (execClauses host (m + 1) scope line cs otherwise) := by
  match cs, otherwise with
  | [], [] => simp only [execClauses]; exact .refl _
  | [], s :: ss =>
      simp only [execClauses]
      exact (Grows.refl _).bind fun inner => h.block inner .null (s :: ss)
  | ⟨condition, body⟩ :: rest, otherwise =>
      simp only [execClauses]
      refine (h.expr scope condition).bind fun v => (Grows.refl _).bind fun holds => ?_
      cases holds with
      | true => exact (Grows.refl _).bind fun inner => h.block inner .null body
      | false => exact h.clauses scope line rest otherwise

theorem block_succ (scope : Nat) (last : Value) (ss : List Stmt) :
    Grows (execBlock host (n + 1) scope last ss) (execBlock host (m + 1) scope last ss) := by
  cases ss with
  | nil => simp only [execBlock]; exact .refl _
  | cons s rest =>
      simp only [execBlock]
      exact (h.stmt scope s).bind fun v => h.block scope v rest

theorem succ : Grown host (n + 1) (m + 1) where
  expr := h.expr_succ
  each := h.each_succ
  properties := h.properties_succ
  call := h.call_succ
  stmt := h.stmt_succ
  clauses := h.clauses_succ
  block := h.block_succ

end Grown

theorem grown (host : Host) (n k : Nat) : Grown host n (n + k) := by
  induction n with
  | zero => exact .zero host _
  | succ n ih => rw [Nat.succ_add]; exact ih.succ

section
variable (host : Host) (scope : Nat)

theorem stmt_steady (s : Stmt) : Steady fun n => execStmt host n scope s :=
  fun n k => (grown host n k).stmt scope s

theorem block_steady (last : Value) (ss : List Stmt) :
    Steady fun n => execBlock host n scope last ss :=
  fun n k => (grown host n k).block scope last ss

theorem block_last {ss : List Stmt} (h : ss ≠ []) (last last' : Value) :
    (fun n => execBlock host n scope last ss) = fun n => execBlock host n scope last' ss := by
  funext n
  cases ss with
  | nil => exact absurd rfl h
  | cons s rest => cases n <;> rw [execBlock, execBlock]

theorem block_nil (last : Value) (s : State) (r : Outcome Value × State) :
    Ends (fun n => execBlock host n scope last []) s r ↔ r = (.ok last, s) := by
  rw [← ends_succ (block_steady host scope last [])]
  constructor
  · rintro ⟨n, h, -⟩
    simp only [execBlock] at h
    exact h.symm
  · rintro rfl
    refine ⟨0, ?_, ?_⟩
    · simp only [execBlock]
      rfl
    · intro h
      cases h

theorem block_cons (last : Value) (first : Stmt) (rest : List Stmt) (s : State)
    (r : Outcome Value × State) :
    Ends (fun n => execBlock host n scope last (first :: rest)) s r ↔
      Then (Ends (fun n => execStmt host n scope first) s)
        (fun v => Ends fun n => execBlock host n scope v rest) r := by
  rw [← ends_succ (block_steady host scope last (first :: rest))]
  simp only [execBlock]
  exact ends_bind (stmt_steady host scope first) fun v => block_steady host scope v rest

theorem block_append (last : Value) (ss ss' : List Stmt) (s : State) (r : Outcome Value × State) :
    Ends (fun n => execBlock host n scope last (ss ++ ss')) s r ↔
      Then (Ends (fun n => execBlock host n scope last ss) s)
        (fun v => Ends fun n => execBlock host n scope v ss') r := by
  induction ss generalizing last s r with
  | nil =>
      simp only [List.nil_append, Then, block_nil]
      constructor
      · intro h
        exact .inl ⟨last, s, rfl, h⟩
      · rintro (⟨v, s', h, hr⟩ | ⟨e, s', h, -⟩)
        · cases h
          exact hr
        · cases h
  | cons first rest ih =>
      have hc : Ends (fun n => execBlock host n scope last (first :: rest)) s = _ :=
        funext fun r => propext (block_cons host scope last first rest s r)
      have hi (v : Value) : Ends (fun n => execBlock host n scope v (rest ++ ss')) = _ :=
        funext fun s => funext fun r => propext (ih v s r)
      rw [List.cons_append, block_cons, hc, then_assoc]
      simp only [hi]

end

end Evaluator

end Scripting
