import Scripting.Proofs.Eval.Discipline
import Scripting.Proofs.Store.Bindings

/-!
Declarations are local. Without functions of the host, an expression or a conditional binds
no name in the scopes that there were: whatever is declared on the way lands in a scope that
was made on the way. A declaration binds its own name in the scope it stands in, if it
succeeds, and nothing if it does not.
-/

namespace Scripting

/-- What a name is bound to in a scope, earlier and later: nothing at both times, a variable
whose value may have changed, or the same constant. -/
inductive Binding.Steady : Option Binding → Option Binding → Prop
  | unbound : Steady none none
  | variable (v w : Value) : Steady (some ⟨v, false⟩) (some ⟨w, false⟩)
  | constant (v : Value) : Steady (some ⟨v, true⟩) (some ⟨v, true⟩)

theorem Binding.Steady.refl (b : Option Binding) : Steady b b := by
  obtain _ | ⟨v, _ | _⟩ := b
  · exact .unbound
  · exact .variable v v
  · exact .constant v

namespace Store

/-- The scopes of a store bind the same names in a later one, with the same constancy, and
their constants are the same. -/
def Steady (s t : Store) : Prop :=
  ∀ scope < s.scopes.size, ∀ name,
    Binding.Steady (s.binding? scope name) (t.binding? scope name)

namespace Steady

variable {s t : Store} {scope owner : Nat} {name : Text}

theorem refl (s : Store) : Steady s s := fun _ _ _ => .refl _

theorem of_eq (h : s.Steady t) {u : Store}
    (hu : ∀ scope name, u.binding? scope name = t.binding? scope name) : s.Steady u := by
  intro scope hs name
  rw [hu]
  exact h scope hs name

theorem bind_new (h : s.Steady t) (hn : s.scopes.size ≤ scope) (b : Binding) :
    s.Steady (t.bind scope name b) := by
  intro other ho key
  have hne : ¬ (scope = other ∧ name = key) := fun he => absurd ho (Nat.not_lt_of_le (he.1 ▸ hn))
  rw [binding?_bind, if_neg hne]
  exact h other ho key

theorem assign (h : s.Steady t) (ha : t.assignable scope name = .ok owner) (v : Value) :
    s.Steady (t.bind owner name ⟨v, false⟩) := by
  obtain ⟨-, ⟨w, k⟩, hb, hk⟩ := binding?_of_assignable ha
  cases hk
  intro other ho key
  rw [binding?_bind]
  split
  · next he =>
      obtain ⟨rfl, rfl⟩ := he
      have hs := h owner ho name
      rw [hb] at hs
      rw [Array.getElem?_eq_getElem (lt_size_of_binding? hb), Option.map_some]
      generalize s.binding? owner name = b at hs
      cases hs
      exact .variable _ v
  · exact h other ho key

end Steady

end Store

/-- Names are declared only in scopes that are not in the given store, and those that are in
it stay steady. -/
def Discipline.locality (s : Store) : Discipline where
  fit t := s.Steady t ∧ s.scopes.size ≤ t.scopes.size
  step _ _ := True
  inside _ _ := True
  own _ scope := s.scopes.size ≤ scope
  value _ _ := True
  line _ := True
  error _ := True

theorem Discipline.locality_lawful {host : Host} (hf : host.functions = .empty) (s : Store) :
    (locality s).Lawful host where
  refl _ := trivial
  trans _ _ := trivial
  inside_later _ _ := trivial
  own_later _ h := h
  value_later _ _ := trivial
  inside_of_own _ := trivial
  value_plain _ _ _ := trivial
  value_func := ⟨fun _ => ⟨trivial, fun _ _ => trivial⟩, fun _ => trivial⟩
  error_fail _ _ := trivial
  value_lookup _ _ _ := trivial
  next_declare _ ht ho _ _ :=
    ⟨trivial, ht.1.bind_new ho _, Nat.le_trans ht.2 (Nat.le_of_eq Array.size_modify.symm)⟩
  next_assign ht _ _ ha :=
    ⟨trivial, ht.1.assign ha _, Nat.le_trans ht.2 (Nat.le_of_eq Array.size_modify.symm)⟩
  next_newScope {t parent} ht _ := by
    refine ⟨⟨trivial, ht.1.of_eq (Store.binding?_newScope t _), ?_⟩, ht.2⟩
    simp only [Store.newScope, Array.size_push]
    exact Nat.le_succ_of_le ht.2
  next_newObject ht _ _ := ⟨⟨trivial, ht.1, ht.2⟩, trivial⟩
  value_field _ _ _ := trivial
  next_setField ht _ _ := ⟨trivial, ht.1, ht.2⟩
  perform_holds h := by
    rw [hf] at h
    cases h

/-- The name that a statement declares, and whether as a constant. -/
def Stmt.declared? : Stmt → Option (Name × Bool)
  | .declare constant name _ _ => some (name, constant)
  | .func name _ _ => some (name, true)
  | .expr _ | .branch .. => none

/-- What a declaration does to the scopes of the store that it starts with. Only its name in
its scope can be new, and it is so exactly if the declaration succeeds. -/
structure Store.Declared (s : Store) (scope : Nat) (name : Text) (constant : Bool)
    (r : Outcome Value × State) : Prop where
  others : ∀ other < s.scopes.size, ∀ key, (other, key) ≠ (scope, name) →
    Binding.Steady (s.binding? other key) (r.2.store.binding? other key)
  added_iff : (s.binding? scope name = none ∧ ∃ b, r.2.store.binding? scope name = some b) ↔
    ∃ v, r.1 = .ok v
  bound : ∀ v, r.1 = .ok v → r.2.store.binding? scope name = some ⟨v, constant⟩
  kept : (∀ v, r.1 ≠ .ok v) → s.Steady r.2.store

namespace Store.Declared

variable {s : Store} {scope : Nat} {name : Text} {constant : Bool} {r : Outcome Value × State}

theorem of_failed (hs : scope < s.scopes.size) (hn : ∀ v, r.1 ≠ .ok v)
    (h : s.Steady r.2.store) : s.Declared scope name constant r where
  others other ho key _ := h other ho key
  added_iff := by
    refine ⟨fun ⟨hb, b, ht⟩ => ?_, fun ⟨v, hv⟩ => absurd hv (hn v)⟩
    have hk := h scope hs name
    rw [hb, ht] at hk
    cases hk
  bound v hv := absurd hv (hn v)
  kept _ := h

theorem of_bound {t : Store} (hs : scope < s.scopes.size) (h : s.Steady t)
    (ht : s.scopes.size ≤ t.scopes.size) (hd : t.declarable scope name = .ok ()) {v : Value}
    (hr : r.1 = .ok v) (hu : r.2.store = t.bind scope name ⟨v, constant⟩) :
    s.Declared scope name constant r := by
  have hb : r.2.store.binding? scope name = some ⟨v, constant⟩ := by
    rw [hu, binding?_bind, if_pos ⟨rfl, rfl⟩,
      Array.getElem?_eq_getElem (Nat.lt_of_lt_of_le hs ht), Option.map_some]
  have hn : s.binding? scope name = none := by
    have hk := h scope hs name
    rw [binding?_of_declarable hd] at hk
    generalize s.binding? scope name = b at hk
    cases hk
    rfl
  constructor
  · intro other ho key hne
    have hne : ¬ (scope = other ∧ name = key) := by
      rintro ⟨rfl, rfl⟩
      exact hne rfl
    rw [hu, binding?_bind, if_neg hne]
    exact h other ho key
  · exact ⟨fun _ => ⟨v, hr⟩, fun _ => ⟨hn, _, hb⟩⟩
  · intro w hw
    rw [hr] at hw
    cases hw
    exact hb
  · exact fun hf => absurd hr (hf v)

end Store.Declared

namespace Evaluator

open Eval (Course)

variable {scope : Nat}

/-- A declaration whose value is found, in a state that is reached from the store it starts
with. -/
theorem declare_declared {s : Store} (hs : scope < s.scopes.size) {t : State}
    (h : s.Steady t.store) (ht : s.scopes.size ≤ t.store.scopes.size) (name : Name) (v : Value)
    (constant : Bool) :
    s.Declared scope name.text constant (declare scope name v constant t) := by
  cases hd : t.store.declarable scope name.text with
  | ok u =>
      rw [declare_ok hd]
      exact .of_bound hs h ht hd rfl rfl
  | error e =>
      rw [declare_error hd]
      exact .of_failed hs (by simp) h

/-- What is reached by an evaluation that declares names in new scopes only. -/
theorem locality_reached {host : Host} (hf : host.functions = .empty) {x : Eval Value}
    {c : Course x} {P : Store → Value → Prop} (s : State)
    (h : (Discipline.locality s.store).Holds s.store P c) :
    s.store.Steady (x s).2.store ∧ s.store.scopes.size ≤ (x s).2.store.scopes.size :=
  ((h ⟨.refl _, Nat.le_refl _⟩ s rfl).1.le (Discipline.locality_lawful hf s.store).next_trans).2

theorem evalExpr_steady {host : Host} (hf : host.functions = .empty) (s : State)
    (scope fuel : Nat) (e : Expr) :
    s.store.Steady (evalExpr host fuel scope e s).2.store ∧
      s.store.scopes.size ≤ (evalExpr host fuel scope e s).2.store.scopes.size :=
  locality_reached hf s
    (((Discipline.locality_lawful hf s.store).holdsAt fuel).expr trivial fun _ _ => trivial)

theorem execBranch_steady {host : Host} (hf : host.functions = .empty) (s : State)
    (scope fuel line : Nat) (first : Clause) (others : List Clause) (otherwise : List Stmt) :
    s.store.Steady
      (execStmt host fuel scope (.branch line first others otherwise) s).2.store := by
  cases fuel with
  | zero => exact .refl _
  | succ n =>
      have h := (Discipline.locality_lawful hf s.store).holdsAt n
      rw [execStmt]
      exact (locality_reached hf s
        (h.clauses trivial trivial (fun _ _ => trivial) fun _ _ => trivial)).1

/-- The value of a declaration is found first, and may fail. -/
theorem define_declared {host : Host} (hf : host.functions = .empty) {s : State}
    (hs : scope < s.store.scopes.size) (fuel : Nat) (constant : Bool) (name : Name)
    (type : Option Text) (e : Expr) :
    s.store.Declared scope name.text constant
      (execStmt host (fuel + 1) scope (.declare constant name type (some e)) s) := by
  obtain ⟨hk, hl⟩ := evalExpr_steady hf s scope fuel e
  rw [execStmt]
  cases hr : evalExpr host fuel scope e s with
  | mk o t =>
      rw [hr] at hk hl
      cases o with
      | ok v =>
          rw [Eval.bind_ok hr]
          exact declare_declared hs hk hl name v constant
      | error e =>
          rw [Eval.bind_error hr]
          exact .of_failed hs (by simp) hk
      | exhausted =>
          rw [Eval.bind_exhausted hr]
          exact .of_failed hs (by simp) hk

/-- Without functions of the host, whatever a state holds and however an evaluation ends: an
expression or a conditional leaves the scopes that there were with the same names, the same
constancy and the same constants, and a declaration adds its own name to the scope it stands
in if and only if it succeeds, and no other name. -/
theorem declarations_local (host : Host) (hf : host.functions = .empty) (s : State)
    (scope fuel : Nat) :
    (∀ e : Expr, s.store.Steady (evalExpr host fuel scope e s).2.store) ∧
    (∀ line first others otherwise, s.store.Steady
      (execStmt host fuel scope (.branch line first others otherwise) s).2.store) ∧
    ∀ st name constant, st.declared? = some (name, constant) → scope < s.store.scopes.size →
      s.store.Declared scope name.text constant (execStmt host fuel scope st s) := by
  refine ⟨fun e => (evalExpr_steady hf s scope fuel e).1, execBranch_steady hf s scope fuel, ?_⟩
  intro st name constant hd hs
  cases fuel with
  | zero => exact .of_failed hs (by simp [execStmt, Eval.exhausted]) (.refl _)
  | succ n =>
      cases st with
      | expr e => cases hd
      | branch line first others otherwise => cases hd
      | func name parameters body =>
          cases hd
          exact declare_declared hs (.refl _) (Nat.le_refl _) _ _ _
      | declare constant name type value =>
          cases hd
          cases value with
          | none => exact declare_declared hs (.refl _) (Nat.le_refl _) _ _ _
          | some e => exact define_declared hf hs n constant name type e

/-- A function assigns to a variable at the top, declares a name in a block and then fails,
and with it the declaration that called it. The variable has its new value, and no name has
been added. -/
theorem declarations_local_cut_short :
    let source := Text.utf8 "let x = 1; func f(y) \x7b x = y; if (true) \x7b let z = 2; \x7d z \x7d"
    let name (text : String) : Name := ⟨Text.utf8 text, 1⟩
    let call : Expr := .call (.name (name "f")) 1 [.number (Number.ofNat 5)]
    let st : Stmt := .declare false (name "r") none (some call)
    let s := (Session.run {} 30 source (Session.start {})).2.state
    let r := execStmt {} 30 Session.root st s
    let x (t : Store) := (t.lookup Session.root (Text.utf8 "x")).toOption.map t.display
    s.store.scopes.size = 1 ∧ r.2.store.scopes.size = 3 ∧ x s.store = some (Text.utf8 "1") ∧
      x r.2.store = some (Text.utf8 "5") ∧
      s.store.Declared Session.root (Text.utf8 "r") false r ∧ s.store.Steady r.2.store := by
  intro source name call st s r x
  have hd : (s.store.scopes.size = 1 ∧ r.2.store.scopes.size = 3) ∧
      (x s.store = some (Text.utf8 "1") ∧ x r.2.store = some (Text.utf8 "5")) ∧
      (match r.1 with | .error _ => true | _ => false) = true := by decide +kernel
  obtain ⟨⟨hs, ht⟩, ⟨hx, hx'⟩, hr⟩ := hd
  have hd := (declarations_local {} rfl s Session.root 30).2.2 st (name "r") false rfl
    (hs ▸ Nat.zero_lt_one)
  refine ⟨hs, ht, hx, hx', hd, hd.kept fun v hv => ?_⟩
  simp only [r, hv] at hr
  cases hr

end Evaluator

end Scripting
