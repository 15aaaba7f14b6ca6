import Mathlib.Logic.Relation
import Scripting.Proofs.Eval.Fuel
import Scripting.Proofs.Store.Bindings

/-!
Scopes as a forest. A name means what the nearest scope that binds it says, among the scope it is
looked for in and those around it. However the forest was built, an assignment is seen exactly from
where the name means the same binding, and a declaration exactly from inside its scope, as far as no
nearer scope binds the name. Everything else stays as it was, and so does all if they fail.
-/

namespace Scripting

open Relation (ReflTransGen)

namespace Store

variable {s t : Store} {inner outer scope owner : Nat} {name key : Text}

/-- The second scope is the one right around the first. -/
def Parent (s : Store) (inner outer : Nat) : Prop :=
  ∃ c, s.scopes[inner]? = some c ∧ c.parent = some outer

/-- The second scope is the first one, or lies around it. -/
def Inside (s : Store) : Nat → Nat → Prop := ReflTransGen s.Parent

/-- The second scope is the first one or lies around it, and none that is nearer to the first binds
the name. -/
def Nearest (s : Store) (name : Text) (inner outer : Nat) : Prop :=
  s.Inside inner outer ∧ ∀ scope, s.Inside inner scope → s.Inside scope outer → scope ≠ outer →
    s.binding? scope name = none

/-- Scopes are younger than those around them. -/
def Ordered (s : Store) : Prop := ∀ inner outer, s.Parent inner outer → outer < inner

namespace Ordered

theorem le (h : s.Ordered) (hi : s.Inside inner outer) : outer ≤ inner := by
  induction hi with
  | refl => exact Nat.le_refl _
  | tail _ hp ih => exact Nat.le_of_lt (Nat.lt_of_lt_of_le (h _ _ hp) ih)

theorem antisymm (h : s.Ordered) (hi : s.Inside inner outer) (ho : s.Inside outer inner) :
    inner = outer :=
  Nat.le_antisymm (h.le ho) (h.le hi)

end Ordered

theorem Parent.unique (h : s.Parent inner outer) (h' : s.Parent inner owner) : outer = owner := by
  obtain ⟨c, hc, hp⟩ := h
  obtain ⟨d, hd, hq⟩ := h'
  rw [hc] at hd
  cases hd
  exact Option.some.inj (hp.symm.trans hq)

theorem resolve?_here {b : Binding} (h : s.binding? scope name = some b) :
    s.resolve? scope name = some scope := by
  obtain ⟨c, hc, hb⟩ := Option.bind_eq_some_iff.mp h
  have hn : c.bindings.contains name = true := Option.isSome_iff_exists.mpr ⟨b, hb⟩
  rw [resolve?, hc]
  simp only [hn, if_true]

theorem resolve?_outward (ho : s.Ordered) (hp : s.Parent inner outer)
    (hn : s.binding? inner name = none) : s.resolve? inner name = s.resolve? outer name := by
  have hlt := ho _ _ hp
  obtain ⟨c, hc, hp⟩ := hp
  have hb : c.bindings.contains name = false := by
    rw [binding?, hc] at hn
    exact Option.isSome_eq_false_iff.mpr (Option.isNone_iff_eq_none.mpr hn)
  rw [resolve?, hc]
  simp only [hb, Bool.false_eq_true, if_false, hp, if_pos hlt]

/-- The scope found for a name is the nearest one that binds it. -/
theorem nearest_of_resolve? (ho : s.Ordered) (h : s.resolve? inner name = some outer) :
    s.Nearest name inner outer := by
  fun_induction resolve? s inner name with
  | case1 scope hc => cases h
  | case2 scope c hc hn =>
      cases h
      exact ⟨.refl, fun other hi hj hne => absurd (ho.antisymm hj hi) hne⟩
  | case3 scope c hc hn hp => cases h
  | case4 scope c hc hn parent hp hlt ih =>
      obtain ⟨hi, hf⟩ := ih h
      have hb : s.binding? scope name = none := by
        rw [binding?, hc]
        exact Option.not_isSome_iff_eq_none.mp hn
      refine ⟨.head ⟨c, hc, hp⟩ hi, fun other hj hk hne => ?_⟩
      cases ReflTransGen.cases_head hj with
      | inl he => exact he ▸ hb
      | inr hm =>
          obtain ⟨next, hq, hj⟩ := hm
          have he := Parent.unique ⟨c, hc, hp⟩ hq
          exact hf other (he ▸ hj) hk hne
  | case5 scope c hc hn parent hp hlt => cases h

theorem resolve?_of_nearest (ho : s.Ordered) {b : Binding} (hb : s.binding? outer name = some b)
    (h : s.Nearest name inner outer) : s.resolve? inner name = some outer := by
  obtain ⟨hi, hf⟩ := h
  induction hi using ReflTransGen.head_induction_on with
  | refl => exact resolve?_here hb
  | @head inner next hp hi ih =>
      have hne : inner ≠ outer := by
        have hle := ho.le hi
        have hlt := ho _ _ hp
        omega
      rw [resolve?_outward ho hp (hf inner .refl (.head hp hi) hne)]
      exact ih fun other hj => hf other (.head hp hj)

theorem resolve?_eq_some_iff (ho : s.Ordered) :
    s.resolve? inner name = some outer ↔
      (∃ b, s.binding? outer name = some b) ∧ s.Nearest name inner outer := by
  constructor
  · intro h
    exact ⟨(binding?_of_resolve? h).2, nearest_of_resolve? ho h⟩
  · intro h
    obtain ⟨⟨b, hb⟩, hn⟩ := h
    exact resolve?_of_nearest ho hb hn

/-- Where the same scopes bind a name, it is found in the same scope. -/
theorem resolve?_congr (ho : s.Ordered) (hp : t.Parent = s.Parent)
    (hb : ∀ scope, t.binding? scope name = none ↔ s.binding? scope name = none) :
    t.resolve? inner name = s.resolve? inner name := by
  have ht : t.Ordered := by
    rw [Ordered, hp]
    exact ho
  have hs (scope : Nat) :
      (∃ b, t.binding? scope name = some b) ↔ ∃ b, s.binding? scope name = some b := by
    rw [← Option.ne_none_iff_exists', ← Option.ne_none_iff_exists', Ne, Ne, hb]
  apply Option.ext
  intro outer
  rw [resolve?_eq_some_iff ht, resolve?_eq_some_iff ho, hs, Nearest, Nearest, Inside, Inside, hp]
  simp only [hb]

theorem lookup_of_resolve? {b : Binding} (hr : s.resolve? scope name = some owner)
    (hb : s.binding? owner name = some b) : s.lookup scope name = .ok b.value := by
  rw [lookup, hr, Option.bind_some, hb]

/-- Where a name is found in the same scope with the same binding, it means the same. -/
theorem lookup_congr (hr : t.resolve? scope name = s.resolve? scope name)
    (hb : ∀ owner, s.resolve? scope name = some owner →
      t.binding? owner name = s.binding? owner name) :
    t.lookup scope name = s.lookup scope name := by
  rw [lookup, lookup, hr]
  cases ho : s.resolve? scope name with
  | none => rfl
  | some owner => rw [Option.bind_some, Option.bind_some, hb owner ho]

section
variable {b : Binding}

theorem parent_bind (s : Store) (scope : Nat) (name : Text) (b : Binding) :
    (s.bind scope name b).Parent = s.Parent := by
  funext inner outer
  apply propext
  rw [Parent, Parent, getElem?_scopes_bind]
  by_cases h : scope = inner
  · rw [if_pos h]
    cases s.scopes[inner]? <;> simp
  · rw [if_neg h]

theorem binding?_bind_self (hs : scope < s.scopes.size) :
    (s.bind scope name b).binding? scope name = some b := by
  rw [binding?_bind, if_pos ⟨rfl, rfl⟩, Array.getElem?_eq_getElem hs, Option.map_some]

theorem binding?_bind_other (h : ¬ (scope = owner ∧ name = key)) :
    (s.bind scope name b).binding? owner key = s.binding? owner key := by
  rw [binding?_bind, if_neg h]

end

/-- What an assignment to a name from a scope leaves behind. -/
structure Assigned (s : Store) (scope : Nat) (name : Text) (value : Value) (t : Store) : Prop where
  resolve?_eq : ∀ other key, t.resolve? other key = s.resolve? other key
  lookup_same : ∀ other, s.resolve? other name = s.resolve? scope name →
    t.lookup other name = .ok value
  lookup_else : ∀ other key, ¬ (key = name ∧ s.resolve? other name = s.resolve? scope name) →
    t.lookup other key = s.lookup other key
  isConstant_eq : ∀ other key, t.isConstant other key = s.isConstant other key

theorem assigned_of_assignable (ho : s.Ordered) (h : s.assignable scope name = .ok owner)
    (value : Value) : s.Assigned scope name value (s.bind owner name ⟨value, false⟩) := by
  obtain ⟨hr, b, hb, hv⟩ := binding?_of_assignable h
  have hself : (s.bind owner name ⟨value, false⟩).binding? owner name = some ⟨value, false⟩ :=
    binding?_bind_self (lt_size_of_binding? hb)
  have hsame (other : Nat) (key : Text) :
      (s.bind owner name ⟨value, false⟩).resolve? other key = s.resolve? other key := by
    refine resolve?_congr ho (parent_bind ..) fun found => ?_
    by_cases he : owner = found ∧ name = key
    · obtain ⟨rfl, rfl⟩ := he
      rw [hself, hb]
      simp
    · rw [binding?_bind_other he]
  constructor
  · exact hsame
  · intro other he
    rw [hr] at he
    exact lookup_of_resolve? ((hsame other name).trans he) hself
  · intro other key hne
    refine lookup_congr (hsame other key) fun found hf => binding?_bind_other ?_
    rintro ⟨rfl, rfl⟩
    exact hne ⟨rfl, hf.trans hr.symm⟩
  · intro other key
    rw [isConstant, isConstant]
    by_cases he : owner = other ∧ name = key
    · obtain ⟨rfl, rfl⟩ := he
      rw [hself, hb]
      exact hv.symm
    · rw [binding?_bind_other he]

/-- What a declaration of a name in a scope leaves behind. -/
structure Extended (s : Store) (scope : Nat) (name : Text) (value : Value) (constant : Bool)
    (t : Store) : Prop where
  resolve?_iff : ∀ other, t.resolve? other name = some scope ↔ s.Nearest name other scope
  lookup_nearest : ∀ other, s.Nearest name other scope → t.lookup other name = .ok value
  resolve?_else : ∀ other key, ¬ (key = name ∧ s.Nearest name other scope) →
    t.resolve? other key = s.resolve? other key
  lookup_else : ∀ other key, ¬ (key = name ∧ s.Nearest name other scope) →
    t.lookup other key = s.lookup other key
  isConstant_self : t.isConstant scope name = constant
  isConstant_else : ∀ other key, ¬ (other = scope ∧ key = name) →
    t.isConstant other key = s.isConstant other key

section
variable {b : Binding} (ho : s.Ordered) (hs : scope < s.scopes.size)
  (hn : s.binding? scope name = none)
include ho hs

theorem resolve?_bind_iff :
    (s.bind scope name b).resolve? inner name = some scope ↔ s.Nearest name inner scope := by
  have hp := parent_bind s scope name b
  have ht : (s.bind scope name b).Ordered := by
    rw [Ordered, hp]
    exact ho
  have hb (other : Nat) (hne : other ≠ scope) :
      (s.bind scope name b).binding? other name = s.binding? other name :=
    binding?_bind_other fun he => hne he.1.symm
  rw [resolve?_eq_some_iff ht, binding?_bind_self hs, Nearest, Nearest, Inside, Inside, hp]
  constructor
  · intro h
    exact ⟨h.2.1, fun other hi hj hne => (hb other hne).symm.trans (h.2.2 other hi hj hne)⟩
  · intro h
    exact ⟨⟨b, rfl⟩, h.1, fun other hi hj hne => (hb other hne).trans (h.2 other hi hj hne)⟩

include hn

/-- Where the new binding is not the nearest one, the scope found for the name is the same. -/
theorem resolve?_bind_else (h : ¬ s.Nearest name inner scope) :
    (s.bind scope name b).resolve? inner name = s.resolve? inner name := by
  have hp := parent_bind s scope name b
  have ht : (s.bind scope name b).Ordered := by
    rw [Ordered, hp]
    exact ho
  have hb (other : Nat) (hne : other ≠ scope) :
      (s.bind scope name b).binding? other name = s.binding? other name :=
    binding?_bind_other fun he => hne he.1.symm
  apply Option.ext
  intro outer
  by_cases he : outer = scope
  · subst he
    rw [resolve?_bind_iff ho hs, resolve?_eq_some_iff ho, hn]
    simp [h]
  rw [resolve?_eq_some_iff ht, resolve?_eq_some_iff ho, hb outer he, Nearest, Nearest, Inside,
    Inside, hp]
  refine and_congr_right fun _ => and_congr_right fun hi => ?_
  constructor
  · intro hf other hj hk hne
    by_cases hc : other = scope
    · rw [hc, hn]
    · exact (hb other hc).symm.trans (hf other hj hk hne)
  · intro hf other hj hk hne
    by_cases hc : other = scope
    · -- then the scope itself lies in between, and all nearer ones are free of the name
      subst hc
      refine absurd ⟨hj, fun nearer hl hm hd => ?_⟩ h
      refine hf nearer hl (hm.trans hk) fun he => ?_
      subst he
      exact hd (ho.antisymm hm hk)
    · exact (hb other hc).trans (hf other hj hk hne)

end

theorem extended_of_declarable (ho : s.Ordered) (hs : scope < s.scopes.size)
    (h : s.declarable scope name = .ok ()) (value : Value) (constant : Bool) :
    s.Extended scope name value constant (s.bind scope name ⟨value, constant⟩) := by
  have hn := binding?_of_declarable h
  have hself : (s.bind scope name ⟨value, constant⟩).binding? scope name = some ⟨value, constant⟩ :=
    binding?_bind_self hs
  have helse (other : Nat) (key : Text) (hne : ¬ (key = name ∧ s.Nearest name other scope)) :
      (s.bind scope name ⟨value, constant⟩).resolve? other key = s.resolve? other key := by
    by_cases he : key = name
    · subst he
      exact resolve?_bind_else ho hs hn fun hm => hne ⟨rfl, hm⟩
    · refine resolve?_congr ho (parent_bind ..) fun found => ?_
      rw [binding?_bind_other fun hc => he hc.2.symm]
  constructor
  · exact fun other => resolve?_bind_iff ho hs
  · exact fun other hm => lookup_of_resolve? ((resolve?_bind_iff ho hs).mpr hm) hself
  · exact helse
  · intro other key hne
    refine lookup_congr (helse other key hne) fun found hf => binding?_bind_other ?_
    rintro ⟨rfl, rfl⟩
    obtain ⟨-, b, hb⟩ := binding?_of_resolve? hf
    rw [hn] at hb
    cases hb
  · rw [isConstant, hself]
    rfl
  · intro other key hne
    rw [isConstant, isConstant, binding?_bind_other fun he => hne ⟨he.1.symm, he.2.symm⟩]

end Store

namespace Evaluator

variable {s : State} {scope owner : Nat} {name : Name} {value : Value} {constant : Bool}
  {e : BindingError}

/-- The states that are come to by making scopes, declaring names and assigning to them, whether
each of these succeeds or fails. -/
inductive Scoped : State → Prop
  | start {s : State} (h : s.store.scopes = #[]) : Scoped s
  | newScope {s : State} (h : Scoped s) (parent : Option Nat)
      (hp : ∀ scope, parent = some scope → scope < s.store.scopes.size) :
      Scoped (newScope parent s).2
  | declare {s : State} (h : Scoped s) (scope : Nat) (name : Name) (value : Value)
      (constant : Bool) : Scoped (declare scope name value constant s).2
  | assign {s : State} (h : Scoped s) (scope : Nat) (name : Name) (value : Value) :
      Scoped (assign scope name value s).2

namespace Scoped

theorem ordered (h : Scoped s) : s.store.Ordered := by
  induction h with
  | start h =>
      intro inner outer hp
      obtain ⟨c, hc, -⟩ := hp
      rw [h] at hc
      cases hc
  | @newScope s h parent hp ih =>
      intro inner outer hi
      obtain ⟨c, hc, ho⟩ := hi
      have hn := Store.getElem?_scopes_newScope s.store parent inner
      rw [show (s.store.newScope parent).2.scopes[inner]? = some c from hc] at hn
      split at hn
      · next he =>
          cases hn
          exact he ▸ hp outer ho
      · exact ih inner outer ⟨c, hn.symm, ho⟩
  | @declare s h scope name value constant ih =>
      cases hd : s.store.declarable scope name.text with
      | error e =>
          rw [declare_error hd]
          exact ih
      | ok =>
          rw [declare_ok hd, Store.Ordered, Store.parent_bind]
          exact ih
  | @assign s h scope name value ih =>
      cases ha : s.store.assignable scope name.text with
      | error e =>
          rw [assign_error ha]
          exact ih
      | ok owner =>
          rw [assign_ok ha, Store.Ordered, Store.parent_bind]
          exact ih

end Scoped

theorem assignable_error_iff :
    (∃ e, s.store.assignable scope name.text = .error e) ↔
      s.store.resolve? scope name.text = none ∨
        ∃ owner, s.store.resolve? scope name.text = some owner ∧
          s.store.isConstant owner name.text = true := by
  rw [Store.assignable]
  cases s.store.resolve? scope name.text with
  | none => simp
  | some owner => cases hc : s.store.isConstant owner name.text <;> simp [hc]

theorem declarable_error_iff :
    (∃ e, s.store.declarable scope name.text = .error e) ↔
      ∃ b, s.store.binding? scope name.text = some b := by
  rw [Store.declarable]
  cases s.store.binding? scope name.text <;> simp

/-- In every forest of scopes, an assignment fails exactly if the name is found nowhere, or as a
constant, and a declaration exactly if its own scope binds the name. What fails changes nothing.
What succeeds changes the meanings of names as told, and no others. -/
theorem scoped_laws (h : Scoped s) (hs : scope < s.store.scopes.size) (name : Name) (value : Value)
    (constant : Bool) :
    let assigned := assign scope name value s
    let declared := declare scope name value constant s
    (((∀ v, assigned.1 ≠ .ok v) ↔ s.store.resolve? scope name.text = none ∨
        ∃ owner, s.store.resolve? scope name.text = some owner ∧
          s.store.isConstant owner name.text = true) ∧
      ((∀ v, assigned.1 ≠ .ok v) → assigned.2 = s) ∧
      ∀ v, assigned.1 = .ok v → s.store.Assigned scope name.text value assigned.2.store) ∧
    ((∀ v, declared.1 ≠ .ok v) ↔ ∃ b, s.store.binding? scope name.text = some b) ∧
      ((∀ v, declared.1 ≠ .ok v) → declared.2 = s) ∧
      ∀ v, declared.1 = .ok v →
        s.store.Extended scope name.text value constant declared.2.store := by
  intro assigned declared
  have ho := h.ordered
  constructor
  · rw [← assignable_error_iff]
    cases ha : s.store.assignable scope name.text with
    | error e => simp [assigned, assign_error ha]
    | ok owner =>
        have ht := Store.assigned_of_assignable ho ha value
        simpa [assigned, assign_ok ha] using ht
  · rw [← declarable_error_iff]
    cases hd : s.store.declarable scope name.text with
    | error e => simp [declared, declare_error hd]
    | ok =>
        have ht := Store.extended_of_declarable ho hs hd value constant
        simpa [declared, declare_ok hd] using ht

/-- A constant in one of two scopes side by side hides the variable around them from the scope
inside it, not from the other one. -/
theorem scoped_laws_side_by_side :
    let x : Name := ⟨Text.utf8 "x", 1⟩
    let empty : State := { store := .empty }
    let nested := (newScope (some 1) (newScope (some 0) (newScope none empty).2).2).2
    let s := (declare 0 x (.bool true) false (newScope (some 0) nested).2).2
    let t := (declare 1 x (.bool false) true s).2
    let u := (assign 3 x .null t).2
    (t.store.resolve? 2 x.text = some 1 ∧ t.store.resolve? 3 x.text = some 0) ∧
      u.store.lookup 2 x.text = .ok (.bool false) ∧ u.store.lookup 0 x.text = .ok .null ∧
      (assign 2 x .null u).2 = u := by
  intro x empty nested s t u
  have hs : Scoped s := by
    refine .declare (.newScope ?_ _ fun _ h => by cases h; decide +kernel) ..
    refine .newScope ?_ _ fun _ h => by cases h; decide +kernel
    refine .newScope (.newScope (.start rfl) _ fun _ h => by cases h) _ fun _ h => ?_
    cases h
    decide +kernel
  have ht : Scoped t := .declare hs ..
  have hr : (t.store.resolve? 2 x.text = some 1 ∧ t.store.resolve? 3 x.text = some 0) ∧
      t.store.resolve? 0 x.text = some 0 ∧ t.store.isConstant 0 x.text = false := by decide +kernel
  have hk : t.store.assignable 3 x.text = .ok 0 := by
    rw [Store.assignable, hr.1.2]
    simp only [hr.2.2, Bool.false_eq_true, if_false]
  have four : 1 < s.store.scopes.size ∧ 3 < t.store.scopes.size ∧ 2 < u.store.scopes.size := by
    decide +kernel
  have hd := (scoped_laws hs four.1 x (.bool false) true).2.2.2 _ rfl
  have ha := (scoped_laws ht four.2.1 x .null true).1.2.2 .null (congrArg Prod.fst (assign_ok hk))
  have hf := (scoped_laws (.assign ht 3 x .null) four.2.2 x .null true).1
  refine ⟨hr.1, ?_, ?_, ?_⟩
  · rw [ha.lookup_else 2 x.text (by rw [hr.1.1, hr.1.2]; simp)]
    exact hd.lookup_nearest 2 ((hd.resolve?_iff 2).mp hr.1.1)
  · exact ha.lookup_same 0 (hr.2.1.trans hr.1.2.symm)
  · exact hf.2.1 (hf.1.mpr (.inr ⟨1, by decide +kernel⟩))

end Evaluator

end Scripting
