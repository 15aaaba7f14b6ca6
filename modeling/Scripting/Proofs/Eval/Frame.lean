import Scripting.Proofs.Session.Moments
import Scripting.Proofs.Store.Reach

/-!
What an evaluation leaves alone. Without functions of the host, an evaluation in a scope
changes nothing that was there before and cannot be reached from that scope: all that it can
name lies in a region that contains what can be reached and what is new.
-/

namespace Scripting

namespace Store

/-- A store that differs from an earlier one only inside a region that it does not lead out
of. -/
structure Confined (s : Store) (region : Cell → Prop) (t : Store) : Prop extends
    t.Closed region where
  scopes_le : s.scopes.size ≤ t.scopes.size
  objects_le : s.objects.size ≤ t.objects.size
  scopes_eq : ∀ id, ¬ region (.scope id) → t.scopes[id]? = s.scopes[id]?
  objects_eq : ∀ id, ¬ region (.object id) → t.objects[id]? = s.objects[id]?

namespace Confined

variable {s t : Store} {region : Cell → Prop}

theorem bind (h : s.Confined region t) {scope : Nat} (hr : region (.scope scope)) {v : Value}
    (hv : v.In region) (name : Text) (constant : Bool) :
    s.Confined region (t.bind scope name ⟨v, constant⟩) where
  parents {other parent c} ho hc hp := by
    rw [getElem?_scopes_bind] at hc
    split at hc
    · obtain ⟨d, hd, rfl⟩ := Option.map_eq_some_iff.mp hc
      exact h.parents ho hd hp
    · exact h.parents ho hc hp
  bound {other key b} ho hb := by
    rw [binding?_bind] at hb
    split at hb
    · obtain ⟨_, _, rfl⟩ := Option.map_eq_some_iff.mp hb
      exact hv
    · exact h.bound ho hb
  fields := h.fields
  scopes_le := Nat.le_trans h.scopes_le (Nat.le_of_eq Array.size_modify.symm)
  objects_le := h.objects_le
  scopes_eq id hn := by
    have hne : scope ≠ id := fun he => hn (he ▸ hr)
    rw [getElem?_scopes_bind, if_neg hne, h.scopes_eq id hn]
  objects_eq := h.objects_eq

theorem newScope (h : s.Confined region t) (hf : ∀ cell, ¬ s.Made cell → region cell)
    {parent : Nat} (hp : region (.scope parent)) :
    s.Confined region (t.newScope (some parent)).2 where
  parents {scope above c} hs hc ha := by
    rw [getElem?_scopes_newScope] at hc
    split at hc
    · cases hc
      cases ha
      exact hp
    · exact h.parents hs hc ha
  bound hs hb := by
    rw [binding?_newScope] at hb
    exact h.bound hs hb
  fields := h.fields
  scopes_le := by
    have := h.scopes_le
    simp only [Store.newScope, Array.size_push]
    omega
  objects_le := h.objects_le
  scopes_eq id hn := by
    have hne : id ≠ t.scopes.size := fun he => hn (hf _ (he ▸ Nat.not_lt_of_le h.scopes_le))
    rw [getElem?_scopes_newScope, if_neg hne, h.scopes_eq id hn]
  objects_eq := h.objects_eq

theorem newObject (h : s.Confined region t) (hf : ∀ cell, ¬ s.Made cell → region cell)
    {fields : Table Value} (hv : ∀ entry ∈ fields.entries, entry.2.In region) :
    s.Confined region (t.newObject fields).2 where
  parents := h.parents
  bound := h.bound
  fields {object key v} ho hk := by
    simp only [Store.newObject, Store.fields, Array.getElem?_push] at hk
    split at hk
    · exact hv _ (Table.mem_of_find? hk)
    · exact h.fields ho hk
  scopes_le := h.scopes_le
  objects_le := by
    have := h.objects_le
    simp only [Store.newObject, Array.size_push]
    omega
  scopes_eq := h.scopes_eq
  objects_eq id hn := by
    have hne : id ≠ t.objects.size := fun he => hn (hf _ (he ▸ Nat.not_lt_of_le h.objects_le))
    simp only [Store.newObject, Array.getElem?_push, if_neg hne]
    exact h.objects_eq id hn

theorem setField (h : s.Confined region t) {object : Nat} (hr : region (.object object))
    {v : Value} (hv : v.In region) (key : Text) :
    s.Confined region (t.setField object key v) where
  parents := h.parents
  bound := h.bound
  fields {other name w} ho hk := by
    have hf := @h.fields other name w ho
    simp only [Store.setField, Store.fields, Array.getElem?_modify] at hk hf
    split at hk
    · cases hc : t.objects[other]? with
      | none =>
          rw [hc] at hk
          cases hk
      | some c =>
          rw [hc] at hk hf
          rw [Option.map_some, Option.getD_some, Table.get?_set] at hk
          split at hk
          · cases hk
            exact hv
          · exact hf hk
    · exact hf hk
  scopes_le := h.scopes_le
  objects_le := Nat.le_trans h.objects_le (Nat.le_of_eq Array.size_modify.symm)
  scopes_eq := h.scopes_eq
  objects_eq id hn := by
    have hne : object ≠ id := fun he => hn (he ▸ hr)
    rw [Store.setField, Array.getElem?_modify, if_neg hne, h.objects_eq id hn]

theorem resolve? (h : s.Confined region t) {scope owner : Nat} {name : Text}
    (hr : region (.scope scope)) (ho : t.resolve? scope name = some owner) :
    region (.scope owner) := by
  fun_induction Store.resolve? t scope name with
  | case1 scope hc => cases ho
  | case2 scope c hc hn =>
      cases ho
      exact hr
  | case3 scope c hc hn hp => cases ho
  | case4 scope c hc hn parent hp hlt ih => exact ih (h.parents hr hc hp) ho
  | case5 scope c hc hn parent hp hlt => cases ho

end Confined

end Store

/-- All that an evaluation meets lies in a region, and nothing outside of it has changed. -/
def Discipline.confinement (s : Store) (region : Cell → Prop) : Discipline where
  fit := s.Confined region
  step _ _ := True
  inside _ scope := region (.scope scope)
  own _ scope := region (.scope scope)
  value _ v := v.In region
  line _ := True
  error _ := True

theorem Discipline.confinement_lawful {host : Host} (hf : host.functions = .empty) {s : Store}
    {region : Cell → Prop} (hn : ∀ cell, ¬ s.Made cell → region cell) :
    (confinement s region).Lawful host where
  refl _ := trivial
  trans _ _ := trivial
  inside_later _ h := h
  own_later _ h := h
  value_later _ h := h
  inside_of_own h := h
  value_plain _ _ hv := Value.in_of_cell?_none (Value.cell?_of_isPlain hv) region
  value_func :=
    (Value.in_func ..).trans ⟨fun h => ⟨h, fun _ _ => trivial⟩, And.left⟩
  error_fail _ _ := trivial
  value_lookup ht hi h := by
    obtain ⟨owner, b, ho, hb, rfl⟩ := Store.binding?_of_lookup h
    exact ht.bound (ht.resolve? hi ho) hb
  next_declare constant ht ho hv _ := ⟨trivial, ht.bind ho hv _ constant⟩
  next_assign ht hi hv ha :=
    ⟨trivial, ht.bind (ht.resolve? hi (Store.binding?_of_assignable ha).1) hv _ false⟩
  next_newScope ht hp := ⟨⟨trivial, ht.newScope hn hp⟩, hn _ (Nat.not_lt_of_le ht.scopes_le)⟩
  next_newObject ht _ hv := ⟨⟨trivial, ht.newObject hn hv⟩,
    (Value.in_object ..).mpr (hn _ (Nat.not_lt_of_le ht.objects_le))⟩
  value_field ht ho hk := ht.fields (ho _ rfl) hk
  next_setField ht ho hv := ⟨trivial, ht.setField (ho _ rfl) hv _⟩
  perform_holds h := by
    rw [hf] at h
    cases h

/-- The scopes and objects of a store that cannot be reached from a scope are the same in a
later store: their bindings with their constancy, and their keys with their values. -/
structure Store.Untouched (s : Store) (start : Nat) (t : Store) : Prop where
  scopes : ∀ id < s.scopes.size, ¬ s.Reach start (.scope id) → t.scopes[id]? = s.scopes[id]?
  objects : ∀ id < s.objects.size, ¬ s.Reach start (.object id) → t.objects[id]? = s.objects[id]?

namespace Store

theorem Confined.untouched {s t : Store} {start : Nat} (h : s.Confined (s.Within start) t) :
    s.Untouched start t where
  scopes id hi hn := h.scopes_eq id fun hr => hn (hr hi)
  objects id hi hn := h.objects_eq id fun hr => hn (hr hi)

theorem confined_within (s : Store) (start : Nat) : s.Confined (s.Within start) s where
  toClosed := s.within_closed start
  scopes_le := Nat.le_refl _
  objects_le := Nat.le_refl _
  scopes_eq _ _ := rfl
  objects_eq _ _ := rfl

end Store

namespace Evaluator

open Eval (Course)

/-- Without functions of the host, whatever a state holds and however an evaluation ends: an
expression, a statement or a program evaluated in a scope leaves all that there was and that
cannot be reached from that scope as it was. -/
theorem evaluation_untouched (host : Host) (hf : host.functions = .empty) (s : State)
    (scope fuel : Nat) :
    (∀ e : Expr, s.store.Untouched scope (evalExpr host fuel scope e s).2.store) ∧
    (∀ st : Stmt, s.store.Untouched scope (execStmt host fuel scope st s).2.store) ∧
    ∀ p : Program, s.store.Untouched scope (p.evaluate host fuel scope s).2.store := by
  have L : (Discipline.confinement s.store (s.store.Within scope)).Lawful host :=
    Discipline.confinement_lawful hf fun _ h hm => absurd hm h
  have hs := s.store.confined_within scope
  have hr : s.store.Within scope (.scope scope) := fun _ => .start
  have untouched {x : Eval Value} {c : Course x} {P : Store → Value → Prop}
      (h : Discipline.Holds _ s.store P c) :
      s.store.Untouched scope (x s).2.store :=
    ((h hs s rfl).1.le L.next_trans).2.untouched
  have H := L.holdsAt fuel
  refine ⟨fun e => untouched (H.expr hr ?_), fun st => untouched (H.stmt hr ?_),
    fun p => untouched (H.block hr L.value_null ?_)⟩
  all_goals exact fun _ _ => trivial

/-- An object that only a finished call knew stays as it was when another one is changed. -/
theorem evaluation_untouched_garbage :
    let source := Text.utf8
      "let q = \x7b n: 1 \x7d; func make() \x7b let o = \x7b n: 2 \x7d; o.n \x7d make()"
    let name (text : String) : Name := ⟨Text.utf8 text, 1⟩
    let e : Expr := .assign (.member (.name (name "q")) 1 (name "n")) 1 (.number (Number.ofNat 3))
    let s := (Session.run {} 30 source (Session.start {})).2.state
    let t := (evalExpr {} 30 Session.root e s).2.store
    s.store.objects.size = 2 ∧ ¬ s.store.Reach Session.root (.object 1) ∧
      t.display (.object 0) = Text.utf8 "\x7b n: 3 \x7d" ∧
      t.objects[1]? = s.store.objects[1]? := by
  intro source name e s t
  have hd : (s.store.objects.size = 2 ∧ t.display (.object 0) = Text.utf8 "\x7b n: 3 \x7d") ∧
      (∀ c ∈ s.store.scopes[0]?, c.parent = none ∧ ∀ entry ∈ c.bindings.entries,
        ∀ cell ∈ entry.2.value.cell?, cell = .scope 0 ∨ cell = .object 0) ∧
      ∀ entry ∈ (s.store.fields 0).entries, entry.2.cell? = none := by decide +kernel
  obtain ⟨⟨hsize, ht⟩, hb, hk⟩ := hd
  have hc : s.store.Closed fun cell => cell = .scope 0 ∨ cell = .object 0 := by
    refine ⟨?_, ?_, ?_⟩
    · rintro scope parent c (⟨⟨⟩⟩ | ⟨⟨⟩⟩) hc hp
      rw [(hb c hc).1] at hp
      cases hp
    · rintro scope key b (⟨⟨⟩⟩ | ⟨⟨⟩⟩) h cell hv
      obtain ⟨c, hc, h⟩ := Option.bind_eq_some_iff.mp h
      exact (hb c hc).2 _ (Table.mem_of_find? h) cell hv
    · rintro object key v (⟨⟨⟩⟩ | ⟨⟨⟩⟩) h cell hv
      rw [hk _ (Table.mem_of_find? h)] at hv
      cases hv
  have hn : ¬ s.store.Reach Session.root (.object 1) := by
    intro h
    obtain h | h := h.of_closed hc (.inl rfl) <;> cases h
  refine ⟨hsize, hn, ht, ?_⟩
  exact ((evaluation_untouched {} rfl s Session.root 30).1 e).objects 1 (hsize ▸ Nat.one_lt_two) hn

end Evaluator

end Scripting
