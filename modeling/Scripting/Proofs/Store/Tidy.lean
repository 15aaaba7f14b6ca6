import Scripting.Proofs.Store.Bindings

/-!
Tidy stores: their tables list each name once, with values that have a property. Every operation
keeps a store tidy if the values that it puts there have the property.
-/

namespace Scripting

/-- A table that lists its names once each, with values that have a property. -/
structure Table.Tidy {α : Type} (P : α → Prop) (t : Table α) : Prop where
  nodup : t.keys.Nodup
  values : ∀ entry ∈ t.entries, P entry.2

namespace Table

variable {α : Type} {P Q : α → Prop} {t : Table α}

theorem Tidy.empty : (empty : Table α).Tidy P := by
  refine ⟨.nil, fun entry h => ?_⟩
  cases h

theorem Tidy.imp (h : ∀ a, P a → Q a) (ht : t.Tidy P) : t.Tidy Q :=
  ⟨ht.nodup, fun entry he => h _ (ht.values entry he)⟩

theorem Tidy.set (h : t.Tidy P) {a : α} (ha : P a) (name : Text) : (t.set name a).Tidy P := by
  refine ⟨nodup_keys_set h.nodup name a, fun entry he => ?_⟩
  obtain he | rfl := mem_put he
  · exact h.values entry he
  · exact ha

theorem Tidy.get? (h : t.Tidy P) {name : Text} {a : α} (ha : t.get? name = some a) : P a :=
  h.values _ (mem_of_find? ha)

end Table

namespace Store

/-- All tables are tidy, those of the scopes and those of the objects. -/
structure Tidy (P : Value → Prop) (s : Store) : Prop where
  scopes : ∀ {scope : Nat} {c : Scope}, s.scopes[scope]? = some c →
    c.bindings.Tidy fun b => P b.value
  objects : ∀ {object : Nat} {t : Table Value}, s.objects[object]? = some t → t.Tidy P

/-- Scopes and objects stay. -/
structure Grows (s t : Store) : Prop where
  scopes : s.scopes.size ≤ t.scopes.size
  objects : s.objects.size ≤ t.objects.size

variable {P Q : Value → Prop} {s t u : Store} {v : Value}

namespace Tidy

theorem empty : Store.empty.Tidy P := by
  constructor
  all_goals intro _ _ h; cases h

theorem imp (h : ∀ v, P v → Q v) (hs : s.Tidy P) : s.Tidy Q :=
  ⟨fun hc => (hs.scopes hc).imp fun _ => h _, fun ho => (hs.objects ho).imp h⟩

theorem bind (h : s.Tidy P) (hv : P v) (scope : Nat) (name : Text) (constant : Bool) :
    (s.bind scope name ⟨v, constant⟩).Tidy P where
  scopes {other c} hc := by
    rw [getElem?_scopes_bind] at hc
    split at hc
    · obtain ⟨d, hd, rfl⟩ := Option.map_eq_some_iff.mp hc
      exact (h.scopes hd).set hv name
    · exact h.scopes hc
  objects ho := h.objects ho

theorem newScope (h : s.Tidy P) (parent : Option Nat) : (s.newScope parent).2.Tidy P where
  scopes {scope c} hc := by
    rw [getElem?_scopes_newScope] at hc
    split at hc
    · cases hc
      exact .empty
    · exact h.scopes hc
  objects ho := h.objects ho

theorem newObject (h : s.Tidy P) {fields : Table Value} (hf : fields.Tidy P) :
    (s.newObject fields).2.Tidy P where
  scopes hc := h.scopes hc
  objects {object t} ho := by
    simp only [Store.newObject, Array.getElem?_push] at ho
    split at ho
    · cases ho
      exact hf
    · exact h.objects ho

theorem setField (h : s.Tidy P) (hv : P v) (object : Nat) (key : Text) :
    (s.setField object key v).Tidy P where
  scopes hc := h.scopes hc
  objects {other t} ho := by
    rw [Store.setField, Array.getElem?_modify] at ho
    split at ho
    · obtain ⟨f, hf, rfl⟩ := Option.map_eq_some_iff.mp ho
      exact (h.objects hf).set hv key
    · exact h.objects ho

theorem fields (h : s.Tidy P) (object : Nat) : (s.fields object).Tidy P := by
  rw [Store.fields]
  cases ho : s.objects[object]? with
  | none => exact .empty
  | some t => exact h.objects ho

theorem binding? (h : s.Tidy P) {scope : Nat} {name : Text} {b : Binding}
    (hb : s.binding? scope name = some b) : P b.value := by
  obtain ⟨c, hc, hb⟩ := Option.bind_eq_some_iff.mp hb
  exact (h.scopes hc).get? hb

theorem lookup (h : s.Tidy P) {scope : Nat} {name : Text} (hl : s.lookup scope name = .ok v) :
    P v := by
  obtain ⟨owner, b, -, hb, rfl⟩ := binding?_of_lookup hl
  exact h.binding? hb

end Tidy

theorem Grows.refl (s : Store) : s.Grows s := ⟨Nat.le_refl _, Nat.le_refl _⟩

theorem Grows.trans (h : s.Grows t) (h' : t.Grows u) : s.Grows u :=
  ⟨Nat.le_trans h.scopes h'.scopes, Nat.le_trans h.objects h'.objects⟩

theorem grows_bind (s : Store) (scope : Nat) (name : Text) (b : Binding) :
    s.Grows (s.bind scope name b) := ⟨Nat.le_of_eq Array.size_modify.symm, Nat.le_refl _⟩

theorem grows_setField (s : Store) (object : Nat) (key : Text) (v : Value) :
    s.Grows (s.setField object key v) := ⟨Nat.le_refl _, Nat.le_of_eq Array.size_modify.symm⟩

theorem grows_newScope (s : Store) (parent : Option Nat) : s.Grows (s.newScope parent).2 :=
  ⟨by simp [newScope], Nat.le_refl _⟩

theorem grows_newObject (s : Store) (fields : Table Value) : s.Grows (s.newObject fields).2 :=
  ⟨Nat.le_refl _, by simp [newObject]⟩

end Store

end Scripting
