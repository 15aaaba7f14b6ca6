import Scripting.Proofs.Program.Nesting
import Scripting.Proofs.Store.Bindings
import Scripting.Store.Display

/-!
Stores that hold the same under other numbers. A matching pairs scopes and objects of two
stores; the stores are alike if paired scopes bind the same names to matching values and
paired objects have matching fields. The second store may have hollow scopes besides, which
bind nothing, between the scopes that are paired. Functions match if the second one is the
first with conditionals nested. All looks at matching stores tell the same, and all changes to
them keep them alike, with new scopes and objects paired.
-/

namespace Scripting

/-- Which scopes and which objects of two stores stand for each other. A hollow scope of the
second store, which is in no pair, stands for a scope of the first one too. -/
structure Matching where
  scopes : Nat → Nat → Prop
  objects : Nat → Nat → Prop
  hollow : Nat → Nat → Prop
  scopes_iff : ∀ {i j i' j'}, scopes i j → scopes i' j' → (i = i' ↔ j = j')
  objects_iff : ∀ {i j i' j'}, objects i j → objects i' j' → (i = i' ↔ j = j')
  apart : ∀ {i j k}, hollow i j → ¬ scopes k j

namespace Matching

/-- A scope of the second store is one of the first, or is hollow and stands for it. -/
def within (w : Matching) (i j : Nat) : Prop := w.scopes i j ∨ w.hollow i j

structure Extends (w w' : Matching) : Prop where
  scopes : ∀ i j, w.scopes i j → w'.scopes i j
  objects : ∀ i j, w.objects i j → w'.objects i j
  hollow : ∀ i j, w.hollow i j → w'.hollow i j

instance : LE Matching := ⟨Extends⟩

theorem le_refl (w : Matching) : w ≤ w := ⟨fun _ _ h => h, fun _ _ h => h, fun _ _ h => h⟩

theorem le_trans {w w' w'' : Matching} (h : w ≤ w') (h' : w' ≤ w'') : w ≤ w'' :=
  ⟨fun i j hij => h'.1 i j (h.1 i j hij), fun i j hij => h'.2 i j (h.2 i j hij),
    fun i j hij => h'.3 i j (h.3 i j hij)⟩

theorem within_mono {w w' : Matching} (hw : w ≤ w') {i j : Nat} (h : w.within i j) :
    w'.within i j := h.imp (hw.1 i j) (hw.3 i j)

/-- The matching that pairs a scope with itself, and nothing else. -/
def single (root : Nat) : Matching where
  scopes i j := i = root ∧ j = root
  objects _ _ := False
  hollow _ _ := False
  scopes_iff h h' := ⟨fun _ => h.2.trans h'.2.symm, fun _ => h.1.trans h'.1.symm⟩
  objects_iff h := h.elim
  apart h := h.elim

/-- A relation of numbers, and two new numbers beside. -/
def paired (R : Nat → Nat → Prop) (i j : Nat) (i' j' : Nat) : Prop := R i' j' ∨ i' = i ∧ j' = j

theorem paired_iff {R : Nat → Nat → Prop} (h : ∀ {i j i' j'}, R i j → R i' j' → (i = i' ↔ j = j'))
    {k l : Nat} (hk : ∀ j, ¬ R k j) (hl : ∀ i, ¬ R i l) {i j i' j' : Nat}
    (hij : paired R k l i j) (hij' : paired R k l i' j') : i = i' ↔ j = j' := by
  obtain hij | ⟨rfl, rfl⟩ := hij <;> obtain hij' | ⟨rfl, rfl⟩ := hij'
  · exact h hij hij'
  · exact ⟨fun he => absurd (he ▸ hij) (hk j), fun he => absurd (he ▸ hij) (hl i)⟩
  · exact ⟨fun he => absurd (he ▸ hij') (hk j'), fun he => absurd (he ▸ hij') (hl i')⟩
  · exact ⟨fun _ => rfl, fun _ => rfl⟩

theorem contains_eq (w : Matching) {path path' : List Nat}
    (hp : List.Forall₂ w.objects path path') {i j : Nat} (hij : w.objects i j) :
    path.contains i = path'.contains j := by
  induction hp with
  | nil => rfl
  | @cons k l path path' hkl _ ih =>
      have he : (i == k) = (j == l) := by
        rw [Bool.eq_iff_iff, beq_iff_eq, beq_iff_eq, w.objects_iff hij hkl]
      rw [List.contains_cons, List.contains_cons, he, ih]

end Matching

inductive Value.Like (w : Matching) : Value → Value → Prop
  | null : Like w .null .null
  | bool (b : Bool) : Like w (.bool b) (.bool b)
  | number (n : Number) : Like w (.number n) (.number n)
  | text (t : Text) : Like w (.text t) (.text t)
  | native (function : Native) : Like w (.native function) (.native function)
  | object {i j : Nat} (h : w.objects i j) : Like w (.object i) (.object j)
  | func (name : Name) (parameters : List Name) {body body' : List Stmt} {i j : Nat}
      (hb : List.Forall₂ Stmt.Nests body body') (h : w.scopes i j) :
      Like w (.func ⟨name, parameters, body⟩ i) (.func ⟨name, parameters, body'⟩ j)

structure Binding.Like (w : Matching) (b d : Binding) : Prop where
  value : b.value.Like w d.value
  constant : b.constant = d.constant

/-- Two scopes with the same names and matching values, inside matching older scopes. -/
structure Scope.Like (w : Matching) (i j : Nat) (c d : Scope) : Prop where
  parent : Option.Rel (fun p q => p < i ∧ q < j ∧ w.within p q) c.parent d.parent
  names : c.bindings.keys = d.bindings.keys
  bindings : ∀ name, Option.Rel (Binding.Like w) (c.bindings.get? name) (d.bindings.get? name)

/-- Two tables with the same names in the same order. -/
def Table.Like {α β : Type} (R : α → β → Prop) (t : Table α) (u : Table β) : Prop :=
  List.Forall₂ (fun a b => a.1 = b.1 ∧ R a.2 b.2) t.entries u.entries

structure Store.Like (w : Matching) (s t : Store) : Prop where
  scopes : ∀ {i j}, w.scopes i j →
    ∃ c d, s.scopes[i]? = some c ∧ t.scopes[j]? = some d ∧ Scope.Like w i j c d
  objects : ∀ {i j}, w.objects i j →
    ∃ a b, s.objects[i]? = some a ∧ t.objects[j]? = some b ∧ Table.Like (Value.Like w) a b
  hollow : ∀ {i j}, w.hollow i j →
    ∃ parent, t.scopes[j]? = some ⟨some parent, .empty⟩ ∧ parent < j ∧ w.within i parent

/-- Two results of a look at matching stores: the same error or matching values. -/
inductive Except.Like {ε α β : Type} (R : α → β → Prop) : Except ε α → Except ε β → Prop
  | error (e : ε) : Like R (.error e) (.error e)
  | ok {a : α} {b : β} (h : R a b) : Like R (.ok a) (.ok b)

theorem eq_of_rel {α β : Type} {R : α → β → Prop} {x : Option α} {y : Option β}
    (h : Option.Rel R x y) : (x = none ∧ y = none) ∨ ∃ a b, x = some a ∧ y = some b ∧ R a b := by
  cases h with
  | none => exact .inl ⟨rfl, rfl⟩
  | some h => exact .inr ⟨_, _, rfl, rfl, h⟩

theorem isSome_eq_of_rel {α β : Type} {R : α → β → Prop} {x : Option α} {y : Option β}
    (h : Option.Rel R x y) : x.isSome = y.isSome := by
  cases h <;> rfl

section
variable {w w' : Matching} (hw : w ≤ w')
include hw

theorem Value.Like.mono {v v' : Value} (h : v.Like w v') : v.Like w' v' := by
  cases h with
  | object h => exact .object (hw.2 _ _ h)
  | func name parameters hb h => exact .func name parameters hb (hw.1 _ _ h)
  | _ => constructor

theorem Binding.Like.mono {b d : Binding} (h : b.Like w d) : b.Like w' d :=
  ⟨h.value.mono hw, h.constant⟩

theorem Scope.Like.mono {i j : Nat} {c d : Scope} (h : Scope.Like w i j c d) :
    Scope.Like w' i j c d where
  parent := by
    obtain ⟨hp, hq⟩ | ⟨p, q, hp, hq, hlt, hlt', hpq⟩ := eq_of_rel h.parent
    · rw [hp, hq]
      exact .none
    · rw [hp, hq]
      exact .some ⟨hlt, hlt', Matching.within_mono hw hpq⟩
  names := h.names
  bindings name := by
    obtain ⟨hb, hd⟩ | ⟨b, d, hb, hd, hbd⟩ := eq_of_rel (h.bindings name)
    · rw [hb, hd]
      exact .none
    · rw [hb, hd]
      exact .some (hbd.mono hw)

theorem Table.Like.mono {t u : Table Value} (h : t.Like (Value.Like w) u) :
    t.Like (Value.Like w') u := h.imp fun _ _ h => ⟨h.1, h.2.mono hw⟩

end

namespace Table.Like

variable {α β : Type} {R : α → β → Prop} {t : Table α} {u : Table β}

theorem get? (h : t.Like R u) (name : Text) : Option.Rel R (t.get? name) (u.get? name) := by
  obtain ⟨l⟩ := t
  obtain ⟨l'⟩ := u
  rw [Table.Like] at h
  dsimp only at h
  induction h with
  | nil => exact .none
  | @cons a b l l' hab _ ih =>
      rw [Table.get?, Table.get?, Table.find?, Table.find?, hab.1]
      split
      · exact .some hab.2
      · exact ih

theorem set (h : t.Like R u) (name : Text) {a : α} {b : β} (hab : R a b) :
    (t.set name a).Like R (u.set name b) := by
  obtain ⟨l⟩ := t
  obtain ⟨l'⟩ := u
  rw [Table.Like] at h
  dsimp only at h
  induction h with
  | nil => exact .cons ⟨rfl, hab⟩ .nil
  | @cons x y l l' hxy hl ih =>
      simp only [Table.Like, Table.set, Table.put, hxy.1] at ih ⊢
      split
      · exact .cons ⟨rfl, hab⟩ hl
      · exact .cons ⟨rfl, hxy.2⟩ ih

/-- Tables that list the same names once each, with values that match by name. -/
theorem of_get? (hk : t.keys = u.keys) (hn : t.keys.Nodup)
    (h : ∀ name, Option.Rel R (t.get? name) (u.get? name)) : t.Like R u := by
  obtain ⟨l⟩ := t
  obtain ⟨l'⟩ := u
  rw [Table.Like]
  induction l generalizing l' with
  | nil =>
      cases l' with
      | nil => exact .nil
      | cons y l' => cases hk
  | cons x l ih =>
      cases l' with
      | nil => cases hk
      | cons y l' =>
          obtain ⟨hxy, hk⟩ := List.cons.inj hk
          obtain ⟨hx, hn⟩ := List.nodup_cons.mp hn
          refine .cons ⟨hxy, ?_⟩ (ih hn l' hk fun name => ?_)
          · have hv := h x.1
            simp only [Table.get?, Table.find?, if_true, hxy] at hv
            cases hv with
            | some hv => exact hv
          · by_cases hname : x.1 = name
            · -- the name is in neither of the rests
              have hx' : x.1 ∉ l'.map Prod.fst := hk ▸ hx
              rw [← hname, Table.get?_of_not_mem hx, Table.get?_of_not_mem hx']
              exact .none
            · have hv := h name
              simp only [Table.get?, Table.find?, if_neg hname, if_neg (hxy ▸ hname)] at hv
              exact hv

theorem isEmpty_eq (h : t.Like R u) : t.entries.isEmpty = u.entries.isEmpty := by
  obtain ⟨l⟩ := t
  obtain ⟨l'⟩ := u
  cases h <;> rfl

theorem map_eq {γ : Type} (h : t.Like R u) {f : Text × α → γ} {g : Text × β → γ}
    (hfg : ∀ name a b, R a b → f (name, a) = g (name, b)) : t.entries.map f = u.entries.map g := by
  obtain ⟨l⟩ := t
  obtain ⟨l'⟩ := u
  rw [Table.Like] at h
  dsimp only at h
  induction h with
  | nil => rfl
  | @cons x y l l' hxy _ ih =>
      obtain ⟨name, a⟩ := x
      obtain ⟨name', b⟩ := y
      obtain ⟨rfl, hab⟩ := hxy
      rw [List.map_cons, List.map_cons, ih, hfg name a b hab]

end Table.Like

theorem Value.Like.kind_eq {w : Matching} {v v' : Value} (h : v.Like w v') : v.kind = v'.kind := by
  cases h <;> rfl

namespace Store.Like

variable {w : Matching} {s t : Store} (h : s.Like w t)
include h

omit h in
theorem single {root : Nat} {c d : Scope} (hc : s.scopes[root]? = some c)
    (hd : t.scopes[root]? = some d) (hcd : Scope.Like (.single root) root root c d) :
    s.Like (.single root) t where
  scopes := by
    rintro i j ⟨rfl, rfl⟩
    exact ⟨c, d, hc, hd, hcd⟩
  objects h := h.elim
  hollow h := h.elim

theorem binding? {i j : Nat} (hij : w.scopes i j) (name : Text) :
    Option.Rel (Binding.Like w) (s.binding? i name) (t.binding? j name) := by
  obtain ⟨c, d, hc, hd, hcd⟩ := h.scopes hij
  rw [Store.binding?, Store.binding?, hc, hd]
  exact hcd.bindings name

theorem declarable {i j : Nat} (hij : w.scopes i j) (name : Text) :
    s.declarable i name = t.declarable j name := by
  rw [Store.declarable, Store.declarable, isSome_eq_of_rel (h.binding? hij name)]

theorem isConstant {i j : Nat} (hij : w.scopes i j) (name : Text) :
    s.isConstant i name = t.isConstant j name := by
  rw [Store.isConstant, Store.isConstant]
  obtain ⟨hb, hd⟩ | ⟨b, d, hb, hd, hbd⟩ := eq_of_rel (h.binding? hij name)
  · rw [hb, hd]
  · rw [hb, hd]
    exact hbd.constant

theorem lt_size {i j : Nat} (hij : w.within i j) : i < s.scopes.size ∧ j < t.scopes.size := by
  induction j using Nat.strongRecOn with
  | ind j ih =>
      obtain hij | hij := hij
      · obtain ⟨c, d, hc, hd, -⟩ := h.scopes hij
        exact ⟨(Array.getElem?_eq_some_iff.mp hc).1, (Array.getElem?_eq_some_iff.mp hd).1⟩
      · obtain ⟨q, hq, hlt, hiq⟩ := h.hollow hij
        exact ⟨(ih q hlt hiq).1, (Array.getElem?_eq_some_iff.mp hq).1⟩

/-- A name is found in paired scopes, if it is found. -/
theorem resolve? {i j : Nat} (hij : w.within i j) (name : Text) :
    Option.Rel w.scopes (s.resolve? i name) (t.resolve? j name) := by
  -- by induction on the scope of the second store, since its hollow scopes are gone through one
  -- by one while the search in the first store stays where it is
  induction j using Nat.strongRecOn generalizing i with
  | ind j ih =>
      obtain hij | hij := hij
      · obtain ⟨c, d, hc, hd, hcd⟩ := h.scopes hij
        have hn : c.bindings.contains name = d.bindings.contains name :=
          isSome_eq_of_rel (hcd.bindings name)
        rw [Store.resolve?, hc, Store.resolve?, hd]
        simp only [hn]
        split
        · exact .some hij
        · obtain ⟨hp, hq⟩ | ⟨p, q, hp, hq, hlt, hlt', hpq⟩ := eq_of_rel hcd.parent
          · simp only [hp, hq]
            exact .none
          · simp only [hp, hq, hlt, hlt', if_true]
            exact ih q hlt' hpq
      · obtain ⟨q, hq, hlt, hiq⟩ := h.hollow hij
        have hr : t.resolve? j name = t.resolve? q name := by
          rw [Store.resolve?, hq]
          simp only [hlt, if_true]
          rfl
        rw [hr]
        exact ih q hlt hiq

theorem assignable {i j : Nat} (hij : w.within i j) (name : Text) :
    Except.Like w.scopes (s.assignable i name) (t.assignable j name) := by
  rw [Store.assignable, Store.assignable]
  obtain ⟨ho, ho'⟩ | ⟨o, o', ho, ho', hoo⟩ := eq_of_rel (h.resolve? hij name)
  · rw [ho, ho']
    exact .error _
  · simp only [ho, ho', h.isConstant hoo name]
    split
    · exact .error _
    · exact .ok hoo

theorem lookup {i j : Nat} (hij : w.within i j) (name : Text) :
    Except.Like (Value.Like w) (s.lookup i name) (t.lookup j name) := by
  rw [Store.lookup, Store.lookup]
  obtain ⟨ho, ho'⟩ | ⟨o, o', ho, ho', hoo⟩ := eq_of_rel (h.resolve? hij name)
  · rw [ho, ho']
    exact .error _
  · rw [ho, ho', Option.bind_some, Option.bind_some]
    obtain ⟨hb, hd⟩ | ⟨b, d, hb, hd, hbd⟩ := eq_of_rel (h.binding? hoo name)
    · rw [hb, hd]
      exact .error _
    · rw [hb, hd]
      exact .ok hbd.value

theorem bind {i j : Nat} (hij : w.scopes i j) (name : Text) {b d : Binding} (hb : b.Like w d) :
    (s.bind i name b).Like w (t.bind j name d) where
  scopes := by
    intro i' j' hij'
    obtain ⟨c, d', hc, hd, hcd⟩ := h.scopes hij'
    rw [getElem?_scopes_bind, getElem?_scopes_bind, hc, hd]
    by_cases he : i = i'
    · rw [if_pos he, if_pos ((w.scopes_iff hij hij').mp he)]
      refine ⟨_, _, rfl, rfl, hcd.parent, ?_, fun key => ?_⟩
      · rw [Table.keys_set, Table.keys_set, hcd.names]
      · simp only [Table.get?_set]
        split
        · exact .some hb
        · exact hcd.bindings key
    · rw [if_neg he, if_neg fun hj => he ((w.scopes_iff hij hij').mpr hj)]
      exact ⟨c, d', rfl, rfl, hcd⟩
  objects := h.objects
  hollow := by
    intro i' j' hij'
    obtain ⟨q, hq, hlt, hiq⟩ := h.hollow hij'
    -- hollow scopes are in no pair, so nothing is bound in them
    have hj : j ≠ j' := fun he => w.apart hij' (he ▸ hij)
    exact ⟨q, by rw [getElem?_scopes_bind, if_neg hj, hq], hlt, hiq⟩

/-- What is alike stays so when scopes are made, if the matching says nothing new of what there
was. -/
theorem grow {w' : Matching} (hw : w ≤ w') {s' t' : Store}
    (hs : ∀ i < s.scopes.size, s'.scopes[i]? = s.scopes[i]?)
    (ht : ∀ j < t.scopes.size, t'.scopes[j]? = t.scopes[j]?) (ho : s'.objects = s.objects)
    (ho' : t'.objects = t.objects) (hobj : ∀ {i j}, w'.objects i j → w.objects i j)
    (hnew : ∀ {i j}, w'.scopes i j → w.scopes i j ∨
      ∃ c d, s'.scopes[i]? = some c ∧ t'.scopes[j]? = some d ∧ Scope.Like w' i j c d)
    (hnew' : ∀ {i j}, w'.hollow i j → w.hollow i j ∨
      ∃ q, t'.scopes[j]? = some ⟨some q, .empty⟩ ∧ q < j ∧ w'.within i q) : s'.Like w' t' where
  scopes hij := by
    obtain hij | hij := hnew hij
    · obtain ⟨c, d, hc, hd, hcd⟩ := h.scopes hij
      have hl := h.lt_size (.inl hij)
      exact ⟨c, d, (hs _ hl.1).trans hc, (ht _ hl.2).trans hd, hcd.mono hw⟩
    · exact hij
  objects hij := by
    obtain ⟨a, b, ha, hb, hab⟩ := h.objects (hobj hij)
    exact ⟨a, b, ho ▸ ha, ho' ▸ hb, hab.mono hw⟩
  hollow hij := by
    obtain hij | hij := hnew' hij
    · obtain ⟨q, hq, hlt, hiq⟩ := h.hollow hij
      exact ⟨q, (ht _ (h.lt_size (.inr hij)).2).trans hq, hlt, Matching.within_mono hw hiq⟩
    · exact hij

theorem newScope {i j : Nat} (hij : w.within i j) :
    ∃ w', w ≤ w' ∧ w'.scopes (s.newScope (some i)).1 (t.newScope (some j)).1 ∧
      (s.newScope (some i)).2.Like w' (t.newScope (some j)).2 := by
  have hl := h.lt_size hij
  -- paired scopes exist, so the numbers of the new ones are in no pair yet
  let w' : Matching :=
    { w with
      scopes := Matching.paired w.scopes s.scopes.size t.scopes.size
      scopes_iff := Matching.paired_iff w.scopes_iff
        (fun j hj => Nat.lt_irrefl _ (h.lt_size (.inl hj)).1)
        fun i hi => Nat.lt_irrefl _ (h.lt_size (.inl hi)).2
      apart := by
        rintro i j k hij (hk | ⟨rfl, rfl⟩)
        · exact w.apart hij hk
        · exact Nat.lt_irrefl _ (h.lt_size (.inr hij)).2 }
  have hw : w ≤ w' := ⟨fun _ _ => .inl, fun _ _ h => h, fun _ _ h => h⟩
  refine ⟨w', hw, .inr ⟨rfl, rfl⟩, h.grow hw ?_ ?_ rfl rfl id ?_ .inl⟩
  · intro k hk
    rw [getElem?_scopes_newScope, if_neg (Nat.ne_of_lt hk)]
  · intro k hk
    rw [getElem?_scopes_newScope, if_neg (Nat.ne_of_lt hk)]
  · rintro i' j' (hij' | ⟨rfl, rfl⟩)
    · exact .inl hij'
    · rw [getElem?_scopes_newScope, getElem?_scopes_newScope, if_pos rfl, if_pos rfl]
      exact .inr ⟨_, _, rfl, rfl, .some ⟨hl.1, hl.2, Matching.within_mono hw hij⟩, rfl,
        fun _ => .none⟩

/-- A scope that is made in the second store alone is hollow. -/
theorem newHollow {i j : Nat} (hij : w.within i j) :
    ∃ w', w ≤ w' ∧ w'.within i (t.newScope (some j)).1 ∧ s.Like w' (t.newScope (some j)).2 := by
  have hl := h.lt_size hij
  let w' : Matching :=
    { w with
      hollow := Matching.paired w.hollow i t.scopes.size
      apart := by
        rintro i j k (hij | ⟨rfl, rfl⟩) hk
        · exact w.apart hij hk
        · exact Nat.lt_irrefl _ (h.lt_size (.inl hk)).2 }
  have hw : w ≤ w' := ⟨fun _ _ h => h, fun _ _ h => h, fun _ _ => .inl⟩
  refine ⟨w', hw, .inr (.inr ⟨rfl, rfl⟩), h.grow hw ?_ ?_ rfl rfl id .inl ?_⟩
  · exact fun _ _ => rfl
  · intro k hk
    rw [getElem?_scopes_newScope, if_neg (Nat.ne_of_lt hk)]
  · rintro i' j' (hij' | ⟨rfl, rfl⟩)
    · exact .inl hij'
    · rw [getElem?_scopes_newScope, if_pos rfl]
      exact .inr ⟨j, rfl, hl.2, Matching.within_mono hw hij⟩

theorem newObject {a b : Table Value} (hab : a.Like (Value.Like w) b) :
    ∃ w', w ≤ w' ∧ w'.objects (s.newObject a).1 (t.newObject b).1 ∧
      (s.newObject a).2.Like w' (t.newObject b).2 := by
  have lt {i j : Nat} (hij : w.objects i j) : i < s.objects.size ∧ j < t.objects.size := by
    obtain ⟨a, b, ha, hb, -⟩ := h.objects hij
    exact ⟨(Array.getElem?_eq_some_iff.mp ha).1, (Array.getElem?_eq_some_iff.mp hb).1⟩
  let w' : Matching :=
    { w with
      objects := Matching.paired w.objects s.objects.size t.objects.size
      objects_iff := Matching.paired_iff w.objects_iff (fun j hj => Nat.lt_irrefl _ (lt hj).1)
        fun i hi => Nat.lt_irrefl _ (lt hi).2 }
  have hw : w ≤ w' := ⟨fun _ _ h => h, fun _ _ => .inl, fun _ _ h => h⟩
  refine ⟨w', hw, .inr ⟨rfl, rfl⟩, ?_, ?_, ?_⟩
  · intro i' j' hij'
    obtain ⟨c, d, hc, hd, hcd⟩ := h.scopes hij'
    exact ⟨c, d, hc, hd, hcd.mono hw⟩
  · simp only [Store.newObject, Array.getElem?_push]
    rintro i' j' (hij' | ⟨rfl, rfl⟩)
    · obtain ⟨a', b', ha, hb, hab'⟩ := h.objects hij'
      rw [if_neg (Nat.ne_of_lt (lt hij').1), if_neg (Nat.ne_of_lt (lt hij').2)]
      exact ⟨a', b', ha, hb, hab'.mono hw⟩
    · rw [if_pos rfl, if_pos rfl]
      exact ⟨a, b, rfl, rfl, hab.mono hw⟩
  · intro i' j' hij'
    obtain ⟨q, hq, hlt, hiq⟩ := h.hollow hij'
    exact ⟨q, hq, hlt, Matching.within_mono hw hiq⟩

theorem fields {i j : Nat} (hij : w.objects i j) :
    (s.fields i).Like (Value.Like w) (t.fields j) := by
  obtain ⟨a, b, ha, hb, hab⟩ := h.objects hij
  rw [Store.fields, Store.fields, ha, hb]
  exact hab

theorem setField {i j : Nat} (hij : w.objects i j) (key : Text) {v v' : Value}
    (hv : v.Like w v') : (s.setField i key v).Like w (t.setField j key v') where
  scopes := h.scopes
  objects := by
    intro i' j' hij'
    obtain ⟨a, b, ha, hb, hab⟩ := h.objects hij'
    simp only [Store.setField, Array.getElem?_modify, ha, hb]
    by_cases he : i = i'
    · rw [if_pos he, if_pos ((w.objects_iff hij hij').mp he)]
      exact ⟨_, _, rfl, rfl, hab.set key hv⟩
    · rw [if_neg he, if_neg fun hj => he ((w.objects_iff hij hij').mpr hj)]
      exact ⟨a, b, rfl, rfl, hab⟩
  hollow := h.hollow

theorem displayObject {path path' : List Nat} (hp : List.Forall₂ w.objects path path') {i j : Nat}
    (hij : w.objects i j) : s.displayObject path i = t.displayObject path' j := by
  have hf := h.fields hij
  obtain ⟨a, b, ha, hb, -⟩ := h.objects hij
  rw [Store.displayObject, Store.displayObject, hf.isEmpty_eq]
  split
  · rfl
  have hi : i < s.objects.size := (Array.getElem?_eq_some_iff.mp ha).1
  have hj : j < t.objects.size := (Array.getElem?_eq_some_iff.mp hb).1
  by_cases hc : path.contains i = true
  · rw [dif_pos hc, dif_pos ((w.contains_eq hp hij).symm.trans hc)]
  · rw [dif_neg hc, dif_neg fun hc' => hc ((w.contains_eq hp hij).trans hc'), dif_pos hi,
      dif_pos hj]
    congr 3
    refine hf.map_eq fun key v v' hv => ?_
    cases hv with
    | object hkl =>
        exact congrArg (key ++ Text.utf8 ": " ++ ·) (displayObject (.cons hij hp) hkl)
    | _ => rfl
termination_by s.unseen path
decreasing_by exact unseen_cons_lt s path i hi (Bool.eq_false_iff.mpr hc)

theorem display {v v' : Value} (hv : v.Like w v') : s.display v = t.display v' := by
  cases hv with
  | object hij => exact h.displayObject .nil hij
  | _ => rfl

end Store.Like

end Scripting
