import Scripting.Session

/-!
What the operations on a store do to its bindings, and what the looks before them tell. A
name that can be declared is bound nowhere in its scope, and one that can be assigned to is
bound in the scope found for it, and not as a constant.
-/

namespace Scripting

theorem Table.mem_of_find? {α : Type} {entries : List (Text × α)} {name : Text} {a : α}
    (h : find? name entries = some a) : (name, a) ∈ entries := by
  induction entries with
  | nil => cases h
  | cons entry rest ih =>
      rw [find?] at h
      split at h
      · next hk =>
          cases h
          rw [← hk]
          exact List.mem_cons_self ..
      · exact List.mem_cons_of_mem _ (ih h)

theorem Table.keys_put {α : Type} (name : Text) (value : α) (entries : List (Text × α)) :
    (put name value entries).map Prod.fst =
      if name ∈ entries.map Prod.fst then entries.map Prod.fst
      else entries.map Prod.fst ++ [name] := by
  induction entries with
  | nil => rfl
  | cons first rest ih =>
      by_cases hk : first.1 = name
      · simp [put, hk]
      · by_cases hm : name ∈ rest.map Prod.fst
        · have hn : name ∈ first.1 :: rest.map Prod.fst := List.mem_cons_of_mem _ hm
          simp only [put, if_neg hk, List.map_cons, ih, if_pos hm, if_pos hn]
        · have hn : name ∉ first.1 :: rest.map Prod.fst := by simp [Ne.symm hk, hm]
          simp only [put, if_neg hk, List.map_cons, ih, if_neg hm, if_neg hn, List.cons_append]

theorem Table.keys_set {α : Type} (t : Table α) (name : Text) (value : α) :
    (t.set name value).keys = if name ∈ t.keys then t.keys else t.keys ++ [name] :=
  keys_put name value t.entries

theorem Table.mem_keys_iff {α : Type} (t : Table α) (key : Text) :
    key ∈ t.keys ↔ ∃ a, t.get? key = some a := by
  obtain ⟨entries⟩ := t
  simp only [keys, get?]
  induction entries with
  | nil => simp [find?]
  | cons first rest ih =>
      by_cases hk : first.1 = key
      · simp [find?, hk]
      · simp [find?, hk, Ne.symm hk, ← ih]

theorem Table.get?_of_not_mem {α : Type} {t : Table α} {key : Text} (h : key ∉ t.keys) :
    t.get? key = none := by
  rw [t.mem_keys_iff] at h
  exact Option.eq_none_iff_forall_ne_some.mpr fun a ha => h ⟨a, ha⟩

theorem Table.mem_put {α : Type} {name : Text} {value : α} {entries : List (Text × α)}
    {entry : Text × α} (h : entry ∈ put name value entries) :
    entry ∈ entries ∨ entry = (name, value) := by
  induction entries with
  | nil => exact .inr (List.mem_singleton.mp h)
  | cons first rest ih =>
      rw [put] at h
      split at h
      · next hk =>
          obtain rfl | h := List.mem_cons.mp h
          · exact .inr (hk ▸ rfl)
          · exact .inl (List.mem_cons_of_mem _ h)
      · obtain rfl | h := List.mem_cons.mp h
        · exact .inl (List.mem_cons_self ..)
        · exact (ih h).imp_left (List.mem_cons_of_mem _)

theorem Table.nodup_keys_set {α : Type} {t : Table α} (h : t.keys.Nodup) (name : Text)
    (value : α) : (t.set name value).keys.Nodup := by
  rw [keys_set]
  by_cases hn : name ∈ t.keys
  · rw [if_pos hn]
    exact h
  · rw [if_neg hn]
    exact List.nodup_append.mpr ⟨h, by simp, fun a ha b hb he => hn (by simp_all)⟩

/-- The built-in values are booleans, null and functions that are not the host's. -/
theorem Builtin.forall_values {P : Value → Prop} (hb : ∀ b, P (.bool b)) (hn : P .null)
    (hf : ∀ function : Native, (∀ name, function ≠ .host name) → P (.native function)) :
    ∀ entry ∈ all, P entry.2 := by
  simp only [all, List.forall_mem_append, List.forall_mem_cons, List.map_cons, List.map_nil]
  exact ⟨⟨hb _, hb _, hn, hf _ nofun, hf _ nofun, nofun⟩, hf _ nofun, hf _ nofun, hf _ nofun,
    hf _ nofun, hf _ nofun, hf _ nofun, hf _ nofun, nofun⟩

namespace Store

variable (s : Store)

theorem getElem?_scopes_bind (scope : Nat) (name : Text) (b : Binding) (other : Nat) :
    (s.bind scope name b).scopes[other]? =
      if scope = other then
        s.scopes[other]?.map fun c => { c with bindings := c.bindings.set name b }
      else s.scopes[other]? := by
  rw [bind, Array.getElem?_modify]

theorem binding?_bind (scope : Nat) (name : Text) (b : Binding) (other : Nat) (key : Text) :
    (s.bind scope name b).binding? other key =
      if scope = other ∧ name = key then s.scopes[other]?.map fun _ => b
      else s.binding? other key := by
  rw [binding?, binding?, getElem?_scopes_bind]
  by_cases hs : scope = other
  · cases s.scopes[other]? with
    | none => simp
    | some c => by_cases hn : name = key <;> simp [hs, hn]
  · simp [hs]

theorem getElem?_scopes_newScope (parent : Option Nat) (other : Nat) :
    (s.newScope parent).2.scopes[other]? =
      if other = s.scopes.size then some ⟨parent, .empty⟩ else s.scopes[other]? := by
  rw [newScope, Array.getElem?_push]

theorem binding?_newScope (parent : Option Nat) (scope : Nat) (name : Text) :
    (s.newScope parent).2.binding? scope name = s.binding? scope name := by
  rw [binding?, binding?, getElem?_scopes_newScope]
  split
  · next h =>
      rw [h, Array.getElem?_eq_none (Nat.le_refl _)]
      rfl
  · rfl

variable {s}

theorem lt_size_of_binding? {scope : Nat} {name : Text} {b : Binding}
    (h : s.binding? scope name = some b) : scope < s.scopes.size := by
  obtain ⟨c, hc, -⟩ := Option.bind_eq_some_iff.mp h
  exact (Array.getElem?_eq_some_iff.mp hc).1

theorem binding?_of_declarable {scope : Nat} {name : Text}
    (h : s.declarable scope name = .ok ()) : s.binding? scope name = none := by
  rw [declarable] at h
  split at h
  · cases h
  · next hb => exact Option.not_isSome_iff_eq_none.mp hb

/-- A scope found for a name binds it, and is the given one or an older one. -/
theorem binding?_of_resolve? {scope owner : Nat} {name : Text}
    (h : s.resolve? scope name = some owner) :
    owner ≤ scope ∧ ∃ b, s.binding? owner name = some b := by
  fun_induction resolve? s scope name with
  | case1 scope hc => cases h
  | case2 scope c hc hn =>
      cases h
      refine ⟨Nat.le_refl _, ?_⟩
      rw [binding?, hc]
      exact Option.isSome_iff_exists.mp hn
  | case3 scope c hc hn hp => cases h
  | case4 scope c hc hn parent hp hlt ih =>
      obtain ⟨hle, hb⟩ := ih h
      exact ⟨Nat.le_trans hle (Nat.le_of_lt hlt), hb⟩
  | case5 scope c hc hn parent hp hlt => cases h

theorem binding?_of_assignable {scope owner : Nat} {name : Text}
    (h : s.assignable scope name = .ok owner) :
    s.resolve? scope name = some owner ∧
      ∃ b, s.binding? owner name = some b ∧ b.constant = false := by
  rw [assignable] at h
  cases hr : s.resolve? scope name with
  | none => rw [hr] at h; cases h
  | some found =>
      simp only [hr] at h
      by_cases hc : s.isConstant found name = true
      · rw [if_pos hc] at h
        cases h
      · rw [if_neg hc] at h
        cases h
        obtain ⟨-, b, hb⟩ := binding?_of_resolve? hr
        rw [isConstant, hb] at hc
        exact ⟨rfl, b, hb, Bool.eq_false_iff.mpr hc⟩

theorem binding?_of_lookup {scope : Nat} {name : Text} {v : Value}
    (h : s.lookup scope name = .ok v) :
    ∃ owner b, s.resolve? scope name = some owner ∧ s.binding? owner name = some b ∧
      b.value = v := by
  rw [lookup] at h
  split at h
  · cases h
  · next b hb =>
      cases h
      obtain ⟨owner, ho, hb⟩ := Option.bind_eq_some_iff.mp hb
      exact ⟨owner, b, ho, hb, rfl⟩

end Store

end Scripting
