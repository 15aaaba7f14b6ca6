import Scripting.Eval
import Scripting.Proofs.Machine.Memory
import Scripting.Proofs.Store.Lines
import Scripting.Proofs.Store.Tidy
import Scripting.Proofs.Store.Unfolding

/-!
The state of an evaluation as the memory of a machine. Each binding is an entry of one map or of
two, and each object has its keys apart from its fields. If names and keys are listed once each,
then the operations of the machine do to this image what those of the store do.
-/

namespace Scripting

def Function.node (f : Function) : FuncNode :=
  .mk (some f.name.token) (Name.tokens f.parameters) (Stmt.nodes f.body)

def Value.datum : Value → Datum
  | .null => .null
  | .bool value => .bool value
  | .number value => .number value
  | .text value => .text value
  | .object id => .object id
  | .native function => .native function
  | .func function scope => .func function.node scope

@[simp] theorem Value.kind_datum (v : Value) : v.datum.kind = v.kind := by
  cases v <;> rfl

/-- The names among entries that are bound as constants. -/
def Table.flags : List (Text × Binding) → List (Text × Bool)
  | [] => []
  | (name, b) :: rest => if b.constant then (name, true) :: flags rest else flags rest

def Table.constants (t : Table Binding) : Table Bool := ⟨flags t.entries⟩

def Scope.frame (c : Scope) : Frame where
  enclosing := c.parent
  values := c.bindings.map fun b => some b.value.datum
  constants := c.bindings.constants

def Table.record (t : Table Value) : Record := ⟨t.keys, t.map fun v => some v.datum⟩

def State.machine (s : State) : Machine where
  frames := s.store.scopes.map Scope.frame
  records := s.store.objects.map Table.record
  printed := s.printed
  readings := s.readings

/-- Names and keys are listed once each. -/
def Store.Distinct (s : Store) : Prop := s.Tidy fun _ => True

namespace Table

theorem find?_flags {entries : List (Text × Binding)} (h : (entries.map Prod.fst).Nodup)
    (name : Text) :
    find? name (flags entries) =
      if (find? name entries).any Binding.constant then some true else none := by
  induction entries with
  | nil => rfl
  | cons entry rest ih =>
      obtain ⟨key, b⟩ := entry
      obtain ⟨hn, hr⟩ := List.nodup_cons.mp h
      rw [flags, find?]
      by_cases hk : key = name
      · subst hk
        have ha : find? key rest = none := get?_of_not_mem (t := ⟨rest⟩) hn
        cases hb : b.constant with
        | true => simp [find?, hb]
        | false => simp [ih hr, ha, hb]
      · cases hb : b.constant with
        | true => simp [find?, hk, ih hr]
        | false => simp [hk, ih hr]

/-- A name that is new is a new constant, or none. -/
theorem flags_put_new {entries : List (Text × Binding)} {name : Text}
    (h : find? name entries = none) (v : Value) (constant : Bool) :
    flags (put name ⟨v, constant⟩ entries) =
      if constant then put name true (flags entries)
      else (flags entries).filter (·.1 ≠ name) := by
  induction entries with
  | nil => cases constant <;> rfl
  | cons entry rest ih =>
      obtain ⟨key, b⟩ := entry
      rw [find?] at h
      split at h
      · cases h
      · next hk =>
          rw [put, if_neg hk, flags, ih h, flags]
          cases b.constant <;> cases constant <;> simp [put, hk]

/-- Another value for a variable leaves the constants as they are. -/
theorem flags_put_variable {entries : List (Text × Binding)} {name : Text} {b : Binding}
    (h : find? name entries = some b) (hb : b.constant = false) (v : Value) :
    flags (put name ⟨v, false⟩ entries) = flags entries := by
  induction entries with
  | nil => cases h
  | cons entry rest ih =>
      obtain ⟨key, old⟩ := entry
      rw [find?] at h
      split at h
      · next hk =>
          cases h
          simp [put, hk, flags, hb]
      · next hk => simp only [put, hk, if_false, flags, ih h]

theorem get?_of_mem {α : Type} {t : Table α} (h : t.keys.Nodup) {entry : Text × α}
    (he : entry ∈ t.entries) : t.get? entry.1 = some entry.2 := by
  obtain ⟨entries⟩ := t
  simp only [keys, get?] at h he ⊢
  induction entries with
  | nil => cases he
  | cons first rest ih =>
      obtain ⟨hn, hr⟩ := List.nodup_cons.mp h
      rw [find?]
      obtain rfl | he := List.mem_cons.mp he
      · exact if_pos rfl
      · have hk : first.1 ≠ entry.1 := fun hk => hn (hk ▸ List.mem_map_of_mem he)
        rw [if_neg hk]
        exact ih hr he

/-- Going through the keys is going through the entries. -/
theorem mapM_keys {α β : Type} {t : Table α} {f : Text → Option β} {g : Text × α → β}
    (h : ∀ entry ∈ t.entries, f entry.1 = some (g entry)) :
    t.keys.mapM f = some (t.entries.map g) := by
  obtain ⟨entries⟩ := t
  simp only [keys] at h ⊢
  induction entries with
  | nil => rfl
  | cons first rest ih =>
      rw [List.forall_mem_cons] at h
      rw [List.map_cons, List.mapM_cons, h.1, ih h.2]
      rfl

theorem record_set (t : Table Value) (key : Text) (v : Value) :
    t.record.set key (some v.datum) = (t.set key v).record := by
  have hc : t.record.fields.contains key = true ↔ key ∈ t.keys := by
    rw [record, contains_map, contains, Option.isSome_iff_exists, mem_keys_iff]
  have hf : t.record.fields.set key (some v.datum) = (t.set key v).record.fields :=
    set_map (fun v : Value => some v.datum) t key v
  rw [Record.set, hf]
  refine congrArg (Record.mk · _) (Eq.trans ?_ (t.keys_set key v).symm)
  by_cases hk : key ∈ t.keys
  · rw [if_pos hk, if_pos (hc.mpr hk)]
    rfl
  · rw [if_neg hk, if_neg (mt hc.mp hk)]
    rfl

end Table

namespace Scope

@[simp] theorem enclosing_frame (c : Scope) : c.frame.enclosing = c.parent := rfl

@[simp] theorem contains_values (c : Scope) (name : Text) :
    c.frame.values.contains name = c.bindings.contains name := Table.contains_map ..

theorem get?_values (c : Scope) (name : Text) :
    c.frame.values.get? name = (c.bindings.get? name).map fun b => some b.value.datum :=
  Table.get?_map ..

theorem isConstant_frame {c : Scope} (h : c.bindings.keys.Nodup) (name : Text) :
    c.frame.isConstant name = (c.bindings.get? name).any Binding.constant := by
  have hf : c.frame.constants.get? name = _ := Table.find?_flags h name
  rw [Frame.isConstant, hf, Table.get?]
  cases (Table.find? name c.bindings.entries).any Binding.constant <;> rfl

theorem define_frame {c : Scope} {name : Text} (h : c.bindings.get? name = none) (v : Value)
    (constant : Bool) : c.frame.define name (some v.datum) constant =
      Scope.frame { c with bindings := c.bindings.set name ⟨v, constant⟩ } := by
  have hv : c.frame.values.set name (some v.datum) = _ :=
    Table.set_map (fun b : Binding => some b.value.datum) c.bindings name ⟨v, constant⟩
  have hc := Table.flags_put_new h v constant
  rw [Frame.define, hv]
  refine congrArg (Frame.mk c.parent _) ?_
  cases constant with
  | true => exact congrArg Table.mk hc.symm
  | false => exact congrArg Table.mk hc.symm

theorem reassign_frame {c : Scope} {name : Text} {b : Binding} (h : c.bindings.get? name = some b)
    (hb : b.constant = false) (v : Value) :
    { c.frame with values := c.frame.values.set name (some v.datum) } =
      Scope.frame { c with bindings := c.bindings.set name ⟨v, false⟩ } := by
  have hv : c.frame.values.set name (some v.datum) = _ :=
    Table.set_map (fun b : Binding => some b.value.datum) c.bindings name ⟨v, false⟩
  have hc := Table.flags_put_variable h hb v
  rw [hv]
  exact congrArg (Frame.mk c.parent _) (congrArg Table.mk hc.symm)

end Scope

/-- Changing the image of one element. -/
theorem modify_image {α β : Type} {image : α → β} {f : α → α} {g : β → β} {xs : Array α} {i : Nat}
    (h : ∀ a, xs[i]? = some a → g (image a) = image (f a)) :
    (xs.map image).modify i g = (xs.modify i f).map image := by
  apply Array.ext_getElem?
  intro j
  simp only [Array.getElem?_modify, Array.getElem?_map]
  split
  · next hj =>
      subst hj
      cases ha : xs[i]? with
      | none => rfl
      | some a => exact congrArg some (h a ha)
  · rfl

namespace State

variable (s : State)

theorem getElem?_frames (scope : Nat) :
    s.machine.frames[scope]? = s.store.scopes[scope]?.map Scope.frame := Array.getElem?_map

theorem newFrame_machine (parent : Option Nat) :
    s.machine.newFrame parent = ((s.store.newScope parent).1,
      { s with store := (s.store.newScope parent).2 }.machine) := by
  simp only [Machine.newFrame, machine, Store.newScope, Array.size_map, Array.map_push]
  rfl

theorem newRecord_machine (fields : Table Value) :
    s.machine.newRecord fields.record = ((s.store.newObject fields).1,
      { s with store := (s.store.newObject fields).2 }.machine) := by
  have hb : fields.record.fields.entries.any (·.2.isNone) = false := by
    simp [Table.record, Table.map]
  simp only [Machine.newRecord, hb, machine, Store.newObject, Array.size_map, Array.map_push]
  rfl

theorem resolve?_machine (scope : Nat) (name : Text) :
    s.machine.resolve? scope name = s.store.resolve? scope name := by
  fun_induction Store.resolve? s.store scope name with
  | case1 scope hc => rw [Machine.resolve?, getElem?_frames, hc]; rfl
  | case2 scope c hc hn =>
      rw [Machine.resolve?, getElem?_frames, hc]
      simp [hn]
  | case3 scope c hc hn hp =>
      rw [Machine.resolve?, getElem?_frames, hc]
      simp [hn, hp]
  | case4 scope c hc hn parent hp hlt ih =>
      rw [Machine.resolve?, getElem?_frames, hc]
      simp [hn, hp, hlt, ih]
  | case5 scope c hc hn parent hp hlt =>
      rw [Machine.resolve?, getElem?_frames, hc]
      simp [hn, hp, hlt]

theorem lookup_machine (scope : Nat) (name : Text) :
    s.machine.lookup scope name = (s.store.lookup scope name).map fun v => some v.datum := by
  rw [Machine.lookup, Store.lookup, resolve?_machine]
  cases hr : s.store.resolve? scope name with
  | none => rfl
  | some owner =>
      obtain ⟨-, b, hb⟩ := Store.binding?_of_resolve? hr
      obtain ⟨c, hc, hn⟩ := Option.bind_eq_some_iff.mp hb
      simp only [Option.bind_some, hb, getElem?_frames, hc, Option.map_some, Scope.get?_values, hn,
        Option.join_some]
      rfl

theorem define_machine {scope : Nat} {name : Text} (hn : s.store.binding? scope name = none)
    (v : Value) (constant : Bool) : s.machine.define scope name (some v.datum) constant =
      { s with store := s.store.bind scope name ⟨v, constant⟩ }.machine := by
  have hf : s.machine.frames.modify scope (·.define name (some v.datum) constant) = _ :=
    modify_image fun c hc => Scope.define_frame (by rwa [Store.binding?, hc] at hn) v constant
  rw [Machine.define, hf]
  rfl

theorem declare_machine (scope : Nat) (name : Text) (v : Value) (constant : Bool) :
    s.machine.declare scope name (some v.datum) constant =
      (s.store.declarable scope name).map fun _ =>
        { s with store := s.store.bind scope name ⟨v, constant⟩ }.machine := by
  have hb : s.machine.frames[scope]?.any (·.values.contains name) =
      (s.store.binding? scope name).isSome := by
    rw [getElem?_frames, Store.binding?]
    cases s.store.scopes[scope]? with
    | none => rfl
    | some c => exact c.contains_values name
  rw [Machine.declare, hb, Store.declarable]
  cases hn : s.store.binding? scope name with
  | some b => rfl
  | none =>
      rw [s.define_machine hn]
      rfl

theorem assign_machine (hs : s.store.Distinct) (scope : Nat) (name : Text) (v : Value) :
    s.machine.assign scope name (some v.datum) =
      (s.store.assignable scope name).map fun owner =>
        { s with store := s.store.bind owner name ⟨v, false⟩ }.machine := by
  rw [Machine.assign, resolve?_machine, Store.assignable]
  cases hr : s.store.resolve? scope name with
  | none => rfl
  | some owner =>
      obtain ⟨-, b, hb⟩ := Store.binding?_of_resolve? hr
      obtain ⟨c, hc, hn⟩ := Option.bind_eq_some_iff.mp hb
      have hk : s.machine.frames[owner]?.any (·.isConstant name) = b.constant := by
        rw [getElem?_frames, hc, Option.map_some, Option.any_some,
          Scope.isConstant_frame (hs.scopes hc).nodup, hn, Option.any_some]
      simp only [hk, Store.isConstant, hb, Option.any_some]
      cases hbc : b.constant with
      | true => rfl
      | false =>
          have hf : s.machine.frames.modify owner (fun f =>
              { f with values := f.values.set name (some v.datum) }) = _ :=
            modify_image fun d hd =>
              Scope.reassign_frame (by cases hc.symm.trans hd; exact hn) hbc v
          simp only [Bool.false_eq_true, if_false, hf]
          rfl

theorem record_machine (object : Nat) :
    s.machine.record object = (s.store.fields object).record := by
  rw [Machine.record, Store.fields]
  have ho : s.machine.records[object]? = s.store.objects[object]?.map Table.record :=
    Array.getElem?_map
  rw [ho]
  cases s.store.objects[object]? <;> rfl

theorem setField_machine (object : Nat) (key : Text) (v : Value) :
    s.machine.setField object key (some v.datum) =
      { s with store := s.store.setField object key v }.machine := by
  have hf : s.machine.records.modify object (·.set key (some v.datum)) = _ :=
    modify_image fun t _ => t.record_set key v
  rw [Machine.setField, hf]
  rfl

/-! ## Texts -/

theorem field?_datum {path : List Nat} {inner : Nat → Option Text}
    (h : ∀ id, inner id = some (s.store.displayObject path id)) (v : Value) :
    Machine.field? inner (some v.datum) = some (s.store.displayBelow path v) := by
  cases v with
  | object id => exact h id
  | _ => rfl

/-- Every key of an object has a field, so that its text comes about. -/
theorem showFields?_record {path : List Nat} {inner : Nat → Option Text}
    (h : ∀ id, inner id = some (s.store.displayObject path id)) {t : Table Value}
    (ht : t.keys.Nodup) : Machine.showFields? inner t.record = some (t.entries.map fun entry =>
      entry.1 ++ Text.utf8 ": " ++ s.store.displayBelow path entry.2) := by
  refine Table.mapM_keys fun entry hm => ?_
  have hg : t.record.fields.get? entry.1 = some (some entry.2.datum) :=
    (Table.get?_map ..).trans (congrArg _ (Table.get?_of_mem ht hm))
  rw [hg, Option.join_some, s.field?_datum h]
  rfl

theorem showObject?_machine (hs : s.store.Distinct) {fuel : Nat} {path : List Nat}
    (hf : s.store.unseen path < fuel) (id : Nat) :
    s.machine.showObject? fuel path id = some (s.store.displayObject path id) := by
  induction fuel generalizing path id with
  | zero => exact absurd hf (Nat.not_lt_zero _)
  | succ fuel ih =>
      have hk : (s.store.fields id).record.keys.isEmpty = (s.store.fields id).entries.isEmpty :=
        List.isEmpty_map
      rw [Machine.showObject?, record_machine, hk]
      by_cases hn : (s.store.fields id).entries = []
      · rw [Store.displayObject, hn]
        rfl
      by_cases hp : id ∈ path
      · rw [if_neg (by simpa using hn), if_pos (by simpa using hp), Store.displayObject,
          if_neg (by simpa using hn), dif_pos (by simpa using hp)]
      · have hlt : s.store.unseen (id :: path) < fuel := by
          have := Store.unseen_cons_lt s.store path id (Store.lt_size_of_entries hn)
            (by simpa using hp)
          omega
        rw [if_neg (by simpa using hn), if_neg (by simpa using hp), Store.displayObject_full hn hp,
          s.showFields?_record (fun inner => ih hlt inner) (hs.fields id).nodup]
        rfl

theorem display?_machine (hs : s.store.Distinct) (v : Value) :
    s.machine.display? v.datum = some (s.store.display v) := by
  cases v with
  | object id =>
      refine showObject?_machine s hs ?_ id
      rw [Store.unseen_nil, machine, Array.size_map]
      exact Nat.lt_succ_self _
  | _ => rfl

end State

end Scripting
