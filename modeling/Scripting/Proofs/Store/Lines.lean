import Scripting.Proofs.Program.Lines
import Scripting.Store.Display

/-!
Changing the lines that functions in a store keep. No rule of the scopes and no text of a
value depends on them.
-/

namespace Scripting

namespace Table

variable {α β γ : Type}

def map (f : α → β) (t : Table α) : Table β := ⟨t.entries.map fun entry => (entry.1, f entry.2)⟩

theorem find?_map (f : α → β) (name : Text) (entries : List (Text × α)) :
    find? name (entries.map fun entry => (entry.1, f entry.2)) = (find? name entries).map f := by
  induction entries with
  | nil => rfl
  | cons entry rest ih =>
      by_cases h : entry.1 = name
      · simp [find?, h]
      · simp [find?, h, ih]

theorem put_map (f : α → β) (name : Text) (value : α) (entries : List (Text × α)) :
    put name (f value) (entries.map fun entry => (entry.1, f entry.2)) =
      (put name value entries).map fun entry => (entry.1, f entry.2) := by
  induction entries with
  | nil => rfl
  | cons entry rest ih =>
      by_cases h : entry.1 = name
      · simp [put, h]
      · simp [put, h, ih]

theorem get?_map (f : α → β) (t : Table α) (name : Text) :
    (t.map f).get? name = (t.get? name).map f := find?_map f name t.entries

theorem contains_map (f : α → β) (t : Table α) (name : Text) :
    (t.map f).contains name = t.contains name := by
  rw [contains, get?_map, Option.isSome_map, contains]

theorem set_map (f : α → β) (t : Table α) (name : Text) (value : α) :
    (t.map f).set name (f value) = (t.set name value).map f :=
  congrArg Table.mk (put_map f name value t.entries)

theorem map_map (f : α → β) (g : β → γ) (t : Table α) :
    (t.map f).map g = t.map fun a => g (f a) := congrArg Table.mk List.map_map

theorem map_id (t : Table α) : (t.map fun a => a) = t := congrArg Table.mk (List.map_id _)

end Table

variable (f g : Nat → Nat)

def Function.mapLines (function : Function) : Function :=
  ⟨function.name.mapLine f, function.parameters.map (Name.mapLine f),
    Stmt.mapLinesEach f function.body⟩

def Value.mapLines : Value → Value
  | .func function scope => .func (function.mapLines f) scope
  | other => other

def Binding.mapLines (b : Binding) : Binding := { b with value := b.value.mapLines f }

def Scope.mapLines (c : Scope) : Scope := { c with bindings := c.bindings.map (Binding.mapLines f) }

def Store.mapLines (s : Store) : Store :=
  ⟨s.scopes.map (Scope.mapLines f), s.objects.map (Table.map (Value.mapLines f))⟩

@[simp] theorem Value.kind_mapLines (v : Value) : (v.mapLines f).kind = v.kind := by
  cases v <;> rfl

theorem Function.mapLines_mapLines (function : Function) :
    (function.mapLines f).mapLines g = function.mapLines fun l => g (f l) := by
  simp only [Function.mapLines, List.map_map, Stmt.mapLinesEach_mapLinesEach]
  rfl

theorem Function.mapLines_id (function : Function) : function.mapLines (fun l => l) = function := by
  simp only [Function.mapLines, Stmt.mapLinesEach_id]
  exact congrArg (Function.mk function.name · function.body) (List.map_id function.parameters)

theorem Value.mapLines_mapLines (v : Value) :
    (v.mapLines f).mapLines g = v.mapLines fun l => g (f l) := by
  cases v with
  | func function scope => simp only [Value.mapLines, Function.mapLines_mapLines]
  | _ => rfl

theorem Value.mapLines_id (v : Value) : v.mapLines (fun l => l) = v := by
  cases v with
  | func function scope => simp only [Value.mapLines, Function.mapLines_id]
  | _ => rfl

namespace Store

variable (s : Store)

theorem mapLines_mapLines : (s.mapLines f).mapLines g = s.mapLines fun l => g (f l) := by
  have hb (b : Binding) : (b.mapLines f).mapLines g = b.mapLines fun l => g (f l) := by
    simp only [Binding.mapLines, Value.mapLines_mapLines]
  have hc (c : Scope) : (c.mapLines f).mapLines g = c.mapLines fun l => g (f l) := by
    simp only [Scope.mapLines, Table.map_map, hb]
  simp only [mapLines, Array.map_map, Function.comp_def, hc, Table.map_map,
    Value.mapLines_mapLines]

theorem mapLines_id : s.mapLines (fun l => l) = s := by
  have hb : Binding.mapLines (fun l => l) = fun b => b := by
    funext b
    simp only [Binding.mapLines, Value.mapLines_id]
  have hc : Scope.mapLines (fun l => l) = fun c => c := by
    funext c
    simp only [Scope.mapLines, hb, Table.map_id]
  have hv : Value.mapLines (fun l => l) = fun v => v := funext Value.mapLines_id
  have ht : (Table.map fun v : Value => v) = fun t => t := funext Table.map_id
  simp only [mapLines, hc, hv, ht]
  exact congr (congrArg Store.mk (Array.map_id _)) (Array.map_id _)

theorem newScope_mapLines (parent : Option Nat) :
    (s.mapLines f).newScope parent =
      ((s.newScope parent).1, (s.newScope parent).2.mapLines f) := by
  simp only [newScope, mapLines, Array.size_map, Array.map_push]
  rfl

theorem newObject_mapLines (fields : Table Value) :
    (s.mapLines f).newObject (fields.map (Value.mapLines f)) =
      ((s.newObject fields).1, (s.newObject fields).2.mapLines f) := by
  simp only [newObject, mapLines, Array.size_map, Array.map_push]

theorem getElem?_scopes_mapLines (scope : Nat) :
    (s.mapLines f).scopes[scope]? = s.scopes[scope]?.map (Scope.mapLines f) := Array.getElem?_map

theorem binding?_mapLines (scope : Nat) (name : Text) :
    (s.mapLines f).binding? scope name = (s.binding? scope name).map (Binding.mapLines f) := by
  rw [binding?, binding?, getElem?_scopes_mapLines]
  cases s.scopes[scope]? with
  | none => rfl
  | some c => exact Table.get?_map (Binding.mapLines f) c.bindings name

theorem modify_map {α β : Type} (h : α → β) (k : α → α) (k' : β → β) (hk : ∀ a, k' (h a) = h (k a))
    (xs : Array α) (i : Nat) : (xs.map h).modify i k' = (xs.modify i k).map h := by
  apply Array.ext_getElem?
  intro j
  simp only [Array.getElem?_modify, Array.getElem?_map]
  split
  · simp only [Option.map_map, Function.comp_def, hk]
  · rfl

theorem bind_mapLines (scope : Nat) (name : Text) (b : Binding) :
    (s.mapLines f).bind scope name (b.mapLines f) = (s.bind scope name b).mapLines f := by
  simp only [bind, mapLines]
  rw [modify_map (Scope.mapLines f) fun c => { c with bindings := c.bindings.set name b }]
  intro c
  simp only [Scope.mapLines, Table.set_map]

theorem setField_mapLines (object : Nat) (key : Text) (value : Value) :
    (s.mapLines f).setField object key (value.mapLines f) =
      (s.setField object key value).mapLines f := by
  simp only [setField, mapLines]
  rw [modify_map (Table.map (Value.mapLines f)) (·.set key value)]
  intro t
  exact Table.set_map (Value.mapLines f) t key value

theorem resolve?_mapLines (scope : Nat) (name : Text) :
    (s.mapLines f).resolve? scope name = s.resolve? scope name := by
  fun_induction resolve? s scope name with
  | case1 scope hc => rw [resolve?, getElem?_scopes_mapLines, hc]; rfl
  | case2 scope c hc hn =>
      rw [resolve?, getElem?_scopes_mapLines, hc]
      simp [Scope.mapLines, Table.contains_map, hn]
  | case3 scope c hc hn hp =>
      rw [resolve?, getElem?_scopes_mapLines, hc]
      simp [Scope.mapLines, Table.contains_map, hn, hp]
  | case4 scope c hc hn parent hp hlt ih =>
      rw [resolve?, getElem?_scopes_mapLines, hc]
      simp [Scope.mapLines, Table.contains_map, hn, hp, hlt, ih]
  | case5 scope c hc hn parent hp hlt =>
      rw [resolve?, getElem?_scopes_mapLines, hc]
      simp [Scope.mapLines, Table.contains_map, hn, hp, hlt]

theorem declarable_mapLines (scope : Nat) (name : Text) :
    (s.mapLines f).declarable scope name = s.declarable scope name := by
  rw [declarable, declarable, binding?_mapLines, Option.isSome_map]

theorem isConstant_mapLines (scope : Nat) (name : Text) :
    (s.mapLines f).isConstant scope name = s.isConstant scope name := by
  rw [isConstant, isConstant, binding?_mapLines]
  cases s.binding? scope name <;> rfl

theorem assignable_mapLines (scope : Nat) (name : Text) :
    (s.mapLines f).assignable scope name = s.assignable scope name := by
  simp only [assignable, resolve?_mapLines, isConstant_mapLines]

theorem lookup_mapLines (scope : Nat) (name : Text) :
    (s.mapLines f).lookup scope name = (s.lookup scope name).map (Value.mapLines f) := by
  have hb : ((s.resolve? scope name).bind ((s.mapLines f).binding? · name)) =
      ((s.resolve? scope name).bind (s.binding? · name)).map (Binding.mapLines f) := by
    cases s.resolve? scope name with
    | none => rfl
    | some owner => exact binding?_mapLines f s owner name
  rw [lookup, lookup, resolve?_mapLines, hb]
  cases (s.resolve? scope name).bind (s.binding? · name) <;> rfl

theorem declare_mapLines (scope : Nat) (name : Text) (value : Value) (constant : Bool) :
    (s.mapLines f).declare scope name (value.mapLines f) constant =
      (s.declare scope name value constant).map (Store.mapLines f) := by
  rw [declare, declare, declarable_mapLines]
  cases s.declarable scope name with
  | error e => rfl
  | ok _ => exact congrArg Except.ok (bind_mapLines f s scope name ⟨value, constant⟩)

theorem fields_mapLines (object : Nat) :
    (s.mapLines f).fields object = (s.fields object).map (Value.mapLines f) := by
  rw [fields, fields, mapLines, Array.getElem?_map]
  cases s.objects[object]? <;> rfl

theorem size_objects_mapLines : (s.mapLines f).objects.size = s.objects.size := Array.size_map

theorem displayObject_mapLines (path : List Nat) (id : Nat) :
    (s.mapLines f).displayObject path id = s.displayObject path id := by
  rw [displayObject, displayObject, fields_mapLines, Table.map, List.isEmpty_map]
  split
  · rfl
  by_cases hp : path.contains id = true
  · rw [dif_pos hp, dif_pos hp]
  by_cases hid : id < s.objects.size
  · rw [dif_neg hp, dif_neg hp, dif_pos ((size_objects_mapLines f s).symm ▸ hid), dif_pos hid,
      List.map_map]
    congr 3
    apply List.map_congr_left
    rintro ⟨key, value⟩ -
    cases value with
    | object inner =>
        exact congrArg (key ++ Text.utf8 ": " ++ ·) (displayObject_mapLines (id :: path) inner)
    | _ => rfl
  · rw [dif_neg hp, dif_neg hp, dif_neg ((size_objects_mapLines f s).symm ▸ hid), dif_neg hid]
termination_by s.unseen path
decreasing_by exact unseen_cons_lt s path id hid (Bool.eq_false_iff.mpr hp)

theorem display_mapLines (v : Value) :
    (s.mapLines f).display (v.mapLines f) = s.display v := by
  cases v with
  | object id => exact displayObject_mapLines f s [] id
  | _ => rfl

end Store

end Scripting
