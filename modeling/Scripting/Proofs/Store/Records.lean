import Scripting.Proofs.Store.Bindings

/-!
Objects by what has been stored in them. A table has the keys that were stored under, each at the
place of its first time, and the values that were stored last. The uses of objects tell what has
been stored in each of them: what it was made with, and what was set in it since. A store is
recorded by uses if its objects are what these tell.
-/

namespace Scripting

namespace Table

variable {α : Type} {t : Table α} {stored : List (Text × α)}

/-- The value that was stored last under a key. -/
def last? (key : Text) (stored : List (Text × α)) : Option α :=
  (stored.filter fun entry => entry.1 = key).getLast?.map Prod.snd

/-- A table after values were stored in it one after the other: it has their keys in the order in
which they first came, and under each the value that came last. -/
structure StoredBy (stored : List (Text × α)) (t : Table α) : Prop where
  keys_eq : t.keys = (stored.map Prod.fst).eraseDups
  get?_eq : ∀ key, t.get? key = last? key stored

theorem last?_concat (key : Text) (stored : List (Text × α)) (entry : Text × α) :
    last? key (stored ++ [entry]) = if entry.1 = key then some entry.2 else last? key stored := by
  rw [last?, last?, List.filter_append, List.getLast?_append]
  by_cases h : entry.1 = key <;> simp [h]

theorem eraseDups_concat (keys : List Text) (key : Text) :
    (keys ++ [key]).eraseDups =
      if key ∈ keys.eraseDups then keys.eraseDups else keys.eraseDups ++ [key] := by
  rw [List.eraseDups_append]
  by_cases h : key ∈ keys
  · rw [if_pos (List.mem_eraseDups.mpr h)]
    simp [List.removeAll, h]
  · rw [if_neg (mt List.mem_eraseDups.mp h)]
    simp [List.removeAll, h, List.eraseDups_cons]

namespace StoredBy

theorem empty : (empty : Table α).StoredBy [] := ⟨rfl, fun _ => rfl⟩

theorem set (h : t.StoredBy stored) (key : Text) (value : α) :
    (t.set key value).StoredBy (stored ++ [(key, value)]) := by
  constructor
  · rw [keys_set, h.keys_eq, List.map_append, List.map_singleton, eraseDups_concat]
  · intro other
    rw [get?_set, h.get?_eq, last?_concat]

theorem foldl (h : t.StoredBy stored) (entries : List (Text × α)) :
    (entries.foldl (fun t entry => t.set entry.1 entry.2) t).StoredBy (stored ++ entries) := by
  induction entries generalizing t stored with
  | nil =>
      rw [List.append_nil]
      exact h
  | cons entry rest ih =>
      have hr := ih (h.set entry.1 entry.2)
      rwa [List.append_assoc] at hr

end StoredBy

/-- The table that entries give, stored in order. -/
def ofEntries (entries : List (Text × α)) : Table α :=
  entries.foldl (fun t entry => t.set entry.1 entry.2) .empty

theorem storedBy_ofEntries (entries : List (Text × α)) : (ofEntries entries).StoredBy entries :=
  StoredBy.empty.foldl entries

end Table

/-- A use of an object: it is made with entries in order, a field of it is set, or a field of it
is read and has a value, which is null if there is none. -/
inductive Access where
  | made (object : Nat) (entries : List (Text × Value))
  | set (object : Nat) (key : Text) (value : Value)
  | read (object : Nat) (key : Text) (value : Value)

namespace Access

/-- What is stored in an object after one more use, if it has been made. -/
def store (id : Nat) (stored : Option (List (Text × Value))) :
    Access → Option (List (Text × Value))
  | made object entries => if object = id then some entries else stored
  | set object key value => if object = id then stored.map (· ++ [(key, value)]) else stored
  | read _ _ _ => stored

/-- What has been stored in an object by uses of objects, in order. -/
def stored (id : Nat) (past : List Access) : Option (List (Text × Value)) :=
  past.foldl (store id) none

theorem stored_concat (id : Nat) (past : List Access) (a : Access) :
    stored id (past ++ [a]) = a.store id (stored id past) := by
  rw [stored, List.foldl_append]
  rfl

/-- What a field of an object has to be: the value that was stored last, or null. -/
def lastStored (id : Nat) (key : Text) (past : List Access) : Value :=
  ((stored id past).bind (Table.last? key)).getD .null

end Access

namespace Store

variable {s t : Store} {past : List Access}

/-- The objects of a store are those that uses tell of, with what has been stored in each. -/
def Recorded (past : List Access) (s : Store) : Prop :=
  ∀ id, Option.Rel Table.StoredBy (Access.stored id past) s.objects[id]?

namespace Recorded

theorem of_no_objects (h : s.objects = #[]) : s.Recorded [] := by
  intro id
  rw [h]
  exact .none

theorem of_objects (h : s.Recorded past) (ht : t.objects = s.objects) : t.Recorded past := by
  rw [Recorded, ht]
  exact h

theorem lastStored_eq (h : s.Recorded past) (id : Nat) (key : Text) :
    ((s.fields id).get? key).getD .null = Access.lastStored id key past := by
  have hid := h id
  rw [fields, Access.lastStored]
  generalize s.objects[id]? = object at hid
  generalize Access.stored id past = entries at hid
  cases hid with
  | none => rfl
  | some hs =>
      rw [Option.getD_some, hs.get?_eq]
      rfl

theorem read (h : s.Recorded past) (object : Nat) (key : Text) (value : Value) :
    s.Recorded (past ++ [.read object key value]) := by
  intro id
  rw [Access.stored_concat]
  exact h id

theorem newObject (h : s.Recorded past) (entries : List (Text × Value)) :
    (s.newObject (.ofEntries entries)).2.Recorded (past ++ [.made s.objects.size entries]) := by
  intro id
  rw [Access.stored_concat, Access.store, Store.newObject, Array.getElem?_push]
  by_cases he : id = s.objects.size
  · rw [if_pos he, if_pos he.symm]
    exact .some (Table.storedBy_ofEntries entries)
  · rw [if_neg he, if_neg (Ne.symm he)]
    exact h id

theorem setField (h : s.Recorded past) (object : Nat) (key : Text) (value : Value) :
    (s.setField object key value).Recorded (past ++ [.set object key value]) := by
  intro id
  have hid := h id
  rw [Access.stored_concat, Access.store, Store.setField, Array.getElem?_modify]
  by_cases he : object = id
  · rw [if_pos he, if_pos he]
    generalize s.objects[id]? = fields at hid
    generalize Access.stored id past = entries at hid
    cases hid with
    | none => exact .none
    | some hs => exact .some (hs.set key value)
  · rw [if_neg he, if_neg he]
    exact hid

end Recorded

end Store

end Scripting
