import Scripting.Text

/-!
Tables from names to values, in the order in which the names were first set.
-/

namespace Scripting

/-- Entries by name. Setting a name again keeps its place. -/
structure Table (α : Type) where
  entries : List (Text × α)

namespace Table

variable {α : Type}

def empty : Table α := ⟨[]⟩

def find? (name : Text) : List (Text × α) → Option α
  | [] => none
  | (key, value) :: rest => if key = name then some value else find? name rest

/-- The entries with the value of a name replaced, or put at the end. -/
def put (name : Text) (value : α) : List (Text × α) → List (Text × α)
  | [] => [(name, value)]
  | (key, old) :: rest =>
    if key = name then (key, value) :: rest else (key, old) :: put name value rest

def get? (t : Table α) (name : Text) : Option α := find? name t.entries

def contains (t : Table α) (name : Text) : Bool := (t.get? name).isSome

def set (t : Table α) (name : Text) (value : α) : Table α := ⟨put name value t.entries⟩

/-- The names in order of first setting. -/
def keys (t : Table α) : List Text := t.entries.map Prod.fst

theorem find?_put (name other : Text) (value : α) (entries : List (Text × α)) :
    find? other (put name value entries) =
      if name = other then some value else find? other entries := by
  induction entries with
  | nil => simp [put, find?]
  | cons entry rest ih =>
      obtain ⟨key, old⟩ := entry
      by_cases h : key = name
      · subst h; by_cases ho : key = other <;> simp [put, find?, ho]
      · by_cases ho : key = other
        · subst ho; simp [put, find?, h, Ne.symm h]
        · simp [put, find?, h, ho, ih]

/-- Reading after setting: the value just set at its name, all else as before. -/
@[simp] theorem get?_set (t : Table α) (name other : Text) (value : α) :
    (t.set name value).get? other = if name = other then some value else t.get? other :=
  find?_put name other value t.entries

end Table

end Scripting
