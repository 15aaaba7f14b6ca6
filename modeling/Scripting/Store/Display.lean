import Scripting.Store
import Scripting.Text.Quoted

/-!
The texts of values. An object is shown with its fields in order; one that is
already being shown is cut short, so cycles end and shared objects are shown in
full each time.
-/

namespace Scripting

/-- The text of a value inside another one, where that needs no store. -/
def Value.plain : Value → Text
  | .null => Text.utf8 "null"
  | .bool value => Text.utf8 (if value then "true" else "false")
  | .number value => value.display
  | .text value => value
  | .object _ => []
  | .native _ => Text.utf8 "<fn native>"
  | .func function _ => Text.utf8 "<fn " ++ function.name.text ++ Text.utf8 ">"

namespace Store

/-- How many of the objects are not on a path. -/
def unseen (s : Store) (path : List Nat) : Nat :=
  (List.range s.objects.size).countP fun id => !path.contains id

theorem unseen_cons_lt (s : Store) (path : List Nat) (id : Nat) (h : id < s.objects.size)
    (hp : path.contains id = false) : s.unseen (id :: path) < s.unseen path := by
  have hle : ∀ l : List Nat,
      l.countP (fun i => !(id :: path).contains i) ≤ l.countP fun i => !path.contains i := by
    intro l
    exact List.countP_mono_left fun i _ hi => by simp at hi ⊢; exact hi.2
  have hlt : ∀ l : List Nat, id ∈ l →
      l.countP (fun i => !(id :: path).contains i) < l.countP fun i => !path.contains i := by
    intro l hl
    induction l with
    | nil => simp at hl
    | cons i rest ih =>
        by_cases hi : i = id
        · subst hi
          have := hle rest
          have hc : (i :: path).contains i = true := by simp
          simp only [List.countP_cons, hp, hc, Bool.not_true, Bool.not_false, if_true,
            Bool.false_eq_true, if_false]
          omega
        · have := ih (by simpa [Ne.symm hi] using hl)
          have hc : (id :: path).contains i = path.contains i := by simp [hi]
          simp only [List.countP_cons, hc]
          omega
  exact hlt _ (by simpa using h)

def displayObject (s : Store) (path : List Nat) (id : Nat) : Text :=
  if (s.fields id).entries.isEmpty then Text.utf8 "\x7b\x7d"
  else if _ : path.contains id then Text.utf8 "\x7b...\x7d"
  else if _ : id < s.objects.size then
    Text.utf8 "\x7b " ++
      Text.join (Text.utf8 ", ") ((s.fields id).entries.map fun (key, value) =>
        key ++ Text.utf8 ": " ++ match value with
          | .object inner => s.displayObject (id :: path) inner
          | .text t => t.quote
          | v => v.plain) ++
      Text.utf8 " \x7d"
  else Text.utf8 "\x7b\x7d"
termination_by s.unseen path
decreasing_by
  exact unseen_cons_lt s path id ‹_› (Bool.eq_false_iff.mpr ‹¬path.contains id = true›)

def display (s : Store) : Value → Text
  | .object id => s.displayObject [] id
  | value => value.plain

/-- The text of a value inside another one: strings are quoted. -/
def displayNested (s : Store) : Value → Text
  | .text value => value.quote
  | value => s.display value

end Store

end Scripting
