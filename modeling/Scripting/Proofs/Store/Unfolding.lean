import Mathlib.Data.Finset.Basic
import Mathlib.Logic.Relation
import Scripting.Proofs.Front.Walk
import Scripting.Store.Display

/-!
How objects are shown that may refer to each other in any way. The form of an object is a finite
tree in which an object is cut short where it stands below itself. Showing objects with one set of
those that are being shown always ends, gives this form, and leaves the set as it was. Something is
cut if and only if the objects that can be reached go round in a circle.
-/

namespace Scripting

open Relation (ReflTransGen TransGen)

mutual

/-- The form in which an object is shown: without fields, cut short, or with all its fields. -/
inductive Shape where
  | empty
  | cut
  | full (fields : Shapes)

/-- Fields in order: keys with the texts of plain values, or with the forms of objects. -/
inductive Shapes where
  | nil
  | plain (key text : Text) (rest : Shapes)
  | nested (key : Text) (shape : Shape) (rest : Shapes)

end

mutual

def Shape.text : Shape → Text
  | .empty => Text.utf8 "\x7b\x7d"
  | .cut => Text.utf8 "\x7b...\x7d"
  | .full fields =>
    Text.utf8 "\x7b " ++ Text.join (Text.utf8 ", ") fields.texts ++ Text.utf8 " \x7d"

def Shapes.texts : Shapes → List Text
  | .nil => []
  | .plain key text rest => (key ++ Text.utf8 ": " ++ text) :: rest.texts
  | .nested key shape rest => (key ++ Text.utf8 ": " ++ shape.text) :: rest.texts

end

mutual

/-- How often something is cut short in a form. -/
def Shape.cuts : Shape → Nat
  | .empty => 0
  | .cut => 1
  | .full fields => fields.cuts

def Shapes.cuts : Shapes → Nat
  | .nil => 0
  | .plain _ _ rest => rest.cuts
  | .nested _ shape rest => shape.cuts + rest.cuts

end

namespace Store

mutual

/-- The form of an object that stands below the objects of a path. -/
inductive Unfolds (s : Store) : (path : List Nat) → (id : Nat) → Shape → Prop
  | empty {path : List Nat} {id : Nat} (he : (s.fields id).entries = []) : Unfolds s path id .empty
  | cut {path : List Nat} {id : Nat} (he : (s.fields id).entries ≠ []) (hp : id ∈ path) :
      Unfolds s path id .cut
  | full {path : List Nat} {id : Nat} {fields : Shapes} (he : (s.fields id).entries ≠ [])
      (hp : id ∉ path) (hf : UnfoldsEach s (id :: path) (s.fields id).entries fields) :
      Unfolds s path id (.full fields)

/-- The forms of fields that stand below the objects of a path. -/
inductive UnfoldsEach (s : Store) : (path : List Nat) → List (Text × Value) → Shapes → Prop
  | nil {path : List Nat} : UnfoldsEach s path [] .nil
  | plain {path : List Nat} {key : Text} {v : Value} {entries : List (Text × Value)}
      {fields : Shapes} (hv : ∀ id, v ≠ .object id) (h : UnfoldsEach s path entries fields) :
      UnfoldsEach s path ((key, v) :: entries) (.plain key (s.displayNested v) fields)
  | nested {path : List Nat} {key : Text} {id : Nat} {shape : Shape}
      {entries : List (Text × Value)} {fields : Shapes} (hs : Unfolds s path id shape)
      (h : UnfoldsEach s path entries fields) :
      UnfoldsEach s path ((key, .object id) :: entries) (.nested key shape fields)

end

/-- One of the fields holds an object. -/
def Holds (entries : List (Text × Value)) (id : Nat) : Prop :=
  ∃ key, (key, Value.object id) ∈ entries

/-- An object has a field that holds another object, or itself. -/
def Refers (s : Store) (id inner : Nat) : Prop := Holds (s.fields id).entries inner

/-- Something is cut short where an object is shown below the objects of a path. -/
inductive Cuts (s : Store) : (path : List Nat) → (id : Nat) → Prop
  | here {path : List Nat} {id : Nat} (he : (s.fields id).entries ≠ []) (hp : id ∈ path) :
      Cuts s path id
  | inside {path : List Nat} {id inner : Nat} (hp : id ∉ path) (hr : s.Refers id inner)
      (h : Cuts s (id :: path) inner) : Cuts s path id

variable {s : Store}

theorem Refers.entries_ne_nil {id inner : Nat} (h : s.Refers id inner) :
    (s.fields id).entries ≠ [] := by
  obtain ⟨key, hk⟩ := h
  exact List.ne_nil_of_mem hk

theorem lt_size_of_entries {id : Nat} (h : (s.fields id).entries ≠ []) : id < s.objects.size := by
  by_contra hn
  rw [fields, Array.getElem?_eq_none (Nat.le_of_not_lt hn)] at h
  exact h rfl

/-! ## The form of an object -/

mutual

theorem Unfolds.unique {path : List Nat} {id : Nat} {a b : Shape} (ha : s.Unfolds path id a)
    (hb : s.Unfolds path id b) : a = b := by
  cases ha with
  | empty he =>
      cases hb with
      | empty => rfl
      | cut he' | full he' => exact absurd he he'
  | cut he hp =>
      cases hb with
      | empty he' => exact absurd he' he
      | cut => rfl
      | full _ hp' => exact absurd hp hp'
  | full he hp hf =>
      cases hb with
      | empty he' => exact absurd he' he
      | cut _ hp' => exact absurd hp' hp
      | full _ _ hf' => exact congrArg Shape.full (hf.unique hf')

theorem UnfoldsEach.unique {path : List Nat} {entries : List (Text × Value)} {a b : Shapes}
    (ha : s.UnfoldsEach path entries a) (hb : s.UnfoldsEach path entries b) : a = b := by
  cases ha with
  | nil =>
      cases hb with
      | nil => rfl
  | plain hv h =>
      cases hb with
      | plain _ h' => rw [h.unique h']
      | nested => exact absurd rfl (hv _)
  | nested hs h =>
      cases hb with
      | plain hv => exact absurd rfl (hv _)
      | nested hs' h' => rw [hs.unique hs', h.unique h']

end

/-- The text of a value below the objects of a path. -/
def displayBelow (s : Store) (path : List Nat) : Value → Text
  | .object id => s.displayObject path id
  | value => s.displayNested value

section
variable {path : List Nat}

theorem displayObject_full {id : Nat} (he : (s.fields id).entries ≠ []) (hp : id ∉ path) :
    s.displayObject path id = Text.utf8 "\x7b " ++
      Text.join (Text.utf8 ", ") ((s.fields id).entries.map fun entry =>
        entry.1 ++ Text.utf8 ": " ++ s.displayBelow (id :: path) entry.2) ++ Text.utf8 " \x7d" := by
  rw [displayObject, if_neg (by simpa using he), dif_neg (by simpa using hp),
    dif_pos (lt_size_of_entries he)]
  congr 3
  refine List.map_congr_left fun entry _ => ?_
  obtain ⟨key, value⟩ := entry
  cases value <;> rfl

/-- Fields have forms if the objects that they hold have. -/
theorem exists_unfoldsEach
    (h : ∀ id, ∃ shape, s.Unfolds path id shape ∧ s.displayObject path id = shape.text)
    (entries : List (Text × Value)) :
    ∃ fields, s.UnfoldsEach path entries fields ∧
      entries.map (fun entry => entry.1 ++ Text.utf8 ": " ++ s.displayBelow path entry.2) =
        fields.texts := by
  induction entries with
  | nil => exact ⟨.nil, .nil, rfl⟩
  | cons entry entries ih =>
      obtain ⟨fields, hf, ht⟩ := ih
      obtain ⟨key, value⟩ := entry
      rw [List.map_cons, ht]
      cases value with
      | object id =>
          obtain ⟨shape, hs, hd⟩ := h id
          exact ⟨.nested key shape fields, .nested hs hf, by rw [displayBelow, hd, Shapes.texts]⟩
      | _ => exact ⟨.plain key _ fields, .plain (fun _ => Value.noConfusion) hf, rfl⟩

end

/-- Every object has a form, and its text is the text of that form. -/
theorem exists_unfolds (s : Store) (path : List Nat) (id : Nat) :
    ∃ shape, s.Unfolds path id shape ∧ s.displayObject path id = shape.text := by
  by_cases he : (s.fields id).entries = []
  · refine ⟨.empty, .empty he, ?_⟩
    rw [displayObject, he]
    rfl
  by_cases hp : id ∈ path
  · refine ⟨.cut, .cut he hp, ?_⟩
    rw [displayObject, if_neg (by simpa using he), dif_pos (by simpa using hp)]
    rfl
  · obtain ⟨fields, hf, ht⟩ :=
      exists_unfoldsEach (fun inner => exists_unfolds s (id :: path) inner) (s.fields id).entries
    refine ⟨.full fields, .full he hp hf, ?_⟩
    rw [displayObject_full he hp, ht, Shape.text]
termination_by s.unseen path
decreasing_by exact unseen_cons_lt s path id (lt_size_of_entries he) (by simpa using hp)

/-! ## What is cut -/

theorem holds_plain {v : Value} (hv : ∀ id, v ≠ .object id) (key : Text)
    (entries : List (Text × Value)) (inner : Nat) :
    Holds ((key, v) :: entries) inner ↔ Holds entries inner := by
  simp [Holds, (hv inner).symm]

theorem holds_object (key : Text) (id : Nat) (entries : List (Text × Value)) (inner : Nat) :
    Holds ((key, .object id) :: entries) inner ↔ inner = id ∨ Holds entries inner := by
  simp [Holds, exists_or]

mutual

theorem Unfolds.cuts_iff {path : List Nat} {id : Nat} {shape : Shape}
    (h : s.Unfolds path id shape) : shape.cuts ≠ 0 ↔ s.Cuts path id := by
  cases h with
  | empty he =>
      refine ⟨fun hc => absurd rfl hc, fun hc => ?_⟩
      cases hc with
      | here he' => exact absurd he he'
      | inside _ hr => exact absurd he hr.entries_ne_nil
  | cut he hp => exact ⟨fun _ => .here he hp, fun _ => Nat.one_ne_zero⟩
  | full he hp hf =>
      rw [Shape.cuts, hf.cuts_iff]
      constructor
      · rintro ⟨inner, hr, hc⟩
        exact .inside hp hr hc
      · intro hc
        cases hc with
        | here _ hp' => exact absurd hp' hp
        | inside _ hr hc => exact ⟨_, hr, hc⟩

theorem UnfoldsEach.cuts_iff {path : List Nat} {entries : List (Text × Value)} {fields : Shapes}
    (h : s.UnfoldsEach path entries fields) :
    fields.cuts ≠ 0 ↔ ∃ inner, Holds entries inner ∧ s.Cuts path inner := by
  cases h with
  | nil => simp [Shapes.cuts, Holds]
  | plain hv h => simp only [Shapes.cuts, h.cuts_iff, holds_plain hv]
  | @nested _ _ id shape _ fields hs h =>
      have hadd : shape.cuts + fields.cuts ≠ 0 ↔ shape.cuts ≠ 0 ∨ fields.cuts ≠ 0 := by omega
      rw [Shapes.cuts, hadd, hs.cuts_iff, h.cuts_iff]
      simp only [holds_object, or_and_right, exists_or, exists_eq_left]

end

/-- Where something is cut short, an object can be reached that leads back to itself. -/
theorem Cuts.cycle {path : List Nat} {id : Nat} (h : s.Cuts path id)
    (hp : ∀ k ∈ path, TransGen s.Refers k id) :
    ∃ k, ReflTransGen s.Refers id k ∧ TransGen s.Refers k k := by
  induction h with
  | here _ hm => exact ⟨_, .refl, hp _ hm⟩
  | @inside path id inner _ hr _ ih =>
      obtain ⟨k, hk, hc⟩ := ih fun j hj => by
        obtain rfl | hj := List.mem_cons.mp hj
        · exact .single hr
        · exact (hp j hj).tail hr
      exact ⟨k, .head hr hk, hc⟩

theorem Cuts.of_refers {path : List Nat} {id inner : Nat} (hr : s.Refers id inner)
    (h : s.Cuts (id :: path) inner) : s.Cuts path id := by
  by_cases hp : id ∈ path
  · exact .here hr.entries_ne_nil hp
  · exact .inside hp hr h

/-- On the way to an object of the path something is cut short. -/
theorem Cuts.of_reaches {path : List Nat} {id k : Nat} (h : ReflTransGen s.Refers id k)
    (hk : k ∈ path) (he : (s.fields k).entries ≠ []) : s.Cuts path id := by
  induction h using ReflTransGen.head_induction_on generalizing path with
  | refl => exact .here he hk
  | head hr _ ih => exact .of_refers hr (ih (List.mem_cons_of_mem _ hk))

/-- On the way to an object that leads back to itself, and round it, something is cut short. -/
theorem Cuts.of_cycle {id k : Nat} (h : ReflTransGen s.Refers id k) (hc : TransGen s.Refers k k)
    (path : List Nat) : s.Cuts path id := by
  induction h using ReflTransGen.head_induction_on generalizing path with
  | refl =>
      obtain ⟨inner, hr, hi⟩ := TransGen.head'_iff.mp hc
      exact .of_refers hr (.of_reaches hi (List.mem_cons_self ..) hr.entries_ne_nil)
  | head hr _ ih => exact .of_refers hr (ih _)

/-- Nothing is cut if and only if no object that can be reached leads back to itself. -/
theorem Unfolds.cuts_eq_zero_iff {id : Nat} {shape : Shape} (h : s.Unfolds [] id shape) :
    shape.cuts = 0 ↔ ∀ k, ReflTransGen s.Refers id k → ¬ TransGen s.Refers k k := by
  have hc : shape.cuts ≠ 0 ↔ ∃ k, ReflTransGen s.Refers id k ∧ TransGen s.Refers k k := by
    rw [h.cuts_iff]
    constructor
    · intro hc
      exact hc.cycle fun k hk => absurd hk List.not_mem_nil
    · rintro ⟨k, hk, hc⟩
      exact .of_cycle hk hc []
  rw [← not_iff_not, ← ne_eq, hc]
  simp

/-! ## What stands above an object -/

mutual

/-- The form of an object depends only on which of the objects it leads to stand above it. -/
theorem Unfolds.congr {path other : List Nat} {id : Nat} {shape : Shape}
    (h : s.Unfolds path id shape)
    (hp : ∀ k, ReflTransGen s.Refers id k → (k ∈ path ↔ k ∈ other)) :
    s.Unfolds other id shape := by
  cases h with
  | empty he => exact .empty he
  | cut he hm => exact .cut he ((hp id .refl).mp hm)
  | full he hm hf =>
      refine .full he (fun ho => hm ((hp id .refl).mpr ho)) (hf.congr fun inner hr k hk => ?_)
      rw [List.mem_cons, List.mem_cons, hp k (.head hr hk)]

theorem UnfoldsEach.congr {path other : List Nat} {entries : List (Text × Value)} {fields : Shapes}
    (h : s.UnfoldsEach path entries fields)
    (hp : ∀ inner, Holds entries inner → ∀ k, ReflTransGen s.Refers inner k →
      (k ∈ path ↔ k ∈ other)) : s.UnfoldsEach other entries fields := by
  cases h with
  | nil => exact .nil
  | plain hv h => exact .plain hv (h.congr fun inner hr => hp inner ((holds_plain hv ..).mpr hr))
  | nested hs h =>
      exact .nested (hs.congr (hp _ ((holds_object ..).mpr (.inl rfl))))
        (h.congr fun inner hr => hp inner ((holds_object ..).mpr (.inr hr)))

end

/-- An object that leads back to nothing above it has the form that it has by itself. -/
theorem unfolds_iff_alone {path : List Nat} {id : Nat}
    (h : ∀ k ∈ path, ¬ ReflTransGen s.Refers id k) (shape : Shape) :
    s.Unfolds path id shape ↔ s.Unfolds [] id shape := by
  have hp : ∀ k, ReflTransGen s.Refers id k → (k ∈ path ↔ k ∈ []) := fun k hk =>
    iff_of_false (fun hm => h k hm hk) List.not_mem_nil
  exact ⟨fun hs => hs.congr hp, fun hs => hs.congr fun k hk => (hp k hk).symm⟩

/-! ## Showing with a set of objects -/

open Walk (look change)

/-- Shows a value, where an object is shown as told. -/
def showValue (s : Store) (inner : Nat → Walk (Finset Nat) Text) : Value → Walk (Finset Nat) Text
  | .object id => inner id
  | value => return s.displayNested value

def showFields (s : Store) (inner : Nat → Walk (Finset Nat) Text) :
    List (Text × Value) → Walk (Finset Nat) (List Text)
  | [] => return []
  | (key, value) :: entries => do
    let text ← s.showValue inner value
    let texts ← s.showFields inner entries
    return (key ++ Text.utf8 ": " ++ text) :: texts

/-- Shows an object with one set of the objects that are being shown. An object is put into the set
while its fields are shown, and taken out of it after that. -/
def showObject (s : Store) : (fuel : Nat) → (id : Nat) → Walk (Finset Nat) Text
  | 0, _ => Walk.exhausted
  | fuel + 1, id => do
    if (s.fields id).entries.isEmpty then return Text.utf8 "\x7b\x7d"
    else if ← look fun seen => decide (id ∈ seen) then return Text.utf8 "\x7b...\x7d"
    else
      change (insert id)
      let texts ← s.showFields (s.showObject fuel) (s.fields id).entries
      change (·.erase id)
      return Text.utf8 "\x7b " ++ Text.join (Text.utf8 ", ") texts ++ Text.utf8 " \x7d"

theorem showValue_plain (inner : Nat → Walk (Finset Nat) Text) {v : Value}
    (hv : ∀ id, v ≠ .object id) (seen : Finset Nat) :
    s.showValue inner v seen = .done (s.displayNested v) seen := by
  cases v with
  | object id => exact absurd rfl (hv id)
  | _ => rfl

theorem showFields_eq {inner : Nat → Walk (Finset Nat) Text} {path : List Nat} {seen : Finset Nat}
    (hi : ∀ id shape, s.Unfolds path id shape → inner id seen = .done shape.text seen)
    {entries : List (Text × Value)} {fields : Shapes} (h : s.UnfoldsEach path entries fields) :
    s.showFields inner entries seen = .done fields.texts seen := by
  induction entries generalizing fields with
  | nil =>
      cases h with
      | nil => rfl
  | cons entry entries ih =>
      cases h with
      | plain hv h =>
          rw [showFields, Walk.bind_done (showValue_plain inner hv seen), Walk.bind_done (ih h)]
          rfl
      | nested hs h =>
          rw [showFields, showValue, Walk.bind_done (hi _ _ hs), Walk.bind_done (ih h),
            Shapes.texts]
          rfl

/-- Showing ends with the form of the object, and with the set as it was, if the set holds the
objects of the path and there is fuel for those that it does not hold. -/
theorem showObject_eq {path : List Nat} {seen : Finset Nat} (hs : ∀ k, k ∈ seen ↔ k ∈ path)
    {fuel id : Nat} (hf : s.unseen path < fuel) {shape : Shape} (h : s.Unfolds path id shape) :
    s.showObject fuel id seen = .done shape.text seen := by
  induction fuel generalizing path seen id shape with
  | zero => exact absurd hf (Nat.not_lt_zero _)
  | succ fuel ih =>
      rw [showObject]
      cases h with
      | empty he =>
          rw [he]
          rfl
      | cut he hp =>
          rw [if_neg (by simpa using he), Walk.bind_done (Walk.look_eq ..),
            if_pos (decide_eq_true ((hs id).mpr hp))]
          rfl
      | @full _ _ fields he hp hfields =>
          have hn : id ∉ seen := fun hm => hp ((hs id).mp hm)
          have hlt : s.unseen (id :: path) < fuel := by
            have := unseen_cons_lt s path id (lt_size_of_entries he) (by simpa using hp)
            omega
          have hseen : ∀ k, k ∈ insert id seen ↔ k ∈ id :: path := fun k => by
            rw [Finset.mem_insert, List.mem_cons, hs]
          -- the fields find the object itself in the set, and leave the set as they found it
          have hinner := showFields_eq (fun _ _ hu => ih hseen hlt hu) hfields
          rw [if_neg (by simpa using he), Walk.bind_done (Walk.look_eq ..),
            if_neg (by simpa using hn), Walk.bind_done (Walk.change_eq ..), Walk.bind_done hinner,
            Walk.bind_done (Walk.change_eq ..), Finset.erase_insert hn, Shape.text]
          rfl

theorem unseen_nil (s : Store) : s.unseen [] = s.objects.size := by
  simp [unseen]

/-- An object has exactly one form, and is shown by its text. Showing it with a set of the objects
being shown ends, however the objects refer to each other, and leaves the set empty. Something is
cut short in the form if and only if an object can be reached that leads back to itself. Wherever
an object stands below others that it does not lead back to, it has the form that it has by
itself. -/
theorem display_unfolds (s : Store) (id : Nat) :
    ∃ shape, (∀ other, s.Unfolds [] id other ↔ other = shape) ∧
      s.display (.object id) = shape.text ∧
      (∀ fuel, s.objects.size < fuel → s.showObject fuel id ∅ = .done shape.text ∅) ∧
      (shape.cuts = 0 ↔ ∀ k, ReflTransGen s.Refers id k → ¬ TransGen s.Refers k k) ∧
      ∀ path inner, (∀ k ∈ path, ¬ ReflTransGen s.Refers inner k) →
        ∀ form, s.Unfolds path inner form ↔ s.Unfolds [] inner form := by
  obtain ⟨shape, hs, hd⟩ := s.exists_unfolds [] id
  refine ⟨shape, fun other => ⟨fun ho => ho.unique hs, fun ho => ho ▸ hs⟩, hd, ?_,
    hs.cuts_eq_zero_iff, fun path inner h form => unfolds_iff_alone h form⟩
  intro fuel hf
  exact showObject_eq (by simp) (s.unseen_nil.symm ▸ hf) hs

/-- An object that holds itself and, twice, another one: only itself is cut short. -/
theorem display_unfolds_circle :
    let field (key : String) (v : Value) : Text × Value := (Text.utf8 key, v)
    let s : Store := ⟨#[],
      #[⟨[field "me" (.object 0), field "x" (.object 1), field "y" (.object 1)]⟩,
        ⟨[field "n" .null]⟩]⟩
    let leaf : Shape := .full (.plain (Text.utf8 "n") (Text.utf8 "null") .nil)
    let shape : Shape := .full (.nested (Text.utf8 "me") .cut
      (.nested (Text.utf8 "x") leaf (.nested (Text.utf8 "y") leaf .nil)))
    s.Unfolds [] 0 shape ∧ s.showObject 3 0 ∅ = .done shape.text ∅ ∧
      s.display (.object 0) =
        Text.utf8 "\x7b me: \x7b...\x7d, x: \x7b n: null \x7d, y: \x7b n: null \x7d \x7d" ∧
      ¬ ∀ k, ReflTransGen s.Refers 0 k → ¬ TransGen s.Refers k k := by
  intro field s leaf shape
  have hleaf : s.Unfolds [0] 1 leaf :=
    .full (List.cons_ne_nil _ _) (by decide) (.plain (fun _ => Value.noConfusion) .nil)
  have hshape : s.Unfolds [] 0 shape :=
    .full (List.cons_ne_nil _ _) (by decide) (.nested (.cut (List.cons_ne_nil _ _) (by decide))
      (.nested hleaf (.nested hleaf .nil)))
  obtain ⟨form, hform, hdisplay, hshow, hcuts, _⟩ := s.display_unfolds 0
  obtain rfl := (hform shape).mp hshape
  refine ⟨hshape, hshow 3 (by decide), hdisplay.trans ?_, ?_⟩
  · decide +kernel
  · rw [← hcuts]
    decide

end Store

end Scripting
