import Scripting.Proofs.Session.Moments
import Scripting.Proofs.Store.Reach
import Scripting.Proofs.Store.Tidy

/-!
Sound stores. Scopes are younger than their parents, tables are tidy, and what they hold has a
property that stays when scopes and objects are added. If it is a property of all that a program
can make, then every evaluation keeps its store sound, and every session starts with a sound one.
-/

namespace Scripting

/-- Scopes are younger than their parents, and tables are tidy with values that have a property
in the store. -/
structure Store.Sound (P : Store → Value → Prop) (s : Store) : Prop where
  parents : ∀ {scope parent : Nat} {c : Scope}, s.scopes[scope]? = some c →
    c.parent = some parent → parent < scope
  tidy : s.Tidy (P s)

theorem Store.Grows.made {s t : Store} (h : s.Grows t) (cell : Cell) (hc : s.Made cell) :
    t.Made cell := by
  cases cell with
  | scope id => exact Nat.lt_of_lt_of_le hc h.scopes
  | object id => exact Nat.lt_of_lt_of_le hc h.objects

namespace Store.Sound

variable {P : Store → Value → Prop} (later : ∀ s t v, Store.Grows s t → P s v → P t v)
  {s : Store} {v : Value}
include later

theorem bind (h : s.Sound P) (hv : P s v) (scope : Nat) (name : Text) (constant : Bool) :
    (s.bind scope name ⟨v, constant⟩).Sound P where
  parents {other parent c} hc hp := by
    rw [getElem?_scopes_bind] at hc
    split at hc
    · obtain ⟨d, hd, rfl⟩ := Option.map_eq_some_iff.mp hc
      exact h.parents hd hp
    · exact h.parents hc hp
  tidy := (h.tidy.bind hv scope name constant).imp fun _ => later _ _ _ (grows_bind ..)

theorem newScope (h : s.Sound P) {parent : Option Nat}
    (hp : ∀ scope, parent = some scope → s.Made (.scope scope)) :
    (s.newScope parent).2.Sound P where
  parents {scope above c} hc ha := by
    rw [getElem?_scopes_newScope] at hc
    split at hc
    · next hs =>
        cases hc
        rw [hs]
        exact hp above ha
    · exact h.parents hc ha
  tidy := (h.tidy.newScope parent).imp fun _ => later _ _ _ (grows_newScope ..)

theorem newObject (h : s.Sound P) {fields : Table Value} (hf : fields.Tidy (P s)) :
    (s.newObject fields).2.Sound P where
  parents := h.parents
  tidy := (h.tidy.newObject hf).imp fun _ => later _ _ _ (grows_newObject ..)

theorem setField (h : s.Sound P) (hv : P s v) (object : Nat) (key : Text) :
    (s.setField object key v).Sound P where
  parents := h.parents
  tidy := (h.tidy.setField hv object key).imp fun _ => later _ _ _ (grows_setField ..)

end Store.Sound

/-- Stores are sound, and all values that come up have the property. -/
def Discipline.sound (P : Store → Value → Prop) (line : Nat → Prop) (error : RuntimeError → Prop) :
    Discipline where
  fit := Store.Sound P
  step := Store.Grows
  inside s scope := s.Made (.scope scope)
  own s scope := s.Made (.scope scope)
  value := P
  line := line
  error := error

/-- What a property of values has to be like. It stays; objects that have been made have it, and
functions whose scope has been made and whose lines are such as there may be. -/
structure Value.Lasting (P : Store → Value → Prop) (line : Nat → Prop) : Prop where
  later : ∀ s t v, Store.Grows s t → P s v → P t v
  plain : ∀ s (v : Value), v.isPlain = true → P s v
  object : ∀ {s id}, s.Made (.object id) → P s (.object id)
  func : ∀ {s function scope}, P s (.func function scope) ↔
    s.Made (.scope scope) ∧ ∀ l ∈ function.lines, line l

namespace Discipline

variable {P : Store → Value → Prop} {line : Nat → Prop} {error : RuntimeError → Prop} {host : Host}

/-- A step that binds a name. -/
theorem sound_bind (hP : Value.Lasting P line) {s : Store} (hs : s.Sound P) {v : Value}
    (hv : P s v) (scope : Nat) (name : Text) (constant : Bool) :
    (sound P line error).next s (s.bind scope name ⟨v, constant⟩) :=
  ⟨Store.grows_bind .., hs.bind hP.later hv scope name constant⟩

theorem sound_lawful (hP : Value.Lasting P line)
    (he : ∀ {l : Nat} {cause : RuntimeError.Cause} {detail : Text}, line l →
      cause.isInternal = false → error ⟨l, cause, detail⟩)
    (hh : ∀ {s scope l name action arguments}, host.functions.get? name = some action →
      (∀ v ∈ arguments, P s v) →
      (sound P line error).Holds s P (Evaluator.performCourse scope l (action arguments))) :
    (sound P line error).Lawful host where
  refl := .refl
  trans := .trans
  inside_later h hi := h.made (.scope _) hi
  own_later h ho := h.made (.scope _) ho
  value_later h hv := hP.later _ _ _ h hv
  inside_of_own h := h
  value_plain := hP.plain
  value_func := hP.func
  error_fail := he
  value_lookup hs _ h := hs.tidy.lookup h
  next_declare constant hs _ hv _ := sound_bind hP hs hv _ _ constant
  next_assign hs _ hv _ := sound_bind hP hs hv _ _ false
  next_newScope {s parent} hs hp := by
    refine ⟨⟨Store.grows_newScope .., hs.newScope hP.later fun scope hc => ?_⟩, ?_⟩
    · cases hc
      exact hp
    · simp [sound, Store.Made, Store.newScope]
  next_newObject {s fields} hs hk hv := by
    refine ⟨⟨Store.grows_newObject .., hs.newObject hP.later ⟨hk, hv⟩⟩, hP.object ?_⟩
    simp [Store.Made, Store.newObject]
  value_field hs _ h := (hs.tidy.fields _).get? h
  next_setField hs _ hv := ⟨Store.grows_setField .., hs.setField hP.later hv _ _⟩
  perform_holds hg _ _ hv := hh hg hv

end Discipline

namespace Session

variable {P : Store → Value → Prop} {host : Host}

theorem foldl_bind_sound (later : ∀ s t v, Store.Grows s t → P s v → P t v) {β : Type}
    (entries : List β) (name : β → Text) (value : β → Value)
    (hv : ∀ b ∈ entries, ∀ s, P s (value b)) {s : Store} (hs : s.Sound P)
    (hr : s.Made (.scope root)) :
    let t := entries.foldl (fun s b => s.bind root (name b) ⟨value b, true⟩) s
    t.Sound P ∧ t.Made (.scope root) := by
  induction entries generalizing s with
  | nil => exact ⟨hs, hr⟩
  | cons b rest ih =>
      rw [List.forall_mem_cons] at hv
      apply ih hv.2
      · exact hs.bind later (hv.1 s) root (name b) true
      · exact (Store.grows_bind ..).made _ hr

/-- A session starts with a sound store, whose values are booleans, null, and functions that are
built in or the host's. -/
theorem start_sound (later : ∀ s t v, Store.Grows s t → P s v → P t v)
    (plain : ∀ s (v : Value), v.isPlain = true → P s v)
    (native : ∀ s (function : Native),
      (∀ name, function = .host name → name ∈ host.functions.keys) → P s (.native function)) :
    (start host).state.store.Sound P ∧ (start host).state.store.Made (.scope root) := by
  have empty : Store.empty.Sound P := by
    refine ⟨fun h => ?_, .empty⟩
    cases h
  have top : (Store.empty.newScope none).2.Sound P :=
    empty.newScope later fun _ h => by cases h
  have builtin : ∀ entry ∈ Builtin.all, ∀ s, P s entry.2 := by
    refine Builtin.forall_values (P := fun v => ∀ s, P s v) (fun _ s => plain s _ rfl)
      (fun s => plain s _ rfl) fun function hn s => native s function fun name he => ?_
    exact absurd he (hn name)
  obtain ⟨hs, hr⟩ := foldl_bind_sound later Builtin.all Prod.fst Prod.snd builtin top
    Nat.zero_lt_one
  refine foldl_bind_sound later host.functions.keys id (fun name => .native (.host name)) ?_ hs hr
  rintro name hn s
  refine native s _ fun other he => ?_
  cases he
  exact hn

end Session

end Scripting
