import Scripting.Proofs.Session.Tidiness

/-!
The stores of a session are well formed at every moment. Scopes are younger than their
parents, so the search for a name ends; tables list each of their names once; and all that is
bound, stored or captured has been made. Functions of the host keep it so if they hand on only
what they are given, besides values that lead nowhere.
-/

namespace Scripting

theorem Value.In.imp {region region' : Cell → Prop} (h : ∀ cell, region cell → region' cell)
    {v : Value} (hv : v.In region) : v.In region' := fun cell hc => h cell (hv cell hc)

namespace Store

/-- The search for a name from a scope outward: it ends at the first scope that binds the
name, or at the top without one. -/
inductive Search (s : Store) (name : Text) : Nat → Option Nat → Prop
  | here {scope : Nat} {c : Scope} (hc : s.scopes[scope]? = some c)
      (hn : c.bindings.contains name = true) : Search s name scope (some scope)
  | top {scope : Nat} {c : Scope} (hc : s.scopes[scope]? = some c)
      (hn : c.bindings.contains name = false) (hp : c.parent = none) : Search s name scope none
  | outward {scope parent : Nat} {c : Scope} {r : Option Nat} (hc : s.scopes[scope]? = some c)
      (hn : c.bindings.contains name = false) (hp : c.parent = some parent)
      (h : Search s name parent r) : Search s name scope r

/-- A store as it should be: scopes form a forest, each younger than its parent, and the search
for a name in it ends; what is flagged constant is bound; the keys of an object are listed once
each and are those that have a value; and each value that is bound or stored leads to an object
or scope that has been made. -/
structure WellFormed (s : Store) : Prop where
  parents : ∀ (scope parent : Nat) (c : Scope), s.scopes[scope]? = some c →
    c.parent = some parent → parent < scope
  search : ∀ (scope : Nat) (name : Text), s.Made (.scope scope) →
    s.Search name scope (s.resolve? scope name)
  constants : ∀ (scope : Nat) (name : Text), s.isConstant scope name = true →
    ∃ b, s.binding? scope name = some b
  names : ∀ (scope : Nat) (c : Scope), s.scopes[scope]? = some c → c.bindings.keys.Nodup
  keys : ∀ (object : Nat) (t : Table Value), s.objects[object]? = some t →
    t.keys.Nodup ∧ ∀ key, key ∈ t.keys ↔ ∃ v, t.get? key = some v
  bound : ∀ (scope : Nat) (name : Text) (b : Binding), s.binding? scope name = some b →
    b.value.In s.Made
  fields : ∀ (object : Nat) (key : Text) (v : Value), (s.fields object).get? key = some v →
    v.In s.Made

/-- Scopes are younger than their parents, tables are tidy, and what they hold has been made. -/
def Intact (s : Store) : Prop := s.Sound fun s v => v.In s.Made

theorem Intact.search {s : Store} (h : s.Intact) (scope : Nat) (name : Text)
    (hs : s.Made (.scope scope)) : s.Search name scope (s.resolve? scope name) := by
  fun_induction resolve? s scope name with
  | case1 scope hc => exact absurd hs (Nat.not_lt_of_le (Array.getElem?_eq_none_iff.mp hc))
  | case2 scope c hc hn => exact .here hc hn
  | case3 scope c hc hn hp => exact .top hc (Bool.eq_false_iff.mpr hn) hp
  | case4 scope c hc hn parent hp hlt ih =>
      exact .outward hc (Bool.eq_false_iff.mpr hn) hp (ih (Nat.lt_trans hlt hs))
  | case5 scope c hc hn parent hp hlt => exact absurd (h.parents hc hp) hlt

theorem Intact.wellFormed {s : Store} (h : s.Intact) : s.WellFormed where
  parents _ _ _ hc hp := h.parents hc hp
  search := h.search
  constants scope name hn := by
    cases hb : s.binding? scope name with
    | none =>
        rw [isConstant, hb] at hn
        cases hn
    | some b => exact ⟨b, rfl⟩
  names _ _ hc := (h.tidy.scopes hc).nodup
  keys _ t ho := ⟨(h.tidy.objects ho).nodup, t.mem_keys_iff⟩
  bound _ _ _ hb := h.tidy.binding? hb
  fields _ _ _ hk := (h.tidy.fields _).get? hk

end Store

/-- A host function that hands on only values with a property, as long as it is given only
such. -/
inductive HostAction.Passes (P : Value → Prop) : HostAction → Prop
  | done {value : Option Value} (h : ∀ v, value = some v → P v) : Passes P (.done value)
  | fail (cause : RuntimeError.Cause) : Passes P (.fail cause)
  | raise (e : RuntimeError) : Passes P (.raise e)
  | lookup {name : Text} {next : Except BindingError Value → HostAction}
      (h : ∀ r : Except BindingError Value, (∀ v, r = .ok v → P v) → Passes P (next r)) :
      Passes P (.lookup name next)
  | declare {name : Text} {value : Value} {constant : Bool}
      {next : Except BindingError Value → HostAction} (hv : P value)
      (h : ∀ r : Except BindingError Value, (∀ v, r = .ok v → P v) → Passes P (next r)) :
      Passes P (.declare name value constant next)
  | display {value : Value} {next : Text → HostAction} (h : ∀ t, Passes P (next t)) :
      Passes P (.display value next)

/-- The functions of the host hand on the values they are given, and besides only such as lead
to no object and no scope. -/
def Host.Honest (host : Host) : Prop :=
  ∀ name action, host.functions.get? name = some action →
    ∀ P : Value → Prop, (∀ v : Value, v.cell? = none → P v) →
      ∀ arguments : List Value, (∀ v ∈ arguments, P v) → (action arguments).Passes P

namespace Host.Probe

theorem finish_passes {P : Value → Prop} {r : Except BindingError Value}
    (h : ∀ v, r = .ok v → P v) : (finish r).Passes P := by
  cases r with
  | error e => exact .fail _
  | ok value => exact .done (by rintro v ⟨⟩; exact h value rfl)

/-- The probe functions make no objects, and declare only what they are given. -/
theorem honest : Host.Honest { functions } := by
  intro name action h P hp arguments ha
  have done : (HostAction.done none).Passes P := .done fun v hv => by cases hv
  simp only [Table.get?, functions, Table.find?] at h
  split at h
  · cases h
    exact done
  split at h
  · cases h
    cases arguments with
    | nil => exact .fail _
    | cons value more => exact .display fun t => .fail _
  split at h
  · cases h
    cases arguments with
    | nil => exact .raise _
    | cons value more =>
        cases more with
        | nil => exact .raise _
        | cons detail more => exact .display fun t => .raise _
  split at h
  · cases h
    cases arguments with
    | nil => exact done
    | cons name more => exact .display fun t => .lookup fun r hr => finish_passes hr
  split at h
  · cases h
    cases arguments with
    | nil => exact done
    | cons name more =>
        cases more with
        | nil => exact done
        | cons value more =>
            exact .display fun t => .declare (ha value (by simp)) fun r hr => finish_passes hr
  split at h
  · cases h
    exact .done fun v hv => by cases hv; exact hp _ rfl
  · cases h

end Host.Probe

/-- Stores are sound, and all that comes up has been made. -/
def Discipline.tidiness : Discipline :=
  .sound (fun s v => v.In s.Made) (fun _ => True) fun _ => True

namespace Discipline.Tidiness

open Evaluator (performCourse)

theorem lasting : Value.Lasting (fun s v => v.In s.Made) fun _ => True where
  later _ _ _ h hv := hv.imp h.made
  plain s _ hv := Value.in_of_cell?_none (Value.cell?_of_isPlain hv) s.Made
  object h := (Value.in_object ..).mpr h
  func := (Value.in_func ..).trans ⟨fun h => ⟨h, fun _ _ => trivial⟩, And.left⟩

theorem made_bind (s : Store) (scope : Nat) (name : Text) (b : Binding) :
    (s.bind scope name b).Made = s.Made := by
  funext cell
  cases cell <;> simp [Store.Made, Store.bind]

theorem perform_holds {P : Value → Prop} {action : HostAction} (h : action.Passes P) {w : Store}
    (hP : ∀ v, P v ↔ v.In w.Made) (scope line : Nat) :
    tidiness.Holds w tidiness.value (performCourse scope line action) := by
  have here {s : Store} (hs : s.Intact) : tidiness.next s s := ⟨.refl s, hs⟩
  induction h generalizing w with
  | @done value h =>
      rintro hw s rfl
      refine ⟨.pass (here hw) (.stay (here hw)), ?_⟩
      cases value with
      | none => exact Value.in_of_cell?_none rfl _
      | some v => exact (hP v).mp (h v rfl)
  | fail _ | raise _ =>
      rintro hw s rfl
      exact ⟨.pass (here hw) (.stay (here hw)), trivial⟩
  | @lookup name next h ih =>
      rintro hw s rfl
      refine ih (s.store.lookup scope name) (fun v hv => ?_) hP hw s rfl
      exact (hP v).mpr (hw.tidy.lookup hv)
  | @declare name value constant next hv h ih =>
      rintro hw s rfl
      simp only [performCourse, Evaluator.perform, Store.declare]
      cases hd : s.store.declarable scope name with
      | error e => exact ih (.error e) (fun v hv => by cases hv) hP hw s rfl
      | ok =>
          have hn : tidiness.next s.store _ :=
            sound_bind lasting hw ((hP value).mp hv) scope name constant
          obtain ⟨hl, hm⟩ := ih (.ok value) (fun v he => by cases he; exact hv)
            (w := s.store.bind scope name ⟨value, constant⟩) (by rw [made_bind]; exact hP) hn.2
            { s with store := s.store.bind scope name ⟨value, constant⟩ } rfl
          exact ⟨.pass hn hl, hm⟩
  | @display value next h ih =>
      rintro hw s rfl
      exact ih (s.store.display value) hP hw s rfl

theorem lawful {host : Host} (hh : host.Honest) : tidiness.Lawful host :=
  sound_lawful lasting (fun _ _ => trivial) fun hg hv =>
    perform_holds (hh _ _ hg _ (fun _ hc => Value.in_of_cell?_none hc _) _ hv) (fun _ => .rfl) _ _

end Discipline.Tidiness

namespace Session

theorem start_intact (host : Host) :
    (start host).state.store.Intact ∧ (start host).state.store.Made (.scope root) :=
  start_sound Discipline.Tidiness.lasting.later Discipline.Tidiness.lasting.plain
    fun _ _ _ => Value.in_of_cell?_none rfl _

theorem Finishes.intact {host : Host} (hh : host.Honest) {source : Text} {S T : Session}
    {r : Except RunError Value} (h : Finishes host source S r T) (hs : S.state.store.Intact)
    (hr : S.state.store.Made (.scope root)) :
    (T.state.store.Intact ∧ T.state.store.Made (.scope root)) ∧
      ∀ v, r = .ok v → v.In T.state.store.Made := by
  have L := Discipline.Tidiness.lawful hh
  obtain ⟨fuel, h, -⟩ := h
  cases hp : Program.ofSource source with
  | error e =>
      rw [run_error hp] at h
      cases h
      simp only [store_trace]
      exact ⟨⟨hs, hr⟩, nofun⟩
  | ok p =>
      obtain ⟨hl, hv⟩ := @run_leads _ host fuel S L hs hr source p hp fun _ _ => trivial
      rw [h] at hl hv
      have hn := hl.le L.next_trans
      refine ⟨⟨hn.2, L.own_later hn.1 hr⟩, ?_⟩
      rintro v ⟨⟩
      exact hv

theorem Runs.intact {host : Host} (hh : host.Honest) {sources : List Text} {S : Session}
    {results : List (Except RunError Value × Session)} (h : Runs host S sources results)
    (hs : S.state.store.Intact) (hr : S.state.store.Made (.scope root)) :
    ∀ x ∈ results, ∀ v, x.1 = .ok v → v.In x.2.state.store.Made := by
  induction h with
  | nil => exact fun x hx => absurd hx List.not_mem_nil
  | cons h _ ih =>
      obtain ⟨ht, hv⟩ := h.intact hh hs hr
      exact List.forall_mem_cons.mpr ⟨hv, ih ht.1 ht.2⟩

/-- Whatever sources a session runs, and however they end, if the functions of the host hand on
only what they are given: the store is well formed at every moment, and the value of each
source leads to what has been made. -/
theorem moments_wellFormed (host : Host) (hh : host.Honest) (sources : List Text) :
    (∀ fuel, ∀ s ∈ moments host fuel sources (start host), s.WellFormed) ∧
    ∀ results, Runs host (start host) sources results →
      ∀ x ∈ results, ∀ v, x.1 = .ok v → v.In x.2.state.store.Made := by
  obtain ⟨hs, hr⟩ := start_intact host
  refine ⟨fun fuel s hm => Store.Intact.wellFormed ?_, fun results h => h.intact hh hs hr⟩
  exact (next_of_mem_moments (Discipline.Tidiness.lawful hh) hs hr (fun _ _ _ _ _ _ => trivial)
    hm).2

/-- An object that a function of the host has bound in the scope of a call, and that holds
itself, when the source that made it fails. -/
theorem moments_wellFormed_cycle :
    let host : Host := { functions := Host.Probe.functions }
    let source := Text.utf8
      "func f() \x7b define(\"o\", \x7b n: 1 \x7d); o.self = o; o \x7d let p = f(); p.n.m"
    let T := (run host 30 source (start host)).2.state.store
    failureLine (run host 30 source (start host)).1 = some 1 ∧
      (T.fields 0).keys = [Text.utf8 "n", Text.utf8 "self"] ∧ T.WellFormed := by
  intro host source T
  have hd : failureLine (run host 30 source (start host)).1 = some 1 ∧
      (T.fields 0).keys = [Text.utf8 "n", Text.utf8 "self"] := by decide +kernel
  have hm : T ∈ moments host 30 [source] (start host) := by
    rw [moments, moments]
    exact List.mem_cons_of_mem _ (List.mem_append_right _ (List.mem_singleton_self _))
  exact ⟨hd.1, hd.2, (moments_wellFormed host Host.Probe.honest [source]).1 30 T hm⟩

end Session

end Scripting
