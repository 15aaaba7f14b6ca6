import Scripting.Proofs.Session.Moments
import Scripting.Proofs.Store.Bindings

/-!
Bindings last. From one moment of a session to any later one, a name stays bound in its scope,
as a constant or as a variable, whichever it was, and a constant keeps its value. So the
built-in names mean the same throughout.
-/

namespace Scripting

/-- Whatever is bound stays bound, constants with their values. -/
def Store.Keeps (s t : Store) : Prop :=
  ∀ scope name b, s.binding? scope name = some b →
    ∃ c, t.binding? scope name = some c ∧ c.constant = b.constant ∧
      (b.constant = true → c.value = b.value)

namespace Store.Keeps

variable {s t u : Store} {scope owner : Nat} {name : Text}

theorem of_eq (h : ∀ scope name, t.binding? scope name = s.binding? scope name) : Keeps s t :=
  fun scope name b hb => ⟨b, (h scope name).trans hb, rfl, fun _ => rfl⟩

theorem refl (s : Store) : Keeps s s := of_eq fun _ _ => rfl

theorem trans (h : Keeps s t) (h' : Keeps t u) : Keeps s u := by
  intro scope name b hb
  obtain ⟨c, hc, hk, hv⟩ := h scope name b hb
  obtain ⟨d, hd, hk', hv'⟩ := h' scope name c hc
  refine ⟨d, hd, hk'.trans hk, fun hb => ?_⟩
  exact (hv' (hk.trans hb)).trans (hv hb)

theorem declare (h : s.declarable scope name = .ok ()) (b : Binding) :
    Keeps s (s.bind scope name b) := by
  intro other key c hc
  refine ⟨c, ?_, rfl, fun _ => rfl⟩
  rw [binding?_bind, if_neg, hc]
  rintro ⟨rfl, rfl⟩
  rw [binding?_of_declarable h] at hc
  cases hc

theorem assign (h : s.assignable scope name = .ok owner) (v : Value) :
    Keeps s (s.bind owner name ⟨v, false⟩) := by
  obtain ⟨-, b, hb, hv⟩ := binding?_of_assignable h
  intro other key c hc
  rw [binding?_bind]
  split
  · next he =>
      obtain ⟨rfl, rfl⟩ := he
      rw [hb] at hc
      cases hc
      rw [Array.getElem?_eq_getElem (lt_size_of_binding? hb)]
      refine ⟨_, rfl, hv.symm, fun hc => ?_⟩
      rw [hv] at hc
      cases hc
  · exact ⟨c, hc, rfl, fun _ => rfl⟩

end Store.Keeps

/-- Bindings last; all else is free. -/
def Discipline.permanence : Discipline where
  fit _ := True
  step := Store.Keeps
  inside _ _ := True
  own _ _ := True
  value _ _ := True
  line _ := True
  error _ := True

namespace Discipline.Permanence

open Evaluator (performCourse)

variable {host : Host}

theorem next {s t : Store} (h : s.Keeps t) : permanence.next s t := ⟨h, trivial⟩

/-- Host functions look names up and declare them. -/
theorem perform_holds (scope line : Nat) (action : HostAction) (w : Store) :
    permanence.Holds w permanence.value (performCourse scope line action) := by
  have here (s : Store) : permanence.next s s := next (.refl s)
  induction action generalizing w with
  | done _ | fail _ | raise _ =>
      intro _ s hs
      subst hs
      exact ⟨.pass (here _) (.stay (here _)), trivial⟩
  | lookup name next ih => exact fun hw s hs => ih (s.store.lookup scope name) w hw s hs
  | declare name value constant _ ih =>
      intro hw s hs
      subst hs
      simp only [performCourse, Evaluator.perform, Store.declare]
      cases hd : s.store.declarable scope name with
      | error e => exact ih (.error e) s.store hw s rfl
      | ok =>
          obtain ⟨hl, hm⟩ := ih (.ok value) (s.store.bind scope name ⟨value, constant⟩) trivial
            { s with store := s.store.bind scope name ⟨value, constant⟩ } rfl
          exact ⟨.pass (next (.declare hd _)) hl, hm⟩
  | display value next ih => exact fun hw s hs => ih (s.store.display value) w hw s hs

theorem lawful (host : Host) : permanence.Lawful host where
  refl := .refl
  trans := .trans
  inside_later _ _ := trivial
  own_later _ _ := trivial
  value_later _ _ := trivial
  inside_of_own _ := trivial
  value_plain _ _ _ := trivial
  value_func := ⟨fun _ => ⟨trivial, fun _ _ => trivial⟩, fun _ => trivial⟩
  error_fail _ _ := trivial
  value_lookup _ _ _ := trivial
  next_declare _ _ _ _ hd := next (.declare hd _)
  next_assign _ _ _ ha := next (.assign ha _)
  next_newScope _ _ := ⟨next (.of_eq (Store.binding?_newScope _ _)), trivial⟩
  next_newObject _ _ _ := ⟨next (.refl _), trivial⟩
  value_field _ _ _ := trivial
  next_setField _ _ _ := next (.refl _)
  perform_holds _ _ _ _ := perform_holds _ _ _ _

end Discipline.Permanence

namespace Session

theorem binding?_initialStore :
    ∀ entry ∈ Builtin.all, initialStore.binding? root entry.1 = some ⟨entry.2, true⟩ := by
  simp only [Builtin.all, List.map_cons, List.map_nil, List.cons_append, List.nil_append,
    List.forall_mem_cons, List.not_mem_nil, false_implies, implies_true, and_true]
  exact ⟨rfl, rfl, rfl, rfl, rfl, rfl, rfl, rfl, rfl, rfl, rfl, rfl⟩

/-- The functions of the host leave the other names at the top as they are. -/
theorem binding?_start {host : Host} {name : Text} (h : name ∉ host.functions.keys) :
    (start host).state.store.binding? root name = initialStore.binding? root name := by
  have hk (keys : List Text) (s : Store) (h : name ∉ keys) :
      (keys.foldl (fun s name => s.bind root name ⟨.native (.host name), true⟩) s).binding?
        root name = s.binding? root name := by
    induction keys generalizing s with
    | nil => rfl
    | cons key keys ih =>
        rw [List.mem_cons, not_or] at h
        rw [List.foldl_cons, ih _ h.2, Store.binding?_bind, if_neg fun he => h.1 he.2.symm]
  exact hk _ _ h

/-- Over a whole session, whatever its sources and however they end, a name that is bound in a
scope at some moment is bound there at every later one, with the same constancy and, if it is
a constant, with the same value. The built-in names that the host leaves alone are bound to
their values at the top at every moment. -/
theorem moments_keep (host : Host) (fuel : Nat) (sources : List Text) :
    (moments host fuel sources (start host)).Pairwise Store.Keeps ∧
      ∀ s ∈ moments host fuel sources (start host), ∀ entry ∈ Builtin.all,
        entry.1 ∉ host.functions.keys → s.binding? root entry.1 = some ⟨entry.2, true⟩ := by
  have L := Discipline.Permanence.lawful host
  refine ⟨(moments_pairwise L trivial trivial fun _ _ _ _ _ _ => trivial).imp And.left,
    fun s hs entry he hn => ?_⟩
  have hb := (binding?_start hn).trans (binding?_initialStore entry he)
  have hk := (next_of_mem_moments L trivial trivial (fun _ _ _ _ _ _ => trivial) hs).1
  obtain ⟨⟨v, k⟩, hc, rfl, hv⟩ := hk root entry.1 _ hb
  cases hv rfl
  exact hc

/-- A constant is the same object after a parameter of its name has been assigned to and an
assignment to itself has failed. -/
theorem moments_keep_constant :
    let a := Text.utf8 "const c = \x7b n: 1 \x7d;"
    let b := Text.utf8 "func f(c) \x7b c = 2; c \x7d f(c); c = 3"
    let S := (run {} 20 a (start {})).2
    let T := (run {} 20 b S).2
    (run {} 20 b S).1.toOption.isNone ∧ ∃ v : Value, v.kind = .object ∧
      S.state.store.binding? root (Text.utf8 "c") = some ⟨v, true⟩ ∧
      T.state.store.binding? root (Text.utf8 "c") = some ⟨v, true⟩ := by
  intro a b S T
  have hf : (run {} 20 b S).1.toOption.isNone = true := by decide +kernel
  have hc : (S.state.store.binding? root (Text.utf8 "c")).map
      (fun d => (d.value.kind, d.constant)) = some (.object, true) := by decide +kernel
  obtain ⟨⟨v, k⟩, hv, hk⟩ := Option.map_eq_some_iff.mp hc
  simp only [Prod.mk.injEq] at hk
  obtain ⟨hk, rfl⟩ := hk
  have hp : ((start {}).state.store :: (passed {} 20 a (start {}) ++
      S.state.store :: (passed {} 20 b S ++ [T.state.store]))).Pairwise Store.Keeps :=
    (moments_keep {} 20 [a, b]).1
  have hp := (List.pairwise_append.mp (List.pairwise_cons.mp hp).2).2.1
  obtain ⟨⟨w, k⟩, hw, rfl, he⟩ := (List.pairwise_cons.mp hp).1 T.state.store
    (List.mem_append_right _ (List.mem_singleton_self _)) root _ _ hv
  cases he rfl
  exact ⟨hf, _, hk, hv, hw⟩

end Session

end Scripting
