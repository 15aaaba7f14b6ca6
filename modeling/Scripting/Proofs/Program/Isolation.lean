import Scripting.Proofs.Eval.Likeness
import Scripting.Proofs.Session.Moments

/-!
Evaluations of one program, each in a new scope inside the same scope at the top. If that
scope binds nothing but built-in names, then no evaluation changes it, and nothing that one of
them makes can be reached by another: all of them are seen to do the same.
-/

namespace Scripting

/-- A scope at the top that binds nothing, or the built-in names and no others. -/
structure Scope.Bare (c : Scope) : Prop where
  parent : c.parent = none
  bindings : (∀ name, c.bindings.get? name = none) ∨
    ∀ name, c.bindings.get? name = (Table.find? name Builtin.all).map (⟨·, true⟩)

theorem Scope.Bare.get? {c : Scope} (h : c.Bare) {name : Text} {b : Binding}
    (hb : c.bindings.get? name = some b) : b.constant = true ∧ ∀ w, b.value.Like w b.value := by
  obtain hn | hn := h.bindings
  · rw [hn name] at hb
    cases hb
  · rw [hn name] at hb
    obtain ⟨v, hv, rfl⟩ := Option.map_eq_some_iff.mp hb
    refine ⟨rfl, fun w => ?_⟩
    exact Builtin.forall_values (P := fun v => v.Like w v) .bool .null (fun f _ => .native f) _
      (Table.mem_of_find? hv)

theorem Scope.Bare.like {c : Scope} (h : c.Bare) (w : Matching) (scope : Nat) :
    Scope.Like w scope scope c c where
  parent := by
    rw [h.parent]
    exact .none
  names := rfl
  bindings name := by
    cases hb : c.bindings.get? name with
    | none => exact .none
    | some b => exact .some ⟨(h.get? hb).2 w, rfl⟩

/-- One scope stays as it is; names are declared in all others. -/
def Discipline.isolation (root : Nat) (c : Scope) : Discipline where
  fit s := s.scopes[root]? = some c
  step _ _ := True
  inside _ _ := True
  own _ scope := scope ≠ root
  value _ _ := True
  line _ := True
  error _ := True

theorem Discipline.isolation_lawful {host : Host} (hf : host.functions = .empty) (root : Nat)
    {c : Scope} (hc : c.Bare) : (isolation root c).Lawful host where
  refl _ := trivial
  trans _ _ := trivial
  inside_later _ _ := trivial
  own_later _ h := h
  value_later _ _ := trivial
  inside_of_own _ := trivial
  value_plain _ _ _ := trivial
  value_func := ⟨fun _ => ⟨trivial, fun _ _ => trivial⟩, fun _ => trivial⟩
  error_fail _ _ := trivial
  value_lookup _ _ _ := trivial
  next_declare _ hs ho _ _ :=
    ⟨trivial, (Store.getElem?_scopes_bind ..).trans ((if_neg ho).trans hs)⟩
  next_assign hs _ _ ha := by
    obtain ⟨-, b, hb, hv⟩ := Store.binding?_of_assignable ha
    refine ⟨trivial, (Store.getElem?_scopes_bind ..).trans ((if_neg ?_).trans hs)⟩
    -- the names at the top are constants, so none of them is assigned to
    rintro rfl
    rw [Store.binding?, hs, Option.bind_some] at hb
    rw [(hc.get? hb).1] at hv
    cases hv
  next_newScope hs _ := by
    have hr := (Array.getElem?_eq_some_iff.mp hs).1
    exact ⟨⟨trivial, (Store.getElem?_scopes_newScope ..).trans
      ((if_neg (Nat.ne_of_lt hr)).trans hs)⟩, Nat.ne_of_gt hr⟩
  next_newObject hs _ _ := ⟨⟨trivial, hs⟩, trivial⟩
  value_field _ _ _ := trivial
  next_setField hs _ _ := ⟨trivial, hs⟩
  perform_holds h := by
    rw [hf] at h
    cases h

namespace Program

open Evaluator (newScope blockCourse)
open Eval (Ends Steady Course)

/-- Evaluates a program in a new scope inside another. -/
def evaluateInside (host : Host) (p : Program) (root fuel : Nat) : Eval Value :=
  newScope (some root) >>= p.evaluate host fuel

/-- The stores that such an evaluation passes through. -/
def courseInside (host : Host) (p : Program) (root fuel : Nat) :
    Course (p.evaluateInside host root fuel) :=
  (Course.step (newScope (some root))).bind fun scope => blockCourse host fuel scope .null p

/-- What is seen of an evaluation: the kind and the text of its value or else its error, and
the lines it printed. -/
structure Sight where
  result : Except RuntimeError (Value.Kind × Text)
  printed : List Text
  deriving DecidableEq

/-- What is seen of an evaluation that has ended, when some lines had been printed before. -/
def seen (before : Array Text) : Outcome Value × State → Option Sight
  | (.ok v, t) => some ⟨.ok (t.store.shown v), t.printed.toList.drop before.size⟩
  | (.error e, t) => some ⟨.error e, t.printed.toList.drop before.size⟩
  | (.exhausted, _) => none

/-- An evaluation in a new scope inside another ends, with what is seen of it. -/
def Shows (host : Host) (p : Program) (root : Nat) (s : State) (sight : Sight) (t : State) : Prop :=
  ∃ fuel, (p.evaluateInside host root fuel s).2 = t ∧
    seen s.printed (p.evaluateInside host root fuel s) = some sight

/-- Evaluations one after the other, each in a new scope inside the same one. -/
inductive Repeats (host : Host) (p : Program) (root : Nat) : Nat → State → List Sight → State → Prop
  | zero {s : State} : Repeats host p root 0 s [] s
  | succ {n : Nat} {s t u : State} {sight : Sight} {sights : List Sight}
      (h : p.Shows host root s sight t) (hs : Repeats host p root n t sights u) :
      Repeats host p root (n + 1) s (sight :: sights) u

/-- What is seen of the evaluation is the same whatever the clock shows. -/
def Timeless (host : Host) (p : Program) (root : Nat) (s : State) : Prop :=
  ∀ clock clock' sight, (∃ t, p.Shows { host with clock } root s sight t) →
    ∃ t, p.Shows { host with clock := clock' } root s sight t

section
variable {host : Host} {p : Program} {root : Nat} {s t : State}

theorem evaluateInside_steady (host : Host) (p : Program) (root : Nat) :
    Steady (p.evaluateInside host root) := fun n k =>
  (Eval.Grows.refl _).bind fun scope => Evaluator.block_steady host scope .null p n k

theorem seen_ends {before : Array Text} {x : Outcome Value × State} {sight : Sight}
    (h : seen before x = some sight) : x.1 ≠ .exhausted := by
  match x with
  | (.ok _, _) | (.error _, _) => exact nofun
  | (.exhausted, _) => cases h

theorem Shows.unique {a b : Sight} {u : State} (h : p.Shows host root s a t)
    (h' : p.Shows host root s b u) : a = b := by
  obtain ⟨n, -, h⟩ := h
  obtain ⟨n', -, h'⟩ := h'
  have he := Ends.unique (p.evaluateInside_steady host root) ⟨n, rfl, seen_ends h⟩
    ⟨n', rfl, seen_ends h'⟩
  rw [he, h'] at h
  exact (Option.some.inj h).symm

/-- Evaluations that are alike are seen alike. -/
theorem seen_eq {A : Sides} {w : Matching} {x y : Outcome Value × State} (h : A.Like w x.2 y.2)
    (ho : Outcome.Like (Value.Like w) x.1 y.1) : seen A.leftLines x = seen A.rightLines y := by
  obtain ⟨lines, hl, hr⟩ := h.printed
  have hd : x.2.printed.toList.drop A.leftLines.size =
      y.2.printed.toList.drop A.rightLines.size := by
    simp [hl, hr]
  obtain ⟨o, t⟩ := x
  obtain ⟨o', t'⟩ := y
  cases ho with
  | ok hv => simp only [seen, Store.shown, hv.kind_eq, h.store.display hv, hd]
  | error e => simp only [seen, hd]

section
variable (hf : host.functions = .empty) {c : Scope} (hc : c.Bare)
  (hs : s.store.scopes[root]? = some c)
include hf hc hs

/-- What is seen of an evaluation inside a bare scope is seen again from any other state with
this scope, if the clock from there on shows the same times. -/
theorem Shows.transfer (hl : host.printLimit = none) (ht : t.store.scopes[root]? = some c)
    {clock : Nat → Number} (hk : ∀ k, host.clock (s.readings + k) = clock (t.readings + k))
    {sight : Sight} {u : State} (h : p.Shows host root s sight u) :
    ∃ v, p.Shows { host with clock } root t sight v := by
  let A : Sides := ⟨host, { host with clock }, s.printed, t.printed, true, hf, hf,
    fun k => by simp only [hl, Option.all_none]⟩
  let w := Matching.single root
  have hw : A.Like w s t := ⟨.single hs ht (hc.like w root),
    ⟨#[], Array.append_empty.symm, Array.append_empty.symm⟩, hk⟩
  have hr : w.within root root := .inl ⟨rfl, rfl⟩
  obtain ⟨n, -, hn⟩ := h
  have hsim := A.simAt (n := n) (m := 4 * n) (Nat.le_refl _)
  obtain ⟨w', -, hst, ho⟩ := hsim.inner_block hr (Stmt.Nests.each p) s t hw (seen_ends hn)
  exact ⟨_, 4 * n, rfl, (seen_eq hst ho).symm.trans hn⟩

/-- At every moment of an evaluation inside a bare scope, and after it, the scope is as it
was. -/
theorem root_kept (p : Program) (fuel : Nat) :
    (p.evaluateInside host root fuel s).2.store.scopes[root]? = some c ∧
      ∀ m ∈ (p.courseInside host root fuel).stores s, m.scopes[root]? = some c := by
  have L := Discipline.isolation_lawful hf root hc
  have hb : (Discipline.isolation root c).Holds s.store (fun _ _ => True)
      (p.courseInside host root fuel) :=
    L.bind (L.newScope_holds trivial) fun t scope _ _ ho =>
      (L.holdsAt fuel).block ho trivial fun _ _ => trivial
  have hk := (hb hs s rfl).1
  refine ⟨(hk.le L.next_trans).2, fun m hm => ?_⟩
  have hp := hk.pairwise L.next_trans (List.pairwise_singleton ..)
  exact ((List.pairwise_cons.mp hp).1 m (List.mem_append_left _ hm)).2

theorem Shows.root_kept {sight : Sight} (h : p.Shows host root s sight t) :
    t.store.scopes[root]? = some c := by
  obtain ⟨n, rfl, -⟩ := h
  exact (Program.root_kept hf hc hs p n).1

/-- From any state with the bare scope the same is seen as from the first one. -/
theorem shows_iff (hl : host.printLimit = none) (ht : p.Timeless host root s)
    (hu : t.store.scopes[root]? = some c) (sight : Sight) :
    (∃ v, p.Shows host root t sight v) ↔ ∃ v, p.Shows host root s sight v := by
  let clock (k : Nat) : Number := host.clock (t.readings + (k - s.readings))
  have hk (k : Nat) : host.clock (t.readings + k) = clock (s.readings + k) := by
    simp only [clock, Nat.add_sub_cancel_left]
  constructor
  · rintro ⟨v, h⟩
    exact ht clock host.clock sight (h.transfer hf hc hu hl hs hk)
  · intro h
    obtain ⟨v, h⟩ := ht host.clock clock sight h
    have hf' : ({ host with clock } : Host).functions = .empty := hf
    exact h.transfer hf' hc hs hl hu fun k => (hk k).symm

theorem exists_repeats (hl : host.printLimit = none) (ht : p.Timeless host root s) {sight : Sight}
    (h : ∃ v, p.Shows host root s sight v) (n : Nat) (hu : t.store.scopes[root]? = some c) :
    ∃ u, p.Repeats host root n t (List.replicate n sight) u := by
  induction n generalizing t with
  | zero => exact ⟨t, .zero⟩
  | succ n ih =>
      obtain ⟨v, hv⟩ := (shows_iff hf hc hs hl ht hu sight).mpr h
      obtain ⟨x, hx⟩ := ih (hv.root_kept hf hc hu)
      exact ⟨x, .succ hv hx⟩

theorem Repeats.shows (hl : host.printLimit = none) (ht : p.Timeless host root s) {n : Nat}
    {sights : List Sight} {u : State} (h : p.Repeats host root n t sights u)
    (hu : t.store.scopes[root]? = some c) :
    u.store.scopes[root]? = some c ∧ sights.length = n ∧
      ∀ sight ∈ sights, ∃ v, p.Shows host root s sight v := by
  induction h with
  | zero => exact ⟨hu, rfl, nofun⟩
  | succ h _ ih =>
      obtain ⟨hr, hn, hv⟩ := ih (h.root_kept hf hc hu)
      refine ⟨hr, congrArg (· + 1) hn, List.forall_mem_cons.mpr ⟨?_, hv⟩⟩
      exact (shows_iff hf hc hs hl ht hu _).mp ⟨_, h⟩

end

end

/-- A program that does not depend on the clock is evaluated again and again, each time in a
new scope inside the same bare scope. If the first evaluation ends, then so do all of them,
and what is seen of them is the same every time. The bare scope is the same after each of
them and at every moment of the next one. -/
theorem repeats_isolated (host : Host) (hf : host.functions = .empty)
    (hl : host.printLimit = none) (p : Program) (root : Nat) (s : State) {c : Scope}
    (hs : s.store.scopes[root]? = some c) (hc : c.Bare) (ht : p.Timeless host root s) (n : Nat) :
    (∀ sight t, p.Shows host root s sight t →
      ∃ u, p.Repeats host root n s (List.replicate n sight) u) ∧
    ∀ sights u, p.Repeats host root n s sights u →
      sights.length = n ∧ (∀ a ∈ sights, ∀ b ∈ sights, a = b) ∧
        u.store.scopes[root]? = some c ∧
        ∀ fuel, ∀ m ∈ (p.courseInside host root fuel).stores u, m.scopes[root]? = some c := by
  refine ⟨fun sight t h => exists_repeats hf hc hs hl ht ⟨t, h⟩ n hs, fun sights u h => ?_⟩
  obtain ⟨hu, hn, hv⟩ := h.shows hf hc hs hl ht hs
  refine ⟨hn, fun a ha b hb => ?_, hu, fun fuel => (root_kept hf hc hu p fuel).2⟩
  obtain ⟨_, hva⟩ := hv a ha
  obtain ⟨_, hvb⟩ := hv b hb
  exact hva.unique hvb

theorem initialStore_eq : Session.initialStore =
    ⟨#[⟨none, ⟨Builtin.all.map fun (name, value) => (name, ⟨value, true⟩)⟩⟩], #[]⟩ := rfl

theorem bare_initialStore :
    ∃ c, Session.initialStore.scopes[Session.root]? = some c ∧ c.Bare := by
  rw [initialStore_eq]
  refine ⟨_, rfl, rfl, .inr fun name => ?_⟩
  exact Table.find?_map (fun v => (⟨v, true⟩ : Binding)) name Builtin.all

/-- A program that reads the clock for nothing, makes an object, lets a function put the object
into itself and print it, and ends with the object. -/
theorem repeats_isolated_thrice :
    let name (text : String) : Name := ⟨Text.utf8 text, 1⟩
    let p : Program :=
      [.expr (.call (.name (name "time")) 1 []),
        .declare false (name "o") none (some (.object [.pair (name "k") (.name (name "null"))])),
        .func (name "f") [name "x"]
          [.expr (.assign (.member (.name (name "x")) 1 (name "k")) 1 (.name (name "o"))),
            .expr (.call (.name (name "print")) 1 [.name (name "x")]),
            .expr (.name (name "o"))],
        .expr (.call (.name (name "f")) 1 [.name (name "o")])]
    let s : State := { store := Session.initialStore }
    let text := Text.utf8 "\x7b k: \x7b...\x7d \x7d"
    let sight : Sight := ⟨.ok (.object, text), [text]⟩
    ∃ u, p.Repeats {} Session.root 3 s [sight, sight, sight] u ∧
      u.store.scopes[Session.root]? = s.store.scopes[Session.root]? := by
  intro name p s text sight
  have hc (clock clock' : Nat → Number) : p.evaluateInside { clock } Session.root 20 s =
      p.evaluateInside { clock := clock' } Session.root 20 s := by
    dsimp only [p, name, s]
    rw [initialStore_eq]
    cbv
  have hseen : seen s.printed (p.evaluateInside {} Session.root 20 s) = some sight := by
    decide +kernel
  have ht : p.Timeless {} Session.root s := by
    intro clock clock' other h
    obtain ⟨t, h⟩ := h
    have hs : p.Shows { clock } Session.root s sight _ := ⟨20, rfl, hc _ clock ▸ hseen⟩
    cases h.unique hs
    exact ⟨_, 20, rfl, hc _ clock' ▸ hseen⟩
  obtain ⟨c, hr, hb⟩ := bare_initialStore
  obtain ⟨hrep, hkept⟩ := repeats_isolated {} rfl rfl p Session.root s hr hb ht 3
  obtain ⟨u, hu⟩ := hrep sight _ ⟨20, rfl, hseen⟩
  exact ⟨u, hu, (hkept _ u hu).2.2.1.trans hr.symm⟩

end Program

end Scripting
