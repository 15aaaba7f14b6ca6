import Scripting.Proofs.Program.Isolation
import Scripting.Proofs.Session.WellFormed

/-!
Programs with their conditionals nested. A conditional with several clauses does what nested
ones do: evaluated one after the other in new sessions, programs and the same programs with
conditionals nested end together, with the same results, the same printed lines and the same
bindings at the top.
-/

namespace Scripting

/-- Scopes that stand for each other are seen alike, if they list their names once. -/
theorem Store.Like.bindings_eq {w : Matching} {s t : Store} (h : s.Like w t) {i j : Nat}
    (hij : w.scopes i j) (hn : ∀ c, s.scopes[i]? = some c → c.bindings.keys.Nodup) :
    s.bindings i = t.bindings j := by
  have sorted (s : Store) (entries : List (Text × Binding)) :
      (entries.mergeSort fun a b => a.1.le b.1).map
          (fun entry => (entry.1, entry.2.constant, s.shown entry.2.value)) =
        (entries.map fun entry => (entry.1, entry.2.constant, s.shown entry.2.value)).mergeSort
          fun a b => a.1.le b.1 := by
    apply List.map_mergeSort
    intro _ _ _ _
    rfl
  obtain ⟨c, d, hc, hd, hcd⟩ := h.scopes hij
  have ht : c.bindings.Like (Binding.Like w) d.bindings :=
    .of_get? hcd.names (hn c hc) hcd.bindings
  rw [bindings, bindings, listing, listing, hc, hd]
  simp only [sorted]
  congr 1
  apply ht.map_eq
  intro name b d hbd
  simp only [shown, hbd.constant, hbd.value.kind_eq, h.display hbd.value]

namespace Session

open Evaluator (execBlock)

/-- Programs that are evaluated one after the other, each to its end, with the result of each
one and the session after it. -/
inductive Evaluations (host : Host) :
    Session → List Program → List (Except RunError Value × Session) → Prop
  | nil {S : Session} : Evaluations host S [] []
  | cons {S T : Session} {p : Program} {ps : List Program} {r : Except RunError Value}
      {rest : List (Except RunError Value × Session)} (h : Evaluates host p S r T)
      (hs : Evaluations host T ps rest) : Evaluations host S (p :: ps) ((r, T) :: rest)

/-- The same error, or values that are seen alike. -/
inductive SameOutcome (S T : Session) : Except RunError Value → Except RunError Value → Prop
  | value {v w : Value} (h : S.state.store.shown v = T.state.store.shown w) :
      SameOutcome S T (.ok v) (.ok w)
  | error (e : RuntimeError) : SameOutcome S T (.error (.runtime e)) (.error (.runtime e))

/-- Two evaluations with the same outcome, after the same printed lines and with the same
bindings at the top. -/
structure Agrees (x y : Except RunError Value × Session) : Prop where
  outcome : SameOutcome x.2 y.2 x.1 y.1
  printed : x.2.state.printed = y.2.state.printed
  bindings : x.2.state.store.bindings root = y.2.state.store.bindings root

/-- Two sessions whose stores match, with the same lines printed and the same times ahead. -/
structure Abreast (host : Host) (S T : Session) : Prop where
  store : ∃ w : Matching, w.scopes root root ∧ S.state.store.Like w T.state.store
  printed : S.state.printed = T.state.printed
  clock : ∀ k, host.clock (S.state.readings + k) = host.clock (T.state.readings + k)
  sound : S.state.store.Intact ∧ S.state.store.Made (.scope root)

variable {host : Host} {S T : Session} {p q : Program}

theorem Abreast.start (hf : host.functions = .empty) : Abreast host (start host) (start host) := by
  have hs : (Session.start host).state.store = initialStore := by
    rw [Session.start, hf]
    rfl
  obtain ⟨c, hc, hb⟩ := Program.bare_initialStore
  refine ⟨⟨.single root, ⟨rfl, rfl⟩, ?_⟩, rfl, fun _ => rfl, start_intact host⟩
  rw [hs]
  exact .single hc hc (hb.like _ root)

theorem Evaluates.intact (hf : host.functions = .empty)
    (hS : S.state.store.Intact ∧ S.state.store.Made (.scope root)) (fuel : Nat) (p : Program) :
    (evaluate host fuel p S).2.state.store.Intact ∧
      (evaluate host fuel p S).2.state.store.Made (.scope root) := by
  have hh : host.Honest := by
    intro name action h
    rw [hf] at h
    cases h
  have L := Discipline.Tidiness.lawful hh
  have hb : Discipline.tidiness.Holds S.state.store Discipline.tidiness.value
      (Evaluator.blockCourse host fuel root .null p) :=
    (L.holdsAt fuel).block hS.2 L.value_null fun _ _ => trivial
  have hn := (hb hS.1 S.state rfl).1.le L.next_trans
  rw [evaluate_eq, finish_store]
  exact ⟨hn.2, L.own_later hn.1 hS.2⟩

theorem SameOutcome.finish {w : Matching} {x y : Outcome Value × State}
    (h : x.2.store.Like w y.2.store) (ho : Outcome.Like (Value.Like w) x.1 y.1) :
    SameOutcome (finish host x).2 (finish host y).2 (finish host x).1 (finish host y).1 := by
  have hx := finish_store host x
  have hy := finish_store host y
  obtain ⟨o, s⟩ := x
  obtain ⟨o', t⟩ := y
  cases ho with
  | ok hv =>
      refine .value ?_
      rw [hx, hy, Store.shown, Store.shown, hv.kind_eq, h.display hv]
  | error e => exact .error e

/-- One evaluation on each side, if the one that is looked at ends. -/
theorem Abreast.evaluate (hf : host.functions = .empty) (h : Abreast host S T) (hp : p.Nests q)
    (forth : Bool) {n m : Nat} (hn : if forth then 4 * n ≤ m else m ≤ n)
    (he : if forth then (Session.evaluate host n p S).1 ≠ .error .exhausted
      else (Session.evaluate host m q T).1 ≠ .error .exhausted) :
    Agrees (Session.evaluate host n p S) (Session.evaluate host m q T) ∧
      Abreast host (Session.evaluate host n p S).2 (Session.evaluate host m q T).2 := by
  obtain ⟨w, hr, hw⟩ := h.store
  let A : Sides := ⟨host, host, S.state.printed, T.state.printed, forth, hf, hf,
    fun k => by rw [h.printed]⟩
  have hs : A.Like w S.state T.state :=
    ⟨hw, ⟨#[], Array.append_empty.symm, Array.append_empty.symm⟩, h.clock⟩
  have ht := Evaluates.intact hf h.sound n p
  simp only [evaluate_eq, ne_eq, finish_exhausted] at he ht ⊢
  obtain ⟨w', hw', hst, ho⟩ := (A.simAt hn).block hr .null hp S.state T.state hs he
  generalize execBlock host n root .null p S.state = x at hst ho ht ⊢
  generalize execBlock host m root .null q T.state = y at hst ho ⊢
  obtain ⟨lines, hl, hl'⟩ := hst.printed
  have hr' := hw'.1 root root hr
  have hstore : (finish host x).2.state.store.Like w' (finish host y).2.state.store := by
    rw [finish_store, finish_store]
    exact hst.store
  have hprinted : (finish host x).2.state.printed = (finish host y).2.state.printed := by
    obtain ⟨_, hx⟩ := finish_state host x
    obtain ⟨_, hy⟩ := finish_state host y
    rw [hx, hy]
    exact hl.trans ((congrArg (· ++ lines) h.printed).trans hl'.symm)
  have hclock (k : Nat) : host.clock ((finish host x).2.state.readings + k) =
      host.clock ((finish host y).2.state.readings + k) := by
    obtain ⟨_, hx⟩ := finish_state host x
    obtain ⟨_, hy⟩ := finish_state host y
    rw [hx, hy]
    exact hst.clock k
  exact ⟨⟨.finish hst.store ho, hprinted,
    hstore.bindings_eq hr' fun _ hc => (ht.1.tidy.scopes hc).nodup⟩,
    ⟨⟨w', hr', hstore⟩, hprinted, hclock, ht⟩⟩

theorem SameOutcome.ends {r r' : Except RunError Value} (h : SameOutcome S T r r') :
    r ≠ .error .exhausted ∧ r' ≠ .error .exhausted := by
  cases h <;> simp

section
variable (hf : host.functions = .empty)
include hf

/-- If a program ends, then so does the nested one. -/
theorem Abreast.forth (h : Abreast host S T) (hp : p.Nests q) {r : Except RunError Value}
    {S' : Session} (he : Evaluates host p S r S') :
    ∃ r' T', Evaluates host q T r' T' ∧ Agrees (r, S') (r', T') ∧ Abreast host S' T' := by
  obtain ⟨n, hn, hr⟩ := he
  have hx := h.evaluate hf hp true (n := n) (m := 4 * n) (Nat.le_refl _) (by rw [hn]; exact hr)
  rw [hn] at hx
  exact ⟨_, _, ⟨4 * n, rfl, hx.1.outcome.ends.2⟩, hx⟩

/-- If a nested program ends, then so does the one that it comes from. -/
theorem Abreast.back (h : Abreast host S T) (hp : p.Nests q) {r' : Except RunError Value}
    {T' : Session} (he : Evaluates host q T r' T') :
    ∃ r S', Evaluates host p S r S' ∧ Agrees (r, S') (r', T') ∧ Abreast host S' T' := by
  obtain ⟨m, hm, hr⟩ := he
  have hx := h.evaluate hf hp false (n := m) (m := m) (Nat.le_refl _) (by rw [hm]; exact hr)
  rw [hm] at hx
  exact ⟨_, _, ⟨m, rfl, hx.1.outcome.ends.1⟩, hx⟩

theorem Abreast.evaluations_forth (h : Abreast host S T) {ps qs : List Program}
    (hps : List.Forall₂ Program.Nests ps qs) {rs : List (Except RunError Value × Session)}
    (hs : Evaluations host S ps rs) :
    ∃ rs', Evaluations host T qs rs' ∧ List.Forall₂ Agrees rs rs' := by
  induction hs generalizing T qs with
  | nil =>
      cases hps
      exact ⟨[], .nil, .nil⟩
  | cons he _ ih =>
      cases hps with
      | cons hp hps =>
          obtain ⟨r', T', he', ha, ht⟩ := h.forth hf hp he
          obtain ⟨rs', hs', has⟩ := ih ht hps
          exact ⟨_, .cons he' hs', .cons ha has⟩

theorem Abreast.evaluations_back (h : Abreast host S T) {ps qs : List Program}
    (hps : List.Forall₂ Program.Nests ps qs) {rs' : List (Except RunError Value × Session)}
    (hs : Evaluations host T qs rs') : ∃ rs, Evaluations host S ps rs := by
  induction hs generalizing S ps with
  | nil =>
      cases hps
      exact ⟨[], .nil⟩
  | cons he _ ih =>
      cases hps with
      | cons hp hps =>
          obtain ⟨r, S', he', -, ht⟩ := h.back hf hp he
          obtain ⟨rs, hs'⟩ := ih ht hps
          exact ⟨_, .cons he' hs'⟩

end

theorem Evaluations.unique {ps : List Program} {rs rs' : List (Except RunError Value × Session)}
    (h : Evaluations host S ps rs) (h' : Evaluations host S ps rs') : rs = rs' := by
  induction h generalizing rs' with
  | nil =>
      cases h'
      rfl
  | cons h _ ih =>
      cases h' with
      | cons h' hs' =>
          obtain ⟨rfl, rfl⟩ := h.unique h'
          rw [ih hs']

/-- Programs, and the same programs with any of their conditionals nested, evaluated one after
the other in new sessions with the built-in functions only. If all of the one list end, then so
do all of the other, and each one ends as the one beside it: with the same error or with values
that are seen alike, after the same printed lines and with the same bindings at the top. -/
theorem evaluations_nested (host : Host) (hf : host.functions = .empty) (ps qs : List Program)
    (h : List.Forall₂ Program.Nests ps qs) :
    ((∃ rs, Evaluations host (start host) ps rs) ↔
      ∃ rs, Evaluations host (start host) qs rs) ∧
    ∀ rs rs', Evaluations host (start host) ps rs → Evaluations host (start host) qs rs' →
      List.Forall₂ Agrees rs rs' := by
  have ha := Abreast.start hf
  refine ⟨⟨fun ⟨rs, hs⟩ => ?_, fun ⟨rs', hs'⟩ => ?_⟩, fun rs rs' hs hs' => ?_⟩
  · obtain ⟨rs', hs', -⟩ := ha.evaluations_forth hf h hs
    exact ⟨rs', hs'⟩
  · exact ha.evaluations_back hf h hs'
  · obtain ⟨found, hfound, hagree⟩ := ha.evaluations_forth hf h hs
    rw [hs'.unique hfound]
    exact hagree

/-- A conditional with three clauses in a function, with all of them nested. Called once, the
second clause declares a name and prints it; called again, the third one has no condition. -/
theorem evaluations_nested_thrice :
    let host : Host := {}
    let name (text : String) : Name := ⟨Text.utf8 text, 1⟩
    let first : Clause := .mk (.name (name "a")) [.expr (.name (name "a"))]
    let second : Clause := .mk (.name (name "b"))
      [.declare false (name "x") none (some (.name (name "b"))),
        .expr (.call (.name (name "print")) 1 [.name (name "x")])]
    let third : Clause := .mk (.text (Text.utf8 "c")) []
    let otherwise : List Stmt := [.expr (.name (name "f"))]
    let p : Program := [.func (name "f") [name "a", name "b"]
      [.branch 7 first [second, third] otherwise]]
    let q : Program := [.func (name "f") [name "a", name "b"]
      [.branch 7 first [] [.branch 7 second [] [.branch 7 third [] otherwise]]]]
    let call (a b : String) : Program :=
      [.expr (.call (.name (name "f")) 1 [.name (name a), .name (name b)])]
    let after (p : Program) (S : Session) : Session := (evaluate host 20 p S).2
    let S := after (call "false" "true") (after p (start host))
    List.Forall₂ Program.Nests [p, call "false" "true", call "false" "false"]
        [q, call "false" "true", call "false" "false"] ∧
      S.state.printed.toList = [Text.utf8 "true"] ∧
      failureLine (evaluate host 20 (call "false" "false") S).1 = some 7 ∧
      ∃ rs rs', Evaluations host (start host) [p, call "false" "true", call "false" "false"] rs ∧
        Evaluations host (start host) [q, call "false" "true", call "false" "false"] rs' ∧
        List.Forall₂ Agrees rs rs' := by
  intro host name first second third otherwise p q call after S
  have nests : List.Forall₂ Program.Nests [p, call "false" "true", call "false" "false"]
      [q, call "false" "true", call "false" "false"] := by
    refine .cons (.cons (.func _ _ (.cons ?_ .nil)) .nil)
      (.cons (Stmt.Nests.each _) (.cons (Stmt.Nests.each _) .nil))
    exact .nested 7 (Clause.Nests.refl first) (Clause.Nests.each [second, third])
      (Stmt.Nests.each otherwise)
  have hd : (evaluate host 20 p (start host)).1.toOption.isSome = true ∧
      (evaluate host 20 (call "false" "true") (after p (start host))).1.toOption.isSome = true ∧
      S.state.printed.toList = [Text.utf8 "true"] ∧
      failureLine (evaluate host 20 (call "false" "false") S).1 = some 7 := by decide +kernel
  obtain ⟨hp, ha, hs, hb⟩ := hd
  have ended {p : Program} {S : Session} (h : (evaluate host 20 p S).1.toOption.isSome = true ∨
      failureLine (evaluate host 20 p S).1 = some 7) :
      Evaluates host p S (evaluate host 20 p S).1 (evaluate host 20 p S).2 := by
    refine ⟨20, rfl, fun he => ?_⟩
    rw [he] at h
    cases h with
    | inl h => cases h
    | inr h => cases h
  obtain ⟨rs, hrs⟩ : ∃ rs, Evaluations host (start host)
      [p, call "false" "true", call "false" "false"] rs :=
    ⟨_, .cons (ended (.inl hp)) (.cons (ended (.inl ha)) (.cons (ended (.inr hb)) .nil))⟩
  obtain ⟨hiff, hagree⟩ := evaluations_nested host rfl _ _ nests
  obtain ⟨rs', hrs'⟩ := hiff.mp ⟨rs, hrs⟩
  exact ⟨nests, hs, hb, rs, rs', hrs, hrs', hagree rs rs' hrs hrs'⟩

end Session

end Scripting
