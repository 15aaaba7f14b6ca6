import Mathlib.Data.List.Forall2
import Scripting.Proofs.Program.Pairing
import Scripting.Proofs.Session.Splitting

/-!
Sources whose programs are the same up to lines. Run in sessions of their own, they end
together, print the same lines, leave the same bindings and give the same results; only the
lines of errors differ. The two sessions are at all times one session with pairs of lines.
-/

namespace Scripting.Session

open Evaluator (execBlock)

/-- Two sources that can be read, with the same program up to lines. -/
def SameTree (a b : Text) : Prop :=
  ∃ p q : Program, Program.ofSource a = .ok p ∧ Program.ofSource b = .ok q ∧ p.SameUpToLines q

/-- Two results that tell the same: values that are seen alike, or errors with the same cause
and the same detail. -/
inductive SameResult (S T : Session) : Except RunError Value → Except RunError Value → Prop
  | value {v w : Value} (h : S.state.store.shown v = T.state.store.shown w) :
      SameResult S T (.ok v) (.ok w)
  | error {e e' : RuntimeError} (hc : e.cause = e'.cause) (hd : e.detail = e'.detail) :
      SameResult S T (.error (.runtime e)) (.error (.runtime e'))

theorem SameResult.ends {S T : Session} {r r' : Except RunError Value} (h : SameResult S T r r') :
    r ≠ .error .exhausted ∧ r' ≠ .error .exhausted := by
  cases h <;> exact ⟨nofun, nofun⟩

/-- Sources with the same tokens up to lines have the same program up to lines. -/
theorem SameTree.of_tokens {a b : Text} {p q : Program} (ha : Program.ofSource a = .ok p)
    (hb : Program.ofSource b = .ok q)
    (h : (Scan.ofSource a).tokens.map (Token.mapLine fun _ => 0) =
      (Scan.ofSource b).tokens.map (Token.mapLine fun _ => 0)) : SameTree a b := by
  have hp := Program.grammar_of_ofTokens (Program.ofTokens_of_ofSource ha).2
  have hq := Program.grammar_of_ofTokens (Program.ofTokens_of_ofSource hb).2
  have hp' := Program.ofTokens_of_grammar 0 (hp.mapLines (f := fun _ => 0))
  have hq' := Program.ofTokens_of_grammar 0 (hq.mapLines (f := fun _ => 0))
  rw [h, hq'] at hp'
  exact ⟨p, q, ha, hb, (Except.ok.inj hp').symm⟩

/-- Two sessions that are one session with a pair of lines wherever a line is kept. -/
structure Twin (S T : Session) : Prop where
  store : ∃ s : Store, S.state.store = s.mapLines firstLine ∧ T.state.store = s.mapLines secondLine
  printed : S.state.printed = T.state.printed
  readings : S.state.readings = T.state.readings

namespace Twin

variable {S T : Session}

theorem alike (h : Twin S T) : Alike S T where
  bindings := by
    obtain ⟨s, hS, hT⟩ := h.store
    rw [hS, hT, Store.bindings_mapLines, Store.bindings_mapLines]
  printed := h.printed
  readings := h.readings

theorem refl (S : Session) : Twin S S := by
  refine ⟨⟨S.state.store.mapLines fun l => Nat.pair l l, ?_⟩, rfl, rfl⟩
  simp only [Store.mapLines_mapLines, firstLine, secondLine, Nat.unpair_pair, Store.mapLines_id,
    and_self]

theorem trace (h : Twin S T) (host : Host) (event event' : Event) :
    Twin ⟨S.state.trace host event⟩ ⟨T.state.trace host event'⟩ := by
  obtain ⟨hs, hp, hr⟩ := h
  constructor <;> dsimp only <;> rw [trace_eq host event, trace_eq host event'] <;> assumption

theorem states (h : Twin S T) : ∃ (s : State) (log log' : Array Event),
    S.state = s.under ⟨firstLine, log⟩ ∧ T.state = s.under ⟨secondLine, log'⟩ := by
  obtain ⟨⟨s, hS, hT⟩, hp, hr⟩ := h
  refine ⟨⟨s, S.state.printed, #[], S.state.readings⟩, S.state.log, T.state.log, ?_, ?_⟩
  · simp only [State.under, Array.append_empty, ← hS]
  · simp only [State.under, Array.append_empty, ← hT, hp, hr]

/-- One evaluation, seen with the first lines and with the second ones. -/
theorem finish (host : Host) (r : Ending Value) (log log' : Array Event) :
    Twin (finish host (r.under Value.mapLines ⟨firstLine, log⟩)).2
      (finish host (r.under Value.mapLines ⟨secondLine, log'⟩)).2 := by
  obtain ⟨t, ht⟩ : ∃ t : State, ∀ c, (r.under Value.mapLines c).2 = t.under c := by
    cases r <;> exact ⟨_, fun _ => rfl⟩
  obtain ⟨l, hl⟩ := finish_state host (r.under Value.mapLines ⟨firstLine, log⟩)
  obtain ⟨l', hl'⟩ := finish_state host (r.under Value.mapLines ⟨secondLine, log'⟩)
  constructor
  · rw [hl, hl', ht, ht]
    exact ⟨t.store, rfl, rfl⟩
  · rw [hl, hl', ht, ht]
    rfl
  · rw [hl, hl', ht, ht]
    rfl

theorem evaluate {host : Host} (hb : host.Blind) (h : Twin S T) (r : Program) (fuel : Nat) :
    let x := Session.evaluate host fuel (r.mapLines firstLine) S
    let y := Session.evaluate host fuel (r.mapLines secondLine) T
    Twin x.2 y.2 ∧
      (x.1 = .error .exhausted ∧ y.1 = .error .exhausted ∨ SameResult x.2 y.2 x.1 y.1) := by
  obtain ⟨s, log, log', hS, hT⟩ := h.states
  obtain ⟨ending, he⟩ := (Evaluator.uniformAt hb fuel).block root .null r s
  have hx : execBlock host fuel root .null (r.mapLines firstLine) S.state =
      ending.under Value.mapLines ⟨firstLine, log⟩ := by
    rw [hS]
    exact he ⟨firstLine, log⟩
  have hy : execBlock host fuel root .null (r.mapLines secondLine) T.state =
      ending.under Value.mapLines ⟨secondLine, log'⟩ := by
    rw [hT]
    exact he ⟨secondLine, log'⟩
  simp only [evaluate_eq, hx, hy]
  refine ⟨finish host ending _ _, ?_⟩
  cases ending with
  | ok v t =>
      refine .inr (.value ?_)
      rw [finish_store, finish_store]
      exact (t.store.shown_mapLines _ v).trans (t.store.shown_mapLines _ v).symm
  | token line cause detail t => exact .inr (.error rfl rfl)
  | raised e t => exact .inr (.error rfl rfl)
  | exhausted t => exact .inl ⟨rfl, rfl⟩

theorem run {host : Host} (hb : host.Blind) (h : Twin S T) {a b : Text} (hs : SameTree a b)
    (fuel : Nat) :
    let x := Session.run host fuel a S
    let y := Session.run host fuel b T
    Twin x.2 y.2 ∧
      (x.1 = .error .exhausted ∧ y.1 = .error .exhausted ∨ SameResult x.2 y.2 x.1 y.1) := by
  obtain ⟨p, q, ha, hb', hpq⟩ := hs
  obtain ⟨r, rfl, rfl⟩ := hpq.paired
  simp only [run_ok ha, run_ok hb']
  exact (h.trace host _ _).evaluate hb r fuel

/-- If one of two sources with the same tree ends, then both do, and alike. -/
theorem finishes {host : Host} (hb : host.Blind) (h : Twin S T) {a b : Text} (hs : SameTree a b)
    (hf : (∃ r S', Finishes host a S r S') ∨ ∃ r T', Finishes host b T r T') :
    ∃ r S' r' T', Finishes host a S r S' ∧ Finishes host b T r' T' ∧ Twin S' T' ∧
      SameResult S' T' r r' := by
  obtain ⟨fuel, hn⟩ : ∃ fuel, ¬ ((Session.run host fuel a S).1 = .error .exhausted ∧
      (Session.run host fuel b T).1 = .error .exhausted) := by
    obtain ⟨r, S', fuel, hr, hn⟩ | ⟨r, T', fuel, hr, hn⟩ := hf
    · exact ⟨fuel, fun he => hn (by rw [← he.1, hr])⟩
    · exact ⟨fuel, fun he => hn (by rw [← he.2, hr])⟩
  obtain ⟨ht, hr⟩ := h.run hb hs fuel
  have hr := hr.resolve_left hn
  exact ⟨_, _, _, _, ⟨fuel, rfl, hr.ends.1⟩, ⟨fuel, rfl, hr.ends.2⟩, ht, hr⟩

end Twin

variable {host : Host}

/-- What two sources and the sessions after them tell, compared. -/
def SameEnd (x y : Except RunError Value × Session) : Prop :=
  x.2.Alike y.2 ∧ SameResult x.2 y.2 x.1 y.1

theorem Finishes.eq {source : Text} {S T T' : Session} {r r' : Except RunError Value}
    (h : Finishes host source S r T) (h' : Finishes host source S r' T') : r = r' ∧ T = T' := by
  cases hp : Program.ofSource source with
  | ok p => exact Finishes.unique hp h h'
  | error e =>
      obtain ⟨fuel, h, -⟩ := h
      obtain ⟨fuel', h', -⟩ := h'
      rw [run_error hp] at h h'
      exact Prod.ext_iff.mp (h.symm.trans h')

theorem Twin.runs (hb : host.Blind) {as bs : List Text} (hs : List.Forall₂ SameTree as bs)
    {S T : Session} (h : Twin S T)
    (hf : (∃ rs, Runs host S as rs) ∨ ∃ rs, Runs host T bs rs) :
    ∃ rs rs', Runs host S as rs ∧ Runs host T bs rs' ∧ List.Forall₂ SameEnd rs rs' := by
  induction hs generalizing S T with
  | nil => exact ⟨[], [], .nil, .nil, .nil⟩
  | @cons a b as bs hab hs ih =>
      -- whichever list is known to end, its first source does, and the rest after it
      have hf' : (∃ r S', Finishes host a S r S' ∧ ∃ rs, Runs host S' as rs) ∨
          ∃ r T', Finishes host b T r T' ∧ ∃ rs, Runs host T' bs rs := by
        obtain ⟨_, h⟩ | ⟨_, h⟩ := hf
        · cases h with
          | cons h hs => exact .inl ⟨_, _, h, _, hs⟩
        · cases h with
          | cons h hs => exact .inr ⟨_, _, h, _, hs⟩
      obtain ⟨r, S', r', T', ha, hb', ht, hr⟩ := h.finishes hb hab
        (hf'.imp (fun ⟨r, S', h, _⟩ => ⟨r, S', h⟩) fun ⟨r, T', h, _⟩ => ⟨r, T', h⟩)
      obtain ⟨rs, rs', has, hbs, hrs⟩ := ih ht (hf'.imp
        (fun ⟨_, _, h, hs⟩ => (h.eq ha).2 ▸ hs) fun ⟨_, _, h, hs⟩ => (h.eq hb').2 ▸ hs)
      exact ⟨_, _, .cons ha has, .cons hb' hbs, .cons ⟨ht.alike, hr⟩ hrs⟩

theorem Runs.unique {S : Session} {sources : List Text}
    {rs rs' : List (Except RunError Value × Session)} (h : Runs host S sources rs)
    (h' : Runs host S sources rs') : rs = rs' := by
  induction h generalizing rs' with
  | nil =>
      cases h'
      rfl
  | cons h hs ih =>
      cases h' with
      | cons h' hs' =>
          obtain ⟨rfl, rfl⟩ := h.eq h'
          rw [ih hs']

/-- Sources with the same trees, run one after the other in new sessions. If all of one list
end, then so do all of the other, and each one ends as the one beside it: after the same
printed lines and with the same bindings at the top, and with the same result. -/
theorem runs_same_trees (host : Host) (hh : host.Blind) {as bs : List Text}
    (h : List.Forall₂ SameTree as bs) :
    ((∃ rs, Runs host (start host) as rs) ↔ ∃ rs, Runs host (start host) bs rs) ∧
    ∀ rs rs', Runs host (start host) as rs → Runs host (start host) bs rs' →
      List.Forall₂ SameEnd rs rs' := by
  have ht := Twin.refl (start host)
  refine ⟨⟨fun ha => ?_, fun hb => ?_⟩, fun rs rs' ha hb => ?_⟩
  · obtain ⟨_, rs', _, hb, _⟩ := ht.runs hh h (.inl ha)
    exact ⟨rs', hb⟩
  · obtain ⟨rs, _, ha, _⟩ := ht.runs hh h (.inr hb)
    exact ⟨rs, ha⟩
  · obtain ⟨ss, ss', ha', hb', hs⟩ := ht.runs hh h (.inl ⟨rs, ha⟩)
    rw [ha.unique ha', hb.unique hb']
    exact hs

/-- A function that was read from one line or from four fails when a later source calls it:
at the line of its own token, with the same cause. -/
theorem runs_same_trees_broken_lines :
    let host : Host := {}
    let a := Text.utf8 "func f(x) \x7b x.y \x7d"
    let b := Text.utf8 "func f(x)\n\x7b\n  x.y\n\x7d"
    let c := Text.utf8 "f(2)"
    ∃ x y S T e e', Runs host (start host) [a, c] [x, (.error (.runtime e), S)] ∧
      Runs host (start host) [b, c] [y, (.error (.runtime e'), T)] ∧
      Alike x.2 y.2 ∧ e.cause = e'.cause ∧ e.line = 1 ∧ e'.line = 3 := by
  intro host a b c
  have hp : (Program.ofSource a).toOption.isSome = true := by decide +kernel
  have hq : (Program.ofSource b).toOption.isSome = true := by decide +kernel
  have hr : (Program.ofSource c).toOption.isSome = true := by decide +kernel
  obtain ⟨p, hp⟩ := Option.isSome_iff_exists.mp hp
  obtain ⟨q, hq⟩ := Option.isSome_iff_exists.mp hq
  obtain ⟨r, hr⟩ := Option.isSome_iff_exists.mp hr
  have hab : SameTree a b := .of_tokens (Reading.eq_ok_of_toOption hp)
    (Reading.eq_ok_of_toOption hq) (by decide +kernel)
  have hcc : SameTree c c := .of_tokens (Reading.eq_ok_of_toOption hr)
    (Reading.eq_ok_of_toOption hr) rfl
  have ha : (run host 30 a (start host)).1.toOption.isSome = true := by decide +kernel
  have hb : (run host 30 b (start host)).1.toOption.isSome = true := by decide +kernel
  have hac : failureLine (run host 30 c (run host 30 a (start host)).2).1 = some 1 := by
    decide +kernel
  have hbc : failureLine (run host 30 c (run host 30 b (start host)).2).1 = some 3 := by
    decide +kernel
  obtain ⟨v, ha⟩ := finishes_of_toOption ha
  obtain ⟨w, hb⟩ := finishes_of_toOption hb
  obtain ⟨e, he, hac⟩ := finishes_of_failureLine hac
  obtain ⟨e', he', hbc⟩ := finishes_of_failureLine hbc
  have hx : Runs host (start host) [a, c] _ := .cons ha (.cons hac .nil)
  have hy : Runs host (start host) [b, c] _ := .cons hb (.cons hbc .nil)
  have hs := (runs_same_trees host (fun _ _ => nofun) (.cons hab (.cons hcc .nil))).2 _ _ hx hy
  cases hs with
  | cons hab hs =>
      cases hs with
      | cons hcc _ =>
          cases hcc.2 with
          | error hc _ => exact ⟨_, _, _, _, e, e', hx, hy, hab.1, hc, he, he'⟩

end Scripting.Session
