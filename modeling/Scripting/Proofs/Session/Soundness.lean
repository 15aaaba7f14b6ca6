import Scripting.Proofs.Session.Tidiness

/-!
Sessions without functions of the host never reach what they cannot handle. Every value that
is stored or returned exists in the store, every error is one that a program can make, and it
is told at the line of a token that has been run.
-/

namespace Scripting

/-- A value that exists in a store: its object or its scope has been made. The lines of
functions have a property, and no function of the host is among the values. -/
def Store.Has (line : Nat → Prop) (s : Store) : Value → Prop
  | .object id => id < s.objects.size
  | .func function scope => scope < s.scopes.size ∧ ∀ l ∈ function.lines, line l
  | .native function => ∀ name, function ≠ .host name
  | _ => True

namespace Store.Has

variable {line line' : Nat → Prop} {s t : Store} {v : Value}

theorem later (h : s.Grows t) (hv : s.Has line v) : t.Has line v := by
  cases v with
  | object id => exact Nat.lt_of_lt_of_le hv h.objects
  | func function scope => exact ⟨Nat.lt_of_lt_of_le hv.1 h.scopes, hv.2⟩
  | _ => exact hv

theorem imp (h : ∀ l, line l → line' l) (hv : s.Has line v) : s.Has line' v := by
  cases v with
  | func function scope => exact ⟨hv.1, fun l hl => h l (hv.2 l hl)⟩
  | _ => exact hv

theorem of_isPlain (line : Nat → Prop) (s : Store) (v : Value) (h : v.isPlain = true) :
    s.Has line v := by
  cases v with
  | object _ | native _ | func _ _ => cases h
  | _ => trivial

theorem lasting (line : Nat → Prop) : Value.Lasting (Store.Has line) line where
  later _ _ _ := later
  plain := of_isPlain line
  object h := h
  func := Iff.rfl

end Store.Has

theorem Store.Sound.imp_line {line line' : Nat → Prop} {s : Store} (h : ∀ l, line l → line' l)
    (hs : s.Sound (Has line)) : s.Sound (Has line') :=
  ⟨hs.parents, hs.tidy.imp fun _ => Has.imp h⟩

/-- All that comes up exists, and errors are such as programs can make, at lines with a
property. -/
def Discipline.soundness (line : Nat → Prop) : Discipline :=
  .sound (Store.Has line) line fun e => e.cause ≠ .unhandledNode ∧ e.cause ≠ .undefinedOperator ∧
    ∃ l : Nat, e.line = l ∧ line l

theorem Discipline.soundness_lawful (line : Nat → Prop) {host : Host}
    (hf : host.functions = .empty) : (soundness line).Lawful host := by
  refine sound_lawful (Store.Has.lasting line) (fun hl hc => ⟨?_, ?_, _, rfl, hl⟩) fun h => ?_
  · rintro rfl
    cases hc
  · rintro rfl
    cases hc
  · rw [hf] at h
    cases h

namespace Session

/-- The line of a token of one of the sources. -/
def TokenLine (sources : List Text) (line : Nat) : Prop :=
  ∃ source ∈ sources, ∃ t ∈ (Scan.ofSource source).tokens, t.line = line

theorem TokenLine.mono {earlier sources : List Text} (h : earlier ⊆ sources) {line : Nat}
    (hl : TokenLine earlier line) : TokenLine sources line := by
  obtain ⟨source, hs, ht⟩ := hl
  exact ⟨source, h hs, ht⟩

theorem TokenLine.one_le {sources : List Text} {line : Nat} (h : TokenLine sources line) :
    1 ≤ line := by
  obtain ⟨source, -, t, ht, rfl⟩ := h
  exact Scan.one_le_line ht

theorem tokenLine_of_ofSource {sources : List Text} {source : Text} (hs : source ∈ sources)
    {p : Program} (hp : Program.ofSource source = .ok p) :
    ∀ line ∈ p.lines, TokenLine sources line :=
  fun line hl => ⟨source, hs, Program.lines_ofSource hp line hl⟩

/-- An error that a program can make, at the line of a token. -/
def Proper (sources : List Text) (e : RuntimeError) : Prop :=
  e.cause ≠ .unhandledNode ∧ e.cause ≠ .undefinedOperator ∧
    ∃ line : Nat, e.line = line ∧ TokenLine sources line ∧ 1 ≤ line

/-- How a source ends that can be read. -/
def EndsWell (sources : List Text) (s : Store) (r : Except RunError Value) : Prop :=
  (∃ v, r = .ok v ∧ s.Has (TokenLine sources) v) ∨
    ∃ e, r = .error (.runtime e) ∧ Proper sources e

section
variable {host : Host} (hf : host.functions = .empty)
include hf

theorem start_has (line : Nat → Prop) : (start host).state.store.Sound (Store.Has line) ∧
    root < (start host).state.store.scopes.size := by
  refine start_sound (fun _ _ _ => Store.Has.later) (Store.Has.of_isPlain line) ?_
  intro s function hn name he
  have hm := hn name he
  rw [hf] at hm
  cases hm

/-- One source more, after others. -/
theorem finishes_sound {earlier : List Text} {source : Text} {S T : Session}
    {r : Except RunError Value} (hs : S.state.store.Sound (Store.Has (TokenLine earlier)))
    (hr : root < S.state.store.scopes.size) (h : Finishes host source S r T) :
    T.state.store.Sound (Store.Has (TokenLine (earlier ++ [source]))) ∧
      root < T.state.store.scopes.size ∧
      ∀ p, Program.ofSource source = .ok p →
        EndsWell (earlier ++ [source]) T.state.store r := by
  have hs := hs.imp_line fun l => TokenLine.mono (List.subset_append_left earlier [source])
  obtain ⟨fuel, h, hn⟩ := h
  cases hp : Program.ofSource source with
  | error e =>
      rw [run_error hp] at h
      cases h
      simp only [store_trace]
      exact ⟨hs, hr, nofun⟩
  | ok p =>
      have hl := tokenLine_of_ofSource
        (List.mem_append_right earlier (List.mem_singleton_self source)) hp
      have L := Discipline.soundness_lawful (TokenLine (earlier ++ [source])) hf
      obtain ⟨hl, he⟩ := @run_leads _ host fuel S L hs hr source p hp hl
      rw [h] at hl he
      have ht := hl.le L.next_trans
      refine ⟨ht.2, Nat.lt_of_lt_of_le hr ht.1.scopes, fun p' _ => ?_⟩
      match r with
      | .ok v => exact .inl ⟨v, rfl, he⟩
      | .error (.runtime e) =>
          obtain ⟨hu, ho, line, hl, ht⟩ := he
          exact .inr ⟨e, rfl, hu, ho, line, hl, ht, ht.one_le⟩
      | .error (.parse e) => exact he.elim
      | .error .exhausted => exact absurd rfl hn

theorem results_sound {earlier sources : List Text} {S : Session}
    {results : List (Except RunError Value × Session)} (h : Runs host S sources results)
    (hs : S.state.store.Sound (Store.Has (TokenLine earlier)))
    (hr : root < S.state.store.scopes.size) :
    ∀ (i : Nat) (source : Text) (r : Except RunError Value) (T : Session),
      sources[i]? = some source → results[i]? = some (r, T) →
        T.state.store.Sound (Store.Has (TokenLine (earlier ++ sources.take (i + 1)))) ∧
          ∀ p, Program.ofSource source = .ok p →
            EndsWell (earlier ++ sources.take (i + 1)) T.state.store r := by
  induction h generalizing earlier with
  | nil =>
      intro i source r T hi
      cases hi
  | @cons S T source sources r results h hrest ih =>
      obtain ⟨ht, hr, he⟩ := finishes_sound hf hs hr h
      intro i source' r' T' hi hi'
      cases i with
      | zero =>
          cases hi
          cases hi'
          exact ⟨ht, he⟩
      | succ i =>
          -- the source just run is one of the earlier ones for the rest
          have hw := ih ht hr i source' r' T' hi hi'
          rw [List.append_assoc] at hw
          exact hw

/-- At every moment all that the store of a session holds exists. -/
theorem moments_sound (fuel : Nat) (sources : List Text) {s : Store}
    (h : s ∈ moments host fuel sources (start host)) :
    s.Sound (Store.Has (TokenLine sources)) := by
  obtain ⟨hs, hr⟩ := start_has hf (TokenLine sources)
  exact (next_of_mem_moments (Discipline.soundness_lawful _ hf) hs hr
    (fun source hm p hp => tokenLine_of_ofSource hm hp) h).2

end

end Session

end Scripting
