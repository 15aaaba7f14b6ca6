import Scripting.Proofs.Eval.Discipline
import Scripting.Proofs.Session.Splitting

/-!
The moments of a session: the store before its first source, the stores that each run passes
through, and the store after it. If evaluations keep to a discipline, then so does the
session, at all of its moments.
-/

namespace Scripting.Session

open Evaluator (blockCourse)

/-- The stores that the run of a source passes through. -/
def passed (host : Host) (fuel : Nat) (source : Text) (S : Session) : List Store :=
  match Program.ofSource source with
  | .error _ => []
  | .ok p =>
    let parsed := Event.parsed (Scan.ofSource source).withEnd.length p.length p.outline
    (blockCourse host fuel root .null p).stores (S.state.trace host parsed)

/-- The stores at all moments of a session that runs sources one after the other. -/
def moments (host : Host) (fuel : Nat) : List Text → Session → List Store
  | [], S => [S.state.store]
  | source :: rest, S =>
    S.state.store :: (passed host fuel source S ++
      moments host fuel rest (run host fuel source S).2)

variable {D : Discipline} {host : Host} {fuel : Nat} {S : Session}

theorem store_trace (event : Event) (s : State) : (s.trace host event).store = s.store := by
  rw [trace_eq]

/-- The run of a source that can be read keeps to a discipline, and so do its value and its
error. -/
theorem run_leads (L : D.Lawful host) (hw : D.fit S.state.store) (ho : D.own S.state.store root)
    {source : Text} {p : Program} (hp : Program.ofSource source = .ok p)
    (hl : ∀ line ∈ p.lines, D.line line) :
    Store.Leads D.next S.state.store (passed host fuel source S)
        (run host fuel source S).2.state.store ∧
      match (run host fuel source S).1 with
      | .ok v => D.value (run host fuel source S).2.state.store v
      | .error (.runtime e) => D.error e
      | .error (.parse _) => False
      | .error .exhausted => True := by
  obtain ⟨hb, hm⟩ := (L.holdsAt fuel).block ho L.value_null hl hw _
    (store_trace (.parsed (Scan.ofSource source).withEnd.length p.length p.outline) S.state)
  simp only [passed, hp, run_ok hp, evaluate_eq, finish_store]
  refine ⟨hb, ?_⟩
  revert hm
  match Evaluator.execBlock host fuel root .null p _ with
  | (.ok v, s) => exact id
  | (.error e, s) => exact id
  | (.exhausted, s) => exact id

section
variable (L : D.Lawful host) (hw : D.fit S.state.store) (ho : D.own S.state.store root)
  {sources : List Text}
  (hl : ∀ source ∈ sources, ∀ p, Program.ofSource source = .ok p → ∀ line ∈ p.lines, D.line line)
include L hw ho hl

theorem moments_pairwise : (moments host fuel sources S).Pairwise D.next := by
  induction sources generalizing S with
  | nil => exact List.pairwise_singleton ..
  | cons source rest ih =>
      rw [List.forall_mem_cons] at hl
      have hr : Store.Leads D.next S.state.store (passed host fuel source S)
          (run host fuel source S).2.state.store := by
        cases hp : Program.ofSource source with
        | error e =>
            rw [run_error hp]
            simp only [passed, hp, store_trace]
            exact .stay (L.next_refl hw)
        | ok p => exact (run_leads L hw ho hp (hl.1 p hp)).1
      have hn := hr.le L.next_trans
      have hm := ih hn.2 (L.own_later hn.1 ho) hl.2
      cases rest <;> exact hr.pairwise L.next_trans hm

/-- Every moment is reached from the first one. -/
theorem next_of_mem_moments {s : Store} (hs : s ∈ moments host fuel sources S) :
    D.next S.state.store s := by
  have hp : (moments host fuel sources S).Pairwise D.next := moments_pairwise L hw ho hl
  obtain ⟨later, hm⟩ : ∃ later, moments host fuel sources S = S.state.store :: later := by
    cases sources <;> exact ⟨_, rfl⟩
  rw [hm] at hs hp
  obtain rfl | hs := List.mem_cons.mp hs
  · exact L.next_refl hw
  · exact (List.pairwise_cons.mp hp).1 s hs

end

end Scripting.Session
