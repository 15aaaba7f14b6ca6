import Mathlib.Data.List.Infix
import Scripting.Repl

/-!
How the interactive loop cuts its input. The lines fall into groups in one way only: each
group is complete and stops being so if its last lines are taken away, and behind the last
group are the lines of one that is not complete yet. What the loop does with the lines is what
it does with these groups, each of them as one entry.
-/

namespace Scripting

/-- Lines as one text. -/
def joined (lines : List Text) : Text := Text.join [Text.lineFeed] lines

theorem joined_append {lines : List Text} (h : lines ≠ []) (line : Text) :
    joined (lines ++ [line]) = joined lines ++ [Text.lineFeed] ++ line := by
  induction lines with
  | nil => exact absurd rfl h
  | cons first more ih =>
      cases more with
      | nil => rfl
      | cons second more =>
          have hs := ih (List.cons_ne_nil _ _)
          simp only [joined, List.cons_append, Text.join] at hs ⊢
          rw [hs]
          simp only [List.append_assoc]

/-- The lines of one entry: together they are complete, and the first of them without the
others are not. -/
structure IsEntry (group : List Text) : Prop where
  ne_nil : group ≠ []
  complete : Program.isIncomplete (joined group) = false
  cutShort : ∀ part, part <+: group → part ≠ [] → part ≠ group →
    Program.isIncomplete (joined part) = true

/-- Lines that form no entry yet. -/
def Unfinished (lines : List Text) : Prop :=
  ∀ part, part <+: lines → part ≠ [] → Program.isIncomplete (joined part) = true

/-- The lines as entries in a row, and the lines that are left. -/
structure Cut (lines : List Text) (groups : List (List Text)) (left : List Text) : Prop where
  covers : groups.flatten ++ left = lines
  entries : ∀ group ∈ groups, IsEntry group
  unfinished : Unfinished left

theorem Unfinished.nil : Unfinished [] := fun _ h hne => absurd (List.prefix_nil.mp h) hne

theorem Unfinished.init {lines : List Text} {line : Text} (h : Unfinished (lines ++ [line])) :
    Unfinished lines :=
  fun part hp => h part (hp.trans (List.prefix_append _ _))

theorem Unfinished.incomplete {lines : List Text} (h : Unfinished lines) (hne : lines ≠ []) :
    Program.isIncomplete (joined lines) = true :=
  h lines (List.prefix_refl _) hne

theorem Unfinished.append {lines : List Text} {line : Text} (h : Unfinished lines)
    (hl : Program.isIncomplete (joined (lines ++ [line])) = true) :
    Unfinished (lines ++ [line]) := by
  intro part hp hne
  rcases List.prefix_concat_iff.mp hp with rfl | hp
  · exact hl
  · exact h part hp hne

theorem Unfinished.isEntry {lines : List Text} {line : Text} (h : Unfinished lines)
    (hl : Program.isIncomplete (joined (lines ++ [line])) = false) :
    IsEntry (lines ++ [line]) := by
  refine ⟨by simp, hl, fun part hp hne hproper => ?_⟩
  rcases List.prefix_concat_iff.mp hp with rfl | hp
  · exact absurd rfl hproper
  · exact h part hp hne

theorem IsEntry.split {group : List Text} (h : IsEntry group) :
    ∃ lines line, group = lines ++ [line] ∧ Unfinished lines := by
  refine ⟨group.dropLast, group.getLast h.ne_nil, (List.dropLast_append_getLast h.ne_nil).symm,
    fun part hp hne => h.cutShort part (hp.trans (List.dropLast_prefix _)) hne ?_⟩
  intro he
  have hlen := hp.length_le
  rw [he, List.length_dropLast] at hlen
  have := List.length_pos_of_ne_nil h.ne_nil
  omega

/-- An entry is no prefix of another one. -/
theorem IsEntry.eq_of_prefix {group other : List Text} (h : IsEntry group) (ho : IsEntry other)
    (hp : group <+: other) : group = other := by
  by_contra hne
  have := ho.cutShort group hp h.ne_nil hne
  rw [h.complete] at this
  cases this

theorem Cut.exists (lines : List Text) : ∃ groups left, Cut lines groups left := by
  -- One more line ends the lines that are left, or leaves one more of them.
  induction lines using List.reverseRecOn with
  | nil => exact ⟨[], [], rfl, by simp, .nil⟩
  | append_singleton lines line ih =>
      obtain ⟨groups, left, hc, hg, hu⟩ := ih
      subst hc
      cases hl : Program.isIncomplete (joined (left ++ [line])) with
      | true => exact ⟨groups, left ++ [line], by simp, hg, hu.append hl⟩
      | false =>
          refine ⟨groups ++ [left ++ [line]], [], by simp, fun group hm => ?_, .nil⟩
          rcases List.mem_append.mp hm with hm | hm
          · exact hg group hm
          · rw [List.mem_singleton.mp hm]
            exact hu.isEntry hl

/-- Lines that form no entry do not begin with one. -/
theorem Cut.nil_of_unfinished {lines : List Text} (h : Unfinished lines)
    {groups : List (List Text)} {left : List Text} (hc : Cut lines groups left) : groups = [] := by
  cases groups with
  | nil => rfl
  | cons group groups =>
      have hg := hc.entries group List.mem_cons_self
      have hp : group <+: lines := by
        rw [← hc.covers, List.flatten_cons, List.append_assoc]
        exact List.prefix_append _ _
      have := h group hp hg.ne_nil
      rw [hg.complete] at this
      cases this

theorem Cut.unique {lines : List Text} {groups groups' : List (List Text)}
    {left left' : List Text} (h : Cut lines groups left) (h' : Cut lines groups' left') :
    groups = groups' ∧ left = left' := by
  induction groups generalizing lines groups' with
  | nil =>
      have hl : left = lines := h.covers
      subst hl
      have hn := Cut.nil_of_unfinished h.unfinished h'
      subst hn
      exact ⟨rfl, h'.covers.symm⟩
  | cons group groups ih =>
      cases groups' with
      | nil =>
          have hl : left' = lines := h'.covers
          subst hl
          have hn := Cut.nil_of_unfinished h'.unfinished h
          cases hn
      | cons group' groups' =>
          have hg := h.entries group List.mem_cons_self
          have hg' := h'.entries group' List.mem_cons_self
          have hs := h.covers.trans h'.covers.symm
          simp only [List.flatten_cons, List.append_assoc] at hs
          -- Both groups stand at the beginning, so that one is a prefix of the other.
          have he : group = group' := by
            rcases List.prefix_or_prefix_of_prefix (List.prefix_append group _)
              (hs ▸ List.prefix_append group' _) with hp | hp
            · exact hg.eq_of_prefix hg' hp
            · exact (hg'.eq_of_prefix hg hp).symm
          subst he
          have hrest := List.append_cancel_left hs
          have hm := ih ⟨rfl, fun g hm => h.entries g (List.mem_cons_of_mem _ hm), h.unfinished⟩
            ⟨hrest.symm, fun g hm => h'.entries g (List.mem_cons_of_mem _ hm), h'.unfinished⟩
          exact ⟨by rw [hm.1], hm.2⟩

namespace Transcript

theorem append_assoc (a b c : Transcript) : a ++ b ++ c = a ++ (b ++ c) := by
  show append (append a b) c = append a (append b c)
  simp only [append, List.append_assoc]

theorem append_empty (a : Transcript) : a ++ ({} : Transcript) = a := by
  show append a {} = a
  simp only [append, List.append_nil]

end Transcript

namespace Repl

def exitWord : Text := Text.utf8 "exit"

/-- The entries that are run: those before the first `exit` that are not blank. -/
def toRun (entries : List Text) : List Text :=
  (entries.takeWhile fun entry => entry.trim ≠ exitWord).filter fun entry => entry.trim ≠ []

/-- The prompts for as many lines of one entry. -/
def prompts (r : Repl) : Nat → Text
  | 0 => []
  | more + 1 => r.prompt ++ (List.replicate more continuationPrompt).flatten

/-- What was written before an exchange, and the exchange. -/
def after (t : Transcript) (x : Transcript × Repl) : Transcript × Repl := (t ++ x.1, x.2)

/-- The loop on entries: it asks for the lines of each one, runs it unless it is blank, and
stops at `exit`. Behind the last entry it asks for the lines that are left and then for one
that does not come. -/
def exchange (left : List Text) : List (List Text) → Repl → Transcript × Repl
  | [], r =>
    ({ output := r.prompts (left.length + 1) ++ Text.utf8 "\n" }, { r with pending := joined left })
  | group :: groups, r =>
    let asked : Transcript := { output := r.prompts group.length }
    let entry := joined group
    if entry.trim = [] then after asked (exchange left groups r)
    else if entry.trim = exitWord then (asked, { r with finished := true })
    else
      let (written, next) := r.enter entry
      after (asked ++ written) (exchange left groups next)

/-- A loop that has begun no entry and can ask for one. -/
structure Idle (r : Repl) : Prop where
  shown : r.prompt.hasControl = false
  pending : r.pending = []
  running : r.finished = false

/-- The loop between the lines of an entry. -/
def reading (r : Repl) (lines : List Text) : Repl := { r with pending := joined lines }

variable {r : Repl}

theorem prompts_succ (r : Repl) (n : Nat) :
    r.prompts (n + 1) = r.prompts n ++ if n = 0 then r.prompt else continuationPrompt := by
  cases n with
  | zero => simp [prompts]
  | succ n => simp [prompts, List.replicate_succ']

theorem Idle.reading_nil (h : r.Idle) : r.reading [] = r := by
  cases r
  cases h.pending
  rfl

theorem enter_next (r : Repl) (entry : Text) :
    (r.enter entry).2 =
      { r with session := (r.session.runLogged r.host r.logger entry).2.2
               history := r.history.add entry, pending := [] } := by
  simp only [enter]
  split <;> rfl

theorem Idle.enter (h : r.Idle) (entry : Text) : (r.enter entry).2.Idle := by
  rw [enter_next]
  exact ⟨h.shown, rfl, h.running⟩

/-- The loop asks for the first line and for a further one in different ways, and tells them
apart by the text that there is: lines that form no entry are not empty together. -/
theorem joined_ne_nil {lines : List Text} (hu : Unfinished lines) (hne : lines ≠ []) :
    joined lines ≠ [] := by
  intro he
  have hi := hu.incomplete hne
  rw [he] at hi
  exact absurd hi (by decide +kernel)

theorem extend_reading {lines : List Text} (hu : Unfinished lines) (line : Text) :
    (r.reading lines).extend line = joined (lines ++ [line]) := by
  by_cases hne : lines = []
  · subst hne
    rfl
  · rw [joined_append hne, extend, if_neg]
    · rfl
    · rw [List.isEmpty_iff]
      exact joined_ne_nil hu hne

theorem Idle.ask_reading (h : r.Idle) {lines : List Text} (hu : Unfinished lines) :
    (r.reading lines).ask? =
      some (if lines.length = 0 then r.prompt else continuationPrompt) := by
  by_cases hne : lines = []
  · subst hne
    simp [ask?, reading, joined, Text.join, h.shown]
  · have hp : (r.reading lines).pending.isEmpty = false := by
      rw [List.isEmpty_eq_false_iff]
      exact joined_ne_nil hu hne
    have hc : continuationPrompt.hasControl = false := by decide +kernel
    simp [ask?, hp, hc, hne]

theorem feed_incomplete {lines : List Text} {line : Text} (hu : Unfinished lines)
    (hl : Program.isIncomplete (joined (lines ++ [line])) = true) :
    (r.reading lines).feed line = ({}, r.reading (lines ++ [line])) := by
  rw [feed, extend_reading hu, if_pos hl]
  rfl

theorem Idle.feed_complete (h : r.Idle) {lines : List Text} {line : Text} (hu : Unfinished lines)
    (hl : Program.isIncomplete (joined (lines ++ [line])) = false) :
    (r.reading lines).feed line =
      let entry := joined (lines ++ [line])
      if entry.trim = [] then ({}, r)
      else if entry.trim = exitWord then ({}, { r with finished := true })
      else r.enter entry := by
  rw [feed, extend_reading hu, hl]
  simp only [Bool.false_eq_true, if_false, List.isEmpty_iff]
  cases r
  cases h.pending
  rfl

/-- One more line, with the prompts for the lines before it. -/
theorem Idle.converse_cons (h : r.Idle) {lines : List Text} (hu : Unfinished lines)
    (line : Text) (more : List Text) :
    after { output := r.prompts lines.length } ((r.reading lines).converse (line :: more)) =
      let asked : Transcript := { output := r.prompts (lines.length + 1) }
      let x := (r.reading lines).feed line
      if x.2.finished then (asked ++ x.1, x.2) else after (asked ++ x.1) (x.2.converse more) := by
  have hp (prompt : Text) : ({ output := r.prompts lines.length ++ prompt } : Transcript) =
      { output := r.prompts lines.length } ++ { output := prompt } := rfl
  rw [converse, h.ask_reading hu, prompts_succ, hp]
  simp only
  split
  · rw [after, Transcript.append_assoc]
  · simp only [after, Transcript.append_assoc]

theorem Idle.converse_unfinished (h : r.Idle) {lines : List Text} (hu : Unfinished lines)
    (more : List Text) :
    r.converse (lines ++ more) =
      after { output := r.prompts lines.length } ((r.reading lines).converse more) := by
  induction lines using List.reverseRecOn generalizing more with
  | nil =>
      rw [h.reading_nil]
      rfl
  | append_singleton lines line ih =>
      have hf := feed_incomplete (r := r) hu.init (hu.incomplete (by simp))
      have hr : (r.reading (lines ++ [line])).finished = false := h.running
      rw [List.append_assoc, List.singleton_append, ih hu.init, h.converse_cons hu.init, hf]
      simp only [hr, Bool.false_eq_true, if_false, Transcript.append_empty,
        List.length_append, List.length_singleton]

/-- What the loop does with an entry in front of further lines. -/
theorem Idle.converse_entry (h : r.Idle) {group : List Text} (hg : IsEntry group)
    (more : List Text) :
    r.converse (group ++ more) =
      let asked : Transcript := { output := r.prompts group.length }
      let entry := joined group
      if entry.trim = [] then after asked (r.converse more)
      else if entry.trim = exitWord then (asked, { r with finished := true })
      else after (asked ++ (r.enter entry).1) ((r.enter entry).2.converse more) := by
  obtain ⟨lines, line, rfl, hu⟩ := hg.split
  have hr := h.running
  have hn := (h.enter (joined (lines ++ [line]))).running
  rw [List.append_assoc, List.singleton_append, h.converse_unfinished hu, h.converse_cons hu,
    h.feed_complete hu hg.complete, List.length_append, List.length_singleton]
  simp only
  split
  · simp only [hr, Bool.false_eq_true, if_false, Transcript.append_empty]
  · split
    · simp only [if_true, Transcript.append_empty]
    · simp only [hn, Bool.false_eq_true, if_false]

theorem Idle.converse_left (h : r.Idle) {left : List Text} (hu : Unfinished left) :
    r.converse left = exchange left [] r := by
  have hc := h.converse_unfinished hu []
  rw [List.append_nil] at hc
  rw [hc, converse, h.ask_reading hu, exchange, prompts_succ, Option.getD_some]
  simp only [after, reading]
  rw [List.append_assoc]
  rfl

theorem Idle.converse_groups (h : r.Idle) {groups : List (List Text)} {left : List Text}
    (hg : ∀ group ∈ groups, IsEntry group) (hu : Unfinished left) :
    r.converse (groups.flatten ++ left) = exchange left groups r := by
  induction groups generalizing r with
  | nil => exact h.converse_left hu
  | cons group groups ih =>
      have hgs : ∀ g ∈ groups, IsEntry g := fun g hm => hg g (List.mem_cons_of_mem _ hm)
      rw [List.flatten_cons, List.append_assoc, h.converse_entry (hg group List.mem_cons_self),
        exchange]
      simp only [ih h hgs, ih (h.enter _) hgs]

/-- The session after some sources, each run and logged. -/
def runAll (r : Repl) (sources : List Text) (session : Session) : Session :=
  sources.foldl (fun S source => (S.runLogged r.host r.logger source).2.2) session

theorem toRun_cons (entry : Text) (entries : List Text) :
    toRun (entry :: entries) =
      if entry.trim = [] then toRun entries
      else if entry.trim = exitWord then [] else entry :: toRun entries := by
  have hx : exitWord ≠ [] := by decide
  by_cases hb : entry.trim = []
  · simp [toRun, hb, hx.symm]
  · by_cases he : entry.trim = exitWord
    · simp [toRun, he, hx]
    · simp [toRun, hb, he]

theorem exchange_session (left : List Text) (groups : List (List Text)) (r : Repl) :
    let run := toRun (groups.map joined)
    let last := (exchange left groups r).2
    last.session = r.runAll run r.session ∧ last.history = run.foldl History.add r.history := by
  induction groups generalizing r with
  | nil => exact ⟨rfl, rfl⟩
  | cons group groups ih =>
      rw [exchange, List.map_cons, toRun_cons]
      simp only
      split
      · exact ih r
      · split
        · exact ⟨rfl, rfl⟩
        · have hn := ih (r.enter (joined group)).2
          rw [enter_next] at hn
          rw [after, enter_next]
          exact hn

theorem exchange_finished (left : List Text) (groups : List (List Text)) (r : Repl)
    (hr : r.finished = false) :
    let last := (exchange left groups r).2
    (last.finished = true ↔ ∃ group ∈ groups, (joined group).trim = exitWord) ∧
      (last.finished = false → last.pending = joined left) := by
  have hx : exitWord ≠ [] := by decide
  induction groups generalizing r with
  | nil => simp [exchange, hr]
  | cons group groups ih =>
      rw [exchange]
      simp only [List.exists_mem_cons_iff]
      split
      · next hb =>
          rw [hb]
          simp only [hx.symm, false_or]
          exact ih r hr
      · split
        · next he => simp [he]
        · next he =>
            simp only [he, false_or]
            refine ih _ ?_
            rw [enter_next]
            exact hr

/-- The lines have one cut into entries. The loop takes each entry whole: it runs those that are
neither blank nor `exit`, in order and on one session, up to the first `exit`, and without one
up to the end of the lines, where only those of an entry that is not complete are not run. -/
theorem converse_entries (r : Repl) (h : r.Idle) (lines : List Text) :
    (∃! cut : List (List Text) × List Text, Cut lines cut.1 cut.2) ∧
    ∀ groups left, Cut lines groups left →
      let run := toRun (groups.map joined)
      let last := (r.converse lines).2
      r.converse lines = exchange left groups r ∧
      last.session = r.runAll run r.session ∧
      last.history = run.foldl History.add r.history ∧
      (last.finished = true ↔ ∃ group ∈ groups, (joined group).trim = exitWord) ∧
      (last.finished = false → last.pending = joined left) := by
  constructor
  · obtain ⟨groups, left, hc⟩ := Cut.exists lines
    refine ⟨(groups, left), hc, fun cut hcut => ?_⟩
    have hu := hcut.unique hc
    exact Prod.ext hu.1 hu.2
  · intro groups left hc
    have he : r.converse lines = exchange left groups r := by
      rw [← hc.covers]
      exact h.converse_groups hc.entries hc.unfinished
    have hs := exchange_session left groups r
    have hf := exchange_finished left groups r h.running
    simp only [he]
    exact ⟨trivial, hs.1, hs.2, hf.1, hf.2⟩

/-- Inside a block `exit` is a line like any other, and an empty line is an entry that is not
run. -/
theorem converse_entries_exit_in_block :
    let r : Repl := ⟨Text.utf8 "> ", {}, ⟨.debug, false, [], []⟩, Session.start {}, {}, [], false⟩
    let block := [Text.utf8 "if (true) \x7b", Text.utf8 "exit", Text.utf8 "\x7d"]
    let groups := [[[]], block, [Text.utf8 " exit"]]
    let left := [Text.utf8 "("]
    let last := (r.converse (groups.flatten ++ left)).2
    r.Idle ∧ Cut (groups.flatten ++ left) groups left ∧
      last.session = (r.session.runLogged r.host r.logger (joined block)).2.2 ∧
      last.finished = true := by
  intro r block groups left last
  have hr : r.Idle := ⟨by decide +kernel, rfl, rfl⟩
  have hb : IsEntry block := by
    have h1 : Unfinished [Text.utf8 "if (true) \x7b"] := Unfinished.nil.append (by decide +kernel)
    have h2 : Unfinished [Text.utf8 "if (true) \x7b", Text.utf8 "exit"] :=
      h1.append (by decide +kernel)
    exact h2.isEntry (by decide +kernel)
  have hc : Cut (groups.flatten ++ left) groups left := by
    refine ⟨rfl, ?_, Unfinished.nil.append (by decide +kernel)⟩
    simp only [groups, List.forall_mem_cons]
    exact ⟨Unfinished.nil.isEntry (by decide +kernel), hb,
      Unfinished.nil.isEntry (by decide +kernel), by simp⟩
  have h := (converse_entries r hr _).2 groups left hc
  have hrun : toRun (groups.map joined) = [joined block] := by decide +kernel
  have hexit : ∃ group ∈ groups, (joined group).trim = exitWord := by decide +kernel
  rw [hrun] at h
  exact ⟨hr, hc, h.2.1, h.2.2.2.1.mpr hexit⟩

end Repl

end Scripting
