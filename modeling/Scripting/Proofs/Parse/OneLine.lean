import Mathlib.Data.List.TakeWhile
import Scripting.Text.Line
import Scripting.Proofs.Parse.Joining
import Scripting.Proofs.Parse.Lines

/-!
A source with spaces for its line feeds. Nothing but the lines of what is read changes if no
piece of the source but the last is a comment. An earlier comment then goes on to the end, so
that what came after it is not read.
-/

namespace Scripting

/-- The text with spaces for its line feeds. -/
def Text.oneLine (t : Text) : Text := t.map fun c => if c = Text.lineFeed then 0x20 else c

namespace Piece

theorem oneLine_newline (s : Text) : Text.oneLine (newline :: s) = 0x20 :: s.oneLine := rfl

theorem oneLine_cons {c : UInt8} (hc : c ≠ newline) (s : Text) :
    Text.oneLine (c :: s) = c :: s.oneLine := by
  rw [Text.oneLine, List.map_cons]
  exact congrArg (· :: s.oneLine) (if_neg hc)

theorem newline_notMem_oneLine (s : Text) : newline ∉ s.oneLine := by
  intro h
  obtain ⟨c, _, hc⟩ := List.mem_map.mp h
  split at hc
  · cases hc
  · next hn => exact hn hc

theorem oneLine_eq_self {s : Text} (h : newline ∉ s) : s.oneLine = s := by
  induction s with
  | nil => rfl
  | cons c s ih =>
      rw [List.mem_cons, not_or] at h
      rw [oneLine_cons (Ne.symm h.1), ih h.2]

theorem takeWhile_oneLine (test : UInt8 → Bool) (hn : test newline = false)
    (hs : test 0x20 = false) (s : Text) : s.oneLine.takeWhile test = s.takeWhile test := by
  induction s with
  | nil => rfl
  | cons c s ih =>
      by_cases hc : c = newline
      · rw [hc, oneLine_newline, List.takeWhile_cons_of_neg (by simp [hs]),
          List.takeWhile_cons_of_neg (by simp [hn])]
      · rw [oneLine_cons hc, List.takeWhile_cons, List.takeWhile_cons, ih]

theorem run_oneLine (test : UInt8 → Bool) (hn : test newline = false) (hs : test 0x20 = false)
    (s : Text) : run test s.oneLine = run test s := by
  rw [run, run, takeWhile_oneLine test hn hs]

theorem drop_oneLine (n : Nat) (s : Text) : s.oneLine.drop n = Text.oneLine (s.drop n) :=
  List.map_drop.symm

theorem numberRun_oneLine (s : Text) : numberRun s.oneLine = numberRun s := by
  have hw := run_oneLine Number.isDigit rfl rfl
  simp only [numberRun, hw, drop_oneLine]
  generalize s.drop (run Number.isDigit s) = rest
  cases rest with
  | nil => rfl
  | cons c rest =>
      cases rest with
      | nil => rfl
      | cons d more =>
          by_cases hc : c = newline
          · subst hc
            rfl
          · by_cases hd : d = newline
            · subst hd
              rw [oneLine_cons hc, oneLine_newline]
              simp [newline, Number.isDigit]
            · rw [oneLine_cons hc, oneLine_cons hd]
              simp only [hw]

theorem of_first_comment {quoted : Bool} {c : UInt8} {s : Text}
    (h : (first quoted c s).1 = .comment) : quoted = false ∧ c = hash := by
  rw [first] at h
  split at h
  · cases h
  split at h
  · cases h
  split at h
  · cases h
  split at h
  · cases h
  split at h
  · next hq _ _ hc => exact ⟨Bool.eq_false_iff.mpr hq, hc⟩
  split at h
  · cases h
  split at h <;> cases h

/-- Outside comments, a piece ends at a space where it ended at a line feed. -/
theorem first_oneLine {quoted : Bool} {c : UInt8} {s : Text}
    (h : (first quoted c s).1 ≠ .comment) : first quoted c s.oneLine = first quoted c s := by
  have hh : c ≠ hash ∨ quoted = true := by
    by_contra hn
    rw [not_or, not_not, Bool.not_eq_true] at hn
    rw [hn.1, hn.2] at h
    exact h rfl
  rw [first, first, run_oneLine isWordByte rfl rfl, numberRun_oneLine,
    run_oneLine isNameByte rfl rfl, takeWhile_oneLine isNameByte rfl rfl]
  obtain hh | hh := hh
  · rw [if_neg hh, if_neg hh]
  · rw [if_pos hh, if_pos hh]

/-- Without line feeds a comment goes on to the end. -/
theorem first_comment {t : Text} (ht : newline ∉ t) :
    first false hash t = (.comment, t.length) := by
  have hr : t.takeWhile (· != newline) = t := by
    rw [List.takeWhile_eq_self_iff]
    intro b hb
    exact bne_iff_ne.mpr fun he => ht (he ▸ hb)
  have hf : first false hash t = (.comment, run (· != newline) t) := rfl
  rw [hf, run, hr]

/-- The pieces before the first comment. -/
def uncommented (ps : List Piece) : List Piece := ps.takeWhile fun p => p.role ≠ .comment

theorem uncommented_cons {p : Piece} (h : p.role ≠ .comment) (ps : List Piece) :
    uncommented (p :: ps) = p :: uncommented ps :=
  List.takeWhile_cons_of_pos (decide_eq_true h)

theorem uncommented_comment {p : Piece} (h : p.role = .comment) (ps : List Piece) :
    uncommented (p :: ps) = [] :=
  List.takeWhile_cons_of_neg (by simp [h])

/-- What is read off the pieces before the first comment, but on one line, is what is read off
the pieces of the one line. -/
theorem filterMap_oneLine {β : Type} {g : Piece → Option β} {change : β → β} {line' : Nat}
    (hb : ∀ p : Piece, p.role = .blank → g p = none)
    (hc : ∀ p : Piece, p.role = .comment → g p = none)
    (hl : ∀ p : Piece, g { p with line := line' } = (g p).map change)
    (quoted : Bool) (line : Nat) (s : Text) :
    (pieces quoted line' s.oneLine).filterMap g =
      ((uncommented (pieces quoted line s)).filterMap g).map change := by
  fun_induction pieces quoted line s with
  | case1 quoted line =>
      rw [Text.oneLine, List.map_nil, pieces]
      rfl
  | case2 quoted line c rest role length hf ih =>
      simp only [dite_eq_ite] at ih
      by_cases hn : c = newline
      · -- a line feed is a blank of its own, as the space is
        subst hn
        have hn : first quoted newline rest = (.blank, 0) := by cases quoted <;> rfl
        have hs : first quoted 0x20 (Text.oneLine rest) = (.blank, 0) := by cases quoted <;> rfl
        rw [hn] at hf
        cases hf
        rw [oneLine_newline, pieces, hs, uncommented_cons (p := ⟨.blank, _, _⟩) (by simp)]
        dsimp only
        rw [List.filterMap_cons_none (hb _ rfl), List.filterMap_cons_none (hb _ rfl), ← ih]
        rfl
      · rw [if_neg hn] at ih ⊢
        by_cases hr : role = .comment
        · subst hr
          obtain ⟨rfl, rfl⟩ := of_first_comment (congrArg Prod.fst hf)
          rw [oneLine_cons hn, pieces, first_comment (newline_notMem_oneLine rest),
            uncommented_comment rfl]
          dsimp only
          rw [List.filterMap_cons_none (hc _ rfl), List.drop_length, pieces]
          rfl
        · have hf' : first quoted c (Text.oneLine rest) = (role, length) := by
            rw [first_oneLine, hf]
            rwa [hf]
          have ht : (Text.oneLine rest).take length = rest.take length := by
            rw [Text.oneLine, ← List.map_take]
            refine oneLine_eq_self ?_
            have hm := newline_notMem_first quoted c rest
            rwa [hf] at hm
          rw [oneLine_cons hn, pieces, hf', uncommented_cons hr]
          dsimp only
          rw [ht, drop_oneLine, if_neg hn, List.filterMap_cons, List.filterMap_cons, ih]
          have hp := hl ⟨role, c :: rest.take length, line⟩
          dsimp only at hp
          rw [hp]
          cases g ⟨role, c :: rest.take length, line⟩ <;> rfl

/-- No piece but the last is a comment. -/
def CommentLast (ps : List Piece) : Prop := ∀ p ∈ ps.dropLast, p.role ≠ .comment

instance (ps : List Piece) : Decidable (CommentLast ps) :=
  inferInstanceAs (Decidable (∀ p ∈ ps.dropLast, p.role ≠ .comment))

theorem CommentLast.tail {p q : Piece} {ps : List Piece} (h : CommentLast (p :: q :: ps)) :
    p.role ≠ .comment ∧ CommentLast (q :: ps) := by
  rw [CommentLast, List.dropLast_cons_of_ne_nil (List.cons_ne_nil q ps),
    List.forall_mem_cons] at h
  exact h

theorem CommentLast.cons {p : Piece} {ps : List Piece} (hp : p.role ≠ .comment)
    (h : CommentLast ps) : CommentLast (p :: ps) := by
  cases ps with
  | nil => exact fun _ hm => absurd hm List.not_mem_nil
  | cons q ps =>
      rw [CommentLast, List.dropLast_cons_of_ne_nil (List.cons_ne_nil q ps),
        List.forall_mem_cons]
      exact ⟨hp, h⟩

theorem CommentLast.append {ps qs : List Piece} (hp : ∀ p ∈ ps, p.role ≠ .comment)
    (h : CommentLast qs) : CommentLast (ps ++ qs) := by
  induction ps with
  | nil => exact h
  | cons p ps ih =>
      rw [List.forall_mem_cons] at hp
      exact .cons hp.1 (ih hp.2)

theorem uncommented_append {p : Piece} {ps : List Piece} (hp : p ∈ ps) (hc : p.role = .comment)
    (qs : List Piece) : uncommented (ps ++ qs) = uncommented ps := by
  induction ps with
  | nil => cases hp
  | cons q ps ih =>
      rw [List.cons_append]
      by_cases hq : q.role = .comment
      · rw [uncommented_comment hq, uncommented_comment hq]
      · obtain rfl | hp := List.mem_cons.mp hp
        · exact absurd hc hq
        · rw [uncommented_cons hq, uncommented_cons hq, ih hp]

theorem filterMap_uncommented {β : Type} {g : Piece → Option β}
    (hc : ∀ p : Piece, p.role = .comment → g p = none) {ps : List Piece} (h : CommentLast ps) :
    (uncommented ps).filterMap g = ps.filterMap g := by
  induction ps with
  | nil => rfl
  | cons p ps ih =>
      cases ps with
      | nil =>
          by_cases hp : p.role = .comment
          · rw [uncommented_comment hp, List.filterMap_cons_none (hc p hp)]
          · rw [uncommented_cons hp]
            rfl
      | cons q ps =>
          rw [uncommented_cons h.tail.1, List.filterMap_cons, List.filterMap_cons, ih h.tail.2]

/-- On one line a comment has nothing after it. -/
theorem commentLast_pieces {t : Text} (ht : newline ∉ t) (quoted : Bool) (line : Nat) :
    CommentLast (pieces quoted line t) := by
  fun_induction pieces quoted line t with
  | case1 => exact fun _ hm => absurd hm List.not_mem_nil
  | case2 quoted line c rest role length hf ih =>
      rw [List.mem_cons, not_or] at ht
      by_cases hr : role = .comment
      · subst hr
        obtain ⟨rfl, rfl⟩ := of_first_comment (congrArg Prod.fst hf)
        rw [first_comment ht.2] at hf
        cases hf
        rw [List.drop_length, pieces]
        exact fun _ hm => absurd hm List.not_mem_nil
      · exact .cons hr (ih fun hm => ht.2 (List.mem_of_mem_drop hm))

end Piece

namespace Scan

open Piece (uncommented CommentLast)

/-- The scan of a source on one line, by the pieces before its first comment. -/
theorem ofSource_oneLine_eq (s : Text) :
    ofSource s.oneLine =
      let ps := uncommented (Piece.pieces false 1 s)
      let tokens := ps.filterMap Piece.token?
      { tokens := tokens.map (Token.mapLine fun _ => 1)
        endLine := 1
        errors := (ps.filterMap Piece.error?).map (ParseError.mapLine fun _ => 1) ++
          if leavesOpen tokens then [⟨1, .unclosedQuote, .nothing⟩] else [] } := by
  have ht : (Piece.pieces false 1 s.oneLine).filterMap Piece.token? =
      ((uncommented (Piece.pieces false 1 s)).filterMap Piece.token?).map
        (Token.mapLine fun _ => 1) := by
    refine Piece.filterMap_oneLine ?_ ?_ ?_ false 1 s
    · intro p hp
      rw [Piece.token?, hp]
    · intro p hp
      rw [Piece.token?, hp]
    · intro p
      obtain ⟨role, text, line⟩ := p
      cases role <;> rfl
  have he : (Piece.pieces false 1 s.oneLine).filterMap Piece.error? =
      ((uncommented (Piece.pieces false 1 s)).filterMap Piece.error?).map
        (ParseError.mapLine fun _ => 1) := by
    refine Piece.filterMap_oneLine ?_ ?_ ?_ false 1 s
    · intro p hp
      rw [Piece.error?, hp]
    · intro p hp
      rw [Piece.error?, hp]
    · intro p
      obtain ⟨role, text, line⟩ := p
      cases role with
      | token kind =>
          cases kind with
          | number =>
              by_cases hf : (Number.ofLiteral text).isFinite = true
              · simp [Piece.error?, hf]
              · simp [Piece.error?, hf, ParseError.mapLine, ParseError.Near.mapLine]
          | _ => rfl
      | _ => rfl
  have hn : s.oneLine.count Piece.newline = 0 :=
    List.count_eq_zero.mpr (Piece.newline_notMem_oneLine s)
  rw [ofSource, ht, he, hn, leavesOpen_mapLine]

/-- On one line a scan is the same but for its lines, if nothing comes after a comment. -/
theorem ofSource_oneLine {s : Text} (h : CommentLast (Piece.pieces false 1 s)) :
    ofSource s.oneLine = (ofSource s).mapLines fun _ => 1 := by
  have ht := Piece.filterMap_uncommented (g := Piece.token?)
    (fun p hp => by rw [Piece.token?, hp]) h
  have he := Piece.filterMap_uncommented (g := Piece.error?)
    (fun p hp => by rw [Piece.error?, hp]) h
  rw [ofSource_oneLine_eq]
  simp only [ht, he, mapLines, ofSource, List.map_append]
  split <;> rfl

end Scan

namespace Program

open Piece (uncommented CommentLast)

variable {s : Text}

theorem ofSource_oneLine (h : CommentLast (Piece.pieces false 1 s)) :
    ofSource s.oneLine = moved (fun _ => 1) (ofSource s) := by
  rw [ofSource, Scan.ofSource_oneLine h, ofScan_mapLines]
  rfl

theorem isIncomplete_oneLine (h : CommentLast (Piece.pieces false 1 s)) :
    isIncomplete s.oneLine = isIncomplete s := by
  rw [isIncomplete, isIncomplete, ofSource_oneLine h]
  cases ofSource s with
  | ok p => rfl
  | error e => exact e.isIncomplete_mapLine _

/-- On one line two sources are the same to the reader if they are the same before their first
comments. -/
theorem isIncomplete_oneLine_congr {t : Text}
    (h : uncommented (Piece.pieces false 1 s) = uncommented (Piece.pieces false 1 t)) :
    isIncomplete s.oneLine = isIncomplete t.oneLine := by
  simp only [isIncomplete, ofSource, Scan.ofSource_oneLine_eq, h]

end Program

end Scripting
