import Scripting.Proofs.Outline.Lines
import Scripting.Proofs.Parse.OneLine
import Scripting.Proofs.Repl.Entries

/-!
Entries that are recalled. The history keeps an entry on one line. If nothing in the entry comes
after a comment, that line is read as the same program; if something does, the line stops short,
so that the loop asks for more.
-/

namespace Scripting

open Piece (newline uncommented CommentLast)

theorem History.getLast?_push (h : History) (line : Text) :
    (h.push line).entries.getLast? = some line := by
  rw [push, List.getLast?_drop, List.getLast?_concat, if_neg]
  simp only [List.length_append, List.length_singleton, limit]
  omega

/-- The newest line of a history to which an entry was added is that entry on one line. -/
theorem History.getLast?_add (h : History) (entry : Text) :
    (h.add entry).entries.getLast? = some entry.oneLine := by
  rw [add]
  split
  · next he => exact he
  · exact h.getLast?_push _

/-- If something comes after a comment, then some of the lines end with that comment and are on
one line what all of the lines are. -/
theorem exists_commented {lines : List Text} (hn : ∀ line ∈ lines, newline ∉ line)
    (hc : ¬ CommentLast (Piece.pieces false 1 (joined lines))) :
    ∃ part, part <+: lines ∧ part ≠ [] ∧ part ≠ lines ∧
      CommentLast (Piece.pieces false 1 (joined part)) ∧
      uncommented (Piece.pieces false 1 (joined lines)) =
        uncommented (Piece.pieces false 1 (joined part)) := by
  induction lines using List.reverseRecOn with
  | nil => exact absurd (Piece.commentLast_pieces List.not_mem_nil false 1) hc
  | append_singleton lines line ih =>
      have hl : newline ∉ line := hn line (by simp)
      by_cases he : lines = []
      · subst he
        exact absurd (Piece.commentLast_pieces hl false 1) hc
      · have hj : joined (lines ++ [line]) = joined lines ++ newline :: line := by
          rw [joined_append he, List.append_assoc]
          rfl
        rw [hj, Piece.pieces_newline] at hc ⊢
        by_cases hp : ∃ p ∈ Piece.pieces false 1 (joined lines), p.role = .comment
        · obtain ⟨p, hp, hr⟩ := hp
          rw [Piece.uncommented_append hp hr]
          by_cases hs : CommentLast (Piece.pieces false 1 (joined lines))
          · exact ⟨lines, List.prefix_append _ _, he, by simp, hs, rfl⟩
          · obtain ⟨part, hpart, hne, _, hlast, hu⟩ :=
              ih (fun l hm => hn l (List.mem_append_left _ hm)) hs
            refine ⟨part, hpart.trans (List.prefix_append _ _), hne, ?_, hlast, hu⟩
            intro heq
            have hlen := hpart.length_le
            rw [heq, List.length_append, List.length_singleton] at hlen
            omega
        · refine absurd (CommentLast.append (fun p hm hr => hp ⟨p, hm, hr⟩) ?_) hc
          exact .cons (by simp) (Piece.commentLast_pieces hl _ _)

/-- An entry that was run and is recalled. What the history keeps of it is read as the same
program, with the same outline, if nothing in the entry comes after a comment. Otherwise that
comment takes in all of the line behind it, and the line is incomplete. -/
theorem recalled_entry (h : History) {group : List Text} (hn : ∀ line ∈ group, newline ∉ line)
    (hg : IsEntry group) {p : Program} (hp : Program.ofSource (joined group) = .ok p) :
    let line := (joined group).oneLine
    (h.add (joined group)).entries.getLast? = some line ∧
      (CommentLast (Piece.pieces false 1 (joined group)) →
        ∃ q, Program.ofSource line = .ok q ∧ p.SameUpToLines q ∧ p.outline = q.outline) ∧
      (¬ CommentLast (Piece.pieces false 1 (joined group)) →
        Program.isIncomplete line = true) := by
  refine ⟨h.getLast?_add _, ?_, ?_⟩
  · intro hc
    have hs : p.SameUpToLines (p.mapLines fun _ => 1) :=
      (Stmt.mapLinesEach_mapLinesEach (fun _ => 1) (fun _ => 0) p).symm
    refine ⟨p.mapLines fun _ => 1, ?_, hs, hs.outline_eq⟩
    rw [Program.ofSource_oneLine hc, hp]
    rfl
  · intro hc
    obtain ⟨part, hpart, hne, hproper, hlast, hu⟩ := exists_commented hn hc
    rw [Program.isIncomplete_oneLine_congr hu, Program.isIncomplete_oneLine hlast]
    exact hg.cutShort part hpart hne hproper

/-- A comment at the end of an entry does no harm, and one at the end of an earlier line does. -/
theorem recalled_entry_comments :
    let late := [Text.utf8 "f(", Text.utf8 "1) # call"]
    let early := [Text.utf8 "f( # call", Text.utf8 "1)"]
    (∃ p q, Program.ofSource (joined late) = .ok p ∧
      ((History.mk []).add (joined late)).entries.getLast? = some (Text.utf8 "f( 1) # call") ∧
      Program.ofSource (Text.utf8 "f( 1) # call") = .ok q ∧ p.outline = q.outline) ∧
    ∃ p, Program.ofSource (joined early) = .ok p ∧
      ((History.mk []).add (joined early)).entries.getLast? = some (Text.utf8 "f( # call 1)") ∧
      Program.isIncomplete (Text.utf8 "f( # call 1)") = true := by
  intro late early
  have hp : (Program.ofSource (joined late)).toOption.isSome = true := by decide +kernel
  have hq : (Program.ofSource (joined early)).toOption.isSome = true := by decide +kernel
  obtain ⟨p, hp⟩ := Option.isSome_iff_exists.mp hp
  obtain ⟨q, hq⟩ := Option.isSome_iff_exists.mp hq
  replace hp := Reading.eq_ok_of_toOption hp
  replace hq := Reading.eq_ok_of_toOption hq
  have hl : IsEntry late := (Unfinished.nil.append (by decide +kernel)).isEntry (by decide +kernel)
  have he : IsEntry early := (Unfinished.nil.append (by decide +kernel)).isEntry (by decide +kernel)
  obtain ⟨hline, hsame, _⟩ := recalled_entry ⟨[]⟩ (by decide +kernel) hl hp
  obtain ⟨hline', _, hmore⟩ := recalled_entry ⟨[]⟩ (by decide +kernel) he hq
  obtain ⟨r, hr, _, ho⟩ := hsame (by decide +kernel)
  exact ⟨⟨p, r, hp, hline, hr, ho⟩, q, hq, hline', hmore (by decide +kernel)⟩

end Scripting
