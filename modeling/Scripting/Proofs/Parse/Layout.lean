import Scripting.Proofs.Format.Lexing
import Scripting.Proofs.Front.Lexer
import Scripting.Proofs.Parse.OneLine

/-!
Layout carries no meaning. If the tokens of a source are written again in order, with any blanks
between them and, outside quotes, any comments that end with their line, the new source has the
same tokens, and is read as the same program but for its lines.
-/

namespace Scripting

open Piece (hash isBlank isNameByte isWordByte newline point)
open Format (Lexes WellLexed breaks)

/-- What may part two tokens that stand inside quotes or not: blanks and, outside quotes,
comments with the line feeds that end them. -/
inductive Gap : Bool → Text → Prop
  | blank {quoted : Bool} {c : UInt8} (hc : isBlank c = true) : Gap quoted [c]
  | comment {t : Text} (ht : newline ∉ t) : Gap false (hash :: t ++ [newline])
  | append {quoted : Bool} {s t : Text} (hs : Gap quoted s) (ht : Gap quoted t) :
      Gap quoted (s ++ t)

/-- A text of the lexemes of tokens in order with a gap after each, which the last may lack. The
first token stands inside quotes or not. -/
inductive Spaced : Bool → List Token → Text → Prop
  | nil {quoted : Bool} : Spaced quoted [] []
  | last {quoted : Bool} {t : Token} : Spaced quoted [t] t.lexeme
  | next {quoted : Bool} {t : Token} {ts : List Token} {gap s : Text}
      (hg : Gap (quoted != (t.kind = .quote)) gap) (h : Spaced (quoted != (t.kind = .quote)) ts s) :
      Spaced quoted (t :: ts) (t.lexeme ++ (gap ++ s))

/-- What a token is, apart from its line. -/
def Token.content (t : Token) : Token.Kind × Text × Literal :=
  (t.kind, t.lexeme, (Emitted.of t).literal)

/-- The bytes with which a gap begins. -/
def Gap.Opens (quoted : Bool) (c : UInt8) : Prop := isBlank c = true ∨ quoted = false ∧ c = hash

namespace Gap

variable {quoted : Bool} {gap : Text} {c : UInt8}

theorem exists_cons (h : Gap quoted gap) : ∃ c s, gap = c :: s ∧ Opens quoted c := by
  induction h with
  | blank hc => exact ⟨_, _, rfl, .inl hc⟩
  | comment ht => exact ⟨_, _, rfl, .inr ⟨rfl, rfl⟩⟩
  | append _ _ ih _ =>
      obtain ⟨c, s, rfl, hc⟩ := ih
      exact ⟨c, _, rfl, hc⟩

theorem Opens.isWordByte_eq (h : Opens true c) : isWordByte c = false := by
  obtain h | ⟨h, _⟩ := h
  · simp [isWordByte, h]
  · cases h

theorem Opens.facts (h : Opens quoted c) : isNameByte c = false ∧ c ≠ point := by
  have hb : isBlank c = true ∨ c = hash := h.imp_right And.right
  revert hb
  refine Format.forall_byte (p := fun c => isBlank c = true ∨ c = hash → isNameByte c = false ∧
    c ≠ point) ?_ c
  decide +kernel

/-- No token outside quotes goes on into a gap. -/
theorem breaks_of_opens {rest : Text} (h : ∀ c, rest.head? = some c → Opens quoted c) :
    breaks rest = true := by
  cases rest with
  | nil => rfl
  | cons c rest =>
      obtain ⟨hn, hp⟩ := (h c rfl).facts
      cases rest <;> simp [breaks, hn, hp]

theorem lexes_comment {t : Text} (ht : newline ∉ t) {line : Nat} {rest : Text} {ts : List Token}
    (h : Lexes false line (newline :: rest) ts) :
    Lexes false line (hash :: t ++ newline :: rest) ts := by
  have hf : Piece.first false hash (t ++ newline :: rest) = (.comment, t.length) := by
    rw [Piece.first_newline, Piece.first_comment ht]
  have hp : Piece.pieces false line (hash :: t ++ newline :: rest) =
      ⟨.comment, hash :: t, line⟩ :: Piece.pieces false line (newline :: rest) := by
    have hh : hash ≠ newline := by decide
    rw [List.cons_append, Piece.pieces, hf]
    simp [hh]
  exact .skip hp rfl rfl h

/-- A gap has no tokens and no faults. -/
theorem lexes (h : Gap quoted gap) {line : Nat} {rest : Text} {ts : List Token}
    (hr : Lexes quoted (line + gap.count newline) rest ts) :
    Lexes quoted line (gap ++ rest) ts := by
  induction h generalizing line rest with
  | @blank quoted c hc =>
      refine .blank hc ?_
      rw [List.count_singleton] at hr
      by_cases hn : c = newline <;> simpa [hn] using hr
  | @comment t ht =>
      have hcount : (hash :: t ++ [newline]).count newline = 1 := by
        rw [List.cons_append, List.count_cons, List.count_append, List.count_eq_zero.mpr ht]
        rfl
      rw [hcount] at hr
      rw [List.append_assoc]
      exact lexes_comment ht (.newline hr)
  | @append quoted s t hs ht ihs iht =>
      rw [List.append_assoc]
      refine ihs (iht ?_)
      rwa [Nat.add_assoc, ← List.count_append]

end Gap

theorem Format.WellLexed.tail {quoted : Bool} {t : Token} {ts : List Token}
    (h : WellLexed quoted (t :: ts)) : WellLexed (quoted != (t.kind = .quote)) ts := by
  rw [WellLexed] at h
  split at h
  · next hk => simpa [hk] using h.2
  · next hk => simpa [hk] using h.2

/-- A token is the same token wherever it stands, if a gap or nothing comes after it. -/
theorem Format.WellLexed.lexes_head {quoted : Bool} {t : Token} {ts us : List Token}
    (h : WellLexed quoted (t :: ts)) {line : Nat} {rest : Text}
    (hr : ∀ c, rest.head? = some c → Gap.Opens (quoted != (t.kind = .quote)) c)
    (hl : Lexes (quoted != (t.kind = .quote)) line rest us) :
    Lexes quoted line (t.lexeme ++ rest) (t.mapLine (fun _ => line) :: us) := by
  obtain ⟨kind, lexeme, l⟩ := t
  rw [WellLexed] at h
  split at h
  · next hk =>
      obtain ⟨he, _⟩ := h
      dsimp only at hk he hl ⊢
      rw [he, Token.mapLine, hk]
      exact .quote (by simpa [hk] using hl)
  · next hk =>
      obtain ⟨h, _⟩ := h
      dsimp only at hk h hl hr ⊢
      simp only [hk, decide_false, Bool.bne_false] at hl hr
      cases quoted with
      | true =>
          obtain ⟨rfl, hw⟩ := h
          exact .word hw (fun c hc => (hr c hc).isWordByte_eq) hl
      | false => exact .spelled h (Gap.breaks_of_opens hr) hl

/-- The tokens of a text of spaced tokens are these tokens, on its own lines. -/
theorem Spaced.lexes {quoted : Bool} {ts : List Token} {s : Text} (h : Spaced quoted ts s)
    (hw : WellLexed quoted ts) (hc : Scan.leavesOpen ts = quoted) (line : Nat) :
    ∃ us, us.map (Token.mapLine fun _ => 0) = ts.map (Token.mapLine fun _ => 0) ∧
      Lexes quoted line s us := by
  -- the quotes that are open at a token are those that `hc` leaves open for the tokens after it
  induction h generalizing line with
  | nil =>
      subst hc
      exact ⟨[], rfl, .nil line⟩
  | @last quoted t =>
      have hq : (quoted != (t.kind = .quote)) = false := by
        rw [← hc, Piece.leavesOpen_cons]
        simp [Scan.leavesOpen]
      refine ⟨[t.mapLine fun _ => line], rfl, ?_⟩
      have hl : Lexes (quoted != (t.kind = .quote)) line [] [] := hq ▸ .nil line
      have ht := hw.lexes_head (fun c hc => by cases hc) hl
      rwa [List.append_nil] at ht
  | @next quoted t ts gap s hg h ih =>
      have hts : Scan.leavesOpen ts = (quoted != (t.kind = .quote)) := by
        rw [← hc, Piece.leavesOpen_cons]
        cases Scan.leavesOpen ts <;> simp
      obtain ⟨us, hus, hl⟩ := ih hw.tail hts (line + gap.count newline)
      refine ⟨t.mapLine (fun _ => line) :: us, congrArg (t.mapLine (fun _ => 0) :: ·) hus,
        hw.lexes_head ?_ (hg.lexes hl)⟩
      obtain ⟨c, g, rfl, ho⟩ := hg.exists_cons
      rintro _ ⟨rfl⟩
      exact ho

namespace Scan

/-- Tokens that are spaced anew are scanned as the same tokens. -/
theorem tokens_spaced {source s : Text} (h : (ofSource source).errors = [])
    (hs : Spaced false (ofSource source).tokens s) :
    (ofSource s).errors = [] ∧
      (ofSource s).tokens.map (Token.mapLine fun _ => 0) =
        (ofSource source).tokens.map (Token.mapLine fun _ => 0) := by
  have hc : leavesOpen (ofSource source).tokens = false := by
    have he := (List.append_eq_nil_iff.mp h).2
    split at he
    · cases he
    · next hn => exact eq_false_of_ne_true hn
  obtain ⟨us, hus, hl⟩ := hs.lexes (Format.wellLexed_ofSource h) hc 1
  obtain ⟨ht, he⟩ := hl.scan
  exact ⟨he, ht ▸ hus⟩

end Scan

namespace Program

theorem moved_ofSource_congr {s t : Text} (hs : (Scan.ofSource s).errors = [])
    (ht : (Scan.ofSource t).errors = [])
    (h : (Scan.ofSource s).tokens.map (Token.mapLine fun _ => 0) =
      (Scan.ofSource t).tokens.map (Token.mapLine fun _ => 0)) :
    moved (fun _ => 0) (ofSource s) = moved (fun _ => 0) (ofSource t) := by
  rw [ofSource_of_no_errors hs, ofSource_of_no_errors ht, ← ofTokens_mapLine, ← ofTokens_mapLine, h]

/-- Two readings that are the same but for their lines both give a program, or neither does. -/
theorem ok_iff_of_moved {x y : Except ParseError Program} {f : Nat → Nat}
    (h : moved f x = moved f y) : (∃ p, x = .ok p) ↔ ∃ q, y = .ok q := by
  cases x with
  | error e =>
      cases y with
      | error e' => simp
      | ok q => cases h
  | ok p =>
      cases y with
      | error e => cases h
      | ok q => simp

/-- The tokens of a source without lexical faults, spaced in any other way, are the tokens of the
new source, which has no such faults either. So it is a program if and only if the source was
one, and the same program but for its lines. -/
theorem ofSource_spaced {source s : Text} (h : (Scan.ofSource source).errors = [])
    (hs : Spaced false (Scan.ofSource source).tokens s) :
    (Scan.ofSource s).errors = [] ∧
      (Scan.ofSource s).withEnd.map Token.content =
        (Scan.ofSource source).withEnd.map Token.content ∧
      ((∃ q, ofSource s = .ok q) ↔ ∃ p, ofSource source = .ok p) ∧
      ∀ p q, ofSource source = .ok p → ofSource s = .ok q → p.SameUpToLines q := by
  obtain ⟨he, ht⟩ := Scan.tokens_spaced h hs
  have hm := moved_ofSource_congr he h ht
  refine ⟨he, ?_, ok_iff_of_moved hm, fun p q hp hq => ?_⟩
  · -- the line does not enter into the content, so the two maps make one
    have hc := congrArg (List.map Token.content) ht
    rw [List.map_map, List.map_map] at hc
    rw [Scan.withEnd, Scan.withEnd, List.map_append, List.map_append]
    exact congrArg (· ++ _) hc
  · rw [hp, hq] at hm
    exact (Except.ok.inj hm).symm

/-- Comments, line feeds and tabs between tokens, and blanks around a word that holds a hash. -/
theorem ofSource_spaced_comments :
    let source := Text.utf8 "x=\"a#\".b"
    let s := Text.utf8 "x # \"\n=\n\"\t a# \"#\n.\rb"
    (Scan.ofSource source).errors = [] ∧ Spaced false (Scan.ofSource source).tokens s ∧
      (Scan.ofSource s).withEnd.map Token.content =
        (Scan.ofSource source).withEnd.map Token.content ∧
      ∃ p q, ofSource source = .ok p ∧ ofSource s = .ok q ∧ p.SameUpToLines q := by
  intro source s
  have he : (Scan.ofSource source).errors = [] := by decide +kernel
  have ht : (Scan.ofSource source).tokens =
      [⟨.identifier, Text.utf8 "x", 1⟩, ⟨.equal, Text.utf8 "=", 1⟩, ⟨.quote, Text.utf8 "\"", 1⟩,
        ⟨.word, Text.utf8 "a#", 1⟩, ⟨.quote, Text.utf8 "\"", 1⟩, ⟨.dot, Text.utf8 ".", 1⟩,
        ⟨.identifier, Text.utf8 "b", 1⟩] := by decide +kernel
  have hs : Spaced false (Scan.ofSource source).tokens s := by
    have hb {quoted : Bool} (c : UInt8) (h : isBlank c = true) : Gap quoted [c] := .blank h
    have hc : Gap false (hash :: Text.utf8 " \"" ++ [newline]) := .comment (by decide +kernel)
    have hd : Gap false (hash :: [] ++ [newline]) := .comment (by decide +kernel)
    rw [ht]
    refine @Spaced.next _ _ _ (Text.utf8 " # \"\n") (Text.utf8 "=\n\"\t a# \"#\n.\rb") ?_ ?_
    · exact .append (hb 0x20 rfl) hc
    refine @Spaced.next _ _ _ (Text.utf8 "\n") (Text.utf8 "\"\t a# \"#\n.\rb") ?_ ?_
    · exact hb newline rfl
    refine @Spaced.next _ _ _ (Text.utf8 "\t ") (Text.utf8 "a# \"#\n.\rb") ?_ ?_
    · exact .append (hb 0x09 rfl) (hb 0x20 rfl)
    refine @Spaced.next _ _ _ (Text.utf8 " ") (Text.utf8 "\"#\n.\rb") ?_ ?_
    · exact hb 0x20 rfl
    refine @Spaced.next _ _ _ (Text.utf8 "#\n") (Text.utf8 ".\rb") ?_ ?_
    · exact hd
    refine @Spaced.next _ _ _ (Text.utf8 "\r") (Text.utf8 "b") ?_ .last
    exact hb 0x0D rfl
  have hp : (ofSource source).toOption.isSome = true := by decide +kernel
  obtain ⟨p, hp⟩ := Option.isSome_iff_exists.mp hp
  replace hp := Reading.eq_ok_of_toOption hp
  obtain ⟨_, hc, hiff, hsame⟩ := ofSource_spaced he hs
  obtain ⟨q, hq⟩ := hiff.mpr ⟨p, hp⟩
  exact ⟨he, hs, hc, p, q, hp, hq, hsame p q hp hq⟩

end Program

end Scripting
