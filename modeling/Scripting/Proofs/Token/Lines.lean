import Mathlib.Data.List.Forall2
import Scripting.Proofs.Token.Spans

/-!
The lines of what a scan finds. A token and a fault stand on the line of their first byte, and a
new line begins after each line feed, so the lines of tokens never go back.
-/

namespace Scripting

def Piece.Role.isToken : Piece.Role → Bool
  | .token _ => true
  | _ => false

namespace Span

/-- A token is that of a span: of its kind, with its bytes, on the line of its first byte. -/
structure Bears (source : Text) (p : Span) (t : Token) : Prop where
  kind : p.role = .token t.kind
  lexeme : t.lexeme = p.text source
  line : t.line = source.lineAt p.start

/-- A byte that begins nothing, or a number that is out of range. -/
def isFaulty (source : Text) (p : Span) : Bool :=
  p.role = .illegal || (p.role = .token .number && !(Number.ofLiteral (p.text source)).isFinite)

/-- An error is that of a span, told with its bytes and on the line of the first one. A byte that
begins nothing is told as the character of that code. -/
inductive Faults (source : Text) (p : Span) (e : ParseError) : Prop
  | illegal (role : p.role = .illegal) (cause : e.cause = .illegalCharacter)
      (near : e.near = .source ((p.text source).flatMap fun c =>
        String.utf8EncodeChar (Char.ofNat c.toNat)))
      (line : e.line = source.lineAt p.start)
  | number (role : p.role = .token .number)
      (range : (Number.ofLiteral (p.text source)).isFinite = false)
      (cause : e.cause = .invalidNumber) (near : e.near = .source (p.text source))
      (line : e.line = source.lineAt p.start)

variable {source : Text} {p : Span}

theorem bears_of_isToken (h : p.role.isToken = true) :
    ∃ t, (p.piece source).token? = some t ∧ p.Bears source t := by
  cases hr : p.role with
  | token kind =>
      have ht : (p.piece source).token? = some ⟨kind, p.text source, source.lineAt p.start⟩ := by
        simp only [Piece.token?, piece, hr]
      exact ⟨_, ht, hr, rfl, rfl⟩
  | blank | comment | illegal =>
      rw [hr] at h
      cases h

theorem token?_of_not_isToken (h : p.role.isToken = false) : (p.piece source).token? = none := by
  cases hr : p.role with
  | token kind =>
      rw [hr] at h
      cases h
  | blank | comment | illegal => simp only [Piece.token?, piece, hr]

theorem faults_of_isFaulty (h : p.isFaulty source = true) :
    ∃ e, (p.piece source).error? = some e ∧ p.Faults source e := by
  simp only [isFaulty, Bool.or_eq_true, Bool.and_eq_true, decide_eq_true_eq, Bool.not_eq_true'] at h
  obtain hr | ⟨hr, hn⟩ := h
  · have he : (p.piece source).error? = some ⟨source.lineAt p.start, .illegalCharacter,
        .source ((p.text source).flatMap fun c => String.utf8EncodeChar (Char.ofNat c.toNat))⟩ := by
      simp only [Piece.error?, piece, hr]
    exact ⟨_, he, .illegal hr rfl rfl rfl⟩
  · have he : (p.piece source).error? =
        some ⟨source.lineAt p.start, .invalidNumber, .source (p.text source)⟩ := by
      simp only [Piece.error?, piece, hr, hn, Bool.false_eq_true, if_false]
    exact ⟨_, he, .number hr hn rfl rfl rfl⟩

theorem error?_of_not_isFaulty (h : p.isFaulty source = false) :
    (p.piece source).error? = none := by
  simp only [isFaulty, Bool.or_eq_false_iff, decide_eq_false_iff_not] at h
  obtain ⟨hi, hn⟩ := h
  rw [Piece.error?]
  split
  · next hr => exact absurd hr hi
  · next hr =>
      have hr : p.role = .token .number := hr
      have hf : (Number.ofLiteral (p.text source)).isFinite = true := by simpa [hr] using hn
      exact if_pos hf
  · rfl

end Span

/-- The scan of a source by the lines of positions in it. The tokens and the faults are those of
spans that tile the source, each on the line of its first byte; the end, and a quote that is left
open, are told on the last line. -/
structure Scan.Lined (source : Text) (scan : Scan) (spans : List Span) : Prop where
  tiles : Span.Tiles source false 0 spans
  tokens : List.Forall₂ (Span.Bears source) (spans.filter (·.role.isToken)) scan.tokens
  ending : scan.withEnd = scan.tokens ++ [⟨.endOfInput, [], 1 + source.count 0x0A⟩]
  errors : ∃ found, List.Forall₂ (Span.Faults source) (spans.filter (Span.isFaulty source)) found ∧
    scan.errors = found ++ if scan.tokens.countP (·.kind = .quote) % 2 = 1 then
      [⟨1 + source.count 0x0A, .unclosedQuote, .nothing⟩] else []
  ascending : scan.withEnd.Pairwise fun t u => t.line ≤ u.line

theorem Text.lineAt_mono (source : Text) {i j : Nat} (h : i ≤ j) :
    source.lineAt i ≤ source.lineAt j :=
  Nat.add_le_add_left ((List.take_prefix_take_left h).sublist.count_le _) 1

theorem Text.lineAt_length (source : Text) :
    source.lineAt source.length = 1 + source.count 0x0A := by
  rw [lineAt, List.take_length]

namespace Scan

theorem filterMap_piece_spans {β : Type} (g : Piece → Option β) (source : Text) :
    (spans source).filterMap (fun p => g (p.piece source)) =
      (Piece.pieces false 1 source).filterMap g := by
  rw [← map_piece_spans, List.filterMap_map]
  rfl

/-- What is found on some of the spans matches them, one by one. -/
theorem forall₂_filterMap_spans {β : Type} {R : Span → β → Prop} {test : Span → Bool}
    (g : Piece → Option β) (source : Text)
    (hf : ∀ p, test p = true → ∃ b, g (p.piece source) = some b ∧ R p b)
    (hn : ∀ p, test p = false → g (p.piece source) = none) :
    List.Forall₂ R ((spans source).filter test) ((Piece.pieces false 1 source).filterMap g) := by
  rw [← filterMap_piece_spans]
  induction spans source with
  | nil => exact .nil
  | cons p spans ih =>
      cases ht : test p with
      | true =>
          obtain ⟨b, hb, hR⟩ := hf p ht
          simp only [List.filter_cons_of_pos ht, List.filterMap_cons, hb]
          exact .cons hR ih
      | false =>
          have hp := Bool.eq_false_iff.mp ht
          simp only [List.filter_cons_of_neg hp, List.filterMap_cons, hn p ht]
          exact ih

theorem tokens_bear (source : Text) : List.Forall₂ (Span.Bears source)
    ((spans source).filter (·.role.isToken)) (ofSource source).tokens :=
  forall₂_filterMap_spans Piece.token? source (fun _ => Span.bears_of_isToken)
    fun _ => Span.token?_of_not_isToken

/-- No token stands on a line before that of an earlier one, and none after the end. -/
theorem ascending_withEnd (source : Text) :
    (ofSource source).withEnd.Pairwise fun t u => t.line ≤ u.line := by
  have htiles : Span.Tiles source false 0 (spans source) := Piece.tiles false 1 source []
  have hlines : (ofSource source).tokens.map Token.line =
      ((spans source).filter (·.role.isToken)).map fun p => source.lineAt p.start :=
    List.forall₂_eq_eq_eq ▸ List.forall₂_map_left_iff.mpr
      (List.forall₂_map_right_iff.mpr ((tokens_bear source).flip.imp fun _ _ h => h.line))
  have hstarts : ((spans source).filter (·.role.isToken)).Pairwise
      fun p q => p.start ≤ q.start := by
    refine (htiles.ordered.imp_of_mem fun {p q} hp _ hpq => ?_).filter _
    exact Nat.le_trans (Nat.le_of_lt (htiles.inside p hp).1) hpq
  have hend : source.lineAt source.length = (ofSource source).endLine := source.lineAt_length
  rw [← List.pairwise_map, withEnd, List.map_append, hlines, List.pairwise_append]
  refine ⟨?_, List.pairwise_singleton _ _, ?_⟩
  · exact List.pairwise_map.mpr (hstarts.imp source.lineAt_mono)
  · intro line hl last he
    obtain ⟨p, hp, rfl⟩ := List.mem_map.mp hl
    obtain ⟨hlt, hle⟩ := htiles.inside p (List.mem_filter.mp hp).1
    rw [List.mem_singleton.mp he]
    exact hend ▸ source.lineAt_mono (Nat.le_trans (Nat.le_of_lt hlt) hle)

/-- Every token and every fault of a source is told on the line where it stands. -/
theorem ofSource_lined (source : Text) : ∃ spans, Lined source (ofSource source) spans := by
  refine ⟨spans source, Piece.tiles false 1 source [], tokens_bear source, rfl, ?_,
    ascending_withEnd source⟩
  have hfaults : List.Forall₂ (Span.Faults source)
      ((spans source).filter (Span.isFaulty source)) _ :=
    forall₂_filterMap_spans Piece.error? source (fun _ => Span.faults_of_isFaulty)
      fun _ => Span.error?_of_not_isFaulty
  refine ⟨_, hfaults, ?_⟩
  simp only [ofSource, leavesOpen, decide_eq_true_eq]
  rfl

end Scan

end Scripting
