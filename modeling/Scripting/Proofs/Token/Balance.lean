import Scripting.Proofs.Format.Lexing
import Scripting.Proofs.Parse.Joining
import Scripting.Proofs.Token.Spans

/-!
Quotes by their number. The odd-numbered quotes of a source open a quoted text and the others close
one. If a source has no lexical error then its quotes are even in number, and its words are the
tokens inside them. A quote that is left open is told after all other lexical errors.
-/

namespace Scripting

theorem Format.Spelled.ne_word {kind : Token.Kind} {t : Text} (h : Spelled kind t) :
    kind ≠ .word := by
  cases h with
  | punctuation h => exact Piece.punctuation_ne h (by decide)
  | number _ _ => exact Token.Kind.noConfusion
  | name _ _ => exact Piece.nameKind_ne _ (by decide)

namespace Scan

open Format (Spelled WellLexed)

variable {tokens : List Token} {t : Token} {k n : Nat}

theorem leavesOpen_iff (tokens : List Token) :
    leavesOpen tokens = true ↔ tokens.countP (fun t => t.kind = .quote) % 2 = 1 :=
  decide_eq_true_iff

/-- Whether the place before a token, by its number, is inside quotes. -/
def quotedAt (tokens : List Token) (k : Nat) : Bool := leavesOpen (tokens.take k)

/-- The numbers of the tokens before a place that are quotes and open a text. -/
def openings (tokens : List Token) (k : Nat) : List Nat :=
  (List.range k).filter fun j =>
    tokens[j]?.any (fun t => t.kind = .quote) && !quotedAt tokens j

theorem quotedAt_succ (h : tokens[k]? = some t) :
    quotedAt tokens (k + 1) = (quotedAt tokens k != (t.kind = .quote : Bool)) := by
  have ht : leavesOpen [t] = (t.kind = .quote : Bool) := by
    rw [Piece.leavesOpen_cons]
    exact Bool.bne_false _
  rw [quotedAt, List.take_add_one, h, leavesOpen_append, quotedAt]
  exact congrArg _ ht

theorem openings_succ (h : tokens[k]? = some t) :
    openings tokens (k + 1) =
      openings tokens k ++ if t.kind = .quote ∧ quotedAt tokens k = false then [k] else [] := by
  rw [openings, List.range_succ, List.filter_append, openings]
  congr 1
  by_cases hq : t.kind = .quote <;> cases hk : quotedAt tokens k <;> simp [h, hq, hk]

theorem openings_mono (h : k ≤ n) : openings tokens k <+: openings tokens n := by
  obtain ⟨m, rfl⟩ := Nat.exists_eq_add_of_le h
  rw [openings, openings, List.range_add, List.filter_append]
  exact List.prefix_append ..

/-- Tokens whose quotes are balanced: they are even in number, the words are the tokens inside
them, and each is spelled as a quote. -/
structure Balanced (tokens : List Token) : Prop where
  closed : leavesOpen tokens = false
  word_iff : ∀ {k t}, tokens[k]? = some t → t.kind ≠ .quote →
    (t.kind = .word ↔ quotedAt tokens k = true)
  lexeme : ∀ t ∈ tokens, t.kind = .quote → t.lexeme = Text.utf8 "\""

/-- What tokens are by their places, if they follow a place that is inside quotes or not. -/
theorem kind_of_wellLexed {quoted : Bool} (h : WellLexed quoted tokens) (ht : tokens[k]? = some t) :
    (t.kind = .quote → t.lexeme = Text.utf8 "\"") ∧
      (t.kind ≠ .quote → (t.kind = .word ↔ (quoted != quotedAt tokens k) = true)) := by
  induction tokens generalizing quoted k with
  | nil => cases ht
  | cons first rest ih =>
      rw [WellLexed] at h
      cases k with
      | zero =>
          cases ht
          have hq : quotedAt (t :: rest) 0 = false := rfl
          rw [hq, Bool.bne_false]
          by_cases hk : t.kind = .quote
          · rw [if_pos hk] at h
            exact ⟨fun _ => h.1, fun hn => absurd hk hn⟩
          · rw [if_neg hk] at h
            refine ⟨fun hn => absurd hn hk, fun _ => ?_⟩
            cases quoted with
            | true => exact iff_of_true h.1.1 rfl
            | false =>
                refine iff_of_false ?_ Bool.false_ne_true
                exact Spelled.ne_word h.1
      | succ k =>
          have hs : quotedAt (first :: rest) (k + 1) =
              ((first.kind = .quote : Bool) != quotedAt rest k) := Piece.leavesOpen_cons ..
          rw [List.getElem?_cons_succ] at ht
          rw [hs]
          by_cases hk : first.kind = .quote
          · rw [if_pos hk] at h
            simpa [hk] using ih h.2 ht
          · rw [if_neg hk] at h
            simpa [hk] using ih h.2 ht

theorem balanced_ofSource {source : Text} (h : (ofSource source).errors = []) :
    Balanced (ofSource source).tokens where
  closed := (ofSource_no_errors h).2
  word_iff ht hn := by
    have hw := (kind_of_wellLexed (Format.wellLexed_ofSource h) ht).2 hn
    rwa [Bool.false_bne] at hw
  lexeme t ht := by
    obtain ⟨k, hk⟩ := List.mem_iff_getElem?.mp ht
    exact (kind_of_wellLexed (Format.wellLexed_ofSource h) hk).1

/-- If a quote that is left open is the first error of a source then it is the only one. -/
theorem errors_of_unclosed {source : Text} {e : ParseError} {es : List ParseError}
    (h : (ofSource source).errors = e :: es) (hc : e.cause = .unclosedQuote) :
    es = [] ∧ leavesOpen (ofSource source).tokens = true := by
  have he : (ofSource source).errors = (Piece.pieces false 1 source).filterMap Piece.error? ++
      if leavesOpen (ofSource source).tokens then
        [⟨(ofSource source).endLine, .unclosedQuote, .nothing⟩] else [] := rfl
  rw [he] at h
  cases hf : (Piece.pieces false 1 source).filterMap Piece.error? with
  | cons other more =>
      rw [hf] at h
      cases h
      have hm : e ∈ (Piece.pieces false 1 source).filterMap Piece.error? := by
        rw [hf]
        exact List.mem_cons_self ..
      obtain ⟨p, -, hp⟩ := List.mem_filterMap.mp hm
      exact absurd hc (Piece.cause_error? hp)
  | nil =>
      rw [hf, List.nil_append] at h
      cases ho : leavesOpen (ofSource source).tokens with
      | true =>
          rw [ho] at h
          cases h
          exact ⟨rfl, rfl⟩
      | false =>
          rw [ho] at h
          cases h

end Scan

end Scripting
