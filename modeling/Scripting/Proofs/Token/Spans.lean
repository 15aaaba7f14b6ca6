import Mathlib.Logic.ExistsUnique
import Scripting.Proofs.Number.RoundTrip
import Scripting.Proofs.Pieces

/-!
Where the pieces of a source stand. They lie one after the other from its first byte to its
last, and each is what its role says at its place: as long as its class allows, and inside
quotes if and only if it is a word. The tokens and the errors of a scan are told by them.
-/

namespace Scripting

open Piece (hash isBlank isLetter isNameByte isWordByte nameKind newline point punctuation?
  quoteByte)
open Number (AllDigits isDigit)

/-- The bytes that begin nothing outside quotes. -/
def Piece.isIllegal (c : UInt8) : Bool :=
  !(c = quoteByte) && !isBlank c && (punctuation? c).isNone && !(c = hash) && !isDigit c &&
    !isLetter c

/-- What a stretch of a source is that stands inside quotes or not, with the bytes after it. -/
inductive Piece.Role.Fits (quoted : Bool) (after : Text) : Piece.Role → Text → Prop
  | blank {c : UInt8} (h : isBlank c = true) : Fits quoted after .blank [c]
  | comment {t : Text} (hq : quoted = false) (ht : newline ∉ t)
      (ha : ∀ c, after.head? = some c → c = newline) : Fits quoted after .comment (hash :: t)
  | illegal {c : UInt8} (hq : quoted = false) (h : Piece.isIllegal c = true) :
      Fits quoted after .illegal [c]
  | quote : Fits quoted after (.token .quote) [quoteByte]
  | word {t : Text} (hq : quoted = true) (hn : t ≠ []) (ht : ∀ b ∈ t, isWordByte b = true)
      (ha : ∀ c, after.head? = some c → isWordByte c = false) :
      Fits quoted after (.token .word) t
  | punctuation {c : UInt8} {kind : Token.Kind} (hq : quoted = false)
      (h : punctuation? c = some kind) : Fits quoted after (.token kind) [c]
  | whole {w : Text} (hq : quoted = false) (hn : w ≠ []) (hw : AllDigits w)
      (ha : ∀ c, after.head? = some c → isDigit c = false)
      (hp : ∀ d rest, after = point :: d :: rest → isDigit d = false) :
      Fits quoted after (.token .number) w
  | fraction {w f : Text} (hq : quoted = false) (hn : w ≠ []) (hw : AllDigits w) (hm : f ≠ [])
      (hf : AllDigits f) (ha : ∀ c, after.head? = some c → isDigit c = false) :
      Fits quoted after (.token .number) (w ++ point :: f)
  | name {c : UInt8} {t : Text} (hq : quoted = false) (hc : isLetter c = true)
      (ht : ∀ b ∈ t, isNameByte b = true)
      (ha : ∀ c, after.head? = some c → isNameByte c = false) :
      Fits quoted after (.token (nameKind (c :: t))) (c :: t)

/-- The line of a position in a source: one more than the line feeds before it. -/
def Text.lineAt (source : Text) (position : Nat) : Nat := 1 + (source.take position).count 0x0A

/-- A stretch of a source by its first position and the one after its last, with its role. -/
structure Span where
  role : Piece.Role
  start : Nat
  stop : Nat

namespace Span

/-- The bytes of a span. -/
def text (source : Text) (p : Span) : Text := (source.drop p.start).take (p.stop - p.start)

/-- The piece that a span is, on the line of its first byte. -/
def piece (source : Text) (p : Span) : Piece := ⟨p.role, p.text source, source.lineAt p.start⟩

/-- The kind and the lexeme of a span that is a token. -/
def token? (source : Text) (p : Span) : Option (Token.Kind × Text) :=
  match p.role with
  | .token kind => some (kind, p.text source)
  | _ => none

/-- Whether what comes after some spans stands inside quotes. -/
def leavesOpen (spans : List Span) : Bool := spans.countP (·.role = .token .quote) % 2 = 1

end Span

/-- The scan of a source by spans of it. They hold each byte exactly once, in order, and are
what their roles say; the tokens are those among them, then the end; each illegal byte is an
error, in order, and so is, at last, a quote that is left open. -/
structure Scan.Accounts (source : Text) (scan : Scan) (spans : List Span) : Prop where
  ordered : spans.Pairwise fun p q => p.stop ≤ q.start
  inside : ∀ p ∈ spans, p.start < p.stop ∧ p.stop ≤ source.length
  once : ∀ i < source.length, ∃! p, p ∈ spans ∧ p.start ≤ i ∧ i < p.stop
  fits : ∀ before p after, spans = before ++ p :: after →
    p.role.Fits (Span.leavesOpen before) (source.drop p.stop) (p.text source)
  tokens : scan.tokens.map (fun t => (t.kind, t.lexeme)) = spans.filterMap (Span.token? source)
  ending : scan.withEnd = scan.tokens ++ [⟨.endOfInput, [], scan.endLine⟩] ∧
    ∀ t ∈ scan.tokens, t.kind ≠ .endOfInput
  illegal : (scan.errors.filter (·.cause = .illegalCharacter)).map ParseError.near =
    (spans.filter (·.role = .illegal)).map fun p =>
      .source ((p.text source).flatMap fun c => String.utf8EncodeChar (Char.ofNat c.toNat))
  unclosed : ∃ found, (∀ e ∈ found, e.cause ≠ .unclosedQuote) ∧ scan.errors = found ++
    if scan.withEnd.countP (·.kind = .quote) % 2 = 1 then [⟨scan.endLine, .unclosedQuote, .nothing⟩]
    else []

namespace Piece

theorem head?_drop_run (test : UInt8 → Bool) (s : Text) {c : UInt8}
    (h : (s.drop (run test s)).head? = some c) : test c = false := by
  induction s with
  | nil => cases h
  | cons b s ih =>
      by_cases hb : test b = true
      · rw [run, List.takeWhile_cons_of_pos hb] at h
        exact ih h
      · rw [run, List.takeWhile_cons_of_neg hb] at h
        cases h
        exact Bool.eq_false_iff.mpr hb

/-- A number goes on to its last digit, and over a point only to a digit. -/
theorem number_fits {c : UInt8} (hc : isDigit c = true) (s : Text) :
    (Role.token .number).Fits false (s.drop (numberRun s)) (c :: s.take (numberRun s)) := by
  have hw : AllDigits (c :: s.take (run isDigit s)) := by
    intro b hb
    obtain rfl | hb := List.mem_cons.mp hb
    · exact hc
    · exact of_mem_run hb
  rw [numberRun]
  split
  · next p d more hd =>
      split
      · next hp =>
          rw [Bool.and_eq_true, decide_eq_true_eq] at hp
          have hf : AllDigits (d :: more.take (run isDigit more)) := by
            intro b hb
            obtain rfl | hb := List.mem_cons.mp hb
            · exact hp.2
            · exact of_mem_run hb
          have ht : s.take (run isDigit s + 2 + run isDigit more) =
              s.take (run isDigit s) ++ point :: d :: more.take (run isDigit more) := by
            rw [Nat.add_assoc, List.take_add, hd, Nat.add_comm 2, ← hp.1]
            rfl
          have ha : s.drop (run isDigit s + 2 + run isDigit more) =
              more.drop (run isDigit more) := by
            rw [Nat.add_assoc, ← List.drop_drop, hd, Nat.add_comm 2]
            rfl
          rw [ht, ha]
          exact .fraction rfl (List.cons_ne_nil _ _) hw (List.cons_ne_nil _ _) hf
            fun _ => head?_drop_run isDigit more
      · next hp =>
          refine .whole rfl (List.cons_ne_nil _ _) hw (fun _ => head?_drop_run isDigit s) ?_
          intro e rest he
          rw [hd] at he
          cases he
          simpa using hp
  · next hd =>
      refine .whole rfl (List.cons_ne_nil _ _) hw (fun _ => head?_drop_run isDigit s) ?_
      intro e rest he
      exact absurd he (hd _ _ _)

/-- Each piece fits its role where it stands. -/
theorem first_fits {quoted : Bool} {c : UInt8} {s : Text} {role : Role} {n : Nat}
    (h : first quoted c s = (role, n)) : role.Fits quoted (s.drop n) (c :: s.take n) := by
  rw [first] at h
  split at h
  · next hc =>
      cases h
      rw [hc]
      exact .quote
  split at h
  · next hb =>
      cases h
      exact .blank hb
  next hq hb =>
  split at h
  · next hquoted =>
      cases h
      refine .word hquoted (List.cons_ne_nil _ _) ?_ fun _ => head?_drop_run isWordByte s
      intro b hm
      obtain rfl | hm := List.mem_cons.mp hm
      · simp [isWordByte, hq, hb]
      · exact of_mem_run hm
  next hquoted =>
  have hquoted := Bool.eq_false_iff.mpr hquoted
  split at h
  · next hp =>
      cases h
      exact .punctuation hquoted hp
  next hp =>
  split at h
  · next hh =>
      cases h
      rw [hh]
      refine .comment hquoted (fun hm => ?_) fun d hd => ?_
      · cases of_mem_run hm
      · simpa using head?_drop_run (· != newline) s hd
  next hh =>
  split at h
  · next hd =>
      cases h
      rw [hquoted]
      exact number_fits hd s
  next hd =>
  split at h
  · next hl =>
      cases h
      rw [take_run]
      exact .name hquoted hl (fun b hm => List.all_eq_true.mp List.all_takeWhile b hm)
        fun _ => head?_drop_run isNameByte s
  · next hl =>
      cases h
      refine .illegal hquoted ?_
      simp [isIllegal, hq, hb, hp, hh, hd, hl]

theorem Role.Fits.ne_endOfInput {quoted : Bool} {after t : Text} {kind : Token.Kind}
    (h : (Role.token kind).Fits quoted after t) : kind ≠ .endOfInput := by
  cases h with
  | punctuation hq hp => exact punctuation_ne hp (by decide)
  | name hq hc ht ha => exact nameKind_ne _ (by decide)
  | _ => exact Token.Kind.noConfusion

/-- The spans of pieces that lie one after the other. -/
def spansFrom (start : Nat) : List Piece → List Span
  | [] => []
  | p :: ps => ⟨p.role, start, start + p.text.length⟩ :: spansFrom (start + p.text.length) ps

end Piece

/-- Spans that lie one after the other from a position to the end of a source, each of them
fitting its role. The first of them stands inside quotes or not. -/
inductive Span.Tiles (source : Text) : Bool → Nat → List Span → Prop
  | done {quoted : Bool} : Tiles source quoted source.length []
  | next {quoted : Bool} {start : Nat} {p : Span} {spans : List Span} (hs : p.start = start)
      (hlt : p.start < p.stop) (hle : p.stop ≤ source.length)
      (hf : p.role.Fits quoted (source.drop p.stop) (p.text source))
      (h : Tiles source (quoted != (p.role = .token .quote)) p.stop spans) :
      Tiles source quoted start (p :: spans)

namespace Span.Tiles

variable {source : Text} {quoted : Bool} {start : Nat} {spans : List Span}

theorem start_le (h : Tiles source quoted start spans) {p : Span} (hp : p ∈ spans) :
    start ≤ p.start := by
  induction h with
  | done => cases hp
  | next hs hlt _ _ _ ih =>
      obtain rfl | hp := List.mem_cons.mp hp
      · exact Nat.le_of_eq hs.symm
      · have := ih hp
        omega

theorem ordered (h : Tiles source quoted start spans) :
    spans.Pairwise fun p q => p.stop ≤ q.start := by
  induction h with
  | done => exact .nil
  | next _ _ _ _ h ih => exact List.pairwise_cons.mpr ⟨fun _ hq => h.start_le hq, ih⟩

theorem inside (h : Tiles source quoted start spans) :
    ∀ p ∈ spans, p.start < p.stop ∧ p.stop ≤ source.length := by
  induction h with
  | done => exact fun p hp => absurd hp List.not_mem_nil
  | next _ hlt hle _ _ ih => exact List.forall_mem_cons.mpr ⟨⟨hlt, hle⟩, ih⟩

theorem once (h : Tiles source quoted start spans) {i : Nat} (hi : start ≤ i)
    (hl : i < source.length) : ∃! p, p ∈ spans ∧ p.start ≤ i ∧ i < p.stop := by
  induction h with
  | done => exact absurd hl (Nat.not_lt_of_le hi)
  | @next quoted start p spans hs hlt hle hf h ih =>
      by_cases hp : i < p.stop
      · -- all other spans begin after this one
        refine ⟨p, ⟨List.mem_cons_self .., hs ▸ hi, hp⟩, fun q ⟨hq, hqi, _⟩ => ?_⟩
        obtain rfl | hq := List.mem_cons.mp hq
        · rfl
        · have := h.start_le hq
          omega
      · obtain ⟨q, ⟨hq, hqi⟩, hu⟩ := ih (Nat.le_of_not_lt hp)
        refine ⟨q, ⟨List.mem_cons_of_mem _ hq, hqi⟩, fun r ⟨hr, hri⟩ => ?_⟩
        obtain rfl | hr := List.mem_cons.mp hr
        · exact absurd hri.2 hp
        · exact hu r ⟨hr, hri⟩

theorem fits (h : Tiles source quoted start spans) {before after : List Span} {p : Span}
    (hp : spans = before ++ p :: after) :
    p.role.Fits (quoted != leavesOpen before) (source.drop p.stop) (p.text source) := by
  induction h generalizing before with
  | done => exact absurd hp (by simp)
  | @next quoted start q spans hs hlt hle hf h ih =>
      cases before with
      | nil =>
          cases hp
          simpa [leavesOpen] using hf
      | cons r before =>
          obtain ⟨rfl, hspans⟩ := List.cons.inj hp
          have hq : (quoted != leavesOpen (q :: before)) =
              ((quoted != (q.role = .token .quote : Bool)) != leavesOpen before) := by
            simp only [leavesOpen, List.countP_cons]
            by_cases hr : q.role = .token .quote <;> cases quoted <;> simp [hr] <;> grind
          rw [hq]
          exact ih hspans

end Span.Tiles

namespace Piece

theorem text_between (role : Role) (before t after : Text) :
    Span.text (before ++ (t ++ after)) ⟨role, before.length, before.length + t.length⟩ = t := by
  rw [Span.text, List.drop_left, Nat.add_sub_cancel_left, List.take_left]

/-- The pieces of what follows some bytes tile the rest of a source. -/
theorem tiles (quoted : Bool) (line : Nat) (t before : Text) :
    Span.Tiles (before ++ t) quoted before.length
      (spansFrom before.length (pieces quoted line t)) := by
  fun_induction pieces quoted line t generalizing before with
  | case1 quoted line =>
      rw [List.append_nil]
      exact .done
  | case2 quoted line c rest role n hf ih =>
      have hl : (before ++ c :: rest.take n).length = before.length + (c :: rest.take n).length :=
        List.length_append
      have hs : before ++ c :: rest = before ++ (c :: rest.take n ++ rest.drop n) := by
        rw [List.cons_append, List.take_append_drop]
      have hd : (before ++ c :: rest).drop (before.length + (c :: rest.take n).length) =
          rest.drop n := by
        rw [hs, ← List.append_assoc, ← hl, List.drop_left]
      have ht := text_between role before (c :: rest.take n) (rest.drop n)
      have htail := ih (before ++ c :: rest.take n)
      rw [List.append_assoc, ← hs, hl] at htail
      rw [← hs] at ht
      refine .next rfl ?_ ?_ ?_ htail
      · simp
      · rw [hs, ← List.append_assoc, List.length_append, hl]
        exact Nat.le_add_right _ _
      · rw [hd, ht]
        exact first_fits hf

/-- Nothing of a text is lost by cutting it into pieces. -/
theorem flatten_pieces (quoted : Bool) (line : Nat) (t : Text) :
    ((pieces quoted line t).map text).flatten = t := by
  fun_induction pieces quoted line t with
  | case1 quoted line => rfl
  | case2 quoted line c rest role n hf ih =>
      simp only [dite_eq_ite] at ih
      rw [List.map_cons, List.flatten_cons, ih, List.cons_append, List.take_append_drop]

/-- The spans of pieces are these pieces, on the lines of their first bytes. -/
theorem map_piece_spansFrom (quoted : Bool) (line : Nat) (t before : Text)
    (h : line = 1 + before.count newline) :
    (spansFrom before.length (pieces quoted line t)).map (Span.piece (before ++ t)) =
      pieces quoted line t := by
  fun_induction pieces quoted line t generalizing before with
  | case1 quoted line => rfl
  | case2 quoted line c rest role n hf ih =>
      simp only [dite_eq_ite] at ih
      have hs : before ++ c :: rest = before ++ (c :: rest.take n ++ rest.drop n) := by
        rw [List.cons_append, List.take_append_drop]
      have hstart : Text.lineAt (before ++ c :: rest) before.length = line := by
        rw [Text.lineAt, List.take_left, h]
        rfl
      have ht := text_between role before (c :: rest.take n) (rest.drop n)
      have htail := ih (before ++ c :: rest.take n) (by
        rw [← line_after_first hf, h, List.count_append, Nat.add_assoc])
      rw [List.append_assoc, ← hs, List.length_append] at htail
      rw [← hs] at ht
      rw [spansFrom, List.map_cons, htail, Span.piece, ht, hstart]

theorem cause_error? {p : Piece} {e : ParseError} (h : p.error? = some e) :
    e.cause ≠ .unclosedQuote := by
  rw [error?] at h
  split at h
  · cases h
    exact ParseError.Cause.noConfusion
  · split at h
    · cases h
    · cases h
      exact ParseError.Cause.noConfusion
  · cases h

/-- The errors for illegal bytes are those of the pieces that are illegal. -/
theorem illegal_errors (ps : List Piece) :
    ((ps.filterMap error?).filter (·.cause = .illegalCharacter)).map ParseError.near =
      (ps.filter (·.role = .illegal)).map fun p =>
        .source (p.text.flatMap fun c => String.utf8EncodeChar (Char.ofNat c.toNat)) := by
  induction ps with
  | nil => rfl
  | cons p ps ih =>
      have hp : p.role = .illegal ∨ p.role ≠ .illegal ∧
          ∀ e, p.error? = some e → e.cause ≠ .illegalCharacter := by
        rw [error?]
        split <;> simp_all
      obtain hp | ⟨hp, he⟩ := hp
      · simp [error?, hp, ih]
      · cases h : p.error? with
        | none => simp [h, hp, ih]
        | some e => simp [h, hp, ih, he e h]

end Piece

/-- The kind and the text of what has a role, if it is a token. -/
def Piece.Role.token? (role : Piece.Role) (t : Text) : Option (Token.Kind × Text) :=
  match role with
  | .token kind => some (kind, t)
  | _ => none

namespace Scan

/-- The spans of a source. -/
def spans (source : Text) : List Span := Piece.spansFrom 0 (Piece.pieces false 1 source)

theorem map_piece_spans (source : Text) :
    (spans source).map (Span.piece source) = Piece.pieces false 1 source :=
  Piece.map_piece_spansFrom false 1 source [] rfl

theorem map_spans (source : Text) :
    (spans source).map (fun p => (p.role, p.text source)) =
      (Piece.pieces false 1 source).map fun p => (p.role, p.text) := by
  rw [← map_piece_spans, List.map_map]
  rfl

theorem tokens_ofSource (source : Text) :
    (ofSource source).tokens.map (fun t => (t.kind, t.lexeme)) =
      (spans source).filterMap (Span.token? source) := by
  have hs : Span.token? source =
      (fun q => Piece.Role.token? q.1 q.2) ∘ fun p : Span => (p.role, p.text source) := by
    funext p
    cases hr : p.role <;> simp [Span.token?, Piece.Role.token?, hr]
  have hp (p : Piece) :
      p.token?.map (fun t => (t.kind, t.lexeme)) = Piece.Role.token? p.role p.text := by
    cases hr : p.role <;> simp [Piece.token?, Piece.Role.token?, hr]
  rw [hs, ← List.filterMap_map, map_spans, List.filterMap_map, ofSource, List.map_filterMap]
  exact congrArg (List.filterMap · (Piece.pieces false 1 source)) (funext hp)

/-- Each token fits its kind where it stands. -/
theorem fits_of_mem_ofSource {source : Text} {t : Token} (h : t ∈ (ofSource source).tokens) :
    ∃ quoted after, (Piece.Role.token t.kind).Fits quoted after t.lexeme := by
  have hm : (t.kind, t.lexeme) ∈ (spans source).filterMap (Span.token? source) :=
    tokens_ofSource source ▸ List.mem_map_of_mem h
  obtain ⟨p, hp, ht⟩ := List.mem_filterMap.mp hm
  obtain ⟨before, after, hs⟩ := List.append_of_mem hp
  have hf := (Piece.tiles false 1 source []).fits hs
  rw [Span.token?] at ht
  split at ht
  · next kind hr =>
      obtain ⟨hk, hl⟩ := Prod.mk.inj (Option.some.inj ht)
      rw [hr, hk] at hf
      exact ⟨_, _, hl ▸ hf⟩
  · cases ht

theorem kind_of_mem_ofSource {source : Text} {t : Token} (h : t ∈ (ofSource source).tokens) :
    t.kind ≠ .endOfInput := by
  obtain ⟨quoted, after, hf⟩ := fits_of_mem_ofSource h
  exact hf.ne_endOfInput

/-- The illegal bytes are told in order, and a quote that is left open comes after them. -/
theorem illegal_ofSource (source : Text) :
    ((ofSource source).errors.filter (·.cause = .illegalCharacter)).map ParseError.near =
      ((spans source).filter (·.role = .illegal)).map fun p =>
        .source ((p.text source).flatMap fun c => String.utf8EncodeChar (Char.ofNat c.toNat)) := by
  let near (x : Piece.Role × Text) : ParseError.Near :=
    .source (x.2.flatMap fun c => String.utf8EncodeChar (Char.ofNat c.toNat))
  have hs := congrArg (fun l => (l.filter (·.1 = Piece.Role.illegal)).map near) (map_spans source)
  simp only [List.filter_map, List.map_map, Function.comp_def] at hs
  have hu : (if leavesOpen (ofSource source).tokens then
      [(⟨(ofSource source).endLine, .unclosedQuote, .nothing⟩ : ParseError)] else []).filter
        (·.cause = .illegalCharacter) = [] := by
    split <;> rfl
  have he : (ofSource source).errors = (Piece.pieces false 1 source).filterMap Piece.error? ++
      if leavesOpen (ofSource source).tokens then
        [⟨(ofSource source).endLine, .unclosedQuote, .nothing⟩] else [] := rfl
  rw [he, List.filter_append, hu, List.append_nil, Piece.illegal_errors]
  exact hs.symm

/-- Every byte of a source is accounted for by its scan. -/
theorem ofSource_accounts (source : Text) :
    ∃ spans, Accounts source (ofSource source) spans := by
  have h : Span.Tiles source false 0 (spans source) := Piece.tiles false 1 source []
  refine ⟨spans source, h.ordered, h.inside, fun i hi => h.once (Nat.zero_le i) hi, ?_,
    tokens_ofSource source, ⟨rfl, fun t ht => kind_of_mem_ofSource ht⟩, illegal_ofSource source,
    (Piece.pieces false 1 source).filterMap Piece.error?, ?_, ?_⟩
  · intro before p after hp
    simpa using h.fits hp
  · intro e he
    obtain ⟨p, -, hp⟩ := List.mem_filterMap.mp he
    exact Piece.cause_error? hp
  · have hc : (ofSource source).withEnd.countP (·.kind = .quote) =
        (ofSource source).tokens.countP (·.kind = .quote) := by
      rw [withEnd, List.countP_append]
      rfl
    simp only [hc]
    simp only [ofSource, leavesOpen, decide_eq_true_eq]

end Scan

end Scripting
