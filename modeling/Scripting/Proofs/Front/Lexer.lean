import Scripting.Proofs.Front.Walk
import Scripting.Proofs.Token.Spans

/-!
Scanning a source by positions in it. A lexer has a place in the source and reaches for the
byte there; nothing keeps it from reaching beyond the end, except the way it goes. It never
does so, it comes to the end of the source, and it has then found the tokens and the errors of
the pieces of the source.
-/

namespace Scripting

/-- What a token carries beside its text. -/
inductive Literal where
  | none
  | number (value : Number)
  | text (value : Text)

/-- A token with what it carries. -/
structure Emitted where
  token : Token
  literal : Literal

/-- Numbers carry their values and words their texts. -/
def Emitted.of (t : Token) : Emitted where
  token := t
  literal := match t.kind with
    | .number => .number (Number.ofLiteral t.lexeme)
    | .word => .text t.lexeme
    | _ => .none

@[simp] theorem Emitted.token_of (t : Token) : (Emitted.of t).token = t :=
  rfl

theorem Emitted.of_plain {t : Token} (hn : t.kind ≠ .number) (hw : t.kind ≠ .word) :
    Emitted.of t = ⟨t, .none⟩ := by
  rw [Emitted.of]
  split
  · contradiction
  · contradiction
  · rfl

/-- The place of a lexer: where the token begins that it is at, where it is, on which line and
inside quotes or not, and what it has found. -/
structure Lexer where
  start : Nat := 0
  current : Nat := 0
  line : Nat := 1
  quoted : Bool := false
  tokens : List Emitted := []
  errors : List ParseError := []

namespace Lexer

open Walk (look change demand)
open Piece (hash isBlank isLetter isNameByte isWordByte nameKind newline point punctuation?
  quoteByte)
open Number (isDigit)

variable (source : Text)

def isAtEnd : Walk Lexer Bool := look fun l => decide (source.length ≤ l.current)

def advance : Walk Lexer UInt8 := do
  let c ← demand source[← look current]?
  change fun l => { l with current := l.current + 1 }
  return c

/-- The byte at the place, or zero at the end. -/
def peek : Walk Lexer UInt8 := do
  if ← isAtEnd source then return 0
  else demand source[← look current]?

def peekNext : Walk Lexer UInt8 := do
  let next ← look (·.current + 1)
  if source.length ≤ next then return 0
  else demand source[next]?

/-- The bytes from the beginning of the token on. -/
def lexeme : Walk Lexer Text := do
  let start ← look start
  let stop ← look current
  demand (if start ≤ stop ∧ stop ≤ source.length
    then some ((source.drop start).take (stop - start)) else none)

def emit (kind : Token.Kind) (literal : Literal) : Walk Lexer Unit := do
  let text ← lexeme source
  change fun l => { l with tokens := l.tokens ++ [⟨⟨kind, text, l.line⟩, literal⟩] }

def report (cause : ParseError.Cause) (near : ParseError.Near) : Walk Lexer Unit :=
  change fun l => { l with errors := l.errors ++ [⟨l.line, cause, near⟩] }

def nextLine : Walk Lexer Unit := change fun l => { l with line := l.line + 1 }

/-- Goes on as long as bytes satisfy a test. -/
def skip (test : UInt8 → Bool) : (fuel : Nat) → Walk Lexer Unit
  | 0 => Walk.exhausted
  | fuel + 1 => do
    if ← isAtEnd source then return ()
    else if test (← peek source) then
      let _ ← advance source
      skip test fuel
    else return ()

def word (fuel : Nat) : Walk Lexer Unit := do
  skip source isWordByte fuel
  let text ← lexeme source
  emit source .word (.text text)

/-- Goes over a point and the digits after it, if there is one with a digit after it. -/
def fraction (fuel : Nat) : Walk Lexer Unit := do
  if (← peek source) = point then
    if isDigit (← peekNext source) then
      let _ ← advance source
      skip source isDigit fuel
    else return ()
  else return ()

def number (fuel : Nat) : Walk Lexer Unit := do
  skip source isDigit fuel
  fraction source fuel
  let text ← lexeme source
  let value := Number.ofLiteral text
  if value.isFinite then emit source .number (.number value)
  else
    report .invalidNumber (.source text)
    emit source .number (.number value)

def identifier (fuel : Nat) : Walk Lexer Unit := do
  skip source isNameByte fuel
  let text ← lexeme source
  emit source (nameKind text) .none

/-- Scans what begins with a byte between quotes. -/
def scanQuoted (c : UInt8) (fuel : Nat) : Walk Lexer Unit :=
  if c = newline then nextLine
  else if isBlank c then return ()
  else word source fuel

/-- Scans what begins with a quote, or with a byte outside quotes. -/
def scanPlain (c : UInt8) (fuel : Nat) : Walk Lexer Unit :=
  match punctuation? c with
  | some kind => emit source kind .none
  | none =>
    if c = quoteByte then do
      change fun l => { l with quoted := !l.quoted }
      emit source .quote .none
    else if c = hash then skip source (· != newline) fuel
    else if c = newline then nextLine
    else if isBlank c then return ()
    else if isDigit c then number source fuel
    else if isLetter c then identifier source fuel
    else report .illegalCharacter (.source (String.utf8EncodeChar (Char.ofNat c.toNat)))

/-- Scans what begins with the next byte. -/
def scanToken (fuel : Nat) : Walk Lexer Unit := do
  let c ← advance source
  if (← look quoted) && c != quoteByte then scanQuoted source c fuel
  else scanPlain source c fuel

def scanTokens : (fuel : Nat) → Walk Lexer Unit
  | 0 => Walk.exhausted
  | fuel + 1 => do
    if ← isAtEnd source then return ()
    else
      change fun l => { l with start := l.current }
      scanToken source fuel
      scanTokens fuel

/-- A quote that is left open is an error. -/
def close : Walk Lexer Unit := do
  if ← look quoted then report .unclosedQuote .nothing
  else return ()

/-- Scans a source to its end, which is a token too. -/
def scan (fuel : Nat) : Walk Lexer Unit := do
  scanTokens source fuel
  close
  change fun l => { l with start := l.current }
  emit source .endOfInput .none

variable {source} {l : Lexer} {c : UInt8} {rest : Text} {fuel : Nat}

theorem isAtEnd_eq (h : Ahead source l.current rest) : isAtEnd source l = .done rest.isEmpty l := by
  have hl := h.length_eq
  have hd : decide (source.length ≤ l.current) = rest.isEmpty := by
    cases rest with
    | nil => simpa using Nat.le_of_eq hl.symm
    | cons c rest =>
        rw [List.length_cons] at hl
        simpa using (by omega : l.current < source.length)
  rw [← hd]
  rfl

theorem advance_eq (h : Ahead source l.current (c :: rest)) :
    advance source l = .done c { l with current := l.current + 1 } := by
  simp only [advance, Bind.bind, Walk.bind, look, h.get, demand]
  rfl

theorem peek_cons (h : Ahead source l.current (c :: rest)) : peek source l = .done c l := by
  rw [peek, Walk.bind_done (isAtEnd_eq h)]
  simp only [List.isEmpty_cons, Bool.false_eq_true, if_false, Bind.bind, Walk.bind, look, h.get,
    demand]
  rfl

theorem peek_nil (h : Ahead source l.current []) : peek source l = .done 0 l := by
  rw [peek, Walk.bind_done (isAtEnd_eq h)]
  rfl

theorem peekNext_cons {d : UInt8} (h : Ahead source l.current (c :: d :: rest)) :
    peekNext source l = .done d l := by
  have hl := h.next.length_eq
  have hn : ¬ source.length ≤ l.current + 1 := by
    rw [List.length_cons] at hl
    omega
  simp only [peekNext, Bind.bind, Walk.bind, look, if_neg hn, h.next.get, demand]
  rfl

theorem peekNext_nil (h : Ahead source l.current [c]) : peekNext source l = .done 0 l := by
  have hl : source.length ≤ l.current + 1 := Nat.le_of_eq h.length_eq.symm
  simp only [peekNext, Bind.bind, Walk.bind, look, if_pos hl]
  rfl

theorem skip_eq (test : UInt8 → Bool) (h : Ahead source l.current rest)
    (hf : rest.length < fuel) :
    skip source test fuel l = .done () { l with current := l.current + Piece.run test rest } := by
  induction fuel generalizing l rest with
  | zero => exact absurd hf (Nat.not_lt_zero _)
  | succ fuel ih =>
      rw [skip, Walk.bind_done (isAtEnd_eq h)]
      cases rest with
      | nil => rfl
      | cons c rest =>
          simp only [List.isEmpty_cons, Bool.false_eq_true, if_false]
          rw [Walk.bind_done (peek_cons h), Piece.run, List.takeWhile_cons]
          split
          · have hs := ih (l := { l with current := l.current + 1 }) h.next
              (Nat.lt_of_succ_lt_succ hf)
            rw [Walk.bind_done (advance_eq h), hs, List.length_cons, Piece.run, Nat.add_assoc,
              Nat.add_comm 1]
          · rfl

/-- The bytes of a token that has begun. -/
theorem lexeme_eq (h : Ahead source l.start (c :: rest)) {n : Nat} (hn : n ≤ rest.length)
    (hc : l.current = l.start + 1 + n) : lexeme source l = .done (c :: rest.take n) l := by
  have hl := h.length_eq
  have hb : l.start ≤ l.current ∧ l.current ≤ source.length := by
    rw [List.length_cons] at hl
    omega
  have ht : (source.drop l.start).take (l.current - l.start) = c :: rest.take n := by
    rw [h.2, hc, Nat.add_assoc, Nat.add_sub_cancel_left, Nat.add_comm, List.take_succ_cons]
  simp only [lexeme, Bind.bind, Walk.bind, look, if_pos hb, demand, ht]
  rfl

theorem emit_eq (h : Ahead source l.start (c :: rest)) {n : Nat} (hn : n ≤ rest.length)
    (hc : l.current = l.start + 1 + n) (kind : Token.Kind) (literal : Literal) :
    emit source kind literal l = .done ()
      { l with tokens := l.tokens ++ [⟨⟨kind, c :: rest.take n, l.line⟩, literal⟩] } := by
  rw [emit, Walk.bind_done (lexeme_eq h hn hc)]
  rfl

/-- The token at the end has no bytes. -/
theorem emit_end (hs : l.start = source.length) (hc : l.current = source.length)
    (kind : Token.Kind) (literal : Literal) :
    emit source kind literal l = .done ()
      { l with tokens := l.tokens ++ [⟨⟨kind, [], l.line⟩, literal⟩] } := by
  have hb : source.length ≤ source.length ∧ source.length ≤ source.length :=
    ⟨Nat.le_refl _, Nat.le_refl _⟩
  have hx : lexeme source l = .done [] l := by
    simp only [lexeme, Bind.bind, Walk.bind, look, hs, hc, if_pos hb, Nat.sub_self, List.take_zero,
      demand]
    rfl
  rw [emit, Walk.bind_done hx]
  rfl

theorem report_eq (cause : ParseError.Cause) (near : ParseError.Near) (l : Lexer) :
    report cause near l = .done () { l with errors := l.errors ++ [⟨l.line, cause, near⟩] } :=
  rfl

/-- How many bytes a point and the digits after it are. -/
def fractionRun : Text → Nat
  | c :: d :: more => if c = point && isDigit d then 2 + Piece.run isDigit more else 0
  | _ => 0

theorem numberRun_eq (s : Text) :
    Piece.numberRun s =
      Piece.run isDigit s + fractionRun (s.drop (Piece.run isDigit s)) := by
  rw [Piece.numberRun, fractionRun.eq_def]
  cases s.drop (Piece.run isDigit s) with
  | nil => rfl
  | cons c s =>
      cases s with
      | nil => rfl
      | cons d more =>
          dsimp only
          split <;> omega

theorem fraction_eq (h : Ahead source l.current rest) (hf : rest.length < fuel) :
    fraction source fuel l = .done () { l with current := l.current + fractionRun rest } := by
  cases rest with
  | nil =>
      rw [fraction, Walk.bind_done (peek_nil h)]
      rfl
  | cons c rest =>
      rw [fraction, Walk.bind_done (peek_cons h)]
      by_cases hc : c = point
      · rw [if_pos hc]
        cases rest with
        | nil =>
            rw [Walk.bind_done (peekNext_nil h)]
            rfl
        | cons d more =>
            rw [Walk.bind_done (peekNext_cons h), fractionRun, hc]
            by_cases hd : isDigit d = true
            · have hs := skip_eq (l := { l with current := l.current + 1 }) isDigit h.next
                (Nat.lt_of_succ_lt hf)
              have hr : Piece.run isDigit (d :: more) = 1 + Piece.run isDigit more := by
                rw [Piece.run, List.takeWhile_cons_of_pos hd, List.length_cons, Piece.run,
                  Nat.add_comm]
              simp only [hd, if_true, decide_true, Bool.and_self]
              rw [Walk.bind_done (advance_eq h), hs, hr, Nat.add_assoc, ← Nat.add_assoc 1]
            · simp only [hd, Bool.and_false, Bool.false_eq_true, if_false]
              rfl
      · have hr : fractionRun (c :: rest) = 0 := by
          cases rest <;> simp [fractionRun, hc]
        rw [if_neg hc, hr]
        rfl

/-- The state of a lexer after a piece that it has come over. -/
def passed (l : Lexer) (p : Piece) : Lexer where
  start := l.current
  current := l.current + p.text.length
  line := l.line + p.text.count newline
  quoted := l.quoted != (p.role = .token .quote)
  tokens := l.tokens ++ (p.token?.map Emitted.of).toList
  errors := l.errors ++ p.error?.toList

section
variable (h : Ahead source l.start (c :: rest)) (hc : l.current = l.start + 1)
include h hc

/-- The bytes of a token that has begun, `n` bytes after its first. -/
theorem lexeme_begun {n : Nat} (hn : n ≤ rest.length) :
    lexeme source { l with current := l.current + n } =
      .done (c :: rest.take n) { l with current := l.current + n } :=
  lexeme_eq (l := { l with current := l.current + n }) h hn (by simp only [hc])

variable (hf : rest.length < fuel)
include hf

theorem number_eq :
    number source fuel l = .done ()
      { l with
        current := l.current + Piece.numberRun rest
        tokens := l.tokens ++
          [Emitted.of ⟨.number, c :: rest.take (Piece.numberRun rest), l.line⟩]
        errors := l.errors ++
          (Piece.error?
            ⟨.token .number, c :: rest.take (Piece.numberRun rest), l.line⟩).toList } := by
  have hr : Ahead source l.current rest := hc ▸ h.next
  have hd := hr.drop (Piece.run_le isDigit rest)
  have hl : (rest.drop (Piece.run isDigit rest)).length < fuel := by
    rw [List.length_drop]
    omega
  rw [number, Walk.bind_done (skip_eq isDigit hr hf), Walk.bind_done (fraction_eq hd hl)]
  have hn := Piece.numberRun_le rest
  simp only [Nat.add_assoc, ← numberRun_eq]
  rw [Walk.bind_done (lexeme_begun h hc hn)]
  have he := fun s hs => emit_eq (l := { l with
    current := l.current + Piece.numberRun rest, errors := s }) h hn hs
  by_cases hv : (Number.ofLiteral (c :: rest.take (Piece.numberRun rest))).isFinite = true
  · rw [if_pos hv, he _ (by simp only [hc])]
    simp only [Piece.error?, if_pos hv, Option.toList_none, List.append_nil, Emitted.of]
  · rw [if_neg hv, Walk.bind_done (report_eq ..), he _ (by simp only [hc])]
    simp only [Piece.error?, if_neg hv, Option.toList_some, Emitted.of]

theorem word_eq :
    word source fuel l = .done ()
      { l with
        current := l.current + Piece.run isWordByte rest
        tokens := l.tokens ++
          [Emitted.of ⟨.word, c :: rest.take (Piece.run isWordByte rest), l.line⟩] } := by
  have hr : Ahead source l.current rest := hc ▸ h.next
  have hx := lexeme_begun h hc (Piece.run_le isWordByte rest)
  rw [word, Walk.bind_done (skip_eq isWordByte hr hf), Walk.bind_done hx, emit, Walk.bind_done hx]
  rfl

theorem identifier_eq :
    identifier source fuel l = .done ()
      { l with
        current := l.current + Piece.run isNameByte rest
        tokens := l.tokens ++ [Emitted.of ⟨nameKind (c :: rest.takeWhile isNameByte),
          c :: rest.take (Piece.run isNameByte rest), l.line⟩] } := by
  have hr : Ahead source l.current rest := hc ▸ h.next
  have hx := lexeme_begun h hc (Piece.run_le isNameByte rest)
  rw [identifier, Walk.bind_done (skip_eq isNameByte hr hf), Walk.bind_done hx, emit,
    Walk.bind_done hx, Piece.take_run,
    Emitted.of_plain (Piece.nameKind_ne _ (by decide)) (Piece.nameKind_ne _ (by decide))]
  rfl

end

/-- The state after the piece at the place, with its lines and its length counted. -/
theorem passed_first {role : Piece.Role} {n : Nat}
    (hf : Piece.first l.quoted c rest = (role, n)) :
    l.passed ⟨role, c :: rest.take n, l.line⟩ =
      { start := l.current
        current := l.current + 1 + n
        line := if c = newline then l.line + 1 else l.line
        quoted := l.quoted != (role = .token .quote)
        tokens := l.tokens ++
          ((Piece.token? ⟨role, c :: rest.take n, l.line⟩).map Emitted.of).toList
        errors := l.errors ++ (Piece.error? ⟨role, c :: rest.take n, l.line⟩).toList } := by
  have hle : n ≤ rest.length := by simpa [hf] using Piece.first_le l.quoted c rest
  have hlen : (c :: rest.take n).length = 1 + n := by
    rw [List.length_cons, List.length_take_of_le hle, Nat.add_comm]
  simp only [passed, hlen, Piece.line_after_first hf, Nat.add_assoc]

theorem error?_token {kind : Token.Kind} (h : kind ≠ .number) (t : Text) (line : Nat) :
    Piece.error? ⟨.token kind, t, line⟩ = none := by
  simp only [Piece.error?]
  split
  · next he => cases he
  · next he => exact absurd (Piece.Role.token.inj he) h
  · rfl

theorem blank_facts {c : UInt8} (h : isBlank c = true) : punctuation? c = none ∧ c ≠ hash := by
  simp only [isBlank, Bool.or_eq_true, decide_eq_true_eq] at h
  obtain ((rfl | rfl) | rfl) | rfl := h <;> decide

/-- The lexer after the first byte of a token. -/
def begun (l : Lexer) : Lexer := { l with start := l.current, current := l.current + 1 }

/-- Of blanks only the end of a line leaves a trace. -/
theorem blank_eq (hb : isBlank c = true) (x : Walk Lexer Unit) (l : Lexer) :
    (if c = newline then nextLine else if isBlank c then Pure.pure () else x) l =
      .done () { l with line := if c = newline then l.line + 1 else l.line } := by
  by_cases hc : c = newline
  · rw [if_pos hc, if_pos hc]
    rfl
  · rw [if_neg hc, if_pos hb, if_neg hc]
    rfl

section
variable (h : Ahead source l.current (c :: rest)) (hf : rest.length < fuel) {role : Piece.Role}
  {n : Nat} (hp : Piece.first l.quoted c rest = (role, n))
include h hf hp

theorem scanQuoted_eq (hquoted : l.quoted = true) (hq : c ≠ quoteByte) :
    scanQuoted source c fuel l.begun = .done () (l.passed ⟨role, c :: rest.take n, l.line⟩) := by
  rw [passed_first hp, scanQuoted]
  rw [Piece.first, if_neg hq] at hp
  split at hp
  · next hb =>
      cases hp
      rw [blank_eq hb]
      simp [begun, Piece.token?, Piece.error?]
  · next hb =>
      cases hp
      have hc : c ≠ newline := by
        rintro rfl
        exact hb rfl
      rw [if_neg hc, if_neg hb, word_eq (l := l.begun) h rfl hf]
      simp [hc, begun, Piece.token?, Piece.error?]

theorem scanPlain_eq (hq : c = quoteByte ∨ l.quoted = false) :
    scanPlain source c fuel l.begun = .done () (l.passed ⟨role, c :: rest.take n, l.line⟩) := by
  rw [passed_first hp, scanPlain]
  rw [Piece.first] at hp
  split at hp
  · next hq =>
      cases hp
      subst hq
      have hn : punctuation? quoteByte = none := rfl
      have hc : quoteByte ≠ newline := by decide
      have he := emit_eq (l := { l.begun with quoted := !l.quoted }) h (Nat.zero_le _) rfl
      simp only [hn, if_true]
      rw [Walk.bind_done (Walk.change_eq ..)]
      refine (he .quote .none).trans ?_
      simp [hc, begun, Piece.token?, Piece.error?, Emitted.of_plain]
  next hne =>
  have hquoted : ¬ l.quoted = true := Bool.eq_false_iff.mp (hq.resolve_left hne)
  split at hp
  · next hb =>
      cases hp
      obtain ⟨hn, hh⟩ := blank_facts hb
      simp only [hn, if_neg hne, if_neg hh]
      rw [blank_eq hb]
      simp [begun, Piece.token?, Piece.error?]
  next hb =>
  have hc : c ≠ newline := by
    rintro rfl
    exact hb rfl
  split at hp
  · next kind hk =>
      cases hp
      have hnumber : kind ≠ .number := Piece.punctuation_ne hk (by decide)
      have hword : kind ≠ .word := Piece.punctuation_ne hk (by decide)
      have hquote : kind ≠ .quote := Piece.punctuation_ne hk (by decide)
      have ho := Emitted.of_plain (t := ⟨kind, [c], l.line⟩) hnumber hword
      simp only [hk]
      rw [emit_eq (l := l.begun) h (Nat.zero_le _) rfl]
      simp [hc, begun, Piece.token?, error?_token hnumber, hquote, ho]
  next hk =>
  simp only [hk, hne, hc, hb, if_false, Bool.false_eq_true]
  split at hp
  · next hh =>
      cases hp
      rw [if_pos hh, skip_eq (l := l.begun) _ h.next hf]
      simp [begun, Piece.token?, Piece.error?]
  next hh =>
  rw [if_neg hh]
  split at hp
  · next hd =>
      cases hp
      rw [if_pos hd, number_eq (l := l.begun) h rfl hf]
      simp [begun, Piece.token?]
  next hd =>
  rw [if_neg hd]
  split at hp
  · next hl =>
      cases hp
      have hnumber : nameKind (c :: rest.takeWhile isNameByte) ≠ .number :=
        Piece.nameKind_ne _ (by decide)
      have hquote : nameKind (c :: rest.takeWhile isNameByte) ≠ .quote :=
        Piece.nameKind_ne _ (by decide)
      rw [if_pos hl, identifier_eq (l := l.begun) h rfl hf]
      simp [begun, Piece.token?, error?_token hnumber, hquote]
  · next hl =>
      cases hp
      rw [if_neg hl, report_eq]
      simp [begun, Piece.token?, Piece.error?]

/-- One step of the lexer is one piece of the source. -/
theorem scanToken_eq :
    scanToken source fuel { l with start := l.current } =
      .done () (l.passed ⟨role, c :: rest.take n, l.line⟩) := by
  rw [scanToken, Walk.bind_done (advance_eq (l := { l with start := l.current }) h),
    Walk.bind_done (Walk.look_eq ..)]
  by_cases hq : l.quoted = true ∧ c ≠ quoteByte
  · have hy : (l.quoted && c != quoteByte) = true := by simpa using hq
    rw [if_pos hy]
    exact scanQuoted_eq h hf hp hq.1 hq.2
  · have hs : c = quoteByte ∨ l.quoted = false := by
      by_cases hc : c = quoteByte
      · exact .inl hc
      · exact .inr (Bool.eq_false_iff.mpr fun hl => hq ⟨hl, hc⟩)
    have hn : ¬ (l.quoted && c != quoteByte) = true := by simpa using hq
    rw [if_neg hn]
    exact scanPlain_eq h hf hp hs

end

/-- The lexer comes to the end over one piece after the other. -/
theorem scanTokens_eq (h : Ahead source l.current rest) (hf : rest.length < fuel) :
    scanTokens source fuel l = .done () ((Piece.pieces l.quoted l.line rest).foldl passed l) := by
  induction fuel generalizing l rest with
  | zero => exact absurd hf (Nat.not_lt_zero _)
  | succ fuel ih =>
      rw [scanTokens, Walk.bind_done (isAtEnd_eq h)]
      cases rest with
      | nil =>
          rw [Piece.pieces]
          rfl
      | cons c rest =>
          obtain ⟨⟨role, n⟩, hp⟩ : ∃ p, Piece.first l.quoted c rest = p := ⟨_, rfl⟩
          have hr : rest.length < fuel := Nat.lt_of_succ_lt_succ hf
          have hle : n ≤ rest.length := by simpa [hp] using Piece.first_le l.quoted c rest
          have hl : (rest.drop n).length < fuel := by
            rw [List.length_drop]
            omega
          have hs := passed_first hp
          have ha : Ahead source (l.passed ⟨role, c :: rest.take n, l.line⟩).current
              (rest.drop n) := by
            rw [hs]
            exact h.next.drop hle
          simp only [List.isEmpty_cons, Bool.false_eq_true, if_false]
          rw [Walk.bind_done (Walk.change_eq ..), Walk.bind_done (scanToken_eq h hr hp),
            ih ha hl, Piece.pieces, hp]
          simp only [List.foldl_cons, hs]

theorem foldl_passed (ps : List Piece) (l : Lexer) :
    ∃ start, ps.foldl passed l =
      { start
        current := l.current + (ps.map Piece.text).flatten.length
        line := l.line + (ps.map Piece.text).flatten.count newline
        quoted := Piece.quotedAfter l.quoted ps
        tokens := l.tokens ++ (ps.filterMap Piece.token?).map Emitted.of
        errors := l.errors ++ ps.filterMap Piece.error? } := by
  induction ps generalizing l with
  | nil => exact ⟨l.start, by simp [Piece.quotedAfter, Scan.leavesOpen]⟩
  | cons p ps ih =>
      obtain ⟨start, hs⟩ := ih (l.passed p)
      refine ⟨start, ?_⟩
      rw [List.foldl_cons, hs]
      simp only [passed, Piece.quotedAfter_cons, List.map_cons, List.flatten_cons,
        List.length_append, List.count_append, Nat.add_assoc, List.append_assoc]
      cases ht : p.token? <;> cases he : p.error? <;> simp [ht, he]

theorem close_eq (l : Lexer) :
    close l = .done () { l with errors := l.errors ++
      if l.quoted then [⟨l.line, .unclosedQuote, .nothing⟩] else [] } := by
  rw [close, Walk.bind_done (Walk.look_eq ..)]
  split
  · rfl
  · rw [List.append_nil]
    rfl

/-- The lexer at the end of a source, with all its tokens and errors. -/
def scanned (source : Text) : Lexer where
  start := source.length
  current := source.length
  line := (Scan.ofSource source).endLine
  quoted := Scan.leavesOpen (Scan.ofSource source).tokens
  tokens := (Scan.ofSource source).withEnd.map Emitted.of
  errors := (Scan.ofSource source).errors

theorem length_scanned (source : Text) :
    (scanned source).tokens.length = (Scan.ofSource source).tokens.length + 1 := by
  simp only [scanned, Scan.withEnd, List.length_map, List.length_append, List.length_singleton]

/-- The lexer comes to the end of every source. -/
theorem scan_eq (source : Text) (hf : source.length < fuel) :
    scan source fuel {} = .done () (scanned source) := by
  have h : Ahead source ({} : Lexer).current source := ⟨Nat.zero_le _, rfl⟩
  obtain ⟨start, hs⟩ := foldl_passed (Piece.pieces false 1 source) {}
  rw [Piece.flatten_pieces] at hs
  simp only [Nat.zero_add, List.nil_append] at hs
  have hq : Piece.quotedAfter false (Piece.pieces false 1 source) =
      Scan.leavesOpen (Scan.ofSource source).tokens := Bool.false_bne _
  rw [hq] at hs
  rw [scan, Walk.bind_done (scanTokens_eq h hf), hs, Walk.bind_done (close_eq _),
    Walk.bind_done (Walk.change_eq ..), emit_end rfl rfl]
  rw [scanned, Scan.withEnd, List.map_append]
  rfl

end Lexer

end Scripting
