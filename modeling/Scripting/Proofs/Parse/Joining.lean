import Scripting.Proofs.Grammar.Lines
import Scripting.Proofs.Grammar.Soundness
import Scripting.Proofs.Parse.Extension

/-!
Two sources with a line feed between them. If both can be read, and the second one does
not go on with the last statement of the first, then both together are read as the
statements of the first and those of the second, these on later lines.
-/

namespace Scripting.Piece

/-- A piece as it is found further down. -/
def lower (k : Nat) (p : Piece) : Piece := { p with line := p.line + k }

theorem pieces_lower (k : Nat) (quoted : Bool) (line : Nat) (t : Text) :
    pieces quoted (line + k) t = (pieces quoted line t).map (lower k) := by
  fun_induction pieces quoted line t with
  | case1 quoted line => rw [pieces, List.map_nil]
  | case2 quoted line c rest role length hf ih =>
      have hl : (if c = newline then line + k + 1 else line + k) =
          (if c = newline then line + 1 else line) + k := by
        split <;> omega
      simp only [dite_eq_ite] at ih
      rw [pieces, hf, List.map_cons, ← ih, ← hl]
      rfl

theorem token?_lower (k : Nat) (p : Piece) :
    (p.lower k).token? = p.token?.map (Token.mapLine (· + k)) := by
  obtain ⟨role, text, line⟩ := p
  cases role <;> rfl

theorem error?_lower (k : Nat) (p : Piece) :
    (p.lower k).error? = p.error?.map fun e => { e with line := e.line + k } := by
  obtain ⟨role, text, line⟩ := p
  cases role with
  | token kind =>
      cases kind with
      | number =>
          by_cases hf : (Number.ofLiteral text).isFinite = true <;> simp [error?, lower, hf]
      | _ => rfl
  | _ => rfl

end Scripting.Piece

namespace Scripting.Scan

open Piece (newline)

theorem leavesOpen_append (ts us : List Token) :
    leavesOpen (ts ++ us) = (leavesOpen ts != leavesOpen us) := by
  induction ts with
  | nil => rw [List.nil_append]; exact (Bool.false_bne _).symm
  | cons t ts ih =>
      rw [List.cons_append, Piece.leavesOpen_cons, Piece.leavesOpen_cons, ih, Bool.bne_assoc]

theorem leavesOpen_mapLine (f : Nat → Nat) (ts : List Token) :
    leavesOpen (ts.map (Token.mapLine f)) = leavesOpen ts := by
  rw [leavesOpen, leavesOpen, List.countP_map]
  rfl

theorem ofSource_no_errors {s : Text} (h : (ofSource s).errors = []) :
    (Piece.pieces false 1 s).filterMap Piece.error? = [] ∧
      leavesOpen (ofSource s).tokens = false := by
  obtain ⟨hp, ho⟩ := List.append_eq_nil_iff.mp h
  refine ⟨hp, ?_⟩
  split at ho
  · cases ho
  · next hc => exact Bool.eq_false_iff.mpr hc

variable {a b : Text}

theorem pieces_newline_of_no_errors (ha : (ofSource a).errors = []) (b : Text) :
    Piece.pieces false 1 (a ++ newline :: b) =
      Piece.pieces false 1 a ++ ⟨.blank, [newline], 1 + a.count newline⟩ ::
        (Piece.pieces false 1 b).map (Piece.lower (a.count newline + 1)) := by
  have hq : Piece.quotedAfter false (Piece.pieces false 1 a) = false := by
    rw [Piece.quotedAfter, Bool.false_bne]
    exact (ofSource_no_errors ha).2
  rw [Piece.pieces_newline, hq, Nat.add_assoc, Piece.pieces_lower]

theorem tokens_newline (ha : (ofSource a).errors = []) (b : Text) :
    (ofSource (a ++ newline :: b)).tokens =
      (ofSource a).tokens ++
        (ofSource b).tokens.map (Token.mapLine (· + (a.count newline + 1))) := by
  have ht (k : Nat) : Piece.token? ∘ Piece.lower k =
      fun p => p.token?.map (Token.mapLine (· + k)) := funext (Piece.token?_lower k)
  simp only [ofSource]
  rw [pieces_newline_of_no_errors ha, List.filterMap_append, List.filterMap_cons_none rfl,
    List.filterMap_map, ht, List.map_filterMap]

theorem errors_newline (ha : (ofSource a).errors = []) (hb : (ofSource b).errors = []) :
    (ofSource (a ++ newline :: b)).errors = [] := by
  have he (k : Nat) : Piece.error? ∘ Piece.lower k =
      fun p => p.error?.map fun e => { e with line := e.line + k } :=
    funext (Piece.error?_lower k)
  have ho : leavesOpen (ofSource (a ++ newline :: b)).tokens = false := by
    rw [tokens_newline ha, leavesOpen_append, leavesOpen_mapLine, (ofSource_no_errors ha).2,
      (ofSource_no_errors hb).2]
    rfl
  have hp : (Piece.pieces false 1 (a ++ newline :: b)).filterMap Piece.error? = [] := by
    rw [pieces_newline_of_no_errors ha, List.filterMap_append, List.filterMap_cons_none rfl,
      List.filterMap_map, he, ← List.map_filterMap, (ofSource_no_errors ha).1,
      (ofSource_no_errors hb).1]
    rfl
  exact List.append_eq_nil_iff.mpr ⟨hp, if_neg (Bool.eq_false_iff.mp ho)⟩

end Scripting.Scan

namespace Scripting.Grammar

open Reading (startsStatement)

/-- No token, or one that begins a statement. -/
def begins (next : Option Token) : Bool := next.all (startsStatement ·.kind)

theorem ahead_of_begins {next : Option Token} (h : begins next = true) (kind : Token.Kind)
    (hk : startsStatement kind = false) : ahead kind next = false := by
  cases next with
  | none => rfl
  | some t =>
      refine decide_eq_false fun ht => ?_
      rw [begins, Option.all_some, ht, hk] at h
      cases h

theorem operatorAhead_of_begins {next : Option Token} (h : begins next = true) (additive : Bool) :
    operatorAhead additive next = false := by
  cases next with
  | none => rfl
  | some t =>
      have ht : t.kind ≠ .operator := by
        intro ht
        rw [begins, Option.all_some, ht] at h
        cases h
      simp [operatorAhead, ht]

/-- A run whose last token is neither a semicolon nor a closing brace. -/
def EndsOpen (ts : List Token) : Prop :=
  ∃ us t, ts = us ++ [t] ∧ t.kind ≠ .semicolon ∧ t.kind ≠ .rightBrace

theorem EndsOpen.append {us : List Token} (h : EndsOpen us) (ts : List Token) :
    EndsOpen (ts ++ us) := by
  obtain ⟨vs, t, rfl, ht⟩ := h
  exact ⟨ts ++ vs, t, (List.append_assoc ..).symm, ht⟩

theorem EndsOpen.of_last {t : Token} {kind : Token.Kind} (ht : t.kind = kind)
    (hs : kind ≠ .semicolon) (hb : kind ≠ .rightBrace) (ts : List Token) :
    EndsOpen (ts ++ [t]) := ⟨ts, t, rfl, ht ▸ hs, ht ▸ hb⟩

section
variable {next next' : Option Token} {ts : List Token} {e : Expr}

theorem Primary.endsOpen (h : Primary ts e) : EndsOpen ts := by
  cases h with
  | name ht => exact .of_last ht nofun nofun []
  | number ht => exact .of_last ht nofun nofun []
  | text ho hw hc => exact .of_last hc nofun nofun _
  | group ho he hc => exact .of_last hc nofun nofun _

theorem Members.endsOpen (h : Members ts e) : EndsOpen ts := by
  cases h with
  | primary h => exact h.endsOpen
  | dot h ht hk => exact (hk.endsOpen.append [_]).append _
  | index h ho hk hc => exact .of_last hc nofun nofun _

theorem Arguments.endsOpen {opening : Token} {es : List Expr} (h : Arguments opening ts es) :
    EndsOpen ts := by
  cases h with
  | none ho hc => exact .of_last hc nofun nofun []
  | some ho hs hc => exact .of_last hc nofun nofun _

theorem Calls.endsOpen (h : Calls next ts e) : EndsOpen ts := by
  cases h with
  | member h hd hb => exact h.endsOpen
  | call h ha => exact (ha.endsOpen.append [_]).append _

theorem Product.endsOpen (h : Product next ts e) : EndsOpen ts := by
  cases h with
  | factor h hn => exact h.endsOpen
  | more hl ht hr hn => exact (hr.endsOpen.append [_]).append _

theorem Sum.endsOpen (h : Sum next ts e) : EndsOpen ts := by
  cases h with
  | term h hn => exact h.endsOpen
  | more hl ht hr hn => exact (hr.endsOpen.append [_]).append _

/-! What follows a statement may be another token that begins one. Only a parenthesis could
go on with the statement before it, and only if that ends in neither a semicolon nor a
closing brace. -/

theorem Calls.follow (h : Calls next ts e) (hs : begins next' = true) : Calls next' ts e := by
  cases h with
  | member h hd hb =>
      exact .member h (ahead_of_begins hs .dot rfl) (ahead_of_begins hs .leftBracket rfl)
  | call h ha => exact .call h ha

theorem Product.follow (h : Product next ts e) (hs : begins next' = true)
    (hp : ahead .leftParen next' = false) : Product next' ts e := by
  cases h with
  | factor h hn => exact .factor (h.follow hs) hp
  | more hl ht hr hn => exact .more hl ht (hr.follow hs) hp

theorem Sum.follow (h : Sum next ts e) (hs : begins next' = true)
    (hp : ahead .leftParen next' = false) : Sum next' ts e := by
  have ho := operatorAhead_of_begins hs false
  cases h with
  | term h hn => exact .term (h.follow hs hp) ho
  | more hl ht hr hn => exact .more hl ht (hr.follow hs hp) ho

theorem Operand.follow (h : Operand next ts e) (hs : begins next' = true)
    (hp : EndsOpen ts → ahead .leftParen next' = false) : Operand next' ts e := by
  cases h with
  | object ho hf hc => exact .object ho hf hc
  | sum h hn => exact .sum (h.follow hs (hp h.endsOpen)) (operatorAhead_of_begins hs true)

theorem Expression.follow {next next' : Option Token} {ts : List Token} {e : Expr}
    (h : Expression next ts e) (hs : begins next' = true)
    (hp : EndsOpen ts → ahead .leftParen next' = false) : Expression next' ts e := by
  match h with
  | .operand h hn => exact .operand (h.follow hs hp) (ahead_of_begins hs .equal rfl)
  | .assign hl ht hv =>
      exact .assign hl ht (hv.follow hs fun ho => hp ((ho.append [_]).append _))

end

section
variable {next next' : Option Token} {ts : List Token}

theorem Alternatives.follow {cs : List Clause} (h : Alternatives next ts cs)
    (hs : begins next' = true) : Alternatives next' ts cs := by
  induction cs generalizing ts with
  | nil =>
      cases h
      exact .nil (ahead_of_begins hs .elifKeyword rfl)
  | cons c cs ih =>
      cases h with
      | cons hk hc hr => exact .cons hk hc (ih hr)

theorem Statement.follow {s : Stmt} (h : Statement next ts s) (hs : begins next' = true)
    (hp : EndsOpen ts → ahead .leftParen next' = false) : Statement next' ts s := by
  cases h with
  | declare hk hn ha hs => exact .declare hk hn ha hs
  | define hk hn ha he hv hs => exact .define hk hn ha he hv hs
  | function hk hn ha ho hb hc => exact .function hk hn ha ho hb hc
  | conditional hk hf hr hn =>
      exact .conditional hk hf (hr.follow hs) (ahead_of_begins hs .elseKeyword rfl)
  | otherwise hk hf hr he hb => exact .otherwise hk hf hr he hb
  | expression he hn => exact .expression (he.follow hs hp) (ahead_of_begins hs .semicolon rfl)
  | terminated he hs => exact .terminated he hs

theorem Statements.first_eq {ss : List Stmt} (h : Statements next ts ss) (hs : ss ≠ []) :
    first ts next' = first ts next := by
  cases h with
  | nil => exact absurd rfl hs
  | cons h hr =>
      obtain ⟨t, us, rfl, -⟩ := h.start
      rfl

theorem Statements.begins {ss : List Stmt} (h : Statements none ts ss) :
    begins ts.head? = true := by
  cases h with
  | nil => rfl
  | cons h hr =>
      obtain ⟨t, us, rfl, ht⟩ := h.start
      exact ht

theorem Statements.follow {ss : List Stmt} (h : Statements next ts ss)
    (hs : Grammar.begins next' = true) (hp : EndsOpen ts → ahead .leftParen next' = false) :
    Statements next' ts ss := by
  induction ss generalizing ts with
  | nil =>
      cases h
      exact .nil
  | cons s ss ih =>
      cases h with
      | @cons _ ts us _ _ h hr =>
          refine .cons ?_ (ih hr fun ho => hp (ho.append ts))
          by_cases he : ss = []
          · subst he
            cases hr
            exact h.follow hs fun ho => hp ((List.append_nil ts).symm ▸ ho)
          · rw [hr.first_eq he]
            exact h

theorem Statements.append {us : List Token} {ss ss' : List Stmt}
    (h : Statements (first us next) ts ss) (hs : Statements next us ss') :
    Statements next (ts ++ us) (ss ++ ss') := by
  induction ss generalizing ts with
  | nil =>
      cases h
      exact hs
  | cons s ss ih =>
      cases h with
      | @cons _ ts vs _ _ h hr =>
          have hf : first (vs ++ us) next = first vs (first us next) := by
            cases vs <;> rfl
          rw [List.append_assoc]
          refine .cons ?_ (ih hr)
          rw [hf]
          exact h

end

end Scripting.Grammar

namespace Scripting.Program

open Piece (newline)

/-- The first token of the second source does not go on with the last statement of the
first: it is no parenthesis, or the first source ends in a semicolon or a closing brace, or
has no tokens. -/
def Apart (a b : Text) : Prop :=
  (Scan.ofSource b).tokens.head?.map Token.kind ≠ some .leftParen ∨
    (Scan.ofSource a).tokens.getLast?.map Token.kind = some .semicolon ∨
    (Scan.ofSource a).tokens.getLast?.map Token.kind = some .rightBrace ∨
    (Scan.ofSource a).tokens = []

theorem Apart.leftParen {a b : Text} (h : Apart a b)
    (ho : Grammar.EndsOpen (Scan.ofSource a).tokens) :
    Grammar.ahead .leftParen (Scan.ofSource b).tokens.head? = false := by
  obtain ⟨us, t, ht, hs, hb⟩ := ho
  obtain h | h | h | h := h
  · cases hh : (Scan.ofSource b).tokens.head? with
    | none => rfl
    | some u =>
        refine decide_eq_false fun hu => h ?_
        rw [hh, Option.map_some, hu]
  · rw [ht, List.getLast?_concat, Option.map_some, Option.some.injEq] at h
    exact absurd h hs
  · rw [ht, List.getLast?_concat, Option.map_some, Option.some.injEq] at h
    exact absurd h hb
  · rw [ht] at h
    exact absurd h (List.append_ne_nil_of_right_ne_nil us (List.cons_ne_nil t []))

theorem ofSource_newline {a b : Text} {p q : Program} (ha : ofSource a = .ok p)
    (hb : ofSource b = .ok q) (h : Apart a b) :
    ofSource (a ++ newline :: b) = .ok (p ++ q.mapLines (· + (a.count newline + 1))) := by
  obtain ⟨hae, hat⟩ := ofTokens_of_ofSource ha
  obtain ⟨hbe, hbt⟩ := ofTokens_of_ofSource hb
  have hp : Grammar.Statements none (Scan.ofSource a).tokens p := grammar_of_ofTokens hat
  have hq : Grammar.Statements none (Scan.ofSource b).tokens q := grammar_of_ofTokens hbt
  have hr := hq.mapLines (f := (· + (a.count newline + 1)))
  rw [ofSource_of_no_errors (Scan.errors_newline hae hbe), Scan.tokens_newline hae]
  refine ofTokens_of_grammar _ ((hp.follow ?_ ?_).append hr)
  · rw [Grammar.first, Option.or_none]
    exact hr.begins
  · intro ho
    rw [Grammar.first, Option.or_none, List.head?_map, Grammar.ahead_mapLine]
    exact h.leftParen ho

end Scripting.Program
