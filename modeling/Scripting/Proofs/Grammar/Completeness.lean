import Scripting.Proofs.Grammar
import Scripting.Proofs.Parse.Reading

/-!
What the grammar derives is read as the tree that it derives. A repetition grows
from the left in the grammar and by its tail in the reader, so each of them is
read up to the point where its tail takes over.
-/

namespace Scripting.Reading

open Parse (nameOf nextIs operator? unfit)
open Grammar (ahead nextIs_eq_ahead operatorAhead operatorAhead_some)

variable (endLine : Nat)

theorem nextIs_cons (kind : Token.Kind) (t : Token) (ts : List Token) :
    nextIs kind (t :: ts) = decide (t.kind = kind) := rfl

theorem expect_cons {kind : Token.Kind} (cause : ParseError.Cause) {t : Token}
    (h : t.kind = kind) (rest : List Token) :
    expect endLine kind cause (t :: rest) = .ok (t, rest) := by
  simp only [expect_eq, h, if_true]

/-! ## Where tails stop -/

theorem memberTail_stop (object : Expr) {rest : List Token} {next : Option Token}
    (hr : rest.head? = next) (hd : ahead .dot next = false) (hb : ahead .leftBracket next = false) :
    memberTail endLine object rest = .ok (object, rest) := by
  subst hr
  rw [memberTail_eq]
  cases rest with
  | nil => rfl
  | cons t rest =>
      simp only [ahead, List.head?_cons, Option.any_some, decide_eq_false_iff_not] at hd hb
      simp only [hd, hb, if_false]

theorem callTail_stop (callee : Expr) {rest : List Token} {next : Option Token}
    (hr : rest.head? = next) (h : ahead .leftParen next = false) :
    callTail endLine callee rest = .ok (callee, rest) := by
  subst hr
  rw [callTail_eq, nextIs_eq_ahead, h]
  rfl

theorem productTail_stop (left : Expr) {rest : List Token} {next : Option Token}
    (hr : rest.head? = next) (h : operatorAhead false next = false) :
    productTail endLine left rest = .ok (left, rest) := by
  subst hr
  rw [productTail_eq]
  cases rest with
  | nil => rfl
  | cons t rest =>
      have ht : operator? false t = none := by simpa [operatorAhead_some] using h
      simp only [ht]

theorem sumTail_stop (left : Expr) {rest : List Token} {next : Option Token}
    (hr : rest.head? = next) (h : operatorAhead true next = false) :
    sumTail endLine left rest = .ok (left, rest) := by
  subst hr
  rw [sumTail_eq]
  cases rest with
  | nil => rfl
  | cons t rest =>
      have ht : operator? true t = none := by simpa [operatorAhead_some] using h
      simp only [ht]

theorem assignTail_stop (target : Expr) {rest : List Token} {next : Option Token}
    (hr : rest.head? = next) (h : ahead .equal next = false) :
    assignTail endLine target rest = .ok (target, rest) := by
  subst hr
  rw [assignTail_eq]
  cases rest with
  | nil => rfl
  | cons t rest =>
      simp only [ahead, List.head?_cons, Option.any_some, decide_eq_false_iff_not] at h
      simp only [h, if_false]

/-! ## How expressions and statements begin -/

/-- The kinds of token that an expression without braces begins with. -/
def startsPrimary : Token.Kind → Bool
  | .identifier | .number | .quote | .leftParen => true
  | _ => false

theorem primary_start {t : Token} (h : startsPrimary t.kind = false) (rest : List Token) :
    primary endLine (t :: rest) = .error (unfit endLine .unexpectedToken (t :: rest)) := by
  rw [primary_eq]
  cases hk : t.kind <;> simp_all [startsPrimary]

theorem sum_start {t : Token} (h : startsPrimary t.kind = false) (rest : List Token) :
    sum endLine (t :: rest) = .error (unfit endLine .unexpectedToken (t :: rest)) := by
  rw [sum_eq, product_eq, callMember_eq, member_eq, primary_start endLine h]
  rfl

/-- The kinds of token that an expression begins with. -/
def startsExpression (kind : Token.Kind) : Bool := startsPrimary kind || kind = .leftBrace

theorem expression_start {ts : List Token} {x : Expr × List Token}
    (h : expression endLine ts = .ok x) :
    ∃ t rest, ts = t :: rest ∧ startsExpression t.kind = true := by
  cases ts with
  | nil => simp at h
  | cons t rest =>
      refine ⟨t, rest, rfl, ?_⟩
      by_cases hb : t.kind = .leftBrace
      · simp [startsExpression, hb]
      · cases hs : startsPrimary t.kind with
        | true => simp [startsExpression, hs]
        | false =>
            rw [expression_eq, operand_eq] at h
            simp only [hb, if_false, sum_start endLine hs] at h
            cases h

theorem expression_not (kind : Token.Kind) (hk : startsExpression kind = false)
    {ts : List Token} {x : Expr × List Token} (h : expression endLine ts = .ok x) :
    nextIs kind ts = false := by
  obtain ⟨t, rest, rfl, hs⟩ := expression_start endLine h
  rw [nextIs_cons, decide_eq_false_iff_not]
  rintro rfl
  rw [hs] at hk
  cases hk

theorem expressions_not (kind : Token.Kind) (hk : startsExpression kind = false)
    {ts : List Token} {x : List Expr × List Token} (h : expressions endLine ts = .ok x) :
    nextIs kind ts = false := by
  rw [expressions_eq] at h
  obtain ⟨y, hy, -⟩ := bind_eq_ok h
  exact expression_not endLine kind hk hy

theorem operand_of_sum {ts : List Token} {x : Expr × List Token}
    (h : sum endLine ts = .ok x) : operand endLine ts = .ok x := by
  rw [operand_eq]
  cases ts with
  | nil => exact h
  | cons t rest =>
      have hb : t.kind ≠ .leftBrace := by
        intro hb
        rw [sum_start endLine (by simp [startsPrimary, hb])] at h
        cases h
      simp only [hb, if_false, h]

theorem properties_cons {t : Token} (h : t.kind ≠ .rightBrace) (rest : List Token) :
    properties endLine (t :: rest) = (do
      let (key, rest) ← expect endLine .identifier .expectedKey (t :: rest)
      if nextIs .comma rest then
        let (others, rest) ← properties endLine rest.tail
        .ok (.shorthand (nameOf key) :: others, rest)
      else if nextIs .rightBrace rest then .ok ([.shorthand (nameOf key)], rest)
      else
        let (_, rest) ← expect endLine .colon .expectedColon rest
        let (value, rest) ← expression endLine rest
        if nextIs .rightBrace rest then .ok ([.pair (nameOf key) value], rest)
        else
          let (_, rest) ← expect endLine .comma .expectedComma rest
          let (others, rest) ← properties endLine rest
          .ok (.pair (nameOf key) value :: others, rest)) := by
  have hn : ((t :: rest).isEmpty || nextIs .rightBrace (t :: rest)) = false := by
    simp [nextIs, h]
  rw [properties_eq, hn]
  rfl

theorem statement_of_expressionStatement {ts : List Token} {x : Stmt × List Token}
    (h : expressionStatement endLine ts = .ok x) : statement endLine ts = .ok x := by
  have he := h
  rw [expressionStatement_eq] at he
  obtain ⟨y, hy, -⟩ := bind_eq_ok he
  obtain ⟨t, rest, rfl, hs⟩ := expression_start endLine hy
  rw [statement_eq]
  cases hk : t.kind <;> simp_all [startsExpression, startsPrimary]

/-- The kinds of token that a statement begins with. -/
def startsStatement : Token.Kind → Bool
  | .letKeyword | .constKeyword | .funcKeyword | .ifKeyword => true
  | kind => startsExpression kind

theorem statement_start {ts : List Token} {x : Stmt × List Token}
    (h : statement endLine ts = .ok x) :
    ∃ t rest, ts = t :: rest ∧ startsStatement t.kind = true := by
  cases ts with
  | nil => simp at h
  | cons t rest =>
      rw [statement_eq] at h
      refine ⟨t, rest, rfl, ?_⟩
      cases hk : t.kind <;> simp only [hk, reduceCtorEq, if_false] at h <;> try rfl
      all_goals
        rw [expressionStatement_eq] at h
        obtain ⟨y, hy, -⟩ := bind_eq_ok h
        obtain ⟨u, us, he, hs⟩ := expression_start endLine hy
        cases he
        rw [hk] at hs
        exact hs

theorem statements_of_statement (nested : Bool) {ts : List Token} {x : Stmt × List Token}
    (h : statement endLine ts = .ok x) :
    statements endLine nested ts = (do
      let (others, rest) ← statements endLine nested x.2
      .ok (x.1 :: others, rest)) := by
  obtain ⟨t, rest, rfl, hs⟩ := statement_start endLine h
  have hb : t.kind ≠ .rightBrace := by
    intro hb
    rw [hb] at hs
    cases hs
  have hn : ((t :: rest).isEmpty || (nested && nextIs .rightBrace (t :: rest))) = false := by
    simp [nextIs_cons, hb]
  rw [statements_eq, hn, h]
  rfl

theorem statements_not_rightBrace {ts rest : List Token} {s : Stmt} {ss : List Stmt}
    (h : statements endLine true ts = .ok (s :: ss, rest)) : nextIs .rightBrace ts = false := by
  cases hb : nextIs .rightBrace ts with
  | false => rfl
  | true =>
      rw [statements_eq, hb, Bool.and_true, Bool.or_true, if_pos rfl] at h
      cases h

end Scripting.Reading

namespace Scripting.Grammar

open Parse (isWord nameOf nextIs)
open Reading

variable (endLine : Nat)

theorem takeWhile_words (test : Token → Bool) {words : List Token} {closing : Token}
    (hw : ∀ w ∈ words, test w = true) (hc : test closing = false) (rest : List Token) :
    (words ++ closing :: rest).takeWhile test = words ∧
      (words ++ closing :: rest).dropWhile test = closing :: rest := by
  have hn := Bool.eq_false_iff.mp hc
  constructor
  · rw [List.takeWhile_append_of_pos hw, List.takeWhile_cons_of_neg hn, List.append_nil]
  · rw [List.dropWhile_append_of_pos hw, List.dropWhile_cons_of_neg hn]

mutual

theorem Primary.read {ts : List Token} {e : Expr} (h : Primary ts e) (rest : List Token) :
    primary endLine (ts ++ rest) = .ok (e, rest) := by
  match h with
  | .name ht => simp [primary_eq, ht, nameOf]
  | .number ht => simp [primary_eq, ht]
  | @Primary.text opening closing words ho hw hc =>
      have hw' : ∀ w ∈ words, isWord w = true := fun w hm => by simp [isWord, hw w hm]
      have hc' : isWord closing = false := by simp [isWord, hc]
      obtain ⟨h₁, h₂⟩ := takeWhile_words isWord hw' hc' rest
      simp [primary_eq, ho, h₁, h₂, expect_cons endLine _ hc, ok_bind]
  | @Primary.group opening closing us e ho he hc =>
      have h := he.read (closing :: rest) rfl
      simp [primary_eq, ho, h, expect_cons endLine _ hc, ok_bind]

theorem Members.read {ts : List Token} {e : Expr} (h : Members ts e) (rest : List Token) :
    member endLine (ts ++ rest) = memberTail endLine e rest := by
  match h with
  | .primary h => simp [member_eq, h.read, ok_bind]
  | @Members.dot us vs object t key h ht hk =>
      rw [List.append_assoc, h.read, memberTail_eq]
      simp [ht, hk.read, ok_bind]
  | @Members.index us vs object key opening closing h ho hk hc =>
      have hk' := hk.read (closing :: rest) rfl
      rw [List.append_assoc, List.append_assoc, h.read, memberTail_eq]
      simp [ho, hk', expect_cons endLine _ hc, ok_bind]

theorem Calls.read {next : Option Token} {ts : List Token} {e : Expr} (h : Calls next ts e)
    (rest : List Token) (hr : rest.head? = next) :
    callMember endLine (ts ++ rest) = callTail endLine e rest := by
  match h with
  | .member h hd hb =>
      rw [callMember_eq, h.read, memberTail_stop endLine e hr hd hb, ok_bind]
  | @Calls.call next opening us vs callee arguments h ha =>
      have hp : nextIs .leftParen (opening :: vs ++ rest) = true := by
        cases ha <;> simp [nextIs, *]
      rw [List.append_assoc, h.read _ rfl, callTail_eq, if_pos hp, ha.read, ok_bind]

theorem Arguments.read {opening : Token} {ts : List Token} {arguments : List Expr}
    (h : Arguments opening ts arguments) (rest : List Token) :
    argumentList endLine (opening :: ts ++ rest) = .ok ((opening.line, arguments), rest) := by
  match h with
  | @Arguments.none opening closing ho hc =>
      simp [argumentList_eq, expect_cons endLine _ ho, expect_cons endLine _ hc, ok_bind, nextIs,
        hc]
  | @Arguments.some opening closing us es ho hs hc =>
      have h := hs.read (closing :: rest) rfl
      have hn := expressions_not endLine .rightParen rfl h
      simp [argumentList_eq, expect_cons endLine _ ho, h, expect_cons endLine _ hc, ok_bind, hn]

theorem Expressions.read {next : Option Token} {ts : List Token} {es : List Expr}
    (h : Expressions next ts es) (rest : List Token) (hr : rest.head? = next) :
    expressions endLine (ts ++ rest) = .ok (es, rest) := by
  match h with
  | .one h hn =>
      rw [expressions_eq, h.read rest hr, ok_bind]
      simp [nextIs_eq_ahead, hr, hn]
  | @Expressions.more next comma us vs e es h hc hs =>
      rw [List.append_assoc, List.cons_append, expressions_eq, h.read _ rfl, ok_bind]
      simp [nextIs, hc, hs.read rest hr, ok_bind]

theorem Product.read {next : Option Token} {ts : List Token} {e : Expr} (h : Product next ts e)
    (rest : List Token) (hr : rest.head? = next) :
    product endLine (ts ++ rest) = productTail endLine e rest := by
  match h with
  | .factor h hn =>
      rw [product_eq, h.read rest hr, callTail_stop endLine e hr hn, ok_bind]
  | @Product.more next t op us vs l r hl ht h hn =>
      rw [List.append_assoc, hl.read _ rfl, productTail_eq]
      simp [operator?_eq_some_iff.mpr ht, h.read rest hr, callTail_stop endLine r hr hn, ok_bind]

theorem Sum.read {next : Option Token} {ts : List Token} {e : Expr} (h : Sum next ts e)
    (rest : List Token) (hr : rest.head? = next) :
    sum endLine (ts ++ rest) = sumTail endLine e rest := by
  match h with
  | .term h hn =>
      rw [sum_eq, h.read rest hr, productTail_stop endLine e hr hn, ok_bind]
  | @Sum.more next t op us vs l r hl ht h hn =>
      rw [List.append_assoc, hl.read _ rfl, sumTail_eq]
      simp [operator?_eq_some_iff.mpr ht, h.read rest hr, productTail_stop endLine r hr hn, ok_bind]

theorem Operand.read {next : Option Token} {ts : List Token} {e : Expr} (h : Operand next ts e)
    (rest : List Token) (hr : rest.head? = next) :
    operand endLine (ts ++ rest) = .ok (e, rest) := by
  match h with
  | @Operand.object next opening closing us fields ho hp hc =>
      have h := hp.read (closing :: rest) rfl (by simp [ahead, hc])
      simp [operand_eq, ho, h, expect_cons endLine _ hc, ok_bind]
  | .sum h hn =>
      have hs := h.read rest hr
      rw [sumTail_stop endLine e hr hn] at hs
      exact operand_of_sum endLine hs

theorem Properties.read {next : Option Token} {ts : List Token} {fields : List Property}
    (h : Properties next ts fields) (rest : List Token) (hr : rest.head? = next)
    (hb : ahead .rightBrace next = true) :
    properties endLine (ts ++ rest) = .ok (fields, rest) := by
  match h with
  | .nil =>
      rw [List.nil_append, properties_eq, nextIs_eq_ahead, hr, hb, Bool.or_true, if_pos rfl]
  | @Properties.shorthand next key hk =>
      have hc : ahead .comma next = false := by
        cases next with
        | none => rfl
        | some t => simp_all [ahead]
      rw [List.cons_append, List.nil_append, properties_cons endLine (by simp [hk]),
        expect_cons endLine _ hk, ok_bind]
      simp [nextIs_eq_ahead, hr, hc, hb, nameOf]
  | @Properties.shorthandComma next key comma us fields hk hc hp =>
      rw [List.cons_append, List.cons_append, properties_cons endLine (by simp [hk]),
        expect_cons endLine _ hk, ok_bind]
      simp [nextIs, hc, hp.read rest hr hb, ok_bind, nameOf]
  | @Properties.pair next key colon us value hk hl hv =>
      rw [List.cons_append, List.cons_append, properties_cons endLine (by simp [hk]),
        expect_cons endLine _ hk, ok_bind]
      simp only [nextIs_cons, hl, reduceCtorEq, decide_false, Bool.false_eq_true, if_false,
        expect_cons endLine _ hl, hv.read rest hr, ok_bind]
      rw [nextIs_eq_ahead, hr, hb, if_pos rfl]
      rfl
  | @Properties.pairComma next key colon comma us vs value fields hk hl hv hc hp =>
      rw [List.cons_append, List.cons_append, List.cons_append,
        properties_cons endLine (by simp [hk]), expect_cons endLine _ hk, ok_bind]
      have hv' := hv.read (comma :: (vs ++ rest)) rfl
      simp [nextIs, hl, expect_cons endLine _ hl, hv', ok_bind, hc, expect_cons endLine _ hc,
        hp.read rest hr hb, nameOf]

theorem Expression.read {next : Option Token} {ts : List Token} {e : Expr}
    (h : Expression next ts e) (rest : List Token) (hr : rest.head? = next) :
    expression endLine (ts ++ rest) = .ok (e, rest) := by
  match h with
  | .operand h hn =>
      rw [expression_eq, h.read rest hr, ok_bind]
      exact assignTail_stop endLine e hr hn
  | @Expression.assign next t us vs target value hl ht hv =>
      rw [List.append_assoc, List.cons_append, expression_eq, hl.read _ rfl, ok_bind]
      simp [assignTail_eq, ht, hv.read rest hr, ok_bind]

end

theorem Annotation.read {ts : List Token} {type : Option Text} (h : Annotation ts type)
    (rest : List Token) (hn : ahead .colon rest.head? = false) :
    declaredType endLine (ts ++ rest) = .ok (type, rest) := by
  rw [declaredType_eq]
  cases h with
  | none =>
      cases rest with
      | nil => rfl
      | cons t rest =>
          simp only [ahead, List.head?_cons, Option.any_some, decide_eq_false_iff_not] at hn
          simp only [List.nil_append, hn, if_false]
  | some hc => simp [hc]

theorem Initializer.read {type : Option Text} {next : Option Token} {ts : List Token} {e : Expr}
    (h : Initializer type next ts e) (rest : List Token) (hr : rest.head? = next) :
    initializer endLine type (ts ++ rest) = .ok (e, rest) := by
  rw [initializer_eq]
  cases h with
  | @text opening closing words hy ho hw hc =>
      have hw' : ∀ w ∈ words, (w.kind != .quote) = true := fun w hm => by simp [hw w hm]
      have hc' : (closing.kind != .quote) = false := by simp [hc]
      obtain ⟨h₁, h₂⟩ := takeWhile_words (fun t => t.kind != .quote) hw' hc' rest
      rw [if_pos hy, typedText_eq]
      simp only [List.append_assoc, List.cons_append, List.nil_append, expect_cons endLine _ ho,
        ok_bind, h₁, h₂]
      rfl
  | @number t hy ht =>
      rw [if_neg (by rw [hy]; decide), if_pos hy, typedNumber_eq, List.cons_append,
        expect_cons endLine _ ht]
      rfl
  | @bool t value hy ht =>
      rw [if_neg (by rw [hy]; decide), if_neg (by rw [hy]; decide), if_pos hy, typedBoolean_eq]
      cases value with
      | true => simp [ht]
      | false =>
          have hne : Text.utf8 "false" ≠ Text.utf8 "true" := by decide
          simp [ht, hne]
  | expression hs hi hb he => rw [if_neg hs, if_neg hi, if_neg hb, he.read endLine rest hr]

theorem parameters?_map (names : List Name) :
    Parse.parameters? (names.map Expr.name) = some names := by
  induction names with
  | nil => rfl
  | cons name names ih => simp [Parse.parameters?, ih]

mutual

theorem Statement.read {next : Option Token} {ts : List Token} {s : Stmt}
    (h : Statement next ts s) (rest : List Token) (hr : rest.head? = next) :
    statement endLine (ts ++ rest) = .ok (s, rest) := by
  match h with
  | @Statement.declare next keyword name semicolon us type hk hn ha hs =>
      have ha' := ha.read endLine (semicolon :: rest) (by simp [ahead, hs])
      simp [statement_eq, hk, declaration_eq, expect_cons endLine _ hn, ok_bind, ha', nextIs_cons,
        hs, nameOf]
  | @Statement.define next constant keyword name equal semicolon us vs type value hk hn ha he hv
      hs =>
      have ha' := ha.read endLine (equal :: (vs ++ semicolon :: rest)) (by simp [ahead, he])
      have hv' := hv.read endLine (semicolon :: rest) rfl
      cases constant <;>
        simp_all [statement_eq, declaration_eq, expect_cons, ok_bind, nextIs_cons, nameOf]
  | @Statement.function next keyword name paren opening closing us vs parameters body hk hn hp ho
      hb hc =>
      have hp' := hp.read endLine (opening :: (vs ++ closing :: rest))
      have hb' := hb.read (closing :: rest) rfl true (by simp [nextIs_cons, hc])
      simp_all [statement_eq, function_eq, expect_cons, ok_bind, parameters?_map, nameOf]
  | @Statement.conditional next keyword us vs first others hk hf hs hn =>
      have hf' := hf.read (vs ++ rest)
      have hs' := hs.read rest hr
      simp [statement_eq, hk, conditional_eq, hf', hs', ok_bind, nextIs_eq_ahead, hr, hn]
  | @Statement.otherwise next keyword other us vs ws first others body hk hf hs he hb =>
      have hf' := hf.read (vs ++ other :: (ws ++ rest))
      have hs' := hs.read (other :: (ws ++ rest)) rfl
      have hb' := hb.read rest
      simp [statement_eq, hk, conditional_eq, hf', hs', ok_bind, nextIs_cons, he, hb']
  | .expression he hn =>
      apply statement_of_expressionStatement
      rw [expressionStatement_eq, he.read endLine rest hr, ok_bind]
      simp [nextIs_eq_ahead, hr, hn]
  | @Statement.terminated next semicolon us e he hs =>
      apply statement_of_expressionStatement
      rw [List.append_assoc, expressionStatement_eq, he.read endLine _ rfl, ok_bind]
      simp [nextIs_cons, hs]

theorem Statements.read {next : Option Token} {ts : List Token} {ss : List Stmt}
    (h : Statements next ts ss) (rest : List Token) (hr : rest.head? = next) (nested : Bool)
    (he : (rest.isEmpty || (nested && nextIs .rightBrace rest)) = true) :
    statements endLine nested (ts ++ rest) = .ok (ss, rest) := by
  match h with
  | .nil => rw [List.nil_append, statements_eq, if_pos he]
  | @Statements.cons next us vs s ss h hs =>
      have h' := h.read (vs ++ rest) (by rw [List.head?_append, hr]; rfl)
      rw [List.append_assoc, statements_of_statement endLine nested h', hs.read rest hr nested he]
      rfl

theorem Guarded.read {ts : List Token} {c : Clause} (h : Guarded ts c) (rest : List Token) :
    clause endLine (ts ++ rest) = .ok (c, rest) := by
  match h with
  | @Guarded.mk opening closing us vs condition body ho he hc hb =>
      have he' := he.read endLine (closing :: (vs ++ rest)) rfl
      have hn := expression_not endLine .rightParen rfl he'
      simp [clause_eq, condition_eq, expect_cons endLine _ ho, ok_bind, hn, he',
        expect_cons endLine _ hc, hb.read rest]

theorem Alternatives.read {next : Option Token} {ts : List Token} {cs : List Clause}
    (h : Alternatives next ts cs) (rest : List Token) (hr : rest.head? = next) :
    clauses endLine (ts ++ rest) = .ok (cs, rest) := by
  match h with
  | .nil hn =>
      rw [List.nil_append, clauses_eq]
      cases rest with
      | nil => rfl
      | cons t rest =>
          subst hr
          simp only [ahead, List.head?_cons, Option.any_some, decide_eq_false_iff_not] at hn
          simp only [hn, if_false]
  | @Alternatives.cons next keyword us vs c cs hk hc hs =>
      have hc' := hc.read (vs ++ rest)
      rw [List.cons_append, List.cons_append, List.append_assoc, clauses_eq]
      simp [hk, hc', ok_bind, hs.read rest hr]

theorem Block.read {ts : List Token} {body : List Stmt} (h : Block ts body) (rest : List Token) :
    block endLine (ts ++ rest) = .ok (body, rest) := by
  match h with
  | @Block.mk opening closing us s ss ho hb hc =>
      have hb' := hb.read (closing :: rest) rfl true (by simp [nextIs_cons, hc])
      have hn := statements_not_rightBrace endLine hb'
      simp [block_eq, expect_cons endLine _ ho, ok_bind, hn, hb', expect_cons endLine _ hc]

end

/-- A statement has a first token, of a kind that statements begin with. -/
theorem Statement.start {next : Option Token} {ts : List Token} {s : Stmt}
    (h : Statement next ts s) : ∃ t us, ts = t :: us ∧ startsStatement t.kind = true := by
  have hr := h.read 0 next.toList (by cases next <;> rfl)
  have hl := plain_shorter hr
  obtain ⟨t, us, ht, hs⟩ := statement_start 0 hr
  cases ts with
  | nil => simp at hl
  | cons u ts =>
      rw [List.cons_append, List.cons.injEq] at ht
      exact ⟨u, ts, rfl, ht.1 ▸ hs⟩

end Scripting.Grammar
