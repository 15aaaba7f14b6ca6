import Scripting.Program.Parse

/-!
The readers of programs without the bounds that they carry: what each of them
reads and the tokens after it. Each has one equation, in which it is made of other
readers; all later facts about reading start from these equations.
-/

namespace Scripting

/-- What was read and the tokens after it. -/
def Parsed.pair {α : Type} {n : Nat} (p : Parsed α n) : α × List Token := (p.value, p.rest)

namespace Reading

open Parse (nameOf isWord operator? nextIs nextLine unfit parameters?)

/-- The outcome of a reader without its bound. -/
def plain {α : Type} {n : Nat} (x : Except ParseError (Parsed α n)) :
    Except ParseError (α × List Token) := x.map Parsed.pair

theorem plain_bind {α β : Type} {m n : Nat} {x : Except ParseError (Parsed α m)}
    {f : Parsed α m → Except ParseError (Parsed β n)}
    {g : α × List Token → Except ParseError (β × List Token)}
    (h : ∀ p, plain (f p) = g p.pair) : plain (x >>= f) = plain x >>= g := by
  cases x with
  | error e => rfl
  | ok p => exact h p

theorem plain_mono {α : Type} {m n : Nat} (x : Except ParseError (Parsed α m)) (h : m ≤ n) :
    plain (x >>= fun p => pure (p.mono h)) = plain x := by
  cases x <;> rfl

/-- The bound of a reader, as a fact about what is left. -/
theorem plain_shorter {α : Type} {n : Nat} {x : Except ParseError (Parsed α n)} {v : α}
    {rest : List Token} (h : plain x = .ok (v, rest)) : rest.length < n := by
  cases x with
  | error e => cases h
  | ok p =>
      cases h
      exact p.shorter

@[simp] theorem ok_bind {α β : Type} (a : α) (f : α → Except ParseError β) :
    (Except.ok a >>= f) = f a := rfl

@[simp] theorem error_bind {α β : Type} (e : ParseError) (f : α → Except ParseError β) :
    ((Except.error e : Except ParseError α) >>= f) = .error e := rfl

theorem bind_eq_ok {α β : Type} {x : Except ParseError α} {f : α → Except ParseError β} {b : β}
    (h : (x >>= f) = .ok b) : ∃ a, x = .ok a ∧ f a = .ok b := by
  cases x with
  | error e => cases h
  | ok a => exact ⟨a, rfl, h⟩

theorem eq_ok_of_toOption {ε α : Type} {x : Except ε α} {a : α} (h : x.toOption = some a) :
    x = .ok a := by
  cases x with
  | error e => cases h
  | ok b => cases h; rfl

variable (endLine : Nat)

def expect (kind : Token.Kind) (cause : ParseError.Cause) (ts : List Token) :
    Except ParseError (Token × List Token) := plain (Parse.expect endLine kind cause ts)

def primary (ts : List Token) : Except ParseError (Expr × List Token) :=
  plain (Parse.primary endLine ts)

def member (ts : List Token) : Except ParseError (Expr × List Token) :=
  plain (Parse.member endLine ts)

def memberTail (object : Expr) (ts : List Token) : Except ParseError (Expr × List Token) :=
  plain (Parse.memberTail endLine object ts)

def callMember (ts : List Token) : Except ParseError (Expr × List Token) :=
  plain (Parse.callMember endLine ts)

def callTail (callee : Expr) (ts : List Token) : Except ParseError (Expr × List Token) :=
  plain (Parse.callTail endLine callee ts)

def argumentList (ts : List Token) : Except ParseError ((Nat × List Expr) × List Token) :=
  plain (Parse.argumentList endLine ts)

def expressions (ts : List Token) : Except ParseError (List Expr × List Token) :=
  plain (Parse.expressions endLine ts)

def product (ts : List Token) : Except ParseError (Expr × List Token) :=
  plain (Parse.product endLine ts)

def productTail (left : Expr) (ts : List Token) : Except ParseError (Expr × List Token) :=
  plain (Parse.productTail endLine left ts)

def sum (ts : List Token) : Except ParseError (Expr × List Token) :=
  plain (Parse.sum endLine ts)

def sumTail (left : Expr) (ts : List Token) : Except ParseError (Expr × List Token) :=
  plain (Parse.sumTail endLine left ts)

def operand (ts : List Token) : Except ParseError (Expr × List Token) :=
  plain (Parse.operand endLine ts)

def properties (ts : List Token) : Except ParseError (List Property × List Token) :=
  plain (Parse.properties endLine ts)

def expression (ts : List Token) : Except ParseError (Expr × List Token) :=
  plain (Parse.expression endLine ts)

def assignTail (target : Expr) (ts : List Token) : Except ParseError (Expr × List Token) :=
  plain (Parse.assignTail endLine target ts)

def typedText (ts : List Token) : Except ParseError (Expr × List Token) :=
  plain (Parse.typedText endLine ts)

def typedNumber (ts : List Token) : Except ParseError (Expr × List Token) :=
  plain (Parse.typedNumber endLine ts)

def typedBoolean (ts : List Token) : Except ParseError (Expr × List Token) :=
  plain (Parse.typedBoolean endLine ts)

def initializer (type : Option Text) (ts : List Token) : Except ParseError (Expr × List Token) :=
  plain (Parse.initializer endLine type ts)

def declaredType (ts : List Token) : Except ParseError (Option Text × List Token) :=
  plain (Parse.declaredType endLine ts)

def declaration (constant : Bool) (line : Nat) (ts : List Token) :
    Except ParseError (Stmt × List Token) := plain (Parse.declaration endLine constant line ts)

def condition (ts : List Token) : Except ParseError (Expr × List Token) :=
  plain (Parse.condition endLine ts)

def expressionStatement (ts : List Token) : Except ParseError (Stmt × List Token) :=
  plain (Parse.expressionStatement endLine ts)

def statement (ts : List Token) : Except ParseError (Stmt × List Token) :=
  plain (Parse.statement endLine ts)

def function (ts : List Token) : Except ParseError (Stmt × List Token) :=
  plain (Parse.function endLine ts)

def conditional (line : Nat) (ts : List Token) : Except ParseError (Stmt × List Token) :=
  plain (Parse.conditional endLine line ts)

def clause (ts : List Token) : Except ParseError (Clause × List Token) :=
  plain (Parse.clause endLine ts)

def clauses (ts : List Token) : Except ParseError (List Clause × List Token) :=
  plain (Parse.clauses endLine ts)

def block (ts : List Token) : Except ParseError (List Stmt × List Token) :=
  plain (Parse.block endLine ts)

def statements (nested : Bool) (ts : List Token) : Except ParseError (List Stmt × List Token) :=
  plain (Parse.statements endLine nested ts)

theorem expect_eq (kind : Token.Kind) (cause : ParseError.Cause) (ts : List Token) :
    expect endLine kind cause ts =
      match ts with
      | [] => .error (unfit endLine cause [])
      | t :: rest =>
        if t.kind = kind then .ok (t, rest) else .error (unfit endLine cause (t :: rest)) := by
  cases ts with
  | nil => rfl
  | cons t rest =>
      by_cases h : t.kind = kind <;> simp [expect, Parse.expect, h, plain, Except.map, Parsed.pair]

theorem primary_eq (ts : List Token) :
    primary endLine ts =
      match ts with
      | [] => .error (unfit endLine .unexpectedToken [])
      | t :: rest =>
        if t.kind = .identifier then .ok (.name (nameOf t), rest)
        else if t.kind = .number then .ok (.number (Number.ofLiteral t.lexeme), rest)
        else if t.kind = .quote then do
          let (_, after) ← expect endLine .quote .unclosedQuote (rest.dropWhile isWord)
          .ok (.text (Text.join (Text.utf8 " ") ((rest.takeWhile isWord).map Token.lexeme)), after)
        else if t.kind = .leftParen then do
          let (e, rest) ← expression endLine rest
          let (_, rest) ← expect endLine .rightParen .unclosedParen rest
          .ok (e, rest)
        else .error (unfit endLine .unexpectedToken (t :: rest)) := by
  rw [primary, Parse.primary.eq_def]
  cases ts with
  | nil => rfl
  | cons t rest =>
      dsimp only
      split
      case h_1 h | h_2 h => simp [h, plain, Except.map, Parsed.pair]
      case h_3 h =>
        simp only [h, reduceCtorEq, if_false, if_true]
        exact plain_bind fun _ => rfl
      case h_4 h =>
        simp only [h, reduceCtorEq, if_false, if_true]
        exact plain_bind fun _ => plain_bind fun _ => rfl
      case h_5 h₁ h₂ h₃ h₄ =>
        rw [if_neg h₁, if_neg h₂, if_neg h₃, if_neg h₄]
        rfl

theorem member_eq (ts : List Token) :
    member endLine ts = (do
      let (object, rest) ← primary endLine ts
      memberTail endLine object rest) := by
  rw [member, Parse.member]
  exact plain_bind fun _ => plain_mono _ _

theorem memberTail_eq (object : Expr) (ts : List Token) :
    memberTail endLine object ts =
      match ts with
      | [] => .ok (object, [])
      | t :: rest =>
        if t.kind = .dot then do
          let (key, rest) ← primary endLine rest
          match key with
          | .name key => memberTail endLine (.member object t.line key) rest
          | _ => .error ⟨t.line, .expectedProperty, .nothing⟩
        else if t.kind = .leftBracket then do
          let (key, rest) ← expression endLine rest
          let (_, rest) ← expect endLine .rightBracket .unclosedBracket rest
          memberTail endLine (.index object t.line key) rest
        else .ok (object, t :: rest) := by
  rw [memberTail, Parse.memberTail.eq_def]
  cases ts with
  | nil => rfl
  | cons t rest =>
      dsimp only
      split
      case h_1 h =>
        rw [if_pos h]
        refine plain_bind fun p => ?_
        cases hv : p.value <;> simp only [Parsed.pair, hv]
        case name key => exact plain_mono _ _
        all_goals rfl
      case h_2 h =>
        simp only [h, reduceCtorEq, if_false, if_true]
        exact plain_bind fun _ => plain_bind fun _ => plain_mono _ _
      case h_3 h₁ h₂ =>
        rw [if_neg h₁, if_neg h₂]
        rfl

theorem callMember_eq (ts : List Token) :
    callMember endLine ts = (do
      let (callee, rest) ← member endLine ts
      callTail endLine callee rest) := by
  rw [callMember, Parse.callMember]
  exact plain_bind fun _ => plain_mono _ _

theorem callTail_eq (callee : Expr) (ts : List Token) :
    callTail endLine callee ts =
      if nextIs .leftParen ts then do
        let ((line, arguments), rest) ← argumentList endLine ts
        callTail endLine (.call callee line arguments) rest
      else .ok (callee, ts) := by
  rw [callTail, Parse.callTail.eq_def]
  split
  · exact plain_bind fun _ => plain_mono _ _
  · rfl

theorem argumentList_eq (ts : List Token) :
    argumentList endLine ts = (do
      let (paren, rest) ← expect endLine .leftParen .expectedOpenParen ts
      if nextIs .rightParen rest then
        let (_, rest) ← expect endLine .rightParen .unclosedArguments rest
        .ok ((paren.line, []), rest)
      else
        let (arguments, rest) ← expressions endLine rest
        let (_, rest) ← expect endLine .rightParen .unclosedArguments rest
        .ok ((paren.line, arguments), rest)) := by
  rw [argumentList, Parse.argumentList]
  refine plain_bind fun p => ?_
  dsimp only [Parsed.pair]
  split
  · exact plain_bind fun _ => rfl
  · exact plain_bind fun _ => plain_bind fun _ => rfl

theorem expressions_eq (ts : List Token) :
    expressions endLine ts = (do
      let (e, rest) ← expression endLine ts
      if nextIs .comma rest then
        let (es, rest) ← expressions endLine rest.tail
        .ok (e :: es, rest)
      else .ok ([e], rest)) := by
  rw [expressions, Parse.expressions]
  refine plain_bind fun p => ?_
  dsimp only [Parsed.pair]
  split
  · exact plain_bind fun _ => rfl
  · rfl

theorem product_eq (ts : List Token) :
    product endLine ts = (do
      let (left, rest) ← callMember endLine ts
      productTail endLine left rest) := by
  rw [product, Parse.product]
  exact plain_bind fun _ => plain_mono _ _

theorem productTail_eq (left : Expr) (ts : List Token) :
    productTail endLine left ts =
      match ts with
      | [] => .ok (left, [])
      | t :: rest =>
        match operator? false t with
        | some op => do
          let (right, rest) ← callMember endLine rest
          productTail endLine (.binary left op t.line right) rest
        | none => .ok (left, t :: rest) := by
  rw [productTail, Parse.productTail.eq_def]
  cases ts with
  | nil => rfl
  | cons t rest =>
      cases h : operator? false t with
      | none => simp only [h]; rfl
      | some op =>
          simp only [h]
          exact plain_bind fun _ => plain_mono _ _

theorem sum_eq (ts : List Token) :
    sum endLine ts = (do
      let (left, rest) ← product endLine ts
      sumTail endLine left rest) := by
  rw [sum, Parse.sum]
  exact plain_bind fun _ => plain_mono _ _

theorem sumTail_eq (left : Expr) (ts : List Token) :
    sumTail endLine left ts =
      match ts with
      | [] => .ok (left, [])
      | t :: rest =>
        match operator? true t with
        | some op => do
          let (right, rest) ← product endLine rest
          sumTail endLine (.binary left op t.line right) rest
        | none => .ok (left, t :: rest) := by
  rw [sumTail, Parse.sumTail.eq_def]
  cases ts with
  | nil => rfl
  | cons t rest =>
      cases h : operator? true t with
      | none => simp only [h]; rfl
      | some op =>
          simp only [h]
          exact plain_bind fun _ => plain_mono _ _

theorem operand_eq (ts : List Token) :
    operand endLine ts =
      match ts with
      | [] => sum endLine []
      | t :: rest =>
        if t.kind = .leftBrace then do
          let (fields, rest) ← properties endLine rest
          let (_, rest) ← expect endLine .rightBrace .unclosedObject rest
          .ok (.object fields, rest)
        else sum endLine (t :: rest) := by
  rw [operand, Parse.operand.eq_def]
  cases ts with
  | nil => rfl
  | cons t rest =>
      dsimp only
      split
      · exact plain_bind fun _ => plain_bind fun _ => rfl
      · rfl

theorem properties_eq (ts : List Token) :
    properties endLine ts =
      if ts.isEmpty || nextIs .rightBrace ts then .ok ([], ts)
      else (do
        let (key, rest) ← expect endLine .identifier .expectedKey ts
        if nextIs .comma rest then
          let (others, rest) ← properties endLine rest.tail
          .ok (.shorthand (nameOf key) :: others, rest)
        else if nextIs .rightBrace rest then .ok ([.shorthand (nameOf key)], rest)
        else
          let (_, rest) ← expect endLine .colon .expectedColon rest
          let (value, rest) ← expression endLine rest
          if nextIs .rightBrace rest then .ok ([.pair (nameOf key) value], rest)
          else
            let (_, rest) ← expect endLine .comma .expectedComma rest
            let (others, rest) ← properties endLine rest
            .ok (.pair (nameOf key) value :: others, rest)) := by
  rw [properties, Parse.properties.eq_def]
  split
  · rfl
  · refine plain_bind fun p => ?_
    dsimp only [Parsed.pair]
    split
    · exact plain_bind fun _ => rfl
    · split
      · rfl
      · refine plain_bind fun _ => plain_bind fun q => ?_
        dsimp only [Parsed.pair]
        split
        · rfl
        · exact plain_bind fun _ => plain_bind fun _ => rfl

theorem expression_eq (ts : List Token) :
    expression endLine ts = (do
      let (target, rest) ← operand endLine ts
      assignTail endLine target rest) := by
  rw [expression, Parse.expression]
  exact plain_bind fun _ => plain_mono _ _

theorem assignTail_eq (target : Expr) (ts : List Token) :
    assignTail endLine target ts =
      match ts with
      | [] => .ok (target, [])
      | t :: rest =>
        if t.kind = .equal then do
          let (value, rest) ← expression endLine rest
          .ok (.assign target t.line value, rest)
        else .ok (target, t :: rest) := by
  rw [assignTail, Parse.assignTail.eq_def]
  cases ts with
  | nil => rfl
  | cons t rest =>
      dsimp only
      split
      · exact plain_bind fun _ => rfl
      · rfl

theorem typedText_eq (ts : List Token) :
    typedText endLine ts = (do
      let (_, rest) ← expect endLine .quote .expectedQuote ts
      let isInner (t : Token) : Bool := t.kind != .quote
      if (rest.dropWhile isInner).isEmpty then .error ⟨endLine, .unclosedQuote, .nothing⟩
      else .ok (.text (((rest.takeWhile isInner).map Token.lexeme).flatMap (· ++ Text.utf8 " ") ++
        [0x08]), (rest.dropWhile isInner).tail)) := by
  rw [typedText, Parse.typedText]
  refine plain_bind fun p => ?_
  dsimp only [Parsed.pair]
  split <;> rfl

theorem typedNumber_eq (ts : List Token) :
    typedNumber endLine ts = (do
      let (t, rest) ← expect endLine .number .expectedNumber ts
      .ok (.number (Number.ofLiteral t.lexeme), rest)) := by
  rw [typedNumber, Parse.typedNumber]
  exact plain_bind fun _ => rfl

theorem typedBoolean_eq (ts : List Token) :
    typedBoolean endLine ts =
      match ts with
      | [] => .error (unfit endLine .expectedBoolean [])
      | t :: rest =>
        if t.lexeme = Text.utf8 "true" then .ok (.bool true, rest)
        else if t.lexeme = Text.utf8 "false" then .ok (.bool false, rest)
        else .error (unfit endLine .expectedBoolean (t :: rest)) := by
  rw [typedBoolean, Parse.typedBoolean.eq_def]
  cases ts with
  | nil => rfl
  | cons t rest =>
      dsimp only
      split
      · rfl
      · split <;> rfl

theorem initializer_eq (type : Option Text) (ts : List Token) :
    initializer endLine type ts =
      if type = some (Text.utf8 "string") then typedText endLine ts
      else if type = some (Text.utf8 "int") then typedNumber endLine ts
      else if type = some (Text.utf8 "bool") then typedBoolean endLine ts
      else expression endLine ts := by
  rw [initializer, Parse.initializer]
  split
  · rfl
  · split
    · rfl
    · split <;> rfl

theorem declaredType_eq (ts : List Token) :
    declaredType endLine ts =
      match ts with
      | [] => .ok (none, [])
      | t :: rest =>
        if t.kind = .colon then
          match rest with
          | [] => .error (unfit endLine .expectedEquals [])
          | type :: rest => .ok (some type.lexeme, rest)
        else .ok (none, t :: rest) := by
  rw [declaredType, Parse.declaredType.eq_def]
  cases ts with
  | nil => rfl
  | cons t rest =>
      dsimp only
      split
      · cases rest <;> rfl
      · rfl

theorem declaration_eq (constant : Bool) (line : Nat) (ts : List Token) :
    declaration endLine constant line ts = (do
      let (name, rest) ← expect endLine .identifier .expectedIdentifier ts
      let (type, rest) ← declaredType endLine rest
      if nextIs .semicolon rest then
        if constant then .error ⟨line, .constantWithoutValue, .source name.lexeme⟩
        else .ok (.declare false (nameOf name) type none, rest.tail)
      else
        let (_, rest) ← expect endLine .equal .expectedEquals rest
        let (value, rest) ← initializer endLine type rest
        let (_, rest) ← expect endLine .semicolon .expectedSemicolon rest
        .ok (.declare constant (nameOf name) type (some value), rest)) := by
  rw [declaration, Parse.declaration]
  refine plain_bind fun _ => plain_bind fun p => ?_
  dsimp only [Parsed.pair]
  split
  · split <;> rfl
  · exact plain_bind fun _ => plain_bind fun _ => plain_bind fun _ => rfl

theorem condition_eq (ts : List Token) :
    condition endLine ts = (do
      let (_, rest) ← expect endLine .leftParen .expectedCondition ts
      if nextIs .rightParen rest then .error ⟨nextLine endLine rest, .missingCondition, .nothing⟩
      else
        let (e, rest) ← expression endLine rest
        let (_, rest) ← expect endLine .rightParen .expectedCondition rest
        .ok (e, rest)) := by
  rw [condition, Parse.condition]
  refine plain_bind fun p => ?_
  dsimp only [Parsed.pair]
  split
  · rfl
  · exact plain_bind fun _ => plain_bind fun _ => rfl

theorem expressionStatement_eq (ts : List Token) :
    expressionStatement endLine ts = (do
      let (e, rest) ← expression endLine ts
      if nextIs .semicolon rest then .ok (.expr e, rest.tail)
      else .ok (.expr e, rest)) := by
  rw [expressionStatement, Parse.expressionStatement]
  refine plain_bind fun p => ?_
  dsimp only [Parsed.pair]
  split <;> rfl

theorem statement_eq (ts : List Token) :
    statement endLine ts =
      match ts with
      | [] => expressionStatement endLine []
      | t :: rest =>
        if t.kind = .letKeyword then declaration endLine false t.line rest
        else if t.kind = .constKeyword then declaration endLine true t.line rest
        else if t.kind = .funcKeyword then function endLine rest
        else if t.kind = .ifKeyword then conditional endLine t.line rest
        else expressionStatement endLine (t :: rest) := by
  rw [statement, Parse.statement.eq_def]
  cases ts with
  | nil => rfl
  | cons t rest =>
      dsimp only
      split
      case h_1 h | h_2 h | h_3 h | h_4 h =>
        simp only [h, reduceCtorEq, if_false, if_true]
        exact plain_mono _ _
      case h_5 h₁ h₂ h₃ h₄ =>
        rw [if_neg h₁, if_neg h₂, if_neg h₃, if_neg h₄]
        rfl

theorem function_eq (ts : List Token) :
    function endLine ts = (do
      let (name, rest) ← expect endLine .identifier .expectedFunctionName ts
      let ((_, arguments), rest) ← argumentList endLine rest
      match parameters? arguments with
      | none => .error ⟨name.line, .expectedParameter, .source name.lexeme⟩
      | some parameters =>
        let (_, rest) ← expect endLine .leftBrace .expectedFunctionBody rest
        let (body, rest) ← statements endLine true rest
        let (_, rest) ← expect endLine .rightBrace .unclosedFunctionBody rest
        .ok (.func (nameOf name) parameters body, rest)) := by
  rw [function, Parse.function]
  refine plain_bind fun _ => plain_bind fun p => ?_
  cases h : parameters? p.value.2 with
  | none => simp only [Parsed.pair, h]; rfl
  | some parameters =>
      simp only [Parsed.pair, h]
      exact plain_bind fun _ => plain_bind fun _ => plain_bind fun _ => rfl

theorem conditional_eq (line : Nat) (ts : List Token) :
    conditional endLine line ts = (do
      let (first, rest) ← clause endLine ts
      let (others, rest) ← clauses endLine rest
      if nextIs .elseKeyword rest then
        let (otherwise, rest) ← block endLine rest.tail
        .ok (.branch line first others otherwise, rest)
      else .ok (.branch line first others [], rest)) := by
  rw [conditional, Parse.conditional]
  refine plain_bind fun _ => plain_bind fun p => ?_
  dsimp only [Parsed.pair]
  split
  · exact plain_bind fun _ => rfl
  · rfl

theorem clause_eq (ts : List Token) :
    clause endLine ts = (do
      let (test, rest) ← condition endLine ts
      let (body, rest) ← block endLine rest
      .ok (⟨test, body⟩, rest)) := by
  rw [clause, Parse.clause]
  exact plain_bind fun _ => plain_bind fun _ => rfl

theorem clauses_eq (ts : List Token) :
    clauses endLine ts =
      match ts with
      | [] => .ok ([], [])
      | t :: rest =>
        if t.kind = .elifKeyword then do
          let (first, rest) ← clause endLine rest
          let (others, rest) ← clauses endLine rest
          .ok (first :: others, rest)
        else .ok ([], t :: rest) := by
  rw [clauses, Parse.clauses.eq_def]
  cases ts with
  | nil => rfl
  | cons t rest =>
      dsimp only
      split
      · exact plain_bind fun _ => plain_bind fun _ => rfl
      · rfl

theorem block_eq (ts : List Token) :
    block endLine ts = (do
      let (_, rest) ← expect endLine .leftBrace .expectedBlock ts
      if nextIs .rightBrace rest then .error ⟨nextLine endLine rest, .emptyBlock, .nothing⟩
      else
        let (body, rest) ← statements endLine true rest
        let (_, rest) ← expect endLine .rightBrace .unclosedBlock rest
        .ok (body, rest)) := by
  rw [block, Parse.block]
  refine plain_bind fun p => ?_
  dsimp only [Parsed.pair]
  split
  · rfl
  · exact plain_bind fun _ => plain_bind fun _ => rfl

theorem statements_eq (nested : Bool) (ts : List Token) :
    statements endLine nested ts =
      if ts.isEmpty || (nested && nextIs .rightBrace ts) then .ok ([], ts)
      else (do
        let (first, rest) ← statement endLine ts
        let (others, rest) ← statements endLine nested rest
        .ok (first :: others, rest)) := by
  rw [statements, Parse.statements.eq_def]
  split
  · rfl
  · exact plain_bind fun _ => plain_bind fun _ => rfl

/-! ## At the end of the tokens -/

@[simp] theorem expect_nil (kind : Token.Kind) (cause : ParseError.Cause) :
    expect endLine kind cause [] = .error (unfit endLine cause []) := expect_eq ..

@[simp] theorem primary_nil : primary endLine [] = .error (unfit endLine .unexpectedToken []) :=
  primary_eq ..

@[simp] theorem memberTail_nil (object : Expr) : memberTail endLine object [] = .ok (object, []) :=
  memberTail_eq ..

@[simp] theorem callMember_nil :
    callMember endLine [] = .error (unfit endLine .unexpectedToken []) := by
  simp [callMember_eq, member_eq]

@[simp] theorem callTail_nil (callee : Expr) : callTail endLine callee [] = .ok (callee, []) :=
  callTail_eq ..

@[simp] theorem product_nil : product endLine [] = .error (unfit endLine .unexpectedToken []) := by
  simp [product_eq]

@[simp] theorem productTail_nil (left : Expr) : productTail endLine left [] = .ok (left, []) :=
  productTail_eq ..

@[simp] theorem sum_nil : sum endLine [] = .error (unfit endLine .unexpectedToken []) := by
  simp [sum_eq]

@[simp] theorem sumTail_nil (left : Expr) : sumTail endLine left [] = .ok (left, []) :=
  sumTail_eq ..

@[simp] theorem operand_nil : operand endLine [] = .error (unfit endLine .unexpectedToken []) := by
  simp [operand_eq]

@[simp] theorem properties_nil : properties endLine [] = .ok ([], []) :=
  properties_eq ..

@[simp] theorem expression_nil :
    expression endLine [] = .error (unfit endLine .unexpectedToken []) := by
  simp [expression_eq]

@[simp] theorem expressions_nil :
    expressions endLine [] = .error (unfit endLine .unexpectedToken []) := by
  rw [expressions_eq, expression_nil, error_bind]

@[simp] theorem assignTail_nil (target : Expr) : assignTail endLine target [] = .ok (target, []) :=
  assignTail_eq ..

@[simp] theorem statement_nil :
    statement endLine [] = .error (unfit endLine .unexpectedToken []) := by
  simp [statement_eq, expressionStatement_eq]

@[simp] theorem clauses_nil : clauses endLine [] = .ok ([], []) := clauses_eq ..

@[simp] theorem statements_empty (nested : Bool) : statements endLine nested [] = .ok ([], []) :=
  statements_eq ..

end Reading

/-- A program is what its statements are read as. -/
theorem Program.ofTokens_eq (endLine : Nat) (tokens : List Token) :
    Program.ofTokens endLine tokens = (Reading.statements endLine false tokens).map Prod.fst := by
  rw [Program.ofTokens, Reading.statements]
  cases Parse.statements endLine false tokens <;> rfl

end Scripting
