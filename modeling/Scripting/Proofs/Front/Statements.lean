import Scripting.Proofs.Front.Expressions
import Scripting.Proofs.Grammar.Soundness

/-!
Parsing statements with a cursor. A statement inside another one begins after a brace of the outer
one. The parser of a program goes on from statement to statement up to the end of the tokens.
-/

namespace Scripting.Parser

open Parse (nameOf)

section
variable (tokens : List Emitted)

/-- The words up to a quote, each with a space after it. -/
def typedWords : (fuel : Nat) → Walk Parser Text
  | 0 => Walk.exhausted
  | fuel + 1 => do
    if ← check tokens .quote then return []
    else if ← isAtEnd tokens then missing tokens .unclosedQuote
    else
      let t ← advance tokens
      let others ← typedWords fuel
      return t.token.lexeme ++ Text.utf8 " " ++ others

def typedText (fuel : Nat) : Walk Parser ExprNode := do
  let _ ← consume tokens .quote .expectedQuote
  beginText
  let text ← typedWords tokens fuel
  let _ ← advance tokens
  return .string (text ++ [0x08])

def typedNumber : Walk Parser ExprNode := do
  let number ← consume tokens .number .expectedNumber
  return .numeric (← numberOf number)

def typedBoolean : Walk Parser ExprNode := do
  let value ← peek tokens
  if value.token.lexeme = Text.utf8 "true" then
    let _ ← advance tokens
    return .boolean true
  else if value.token.lexeme = Text.utf8 "false" then
    let _ ← advance tokens
    return .boolean false
  else unexpected tokens .expectedBoolean

/-- Whether no statement follows: at the end or, if nested, at a closing brace. -/
def stops (nested : Bool) : Walk Parser Bool :=
  if nested then isAtClose tokens else isAtEnd tokens

/-- One statement after the other. -/
def statements (statement : Walk Parser StmtNode) (nested : Bool) :
    (fuel : Nat) → Walk Parser (List StmtNode)
  | 0 => Walk.exhausted
  | fuel + 1 => do
    if ← stops tokens nested then return []
    else
      let first ← statement
      let others ← statements statement nested fuel
      return first :: others

/-- Statements in braces, of which there has to be one. -/
def block (statement : Walk Parser StmtNode) (fuel : Nat) : Walk Parser (List StmtNode) := do
  let _ ← consume tokens .leftBrace .expectedBlock
  if ← check tokens .rightBrace then missing tokens .emptyBlock
  else
    let body ← statements tokens statement true fuel
    let _ ← consume tokens .rightBrace .unclosedBlock
    return body

variable (expression : Walk Parser ExprNode)

def initializer (fuel : Nat) (type : Option Text) : Walk Parser ExprNode :=
  if type = some (Text.utf8 "string") then typedText tokens fuel
  else if type = some (Text.utf8 "int") then typedNumber tokens
  else if type = some (Text.utf8 "bool") then typedBoolean tokens
  else expression

/-- The value of a declaration, or the semicolon in its place. -/
def declaredValue (fuel : Nat) (constant : Bool) (line : Nat) (name : Token) (type : Option Text) :
    Walk Parser StmtNode := do
  if ← accept tokens .semicolon then
    if constant then fatal ⟨line, .constantWithoutValue, .source name.lexeme⟩
    else return .var (some name) type false .nil
  else
    let _ ← consume tokens .equal .expectedEquals
    let value ← initializer tokens expression fuel type
    let _ ← consume tokens .semicolon .expectedSemicolon
    return .var (some name) type constant value

def varDeclaration (fuel : Nat) : Walk Parser StmtNode := do
  let keyword ← advance tokens
  let name ← consume tokens .identifier .expectedIdentifier
  let value := declaredValue tokens expression fuel (keyword.token.kind = .constKeyword)
    keyword.token.line name.token
  if ← accept tokens .colon then
    let type ← advance tokens
    value (some type.token.lexeme)
  else value none

def condition : Walk Parser ExprNode := do
  let _ ← consume tokens .leftParen .expectedCondition
  if ← check tokens .rightParen then missing tokens .missingCondition
  else
    let e ← expression
    let _ ← consume tokens .rightParen .expectedCondition
    return e

def expressionStatement : Walk Parser StmtNode := do
  let e ← expression
  if ← accept tokens .semicolon then return .expr e
  else return .expr e

variable (statement : Walk Parser StmtNode)

/-- The tokens of the arguments of a function, if all of them are names. -/
def parameters? : List ExprNode → Option (List (Option Token))
  | [] => some []
  | .identifier name :: rest => (parameters? rest).map (name :: ·)
  | _ :: _ => none

def funcDeclaration (fuel : Nat) : Walk Parser StmtNode := do
  let _ ← advance tokens
  let name ← consume tokens .identifier .expectedFunctionName
  let (_, es) ← arguments tokens expression fuel
  match parameters? es with
  | none => fatal ⟨name.token.line, .expectedParameter, .source name.token.lexeme⟩
  | some parameters =>
    let _ ← consume tokens .leftBrace .expectedFunctionBody
    let body ← statements tokens statement true fuel
    let _ ← consume tokens .rightBrace .unclosedFunctionBody
    return .func (.mk (some name.token) parameters body)

def clause (fuel : Nat) : Walk Parser ElifNode := do
  let test ← condition tokens expression
  let body ← block tokens statement fuel
  return .mk test body

/-- The further clauses of a conditional. -/
def clauses : (fuel : Nat) → Walk Parser (List ElifNode)
  | 0 => Walk.exhausted
  | fuel + 1 => do
    if ← accept tokens .elifKeyword then
      let first ← clause tokens expression statement fuel
      let others ← clauses fuel
      return first :: others
    else return []

def ifStatement (fuel : Nat) : Walk Parser StmtNode := do
  let keyword ← advance tokens
  let .mk test body ← clause tokens expression statement fuel
  let elifs ← clauses tokens expression statement fuel
  if ← accept tokens .elseKeyword then
    let otherwise ← block tokens statement fuel
    return .branch (some keyword.token) test body elifs (some otherwise)
  else return .branch (some keyword.token) test body elifs none

end

def statement (tokens : List Emitted) : (fuel : Nat) → Walk Parser StmtNode
  | 0 => Walk.exhausted
  | fuel + 1 => do
    let expression := assignment tokens (fuel + 1)
    let t ← peek tokens
    if t.token.kind = .letKeyword then varDeclaration tokens expression fuel
    else if t.token.kind = .constKeyword then varDeclaration tokens expression fuel
    else if t.token.kind = .funcKeyword then
      funcDeclaration tokens expression (statement tokens fuel) fuel
    else if t.token.kind = .ifKeyword then
      ifStatement tokens expression (statement tokens fuel) fuel
    else expressionStatement tokens expression

/-- Parses the statements up to the end. -/
def parse (tokens : List Emitted) (fuel : Nat) : Walk Parser (List StmtNode) :=
  statements tokens (statement tokens fuel) false fuel

variable {I : Input} {fuel : Nat} {rest : List Token}

/-- Where no quote is left, the words have no end. -/
theorem typedWords_meets (h : rest.length < fuel) :
    Meets I id (typedWords I.emitted fuel) rest
      (if (rest.dropWhile fun t => t.kind != .quote).isEmpty then
        .error ⟨I.endLine, .unclosedQuote, .nothing⟩
      else .ok (((rest.takeWhile fun t => t.kind != .quote).map Token.lexeme).flatMap
        (· ++ Text.utf8 " "), rest.dropWhile fun t => t.kind != .quote)) := by
  induction fuel generalizing rest with
  | zero => exact absurd h (Nat.not_lt_zero _)
  | succ fuel ih =>
      rw [typedWords]
      refine Meets.check (by decide) ?_
      cases rest with
      | nil => exact Meets.isAtEnd (Meets.missing _)
      | cons t rest =>
          by_cases hq : t.kind = .quote
          · simp only [Parse.nextIs, hq, decide_true, if_true, List.takeWhile_cons,
              List.dropWhile_cons]
            exact Meets.pure rfl
          · have hi : (t.kind != .quote) = true := bne_iff_ne.mpr hq
            simp only [Parse.nextIs, hq, decide_false, Bool.false_eq_true, if_false,
              List.takeWhile_cons, List.dropWhile_cons, hi, if_true]
            refine Meets.isAtEnd (Meets.advance fun _ => ?_)
            have hw := ih (Nat.lt_of_succ_lt_succ h)
            split
            · next hd =>
                rw [if_pos hd] at hw
                exact hw.bind_error
            · next hd =>
                rw [if_neg hd] at hw
                exact hw.bind_ok (Meets.pure rfl)

theorem typedText_reads :
    Reads I (fuel + 1) Expr.node (typedText I.emitted fuel) (Reading.typedText I.endLine) := by
  intro rest hr
  rw [typedText, Reading.typedText_eq]
  refine Meets.consume (by decide) fun _ rest' hr' _ _ => Meets.beginText ?_
  rw [hr', List.length_cons] at hr
  have hw : Meets I id _ rest' _ := typedWords_meets (Nat.lt_of_succ_lt_succ hr)
  dsimp only
  split
  · next hd =>
      rw [if_pos hd] at hw
      exact hw.bind_error
  · next hd =>
      rw [if_neg hd] at hw
      refine hw.bind_ok ?_
      cases hc : rest'.dropWhile fun t => t.kind != .quote with
      | nil =>
          rw [hc] at hd
          exact absurd rfl hd
      | cons t after => exact Meets.advance fun _ => Meets.pure rfl

theorem typedNumber_meets :
    Meets I Expr.node (typedNumber I.emitted) rest (Reading.typedNumber I.endLine rest) := by
  rw [typedNumber, Reading.typedNumber_eq]
  exact Meets.consume (by decide) fun _ _ _ hk _ => Meets.numberOf hk (Meets.pure rfl)

theorem typedBoolean_meets :
    Meets I Expr.node (typedBoolean I.emitted) rest (Reading.typedBoolean I.endLine rest) := by
  rw [typedBoolean, Reading.typedBoolean_eq]
  refine Meets.peek ?_
  cases rest with
  | nil => exact Meets.unexpected _
  | cons t rest =>
      dsimp only [Input.next, Emitted.token_of]
      refine Meets.ite (fun _ => Meets.advance fun _ => Meets.pure rfl) fun _ => ?_
      refine Meets.ite (fun _ => Meets.advance fun _ => Meets.pure rfl) fun _ => ?_
      exact Meets.unexpected _

theorem stops_meets {α β : Type} {image : β → α} {nested : Bool} {f : Bool → Walk Parser α}
    {y : Except ParseError (β × List Token)}
    (h : Meets I image (f (rest.isEmpty || (nested && Parse.nextIs .rightBrace rest))) rest y) :
    Meets I image (stops I.emitted nested >>= f) rest y := by
  cases nested with
  | false =>
      rw [Bool.false_and, Bool.or_false] at h
      exact Meets.isAtEnd h
  | true => exact Meets.isAtClose h

theorem statements_reads {statement : Walk Parser StmtNode} (nested : Bool)
    (hs : Reads I fuel Stmt.node statement (Reading.statement I.endLine)) :
    Reads I fuel Stmt.nodes (statements I.emitted statement nested fuel)
      (Reading.statements I.endLine nested) := by
  induction fuel with
  | zero => exact fun _ hr => absurd hr (Nat.not_lt_zero _)
  | succ fuel ih =>
      intro rest hr
      rw [statements, Reading.statements_eq]
      refine stops_meets (Meets.ite (fun _ => Meets.pure rfl) fun _ => ?_)
      refine (hs rest hr).bind fun first rest' hy => ?_
      have hl := Reading.plain_shorter hy
      refine (ih (hs.mono (Nat.le_succ fuel)) rest' (by omega)).bind fun _ _ _ => ?_
      exact Meets.pure rfl

theorem block_reads {statement : Walk Parser StmtNode}
    (hs : Reads I fuel Stmt.node statement (Reading.statement I.endLine)) :
    Reads I (fuel + 1) Stmt.nodes (block I.emitted statement fuel) (Reading.block I.endLine) := by
  intro rest hr
  rw [block, Reading.block_eq]
  refine Meets.consume (by decide) fun _ rest' hr' _ _ => ?_
  rw [hr', List.length_cons] at hr
  refine Meets.check (by decide) (Meets.ite (fun _ => Meets.missing _) fun _ => ?_)
  refine (statements_reads true hs rest' (Nat.lt_of_succ_lt_succ hr)).bind fun _ _ _ => ?_
  exact Meets.consume (by decide) fun _ _ _ _ _ => Meets.pure rfl

theorem parameters?_nodes (es : List Expr) :
    parameters? (Expr.nodes es) = (Parse.parameters? es).map Name.tokens := by
  induction es with
  | nil => rfl
  | cons e es ih =>
      cases e with
      | name name =>
          simp only [Expr.nodes, Expr.node, parameters?, Parse.parameters?, ih, Option.map_map]
          rfl
      | _ => rfl

/-- A block has a statement. -/
theorem block_ne_nil {endLine : Nat} {ts : List Token} {body : List Stmt}
    (h : Reading.block endLine ts = .ok (body, rest)) : body ≠ [] := by
  obtain ⟨us, -, hb⟩ := (Grammar.statementsSound endLine ts).block body rest h
  cases hb
  exact List.cons_ne_nil _ _

section
variable {expression : Walk Parser ExprNode}
  (he : Reads I (fuel + 1) Expr.node expression (Reading.expression I.endLine))
include he

theorem initializer_reads (type : Option Text) :
    Reads I (fuel + 1) Expr.node (initializer I.emitted expression fuel type)
      (Reading.initializer I.endLine type) := by
  intro rest hr
  rw [initializer, Reading.initializer_eq]
  refine Meets.ite (fun _ => typedText_reads rest hr) fun _ => ?_
  refine Meets.ite (fun _ => typedNumber_meets) fun _ => ?_
  exact Meets.ite (fun _ => typedBoolean_meets) fun _ => he rest hr

theorem declaredValue_meets (constant : Bool) (line : Nat) {name : Token}
    (hn : name.kind = .identifier) (type : Option Text) (hr : rest.length < fuel + 1) :
    Meets I Stmt.node (declaredValue I.emitted expression fuel constant line name type) rest
      (if Parse.nextIs .semicolon rest then
        if constant then .error ⟨line, .constantWithoutValue, .source name.lexeme⟩
        else .ok (.declare false (nameOf name) type none, rest.tail)
      else do
        let (_, rest) ← Reading.expect I.endLine .equal .expectedEquals rest
        let (value, rest) ← Reading.initializer I.endLine type rest
        let (_, rest) ← Reading.expect I.endLine .semicolon .expectedSemicolon rest
        .ok (.declare constant (nameOf name) type (some value), rest)) := by
  have declared (constant : Bool) (value : Option Expr) :
      .var (some name) type constant (Expr.node? value) =
        (Stmt.declare constant (nameOf name) type value).node := by
    rw [Stmt.node, token_nameOf hn]
  rw [declaredValue]
  refine Meets.accept_ite (by decide) ?_ ?_
  · rw [if_pos rfl]
    exact Meets.ite (fun _ => Meets.fatal _) fun _ => Meets.pure (declared false none)
  · refine Meets.consume (by decide) fun _ after ha _ _ => ?_
    rw [ha, List.length_cons] at hr
    refine (initializer_reads he type after (Nat.lt_of_succ_lt hr)).bind fun value _ _ => ?_
    exact Meets.consume (by decide) fun _ _ _ _ _ => Meets.pure (declared constant (some value))

theorem varDeclaration_meets (t : Token) (hr : rest.length < fuel + 1) :
    Meets I Stmt.node (varDeclaration I.emitted expression fuel) (t :: rest)
      (Reading.declaration I.endLine (t.kind = .constKeyword) t.line rest) := by
  rw [varDeclaration, Reading.declaration_eq]
  refine Meets.advance fun _ => Meets.consume (by decide) fun name rest' hr' hk _ => ?_
  rw [hr', List.length_cons] at hr
  have hv := fun type rest (hl : List.length rest < fuel + 1) =>
    declaredValue_meets he (t.kind = .constKeyword) t.line hk type hl
  dsimp only
  rw [Reading.declaredType_eq]
  refine Meets.accept (by decide) (fun colon after ha hc _ => ?_) fun hn => ?_
  · subst ha
    rw [List.length_cons] at hr
    simp only [hc, if_true]
    cases after with
    | nil =>
        -- the colon stands for the type, but what must follow the type is not there
        refine MeetsAfter.advance_end (Meets.after ?_)
        exact hv (some colon.lexeme) [] (Nat.succ_pos fuel)
    | cons type after =>
        refine Meets.after (Meets.advance fun _ => ?_)
        exact hv (some type.lexeme) after (by rw [List.length_cons] at hr; omega)
  · cases rest' with
    | nil => exact hv none [] (Nat.succ_pos fuel)
    | cons t rest' =>
        simp only [of_decide_eq_false hn, if_false]
        exact hv none _ (Nat.lt_of_succ_lt hr)

theorem condition_reads :
    Reads I (fuel + 1) Expr.node (condition I.emitted expression)
      (Reading.condition I.endLine) := by
  intro rest hr
  rw [condition, Reading.condition_eq]
  refine Meets.consume (by decide) fun _ rest' hr' _ _ => ?_
  rw [hr', List.length_cons] at hr
  refine Meets.check (by decide) (Meets.ite (fun _ => Meets.missing _) fun _ => ?_)
  refine (he rest' (Nat.lt_of_succ_lt hr)).bind fun _ _ _ => ?_
  exact Meets.consume (by decide) fun _ _ _ _ _ => Meets.pure rfl

theorem expressionStatement_reads :
    Reads I (fuel + 1) Stmt.node (expressionStatement I.emitted expression)
      (Reading.expressionStatement I.endLine) := by
  intro rest hr
  rw [expressionStatement, Reading.expressionStatement_eq]
  refine (he rest hr).bind fun e rest' _ => ?_
  exact Meets.accept_ite (by decide) (Meets.pure rfl) (Meets.pure rfl)

variable {statement : Walk Parser StmtNode}
  (hs : Reads I fuel Stmt.node statement (Reading.statement I.endLine))
include hs

theorem funcDeclaration_meets (t : Token) (hr : rest.length < fuel + 1) :
    Meets I Stmt.node (funcDeclaration I.emitted expression statement fuel) (t :: rest)
      (Reading.function I.endLine rest) := by
  rw [funcDeclaration, Reading.function_eq]
  refine Meets.advance fun _ => Meets.consume (by decide) fun name rest' hr' hk _ => ?_
  rw [hr', List.length_cons] at hr
  have ha := arguments_reads (he.mono (Nat.le_succ fuel)) rest' (Nat.lt_of_succ_lt hr)
  refine ha.bind fun a after hy => ?_
  have hl := Reading.plain_shorter hy
  simp only [argumentNodes, parameters?_nodes]
  cases hp : Parse.parameters? a.2 with
  | none => exact Meets.fatal _
  | some parameters =>
      refine Meets.consume (by decide) fun _ body hb _ _ => ?_
      rw [hb, List.length_cons] at hl
      refine (statements_reads true hs body (by omega)).bind fun _ _ _ => ?_
      refine Meets.consume (by decide) fun _ _ _ _ _ => Meets.pure ?_
      rw [Stmt.node, token_nameOf hk]
      rfl

theorem clause_reads :
    Reads I (fuel + 1) Clause.node (clause I.emitted expression statement fuel)
      (Reading.clause I.endLine) := by
  intro rest hr
  rw [clause, Reading.clause_eq]
  refine (condition_reads he rest hr).bind fun _ rest' hy => ?_
  have hl := Reading.plain_shorter hy
  refine (block_reads hs rest' (by omega)).bind fun _ _ _ => ?_
  exact Meets.pure rfl

theorem clauses_reads :
    Reads I fuel Clause.nodes (clauses I.emitted expression statement fuel)
      (Reading.clauses I.endLine) := by
  induction fuel with
  | zero => exact fun _ hr => absurd hr (Nat.not_lt_zero _)
  | succ fuel ih =>
      have he := he.mono (Nat.le_succ (fuel + 1))
      have hs := hs.mono (Nat.le_succ fuel)
      intro rest hr
      rw [clauses, Reading.clauses_eq]
      refine Meets.accept (by decide) (fun _ after ha hk _ => ?_) fun hn => ?_
      · subst ha
        rw [List.length_cons] at hr
        simp only [hk, if_true]
        refine Meets.after ((clause_reads he hs after (by omega)).bind fun _ rest' hy => ?_)
        have hl := Reading.plain_shorter hy
        refine (ih he hs rest' (by omega)).bind fun _ _ _ => ?_
        exact Meets.pure rfl
      · cases rest with
        | nil => exact Meets.pure rfl
        | cons t rest =>
            simp only [of_decide_eq_false hn, if_false]
            exact Meets.pure rfl

theorem ifStatement_meets {t : Token} (ht : t.kind = .ifKeyword) (hr : rest.length < fuel + 1) :
    Meets I Stmt.node (ifStatement I.emitted expression statement fuel) (t :: rest)
      (Reading.conditional I.endLine t.line rest) := by
  rw [ifStatement, Reading.conditional_eq]
  refine Meets.advance fun hm => (clause_reads he hs rest hr).bind fun first rest' hy => ?_
  have hl := Reading.plain_shorter hy
  obtain ⟨test, body⟩ := first
  dsimp only [Clause.node]
  refine (clauses_reads he hs rest' (by omega)).bind fun others rest'' hy' => ?_
  have hl' := Reading.plain_shorter hy'
  have hkeyword := Input.eq_sign hm ht rfl
  refine Meets.accept_ite (by decide) ?_ (Meets.pure ?_)
  · have hl : rest''.tail.length < fuel + 1 := by
      rw [List.length_tail]
      omega
    refine (block_reads hs _ hl).bind fun otherwise _ hb => Meets.pure ?_
    rw [Stmt.node, List.isEmpty_eq_false_iff.mpr (block_ne_nil hb), ← hkeyword]
    rfl
  · rw [Stmt.node, ← hkeyword]
    rfl

end

/-- The parser of statements reads statements. -/
theorem statement_reads :
    Reads I fuel Stmt.node (statement I.emitted fuel) (Reading.statement I.endLine) := by
  induction fuel with
  | zero => exact fun _ hr => absurd hr (Nat.not_lt_zero _)
  | succ fuel ih =>
      have he : Reads I (fuel + 1) Expr.node _ _ := assignment_reads
      intro rest hr
      rw [statement, Reading.statement_eq]
      refine Meets.peek ?_
      cases rest with
      | nil => exact expressionStatement_reads he [] hr
      | cons t rest =>
          have hl : rest.length < fuel + 1 := Nat.lt_of_succ_lt hr
          have hv := varDeclaration_meets he t hl
          dsimp only [Input.next, Emitted.token_of]
          refine Meets.ite (fun hk => ?_) fun _ => ?_
          · simpa only [hk, reduceCtorEq, decide_false] using hv
          refine Meets.ite (fun hk => ?_) fun _ => ?_
          · simpa only [hk, decide_true] using hv
          refine Meets.ite (fun _ => funcDeclaration_meets he ih t hl) fun _ => ?_
          refine Meets.ite (fun hk => ifStatement_meets he ih hk hl) fun _ => ?_
          exact expressionStatement_reads he (t :: rest) hr

/-- The parser of a program reads its statements. -/
theorem parse_reads :
    Reads I fuel Stmt.nodes (parse I.emitted fuel) (Reading.statements I.endLine false) :=
  statements_reads false statement_reads

end Scripting.Parser
