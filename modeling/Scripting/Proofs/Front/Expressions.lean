import Scripting.Proofs.Front.Cursor

/-!
Parsing expressions with a cursor. An expression inside another one begins after a token of the
outer one, so that each of them is given the walk for those inside it, and repetitions go over a
token each time. Each walk reads what the reader of the same form reads, and builds its tree.
-/

namespace Scripting.Parser

open Parse (nameOf)

section
variable (tokens : List Emitted)

/-- The words up to what is no word. -/
def words : (fuel : Nat) → Walk Parser (List Text)
  | 0 => Walk.exhausted
  | fuel + 1 => do
    if ← check tokens .word then
      let t ← advance tokens
      let others ← words fuel
      return t.token.lexeme :: others
    else return []

/-- Operands that are joined by operators of one strength. -/
def operators (additive : Bool) (operand : Walk Parser ExprNode) :
    (fuel : Nat) → ExprNode → Walk Parser ExprNode
  | 0, _ => Walk.exhausted
  | fuel + 1, left => do
    if ← acceptSign tokens (Grammar.signs additive) then
      let operator ← previous tokens
      let right ← operand
      operators additive operand fuel (.binary left (some operator.token) right)
    else return left

variable (expression : Walk Parser ExprNode)

def primary (fuel : Nat) : Walk Parser ExprNode := do
  let t ← peek tokens
  if t.token.kind = .identifier then
    let name ← advance tokens
    return .identifier (some name.token)
  else if t.token.kind = .number then
    let number ← advance tokens
    return .numeric (← numberOf number)
  else if t.token.kind = .quote then
    let _ ← advance tokens
    beginText
    let texts ← words tokens fuel
    let _ ← consume tokens .quote .unclosedQuote
    return .string (Text.join (Text.utf8 " ") texts)
  else if t.token.kind = .leftParen then
    let _ ← advance tokens
    let e ← expression
    let _ ← consume tokens .rightParen .unclosedParen
    return e
  else unexpected tokens .unexpectedToken

/-- The members and indices that follow an object. -/
def members : (fuel : Nat) → ExprNode → Walk Parser ExprNode
  | 0, _ => Walk.exhausted
  | fuel + 1, object => do
    if ← checkEither tokens .dot .leftBracket then
      let operator ← advance tokens
      if operator.token.kind = .dot then
        match ← primary tokens expression fuel with
        | .identifier name =>
          members fuel (.member object (.identifier name) false (some operator.token))
        | _ => fatal ⟨operator.token.line, .expectedProperty, .nothing⟩
      else
        let key ← expression
        let _ ← consume tokens .rightBracket .unclosedBracket
        members fuel (.member object key true (some operator.token))
    else return object

def member (fuel : Nat) : Walk Parser ExprNode := do
  let object ← primary tokens expression fuel
  members tokens expression fuel object

/-- One argument or more, with commas between. -/
def someArguments : (fuel : Nat) → Walk Parser (List ExprNode)
  | 0 => Walk.exhausted
  | fuel + 1 => do
    let e ← expression
    if ← accept tokens .comma then
      let others ← someArguments fuel
      return e :: others
    else return [e]

def manyArguments (fuel : Nat) : Walk Parser (List ExprNode) := do
  if ← check tokens .rightParen then return []
  else someArguments tokens expression fuel

/-- Arguments in parentheses, with the opening one. -/
def arguments (fuel : Nat) : Walk Parser (Token × List ExprNode) := do
  let paren ← consume tokens .leftParen .expectedOpenParen
  let es ← manyArguments tokens expression fuel
  let _ ← consume tokens .rightParen .unclosedArguments
  return (paren.token, es)

/-- A call, and the calls of what it returns. -/
def call : (fuel : Nat) → ExprNode → Walk Parser ExprNode
  | 0, _ => Walk.exhausted
  | fuel + 1, callee => do
    let (paren, es) ← arguments tokens expression fuel
    if ← check tokens .leftParen then call fuel (.call callee (some paren) es)
    else return .call callee (some paren) es

def callMember (fuel : Nat) : Walk Parser ExprNode := do
  let callee ← member tokens expression fuel
  if ← check tokens .leftParen then call tokens expression fuel callee
  else return callee

def multiplication (fuel : Nat) : Walk Parser ExprNode := do
  let left ← callMember tokens expression fuel
  operators tokens false (callMember tokens expression fuel) fuel left

def addition (fuel : Nat) : Walk Parser ExprNode := do
  let left ← multiplication tokens expression fuel
  operators tokens true (multiplication tokens expression fuel) fuel left

/-- The properties up to the end or a closing brace. -/
def properties : (fuel : Nat) → Walk Parser (List PropertyNode)
  | 0 => Walk.exhausted
  | fuel + 1 => do
    if ← isAtClose tokens then return []
    else
      let key ← consume tokens .identifier .expectedKey
      if ← accept tokens .comma then
        let others ← properties fuel
        return .mk (some key.token) .nil :: others
      else if ← check tokens .rightBrace then
        let others ← properties fuel
        return .mk (some key.token) .nil :: others
      else
        let _ ← consume tokens .colon .expectedColon
        let value ← expression
        -- the last property does not need a comma
        if ← check tokens .rightBrace then
          let others ← properties fuel
          return .mk (some key.token) value :: others
        else
          let _ ← consume tokens .comma .expectedComma
          let others ← properties fuel
          return .mk (some key.token) value :: others

def object (fuel : Nat) : Walk Parser ExprNode := do
  if ← check tokens .leftBrace then
    let _ ← advance tokens
    let ps ← properties tokens expression fuel
    let _ ← consume tokens .rightBrace .unclosedObject
    return .object ps
  else addition tokens expression fuel

end

/-- An expression: an assignment, or what can be assigned. -/
def assignment (tokens : List Emitted) : (fuel : Nat) → Walk Parser ExprNode
  | 0 => Walk.exhausted
  | fuel + 1 => do
    let target ← object tokens (assignment tokens fuel) fuel
    if ← accept tokens .equal then
      let equal ← previous tokens
      let value ← assignment tokens fuel
      return .assign target (some equal.token) value
    else return target

/-- The name of a token that is an identifier is told by the same token. -/
theorem token_nameOf {t : Token} (h : t.kind = .identifier) : (nameOf t).token = t := by
  rw [nameOf, Name.token, ← h]

theorem token_of_sign {additive : Bool} {t : Token} {op : Operator}
    (h : Grammar.Sign additive t op) : t = op.token t.line := by
  rw [Operator.token, ← h.kind, ← h.lexeme]

/-- Arguments with the parenthesis before them. -/
def argumentNodes (a : Nat × List Expr) : Token × List ExprNode :=
  (.sign .leftParen a.1, Expr.nodes a.2)

variable {I : Input} {fuel : Nat} {rest : List Token}

theorem words_meets (h : rest.length < fuel) :
    Meets I id (words I.emitted fuel) rest
      (.ok ((rest.takeWhile Parse.isWord).map Token.lexeme, rest.dropWhile Parse.isWord)) := by
  induction fuel generalizing rest with
  | zero => exact absurd h (Nat.not_lt_zero _)
  | succ fuel ih =>
      rw [words]
      refine Meets.check (by decide) ?_
      cases rest with
      | nil => exact Meets.pure rfl
      | cons t rest =>
          rw [List.takeWhile_cons, List.dropWhile_cons]
          have hw : Parse.nextIs .word (t :: rest) = Parse.isWord t := rfl
          rw [hw]
          split
          · refine Meets.advance fun _ => ?_
            exact (ih (Nat.lt_of_succ_lt_succ h)).bind_ok (Meets.pure rfl)
          · exact Meets.pure rfl

section
variable {expression : Walk Parser ExprNode}
  (he : Reads I fuel Expr.node expression (Reading.expression I.endLine))
include he

theorem primary_reads :
    Reads I (fuel + 1) Expr.node (primary I.emitted expression fuel)
      (Reading.primary I.endLine) := by
  intro rest hr
  rw [primary, Reading.primary_eq]
  refine Meets.peek ?_
  cases rest with
  | nil => exact Meets.unexpected _
  | cons t rest =>
      have hl : rest.length < fuel := Nat.lt_of_succ_lt_succ hr
      dsimp only [Input.next, Emitted.token_of]
      refine Meets.ite (fun hk => Meets.advance fun _ => Meets.pure ?_) fun _ => ?_
      · rw [Expr.node, token_nameOf hk]
        rfl
      refine Meets.ite (fun hk => ?_) fun _ => ?_
      · exact Meets.advance fun _ => Meets.numberOf hk (Meets.pure rfl)
      refine Meets.ite (fun _ => ?_) fun _ => ?_
      · refine Meets.advance fun _ => Meets.beginText ((words_meets hl).bind_ok ?_)
        exact Meets.consume (by decide) fun _ _ _ _ _ => Meets.pure rfl
      refine Meets.ite (fun _ => ?_) fun _ => Meets.unexpected _
      refine Meets.advance fun _ => (he rest hl).bind fun e rest' _ => ?_
      exact Meets.consume (by decide) fun _ _ _ _ _ => Meets.pure rfl

theorem members_reads (object : Expr) :
    Reads I fuel Expr.node (members I.emitted expression fuel object.node)
      (Reading.memberTail I.endLine object) := by
  induction fuel generalizing object with
  | zero => exact fun _ hr => absurd hr (Nat.not_lt_zero _)
  | succ fuel ih =>
      have he := he.mono (Nat.le_succ fuel)
      intro rest hr
      rw [members, Reading.memberTail_eq]
      refine Meets.checkEither (by decide) (by decide) ?_
      cases rest with
      | nil => exact Meets.pure rfl
      | cons t rest =>
          have hl : rest.length < fuel := Nat.lt_of_succ_lt_succ hr
          by_cases hd : t.kind = .dot
          · simp only [Parse.nextIs, hd, decide_true, Bool.true_or, if_true]
            refine Meets.advance fun hm => ?_
            simp only [Emitted.token_of, hd, if_true]
            refine (primary_reads he rest (Nat.lt_succ_of_lt hl)).bind fun key rest' hy => ?_
            have hs := Reading.plain_shorter hy
            cases key with
            | name key =>
                have h := ih he (.member object t.line key) rest' (Nat.lt_trans hs hl)
                rw [Expr.node, ← Input.eq_sign hm hd rfl] at h
                exact h
            | _ => exact Meets.fatal _
          by_cases hb : t.kind = .leftBracket
          · simp only [Parse.nextIs, hb, decide_true, Bool.or_true, if_true, reduceCtorEq, if_false]
            refine Meets.advance fun hm => ?_
            simp only [Emitted.token_of, hb, reduceCtorEq, if_false]
            refine (he rest hl).bind fun key rest' hy => ?_
            refine Meets.consume (by decide) fun _ rest'' hr' _ _ => ?_
            have hs := Reading.plain_shorter hy
            rw [hr', List.length_cons] at hs
            have h := ih he (.index object t.line key) rest'' (by omega)
            rw [Expr.node, ← Input.eq_sign hm hb rfl] at h
            exact h
          · simp only [Parse.nextIs, hd, hb, decide_false, Bool.or_false, if_false,
              Bool.false_eq_true]
            exact Meets.pure rfl

theorem member_reads :
    Reads I (fuel + 1) Expr.node (member I.emitted expression fuel) (Reading.member I.endLine) := by
  intro rest hr
  rw [member, Reading.member_eq]
  refine (primary_reads he rest hr).bind fun object rest' hy => ?_
  have hs := Reading.plain_shorter hy
  exact members_reads he object rest' (by omega)

theorem someArguments_reads :
    Reads I fuel Expr.nodes (someArguments I.emitted expression fuel)
      (Reading.expressions I.endLine) := by
  induction fuel with
  | zero => exact fun _ hr => absurd hr (Nat.not_lt_zero _)
  | succ fuel ih =>
      intro rest hr
      rw [someArguments, Reading.expressions_eq]
      refine (he rest hr).bind fun e rest' hy => ?_
      have hs := Reading.plain_shorter hy
      refine Meets.accept_ite (by decide) ?_ (Meets.pure rfl)
      have hl : rest'.tail.length < fuel := by
        rw [List.length_tail]
        omega
      refine (ih (he.mono (Nat.le_succ fuel)) _ hl).bind fun _ _ _ => ?_
      exact Meets.pure rfl

theorem manyArguments_meets (hr : rest.length < fuel) :
    Meets I Expr.nodes (manyArguments I.emitted expression fuel) rest
      (if Parse.nextIs .rightParen rest then .ok ([], rest)
        else Reading.expressions I.endLine rest) := by
  rw [manyArguments]
  refine Meets.check (by decide) (Meets.ite (fun _ => Meets.pure rfl) fun _ => ?_)
  exact someArguments_reads he rest hr

theorem arguments_reads :
    Reads I (fuel + 1) argumentNodes (arguments I.emitted expression fuel)
      (Reading.argumentList I.endLine) := by
  intro rest hr
  rw [arguments, Reading.argumentList_eq]
  refine Meets.consume (by decide) fun paren rest' hr' hk hm => ?_
  have hl : rest'.length < fuel := by
    rw [hr', List.length_cons] at hr
    omega
  have hparen (es : List Expr) : (paren, Expr.nodes es) = argumentNodes (paren.line, es) := by
    rw [argumentNodes, ← Input.eq_sign hm hk rfl]
  have hmany := manyArguments_meets he hl
  dsimp only
  split
  · next hn =>
      rw [if_pos hn] at hmany
      refine hmany.bind_ok ?_
      exact Meets.consume (by decide) fun _ _ _ _ _ => Meets.pure (hparen [])
  · next hn =>
      rw [if_neg hn] at hmany
      refine hmany.bind fun es rest'' _ => ?_
      exact Meets.consume (by decide) fun _ _ _ _ _ => Meets.pure (hparen es)

/-- Where arguments follow, they are those of a call. -/
theorem call_meets (callee : Expr) (hr : rest.length < fuel)
    (hn : Parse.nextIs .leftParen rest = true) :
    Meets I Expr.node (call I.emitted expression fuel callee.node) rest
      (Reading.callTail I.endLine callee rest) := by
  induction fuel generalizing callee rest with
  | zero => exact absurd hr (Nat.not_lt_zero _)
  | succ fuel ih =>
      have he := he.mono (Nat.le_succ fuel)
      rw [call, Reading.callTail_eq, if_pos hn]
      refine (arguments_reads he rest hr).bind fun a rest' hy => ?_
      have hs := Reading.plain_shorter hy
      refine Meets.check (by decide) ?_
      dsimp only
      split
      · next hn' => exact ih he (.call callee a.1 a.2) (by omega) hn'
      · next hn' =>
          rw [Reading.callTail_eq, if_neg hn']
          exact Meets.pure rfl

theorem callMember_reads :
    Reads I (fuel + 1) Expr.node (callMember I.emitted expression fuel)
      (Reading.callMember I.endLine) := by
  intro rest hr
  rw [callMember, Reading.callMember_eq]
  refine (member_reads he rest hr).bind fun callee rest' hy => ?_
  have hs := Reading.plain_shorter hy
  refine Meets.check (by decide) ?_
  dsimp only
  split
  · next hn => exact call_meets he callee (by omega) hn
  · next hn =>
      rw [Reading.callTail_eq, if_neg hn]
      exact Meets.pure rfl

omit he in
/-- Operators of either strength, by the reader of their operands and the one of what follows. -/
theorem operators_reads {additive : Bool} {operand : Walk Parser ExprNode}
    {reader : List Token → Except ParseError (Expr × List Token)}
    {tail : Expr → List Token → Except ParseError (Expr × List Token)}
    (hshorter : ∀ {rest e rest'}, reader rest = .ok (e, rest') → rest'.length < rest.length)
    (htail : ∀ left ts, tail left ts =
      match ts with
      | [] => .ok (left, [])
      | t :: rest =>
        match Parse.operator? additive t with
        | some op => do
          let (right, rest) ← reader rest
          tail (.binary left op t.line right) rest
        | none => .ok (left, t :: rest))
    (ho : Reads I fuel Expr.node operand reader) (left : Expr) :
    Reads I fuel Expr.node (operators I.emitted additive operand fuel left.node) (tail left) := by
  induction fuel generalizing left with
  | zero => exact fun _ hr => absurd hr (Nat.not_lt_zero _)
  | succ fuel ih =>
      have ho := ho.mono (Nat.le_succ fuel)
      intro rest hr
      rw [operators, htail]
      refine Meets.acceptSign (fun t after op hr' hop => ?_) fun hn => ?_
      · subst hr'
        have hl : after.length < fuel := Nat.lt_of_succ_lt_succ hr
        simp only [Grammar.operator?_eq_some_iff.mpr hop]
        refine MeetsAfter.previous (Meets.after ?_)
        refine (ho after hl).bind fun right rest' hy => ?_
        have h := ih ho (.binary left op t.line right) rest' (Nat.lt_trans (hshorter hy) hl)
        rw [Expr.node, ← token_of_sign hop] at h
        exact h
      · cases rest with
        | nil => exact Meets.pure rfl
        | cons t rest =>
            simp only [hn t rest rfl]
            exact Meets.pure rfl

theorem multiplication_reads :
    Reads I (fuel + 1) Expr.node (multiplication I.emitted expression fuel)
      (Reading.product I.endLine) := by
  have ho := callMember_reads he
  intro rest hr
  rw [multiplication, Reading.product_eq]
  refine (ho rest hr).bind fun left rest' hy => ?_
  have hs := Reading.plain_shorter hy
  exact operators_reads Reading.plain_shorter (Reading.productTail_eq I.endLine)
    (ho.mono (Nat.le_succ fuel)) left rest' (by omega)

theorem addition_reads :
    Reads I (fuel + 1) Expr.node (addition I.emitted expression fuel) (Reading.sum I.endLine) := by
  have ho := multiplication_reads he
  intro rest hr
  rw [addition, Reading.sum_eq]
  refine (ho rest hr).bind fun left rest' hy => ?_
  have hs := Reading.plain_shorter hy
  exact operators_reads Reading.plain_shorter (Reading.sumTail_eq I.endLine)
    (ho.mono (Nat.le_succ fuel)) left rest' (by omega)

theorem properties_reads :
    Reads I fuel Property.nodes (properties I.emitted expression fuel)
      (Reading.properties I.endLine) := by
  induction fuel with
  | zero => exact fun _ hr => absurd hr (Nat.not_lt_zero _)
  | succ fuel ih =>
      have he := he.mono (Nat.le_succ fuel)
      have closed {rest : List Token} (hb : Parse.nextIs .rightBrace rest = true)
          (hl : rest.length < fuel) :
          Meets I Property.nodes (properties I.emitted expression fuel) rest (.ok ([], rest)) := by
        have hp := ih he rest hl
        rwa [Reading.properties_eq, hb, Bool.or_true, if_pos rfl] at hp
      intro rest hr
      rw [properties, Reading.properties_eq]
      refine Meets.isAtClose (Meets.ite (fun _ => Meets.pure rfl) fun _ => ?_)
      refine Meets.consume (by decide) fun key rest' hr' hk _ => ?_
      have hl : rest'.length < fuel := by
        rw [hr', List.length_cons] at hr
        omega
      have alone (ps : List Property) : .mk (some key) .nil :: Property.nodes ps =
          Property.nodes (.shorthand (nameOf key) :: ps) := by
        rw [Property.nodes, Property.node, token_nameOf hk]
      have paired (value : Expr) (ps : List Property) :
          .mk (some key) value.node :: Property.nodes ps =
            Property.nodes (.pair (nameOf key) value :: ps) := by
        rw [Property.nodes, Property.node, token_nameOf hk]
      refine Meets.accept_ite (by decide) ?_ (Meets.check (by decide) ?_)
      · have ht : rest'.tail.length < fuel := by
          rw [List.length_tail]
          omega
        refine (ih he _ ht).bind fun _ _ _ => ?_
        exact Meets.pure (alone _)
      refine Meets.ite (fun hb => ?_) fun _ => ?_
      · exact (closed hb hl).bind_ok (Meets.pure (alone []))
      refine Meets.consume (by decide) fun _ after ha _ _ => ?_
      rw [ha, List.length_cons] at hl
      refine (he after (Nat.lt_of_succ_lt hl)).bind fun value rest'' hy => ?_
      have hs := Reading.plain_shorter hy
      refine Meets.check (by decide) (Meets.ite (fun hb => ?_) fun _ => ?_)
      · exact (closed hb (by omega)).bind_ok (Meets.pure (paired value []))
      refine Meets.consume (by decide) fun _ after' ha' _ _ => ?_
      rw [ha', List.length_cons] at hs
      refine (ih he after' (by omega)).bind fun _ _ _ => ?_
      exact Meets.pure (paired value _)

theorem object_reads :
    Reads I (fuel + 1) Expr.node (object I.emitted expression fuel)
      (Reading.operand I.endLine) := by
  intro rest hr
  rw [object, Reading.operand_eq]
  refine Meets.check (by decide) ?_
  cases rest with
  | nil => exact addition_reads he [] hr
  | cons t rest =>
      have hl : rest.length < fuel := Nat.lt_of_succ_lt_succ hr
      dsimp only [Parse.nextIs]
      simp only [decide_eq_true_eq]
      refine Meets.ite (fun _ => ?_) fun _ => addition_reads he (t :: rest) hr
      refine Meets.advance fun _ => (properties_reads he rest hl).bind fun ps rest' _ => ?_
      exact Meets.consume (by decide) fun _ _ _ _ _ => Meets.pure rfl

end

/-- The parser of expressions reads expressions. -/
theorem assignment_reads :
    Reads I fuel Expr.node (assignment I.emitted fuel) (Reading.expression I.endLine) := by
  induction fuel with
  | zero => exact fun _ hr => absurd hr (Nat.not_lt_zero _)
  | succ fuel ih =>
      intro rest hr
      rw [assignment, Reading.expression_eq]
      refine (object_reads ih rest hr).bind fun target rest' hy => ?_
      have hs := Reading.plain_shorter hy
      dsimp only
      rw [Reading.assignTail_eq]
      refine Meets.accept (by decide) (fun equal after ha hk hm => ?_) fun hn => ?_
      · subst ha
        simp only [hk, if_true]
        rw [List.length_cons] at hs
        refine MeetsAfter.previous (Meets.after ?_)
        refine (ih after (by omega)).bind fun value _ _ => Meets.pure ?_
        rw [Expr.node, ← Input.eq_sign hm hk rfl]
        rfl
      · cases rest' with
        | nil => exact Meets.pure rfl
        | cons t after =>
            simp only [of_decide_eq_false hn, if_false]
            exact Meets.pure rfl

end Scripting.Parser
