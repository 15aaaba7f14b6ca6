import Scripting.Proofs.Parse.Reading
import Scripting.Proofs.Program.Lines

/-!
Reading does not look at lines. If the lines of the tokens and of the end are changed, what
is read is the same tree, or the same error, with its lines changed in the same way.
-/

namespace Scripting

namespace ParseError

def Near.mapLine (f : Nat → Nat) : Near → Near
  | .token t => .token (t.mapLine f)
  | near => near

def mapLine (f : Nat → Nat) (e : ParseError) : ParseError := ⟨f e.line, e.cause, e.near.mapLine f⟩

theorem isIncomplete_mapLine (f : Nat → Nat) (e : ParseError) :
    (e.mapLine f).isIncomplete = e.isIncomplete := by
  have hn : (e.mapLine f).near = .endOfInput ↔ e.near = .endOfInput := by
    rw [mapLine]
    cases e.near <;> simp [Near.mapLine]
  rw [isIncomplete, isIncomplete, decide_eq_decide.mpr hn]
  rfl

end ParseError

namespace Reading

open Parse (isWord operator? nextIs nextLine parameters?)

/-- Where one reading gives a value or an error, the other one gives the same on other lines. -/
def Moves {α : Type} (f : Nat → Nat) (change : α → α) (x y : Except ParseError (α × List Token)) :
    Prop :=
  match x with
  | .ok (v, rest) => y = .ok (change v, rest.map (Token.mapLine f))
  | .error e => y = .error (e.mapLine f)

namespace Moves

variable {α β : Type} {f : Nat → Nat} {change : α → α} {change' : β → β}
    {x y : Except ParseError (α × List Token)}

theorem ok (v : α) (rest : List Token) :
    Moves f change (.ok (v, rest)) (.ok (change v, rest.map (Token.mapLine f))) := rfl

theorem error (e : ParseError) : Moves f change (.error e) (.error (e.mapLine f)) := rfl

theorem bind {g g' : α × List Token → Except ParseError (β × List Token)}
    (h : Moves f change x y)
    (hg : ∀ v rest, x = .ok (v, rest) →
      Moves f change' (g (v, rest)) (g' (change v, rest.map (Token.mapLine f)))) :
    Moves f change' (x >>= g) (y >>= g') := by
  cases x with
  | error e =>
      rw [show y = .error (e.mapLine f) from h]
      exact .error e
  | ok p =>
      obtain ⟨v, rest⟩ := p
      rw [show y = .ok (change v, rest.map (Token.mapLine f)) from h]
      exact hg v rest rfl

theorem ite {c c' : Prop} [Decidable c] [Decidable c'] (hc : c' ↔ c)
    {x' y' : Except ParseError (α × List Token)} (h : Moves f change x y)
    (h' : Moves f change x' y') :
    Moves f change (if c then x else x') (if c' then y else y') := by
  by_cases hp : c
  · rwa [if_pos hp, if_pos (hc.mpr hp)]
  · rwa [if_neg hp, if_neg (mt hc.mp hp)]

end Moves

variable {f : Nat → Nat}

@[simp] theorem nextIs_mapLine (kind : Token.Kind) (ts : List Token) :
    nextIs kind (ts.map (Token.mapLine f)) = nextIs kind ts := by
  cases ts <;> rfl

theorem nextLine_mapLine (endLine : Nat) (ts : List Token) :
    nextLine (f endLine) (ts.map (Token.mapLine f)) = f (nextLine endLine ts) := by
  cases ts <;> rfl

theorem parameters?_mapLines (es : List Expr) :
    parameters? (Expr.mapLinesEach f es) = (parameters? es).map (List.map (Name.mapLine f)) := by
  induction es with
  | nil => rfl
  | cons e rest ih =>
      cases e with
      | name name =>
          rw [Expr.mapLinesEach, Expr.mapLines, parameters?, parameters?, ih, Option.map_map,
            Option.map_map]
          rfl
      | _ => rfl

theorem map_lexeme_takeWhile (test : Token → Bool) (ht : ∀ t, test (t.mapLine f) = test t)
    (ts : List Token) :
    ((ts.map (Token.mapLine f)).takeWhile test).map Token.lexeme =
      (ts.takeWhile test).map Token.lexeme := by
  rw [List.takeWhile_map, List.map_map, show test ∘ Token.mapLine f = test from funext ht]
  rfl

theorem map_dropWhile (test : Token → Bool) (ht : ∀ t, test (t.mapLine f) = test t)
    (ts : List Token) :
    (ts.map (Token.mapLine f)).dropWhile test = (ts.dropWhile test).map (Token.mapLine f) := by
  rw [List.dropWhile_map, show test ∘ Token.mapLine f = test from funext ht]

variable (endLine : Nat)

theorem expect_moves (kind : Token.Kind) (cause : ParseError.Cause) (ts : List Token) :
    Moves f (Token.mapLine f) (expect endLine kind cause ts)
      (expect (f endLine) kind cause (ts.map (Token.mapLine f))) := by
  cases ts with
  | nil => exact .error _
  | cons t rest =>
      rw [expect_eq, List.map_cons, expect_eq]
      exact .ite .rfl (.ok t rest) (.error _)

/-- The readers of expressions on one list of tokens and on that list with other lines. -/
structure ExpressionsMove (f : Nat → Nat) (ts : List Token) : Prop where
  primary : Moves f (Expr.mapLines f) (primary endLine ts)
    (primary (f endLine) (ts.map (Token.mapLine f)))
  memberTail : ∀ object : Expr, Moves f (Expr.mapLines f) (memberTail endLine object ts)
    (memberTail (f endLine) (object.mapLines f) (ts.map (Token.mapLine f)))
  callTail : ∀ callee : Expr, Moves f (Expr.mapLines f) (callTail endLine callee ts)
    (callTail (f endLine) (callee.mapLines f) (ts.map (Token.mapLine f)))
  callMember : Moves f (Expr.mapLines f) (callMember endLine ts)
    (callMember (f endLine) (ts.map (Token.mapLine f)))
  argumentList : Moves f (Prod.map f (Expr.mapLinesEach f)) (argumentList endLine ts)
    (argumentList (f endLine) (ts.map (Token.mapLine f)))
  expressions : Moves f (Expr.mapLinesEach f) (expressions endLine ts)
    (expressions (f endLine) (ts.map (Token.mapLine f)))
  productTail : ∀ left : Expr, Moves f (Expr.mapLines f) (productTail endLine left ts)
    (productTail (f endLine) (left.mapLines f) (ts.map (Token.mapLine f)))
  product : Moves f (Expr.mapLines f) (product endLine ts)
    (product (f endLine) (ts.map (Token.mapLine f)))
  sumTail : ∀ left : Expr, Moves f (Expr.mapLines f) (sumTail endLine left ts)
    (sumTail (f endLine) (left.mapLines f) (ts.map (Token.mapLine f)))
  properties : Moves f (Property.mapLinesEach f) (properties endLine ts)
    (properties (f endLine) (ts.map (Token.mapLine f)))
  expression : Moves f (Expr.mapLines f) (expression endLine ts)
    (expression (f endLine) (ts.map (Token.mapLine f)))

section

variable {ts : List Token}
    (ih : ∀ vs : List Token, vs.length < ts.length → ExpressionsMove endLine f vs)
include ih

theorem primary_moves : Moves f (Expr.mapLines f) (primary endLine ts)
    (primary (f endLine) (ts.map (Token.mapLine f))) := by
  cases ts with
  | nil =>
      rw [List.map_nil, primary_nil, primary_nil]
      exact .error _
  | cons t rest =>
      rw [primary_eq, List.map_cons, primary_eq]
      refine .ite .rfl (.ok _ _) (.ite .rfl (.ok _ _) (.ite .rfl ?_ (.ite .rfl ?_ (.error _))))
      · rw [map_dropWhile isWord fun _ => rfl, map_lexeme_takeWhile isWord fun _ => rfl]
        exact .bind (expect_moves ..) fun _ _ _ => .ok _ _
      · refine .bind (ih rest (by simp)).expression fun e mid _ => ?_
        exact .bind (expect_moves ..) fun _ _ _ => .ok _ _

theorem memberTail_moves (object : Expr) :
    Moves f (Expr.mapLines f) (memberTail endLine object ts)
      (memberTail (f endLine) (object.mapLines f) (ts.map (Token.mapLine f))) := by
  cases ts with
  | nil =>
      rw [List.map_nil, memberTail_nil, memberTail_nil]
      exact .ok _ _
  | cons t rest =>
      rw [memberTail_eq, List.map_cons, memberTail_eq]
      refine .ite .rfl ?_ (.ite .rfl ?_ (.ok _ (t :: rest)))
      · refine .bind (ih rest (by simp)).primary fun key mid hk => ?_
        have hl : mid.length < (t :: rest).length := Nat.lt_succ_of_lt (plain_shorter hk)
        cases key with
        | name key => exact (ih mid hl).memberTail (.member object t.line key)
        | _ => exact .error _
      · refine .bind (ih rest (by simp)).expression fun key mid hk => ?_
        refine .bind (expect_moves ..) fun closing last hc => ?_
        have hl : last.length < (t :: rest).length := by
          have hs := plain_shorter hk
          have hs' := plain_shorter hc
          simp only [List.length_cons] at hs ⊢
          omega
        exact (ih last hl).memberTail (.index object t.line key)

theorem member_moves : Moves f (Expr.mapLines f) (member endLine ts)
    (member (f endLine) (ts.map (Token.mapLine f))) := by
  rw [member_eq, member_eq]
  refine .bind (primary_moves endLine ih) fun object rest hp => ?_
  exact (ih rest (plain_shorter hp)).memberTail object

theorem callMember_moves : Moves f (Expr.mapLines f) (callMember endLine ts)
    (callMember (f endLine) (ts.map (Token.mapLine f))) := by
  rw [callMember_eq, callMember_eq]
  refine .bind (member_moves endLine ih) fun callee rest hc => ?_
  exact (ih rest (plain_shorter hc)).callTail callee

theorem argumentList_moves : Moves f (Prod.map f (Expr.mapLinesEach f)) (argumentList endLine ts)
    (argumentList (f endLine) (ts.map (Token.mapLine f))) := by
  rw [argumentList_eq, argumentList_eq]
  refine .bind (expect_moves ..) fun paren rest hp => ?_
  refine .ite (by simp) (.bind (expect_moves ..) fun _ _ _ => .ok _ _) ?_
  refine .bind (ih rest (plain_shorter hp)).expressions fun arguments mid _ => ?_
  exact .bind (expect_moves ..) fun _ _ _ => .ok _ _

theorem callTail_moves (callee : Expr) :
    Moves f (Expr.mapLines f) (callTail endLine callee ts)
      (callTail (f endLine) (callee.mapLines f) (ts.map (Token.mapLine f))) := by
  rw [callTail_eq, callTail_eq]
  refine .ite (by simp) ?_ (.ok _ _)
  refine .bind (argumentList_moves endLine ih) fun arguments rest hr => ?_
  exact (ih rest (plain_shorter hr)).callTail (.call callee arguments.1 arguments.2)

theorem productTail_moves (left : Expr) :
    Moves f (Expr.mapLines f) (productTail endLine left ts)
      (productTail (f endLine) (left.mapLines f) (ts.map (Token.mapLine f))) := by
  cases ts with
  | nil =>
      rw [List.map_nil, productTail_nil, productTail_nil]
      exact .ok _ _
  | cons t rest =>
      rw [productTail_eq, List.map_cons, productTail_eq]
      cases ho : operator? false t with
      | none =>
          simp only [ho, show operator? false (t.mapLine f) = none from ho]
          exact .ok _ (t :: rest)
      | some op =>
          simp only [ho, show operator? false (t.mapLine f) = some op from ho]
          refine .bind (ih rest (by simp)).callMember fun right mid hr => ?_
          exact (ih mid (Nat.lt_succ_of_lt (plain_shorter hr))).productTail
            (.binary left op t.line right)

theorem product_moves : Moves f (Expr.mapLines f) (product endLine ts)
    (product (f endLine) (ts.map (Token.mapLine f))) := by
  rw [product_eq, product_eq]
  refine .bind (callMember_moves endLine ih) fun left rest hl => ?_
  exact (ih rest (plain_shorter hl)).productTail left

theorem sumTail_moves (left : Expr) :
    Moves f (Expr.mapLines f) (sumTail endLine left ts)
      (sumTail (f endLine) (left.mapLines f) (ts.map (Token.mapLine f))) := by
  cases ts with
  | nil =>
      rw [List.map_nil, sumTail_nil, sumTail_nil]
      exact .ok _ _
  | cons t rest =>
      rw [sumTail_eq, List.map_cons, sumTail_eq]
      cases ho : operator? true t with
      | none =>
          simp only [ho, show operator? true (t.mapLine f) = none from ho]
          exact .ok _ (t :: rest)
      | some op =>
          simp only [ho, show operator? true (t.mapLine f) = some op from ho]
          refine .bind (ih rest (by simp)).product fun right mid hr => ?_
          exact (ih mid (Nat.lt_succ_of_lt (plain_shorter hr))).sumTail
            (.binary left op t.line right)

theorem operand_moves : Moves f (Expr.mapLines f) (operand endLine ts)
    (operand (f endLine) (ts.map (Token.mapLine f))) := by
  have hs : Moves f (Expr.mapLines f) (sum endLine ts)
      (sum (f endLine) (ts.map (Token.mapLine f))) := by
    rw [sum_eq, sum_eq]
    refine .bind (product_moves endLine ih) fun left rest hl => ?_
    exact (ih rest (plain_shorter hl)).sumTail left
  cases ts with
  | nil =>
      rw [List.map_nil, operand_nil, operand_nil]
      exact .error _
  | cons t rest =>
      rw [operand_eq, List.map_cons, operand_eq]
      refine .ite .rfl ?_ hs
      refine .bind (ih rest (by simp)).properties fun fields mid _ => ?_
      exact .bind (expect_moves ..) fun _ _ _ => .ok _ _

theorem properties_moves : Moves f (Property.mapLinesEach f) (properties endLine ts)
    (properties (f endLine) (ts.map (Token.mapLine f))) := by
  rw [properties_eq, properties_eq]
  refine .ite (by simp) (.ok _ _) (.bind (expect_moves ..) fun key rest hk => ?_)
  have hk := plain_shorter hk
  refine .ite (by simp) ?_ (.ite (by simp) (.ok _ _) ?_)
  · have hl : rest.tail.length < ts.length := by rw [List.length_tail]; omega
    rw [← List.map_tail]
    exact .bind (ih rest.tail hl).properties fun _ _ _ => .ok _ _
  · refine .bind (expect_moves ..) fun colon after hc => ?_
    have hc := plain_shorter hc
    refine .bind (ih after (by omega)).expression fun value mid hv => ?_
    have hv := plain_shorter hv
    refine .ite (by simp) (.ok _ _) (.bind (expect_moves ..) fun comma last hm => ?_)
    have hm := plain_shorter hm
    exact .bind (ih last (by omega)).properties fun _ _ _ => .ok _ _

theorem expression_moves : Moves f (Expr.mapLines f) (expression endLine ts)
    (expression (f endLine) (ts.map (Token.mapLine f))) := by
  rw [expression_eq, expression_eq]
  refine .bind (operand_moves endLine ih) fun target rest ho => ?_
  cases rest with
  | nil =>
      dsimp only
      rw [List.map_nil, assignTail_nil, assignTail_nil]
      exact .ok _ _
  | cons t rest =>
      dsimp only
      have hl : rest.length < ts.length := Nat.lt_of_succ_lt (plain_shorter ho)
      rw [assignTail_eq, List.map_cons, assignTail_eq]
      refine .ite .rfl ?_ (.ok _ (t :: rest))
      exact .bind (ih rest hl).expression fun _ _ _ => .ok _ _

theorem expressions_moves : Moves f (Expr.mapLinesEach f) (expressions endLine ts)
    (expressions (f endLine) (ts.map (Token.mapLine f))) := by
  rw [expressions_eq, expressions_eq]
  refine .bind (expression_moves endLine ih) fun e rest he => .ite (by simp) ?_ (.ok _ _)
  have hl : rest.tail.length < ts.length := by
    have hs := plain_shorter he
    rw [List.length_tail]
    omega
  rw [← List.map_tail]
  exact .bind (ih rest.tail hl).expressions fun _ _ _ => .ok _ _

end

theorem expressionsMove (ts : List Token) : ExpressionsMove endLine f ts := by
  induction h : ts.length using Nat.strongRecOn generalizing ts with
  | ind n ih =>
      have ih : ∀ vs : List Token, vs.length < ts.length → ExpressionsMove endLine f vs :=
        fun vs hv => ih vs.length (h ▸ hv) vs rfl
      exact {
        primary := primary_moves endLine ih
        memberTail := memberTail_moves endLine ih
        callTail := callTail_moves endLine ih
        callMember := callMember_moves endLine ih
        argumentList := argumentList_moves endLine ih
        expressions := expressions_moves endLine ih
        productTail := productTail_moves endLine ih
        product := product_moves endLine ih
        sumTail := sumTail_moves endLine ih
        properties := properties_moves endLine ih
        expression := expression_moves endLine ih }

/-! ## Statements -/

theorem declaredType_moves (ts : List Token) :
    Moves f id (declaredType endLine ts) (declaredType (f endLine) (ts.map (Token.mapLine f))) := by
  cases ts with
  | nil => exact .ok _ _
  | cons t rest =>
      rw [declaredType_eq, List.map_cons, declaredType_eq]
      refine .ite .rfl ?_ (.ok _ (t :: rest))
      cases rest with
      | nil => exact .error _
      | cons type rest => exact .ok _ _

theorem typedText_moves (ts : List Token) :
    Moves f (Expr.mapLines f) (typedText endLine ts)
      (typedText (f endLine) (ts.map (Token.mapLine f))) := by
  rw [typedText_eq, typedText_eq]
  refine .bind (expect_moves ..) fun opening rest _ => ?_
  dsimp only
  rw [map_dropWhile _ fun _ => rfl, map_lexeme_takeWhile _ fun _ => rfl, ← List.map_tail]
  exact .ite (by simp) (.error _) (.ok _ _)

theorem initializer_moves (type : Option Text) (ts : List Token) :
    Moves f (Expr.mapLines f) (initializer endLine type ts)
      (initializer (f endLine) type (ts.map (Token.mapLine f))) := by
  rw [initializer_eq, initializer_eq]
  refine .ite .rfl (typedText_moves endLine ts) (.ite .rfl ?_ (.ite .rfl ?_ ?_))
  · rw [typedNumber_eq, typedNumber_eq]
    exact .bind (expect_moves ..) fun _ _ _ => .ok _ _
  · cases ts with
    | nil => exact .error _
    | cons t rest =>
        rw [typedBoolean_eq, List.map_cons, typedBoolean_eq]
        exact .ite .rfl (.ok _ _) (.ite .rfl (.ok _ _) (.error _))
  · exact (expressionsMove endLine ts).expression

theorem declaration_moves (constant : Bool) (line : Nat) (ts : List Token) :
    Moves f (Stmt.mapLines f) (declaration endLine constant line ts)
      (declaration (f endLine) constant (f line) (ts.map (Token.mapLine f))) := by
  rw [declaration_eq, declaration_eq]
  refine .bind (expect_moves ..) fun name rest _ => ?_
  refine .bind (declaredType_moves endLine rest) fun type rest _ => ?_
  refine .ite (by simp) (.ite .rfl (.error _) ?_) (.bind (expect_moves ..) fun equal after _ => ?_)
  · rw [← List.map_tail]
    exact .ok _ _
  · refine .bind (initializer_moves endLine type after) fun value mid _ => ?_
    exact .bind (expect_moves ..) fun _ _ _ => .ok _ _

theorem condition_moves (ts : List Token) :
    Moves f (Expr.mapLines f) (condition endLine ts)
      (condition (f endLine) (ts.map (Token.mapLine f))) := by
  rw [condition_eq, condition_eq]
  refine .bind (expect_moves ..) fun opening rest _ => ?_
  dsimp only
  rw [nextLine_mapLine]
  refine .ite (by simp) (.error _) ?_
  refine .bind (expressionsMove endLine rest).expression fun e mid _ => ?_
  exact .bind (expect_moves ..) fun _ _ _ => .ok _ _

theorem expressionStatement_moves (ts : List Token) :
    Moves f (Stmt.mapLines f) (expressionStatement endLine ts)
      (expressionStatement (f endLine) (ts.map (Token.mapLine f))) := by
  rw [expressionStatement_eq, expressionStatement_eq]
  refine .bind (expressionsMove endLine ts).expression fun e rest _ => .ite (by simp) ?_ (.ok _ _)
  rw [← List.map_tail]
  exact .ok _ _

/-- The readers of statements on one list of tokens and on that list with other lines. -/
structure StatementsMove (f : Nat → Nat) (ts : List Token) : Prop where
  clauses : Moves f (Clause.mapLinesEach f) (clauses endLine ts)
    (clauses (f endLine) (ts.map (Token.mapLine f)))
  block : Moves f (Stmt.mapLinesEach f) (block endLine ts)
    (block (f endLine) (ts.map (Token.mapLine f)))
  statements : ∀ nested, Moves f (Stmt.mapLinesEach f) (statements endLine nested ts)
    (statements (f endLine) nested (ts.map (Token.mapLine f)))

section

variable {ts : List Token}
    (ih : ∀ vs : List Token, vs.length < ts.length → StatementsMove endLine f vs)
include ih

theorem function_moves : Moves f (Stmt.mapLines f) (function endLine ts)
    (function (f endLine) (ts.map (Token.mapLine f))) := by
  rw [function_eq, function_eq]
  refine .bind (expect_moves ..) fun name rest hn => ?_
  refine .bind (expressionsMove endLine rest).argumentList fun arguments mid hm => ?_
  dsimp only [Prod.map]
  rw [parameters?_mapLines]
  cases parameters? arguments.2 with
  | none => exact .error _
  | some parameters =>
      refine .bind (expect_moves ..) fun opening after ho => ?_
      have hl : after.length < ts.length :=
        Nat.lt_trans (plain_shorter ho) (Nat.lt_trans (plain_shorter hm) (plain_shorter hn))
      refine .bind ((ih after hl).statements true) fun body last _ => ?_
      exact .bind (expect_moves ..) fun _ _ _ => .ok _ _

theorem block_moves : Moves f (Stmt.mapLinesEach f) (block endLine ts)
    (block (f endLine) (ts.map (Token.mapLine f))) := by
  rw [block_eq, block_eq]
  refine .bind (expect_moves ..) fun opening rest ho => ?_
  dsimp only
  rw [nextLine_mapLine]
  refine .ite (by simp) (.error _) ?_
  refine .bind ((ih rest (plain_shorter ho)).statements true) fun body mid _ => ?_
  exact .bind (expect_moves ..) fun _ _ _ => .ok _ _

theorem clause_moves : Moves f (Clause.mapLines f) (clause endLine ts)
    (clause (f endLine) (ts.map (Token.mapLine f))) := by
  rw [clause_eq, clause_eq]
  refine .bind (condition_moves endLine ts) fun test mid hm => ?_
  exact .bind (ih mid (plain_shorter hm)).block fun _ _ _ => .ok _ _

theorem conditional_moves (line : Nat) :
    Moves f (Stmt.mapLines f) (conditional endLine line ts)
      (conditional (f endLine) (f line) (ts.map (Token.mapLine f))) := by
  rw [conditional_eq, conditional_eq]
  refine .bind (clause_moves endLine ih) fun first mid hm => ?_
  have hm := plain_shorter hm
  refine .bind (ih mid hm).clauses fun others rest hr => .ite (by simp) ?_ (.ok _ _)
  have hl : rest.tail.length < ts.length := by
    have hs := plain_shorter hr
    rw [List.length_tail]
    omega
  rw [← List.map_tail]
  exact .bind (ih rest.tail hl).block fun _ _ _ => .ok _ _

theorem clauses_moves : Moves f (Clause.mapLinesEach f) (clauses endLine ts)
    (clauses (f endLine) (ts.map (Token.mapLine f))) := by
  cases ts with
  | nil =>
      rw [List.map_nil, clauses_nil, clauses_nil]
      exact .ok _ _
  | cons t rest =>
      have ih' : ∀ vs : List Token, vs.length < rest.length → StatementsMove endLine f vs :=
        fun vs hv => ih vs (Nat.lt_succ_of_lt hv)
      rw [clauses_eq, List.map_cons, clauses_eq]
      refine .ite .rfl (.bind (clause_moves endLine ih') fun c mid hm => ?_) (.ok _ (t :: rest))
      exact .bind (ih' mid (plain_shorter hm)).clauses fun _ _ _ => .ok _ _

theorem statement_moves : Moves f (Stmt.mapLines f) (statement endLine ts)
    (statement (f endLine) (ts.map (Token.mapLine f))) := by
  have he := expressionStatement_moves (f := f) endLine ts
  cases ts with
  | nil =>
      rw [statement_eq, List.map_nil, statement_eq]
      exact he
  | cons t rest =>
      have ih' : ∀ vs : List Token, vs.length < rest.length → StatementsMove endLine f vs :=
        fun vs hv => ih vs (Nat.lt_succ_of_lt hv)
      rw [statement_eq, List.map_cons, statement_eq]
      refine .ite .rfl (declaration_moves endLine false t.line rest) ?_
      refine .ite .rfl (declaration_moves endLine true t.line rest) ?_
      refine .ite .rfl (function_moves endLine ih') ?_
      exact .ite .rfl (conditional_moves endLine ih' t.line) he

theorem statements_moves (nested : Bool) :
    Moves f (Stmt.mapLinesEach f) (statements endLine nested ts)
      (statements (f endLine) nested (ts.map (Token.mapLine f))) := by
  rw [statements_eq, statements_eq]
  refine .ite (by simp) (.ok _ _) (.bind (statement_moves endLine ih) fun s rest hs => ?_)
  exact .bind ((ih rest (plain_shorter hs)).statements nested) fun _ _ _ => .ok _ _

end

theorem statementsMove (ts : List Token) : StatementsMove endLine f ts := by
  induction h : ts.length using Nat.strongRecOn generalizing ts with
  | ind n ih =>
      have ih : ∀ vs : List Token, vs.length < ts.length → StatementsMove endLine f vs :=
        fun vs hv => ih vs.length (h ▸ hv) vs rfl
      exact {
        clauses := clauses_moves endLine ih
        block := block_moves endLine ih
        statements := statements_moves endLine ih }

end Reading

/-- A scan with its lines changed. -/
def Scan.mapLines (f : Nat → Nat) (scan : Scan) : Scan :=
  ⟨scan.tokens.map (Token.mapLine f), f scan.endLine, scan.errors.map (ParseError.mapLine f)⟩

namespace Program

/-- What was read, with its lines changed. -/
def moved (f : Nat → Nat) (x : Except ParseError Program) : Except ParseError Program :=
  (x.map (mapLines f)).mapError (ParseError.mapLine f)

theorem ofTokens_mapLine (f : Nat → Nat) (endLine : Nat) (ts : List Token) :
    ofTokens (f endLine) (ts.map (Token.mapLine f)) = moved f (ofTokens endLine ts) := by
  have hm := (Reading.statementsMove (f := f) endLine ts).statements false
  rw [ofTokens_eq, ofTokens_eq]
  cases hs : Reading.statements endLine false ts with
  | error e =>
      rw [hs] at hm
      rw [show Reading.statements (f endLine) false _ = .error _ from hm]
      rfl
  | ok x =>
      rw [hs] at hm
      rw [show Reading.statements (f endLine) false _ = .ok _ from hm]
      rfl

/-- A scan on other lines is read as the same program, or with the same error, on other
lines. -/
theorem ofScan_mapLines (f : Nat → Nat) (scan : Scan) :
    ofScan (scan.mapLines f) = moved f (ofScan scan) := by
  obtain ⟨tokens, endLine, errors⟩ := scan
  cases errors with
  | nil => exact ofTokens_mapLine f endLine tokens
  | cons e es => rfl

end Program

end Scripting
