import Scripting.Program.Parse

/-!
The grammar of programs, as relations between runs of tokens and the trees they
spell. Runs are put together by concatenation. Where a rule repeats something or
leaves it out, the token that follows the whole run is named, and the rule asks
that it does not go on with what is repeated or left out: so a parenthesis right
after a member or a call always opens an argument list, and no run has two trees.
-/

namespace Scripting.Grammar

/-- Whether the following token has a kind. No token follows at the end. -/
def ahead (kind : Token.Kind) (next : Option Token) : Bool := next.any (·.kind = kind)

theorem nextIs_eq_ahead (kind : Token.Kind) (ts : List Token) :
    Parse.nextIs kind ts = ahead kind ts.head? := by
  cases ts <;> rfl

/-- The signs that join products, and those that join what binds more strongly. -/
def signs : (additive : Bool) → List Text
  | true => [Text.utf8 "+", Text.utf8 "-"]
  | false => [Text.utf8 "*", Text.utf8 "/", Text.utf8 "%"]

/-- Whether the following token is one of the signs of a strength. -/
def operatorAhead (additive : Bool) (next : Option Token) : Bool :=
  next.any fun t => t.kind = .operator && (signs additive).contains t.lexeme

/-- The token of an operator, by the strength with which it binds. -/
inductive Sign : (additive : Bool) → Token → Operator → Prop
  | add {t : Token} (hk : t.kind = .operator) (hl : t.lexeme = Text.utf8 "+") : Sign true t .add
  | sub {t : Token} (hk : t.kind = .operator) (hl : t.lexeme = Text.utf8 "-") : Sign true t .sub
  | mul {t : Token} (hk : t.kind = .operator) (hl : t.lexeme = Text.utf8 "*") : Sign false t .mul
  | div {t : Token} (hk : t.kind = .operator) (hl : t.lexeme = Text.utf8 "/") : Sign false t .div
  | rem {t : Token} (hk : t.kind = .operator) (hl : t.lexeme = Text.utf8 "%") : Sign false t .rem

theorem Sign.kind {additive : Bool} {t : Token} {op : Operator} (h : Sign additive t op) :
    t.kind = .operator := by
  cases h <;> assumption

theorem Sign.lexeme {additive : Bool} {t : Token} {op : Operator} (h : Sign additive t op) :
    t.lexeme = op.symbol := by
  cases h <;> assumption

theorem sign_symbol (op : Operator) (line : Nat) :
    Sign op.isAdditive ⟨.operator, op.symbol, line⟩ op := by
  cases op with
  | add => exact .add rfl rfl
  | sub => exact .sub rfl rfl
  | mul => exact .mul rfl rfl
  | div => exact .div rfl rfl
  | rem => exact .rem rfl rfl

/-- The parser takes the signs of a strength for operators. -/
theorem operator?_eq_some_iff {additive : Bool} {t : Token} {op : Operator} :
    Parse.operator? additive t = some op ↔ Sign additive t op := by
  constructor
  · intro h
    rw [Parse.operator?] at h
    split at h
    · next hk =>
        obtain ⟨ho, ha⟩ := Option.filter_eq_some_iff.mp h
        have hl := Operator.symbol_of_ofSymbol? ho
        rw [beq_iff_eq] at ha
        subst ha
        cases op with
        | add => exact .add hk hl
        | sub => exact .sub hk hl
        | mul => exact .mul hk hl
        | div => exact .div hk hl
        | rem => exact .rem hk hl
    · cases h
  · intro h
    rw [Parse.operator?, if_pos h.kind, h.lexeme, Operator.ofSymbol?_symbol]
    cases h <;> rfl

theorem operatorAhead_some (additive : Bool) (t : Token) :
    operatorAhead additive (some t) = (Parse.operator? additive t).isSome := by
  rw [Bool.eq_iff_iff, Option.isSome_iff_exists]
  simp only [operator?_eq_some_iff, operatorAhead, Option.any_some, Bool.and_eq_true,
    decide_eq_true_eq, List.contains_iff_mem]
  constructor
  · rintro ⟨hk, hl⟩
    cases additive with
    | true =>
        simp only [signs, List.mem_cons, List.not_mem_nil, or_false] at hl
        obtain hl | hl := hl
        · exact ⟨_, .add hk hl⟩
        · exact ⟨_, .sub hk hl⟩
    | false =>
        simp only [signs, List.mem_cons, List.not_mem_nil, or_false] at hl
        obtain hl | hl | hl := hl
        · exact ⟨_, .mul hk hl⟩
        · exact ⟨_, .div hk hl⟩
        · exact ⟨_, .rem hk hl⟩
  · rintro ⟨op, h⟩
    refine ⟨h.kind, ?_⟩
    cases h with
    | _ _ hl => simp [signs, hl]

/-- The first token of a run, or the one that follows it if it is empty. -/
def first (ts : List Token) (next : Option Token) : Option Token := ts.head?.or next

mutual

/-- A name, a number, quoted words, or an expression in parentheses. -/
inductive Primary : List Token → Expr → Prop
  | name {t : Token} (ht : t.kind = .identifier) : Primary [t] (.name ⟨t.lexeme, t.line⟩)
  | number {t : Token} (ht : t.kind = .number) : Primary [t] (.number (Number.ofLiteral t.lexeme))
  | text {opening closing : Token} {words : List Token} (ho : opening.kind = .quote)
      (hw : ∀ w ∈ words, w.kind = .word) (hc : closing.kind = .quote) :
      Primary (opening :: words ++ [closing])
        (.text (Text.join (Text.utf8 " ") (words.map Token.lexeme)))
  | group {opening closing : Token} {ts : List Token} {e : Expr} (ho : opening.kind = .leftParen)
      (he : Expression (some closing) ts e) (hc : closing.kind = .rightParen) :
      Primary (opening :: ts ++ [closing]) e

/-- A primary expression and, from the left, its members and indices. -/
inductive Members : List Token → Expr → Prop
  | primary {ts : List Token} {e : Expr} (h : Primary ts e) : Members ts e
  | dot {ts us : List Token} {object : Expr} {t : Token} {key : Name} (h : Members ts object)
      (ht : t.kind = .dot) (hk : Primary us (.name key)) :
      Members (ts ++ t :: us) (.member object t.line key)
  | index {ts us : List Token} {object key : Expr} {opening closing : Token}
      (h : Members ts object) (ho : opening.kind = .leftBracket)
      (hk : Expression (some closing) us key) (hc : closing.kind = .rightBracket) :
      Members (ts ++ opening :: us ++ [closing]) (.index object opening.line key)

/-- A member expression that ends where it must, and argument lists after it. -/
inductive Calls : (next : Option Token) → List Token → Expr → Prop
  | member {next : Option Token} {ts : List Token} {e : Expr} (h : Members ts e)
      (hd : ahead .dot next = false) (hb : ahead .leftBracket next = false) : Calls next ts e
  | call {next : Option Token} {opening : Token} {ts us : List Token} {callee : Expr}
      {arguments : List Expr} (h : Calls (some opening) ts callee)
      (ha : Arguments opening us arguments) :
      Calls next (ts ++ opening :: us) (.call callee opening.line arguments)

/-- What stands after an opening parenthesis, the closing one included. -/
inductive Arguments : (opening : Token) → List Token → List Expr → Prop
  | none {opening closing : Token} (ho : opening.kind = .leftParen)
      (hc : closing.kind = .rightParen) : Arguments opening [closing] []
  | some {opening closing : Token} {ts : List Token} {es : List Expr}
      (ho : opening.kind = .leftParen) (hs : Expressions (some closing) ts es)
      (hc : closing.kind = .rightParen) : Arguments opening (ts ++ [closing]) es

/-- One expression or more, with commas between. -/
inductive Expressions : (next : Option Token) → List Token → List Expr → Prop
  | one {next : Option Token} {ts : List Token} {e : Expr} (h : Expression next ts e)
      (hn : ahead .comma next = false) : Expressions next ts [e]
  | more {next : Option Token} {comma : Token} {ts us : List Token} {e : Expr} {es : List Expr}
      (h : Expression (some comma) ts e) (hc : comma.kind = .comma)
      (hs : Expressions next us es) : Expressions next (ts ++ comma :: us) (e :: es)

/-- Member and call expressions joined from the left by operators that bind
strongly. Each of them is followed by no further argument list. -/
inductive Product : (next : Option Token) → List Token → Expr → Prop
  | factor {next : Option Token} {ts : List Token} {e : Expr} (h : Calls next ts e)
      (hn : ahead .leftParen next = false) : Product next ts e
  | more {next : Option Token} {t : Token} {op : Operator} {ts us : List Token} {l r : Expr}
      (hl : Product (some t) ts l) (ht : Sign false t op) (hr : Calls next us r)
      (hn : ahead .leftParen next = false) :
      Product next (ts ++ t :: us) (.binary l op t.line r)

/-- Products joined from the left by sums and differences. -/
inductive Sum : (next : Option Token) → List Token → Expr → Prop
  | term {next : Option Token} {ts : List Token} {e : Expr} (h : Product next ts e)
      (hn : operatorAhead false next = false) : Sum next ts e
  | more {next : Option Token} {t : Token} {op : Operator} {ts us : List Token} {l r : Expr}
      (hl : Sum (some t) ts l) (ht : Sign true t op) (hr : Product next us r)
      (hn : operatorAhead false next = false) :
      Sum next (ts ++ t :: us) (.binary l op t.line r)

/-- An object literal, or a sum. -/
inductive Operand : (next : Option Token) → List Token → Expr → Prop
  | object {next : Option Token} {opening closing : Token} {ts : List Token}
      {properties : List Property} (ho : opening.kind = .leftBrace)
      (hp : Properties (some closing) ts properties) (hc : closing.kind = .rightBrace) :
      Operand next (opening :: ts ++ [closing]) (.object properties)
  | sum {next : Option Token} {ts : List Token} {e : Expr} (h : Sum next ts e)
      (hn : operatorAhead true next = false) : Operand next ts e

/-- Keys with or without values, with commas between and perhaps one at the end. -/
inductive Properties : (next : Option Token) → List Token → List Property → Prop
  | nil {next : Option Token} : Properties next [] []
  | shorthand {next : Option Token} {key : Token} (hk : key.kind = .identifier) :
      Properties next [key] [.shorthand ⟨key.lexeme, key.line⟩]
  | shorthandComma {next : Option Token} {key comma : Token} {ts : List Token}
      {properties : List Property} (hk : key.kind = .identifier) (hc : comma.kind = .comma)
      (hp : Properties next ts properties) :
      Properties next (key :: comma :: ts) (.shorthand ⟨key.lexeme, key.line⟩ :: properties)
  | pair {next : Option Token} {key colon : Token} {ts : List Token} {value : Expr}
      (hk : key.kind = .identifier) (hl : colon.kind = .colon) (hv : Expression next ts value) :
      Properties next (key :: colon :: ts) [.pair ⟨key.lexeme, key.line⟩ value]
  | pairComma {next : Option Token} {key colon comma : Token} {ts us : List Token} {value : Expr}
      {properties : List Property} (hk : key.kind = .identifier) (hl : colon.kind = .colon)
      (hv : Expression (some comma) ts value) (hc : comma.kind = .comma)
      (hp : Properties next us properties) :
      Properties next (key :: colon :: ts ++ comma :: us)
        (.pair ⟨key.lexeme, key.line⟩ value :: properties)

/-- An operand, or an assignment to one; assignments group to the right. -/
inductive Expression : (next : Option Token) → List Token → Expr → Prop
  | operand {next : Option Token} {ts : List Token} {e : Expr} (h : Operand next ts e)
      (hn : ahead .equal next = false) : Expression next ts e
  | assign {next : Option Token} {t : Token} {ts us : List Token} {target value : Expr}
      (hl : Operand (some t) ts target) (ht : t.kind = .equal) (hv : Expression next us value) :
      Expression next (ts ++ t :: us) (.assign target t.line value)

end

/-- A colon and any one token, or nothing. -/
inductive Annotation : List Token → Option Text → Prop
  | none : Annotation [] none
  | some {colon type : Token} (hc : colon.kind = .colon) :
      Annotation [colon, type] (some type.lexeme)

/-- The value of a declaration. Three annotations fix its form. -/
inductive Initializer (type : Option Text) : (next : Option Token) → List Token → Expr → Prop
  | text {next : Option Token} {opening closing : Token} {words : List Token}
      (hy : type = some (Text.utf8 "string")) (ho : opening.kind = .quote)
      (hw : ∀ w ∈ words, w.kind ≠ .quote) (hc : closing.kind = .quote) :
      Initializer type next (opening :: words ++ [closing])
        (.text ((words.map Token.lexeme).flatMap (· ++ Text.utf8 " ") ++ [0x08]))
  | number {next : Option Token} {t : Token} (hy : type = some (Text.utf8 "int"))
      (ht : t.kind = .number) : Initializer type next [t] (.number (Number.ofLiteral t.lexeme))
  | bool {next : Option Token} {t : Token} {value : Bool} (hy : type = some (Text.utf8 "bool"))
      (ht : t.lexeme = Text.utf8 (if value then "true" else "false")) :
      Initializer type next [t] (.bool value)
  | expression {next : Option Token} {ts : List Token} {e : Expr}
      (hs : type ≠ some (Text.utf8 "string")) (hi : type ≠ some (Text.utf8 "int"))
      (hb : type ≠ some (Text.utf8 "bool")) (he : Expression next ts e) :
      Initializer type next ts e

mutual

/-- A declaration, a function, a conditional, or an expression with or without a
semicolon. -/
inductive Statement : (next : Option Token) → List Token → Stmt → Prop
  | declare {next : Option Token} {keyword name semicolon : Token} {ts : List Token}
      {type : Option Text} (hk : keyword.kind = .letKeyword) (hn : name.kind = .identifier)
      (ha : Annotation ts type) (hs : semicolon.kind = .semicolon) :
      Statement next (keyword :: name :: ts ++ [semicolon])
        (.declare false ⟨name.lexeme, name.line⟩ type none)
  | define {next : Option Token} {constant : Bool} {keyword name equal semicolon : Token}
      {ts us : List Token} {type : Option Text} {value : Expr}
      (hk : keyword.kind = if constant then .constKeyword else .letKeyword)
      (hn : name.kind = .identifier) (ha : Annotation ts type) (he : equal.kind = .equal)
      (hv : Initializer type (some semicolon) us value) (hs : semicolon.kind = .semicolon) :
      Statement next (keyword :: name :: ts ++ equal :: us ++ [semicolon])
        (.declare constant ⟨name.lexeme, name.line⟩ type (some value))
  | function {next : Option Token} {keyword name paren opening closing : Token}
      {ts us : List Token} {parameters : List Name} {body : List Stmt}
      (hk : keyword.kind = .funcKeyword) (hn : name.kind = .identifier)
      (hp : Arguments paren ts (parameters.map Expr.name)) (ho : opening.kind = .leftBrace)
      (hb : Statements (some closing) us body) (hc : closing.kind = .rightBrace) :
      Statement next (keyword :: name :: paren :: ts ++ opening :: us ++ [closing])
        (.func ⟨name.lexeme, name.line⟩ parameters body)
  | conditional {next : Option Token} {keyword : Token} {ts us : List Token} {first : Clause}
      {others : List Clause} (hk : keyword.kind = .ifKeyword) (hf : Guarded ts first)
      (hs : Alternatives next us others) (hn : ahead .elseKeyword next = false) :
      Statement next (keyword :: ts ++ us) (.branch keyword.line first others [])
  | otherwise {next : Option Token} {keyword other : Token} {ts us vs : List Token}
      {first : Clause} {others : List Clause} {body : List Stmt} (hk : keyword.kind = .ifKeyword)
      (hf : Guarded ts first) (hs : Alternatives (some other) us others)
      (he : other.kind = .elseKeyword) (hb : Block vs body) :
      Statement next (keyword :: ts ++ us ++ other :: vs) (.branch keyword.line first others body)
  | expression {next : Option Token} {ts : List Token} {e : Expr} (he : Expression next ts e)
      (hn : ahead .semicolon next = false) : Statement next ts (.expr e)
  | terminated {next : Option Token} {semicolon : Token} {ts : List Token} {e : Expr}
      (he : Expression (some semicolon) ts e) (hs : semicolon.kind = .semicolon) :
      Statement next (ts ++ [semicolon]) (.expr e)

/-- Any number of statements. -/
inductive Statements : (next : Option Token) → List Token → List Stmt → Prop
  | nil {next : Option Token} : Statements next [] []
  | cons {next : Option Token} {ts us : List Token} {s : Stmt} {ss : List Stmt}
      (h : Statement (Grammar.first us next) ts s) (hs : Statements next us ss) :
      Statements next (ts ++ us) (s :: ss)

/-- A condition in parentheses and its block. -/
inductive Guarded : List Token → Clause → Prop
  | mk {opening closing : Token} {ts us : List Token} {condition : Expr} {body : List Stmt}
      (ho : opening.kind = .leftParen) (he : Expression (some closing) ts condition)
      (hc : closing.kind = .rightParen) (hb : Block us body) :
      Guarded (opening :: ts ++ closing :: us) ⟨condition, body⟩

/-- Any number of further conditions, each after its keyword. -/
inductive Alternatives : (next : Option Token) → List Token → List Clause → Prop
  | nil {next : Option Token} (hn : ahead .elifKeyword next = false) : Alternatives next [] []
  | cons {next : Option Token} {keyword : Token} {ts us : List Token} {c : Clause}
      {cs : List Clause} (hk : keyword.kind = .elifKeyword) (hc : Guarded ts c)
      (hs : Alternatives next us cs) : Alternatives next (keyword :: ts ++ us) (c :: cs)

/-- One statement or more in braces. -/
inductive Block : List Token → List Stmt → Prop
  | mk {opening closing : Token} {ts : List Token} {s : Stmt} {ss : List Stmt}
      (ho : opening.kind = .leftBrace) (hb : Statements (some closing) ts (s :: ss))
      (hc : closing.kind = .rightBrace) : Block (opening :: ts ++ [closing]) (s :: ss)

end

/-- The programs that a list of tokens spells: statements up to the end. -/
def Program (ts : List Token) (p : Program) : Prop := Statements none ts p

end Scripting.Grammar
