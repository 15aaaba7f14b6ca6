import Scripting.Proofs.Front.Lexer
import Scripting.Proofs.Front.Nodes
import Scripting.Proofs.Grammar
import Scripting.Proofs.Parse.Reading

/-!
A cursor in a list of tokens, with the moves that a parser makes. The list ends with the token at
the end of the source; the cursor may stand on it and must not go past it. What lies ahead of the
cursor is a list of tokens for a reader, and each move is one that a reader makes with that list.
-/

namespace Scripting

/-- Where a parser stands, with the errors that are recorded. The quotes at which it began a text
are recorded too, by their places; nothing is decided by them. -/
structure Parser where
  current : Nat := 0
  errors : List ParseError := []
  begun : List Nat := []

namespace Parser

open Walk (look change demand)

section
variable (tokens : List Emitted)

def peek : Walk Parser Emitted := do
  demand tokens[← look current]?

/-- The token before the cursor. -/
def previous : Walk Parser Emitted := do
  match ← look current with
  | 0 => demand none
  | k + 1 => demand tokens[k]?

def check (kind : Token.Kind) : Walk Parser Bool := do
  return (← peek tokens).token.kind = kind

def isAtEnd : Walk Parser Bool := check tokens .endOfInput

/-- Moves the cursor to the next token, which has to be there. -/
def step : Walk Parser Unit := do
  let _ ← demand tokens[(← look current) + 1]?
  change fun p => { p with current := p.current + 1 }

/-- Goes over a token, if it is not the one at the end, and gives the token before the cursor. -/
def advance : Walk Parser Emitted := do
  if ← isAtEnd tokens then previous tokens
  else
    step tokens
    previous tokens

/-- Goes over a token if it has a kind. -/
def accept (kind : Token.Kind) : Walk Parser Bool := do
  if ← check tokens kind then
    step tokens
    return true
  else return false

/-- Goes over an operator if it is one of some signs. -/
def acceptSign (signs : List Text) : Walk Parser Bool := do
  if ← check tokens .operator then
    let t ← peek tokens
    if signs.contains t.token.lexeme then
      step tokens
      return true
    else return false
  else return false

/-- Records an error, which ends the parsing. -/
def fatal {α : Type} (e : ParseError) : Walk Parser α := fun p =>
  .aborted { p with errors := p.errors ++ [e] }

/-- Records that a text is begun at the token before the cursor. -/
def beginText : Walk Parser Unit :=
  change fun p => { p with begun := p.begun ++ [p.current - 1] }

/-- How an error speaks of a token. -/
def near (t : Token) : ParseError.Near :=
  if t.kind = .endOfInput then .endOfInput else .token t

/-- The token at the cursor does not fit. -/
def unexpected {α : Type} (cause : ParseError.Cause) : Walk Parser α := do
  let t ← peek tokens
  fatal ⟨t.token.line, cause, near t.token⟩

/-- Something lacks at the cursor. -/
def missing {α : Type} (cause : ParseError.Cause) : Walk Parser α := do
  let t ← peek tokens
  fatal ⟨t.token.line, cause, .nothing⟩

/-- Goes over a token that has to have a kind. -/
def consume (kind : Token.Kind) (cause : ParseError.Cause) : Walk Parser Emitted := do
  if ← check tokens kind then advance tokens
  else unexpected tokens cause

/-- The number that a token carries, which has to carry one. -/
def numberOf (t : Emitted) : Walk Parser Number :=
  match t.literal with
  | .number value => return value
  | _ => demand none

def checkEither (kind other : Token.Kind) : Walk Parser Bool := do
  if ← check tokens kind then return true
  else check tokens other

/-- Whether the cursor is at the end or at a closing brace. -/
def isAtClose : Walk Parser Bool := checkEither tokens .endOfInput .rightBrace

end

/-- The tokens of a source with the line of its end. None of them is the one at the end, and those
of a kind that is always spelled alike are spelled so. -/
structure Input where
  tokens : List Token
  endLine : Nat
  inner : ∀ t ∈ tokens, t.kind ≠ .endOfInput
  spelled : ∀ t ∈ tokens, t.kind.isFixed = true → t.lexeme = t.kind.name

namespace Input

/-- The tokens as the lexer gives them. -/
def emitted (I : Input) : List Emitted := (I.tokens ++ [Token.atEnd I.endLine]).map Emitted.of

/-- The token at a place with some tokens ahead. -/
def next (I : Input) : List Token → Token
  | [] => .atEnd I.endLine
  | t :: _ => t

variable {I : Input} {k : Nat} {rest : List Token} {t : Token}

theorem get_of_ahead (h : Ahead I.tokens k rest) :
    I.emitted[k]? = some (Emitted.of (I.next rest)) := by
  cases rest with
  | nil =>
      have hk : I.tokens.length = k := h.length_eq.symm
      rw [emitted, List.getElem?_map, ← hk, List.getElem?_concat_length]
      rfl
  | cons t rest =>
      have hk : k < I.tokens.length := by
        have := h.length_eq
        rw [List.length_cons] at this
        omega
      rw [emitted, List.getElem?_map, List.getElem?_append_left hk, h.get]
      rfl

theorem mem_of_ahead (h : Ahead I.tokens k (t :: rest)) : t ∈ I.tokens :=
  List.mem_of_getElem? h.get

theorem inner_of_ahead (h : Ahead I.tokens k (t :: rest)) : t.kind ≠ .endOfInput :=
  I.inner t (mem_of_ahead h)

theorem eq_sign (ht : t ∈ I.tokens) {kind : Token.Kind} (hk : t.kind = kind)
    (hf : kind.isFixed = true) : t = .sign kind t.line := by
  subst hk
  rw [Token.sign, ← I.spelled t ht hf]

end Input

/-- An outcome of a walk and one of a reader are the same: both have read as far, and the value of
the walk is the image of the other, or both have failed with the same error, which the walk has
recorded. -/
inductive Agrees (I : Input) {α β : Type} (image : β → α) (errors : List ParseError) :
    Walked Parser α → Except ParseError (β × List Token) → Prop
  | done {b : β} {p : Parser} {rest : List Token} (h : Ahead I.tokens p.current rest)
      (he : p.errors = errors) : Agrees I image errors (.done (image b) p) (.ok (b, rest))
  | failed {e : ParseError} {p : Parser} (h : p.current ≤ I.tokens.length)
      (he : p.errors = errors ++ [e]) : Agrees I image errors (.aborted p) (.error e)

/-- A walk from a place with these tokens ahead has this outcome. -/
def Meets (I : Input) {α β : Type} (image : β → α) (x : Walk Parser α) (rest : List Token)
    (y : Except ParseError (β × List Token)) : Prop :=
  ∀ p, Ahead I.tokens p.current rest → Agrees I image p.errors (x p) y

/-- The same for a walk that starts right after a token. -/
def MeetsAfter (I : Input) (t : Token) {α β : Type} (image : β → α) (x : Walk Parser α)
    (rest : List Token) (y : Except ParseError (β × List Token)) : Prop :=
  ∀ p k, p.current = k + 1 → Ahead I.tokens k (t :: rest) → Agrees I image p.errors (x p) y

/-- A walk does what a reader does, wherever fewer tokens than `n` are ahead. -/
def Reads (I : Input) (n : Nat) {α β : Type} (image : β → α) (x : Walk Parser α)
    (reader : List Token → Except ParseError (β × List Token)) : Prop :=
  ∀ rest, rest.length < n → Meets I image x rest (reader rest)

variable {I : Input} {α β γ δ : Type} {rest : List Token} {t : Token} {image : γ → α}
  {image' : δ → β}

theorem Reads.mono {m n : Nat} {x : Walk Parser α}
    {reader : List Token → Except ParseError (γ × List Token)} (h : Reads I n image x reader)
    (hm : m ≤ n) : Reads I m image x reader :=
  fun rest hr => h rest (Nat.lt_of_lt_of_le hr hm)

theorem Meets.after {x : Walk Parser α} {y : Except ParseError (γ × List Token)}
    (h : Meets I image x rest y) : MeetsAfter I t image x rest y := by
  intro p k hp ha
  refine h p ?_
  rw [hp]
  exact ha.next

namespace Meets

variable {x : Walk Parser α} {f : α → Walk Parser β}

theorem pure {a : α} {b : γ} (h : a = image b) :
    Meets I image (Pure.pure a) rest (.ok (b, rest)) := by
  subst h
  exact fun _ ha => .done ha rfl

theorem ite {c : Prop} [Decidable c] {x x' : Walk Parser α}
    {y y' : Except ParseError (γ × List Token)} (h : c → Meets I image x rest y)
    (h' : ¬ c → Meets I image x' rest y') :
    Meets I image (if c then x else x') rest (if c then y else y') := by
  by_cases hc : c
  · rw [if_pos hc, if_pos hc]
    exact h hc
  · rw [if_neg hc, if_neg hc]
    exact h' hc

theorem fatal (e : ParseError) : Meets I image (Parser.fatal e) rest (.error e) :=
  fun _ ha => .failed ha.1 rfl

/-- What follows goes on where the first walk has come to. -/
theorem bind {y : Except ParseError (γ × List Token)}
    {g : γ × List Token → Except ParseError (δ × List Token)} (hx : Meets I image x rest y)
    (hf : ∀ c rest', y = .ok (c, rest') → Meets I image' (f (image c)) rest' (g (c, rest'))) :
    Meets I image' (x >>= f) rest (y >>= g) := by
  intro p ha
  have hs := hx p ha
  generalize hw : x p = w at hs
  cases hs with
  | @done c q rest' hq he =>
      rw [Walk.bind_done hw, ← he]
      exact hf c rest' rfl q hq
  | failed hq he =>
      rw [Walk.bind_aborted hw]
      exact .failed hq he

theorem bind_ok {c : γ} {rest' : List Token} {z : Except ParseError (δ × List Token)}
    (hx : Meets I image x rest (.ok (c, rest'))) (hf : Meets I image' (f (image c)) rest' z) :
    Meets I image' (x >>= f) rest z := by
  refine hx.bind (g := fun _ => z) fun _ _ hy => ?_
  cases hy
  exact hf

theorem bind_error {e : ParseError} (hx : Meets I image x rest (.error e)) :
    Meets I image' (x >>= f) rest (.error e) := by
  refine hx.bind (g := fun _ => .error e) fun _ _ hy => ?_
  cases hy

end Meets

section
variable {p : Parser}

theorem peek_eq (h : Ahead I.tokens p.current rest) :
    peek I.emitted p = .done (Emitted.of (I.next rest)) p := by
  simp only [peek, Bind.bind, Walk.bind, look, Input.get_of_ahead h, demand]
  rfl

theorem step_eq (h : Ahead I.tokens p.current (t :: rest)) :
    step I.emitted p = .done () { p with current := p.current + 1 } := by
  simp only [step, Bind.bind, Walk.bind, look, Input.get_of_ahead h.next, demand]
  rfl

theorem previous_eq {k : Nat} (hp : p.current = k + 1) (h : Ahead I.tokens k (t :: rest)) :
    previous I.emitted p = .done (Emitted.of t) p := by
  simp only [previous, Bind.bind, Walk.bind, look, hp, Input.get_of_ahead h, demand]
  rfl

/-- Only the token at the end could be mistaken for one ahead. -/
theorem next_kind {kind : Token.Kind} (hk : kind ≠ .endOfInput) :
    decide ((I.next rest).kind = kind) = Parse.nextIs kind rest := by
  cases rest with
  | nil => exact decide_eq_false hk.symm
  | cons t rest => rfl

theorem next_end {k : Nat} (h : Ahead I.tokens k rest) :
    decide ((I.next rest).kind = .endOfInput) = rest.isEmpty := by
  cases rest with
  | nil => rfl
  | cons t rest => exact decide_eq_false (Input.inner_of_ahead h)

theorem check_eq (kind : Token.Kind) (h : Ahead I.tokens p.current rest) :
    check I.emitted kind p = .done (decide ((I.next rest).kind = kind)) p := by
  rw [check, Walk.bind_done (peek_eq h)]
  rfl

theorem checkEither_eq (kind other : Token.Kind) (h : Ahead I.tokens p.current rest) :
    checkEither I.emitted kind other p =
      .done (decide ((I.next rest).kind = kind) || decide ((I.next rest).kind = other)) p := by
  rw [checkEither, Walk.bind_done (check_eq kind h)]
  by_cases hk : (I.next rest).kind = kind
  · simp only [hk, decide_true, if_true, Bool.true_or]
    rfl
  · simp only [hk, decide_false, Bool.false_eq_true, if_false, Bool.false_or]
    exact check_eq other h

theorem advance_eq (h : Ahead I.tokens p.current (t :: rest)) :
    advance I.emitted p = .done (Emitted.of t) { p with current := p.current + 1 } := by
  rw [advance, isAtEnd, Walk.bind_done (check_eq _ h), next_end h]
  simp only [List.isEmpty_cons, Bool.false_eq_true, if_false]
  rw [Walk.bind_done (step_eq h)]
  exact previous_eq rfl h

theorem acceptSign_eq (additive : Bool) (h : Ahead I.tokens p.current rest) :
    acceptSign I.emitted (Grammar.signs additive) p =
      if Grammar.operatorAhead additive rest.head?
      then .done true { p with current := p.current + 1 } else .done false p := by
  rw [acceptSign, Walk.bind_done (check_eq _ h)]
  cases rest with
  | nil => rfl
  | cons t rest =>
      rw [List.head?_cons, Grammar.operatorAhead, Option.any_some]
      by_cases hk : t.kind = .operator
      · simp only [Input.next, hk, decide_true, if_true, Bool.true_and]
        rw [Walk.bind_done (peek_eq h)]
        cases hs : (Grammar.signs additive).contains t.lexeme with
        | true =>
            refine (congrFun (if_pos hs) p).trans ?_
            rw [Walk.bind_done (step_eq h)]
            rfl
        | false => exact congrFun (if_neg (Bool.eq_false_iff.mp hs)) p
      · simp only [Input.next, hk, decide_false, Bool.false_eq_true, if_false, Bool.false_and]
        rfl

end

section
variable {f : α → Walk Parser β} {y : Except ParseError (δ × List Token)} {kind : Token.Kind}

namespace Meets

theorem peek {f : Emitted → Walk Parser β}
    (h : Meets I image' (f (Emitted.of (I.next rest))) rest y) :
    Meets I image' (peek I.emitted >>= f) rest y := by
  intro p ha
  rw [Walk.bind_done (peek_eq ha)]
  exact h p ha

theorem check {f : Bool → Walk Parser β} (hk : kind ≠ .endOfInput)
    (h : Meets I image' (f (Parse.nextIs kind rest)) rest y) :
    Meets I image' (check I.emitted kind >>= f) rest y := by
  intro p ha
  rw [Walk.bind_done (check_eq kind ha), next_kind hk]
  exact h p ha

theorem checkEither {other : Token.Kind} {f : Bool → Walk Parser β} (hk : kind ≠ .endOfInput)
    (ho : other ≠ .endOfInput)
    (h : Meets I image' (f (Parse.nextIs kind rest || Parse.nextIs other rest)) rest y) :
    Meets I image' (checkEither I.emitted kind other >>= f) rest y := by
  intro p ha
  rw [Walk.bind_done (checkEither_eq kind other ha), next_kind hk, next_kind ho]
  exact h p ha

theorem isAtEnd {f : Bool → Walk Parser β} (h : Meets I image' (f rest.isEmpty) rest y) :
    Meets I image' (isAtEnd I.emitted >>= f) rest y := by
  intro p ha
  rw [Parser.isAtEnd, Walk.bind_done (check_eq _ ha), next_end ha]
  exact h p ha

theorem isAtClose {f : Bool → Walk Parser β}
    (h : Meets I image' (f (rest.isEmpty || Parse.nextIs .rightBrace rest)) rest y) :
    Meets I image' (isAtClose I.emitted >>= f) rest y := by
  intro p ha
  rw [Parser.isAtClose, Walk.bind_done (checkEither_eq _ _ ha), next_end ha, next_kind (by decide)]
  exact h p ha

theorem beginText {f : Unit → Walk Parser β} (h : Meets I image' (f ()) rest y) :
    Meets I image' (beginText >>= f) rest y := by
  intro p ha
  exact h { p with begun := p.begun ++ [p.current - 1] } ha

theorem advance {f : Emitted → Walk Parser β}
    (h : t ∈ I.tokens → Meets I image' (f (Emitted.of t)) rest y) :
    Meets I image' (advance I.emitted >>= f) (t :: rest) y := by
  intro p ha
  rw [Walk.bind_done (advance_eq ha)]
  exact h (Input.mem_of_ahead ha) { p with current := p.current + 1 } ha.next

theorem accept {f : Bool → Walk Parser β} (hk : kind ≠ .endOfInput)
    (ht : ∀ t rest', rest = t :: rest' → t.kind = kind → t ∈ I.tokens →
      MeetsAfter I t image' (f true) rest' y)
    (hf : Parse.nextIs kind rest = false → Meets I image' (f false) rest y) :
    Meets I image' (accept I.emitted kind >>= f) rest y := by
  intro p ha
  cases hn : Parse.nextIs kind rest with
  | false =>
      have hc : Parser.accept I.emitted kind p = .done false p := by
        rw [Parser.accept, Walk.bind_done (check_eq kind ha), next_kind hk, hn]
        rfl
      rw [Walk.bind_done hc]
      exact hf hn p ha
  | true =>
      cases rest with
      | nil => cases hn
      | cons t rest =>
          have hc : Parser.accept I.emitted kind p =
              .done true { p with current := p.current + 1 } := by
            rw [Parser.accept, Walk.bind_done (check_eq kind ha), next_kind hk, hn]
            simp only [if_true]
            rw [Walk.bind_done (step_eq ha)]
            rfl
          rw [Walk.bind_done hc]
          exact ht t rest rfl (of_decide_eq_true hn) (Input.mem_of_ahead ha)
            { p with current := p.current + 1 } p.current rfl ha

/-- The same for a reader that asks for the next token and goes on with the ones after it. -/
theorem accept_ite {f : Bool → Walk Parser β} {z : Except ParseError (δ × List Token)}
    (hk : kind ≠ .endOfInput) (ht : Meets I image' (f true) rest.tail y)
    (hf : Meets I image' (f false) rest z) :
    Meets I image' (Parser.accept I.emitted kind >>= f) rest
      (if Parse.nextIs kind rest then y else z) := by
  refine accept hk (fun t rest' hr hn _ => ?_) fun hn => ?_
  · subst hr
    have hi : Parse.nextIs kind (t :: rest') = true := decide_eq_true hn
    rw [if_pos hi]
    exact ht.after
  · rw [if_neg (Bool.eq_false_iff.mp hn)]
    exact hf

theorem acceptSign {f : Bool → Walk Parser β} {additive : Bool}
    (hs : ∀ t rest' op, rest = t :: rest' → Grammar.Sign additive t op →
      MeetsAfter I t image' (f true) rest' y)
    (hn : (∀ t rest', rest = t :: rest' → Parse.operator? additive t = none) →
      Meets I image' (f false) rest y) :
    Meets I image' (acceptSign I.emitted (Grammar.signs additive) >>= f) rest y := by
  intro p ha
  cases ho : Grammar.operatorAhead additive rest.head? with
  | false =>
      have hc := acceptSign_eq additive ha
      rw [ho, if_neg Bool.false_ne_true] at hc
      rw [Walk.bind_done hc]
      refine hn (fun t rest' hr => ?_) p ha
      rw [hr, List.head?_cons, Grammar.operatorAhead_some] at ho
      exact Option.not_isSome_iff_eq_none.mp (Bool.eq_false_iff.mp ho)
  | true =>
      have hc := acceptSign_eq additive ha
      rw [ho, if_pos rfl] at hc
      cases rest with
      | nil => cases ho
      | cons t rest =>
          rw [List.head?_cons, Grammar.operatorAhead_some] at ho
          obtain ⟨op, ho⟩ := Option.isSome_iff_exists.mp ho
          rw [Walk.bind_done hc]
          exact hs t rest op rfl (Grammar.operator?_eq_some_iff.mp ho)
            { p with current := p.current + 1 } p.current rfl ha

theorem unexpected (cause : ParseError.Cause) :
    Meets I image' (unexpected I.emitted cause) rest
      (.error (Parse.unfit I.endLine cause rest)) := by
  intro p ha
  have hn : (⟨(I.next rest).line, cause, near (I.next rest)⟩ : ParseError) =
      Parse.unfit I.endLine cause rest := by
    cases rest with
    | nil => rfl
    | cons t rest =>
        have hk : (I.next (t :: rest)).kind ≠ .endOfInput := Input.inner_of_ahead ha
        rw [near, if_neg hk]
        rfl
  rw [← hn, Parser.unexpected, Walk.bind_done (peek_eq ha)]
  exact .failed ha.1 rfl

theorem missing (cause : ParseError.Cause) :
    Meets I image' (missing I.emitted cause) rest
      (.error ⟨Parse.nextLine I.endLine rest, cause, .nothing⟩) := by
  have hn : Parse.nextLine I.endLine rest = (I.next rest).line := by
    cases rest <;> rfl
  rw [hn]
  exact peek (fatal _)

theorem consume {f : Emitted → Walk Parser β} {cause : ParseError.Cause}
    {g : Token × List Token → Except ParseError (δ × List Token)} (hk : kind ≠ .endOfInput)
    (h : ∀ t rest', rest = t :: rest' → t.kind = kind → t ∈ I.tokens →
      Meets I image' (f (Emitted.of t)) rest' (g (t, rest'))) :
    Meets I image' (consume I.emitted kind cause >>= f) rest
      (Reading.expect I.endLine kind cause rest >>= g) := by
  intro p ha
  by_cases hn : Parse.nextIs kind rest = true
  · cases rest with
    | nil => cases hn
    | cons t rest =>
        have ht : t.kind = kind := of_decide_eq_true hn
        have hc : Parser.consume I.emitted kind cause p =
            .done (Emitted.of t) { p with current := p.current + 1 } := by
          rw [Parser.consume, Walk.bind_done (check_eq kind ha), next_kind hk, if_pos hn,
            advance_eq ha]
        rw [Walk.bind_done hc, Reading.expect_eq]
        simp only [if_pos ht, Reading.ok_bind]
        exact h t rest rfl ht (Input.mem_of_ahead ha) { p with current := p.current + 1 } ha.next
  · have he : Reading.expect I.endLine kind cause rest =
        .error (Parse.unfit I.endLine cause rest) := by
      rw [Reading.expect_eq]
      cases rest with
      | nil => rfl
      | cons t rest => exact if_neg fun ht => hn (decide_eq_true ht)
    have hc : Meets I (id : Emitted → Emitted) (Parser.consume I.emitted kind cause) rest
        (.error (Parse.unfit I.endLine cause rest)) := by
      rw [Parser.consume]
      refine check hk ?_
      rw [if_neg hn]
      exact unexpected cause
    rw [he]
    exact hc.bind_error p ha

/-- A token that is a number carries one. -/
theorem numberOf {f : Number → Walk Parser β} (ht : t.kind = .number)
    (h : Meets I image' (f (Number.ofLiteral t.lexeme)) rest y) :
    Meets I image' (numberOf (Emitted.of t) >>= f) rest y := by
  have hn : Parser.numberOf (Emitted.of t) = Pure.pure (Number.ofLiteral t.lexeme) := by
    simp only [Parser.numberOf, Emitted.of, ht]
  have hp : Meets I id (Pure.pure (Number.ofLiteral t.lexeme)) rest _ := pure rfl
  rw [hn]
  exact hp.bind_ok h

end Meets

namespace MeetsAfter

theorem previous {f : Emitted → Walk Parser β}
    (h : MeetsAfter I t image' (f (Emitted.of t)) rest y) :
    MeetsAfter I t image' (previous I.emitted >>= f) rest y := by
  intro p k hp ha
  rw [Walk.bind_done (previous_eq hp ha)]
  exact h p k hp ha

/-- At the end there is no next token, and the last one is given again. -/
theorem advance_end {f : Emitted → Walk Parser β}
    (h : MeetsAfter I t image' (f (Emitted.of t)) [] y) :
    MeetsAfter I t image' (advance I.emitted >>= f) [] y := by
  intro p k hp ha
  have hn : Ahead I.tokens p.current [] := hp ▸ ha.next
  have hc : Parser.advance I.emitted p = .done (Emitted.of t) p := by
    rw [Parser.advance, Parser.isAtEnd, Walk.bind_done (check_eq _ hn), next_end hn]
    exact previous_eq hp ha
  rw [Walk.bind_done hc]
  exact h p k hp ha

end MeetsAfter

end

end Parser

end Scripting
