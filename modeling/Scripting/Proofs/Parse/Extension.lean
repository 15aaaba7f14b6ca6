import Scripting.Proofs.Parse.Reading
import Scripting.Proofs.Pieces

/-!
Reading a list of tokens and reading the same list with more tokens after it. The
two go the same way for as long as the first does not come to its end, and once
it has come there it can only stop or fail for want of more. So an error that is
not for want of more is the error of every longer list, and of every source that
goes on with further lines.
-/

namespace Scripting.Reading

open Parse (nextIs unfit isWord operator?)

/-- A reading that has seen the end: it stops there, unless it has to close first,
or it fails for want of more. -/
def Ends {α : Type} (closed : Bool) : Except ParseError (α × List Token) → Prop
  | .ok (_, rest) => closed = false ∧ rest = []
  | .error e => e.isIncomplete = true

/-- The second reading, which has `us` after the tokens of the first, does what the
first does. A reading that closes does so even where it stops at the end. -/
def Agrees {α : Type} (closed : Bool) (us : List Token)
    (x y : Except ParseError (α × List Token)) : Prop :=
  Ends closed x ∨
    match x with
    | .ok (v, rest) => y = .ok (v, rest ++ us)
    | .error e => y = .error e

@[simp] theorem ends_unfit {α : Type} (closed : Bool) (endLine : Nat) (cause : ParseError.Cause) :
    Ends closed (.error (unfit endLine cause []) : Except ParseError (α × List Token)) := by
  simp [Ends, unfit, ParseError.isIncomplete]

@[simp] theorem ends_ok {α : Type} (v : α) : Ends false (.ok (v, [])) := ⟨rfl, rfl⟩

namespace Agrees

variable {α β : Type} {closed : Bool} {us : List Token} {x y : Except ParseError (α × List Token)}
    {f g : α × List Token → Except ParseError (β × List Token)}

theorem ends (h : Ends closed x) : Agrees closed us x y := .inl h

theorem ok (v : α) (rest : List Token) :
    Agrees closed us (.ok (v, rest)) (.ok (v, rest ++ us)) := .inr rfl

theorem error (e : ParseError) :
    Agrees closed us (.error e : Except ParseError (α × List Token)) (.error e) := .inr rfl

/-- A reading that closes is compared also where it stops at the end. -/
theorem of_closed (h : Agrees true us x y) : Agrees closed us x y := by
  obtain h | h := h
  · cases x with
    | error e => exact .inl h
    | ok p => cases h.1
  · exact .inr h

theorem bind_closed (h : Agrees true us x y)
    (hf : ∀ v rest, x = .ok (v, rest) → Agrees closed us (f (v, rest)) (g (v, rest ++ us))) :
    Agrees closed us (x >>= f) (y >>= g) := by
  cases x with
  | error e =>
      obtain h | h := h
      · exact .inl h
      · rw [h]
        exact .inr rfl
  | ok p =>
      obtain ⟨v, rest⟩ := p
      obtain h | h := h
      · cases h.1
      · rw [h]
        exact hf v rest rfl

/-- After any reading, what comes next may find itself at the end. -/
theorem bind (h : Agrees false us x y) (he : ∀ v, Ends closed (f (v, [])))
    (hf : ∀ v t rest, x = .ok (v, t :: rest) →
      Agrees closed us (f (v, t :: rest)) (g (v, t :: rest ++ us))) :
    Agrees closed us (x >>= f) (y >>= g) := by
  cases x with
  | error e =>
      obtain h | h := h
      · exact .inl h
      · rw [h]
        exact .inr rfl
  | ok p =>
      obtain ⟨v, rest⟩ := p
      cases rest with
      | nil => exact .inl (he v)
      | cons t rest =>
          obtain h | h := h
          · cases h.2
          · rw [h]
            exact hf v t rest rfl

theorem ite {c : Prop} [Decidable c] {x' y' : Except ParseError (α × List Token)}
    (h : Agrees closed us x y) (h' : Agrees closed us x' y') :
    Agrees closed us (if c then x else x') (if c then y else y') := by
  split
  · exact h
  · exact h'

theorem expect {endLine later : Nat} {kind : Token.Kind} {cause : ParseError.Cause}
    {ts : List Token} {f g : Token × List Token → Except ParseError (β × List Token)}
    (hf : ∀ t rest, ts = t :: rest → Agrees closed us (f (t, rest)) (g (t, rest ++ us))) :
    Agrees closed us (Reading.expect endLine kind cause ts >>= f)
      (Reading.expect later kind cause (ts ++ us) >>= g) := by
  cases ts with
  | nil => exact .ends (by simp)
  | cons t rest =>
      rw [List.cons_append, expect_eq, expect_eq]
      dsimp only
      split
      · exact hf t rest rfl
      · exact .error _

end Agrees

/-- What a test holds of at the front does not grow if something else comes after it. -/
theorem span_append {test : Token → Bool} {ts after : List Token} {closing : Token}
    (us : List Token) (h : ts.dropWhile test = closing :: after) :
    (ts ++ us).takeWhile test = ts.takeWhile test ∧
      (ts ++ us).dropWhile test = closing :: after ++ us := by
  induction ts with
  | nil => cases h
  | cons t ts ih =>
      by_cases ht : test t = true
      · rw [List.dropWhile_cons_of_pos ht] at h
        simp [ht, ih h]
      · rw [List.dropWhile_cons_of_neg ht] at h
        exact ⟨by simp [ht], by rw [List.cons_append, List.dropWhile_cons_of_neg ht, ← h]; rfl⟩

variable (endLine later : Nat) (us : List Token)

/-- The readers of expressions on one list of tokens and on that list with more. -/
structure ExpressionsAgree (ts : List Token) : Prop where
  primary : Agrees true us (primary endLine ts) (primary later (ts ++ us))
  memberTail : ∀ object,
    Agrees false us (memberTail endLine object ts) (memberTail later object (ts ++ us))
  callTail : ∀ callee,
    Agrees false us (callTail endLine callee ts) (callTail later callee (ts ++ us))
  callMember : Agrees false us (callMember endLine ts) (callMember later (ts ++ us))
  argumentList : Agrees true us (argumentList endLine ts) (argumentList later (ts ++ us))
  expressions : Agrees false us (expressions endLine ts) (expressions later (ts ++ us))
  productTail : ∀ left,
    Agrees false us (productTail endLine left ts) (productTail later left (ts ++ us))
  product : Agrees false us (product endLine ts) (product later (ts ++ us))
  sumTail : ∀ left, Agrees false us (sumTail endLine left ts) (sumTail later left (ts ++ us))
  properties : Agrees false us (properties endLine ts) (properties later (ts ++ us))
  expression : Agrees false us (expression endLine ts) (expression later (ts ++ us))

section

variable {ts : List Token}
    (ih : ∀ vs : List Token, vs.length < ts.length → ExpressionsAgree endLine later us vs)
include ih

theorem primary_agrees : Agrees true us (primary endLine ts) (primary later (ts ++ us)) := by
  cases ts with
  | nil => exact .ends (by simp)
  | cons t rest =>
      rw [primary_eq, List.cons_append, primary_eq]
      dsimp only
      split
      · exact .ok _ _
      split
      · exact .ok _ _
      split
      · cases hd : rest.dropWhile isWord with
        | nil => exact .ends (by simp)
        | cons closing after =>
            obtain ⟨ht, hd'⟩ := span_append us hd
            rw [ht, hd']
            exact .expect fun _ _ _ => .ok _ _
      split
      · refine .bind (ih rest (by simp)).expression (fun v => by simp) fun v u mid _ => ?_
        exact .expect fun _ _ _ => .ok _ _
      · exact .error _

theorem memberTail_agrees (object : Expr) :
    Agrees false us (memberTail endLine object ts) (memberTail later object (ts ++ us)) := by
  cases ts with
  | nil => exact .ends (by simp)
  | cons t rest =>
      rw [memberTail_eq, List.cons_append, memberTail_eq]
      dsimp only
      split
      · refine .bind_closed (ih rest (by simp)).primary fun key mid hk => ?_
        have hl : mid.length < (t :: rest).length := Nat.lt_succ_of_lt (plain_shorter hk)
        cases key with
        | name key => exact (ih mid hl).memberTail _
        | _ => exact .error _
      split
      · refine .bind (ih rest (by simp)).expression (fun v => by simp) fun key u mid hk => ?_
        refine .expect fun closing last hm => ?_
        cases hm
        have hl : mid.length < (t :: rest).length := by
          have hs := plain_shorter hk
          simp only [List.length_cons] at hs ⊢
          omega
        exact (ih mid hl).memberTail _
      · exact .ok _ _

theorem member_agrees : Agrees false us (member endLine ts) (member later (ts ++ us)) := by
  rw [member_eq, member_eq]
  refine .bind_closed (primary_agrees endLine later us ih) fun object rest hp => ?_
  exact (ih rest (plain_shorter hp)).memberTail object

theorem callMember_agrees :
    Agrees false us (callMember endLine ts) (callMember later (ts ++ us)) := by
  rw [callMember_eq, callMember_eq]
  refine .bind (member_agrees endLine later us ih) (fun v => by simp) fun callee u mid hc => ?_
  exact (ih _ (plain_shorter hc)).callTail callee

theorem argumentList_agrees :
    Agrees true us (argumentList endLine ts) (argumentList later (ts ++ us)) := by
  rw [argumentList_eq, argumentList_eq]
  refine .expect ?_
  rintro paren rest rfl
  cases rest with
  | nil => exact .ends (by simp [nextIs])
  | cons t rest =>
      refine .ite (.expect fun _ _ _ => .ok _ _) ?_
      refine .bind (ih (t :: rest) (by simp)).expressions (fun v => by simp) fun v u mid _ => ?_
      exact .expect fun _ _ _ => .ok _ _

theorem callTail_agrees (callee : Expr) :
    Agrees false us (callTail endLine callee ts) (callTail later callee (ts ++ us)) := by
  have ha := argumentList_agrees endLine later us ih
  cases ts with
  | nil => exact .ends (by simp)
  | cons t rest =>
      rw [callTail_eq, callTail_eq]
      refine .ite (.bind_closed ha fun ⟨line, arguments⟩ mid hm => ?_) (.ok _ _)
      exact (ih mid (plain_shorter hm)).callTail _

theorem productTail_agrees (left : Expr) :
    Agrees false us (productTail endLine left ts) (productTail later left (ts ++ us)) := by
  cases ts with
  | nil => exact .ends (by simp)
  | cons t rest =>
      rw [productTail_eq, List.cons_append, productTail_eq]
      dsimp only
      split
      · refine .bind (ih rest (by simp)).callMember (fun v => by simp) fun right u mid hr => ?_
        exact (ih _ (Nat.lt_succ_of_lt (plain_shorter hr))).productTail _
      · exact .ok _ _

theorem product_agrees : Agrees false us (product endLine ts) (product later (ts ++ us)) := by
  rw [product_eq, product_eq]
  refine .bind (callMember_agrees endLine later us ih) (fun v => by simp) fun left u mid hl => ?_
  exact (ih _ (plain_shorter hl)).productTail left

theorem sumTail_agrees (left : Expr) :
    Agrees false us (sumTail endLine left ts) (sumTail later left (ts ++ us)) := by
  cases ts with
  | nil => exact .ends (by simp)
  | cons t rest =>
      rw [sumTail_eq, List.cons_append, sumTail_eq]
      dsimp only
      split
      · refine .bind (ih rest (by simp)).product (fun v => by simp) fun right u mid hr => ?_
        exact (ih _ (Nat.lt_succ_of_lt (plain_shorter hr))).sumTail _
      · exact .ok _ _

theorem sum_agrees : Agrees false us (sum endLine ts) (sum later (ts ++ us)) := by
  rw [sum_eq, sum_eq]
  refine .bind (product_agrees endLine later us ih) (fun v => by simp) fun left u mid hl => ?_
  exact (ih _ (plain_shorter hl)).sumTail left

theorem operand_agrees : Agrees false us (operand endLine ts) (operand later (ts ++ us)) := by
  have hs := sum_agrees endLine later us ih
  cases ts with
  | nil => exact .ends (by simp)
  | cons t rest =>
      rw [operand_eq, List.cons_append, operand_eq]
      dsimp only
      split
      · refine .bind (ih rest (by simp)).properties (fun v => by simp) fun fields u mid _ => ?_
        exact .expect fun _ _ _ => .ok _ _
      · exact hs

theorem properties_agrees :
    Agrees false us (properties endLine ts) (properties later (ts ++ us)) := by
  cases ts with
  | nil => exact .ends (by simp)
  | cons t rest =>
      rw [properties_eq, properties_eq]
      refine .ite (.ok _ _) (.expect fun key after hk => ?_)
      cases hk
      cases rest with
      | nil => exact .ends (by simp [nextIs])
      | cons u rest =>
          have hp := (ih rest (by simp only [List.length_cons]; omega)).properties
          have he := (ih rest (by simp only [List.length_cons]; omega)).expression
          refine .ite (.bind hp (fun v => by simp) fun _ _ _ _ => .ok _ _) (.ite (.ok _ _) ?_)
          refine .expect fun colon after hc => ?_
          cases hc
          refine .bind he (fun v => by simp [nextIs]) fun value w mid hv => ?_
          refine .ite (.ok _ _) (.expect fun comma after hc => ?_)
          cases hc
          have hl : mid.length < (t :: u :: rest).length := by
            have hs := plain_shorter hv
            simp only [List.length_cons] at hs ⊢
            omega
          exact .bind (ih mid hl).properties (fun v => by simp) fun _ _ _ _ => .ok _ _

theorem expression_agrees :
    Agrees false us (expression endLine ts) (expression later (ts ++ us)) := by
  rw [expression_eq, expression_eq]
  refine .bind (operand_agrees endLine later us ih) (fun v => by simp) fun target t rest ho => ?_
  have hl : rest.length < ts.length := Nat.lt_of_succ_lt (plain_shorter ho)
  dsimp only
  rw [assignTail_eq, List.cons_append, assignTail_eq]
  exact .ite (.bind (ih rest hl).expression (fun v => by simp) fun _ _ _ _ => .ok _ _) (.ok _ _)

theorem expressions_agrees :
    Agrees false us (expressions endLine ts) (expressions later (ts ++ us)) := by
  rw [expressions_eq, expressions_eq]
  refine .bind (expression_agrees endLine later us ih) (fun v => by simp [nextIs]) ?_
  intro e t rest he
  have hl : rest.length < ts.length := Nat.lt_of_succ_lt (plain_shorter he)
  exact .ite (.bind (ih rest hl).expressions (fun v => by simp) fun _ _ _ _ => .ok _ _) (.ok _ _)

end

theorem expressionsAgree (ts : List Token) : ExpressionsAgree endLine later us ts := by
  induction h : ts.length using Nat.strongRecOn generalizing ts with
  | ind n ih =>
      have ih : ∀ vs : List Token, vs.length < ts.length → ExpressionsAgree endLine later us vs :=
        fun vs hv => ih vs.length (h ▸ hv) vs rfl
      exact {
        primary := primary_agrees endLine later us ih
        memberTail := memberTail_agrees endLine later us ih
        callTail := callTail_agrees endLine later us ih
        callMember := callMember_agrees endLine later us ih
        argumentList := argumentList_agrees endLine later us ih
        expressions := expressions_agrees endLine later us ih
        productTail := productTail_agrees endLine later us ih
        product := product_agrees endLine later us ih
        sumTail := sumTail_agrees endLine later us ih
        properties := properties_agrees endLine later us ih
        expression := expression_agrees endLine later us ih }

/-! ## Statements -/

theorem declaredType_agrees (ts : List Token) :
    Agrees false us (declaredType endLine ts) (declaredType later (ts ++ us)) := by
  cases ts with
  | nil => exact .ends (by simp [declaredType_eq])
  | cons t rest =>
      rw [declaredType_eq, List.cons_append, declaredType_eq]
      refine .ite ?_ (.ok _ _)
      cases rest with
      | nil => exact .ends (by simp)
      | cons type rest => exact .ok _ _

theorem typedText_agrees (ts : List Token) :
    Agrees true us (typedText endLine ts) (typedText later (ts ++ us)) := by
  rw [typedText_eq, typedText_eq]
  refine .expect fun opening rest _ => ?_
  dsimp only
  cases hd : rest.dropWhile fun t => t.kind != .quote with
  | nil => exact .ends (by simp [Ends, ParseError.isIncomplete])
  | cons closing after =>
      obtain ⟨ht, hd'⟩ := span_append us hd
      rw [ht, hd']
      exact .ok _ _

theorem initializer_agrees (type : Option Text) (ts : List Token) :
    Agrees false us (initializer endLine type ts) (initializer later type (ts ++ us)) := by
  rw [initializer_eq, initializer_eq]
  refine .ite (.of_closed (typedText_agrees endLine later us ts)) (.ite ?_ (.ite ?_ ?_))
  · rw [typedNumber_eq, typedNumber_eq]
    exact .expect fun _ _ _ => .ok _ _
  · cases ts with
    | nil => exact .ends (by simp [typedBoolean_eq])
    | cons t rest =>
        rw [typedBoolean_eq, List.cons_append, typedBoolean_eq]
        exact .ite (.ok _ _) (.ite (.ok _ _) (.error _))
  · exact (expressionsAgree endLine later us ts).expression

theorem declaration_agrees (constant : Bool) (line : Nat) (ts : List Token) :
    Agrees true us (declaration endLine constant line ts)
      (declaration later constant line (ts ++ us)) := by
  rw [declaration_eq, declaration_eq]
  refine .expect fun name rest _ => ?_
  refine .bind (declaredType_agrees endLine later us rest) (fun v => by simp [nextIs]) ?_
  intro type t rest _
  refine .ite (.ite (.error _) (.ok _ _)) (.expect fun equal after _ => ?_)
  refine .bind (initializer_agrees endLine later us type after) (fun v => by simp) ?_
  exact fun _ _ _ _ => .expect fun _ _ _ => .ok _ _

theorem condition_agrees (ts : List Token) :
    Agrees true us (condition endLine ts) (condition later (ts ++ us)) := by
  rw [condition_eq, condition_eq]
  refine .expect fun opening rest _ => ?_
  cases rest with
  | nil => exact .ends (by simp [nextIs])
  | cons t rest =>
      refine .ite (.error _) ?_
      refine .bind (expressionsAgree endLine later us (t :: rest)).expression (fun v => by simp) ?_
      exact fun _ _ _ _ => .expect fun _ _ _ => .ok _ _

theorem expressionStatement_agrees (ts : List Token) :
    Agrees false us (expressionStatement endLine ts) (expressionStatement later (ts ++ us)) := by
  rw [expressionStatement_eq, expressionStatement_eq]
  refine .bind (expressionsAgree endLine later us ts).expression (fun v => by simp [nextIs]) ?_
  exact fun _ _ _ _ => .ite (.ok _ _) (.ok _ _)

/-- The readers of statements on one list of tokens and on that list with more. -/
structure StatementsAgree (ts : List Token) : Prop where
  clauses : Agrees false us (clauses endLine ts) (clauses later (ts ++ us))
  block : Agrees true us (block endLine ts) (block later (ts ++ us))
  statements : ∀ nested,
    Agrees false us (statements endLine nested ts) (statements later nested (ts ++ us))

section

variable {ts : List Token}
    (ih : ∀ vs : List Token, vs.length < ts.length → StatementsAgree endLine later us vs)
include ih

theorem function_agrees : Agrees true us (function endLine ts) (function later (ts ++ us)) := by
  rw [function_eq, function_eq]
  refine .expect ?_
  rintro name rest rfl
  refine .bind_closed (expressionsAgree endLine later us rest).argumentList ?_
  rintro ⟨line, arguments⟩ mid hm
  dsimp only
  cases Parse.parameters? arguments with
  | none => exact .error _
  | some parameters =>
      refine .expect ?_
      rintro opening after rfl
      have hl : after.length < (name :: rest).length := by
        have hs := plain_shorter hm
        simp only [List.length_cons] at hs ⊢
        omega
      refine .bind ((ih after hl).statements true) (fun v => by simp) ?_
      exact fun _ _ _ _ => .expect fun _ _ _ => .ok _ _

theorem block_agrees : Agrees true us (block endLine ts) (block later (ts ++ us)) := by
  rw [block_eq, block_eq]
  refine .expect ?_
  rintro opening rest rfl
  cases rest with
  | nil => exact .ends (by simp [nextIs])
  | cons t rest =>
      refine .ite (.error _) ?_
      refine .bind ((ih (t :: rest) (by simp)).statements true) (fun v => by simp) ?_
      exact fun _ _ _ _ => .expect fun _ _ _ => .ok _ _

theorem clause_agrees : Agrees true us (clause endLine ts) (clause later (ts ++ us)) := by
  rw [clause_eq, clause_eq]
  refine .bind_closed (condition_agrees endLine later us ts) fun test mid hm => ?_
  exact .bind_closed (ih mid (plain_shorter hm)).block fun _ _ _ => .ok _ _

theorem conditional_agrees (line : Nat) :
    Agrees false us (conditional endLine line ts) (conditional later line (ts ++ us)) := by
  rw [conditional_eq, conditional_eq]
  refine .bind_closed (clause_agrees endLine later us ih) fun first mid hm => ?_
  have hl := plain_shorter hm
  refine .bind (ih mid hl).clauses (fun v => by simp [nextIs]) fun others t rest hr => ?_
  refine .ite (.bind_closed (ih rest ?_).block fun _ _ _ => .ok _ _) (.ok _ _)
  have hs := plain_shorter hr
  simp only [List.length_cons] at hs
  omega

theorem clauses_agrees : Agrees false us (clauses endLine ts) (clauses later (ts ++ us)) := by
  cases ts with
  | nil => exact .ends (by simp)
  | cons t rest =>
      have ih' : ∀ vs : List Token, vs.length < rest.length → StatementsAgree endLine later us vs :=
        fun vs hv => ih vs (by simp only [List.length_cons]; omega)
      rw [clauses_eq, List.cons_append, clauses_eq]
      refine .ite (.bind_closed (clause_agrees endLine later us ih') fun c mid hm => ?_) (.ok _ _)
      exact .bind (ih' mid (plain_shorter hm)).clauses (fun v => by simp) fun _ _ _ _ => .ok _ _

theorem statement_agrees : Agrees false us (statement endLine ts) (statement later (ts ++ us)) := by
  have he := expressionStatement_agrees endLine later us ts
  cases ts with
  | nil => exact .ends (by simp)
  | cons t rest =>
      have ih' : ∀ vs : List Token, vs.length < rest.length → StatementsAgree endLine later us vs :=
        fun vs hv => ih vs (by simp only [List.length_cons]; omega)
      rw [statement_eq, List.cons_append, statement_eq]
      refine .ite (.of_closed (declaration_agrees endLine later us _ _ rest)) ?_
      refine .ite (.of_closed (declaration_agrees endLine later us _ _ rest)) ?_
      refine .ite (.of_closed (function_agrees endLine later us ih')) ?_
      exact .ite (conditional_agrees endLine later us ih' _) he

theorem statements_agrees (nested : Bool) :
    Agrees false us (statements endLine nested ts) (statements later nested (ts ++ us)) := by
  have hs := statement_agrees endLine later us ih
  cases ts with
  | nil => exact .ends (by simp)
  | cons t rest =>
      rw [statements_eq, statements_eq]
      refine .ite (.ok _ _) (.bind hs (fun v => by simp) fun s u mid hm => ?_)
      have hl := plain_shorter hm
      exact .bind ((ih _ hl).statements nested) (fun v => by simp) fun _ _ _ _ => .ok _ _

end

theorem statementsAgree (ts : List Token) : StatementsAgree endLine later us ts := by
  induction h : ts.length using Nat.strongRecOn generalizing ts with
  | ind n ih =>
      have ih : ∀ vs : List Token, vs.length < ts.length → StatementsAgree endLine later us vs :=
        fun vs hv => ih vs.length (h ▸ hv) vs rfl
      exact {
        clauses := clauses_agrees endLine later us ih
        block := block_agrees endLine later us ih
        statements := statements_agrees endLine later us ih }

end Scripting.Reading

namespace Scripting.Program

/-- An error that is not for want of more tokens is the error of every longer list. -/
theorem ofTokens_append_error {endLine : Nat} {ts : List Token} {e : ParseError}
    (h : ofTokens endLine ts = .error e) (hf : e.isIncomplete = false) (later : Nat)
    (us : List Token) : ofTokens later (ts ++ us) = .error e := by
  rw [ofTokens_eq] at h ⊢
  have ha := (Reading.statementsAgree endLine later us ts).statements false
  cases hs : Reading.statements endLine false ts with
  | ok x => simp [hs, Except.map] at h
  | error e' =>
      simp only [hs, Except.map, Except.error.injEq] at h
      rw [hs, h] at ha
      obtain he | he := ha
      · rw [Reading.Ends, hf] at he
        cases he
      · rw [he]
        rfl

theorem ofSource_of_errors {s : Text} {e : ParseError} {es : List ParseError}
    (h : (Scan.ofSource s).errors = e :: es) : ofSource s = .error e := by
  rw [ofSource, ofScan, h]

theorem ofSource_of_no_errors {s : Text} (h : (Scan.ofSource s).errors = []) :
    ofSource s = ofTokens (Scan.ofSource s).endLine (Scan.ofSource s).tokens := by
  rw [ofSource, ofScan, h]

theorem ofTokens_of_ofSource {s : Text} {p : Program} (h : ofSource s = .ok p) :
    (Scan.ofSource s).errors = [] ∧
      ofTokens (Scan.ofSource s).endLine (Scan.ofSource s).tokens = .ok p := by
  cases he : (Scan.ofSource s).errors with
  | nil => exact ⟨rfl, by rw [← ofSource_of_no_errors he, h]⟩
  | cons e es =>
      rw [ofSource_of_errors he] at h
      cases h

theorem ofSource_newline_error {s : Text} {e : ParseError} (h : ofSource s = .error e)
    (hf : e.isIncomplete = false) (t : Text)
    (hl : (Scan.ofSource s).errors ≠ [] ∨ (Scan.ofSource (s ++ Piece.newline :: t)).errors = []) :
    ofSource (s ++ Piece.newline :: t) = .error e := by
  cases hs : (Scan.ofSource s).errors with
  | cons e' es =>
      rw [ofSource_of_errors hs] at h
      cases h
      obtain ⟨fs, hfs⟩ := Scan.errors_ofSource_newline hs hf t
      exact ofSource_of_errors hfs
  | nil =>
      rw [ofSource_of_no_errors hs] at h
      obtain ⟨us, hu⟩ := Scan.tokens_ofSource_newline s t
      rw [ofSource_of_no_errors (hl.resolve_left (absurd hs)), hu]
      exact ofTokens_append_error h hf _ us

theorem ofSource_newline_fails {s : Text} {e : ParseError} (h : ofSource s = .error e)
    (hf : e.isIncomplete = false) (t : Text) :
    ∃ e', ofSource (s ++ Piece.newline :: t) = .error e' := by
  cases ht : (Scan.ofSource (s ++ Piece.newline :: t)).errors with
  | nil => exact ⟨e, ofSource_newline_error h hf t (.inr ht)⟩
  | cons e' es => exact ⟨e', ofSource_of_errors ht⟩

/-- An error that more text cannot mend is final. It stays the same error unless
only the further lines have a lexical fault, which then comes first. So a source
that can be completed by further lines parses or is incomplete. -/
theorem ofSource_error_final (s t : Text) :
    (∀ e, ofSource s = .error e → e.isIncomplete = false →
      (∃ e', ofSource (s ++ Piece.newline :: t) = .error e') ∧
      ((Scan.ofSource s).errors ≠ [] ∨ (Scan.ofSource (s ++ Piece.newline :: t)).errors = [] →
        ofSource (s ++ Piece.newline :: t) = .error e)) ∧
    (∀ p, ofSource (s ++ Piece.newline :: t) = .ok p →
      (∃ q, ofSource s = .ok q) ∨ isIncomplete s = true) := by
  refine ⟨fun e h hf => ⟨ofSource_newline_fails h hf t, ofSource_newline_error h hf t⟩, ?_⟩
  intro p hp
  cases hs : ofSource s with
  | ok q => exact .inl ⟨q, rfl⟩
  | error e =>
      cases hf : e.isIncomplete with
      | true => exact .inr (by simp only [isIncomplete, hs, hf])
      | false =>
          obtain ⟨e', he'⟩ := ofSource_newline_fails hs hf t
          rw [hp] at he'
          cases he'

/-- A constant without a value is not mended by a value on the next line. -/
theorem ofSource_constant_then_value :
    let e : ParseError := ⟨1, .constantWithoutValue, .source (Text.utf8 "x")⟩
    e.isIncomplete = false ∧ ofSource (Text.utf8 "const x;") = .error e ∧
      ofSource (Text.utf8 "const x;" ++ Piece.newline :: Text.utf8 "= 1") = .error e := by
  intro e
  have h : ofSource (Text.utf8 "const x;") = .error e := by
    have hb : (match ofSource (Text.utf8 "const x;") with
        | .error f => decide (f = e)
        | .ok _ => false) = true := by decide +kernel
    split at hb
    · next hf => rw [hf, of_decide_eq_true hb]
    · cases hb
  have hl : (Scan.ofSource (Text.utf8 "const x;" ++
      Piece.newline :: Text.utf8 "= 1")).errors = [] := by decide +kernel
  exact ⟨rfl, h, ((ofSource_error_final _ (Text.utf8 "= 1")).1 _ h rfl).2 (.inr hl)⟩

end Scripting.Program
