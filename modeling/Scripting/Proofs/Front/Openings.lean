import Scripting.Proofs.Front.Endings
import Scripting.Proofs.Token.Balance

/-!
A parser begins quoted texts only at quotes that open one. Between the functions of the parser its
cursor stands outside quotes, and all opening quotes that it has passed were taken for the beginning
of a text. The one exception is a quote that is taken for a type: what must follow the type cannot
stand inside quotes, so that the parsing ends there. A quoted text that is begun is always closed,
and no error of the parser is about one that is not.
-/

namespace Scripting.Parser

open Scan (Balanced openings quotedAt)

/-- A place inside quotes or outside. -/
structure Stands (I : Input) (quoted : Bool) (k : Nat) : Prop where
  le : k ≤ I.tokens.length
  eq : quotedAt I.tokens k = quoted

/-- Places that are those of the first opening quotes. -/
def Begun (I : Input) (begun : List Nat) : Prop :=
  ∃ k ≤ I.tokens.length, begun = openings I.tokens k

/-- A parser outside quotes that has begun a text at each opening quote behind it. -/
structure Outside (I : Input) (p : Parser) : Prop where
  stands : Stands I false p.current
  begun : p.begun = openings I.tokens p.current

/-- What is true when a walk has ended that started outside quotes. If it was not given up, it is
outside again. -/
inductive Kept (I : Input) (errors : List ParseError) {α : Type} : Walked Parser α → Prop
  | done {a : α} {p : Parser} (hp : Outside I p) (he : p.errors = errors) :
      Kept I errors (.done a p)
  | aborted {p : Parser} {e : ParseError} (he : p.errors = errors ++ [e])
      (hc : e.cause ≠ .unclosedQuote) (hb : Begun I p.begun) : Kept I errors (.aborted p)
  | astray {p : Parser} (hb : Begun I p.begun) : Kept I errors (.astray p)
  | exhausted {p : Parser} (hb : Begun I p.begun) : Kept I errors (.exhausted p)

/-- A walk begins texts only at opening quotes. -/
def Keeps (I : Input) {α : Type} (x : Walk Parser α) : Prop :=
  ∀ p, Outside I p → Kept I p.errors (x p)

variable {I : Input} {α β : Type} {x y : Walk Parser α} {f : α → Walk Parser β} {p : Parser}
  {t : Token} {quoted : Bool} {k : Nat}

theorem ne_quote {kind : Token.Kind} (h : t.kind = kind) (hk : kind ≠ .quote) :
    t.kind ≠ .quote := h ▸ hk

namespace Stands

theorem next (h : Stands I quoted k) (ht : I.tokens[k]? = some t) :
    Stands I (quoted != (t.kind = .quote : Bool)) (k + 1) := by
  refine ⟨(List.getElem?_eq_some_iff.mp ht).1, ?_⟩
  rw [Scan.quotedAt_succ ht, h.eq]

theorem next_plain (h : Stands I quoted k) (ht : I.tokens[k]? = some t) (hk : t.kind ≠ .quote) :
    Stands I quoted (k + 1) ∧ openings I.tokens (k + 1) = openings I.tokens k := by
  have hn := h.next ht
  rw [decide_eq_false hk, Bool.bne_false] at hn
  refine ⟨hn, ?_⟩
  rw [Scan.openings_succ ht, if_neg fun hq => hk hq.1, List.append_nil]

theorem exists_ahead (h : Stands I quoted k) {kind : Token.Kind}
    (hn : (I.next (I.tokens.drop k)).kind = kind) (hk : kind ≠ .endOfInput) :
    ∃ rest, Ahead I.tokens k (I.next (I.tokens.drop k) :: rest) := by
  cases hd : I.tokens.drop k with
  | nil =>
      rw [hd] at hn
      exact absurd hn.symm hk
  | cons t rest => exact ⟨rest, h.le, hd⟩

end Stands

namespace Outside

theorem ahead (h : Outside I p) : Ahead I.tokens p.current (I.tokens.drop p.current) :=
  ⟨h.stands.le, rfl⟩

theorem is_begun (h : Outside I p) : Begun I p.begun := ⟨p.current, h.stands.le, h.begun⟩

theorem next {rest : List Token} (h : Outside I p) (ha : Ahead I.tokens p.current (t :: rest))
    (ht : t.kind ≠ .quote) : Outside I { p with current := p.current + 1 } := by
  obtain ⟨hn, ho⟩ := h.stands.next_plain ha.get ht
  exact ⟨hn, h.begun.trans ho.symm⟩

end Outside

namespace Kept

variable {errors : List ParseError}

theorem bind (hx : Kept I errors (x p)) (hf : ∀ a, Keeps I (f a)) :
    Kept I errors ((x >>= f) p) := by
  generalize hw : x p = w at hx
  cases hx with
  | @done a q hq he =>
      rw [Walk.bind_done hw, ← he]
      exact hf a q hq
  | aborted he hc hb =>
      rw [Walk.bind_aborted hw]
      exact .aborted he hc hb
  | astray hb =>
      rw [Walk.bind_astray hw]
      exact .astray hb
  | exhausted hb =>
      rw [Walk.bind_exhausted hw]
      exact .exhausted hb

/-- The first walk only looks. -/
theorem bind_still {a : α} (hx : x p = .done a p) (hf : Kept I errors (f a p)) :
    Kept I errors ((x >>= f) p) := by
  rwa [Walk.bind_done hx]

theorem bind_aborted {q : Parser} {e : ParseError} (hx : x p = .aborted q)
    (he : q.errors = errors ++ [e]) (hc : e.cause ≠ .unclosedQuote) (hb : Begun I q.begun) :
    Kept I errors ((x >>= f) p) := by
  rw [Walk.bind_aborted hx]
  exact .aborted he hc hb

theorem ite {c : Prop} [Decidable c] (h : c → Kept I errors (x p))
    (h' : ¬ c → Kept I errors (y p)) : Kept I errors ((if c then x else y) p) := by
  split
  · next hc => exact h hc
  · next hc => exact h' hc

theorem still {a : α} (hp : Outside I p) (hx : x p = .done a p) : Kept I p.errors (x p) := by
  rw [hx]
  exact .done hp rfl

/-- Over a token that is no quote. -/
theorem passing {a : α} {rest : List Token} (hp : Outside I p)
    (ha : Ahead I.tokens p.current (t :: rest)) (ht : t.kind ≠ .quote)
    (hx : x p = .done a { p with current := p.current + 1 }) : Kept I p.errors (x p) := by
  rw [hx]
  exact .done (hp.next ha ht) rfl

end Kept

namespace Keeps

theorem bind (hx : Keeps I x) (hf : ∀ a, Keeps I (f a)) : Keeps I (x >>= f) :=
  fun p hp => (hx p hp).bind hf

theorem ite {c : Prop} [Decidable c] (h : Keeps I x) (h' : Keeps I y) :
    Keeps I (if c then x else y) :=
  fun p hp => .ite (fun _ => h p hp) fun _ => h' p hp

theorem pure (a : α) : Keeps I (Pure.pure a) := fun _ hp => .still hp rfl

theorem exhausted : Keeps I (Walk.exhausted : Walk Parser α) :=
  fun _ hp => .exhausted hp.is_begun

theorem fatal {line : Nat} {cause : ParseError.Cause} {near : ParseError.Near}
    (hc : cause ≠ .unclosedQuote) :
    Keeps I (Parser.fatal ⟨line, cause, near⟩ : Walk Parser α) :=
  fun _ hp => .aborted rfl hc hp.is_begun

theorem demand (a : Option α) : Keeps I (Walk.demand a) := by
  intro p hp
  cases a with
  | some a => exact .still hp rfl
  | none => exact .astray hp.is_begun

theorem numberOf (e : Emitted) : Keeps I (numberOf e) := by
  rw [Parser.numberOf]
  cases e.literal with
  | number value => exact pure _
  | _ => exact demand _

theorem previous : Keeps I (previous I.emitted) := by
  rw [Parser.previous]
  refine bind (fun p hp => .still hp (Walk.look_eq ..)) fun k => ?_
  cases k with
  | zero => exact demand _
  | succ k => exact demand _

theorem peek : Keeps I (peek I.emitted) := fun _ hp => .still hp (peek_eq hp.ahead)

theorem check (kind : Token.Kind) : Keeps I (check I.emitted kind) :=
  fun _ hp => .still hp (check_eq kind hp.ahead)

theorem isAtEnd : Keeps I (isAtEnd I.emitted) := check .endOfInput

theorem isAtClose : Keeps I (isAtClose I.emitted) :=
  fun _ hp => .still hp (checkEither_eq _ _ hp.ahead)

theorem unexpected {cause : ParseError.Cause} (hc : cause ≠ .unclosedQuote) :
    Keeps I (unexpected I.emitted cause : Walk Parser α) :=
  bind peek fun _ => fatal hc

theorem missing {cause : ParseError.Cause} (hc : cause ≠ .unclosedQuote) :
    Keeps I (missing I.emitted cause : Walk Parser α) :=
  bind peek fun _ => fatal hc

end Keeps

section
variable {kind : Token.Kind} {cause : ParseError.Cause}

theorem Kept.advance (hp : Outside I p)
    (hn : (I.next (I.tokens.drop p.current)).kind ≠ .quote) :
    Kept I p.errors (advance I.emitted p) := by
  cases hd : I.tokens.drop p.current with
  | nil =>
      have ha : Ahead I.tokens p.current [] := ⟨hp.stands.le, hd⟩
      rw [Parser.advance]
      exact .bind_still (check_eq _ ha) (Keeps.previous p hp)
  | cons t rest =>
      have ha : Ahead I.tokens p.current (t :: rest) := ⟨hp.stands.le, hd⟩
      rw [hd] at hn
      exact .passing hp ha hn (advance_eq ha)

theorem Keeps.consume (hk : kind ≠ .quote) (hc : cause ≠ .unclosedQuote) :
    Keeps I (consume I.emitted kind cause) := by
  intro p hp
  rw [Parser.consume]
  refine .bind_still (check_eq kind hp.ahead) (.ite (fun ht => ?_) fun _ => ?_)
  · exact .advance hp (ne_quote (of_decide_eq_true ht) hk)
  · exact Keeps.unexpected hc p hp

theorem consume_eq {rest : List Token} (ha : Ahead I.tokens p.current (t :: rest))
    (ht : t.kind = kind) :
    consume I.emitted kind cause p =
      .done (Emitted.of t) { p with current := p.current + 1 } := by
  have hc : check I.emitted kind p = .done (decide (t.kind = kind)) p := check_eq kind ha
  rw [Parser.consume, Walk.bind_done hc, if_pos (decide_eq_true ht)]
  exact advance_eq ha

theorem consume_other (hp : Stands I quoted p.current)
    (ht : (I.next (I.tokens.drop p.current)).kind ≠ kind) :
    ∃ e, consume I.emitted kind cause p = .aborted { p with errors := p.errors ++ [e] } ∧
      e.cause = cause := by
  let t := I.next (I.tokens.drop p.current)
  refine ⟨⟨t.line, cause, near t⟩, ?_, rfl⟩
  rw [Parser.consume, Walk.bind_done (check_eq kind ⟨hp.le, rfl⟩),
    if_neg (ht ∘ of_decide_eq_true)]
  exact Walk.bind_done (peek_eq ⟨hp.le, rfl⟩)

theorem accept_other (hp : Stands I quoted p.current)
    (ht : (I.next (I.tokens.drop p.current)).kind ≠ kind) :
    Parser.accept I.emitted kind p = .done false p := by
  rw [Parser.accept, Walk.bind_done (check_eq kind ⟨hp.le, rfl⟩),
    if_neg (ht ∘ of_decide_eq_true)]
  rfl

theorem Keeps.accept (hk : kind ≠ .quote) (he : kind ≠ .endOfInput) :
    Keeps I (accept I.emitted kind) := by
  intro p hp
  rw [Parser.accept]
  refine .bind_still (check_eq kind hp.ahead) (.ite (fun ht => ?_) fun _ => Keeps.pure false p hp)
  obtain ⟨rest, ha⟩ := hp.stands.exists_ahead (of_decide_eq_true ht) he
  exact .passing hp ha (ne_quote (of_decide_eq_true ht) hk) (Walk.bind_done (step_eq ha))

theorem Keeps.acceptSign (signs : List Text) : Keeps I (acceptSign I.emitted signs) := by
  intro p hp
  rw [Parser.acceptSign]
  refine .bind_still (check_eq .operator hp.ahead) ?_
  refine .ite (fun ht => ?_) fun _ => Keeps.pure false p hp
  have ht := of_decide_eq_true ht
  obtain ⟨rest, ha⟩ := hp.stands.exists_ahead ht (by decide)
  refine .bind_still (peek_eq ha) (.ite (fun _ => ?_) fun _ => Keeps.pure false p hp)
  exact .passing hp ha (ne_quote ht (by decide)) (Walk.bind_done (step_eq ha))

end

/-- From one state inside quotes on to another, at the quote that closes the text. -/
structure Closing (I : Input) (p q : Parser) : Prop where
  stands : Stands I true q.current
  errors : q.errors = p.errors
  begun : q.begun = p.begun
  quote : (I.next (I.tokens.drop q.current)).kind = .quote
  openings : openings I.tokens q.current = openings I.tokens p.current

/-- From inside quotes a walk comes to the quote that closes the text. -/
def Closes (I : Input) (x : Walk Parser α) : Prop :=
  ∀ p, Stands I true p.current →
    (∃ q, x p = .exhausted q ∧ q.begun = p.begun) ∨ ∃ a q, x p = .done a q ∧ Closing I p q

/-- Inside quotes the next token is there, and it is a word or a quote. -/
theorem Stands.exists_inside (hb : Balanced I.tokens) (h : Stands I true k) :
    ∃ t rest, Ahead I.tokens k (t :: rest) ∧ (t.kind = .quote ∨ t.kind = .word) := by
  cases hd : I.tokens.drop k with
  | nil =>
      have hk : I.tokens.take k = I.tokens := List.take_of_length_le (List.drop_eq_nil_iff.mp hd)
      have hq := h.eq
      rw [quotedAt, hk, hb.closed] at hq
      cases hq
  | cons t rest =>
      have ha : Ahead I.tokens k (t :: rest) := ⟨h.le, hd⟩
      refine ⟨t, rest, ha, ?_⟩
      by_cases ht : t.kind = .quote
      · exact .inl ht
      · exact .inr ((hb.word_iff ha.get ht).mpr h.eq)

theorem Closing.of_next {q : Parser} {rest : List Token} (hp : Stands I true p.current)
    (ha : Ahead I.tokens p.current (t :: rest)) (ht : t.kind ≠ .quote)
    (h : Closing I { p with current := p.current + 1 } q) : Closing I p q :=
  ⟨h.stands, h.errors, h.begun, h.quote, h.openings.trans (hp.next_plain ha.get ht).2⟩

theorem Closing.here {rest : List Token} (hp : Stands I true p.current)
    (ha : Ahead I.tokens p.current (t :: rest)) (ht : t.kind = .quote) : Closing I p p := by
  refine ⟨hp, rfl, rfl, ?_, rfl⟩
  rw [ha.2]
  exact ht

section
variable (hb : Balanced I.tokens)
include hb

theorem words_closes (fuel : Nat) : Closes I (words I.emitted fuel) := by
  induction fuel with
  | zero => exact fun p _ => .inl ⟨p, rfl, rfl⟩
  | succ fuel ih =>
      intro p hp
      obtain ⟨t, rest, ha, ht⟩ := hp.exists_inside hb
      have hc : check I.emitted .word p = .done (decide (t.kind = .word)) p := check_eq .word ha
      rw [words, Walk.bind_done hc]
      cases ht with
      | inl hq =>
          rw [hq]
          exact .inr ⟨[], p, rfl, .here hp ha hq⟩
      | inr hw =>
          have hq : t.kind ≠ .quote := ne_quote hw (by decide)
          rw [if_pos (decide_eq_true hw), Walk.bind_done (advance_eq ha)]
          obtain ⟨q, he, hq⟩ | ⟨texts, q, hd, hc⟩ :=
            ih { p with current := p.current + 1 } (hp.next_plain ha.get hq).1
          · exact .inl ⟨q, Walk.bind_exhausted he, hq⟩
          · exact .inr ⟨_, q, Walk.bind_done hd, hc.of_next hp ha hq⟩

theorem typedWords_closes (fuel : Nat) : Closes I (typedWords I.emitted fuel) := by
  induction fuel with
  | zero => exact fun p _ => .inl ⟨p, rfl, rfl⟩
  | succ fuel ih =>
      intro p hp
      obtain ⟨t, rest, ha, ht⟩ := hp.exists_inside hb
      have hc : check I.emitted .quote p = .done (decide (t.kind = .quote)) p := check_eq .quote ha
      rw [typedWords, Walk.bind_done hc]
      cases ht with
      | inl hq =>
          rw [hq]
          exact .inr ⟨[], p, rfl, .here hp ha hq⟩
      | inr hw =>
          have hq : t.kind ≠ .quote := ne_quote hw (by decide)
          have he : isAtEnd I.emitted p = .done false p := by
            rw [isAtEnd, check_eq .endOfInput ha]
            exact congrArg (Walked.done · p) (next_end ha)
          rw [if_neg (hq ∘ of_decide_eq_true), Walk.bind_done he]
          simp only [Bool.false_eq_true, if_false]
          rw [Walk.bind_done (advance_eq ha)]
          obtain ⟨q, he, hq⟩ | ⟨texts, q, hd, hc⟩ :=
            ih { p with current := p.current + 1 } (hp.next_plain ha.get hq).1
          · exact .inl ⟨q, Walk.bind_exhausted he, hq⟩
          · exact .inr ⟨_, q, Walk.bind_done hd, hc.of_next hp ha hq⟩

end

/-- After the quote that closes a text the walk is outside again. -/
theorem Closes.kept (hx : Closes I x)
    (hf : ∀ a q, Stands I true q.current → (I.next (I.tokens.drop q.current)).kind = .quote →
      ∃ b, f a q = .done b { q with current := q.current + 1 }) (hp : Stands I true p.current)
    (ho : p.begun = openings I.tokens p.current) : Kept I p.errors ((x >>= f) p) := by
  obtain ⟨q, he, hq⟩ | ⟨a, q, hd, hc⟩ := hx p hp
  · rw [Walk.bind_exhausted he]
    exact .exhausted ⟨p.current, hp.le, hq.trans ho⟩
  · obtain ⟨b, hb⟩ := hf a q hc.stands hc.quote
    obtain ⟨rest, ha⟩ := hc.stands.exists_ahead hc.quote (by decide)
    have hn := hc.stands.next ha.get
    rw [hc.quote] at hn
    rw [Walk.bind_done hd, hb]
    refine .done ⟨hn, ?_⟩ hc.errors
    rw [Scan.openings_succ ha.get, hc.stands.eq, hc.openings, ← ho, ← hc.begun]
    simp

/-- A text that is begun at a quote that opens one. -/
theorem Kept.text {a : α} {rest : List Token} (hp : Outside I p)
    (ha : Ahead I.tokens p.current (t :: rest)) (ht : t.kind = .quote)
    (hx : x p = .done a { p with current := p.current + 1 }) {g : α → Unit → Walk Parser β}
    (hg : ∀ q, Stands I true q.current → q.begun = openings I.tokens q.current →
      Kept I q.errors (g a () q)) :
    Kept I p.errors ((x >>= fun a => beginText >>= g a) p) := by
  have hn := hp.stands.next ha.get
  rw [ht] at hn
  have ho := Scan.openings_succ ha.get
  rw [if_pos ⟨ht, hp.stands.eq⟩, ← hp.begun] at ho
  rw [Walk.bind_done hx]
  exact hg ⟨p.current + 1, p.errors, p.begun ++ [p.current]⟩ hn ho.symm

section
variable {expression : Walk Parser ExprNode} {fuel : Nat}
  (hb : Balanced I.tokens) (hu : Keeps I expression)

section
include hb hu

theorem primary_keeps : Keeps I (primary I.emitted expression fuel) := by
  intro p hp
  refine .bind_still (peek_eq hp.ahead) ?_
  refine .ite (fun hk => ?_) fun _ => .ite (fun hk => ?_) fun _ => ?_
  · exact .bind (.advance hp (ne_quote hk (by decide))) fun _ => .pure _
  · refine .bind (.advance hp (ne_quote hk (by decide))) fun _ => ?_
    exact .bind (.numberOf _) fun _ => .pure _
  refine .ite (fun hk => ?_) fun _ => .ite (fun hk => ?_) fun _ => ?_
  · obtain ⟨rest, ha⟩ := hp.stands.exists_ahead hk (by decide)
    refine .text hp ha hk (advance_eq ha) fun q hq => ?_
    refine (words_closes hb fuel).kept (fun texts r hr hn => ?_) hq
    obtain ⟨after, hc⟩ := hr.exists_ahead hn (by decide)
    exact ⟨_, Walk.bind_done (consume_eq hc hn)⟩
  · refine .bind (.advance hp (ne_quote hk (by decide))) fun _ => .bind hu fun _ => ?_
    exact .bind (.consume (by decide) (by decide)) fun _ => .pure _
  · exact Keeps.unexpected (by decide) p hp

theorem members_keeps (object : ExprNode) :
    Keeps I (members I.emitted expression fuel object) := by
  induction fuel generalizing object with
  | zero => exact .exhausted
  | succ fuel ih =>
      intro p hp
      refine .bind_still (checkEither_eq _ _ hp.ahead) ?_
      refine .ite (fun hk => ?_) fun _ => Keeps.pure object p hp
      have hn : (I.next (I.tokens.drop p.current)).kind ≠ .quote := by
        rintro hq
        rw [hq] at hk
        cases hk
      refine .bind (.advance hp hn) fun operator => .ite ?_ ?_
      · refine .bind (primary_keeps hb hu) fun key => ?_
        cases key with
        | identifier key => exact ih _
        | _ => exact .fatal (by decide)
      · exact .bind hu fun key => .bind (.consume (by decide) (by decide)) fun _ => ih _

theorem member_keeps : Keeps I (member I.emitted expression fuel) :=
  .bind (primary_keeps hb hu) fun object => members_keeps hb hu object

omit hb in
theorem someArguments_keeps : Keeps I (someArguments I.emitted expression fuel) := by
  induction fuel with
  | zero => exact .exhausted
  | succ fuel ih =>
      refine .bind hu fun e => .bind (.accept (by decide) (by decide)) fun _ => ?_
      exact .ite (.bind ih fun _ => .pure _) (.pure _)

omit hb in
theorem arguments_keeps : Keeps I (arguments I.emitted expression fuel) := by
  refine .bind (.consume (by decide) (by decide)) fun _ => .bind ?_ fun _ => ?_
  · exact .bind (.check _) fun _ => .ite (.pure _) (someArguments_keeps hu)
  · exact .bind (.consume (by decide) (by decide)) fun _ => .pure _

omit hb in
theorem call_keeps (callee : ExprNode) : Keeps I (call I.emitted expression fuel callee) := by
  induction fuel generalizing callee with
  | zero => exact .exhausted
  | succ fuel ih =>
      refine .bind (arguments_keeps hu) fun a => ?_
      exact .bind (.check _) fun _ => .ite (ih _) (.pure _)

theorem callMember_keeps : Keeps I (callMember I.emitted expression fuel) := by
  refine .bind (member_keeps hb hu) fun callee => .bind (.check _) fun _ => ?_
  exact .ite (call_keeps hu callee) (.pure _)

omit hb in
theorem operators_keeps (additive : Bool) (left : ExprNode) :
    Keeps I (operators I.emitted additive expression fuel left) := by
  induction fuel generalizing left with
  | zero => exact .exhausted
  | succ fuel ih =>
      refine .bind (.acceptSign _) fun _ => .ite ?_ (.pure _)
      exact .bind .previous fun operator => .bind hu fun right => ih _

theorem multiplication_keeps : Keeps I (multiplication I.emitted expression fuel) :=
  .bind (callMember_keeps hb hu) fun left => operators_keeps (callMember_keeps hb hu) false left

theorem addition_keeps : Keeps I (addition I.emitted expression fuel) :=
  .bind (multiplication_keeps hb hu) fun left =>
    operators_keeps (multiplication_keeps hb hu) true left

omit hb in
theorem properties_keeps : Keeps I (properties I.emitted expression fuel) := by
  induction fuel with
  | zero => exact .exhausted
  | succ fuel ih =>
      refine .bind .isAtClose fun _ => .ite (.pure _) ?_
      refine .bind (.consume (by decide) (by decide)) fun key => ?_
      refine .bind (.accept (by decide) (by decide)) fun _ => .ite (.bind ih fun _ => .pure _) ?_
      refine .bind (.check _) fun _ => .ite (.bind ih fun _ => .pure _) ?_
      refine .bind (.consume (by decide) (by decide)) fun _ => .bind hu fun value => ?_
      refine .bind (.check _) fun _ => .ite (.bind ih fun _ => .pure _) ?_
      exact .bind (.consume (by decide) (by decide)) fun _ => .bind ih fun _ => .pure _

theorem object_keeps : Keeps I (object I.emitted expression fuel) := by
  intro p hp
  refine .bind_still (check_eq _ hp.ahead) ?_
  refine .ite (fun hk => ?_) fun _ => addition_keeps hb hu p hp
  refine .bind (.advance hp (ne_quote (of_decide_eq_true hk) (by decide))) fun _ => ?_
  refine .bind (properties_keeps hu) fun ps => ?_
  exact .bind (.consume (by decide) (by decide)) fun _ => .pure _

end

end

theorem assignment_keeps (hb : Balanced I.tokens) (fuel : Nat) :
    Keeps I (assignment I.emitted fuel) := by
  induction fuel with
  | zero => exact .exhausted
  | succ fuel ih =>
      refine .bind (object_keeps hb ih) fun target => ?_
      refine .bind (.accept (by decide) (by decide)) fun _ => .ite ?_ (.pure _)
      exact .bind .previous fun equal => .bind ih fun value => .pure _

section
variable {statement : Walk Parser StmtNode} {fuel : Nat}

theorem Keeps.stops (nested : Bool) : Keeps I (stops I.emitted nested) := by
  cases nested with
  | false => exact .isAtEnd
  | true => exact .isAtClose

theorem statements_keeps (nested : Bool) (hv : Keeps I statement) :
    Keeps I (statements I.emitted statement nested fuel) := by
  induction fuel with
  | zero => exact .exhausted
  | succ fuel ih =>
      refine .bind (.stops nested) fun _ => .ite (.pure _) ?_
      exact .bind hv fun first => .bind ih fun others => .pure _

theorem block_keeps (hv : Keeps I statement) : Keeps I (block I.emitted statement fuel) := by
  refine .bind (.consume (by decide) (by decide)) fun _ => .bind (.check _) fun _ => ?_
  refine .ite (.missing (by decide)) (.bind (statements_keeps true hv) fun body => ?_)
  exact .bind (.consume (by decide) (by decide)) fun _ => .pure _

end

section
variable {expression : Walk Parser ExprNode} {fuel : Nat}

theorem typedNumber_keeps : Keeps I (typedNumber I.emitted) := by
  refine .bind (.consume (by decide) (by decide)) fun _ => ?_
  exact .bind (.numberOf _) fun _ => .pure _

theorem condition_keeps (hu : Keeps I expression) : Keeps I (condition I.emitted expression) := by
  refine .bind (.consume (by decide) (by decide)) fun _ => .bind (.check _) fun _ => ?_
  refine .ite (.missing (by decide)) (.bind hu fun e => ?_)
  exact .bind (.consume (by decide) (by decide)) fun _ => .pure _

theorem expressionStatement_keeps (hu : Keeps I expression) :
    Keeps I (expressionStatement I.emitted expression) := by
  refine .bind hu fun e => .bind (.accept (by decide) (by decide)) fun _ => ?_
  exact .ite (.pure _) (.pure _)

variable (hb : Balanced I.tokens)
include hb

theorem typedText_keeps : Keeps I (typedText I.emitted fuel) := by
  intro p hp
  by_cases ht : (I.next (I.tokens.drop p.current)).kind = .quote
  · obtain ⟨rest, ha⟩ := hp.stands.exists_ahead ht (by decide)
    refine .text hp ha ht (consume_eq ha ht) fun q hq => ?_
    refine (typedWords_closes hb fuel).kept (fun text r hr hn => ?_) hq
    obtain ⟨after, hc⟩ := hr.exists_ahead hn (by decide)
    exact ⟨_, Walk.bind_done (advance_eq hc)⟩
  · obtain ⟨e, hx, he⟩ := consume_other hp.stands ht
    exact .bind_aborted hx rfl (by rw [he]; decide) hp.is_begun

theorem Stands.ne_quote_of_lexeme (hp : Stands I quoted k) {text : Text}
    (ht : (I.next (I.tokens.drop k)).lexeme = text) (hn : text ≠ Text.utf8 "\"") :
    (I.next (I.tokens.drop k)).kind ≠ .quote := by
  intro hq
  obtain ⟨rest, ha⟩ := hp.exists_ahead hq (by decide)
  exact hn (ht.symm.trans (hb.lexeme _ (List.mem_of_getElem? ha.get) hq))

theorem typedBoolean_keeps : Keeps I (typedBoolean I.emitted) := by
  intro p hp
  rw [typedBoolean]
  refine .bind_still (peek_eq hp.ahead) ?_
  refine .ite (fun ht => ?_) fun _ => .ite (fun hf => ?_) fun _ => ?_
  · exact .bind (.advance hp (hp.stands.ne_quote_of_lexeme hb ht (by decide))) fun _ => .pure _
  · exact .bind (.advance hp (hp.stands.ne_quote_of_lexeme hb hf (by decide))) fun _ => .pure _
  · exact Keeps.unexpected (by decide) p hp

/-- Inside quotes there is neither a semicolon nor an equals sign. -/
theorem declaredValue_inside (hp : Stands I true p.current) (constant : Bool) (line : Nat)
    (name : Token) (type : Option Text) :
    ∃ e, declaredValue I.emitted expression fuel constant line name type p =
        .aborted { p with errors := p.errors ++ [e] } ∧ e.cause = .expectedEquals := by
  obtain ⟨t, rest, ha, ht⟩ := hp.exists_inside hb
  have other {kind : Token.Kind} (hq : kind ≠ .quote) (hw : kind ≠ .word) :
      (I.next (I.tokens.drop p.current)).kind ≠ kind := by
    rw [ha.2]
    rintro rfl
    exact ht.elim hq hw
  have hs := accept_other hp (@other .semicolon (by decide) (by decide))
  obtain ⟨e, hx, he⟩ : ∃ e, consume I.emitted .equal .expectedEquals p = _ ∧ _ :=
    consume_other hp (@other .equal (by decide) (by decide))
  refine ⟨e, ?_, he⟩
  rw [declaredValue, Walk.bind_done hs]
  exact Walk.bind_aborted hx

section
variable (hu : Keeps I expression)
include hu

theorem declaredValue_keeps (constant : Bool) (line : Nat) (name : Token) (type : Option Text) :
    Keeps I (declaredValue I.emitted expression fuel constant line name type) := by
  refine .bind (.accept (by decide) (by decide)) fun _ => .ite ?_ ?_
  · exact .ite (.fatal (by decide)) (.pure _)
  refine .bind (.consume (by decide) (by decide)) fun _ => .bind ?_ fun value => ?_
  · exact .ite (typedText_keeps hb) <| .ite typedNumber_keeps <| .ite (typedBoolean_keeps hb) hu
  · exact .bind (.consume (by decide) (by decide)) fun _ => .pure _

/-- Any token can be taken for a type. If it is a quote, the parsing ends after it. -/
theorem annotated_keeps (constant : Bool) (line : Nat) (name : Token) :
    Keeps I (advance I.emitted >>= fun type =>
      declaredValue I.emitted expression fuel constant line name (some type.token.lexeme)) := by
  intro p hp
  by_cases ht : (I.next (I.tokens.drop p.current)).kind = .quote
  · obtain ⟨rest, ha⟩ := hp.stands.exists_ahead ht (by decide)
    have hn := hp.stands.next ha.get
    rw [ht] at hn
    obtain ⟨e, hd, he⟩ := @declaredValue_inside I { p with current := p.current + 1 } expression
      fuel hb hn constant line name (some (I.next (I.tokens.drop p.current)).lexeme)
    rw [Walk.bind_done (advance_eq ha), Emitted.token_of, hd]
    exact .aborted rfl (by rw [he]; decide) hp.is_begun
  · refine .bind (.advance hp ht) fun type => ?_
    exact declaredValue_keeps hb hu constant line name (some type.token.lexeme)

theorem varDeclaration_kept (hp : Outside I p)
    (hn : (I.next (I.tokens.drop p.current)).kind ≠ .quote) :
    Kept I p.errors (varDeclaration I.emitted expression fuel p) := by
  refine .bind (.advance hp hn) fun keyword => ?_
  refine .bind (.consume (by decide) (by decide)) fun name => ?_
  refine .bind (.accept (by decide) (by decide)) fun _ => .ite ?_ ?_
  · exact annotated_keeps hb hu _ _ _
  · exact declaredValue_keeps hb hu _ _ _ _

end

end

section
variable {expression : Walk Parser ExprNode} {statement : Walk Parser StmtNode}
  {fuel : Nat} (hu : Keeps I expression) (hv : Keeps I statement)
include hu hv

theorem funcDeclaration_kept (hp : Outside I p)
    (hn : (I.next (I.tokens.drop p.current)).kind ≠ .quote) :
    Kept I p.errors (funcDeclaration I.emitted expression statement fuel p) := by
  refine .bind (.advance hp hn) fun _ => ?_
  refine .bind (.consume (by decide) (by decide)) fun name => ?_
  refine .bind (arguments_keeps hu) fun a => ?_
  dsimp only
  cases parameters? a.2 with
  | none => exact .fatal (by decide)
  | some parameters =>
      refine .bind (.consume (by decide) (by decide)) fun _ => ?_
      refine .bind (statements_keeps true hv) fun body => ?_
      exact .bind (.consume (by decide) (by decide)) fun _ => .pure _

theorem clause_keeps : Keeps I (clause I.emitted expression statement fuel) :=
  .bind (condition_keeps hu) fun _ => .bind (block_keeps hv) fun _ => .pure _

theorem clauses_keeps : Keeps I (clauses I.emitted expression statement fuel) := by
  induction fuel with
  | zero => exact .exhausted
  | succ fuel ih =>
      refine .bind (.accept (by decide) (by decide)) fun _ => .ite ?_ (.pure _)
      exact .bind (clause_keeps hu hv) fun first => .bind ih fun others => .pure _

theorem ifStatement_kept (hp : Outside I p)
    (hn : (I.next (I.tokens.drop p.current)).kind ≠ .quote) :
    Kept I p.errors (ifStatement I.emitted expression statement fuel p) := by
  refine .bind (.advance hp hn) fun keyword => ?_
  refine .bind (clause_keeps hu hv) fun first => ?_
  obtain ⟨test, body⟩ := first
  refine .bind (clauses_keeps hu hv) fun others => ?_
  refine .bind (.accept (by decide) (by decide)) fun _ => .ite ?_ (.pure _)
  exact .bind (block_keeps hv) fun otherwise => .pure _

end

theorem statement_keeps (hb : Balanced I.tokens) (fuel : Nat) :
    Keeps I (statement I.emitted fuel) := by
  induction fuel with
  | zero => exact .exhausted
  | succ fuel ih =>
      have hu := assignment_keeps hb (fuel + 1)
      intro p hp
      refine .bind_still (peek_eq hp.ahead) ?_
      refine .ite (fun hk => ?_) fun _ => .ite (fun hk => ?_) fun _ => ?_
      · exact varDeclaration_kept hb hu hp (ne_quote hk (by decide))
      · exact varDeclaration_kept hb hu hp (ne_quote hk (by decide))
      refine .ite (fun hk => ?_) fun _ => .ite (fun hk => ?_) fun _ => ?_
      · exact funcDeclaration_kept hu ih hp (ne_quote hk (by decide))
      · exact ifStatement_kept hu ih hp (ne_quote hk (by decide))
      · exact expressionStatement_keeps hu p hp

theorem parse_keeps (hb : Balanced I.tokens) (fuel : Nat) :
    Keeps I (parse I.emitted fuel) :=
  statements_keeps false (statement_keeps hb fuel)

/-- Statements that are not nested go on to the end. -/
theorem statements_ends {statement : Walk Parser StmtNode}
    (hv : Keeps I statement) {fuel : Nat} {q : Parser} {ss : List StmtNode} (hp : Outside I p)
    (h : statements I.emitted statement false fuel p = .done ss q) :
    q.current = I.tokens.length := by
  induction fuel generalizing p ss with
  | zero => cases h
  | succ fuel ih =>
      have hc : stops I.emitted false p = .done _ p := check_eq _ hp.ahead
      rw [statements, Walk.bind_done hc, next_end hp.ahead] at h
      cases hd : I.tokens.drop p.current with
      | nil =>
          rw [hd] at h
          cases h
          have ha : Ahead I.tokens q.current [] := ⟨hp.stands.le, hd⟩
          exact ha.length_eq
      | cons t rest =>
          rw [hd] at h
          obtain ⟨first, r, hf, h⟩ := Walk.bind_eq_done h
          obtain ⟨others, r', ho, h⟩ := Walk.bind_eq_done h
          cases h
          have hk := hv p hp
          rw [hf] at hk
          cases hk with
          | done hr _ => exact ih hr ho

section
variable (hb : Balanced I.tokens) {fuel : Nat}
include hb

theorem parse_kept : Kept I [] (parse I.emitted fuel {}) :=
  parse_keeps hb fuel {} ⟨⟨Nat.zero_le _, rfl⟩, rfl⟩

theorem begun_initial :
    (parse I.emitted fuel {}).state.begun <+: openings I.tokens I.tokens.length := by
  have hk := @parse_kept I hb fuel
  have initial {begun : List Nat} (h : Begun I begun) :
      begun <+: openings I.tokens I.tokens.length := by
    obtain ⟨k, hk, rfl⟩ := h
    exact Scan.openings_mono hk
  generalize parse I.emitted fuel {} = w at hk
  cases hk with
  | done hp _ => exact initial hp.is_begun
  | aborted _ _ hb => exact initial hb
  | astray hb => exact initial hb
  | exhausted hb => exact initial hb

theorem begun_of_done {program : List StmtNode}
    (h : parse I.emitted fuel {} = .done program p) :
    p.begun = openings I.tokens I.tokens.length := by
  have hk := @parse_kept I hb fuel
  have he := statements_ends (statement_keeps hb fuel) ⟨⟨Nat.zero_le _, rfl⟩, rfl⟩ h
  rw [h] at hk
  cases hk with
  | done hp _ => rw [hp.begun, he]

theorem cause_of_aborted (h : parse I.emitted fuel {} = .aborted p) :
    ∀ e ∈ p.errors, e.cause ≠ .unclosedQuote := by
  have hk := @parse_kept I hb fuel
  rw [h] at hk
  cases hk with
  | aborted he hc _ =>
      rw [he]
      exact fun e hm => List.mem_singleton.mp hm ▸ hc

theorem cause_of_ofTokens {e : ParseError} (h : Program.ofTokens I.endLine I.tokens = .error e) :
    e.cause ≠ .unclosedQuote := by
  obtain ⟨program, p, -, -, -, hp⟩ | ⟨p, other, ha, -, he, hp⟩ := parse_ends I (Nat.lt_succ_self _)
  · rw [hp] at h
    cases h
  · rw [hp] at h
    cases h
    exact cause_of_aborted hb ha e (he ▸ List.mem_singleton_self e)

end

/-- Quotes reach the parser balanced. If a source has no lexical error then its quotes are even in
number, and its words are the tokens after an odd number of them. However its tokens are parsed,
texts are begun at the first, the third and so on of the quotes, all of them if the parsing comes to
its end, and no error is about a text that is not closed. Such an error of a source means that a
quote is left open in it. -/
theorem quotes_balanced (source : Text) :
    let scan := Scan.ofSource source
    let quotes (ts : List Token) : Nat := ts.countP fun t => t.kind = .quote
    (scan.errors = [] →
      quotes scan.tokens % 2 = 0 ∧
      (∀ before t after, scan.tokens = before ++ t :: after → t.kind ≠ .quote →
        (t.kind = .word ↔ quotes before % 2 = 1)) ∧
      (∀ fuel,
        let tokens := (Input.ofSource source).emitted
        let begun := (parse tokens fuel {}).state.begun
        begun <+: openings scan.tokens scan.tokens.length ∧
        (∀ program p, parse tokens fuel {} = .done program p →
          begun = openings scan.tokens scan.tokens.length) ∧
        ∀ p, parse tokens fuel {} = .aborted p → ∀ e ∈ p.errors, e.cause ≠ .unclosedQuote) ∧
      ∀ e, Program.ofTokens scan.endLine scan.tokens = .error e → e.cause ≠ .unclosedQuote) ∧
    ∀ e, Program.ofSource source = .error e → e.cause = .unclosedQuote →
      scan.errors = [e] ∧ quotes scan.tokens % 2 = 1 := by
  intro scan quotes
  have balanced (he : scan.errors = []) : Balanced (Input.ofSource source).tokens :=
    Scan.balanced_ofSource he
  refine ⟨fun he => ?_, fun e h hc => ?_⟩
  · have hb := balanced he
    refine ⟨?_, fun before t after ht hk => ?_, fun fuel => ?_, fun e h => cause_of_ofTokens hb h⟩
    · have hn := mt (Scan.leavesOpen_iff scan.tokens).mpr (Bool.eq_false_iff.mp hb.closed)
      exact Nat.mod_two_ne_one.mp hn
    · have hg : scan.tokens[before.length]? = some t := by
        rw [ht, List.getElem?_append_right (Nat.le_refl _), Nat.sub_self]
        rfl
      have hw : t.kind = .word ↔ quotedAt scan.tokens before.length = true := hb.word_iff hg hk
      rw [hw, quotedAt, ht, List.take_left, Scan.leavesOpen_iff]
    · refine ⟨begun_initial hb, fun _ _ hd => ?_, fun _ ha => cause_of_aborted hb ha⟩
      rw [hd]
      exact begun_of_done hb hd
  · cases he : scan.errors with
    | nil =>
        have hp : Program.ofSource source = Program.ofTokens scan.endLine scan.tokens := by
          rw [Program.ofSource, Program.ofScan, he]
        exact absurd hc (cause_of_ofTokens (balanced he) (hp.symm.trans h))
    | cons first more =>
        have hp : Program.ofSource source = .error first := by
          rw [Program.ofSource, Program.ofScan, he]
        rw [hp] at h
        cases h
        obtain ⟨rfl, ho⟩ := Scan.errors_of_unclosed he hc
        exact ⟨rfl, (Scan.leavesOpen_iff _).mp ho⟩

/-- The second text is taken for a type and ends the parsing; in another source, the third quote is
left open. -/
theorem quotes_balanced_annotation :
    let source := Text.utf8 "let s: string = \"a b\"; let t: \"c\" = 1;"
    let unclosed := Text.utf8 "print(\"a b\", \"c)"
    let begun := (parse (Input.ofSource source).emitted 40 {}).state.begun
    let tokens := (Scan.ofSource source).tokens
    (Scan.ofSource source).errors = [] ∧
      begun = [5] ∧ openings tokens tokens.length = [5, 13] ∧
      begun <+: openings tokens tokens.length ∧
      Program.ofSource unclosed = .error ⟨1, .unclosedQuote, .nothing⟩ ∧
      (Scan.ofSource unclosed).tokens.countP (fun t => t.kind = .quote) % 2 = 1 := by
  intro source unclosed begun tokens
  have he : (Scan.ofSource source).errors = [] := by decide +kernel
  have hu : (Scan.ofSource unclosed).errors = [⟨1, .unclosedQuote, .nothing⟩] := by decide +kernel
  have hp : Program.ofSource unclosed = .error ⟨1, .unclosedQuote, .nothing⟩ := by
    rw [Program.ofSource, Program.ofScan, hu]
  refine ⟨he, by decide +kernel, by decide +kernel, ?_, hp, ?_⟩
  · exact (((quotes_balanced source).1 he).2.2.1 40).1
  · exact ((quotes_balanced unclosed).2 _ hp rfl).2

end Scripting.Parser
