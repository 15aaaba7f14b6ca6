import Scripting.Proofs.Grammar.Completeness

/-!
What is read is derived by the grammar from the tokens that were taken. `Derived`
says so of one reading and goes through sequences of readings; the readers call
each other on fewer tokens, so the length of the token list carries the induction.
With completeness, programs are read exactly as the grammar says.
-/

namespace Scripting.Grammar

open Parse (nextIs nameOf operator? isWord)
open Reading

/-- What a reading of `ts` gives stands in `D` to the tokens taken and to the token
that follows them. -/
def Derived {α : Type} (ts : List Token) (x : Except ParseError (α × List Token))
    (D : Option Token → List Token → α → Prop) : Prop :=
  ∀ v rest, x = .ok (v, rest) → ∃ us, ts = us ++ rest ∧ D rest.head? us v

namespace Derived

variable {α β : Type} {ts : List Token}

theorem ok {v : α} {D : Option Token → List Token → α → Prop} (h : D ts.head? [] v) :
    Derived ts (.ok (v, ts)) D := by
  intro w rest hw
  cases hw
  exact ⟨[], rfl, h⟩

theorem error {e : ParseError} {D : Option Token → List Token → α → Prop} :
    Derived ts (.error e) D := by
  intro v rest h
  cases h

theorem mono {x : Except ParseError (α × List Token)} {D E : Option Token → List Token → α → Prop}
    (h : Derived ts x D) (hi : ∀ next us v, D next us v → E next us v) : Derived ts x E := by
  intro v rest hv
  obtain ⟨us, hu, hd⟩ := h v rest hv
  exact ⟨us, hu, hi _ _ _ hd⟩

theorem bind {x : Except ParseError (α × List Token)}
    {f : α × List Token → Except ParseError (β × List Token)}
    {D : Option Token → List Token → α → Prop} {E : Option Token → List Token → β → Prop}
    (hx : Derived ts x D)
    (hf : ∀ v us mid, x = .ok (v, mid) → ts = us ++ mid → D mid.head? us v →
      Derived mid (f (v, mid)) fun next vs w => E next (us ++ vs) w) :
    Derived ts (x >>= f) E := by
  intro w rest hw
  obtain ⟨⟨v, mid⟩, hv, hw⟩ := bind_eq_ok hw
  obtain ⟨us, hu, hd⟩ := hx v mid hv
  obtain ⟨vs, hvs, he⟩ := hf v us mid hv hu hd w rest hw
  exact ⟨us ++ vs, by rw [hu, hvs, List.append_assoc], he⟩

theorem append {us mid : List Token} {x : Except ParseError (α × List Token)}
    {D : Option Token → List Token → α → Prop} (hu : ts = us ++ mid)
    (h : Derived mid x fun next vs v => D next (us ++ vs) v) : Derived ts x D := by
  intro v rest hv
  obtain ⟨vs, hvs, hd⟩ := h v rest hv
  exact ⟨us ++ vs, by rw [hu, hvs, List.append_assoc], hd⟩

theorem cons {t : Token} {rest : List Token} {x : Except ParseError (α × List Token)}
    {D : Option Token → List Token → α → Prop}
    (h : Derived rest x fun next us v => D next (t :: us) v) : Derived (t :: rest) x D :=
  append (show t :: rest = [t] ++ rest from rfl) h

theorem expect {endLine : Nat} {kind : Token.Kind} {cause : ParseError.Cause}
    {f : Token × List Token → Except ParseError (α × List Token)}
    {D : Option Token → List Token → α → Prop}
    (h : ∀ t rest, ts = t :: rest → t.kind = kind →
      Derived rest (f (t, rest)) fun next us v => D next (t :: us) v) :
    Derived ts (Reading.expect endLine kind cause ts >>= f) D := by
  rw [expect_eq]
  cases ts with
  | nil => exact error
  | cons t rest =>
      by_cases hk : t.kind = kind
      · simp only [hk, if_true]
        exact cons (h t rest rfl hk)
      · simp only [hk, if_false]
        exact error

theorem ahead {kind : Token.Kind} {x : Except ParseError (α × List Token)}
    {D : Option Token → List Token → α → Prop} (hn : nextIs kind ts = true)
    (h : ∀ t rest, ts = t :: rest → t.kind = kind →
      Derived rest x fun next us v => D next (t :: us) v) :
    Derived ts x D := by
  cases ts with
  | nil => cases hn
  | cons t rest => exact cons (h t rest rfl (of_decide_eq_true hn))

end Derived

variable (endLine : Nat)

/-- What all readers of expressions do on one list of tokens. A tail is given what
was derived before it. -/
structure ExpressionsSound (ts : List Token) : Prop where
  primary : Derived ts (Reading.primary endLine ts) fun _ us e => Primary us e
  memberTail : ∀ before object, Members before object →
    Derived ts (Reading.memberTail endLine object ts) fun next us e =>
      Members (before ++ us) e ∧ ahead .dot next = false ∧ ahead .leftBracket next = false
  callTail : ∀ before callee, Calls ts.head? before callee →
    Derived ts (Reading.callTail endLine callee ts) fun next us e =>
      Calls next (before ++ us) e ∧ ahead .leftParen next = false
  callMember : Derived ts (Reading.callMember endLine ts) fun next us e =>
    Calls next us e ∧ ahead .leftParen next = false
  argumentList : Derived ts (Reading.argumentList endLine ts) fun _ us (line, arguments) =>
    ∃ opening vs, us = opening :: vs ∧ line = opening.line ∧ Arguments opening vs arguments
  expressions : Derived ts (Reading.expressions endLine ts) Expressions
  productTail : ∀ before left, Product ts.head? before left →
    Derived ts (Reading.productTail endLine left ts) fun next us e =>
      Product next (before ++ us) e ∧ operatorAhead false next = false
  product : Derived ts (Reading.product endLine ts) fun next us e =>
    Product next us e ∧ operatorAhead false next = false
  sumTail : ∀ before left, Sum ts.head? before left →
    Derived ts (Reading.sumTail endLine left ts) fun next us e =>
      Sum next (before ++ us) e ∧ operatorAhead true next = false
  properties : Derived ts (Reading.properties endLine ts) Properties
  assignTail : ∀ before target, Operand ts.head? before target →
    Derived ts (Reading.assignTail endLine target ts) fun next us e =>
      Expression next (before ++ us) e
  expression : Derived ts (Reading.expression endLine ts) Expression

section

variable {ts : List Token}
    (ih : ∀ us : List Token, us.length < ts.length → ExpressionsSound endLine us)
include ih

theorem primary_sound : Derived ts (primary endLine ts) fun _ us e => Primary us e := by
  rw [primary_eq]
  cases ts with
  | nil => exact .error
  | cons t rest =>
      dsimp only
      split
      · next h => exact .cons (.ok (.name h))
      split
      · next h => exact .cons (.ok (.number h))
      split
      · next h =>
          have hw : ∀ w ∈ rest.takeWhile isWord, w.kind = .word := fun w hm =>
            of_decide_eq_true (List.all_eq_true.mp List.all_takeWhile w hm)
          refine .cons (.append (List.takeWhile_append_dropWhile ..).symm (.expect ?_))
          intro closing after _ hc
          exact .ok (.text h hw hc)
      split
      · next h =>
          refine .cons ((ih rest (by simp)).expression.bind fun e us mid _ _ he => .expect ?_)
          rintro closing last rfl hc
          exact .ok (.group h he hc)
      · exact .error

theorem memberTail_sound (before : List Token) (object : Expr) (hm : Members before object) :
    Derived ts (memberTail endLine object ts) fun next us e =>
      Members (before ++ us) e ∧ ahead .dot next = false ∧ ahead .leftBracket next = false := by
  rw [memberTail_eq]
  cases ts with
  | nil => exact .ok ⟨by rwa [List.append_nil], rfl, rfl⟩
  | cons t rest =>
      dsimp only
      split
      · next h =>
          refine .cons ((ih rest (by simp)).primary.bind fun key us mid hk hu hp => ?_)
          cases key with
          | name key =>
              have hl : mid.length < (t :: rest).length := by
                simp only [hu, List.length_cons, List.length_append]
                omega
              refine ((ih mid hl).memberTail _ _ (.dot hm h hp)).mono ?_
              intro next vs e he
              simpa using he
          | _ => exact .error
      split
      · next h =>
          refine .cons ((ih rest (by simp)).expression.bind fun key us mid _ hu hk => .expect ?_)
          rintro closing last rfl hc
          have hl : last.length < (t :: rest).length := by
            simp only [hu, List.length_cons, List.length_append]
            omega
          refine ((ih last hl).memberTail _ _ (.index hm h hk hc)).mono ?_
          intro next vs e he
          simpa using he
      · next hd hb => exact .ok ⟨by rwa [List.append_nil], by simp [ahead, hd], by simp [ahead, hb]⟩

theorem argumentList_sound :
    Derived ts (argumentList endLine ts) fun _ us (line, arguments) =>
      ∃ opening vs, us = opening :: vs ∧ line = opening.line ∧ Arguments opening vs arguments := by
  rw [argumentList_eq]
  refine .expect ?_
  rintro opening rest rfl ho
  dsimp only
  split
  · refine .expect ?_
    rintro closing last rfl hc
    exact .ok ⟨opening, _, rfl, rfl, .none ho hc⟩
  · refine (ih rest (by simp)).expressions.bind fun es us mid _ _ hs => .expect ?_
    rintro closing last rfl hc
    exact .ok ⟨opening, _, rfl, rfl, .some ho hs hc⟩

theorem callTail_sound (before : List Token) (callee : Expr) (hc : Calls ts.head? before callee) :
    Derived ts (callTail endLine callee ts) fun next us e =>
      Calls next (before ++ us) e ∧ ahead .leftParen next = false := by
  rw [callTail_eq]
  split
  · refine (argumentList_sound endLine ih).bind fun ⟨line, arguments⟩ us mid _ hu ha => ?_
    obtain ⟨opening, vs, rfl, rfl, ha⟩ := ha
    rw [hu] at hc
    have hl : mid.length < ts.length := by
      simp only [hu, List.length_cons, List.length_append]
      omega
    refine ((ih mid hl).callTail _ _ (.call hc ha)).mono ?_
    intro next ws e he
    simpa using he
  · next h =>
      rw [nextIs_eq_ahead] at h
      exact .ok ⟨by rwa [List.append_nil], by simpa using h⟩

theorem callMember_sound : Derived ts (callMember endLine ts) fun next us e =>
    Calls next us e ∧ ahead .leftParen next = false := by
  rw [callMember_eq, member_eq, bind_assoc]
  refine (primary_sound endLine ih).bind fun object us mid hp hu h => ?_
  have hl : mid.length < ts.length := plain_shorter hp
  refine ((ih mid hl).memberTail us object (.primary h)).bind fun callee vs last _ hv hc => ?_
  obtain ⟨hm, hd, hb⟩ := hc
  have hl' : last.length < ts.length := by
    rw [hv, List.length_append] at hl
    omega
  refine ((ih last hl').callTail _ _ (.member hm hd hb)).mono ?_
  intro next ws e he
  simpa using he

theorem productTail_sound (before : List Token) (left : Expr)
    (hp : Product ts.head? before left) :
    Derived ts (productTail endLine left ts) fun next us e =>
      Product next (before ++ us) e ∧ operatorAhead false next = false := by
  rw [productTail_eq]
  cases ts with
  | nil => exact .ok ⟨by rwa [List.append_nil], rfl⟩
  | cons t rest =>
      dsimp only
      split
      · next op ho =>
          refine .cons ((ih rest (by simp)).callMember.bind fun right us mid _ hu hr => ?_)
          obtain ⟨hr, hn⟩ := hr
          have hl : mid.length < (t :: rest).length := by
            simp only [hu, List.length_cons, List.length_append]
            omega
          have ht := operator?_eq_some_iff.mp ho
          refine ((ih mid hl).productTail _ _ (.more hp ht hr hn)).mono ?_
          intro next vs e he
          simpa using he
      · next ho => exact .ok ⟨by rwa [List.append_nil], by simp [operatorAhead_some, ho]⟩

theorem product_sound : Derived ts (product endLine ts) fun next us e =>
    Product next us e ∧ operatorAhead false next = false := by
  rw [product_eq]
  refine (callMember_sound endLine ih).bind fun left us mid hm hu h => ?_
  exact (ih mid (plain_shorter hm)).productTail us left (.factor h.1 h.2)

theorem sumTail_sound (before : List Token) (left : Expr) (hs : Sum ts.head? before left) :
    Derived ts (sumTail endLine left ts) fun next us e =>
      Sum next (before ++ us) e ∧ operatorAhead true next = false := by
  rw [sumTail_eq]
  cases ts with
  | nil => exact .ok ⟨by rwa [List.append_nil], rfl⟩
  | cons t rest =>
      dsimp only
      split
      · next op ho =>
          refine .cons ((ih rest (by simp)).product.bind fun right us mid _ hu hr => ?_)
          obtain ⟨hr, hn⟩ := hr
          have hl : mid.length < (t :: rest).length := by
            simp only [hu, List.length_cons, List.length_append]
            omega
          have ht := operator?_eq_some_iff.mp ho
          refine ((ih mid hl).sumTail _ _ (.more hs ht hr hn)).mono ?_
          intro next vs e he
          simpa using he
      · next ho => exact .ok ⟨by rwa [List.append_nil], by simp [operatorAhead_some, ho]⟩

theorem sum_sound : Derived ts (sum endLine ts) fun next us e =>
    Sum next us e ∧ operatorAhead true next = false := by
  rw [sum_eq]
  refine (product_sound endLine ih).bind fun left us mid hm hu h => ?_
  exact (ih mid (plain_shorter hm)).sumTail us left (.term h.1 h.2)

theorem operand_sound : Derived ts (operand endLine ts) Operand := by
  have hs : Derived ts (sum endLine ts) Operand :=
    (sum_sound endLine ih).mono fun next us e h => .sum h.1 h.2
  rw [operand_eq]
  cases ts with
  | nil => exact hs
  | cons t rest =>
      dsimp only
      split
      · next ho =>
          refine .cons ((ih rest (by simp)).properties.bind fun fields us mid _ _ hp => .expect ?_)
          rintro closing last rfl hc
          exact .ok (.object ho hp hc)
      · exact hs

theorem properties_sound : Derived ts (properties endLine ts) Properties := by
  rw [properties_eq]
  split
  · exact .ok .nil
  refine .expect ?_
  rintro key rest rfl hk
  dsimp only
  split
  · next hn =>
      refine .ahead hn ?_
      rintro comma after rfl hc
      refine (ih after (by simp only [List.length_cons]; omega)).properties.bind
        fun others us last _ _ hp => .ok ?_
      rw [List.append_nil]
      exact .shorthandComma hk hc hp
  split
  · exact .ok (.shorthand hk)
  refine .expect ?_
  rintro colon after rfl hl
  refine (ih after (by simp only [List.length_cons]; omega)).expression.bind
    fun value us mid _ hu hv => ?_
  dsimp only
  split
  · exact .ok (by rw [List.append_nil]; exact .pair hk hl hv)
  refine .expect ?_
  rintro comma last rfl hc
  have hlt : last.length < (key :: colon :: after).length := by
    simp only [hu, List.length_cons, List.length_append]
    omega
  refine (ih last hlt).properties.bind fun others vs end_ _ _ hp => .ok ?_
  rw [List.append_nil]
  exact .pairComma hk hl hv hc hp

theorem assignTail_sound (before : List Token) (target : Expr)
    (ho : Operand ts.head? before target) :
    Derived ts (assignTail endLine target ts) fun next us e =>
      Expression next (before ++ us) e := by
  rw [assignTail_eq]
  cases ts with
  | nil => exact .ok (by rw [List.append_nil]; exact .operand ho rfl)
  | cons t rest =>
      dsimp only
      split
      · next ht =>
          refine .cons ((ih rest (by simp)).expression.bind fun value us mid _ _ hv => .ok ?_)
          rw [List.append_nil]
          exact .assign ho ht hv
      · next ht =>
          exact .ok (by rw [List.append_nil]; exact .operand ho (by simp [ahead, ht]))

theorem expression_sound : Derived ts (expression endLine ts) Expression := by
  rw [expression_eq]
  refine (operand_sound endLine ih).bind fun target us mid hm hu h => ?_
  exact (ih mid (plain_shorter hm)).assignTail us target h

theorem expressions_sound : Derived ts (expressions endLine ts) Expressions := by
  rw [expressions_eq]
  refine (expression_sound endLine ih).bind fun e us mid _ hu he => ?_
  dsimp only
  split
  · next hn =>
      refine .ahead hn ?_
      rintro comma rest rfl hc
      have hl : rest.length < ts.length := by
        simp only [hu, List.length_cons, List.length_append]
        omega
      refine (ih rest hl).expressions.bind fun es vs last _ _ hs => .ok ?_
      rw [List.append_nil]
      exact .more he hc hs
  · next hn =>
      rw [nextIs_eq_ahead] at hn
      exact .ok (by rw [List.append_nil]; exact .one he (by simpa using hn))

end

theorem expressionsSound (ts : List Token) : ExpressionsSound endLine ts := by
  induction h : ts.length using Nat.strongRecOn generalizing ts with
  | ind n ih =>
      have ih : ∀ us : List Token, us.length < ts.length → ExpressionsSound endLine us :=
        fun us hu => ih us.length (h ▸ hu) us rfl
      exact {
        primary := primary_sound endLine ih
        memberTail := memberTail_sound endLine ih
        callTail := callTail_sound endLine ih
        callMember := callMember_sound endLine ih
        argumentList := argumentList_sound endLine ih
        expressions := expressions_sound endLine ih
        productTail := productTail_sound endLine ih
        product := product_sound endLine ih
        sumTail := sumTail_sound endLine ih
        properties := properties_sound endLine ih
        assignTail := assignTail_sound endLine ih
        expression := expression_sound endLine ih }

/-! ## Statements -/

theorem declaredType_sound (ts : List Token) :
    Derived ts (declaredType endLine ts) fun _ us type => Annotation us type := by
  rw [declaredType_eq]
  cases ts with
  | nil => exact .ok .none
  | cons t rest =>
      dsimp only
      split
      · next hc =>
          cases rest with
          | nil => exact .error
          | cons type rest => exact .cons (.cons (.ok (.some hc)))
      · exact .ok .none

theorem typedText_sound {type : Option Text} (hy : type = some (Text.utf8 "string"))
    (ts : List Token) : Derived ts (typedText endLine ts) (Initializer type) := by
  rw [typedText_eq]
  refine .expect ?_
  rintro opening rest rfl ho
  dsimp only
  split
  · exact .error
  · next hne =>
      refine .append (List.takeWhile_append_dropWhile (p := fun t => t.kind != .quote)).symm ?_
      cases hd : rest.dropWhile fun t => t.kind != .quote with
      | nil => simp [hd] at hne
      | cons closing after =>
          have hw : ∀ w ∈ rest.takeWhile fun t => t.kind != .quote, w.kind ≠ .quote := fun w hm =>
            bne_iff_ne.mp (List.all_eq_true.mp List.all_takeWhile w hm)
          have hc : closing.kind = .quote := by
            have h := List.head?_dropWhile_not (fun t : Token => t.kind != .quote) rest
            simpa [hd] using h
          exact .cons (.ok (.text hy ho hw hc))

theorem initializer_sound (type : Option Text) (ts : List Token) :
    Derived ts (initializer endLine type ts) (Initializer type) := by
  rw [initializer_eq]
  split
  · next hy => exact typedText_sound endLine hy ts
  split
  · next hy =>
      rw [typedNumber_eq]
      refine .expect ?_
      rintro t rest rfl ht
      exact .ok (.number hy ht)
  split
  · next hy =>
      rw [typedBoolean_eq]
      cases ts with
      | nil => exact .error
      | cons t rest =>
          dsimp only
          split
          · next ht => exact .cons (.ok (.bool hy (by rw [ht]; rfl)))
          split
          · next ht => exact .cons (.ok (.bool hy (by rw [ht]; rfl)))
          · exact .error
  · next hs hi hb =>
      exact (expressionsSound endLine ts).expression.mono
        fun next us e he => .expression hs hi hb he

theorem declaration_sound {keyword : Token} {constant : Bool}
    (hk : keyword.kind = if constant then .constKeyword else .letKeyword) (ts : List Token) :
    Derived ts (declaration endLine constant keyword.line ts) fun next us s =>
      Statement next (keyword :: us) s := by
  rw [declaration_eq]
  refine .expect ?_
  rintro name rest rfl hn
  refine (declaredType_sound endLine rest).bind fun type us mid _ _ ha => ?_
  dsimp only
  split
  · next hs =>
      cases constant with
      | true => exact .error
      | false =>
          refine .ahead hs ?_
          rintro semicolon after rfl hs
          exact .ok (.declare hk hn ha hs)
  · refine .expect ?_
    rintro equal after rfl he
    refine (initializer_sound endLine type after).bind fun value vs last _ _ hv => .expect ?_
    rintro semicolon end_ rfl hs
    have h : Statement end_.head? _ _ := .define hk hn ha he hv hs
    exact .ok (by simpa [nameOf] using h)

theorem expressionStatement_sound (ts : List Token) :
    Derived ts (expressionStatement endLine ts) Statement := by
  rw [expressionStatement_eq]
  refine (expressionsSound endLine ts).expression.bind fun e us mid _ _ he => ?_
  dsimp only
  split
  · next hs =>
      refine .ahead hs ?_
      rintro semicolon after rfl hs
      exact .ok (.terminated he hs)
  · next hs =>
      rw [nextIs_eq_ahead] at hs
      exact .ok (by rw [List.append_nil]; exact .expression he (by simpa using hs))

theorem eq_map_of_parameters? {arguments : List Expr} {names : List Name}
    (h : Parse.parameters? arguments = some names) : arguments = names.map Expr.name := by
  fun_induction Parse.parameters? arguments generalizing names with
  | case1 =>
      cases h
      rfl
  | case2 name rest ih =>
      obtain ⟨others, ho, rfl⟩ := Option.map_eq_some_iff.mp h
      rw [List.map_cons, ← ih ho]
  | case3 => cases h

theorem condition_sound (ts : List Token) :
    Derived ts (condition endLine ts) fun _ us e => ∃ opening closing vs,
      us = opening :: vs ++ [closing] ∧ opening.kind = .leftParen ∧
      Expression (some closing) vs e ∧ closing.kind = .rightParen := by
  rw [condition_eq]
  refine .expect ?_
  rintro opening rest rfl ho
  dsimp only
  split
  · exact .error
  · refine (expressionsSound endLine rest).expression.bind fun e us mid _ _ he => .expect ?_
    rintro closing last rfl hc
    exact .ok ⟨opening, closing, us, rfl, ho, he, hc⟩

theorem statements_nil {nested : Bool} {ts rest : List Token}
    (h : statements endLine nested ts = .ok ([], rest)) : rest = ts := by
  rw [statements_eq] at h
  split at h
  · cases h
    rfl
  · obtain ⟨⟨s, mid⟩, -, h⟩ := bind_eq_ok h
    obtain ⟨⟨ss, last⟩, -, h⟩ := bind_eq_ok h
    cases h

/-- What the readers of statements do on one list of tokens. -/
structure StatementsSound (ts : List Token) : Prop where
  clauses : Derived ts (Reading.clauses endLine ts) Alternatives
  block : Derived ts (Reading.block endLine ts) fun _ us body => Block us body
  statements : ∀ nested, Derived ts (Reading.statements endLine nested ts) fun next us ss =>
    Statements next us ss ∧ (nested = false → next = none)

section

variable {ts : List Token}
    (ih : ∀ us : List Token, us.length < ts.length → StatementsSound endLine us)
include ih

theorem function_sound {keyword : Token} (hk : keyword.kind = .funcKeyword) :
    Derived ts (function endLine ts) fun next us s => Statement next (keyword :: us) s := by
  rw [function_eq]
  refine .expect ?_
  rintro name rest rfl hn
  refine (expressionsSound endLine rest).argumentList.bind
    fun ⟨line, arguments⟩ us mid hm hu ha => ?_
  obtain ⟨paren, vs, rfl, -, ha⟩ := ha
  dsimp only
  split
  · exact .error
  · next parameters hp =>
      rw [eq_map_of_parameters? hp] at ha
      refine .expect ?_
      rintro opening after rfl ho
      have hl : after.length < (name :: rest).length := by
        simp only [hu, List.length_cons, List.length_append]
        omega
      refine ((ih after hl).statements true).bind fun body ws last _ _ hb => .expect ?_
      rintro closing end_ rfl hc
      have h : Statement end_.head? _ _ := .function hk hn ha ho hb.1 hc
      exact .ok (by simpa [nameOf] using h)

theorem block_sound : Derived ts (block endLine ts) fun _ us body => Block us body := by
  rw [block_eq]
  refine .expect ?_
  rintro opening rest rfl ho
  dsimp only
  split
  · exact .error
  · next hb =>
      refine ((ih rest (by simp)).statements true).bind fun body us mid hm hu hs => .expect ?_
      rintro closing last rfl hc
      cases body with
      | nil =>
          have hm := statements_nil endLine hm
          simp [← hm, nextIs, hc] at hb
      | cons s ss => exact .ok (.mk ho hs.1 hc)

theorem clause_sound : Derived ts (clause endLine ts) fun _ us c => Guarded us c := by
  rw [clause_eq]
  refine (condition_sound endLine ts).bind fun test us mid hm _ ht => ?_
  obtain ⟨opening, closing, vs, rfl, ho, he, hc⟩ := ht
  have hl : mid.length < ts.length := plain_shorter hm
  refine (ih mid hl).block.bind fun body ws last _ _ hb => .ok ?_
  have h := Guarded.mk ho he hc hb
  simpa using h

theorem conditional_sound {keyword : Token} (hk : keyword.kind = .ifKeyword) :
    Derived ts (conditional endLine keyword.line ts) fun next us s =>
      Statement next (keyword :: us) s := by
  rw [conditional_eq]
  refine (clause_sound endLine ih).bind fun first us mid hm hu hf => ?_
  have hl : mid.length < ts.length := plain_shorter hm
  refine (ih mid hl).clauses.bind fun others vs last _ hv hs => ?_
  dsimp only
  split
  · next he =>
      refine .ahead he ?_
      rintro other after rfl he
      have hl' : after.length < ts.length := by
        rw [hv] at hl
        simp at hl
        omega
      refine (ih after hl').block.bind fun body ws end_ _ _ hb => .ok ?_
      have h : Statement end_.head? _ _ := .otherwise hk hf hs he hb
      simpa using h
  · next he =>
      rw [nextIs_eq_ahead] at he
      have h : Statement last.head? _ _ := .conditional hk hf hs (by simpa using he)
      exact .ok (by simpa using h)

theorem clauses_sound : Derived ts (clauses endLine ts) Alternatives := by
  rw [clauses_eq]
  cases ts with
  | nil => exact .ok (.nil rfl)
  | cons t rest =>
      have ih' : ∀ us : List Token, us.length < rest.length → StatementsSound endLine us :=
        fun us hu => ih us (by simp only [List.length_cons]; omega)
      dsimp only
      split
      · next hk =>
          refine .cons ((clause_sound endLine ih').bind fun first us mid hm hu hc => ?_)
          have hl : mid.length < rest.length := plain_shorter hm
          refine (ih' mid hl).clauses.bind fun others vs last _ _ hs => .ok ?_
          rw [List.append_nil]
          exact .cons hk hc hs
      · next hk => exact .ok (.nil (by simp [ahead, hk]))

theorem statement_sound : Derived ts (statement endLine ts) Statement := by
  have he := expressionStatement_sound endLine ts
  rw [statement_eq]
  cases ts with
  | nil => exact he
  | cons t rest =>
      have ih' : ∀ us : List Token, us.length < rest.length → StatementsSound endLine us :=
        fun us hu => ih us (by simp only [List.length_cons]; omega)
      dsimp only
      split
      · next hk => exact .cons (declaration_sound endLine hk rest)
      split
      · next hk => exact .cons (declaration_sound endLine hk rest)
      split
      · next hk => exact .cons (function_sound endLine ih' hk)
      split
      · next hk => exact .cons (conditional_sound endLine ih' hk)
      · exact he

theorem statements_sound (nested : Bool) :
    Derived ts (statements endLine nested ts) fun next us ss =>
      Statements next us ss ∧ (nested = false → next = none) := by
  rw [statements_eq]
  split
  · next hs =>
      refine .ok ⟨.nil, ?_⟩
      rintro rfl
      simpa using hs
  · refine (statement_sound endLine ih).bind fun s us mid hm hu h => ?_
    have hl : mid.length < ts.length := plain_shorter hm
    refine ((ih mid hl).statements nested).bind fun ss vs rest _ hv hs => .ok ?_
    rw [hv, List.head?_append] at h
    rw [List.append_nil]
    exact ⟨.cons h hs.1, hs.2⟩

end

theorem statementsSound (ts : List Token) : StatementsSound endLine ts := by
  induction h : ts.length using Nat.strongRecOn generalizing ts with
  | ind n ih =>
      have ih : ∀ us : List Token, us.length < ts.length → StatementsSound endLine us :=
        fun us hu => ih us.length (h ▸ hu) us rfl
      exact {
        clauses := clauses_sound endLine ih
        block := block_sound endLine ih
        statements := statements_sound endLine ih }

end Scripting.Grammar

namespace Scripting.Program

theorem ofTokens_of_grammar (endLine : Nat) {ts : List Token} {p : Program}
    (h : Grammar.Program ts p) : ofTokens endLine ts = .ok p := by
  have hr := h.read endLine [] rfl false rfl
  rw [List.append_nil] at hr
  rw [ofTokens_eq, hr]
  rfl

theorem grammar_of_ofTokens {endLine : Nat} {ts : List Token} {p : Program}
    (h : ofTokens endLine ts = .ok p) : Grammar.Program ts p := by
  rw [ofTokens_eq] at h
  cases hr : Reading.statements endLine false ts with
  | error e => simp [hr, Except.map] at h
  | ok x =>
      obtain ⟨ss, rest⟩ := x
      simp only [hr, Except.map, Except.ok.injEq] at h
      obtain ⟨us, hu, hs, hn⟩ := (Grammar.statementsSound endLine ts).statements false ss rest hr
      have hrest : rest = [] := List.head?_eq_none_iff.mp (hn rfl)
      rw [hrest, List.append_nil] at hu
      rw [hrest, ← hu, h] at hs
      exact hs

/-- A list of tokens is read as a program exactly when the grammar derives the
program from it, and it derives no second one. -/
theorem ofTokens_iff_grammar (endLine : Nat) (ts : List Token) :
    (∀ p, ofTokens endLine ts = .ok p ↔ Grammar.Program ts p) ∧
      ∀ p q, Grammar.Program ts p → Grammar.Program ts q → p = q := by
  refine ⟨fun p => ⟨grammar_of_ofTokens, ofTokens_of_grammar endLine⟩, ?_⟩
  intro p q hp hq
  have hpq : Except.ok p = Except.ok q :=
    (ofTokens_of_grammar endLine hp).symm.trans (ofTokens_of_grammar endLine hq)
  exact Except.ok.inj hpq

/-- A parenthesis on the next line still opens the arguments of a call. -/
theorem ofTokens_call_across_lines :
    let f : Token := ⟨.identifier, Text.utf8 "f", 1⟩
    let x : Token := ⟨.identifier, Text.utf8 "x", 2⟩
    let tokens := [f, ⟨.leftParen, Text.utf8 "(", 2⟩, x, ⟨.rightParen, Text.utf8 ")", 2⟩]
    ofTokens 2 tokens = .ok [.expr (.call (.name ⟨f.lexeme, 1⟩) 2 [.name ⟨x.lexeme, 2⟩])] ∧
      ¬ Grammar.Program tokens [.expr (.name ⟨f.lexeme, 1⟩), .expr (.name ⟨x.lexeme, 2⟩)] := by
  intro f x tokens
  have hx : Grammar.Expression (some ⟨.rightParen, Text.utf8 ")", 2⟩) [x] (.name ⟨x.lexeme, 2⟩) :=
    .operand (.sum (.term (.factor (.member (.primary (.name rfl)) rfl rfl) rfl) rfl) rfl) rfl
  have hc : Grammar.Calls none tokens (.call (.name ⟨f.lexeme, 1⟩) 2 [.name ⟨x.lexeme, 2⟩]) :=
    .call (.member (.primary (.name rfl)) rfl rfl) (.some rfl (.one hx rfl) rfl)
  have hs : Grammar.Statement (Grammar.first [] none) tokens (.expr _) :=
    .expression (.operand (.sum (.term (.factor hc rfl) rfl) rfl) rfl) rfl
  have hp : Grammar.Program tokens [.expr (.call (.name ⟨f.lexeme, 1⟩) 2 [.name ⟨x.lexeme, 2⟩])] :=
    .cons hs .nil
  refine ⟨((ofTokens_iff_grammar 2 tokens).1 _).mpr hp, fun hq => ?_⟩
  cases (ofTokens_iff_grammar 2 tokens).2 _ _ hp hq

end Scripting.Program
