import Scripting.Proofs.Format.Lexing
import Scripting.Proofs.Grammar
import Scripting.Proofs.Program.Lines
import Scripting.Program.Format

/-!
What is written for a tree is spelled by the grammar as the same tree. An expression
without parentheses can stand as an object of members, as an operand or only where
something closes it, and parentheses are written wherever that is not enough.
-/

namespace Scripting.Format

open Grammar (ahead operatorAhead)

/-- The text has these tokens, all on one line, whatever follows it. -/
def Writes (line : Nat) (text : Text) (ts : List Token) : Prop :=
  ∀ rest us, breaks rest = true → Lexes false line rest us →
    Lexes false line (text ++ rest) (ts ++ us)

theorem breaks_cons {c : UInt8} (hc : Piece.isNameByte c = false) (hp : c ≠ Piece.point)
    (rest : Text) : breaks (c :: rest) = true := by
  cases rest <;> simp [breaks, hc, hp]

/-- Whether a token closes the expression before it. -/
def closes (next : Option Token) : Bool :=
  ahead .rightParen next || ahead .rightBracket next || ahead .rightBrace next ||
    ahead .comma next || ahead .semicolon next

theorem closes_ahead {next : Option Token} (h : closes next = true) (kind : Token.Kind)
    (hk : closes (some ⟨kind, [], 0⟩) = false) : ahead kind next = false := by
  cases next with
  | none => rfl
  | some t =>
      cases ht : ahead kind (some t) with
      | false => rfl
      | true =>
          obtain rfl : t.kind = kind := of_decide_eq_true ht
          rw [← hk, ← h]
          rfl

theorem closes_operator {next : Option Token} (h : closes next = true) (additive : Bool) :
    operatorAhead additive next = false := by
  have ho := closes_ahead h .operator rfl
  cases next with
  | none => rfl
  | some t =>
      have hk : t.kind ≠ .operator := of_decide_eq_false ho
      simp [operatorAhead, hk]

theorem expression_of_calls {next : Option Token} {ts : List Token} {e : Expr}
    (h : Grammar.Calls next ts e) (hc : closes next = true) : Grammar.Expression next ts e :=
  .operand (.sum (.term (.factor h (closes_ahead hc _ rfl)) (closes_operator hc false))
    (closes_operator hc true)) (closes_ahead hc _ rfl)

/-- Where an expression can stand as it is written. -/
def Stands (e : Expr) (ts : List Token) (tree : Expr) : Prop :=
  if e.isLoose then ∀ next, closes next = true → Grammar.Expression next ts tree
  else if e.isOpen then
    ∀ next, ahead .dot next = false → ahead .leftBracket next = false → Grammar.Calls next ts tree
  else Grammar.Members ts tree

/-- The text of an expression is spelled as that expression, its lines apart. -/
def Written (e : Expr) : Prop :=
  ∀ line, ∃ ts, Writes line e.format ts ∧ Stands e ts (e.mapLines fun _ => line)

theorem Stands.calls {e : Expr} {ts : List Token} {tree : Expr} (h : Stands e ts tree)
    (hl : e.isLoose = false) {next : Option Token} (hd : ahead .dot next = false)
    (hb : ahead .leftBracket next = false) : Grammar.Calls next ts tree := by
  rw [Stands, hl, if_neg Bool.false_ne_true] at h
  split at h
  · exact h next hd hb
  · exact .member h hd hb

theorem Stands.expression {e : Expr} {ts : List Token} {tree : Expr} (h : Stands e ts tree)
    {next : Option Token} (hc : closes next = true) : Grammar.Expression next ts tree := by
  cases hl : e.isLoose with
  | true =>
      rw [Stands, hl, if_pos rfl] at h
      exact h next hc
  | false =>
      exact expression_of_calls (h.calls hl (closes_ahead hc _ rfl) (closes_ahead hc _ rfl)) hc

theorem Stands.of_members {e : Expr} {ts : List Token} {tree : Expr} (ho : e.isOpen = false)
    (h : Grammar.Members ts tree) : Stands e ts tree := by
  have hl : e.isLoose = false := by
    cases e <;> first | rfl | cases ho
  rw [Stands, hl, ho]
  exact h

/-! ## Parentheses -/

theorem Written.group {e : Expr} (h : Written e) (line : Nat) :
    ∃ ts, Writes line (Text.parenthesized true e.format) ts ∧
      Grammar.Primary ts (e.mapLines fun _ => line) := by
  obtain ⟨ts, hw, hs⟩ := h line
  refine ⟨⟨.leftParen, Text.utf8 "(", line⟩ :: ts ++ [⟨.rightParen, Text.utf8 ")", line⟩], ?_,
    .group rfl (hs.expression rfl) rfl⟩
  intro rest us hb hl
  simp only [Text.parenthesized, if_true, Text.concat_cons, Text.concat_nil, List.append_assoc,
    List.cons_append, List.nil_append]
  exact .symbol 0x28 rfl (hw _ _ (breaks_cons rfl (by decide) _) (.symbol 0x29 rfl hl))

/-- In parentheses where it has to be, an expression is an operand. -/
theorem Written.operand {e : Expr} (h : Written e) (line : Nat) :
    ∃ ts, Writes line (Text.parenthesized e.isLoose e.format) ts ∧
      ∀ next, ahead .dot next = false → ahead .leftBracket next = false →
        Grammar.Calls next ts (e.mapLines fun _ => line) := by
  cases hl : e.isLoose with
  | true =>
      obtain ⟨ts, hw, hp⟩ := h.group line
      exact ⟨ts, hw, fun next hd hb => .member (.primary hp) hd hb⟩
  | false =>
      obtain ⟨ts, hw, hs⟩ := h line
      exact ⟨ts, hw, fun next hd hb => hs.calls hl hd hb⟩

/-- In parentheses where it has to be, an expression is an object of members. -/
theorem Written.object {e : Expr} (h : Written e) (line : Nat) :
    ∃ ts, Writes line (Text.parenthesized e.isOpen e.format) ts ∧
      Grammar.Members ts (e.mapLines fun _ => line) := by
  cases ho : e.isOpen with
  | true =>
      obtain ⟨ts, hw, hp⟩ := h.group line
      exact ⟨ts, hw, .primary hp⟩
  | false =>
      obtain ⟨ts, hw, hs⟩ := h line
      have hl : e.isLoose = false := by
        cases e <;> first | rfl | cases ho
      rw [Stands, hl, ho] at hs
      exact ⟨ts, hw, hs⟩

/-! ## Expressions -/

theorem written_name {text : Text} (h : Spelled .identifier text) (line : Nat) :
    Written (.name ⟨text, line⟩) := by
  intro line
  refine ⟨[⟨.identifier, text, line⟩], ?_, .of_members rfl (.primary (.name rfl))⟩
  exact fun rest us hb hl => .spelled h hb hl

theorem written_number {x : Number} (hf : x.isFinite = true) (hn : x.isNegative = false) :
    Written (.number x) := by
  intro line
  obtain ⟨hl, hx⟩ := Number.positional_literal hf hn
  have hs : Spelled .number x.positional := .number hl (by rw [hx]; exact hf)
  have hp : Grammar.Primary [⟨.number, x.positional, line⟩] _ := .number rfl
  rw [hx] at hp
  exact ⟨[⟨.number, x.positional, line⟩], fun rest us hb h => .spelled hs hb h,
    .of_members rfl (.primary hp)⟩

theorem map_lexeme_words (ws : List Text) (line : Nat) :
    (ws.map fun w => (⟨.word, w, line⟩ : Token)).map Token.lexeme = ws := by
  rw [List.map_map]
  exact List.map_id ws

theorem written_text {ws : List Text} (hw : ∀ w ∈ ws, IsWord w) :
    Written (.text (Text.join (Text.utf8 " ") ws)) := by
  intro line
  have hk : ∀ t ∈ ws.map fun w => (⟨.word, w, line⟩ : Token), t.kind = .word := by simp
  have hp : Grammar.Primary (⟨.quote, Text.utf8 "\"", line⟩ :: ws.map (⟨.word, ·, line⟩) ++
    [⟨.quote, Text.utf8 "\"", line⟩]) _ := .text rfl hk rfl
  rw [map_lexeme_words] at hp
  refine ⟨_, fun rest us hb hl => ?_, .of_members rfl (.primary hp)⟩
  rw [List.append_assoc]
  exact .text hw hl

theorem Lexes.operator {line : Nat} {rest : Text} {us : List Token} (op : Operator)
    (h : Lexes false line rest us) :
    Lexes false line (op.symbol ++ rest) (⟨.operator, op.symbol, line⟩ :: us) := by
  cases op <;> exact .symbol _ rfl h

/-- Two operands with an operator between them, where something closes them. -/
theorem expression_binary {ts us : List Token} {left right : Expr} (op : Operator) (line : Nat)
    (hl : ∀ next, ahead .dot next = false → ahead .leftBracket next = false →
      Grammar.Calls next ts left)
    (hr : ∀ next, ahead .dot next = false → ahead .leftBracket next = false →
      Grammar.Calls next us right)
    {next : Option Token} (hc : closes next = true) :
    Grammar.Expression next (ts ++ ⟨.operator, op.symbol, line⟩ :: us)
      (.binary left op line right) := by
  have hr := hr next (closes_ahead hc _ rfl) (closes_ahead hc _ rfl)
  have hp := closes_ahead hc .leftParen rfl
  have hm := closes_operator hc false
  refine .operand (.sum ?_ (closes_operator hc true)) (closes_ahead hc _ rfl)
  have hs := Grammar.sign_symbol op line
  cases op with
  | add | sub => exact .more (.term (.factor (hl _ rfl rfl) rfl) rfl) hs (.factor hr hp) hm
  | mul | div | rem => exact .term (.more (.factor (hl _ rfl rfl) rfl) hs hr hp) hm

theorem Written.binary {left right : Expr} (hl : Written left) (op : Operator) (hr : Written right)
    (line : Nat) : Written (.binary left op line right) := by
  intro line
  obtain ⟨ts, hts, hl⟩ := hl.operand line
  obtain ⟨us, hus, hr⟩ := hr.operand line
  refine ⟨⟨.leftParen, Text.utf8 "(", line⟩ :: (ts ++ ⟨.operator, op.symbol, line⟩ :: us) ++
    [⟨.rightParen, Text.utf8 ")", line⟩], ?_,
    .of_members rfl (.primary (.group rfl (expression_binary op line hl hr rfl) rfl))⟩
  intro rest ws hb h
  simp only [Expr.format, Text.concat_cons, Text.concat_nil, List.append_assoc, List.cons_append,
    List.nil_append]
  refine .symbol 0x28 rfl (hts _ _ (breaks_cons rfl (by decide) _) (.space (.operator op ?_)))
  exact .space (hus _ _ (breaks_cons rfl (by decide) _) (.symbol 0x29 rfl h))

theorem Written.assign {target value : Expr} (ht : Written target) (hv : Written value)
    (line : Nat) : Written (.assign target line value) := by
  intro line
  obtain ⟨ts, hts, ht⟩ := ht.operand line
  obtain ⟨us, hus, hv⟩ := hv line
  refine ⟨ts ++ ⟨.equal, Text.utf8 "=", line⟩ :: us, ?_, fun next hc => ?_⟩
  · intro rest ws hb h
    simp only [Expr.format, Text.concat_cons, Text.concat_nil, List.append_assoc, List.cons_append,
      List.nil_append]
    refine hts _ _ (breaks_cons rfl (by decide) _) ?_
    exact .space (.symbol 0x3D rfl (.space (hus _ _ hb h)))
  · exact .assign (.sum (.term (.factor (ht _ rfl rfl) rfl) rfl) rfl) rfl (hv.expression hc)

theorem Written.member {object : Expr} (ho : Written object) {key : Text}
    (hk : Spelled .identifier key) (line keyLine : Nat) :
    Written (.member object line ⟨key, keyLine⟩) := by
  intro line
  obtain ⟨ts, hts, ho⟩ := ho.object line
  refine ⟨ts ++ ⟨.dot, Text.utf8 ".", line⟩ :: [⟨.identifier, key, line⟩], ?_,
    .of_members rfl (.dot ho rfl (.name rfl))⟩
  intro rest ws hb h
  simp only [Expr.format, Text.concat_cons, Text.concat_nil, List.append_assoc, List.cons_append,
    List.nil_append]
  refine hts _ _ ?_ (.symbol 0x2E rfl (.spelled hk hb h))
  -- the point is not taken for a part of a number before it
  obtain ⟨c, s, rfl, hc⟩ := hk.letter
  have hd := (letter_facts c hc).2.2.2.2
  change (!(decide (Piece.point = Piece.point) && Number.isDigit c)) = true
  rw [hd]
  rfl

theorem Written.index {object key : Expr} (ho : Written object) (hk : Written key) (line : Nat) :
    Written (.index object line key) := by
  intro line
  obtain ⟨ts, hts, ho⟩ := ho.object line
  obtain ⟨us, hus, hk⟩ := hk line
  refine ⟨ts ++ ⟨.leftBracket, Text.utf8 "[", line⟩ :: us ++ [⟨.rightBracket, Text.utf8 "]", line⟩],
    ?_, .of_members rfl (.index ho rfl (hk.expression rfl) rfl)⟩
  intro rest ws hb h
  simp only [Expr.format, Text.concat_cons, Text.concat_nil, List.append_assoc, List.cons_append,
    List.nil_append]
  refine hts _ _ (breaks_cons rfl (by decide) _) (.symbol 0x5B rfl ?_)
  exact hus _ _ (breaks_cons rfl (by decide) _) (.symbol 0x5D rfl h)

/-- Expressions with commas between them. -/
theorem written_each {e : Expr} {es : List Expr} (h : ∀ x ∈ e :: es, Written x) (line : Nat) :
    ∃ ts, Writes line (Text.join (Text.utf8 ", ") (Expr.formatEach (e :: es))) ts ∧
      ∀ next, closes next = true → ahead .comma next = false →
        Grammar.Expressions next ts (Expr.mapLinesEach (fun _ => line) (e :: es)) := by
  induction es generalizing e with
  | nil =>
      obtain ⟨ts, hw, hs⟩ := h e (List.mem_singleton_self e) line
      exact ⟨ts, hw, fun next hc hn => .one (hs.expression hc) hn⟩
  | cons d es ih =>
      obtain ⟨ts, hw, hs⟩ := h e (List.mem_cons_self ..) line
      obtain ⟨us, hu, hd⟩ := ih fun x hx => h x (List.mem_cons_of_mem _ hx)
      refine ⟨ts ++ ⟨.comma, Text.utf8 ",", line⟩ :: us, ?_, fun next hc hn =>
        .more (hs.expression rfl) rfl (hd next hc hn)⟩
      intro rest ws hb hl
      simp only [Expr.formatEach, Text.join, List.append_assoc, List.cons_append] at hu ⊢
      refine hw _ _ (breaks_cons rfl (by decide) _) (.symbol 0x2C rfl (.space ?_))
      exact hu _ _ hb hl

/-- Arguments in parentheses. -/
theorem written_arguments {arguments : List Expr} (h : ∀ e ∈ arguments, Written e) (line : Nat) :
    ∃ ts, Writes line (Text.utf8 "(" ++
        (Text.join (Text.utf8 ", ") (Expr.formatEach arguments) ++ Text.utf8 ")"))
        (⟨.leftParen, Text.utf8 "(", line⟩ :: ts) ∧
      Grammar.Arguments ⟨.leftParen, Text.utf8 "(", line⟩ ts
        (Expr.mapLinesEach (fun _ => line) arguments) := by
  cases arguments with
  | nil =>
      refine ⟨[⟨.rightParen, Text.utf8 ")", line⟩], ?_, .none rfl rfl⟩
      exact fun rest us hb hl => .symbol 0x28 rfl (.symbol 0x29 rfl hl)
  | cons e es =>
      obtain ⟨ts, hw, hs⟩ := written_each h line
      refine ⟨ts ++ [⟨.rightParen, Text.utf8 ")", line⟩], ?_, .some rfl (hs _ rfl rfl) rfl⟩
      intro rest us hb hl
      simp only [List.append_assoc, List.cons_append, List.nil_append]
      exact .symbol 0x28 rfl (hw _ _ (breaks_cons rfl (by decide) _) (.symbol 0x29 rfl hl))

theorem Written.call {callee : Expr} (hc : Written callee) {arguments : List Expr}
    (ha : ∀ e ∈ arguments, Written e) (line : Nat) : Written (.call callee line arguments) := by
  intro line
  obtain ⟨ts, hts, hc⟩ := hc.operand line
  obtain ⟨us, hus, ha⟩ := written_arguments ha line
  refine ⟨ts ++ ⟨.leftParen, Text.utf8 "(", line⟩ :: us, ?_, fun next hd hb =>
    .call (hc _ rfl rfl) ha⟩
  intro rest ws hb h
  simp only [Expr.format, Text.concat_cons, Text.concat_nil, List.append_nil, List.append_assoc]
  have hr := hus rest ws hb h
  simp only [List.append_assoc] at hr
  exact hts _ _ (breaks_cons rfl (by decide) _) hr

/-- A property of an object literal that is written as it should be. -/
def WrittenProperty : Property → Prop
  | .shorthand key => Spelled .identifier key.text
  | .pair key value => Spelled .identifier key.text ∧ Written value

/-- One property, as the last one and before a comma. -/
theorem WrittenProperty.property {p : Property} (h : WrittenProperty p) (line : Nat) :
    ∃ ts, Writes line p.format ts ∧
      (∀ next, closes next = true →
        Grammar.Properties next ts [p.mapLines fun _ => line]) ∧
      ∀ next us ps, Grammar.Properties next us ps →
        Grammar.Properties next (ts ++ ⟨.comma, Text.utf8 ",", line⟩ :: us)
          (p.mapLines (fun _ => line) :: ps) := by
  cases p with
  | shorthand key =>
      exact ⟨[⟨.identifier, key.text, line⟩], fun rest us hb hl => .spelled h hb hl,
        fun next hn => .shorthand rfl, fun next us ps hp => .shorthandComma rfl rfl hp⟩
  | pair key value =>
      obtain ⟨ts, hw, hs⟩ := h.2 line
      refine ⟨⟨.identifier, key.text, line⟩ :: ⟨.colon, Text.utf8 ":", line⟩ :: ts, ?_,
        fun next hn => .pair rfl rfl (hs.expression hn),
        fun next us ps hp => .pairComma rfl rfl (hs.expression rfl) rfl hp⟩
      intro rest us hb hl
      simp only [Property.format, Text.concat_cons, Text.concat_nil, List.append_nil,
        List.append_assoc, List.cons_append]
      refine .spelled h.1 (breaks_cons rfl (by decide) _) (.symbol 0x3A rfl ?_)
      exact .space (hw rest us hb hl)

/-- Properties with commas between them. -/
theorem written_properties {p : Property} {ps : List Property}
    (h : ∀ x ∈ p :: ps, WrittenProperty x) (line : Nat) :
    ∃ ts, Writes line (Text.join (Text.utf8 ", ") (Property.formatEach (p :: ps))) ts ∧
      ∀ next, closes next = true →
        Grammar.Properties next ts (Property.mapLinesEach (fun _ => line) (p :: ps)) := by
  induction ps generalizing p with
  | nil =>
      obtain ⟨ts, hw, hs, -⟩ := (h p (List.mem_singleton_self p)).property line
      exact ⟨ts, hw, hs⟩
  | cons q ps ih =>
      obtain ⟨ts, hw, -, hs⟩ := (h p (List.mem_cons_self ..)).property line
      obtain ⟨us, hu, hq⟩ := ih fun x hx => h x (List.mem_cons_of_mem _ hx)
      refine ⟨ts ++ ⟨.comma, Text.utf8 ",", line⟩ :: us, ?_, fun next hc => hs _ _ _ (hq next hc)⟩
      intro rest ws hb hl
      simp only [Property.formatEach, Text.join, List.append_assoc, List.cons_append] at hu ⊢
      refine hw _ _ (breaks_cons rfl (by decide) _) (.symbol 0x2C rfl (.space ?_))
      exact hu _ _ hb hl

theorem written_object {properties : List Property}
    (h : ∀ p ∈ properties, WrittenProperty p) : Written (.object properties) := by
  intro line
  cases properties with
  | nil =>
      refine ⟨[⟨.leftBrace, Text.utf8 "\x7b", line⟩, ⟨.rightBrace, Text.utf8 "\x7d", line⟩], ?_,
        fun next hc => .operand (.object rfl .nil rfl) (closes_ahead hc _ rfl)⟩
      exact fun rest us hb hl => .symbol 0x7B rfl (.symbol 0x7D rfl hl)
  | cons p ps =>
      obtain ⟨ts, hw, hs⟩ := written_properties h line
      refine ⟨⟨.leftBrace, Text.utf8 "\x7b", line⟩ :: ts ++ [⟨.rightBrace, Text.utf8 "\x7d", line⟩],
        ?_, fun next hc => .operand (.object rfl (hs _ rfl) rfl) (closes_ahead hc _ rfl)⟩
      intro rest us hb hl
      simp only [Expr.format, Text.concat_cons, Text.concat_nil, List.append_assoc,
        List.cons_append, List.nil_append]
      refine .symbol 0x7B rfl (.space (hw _ _ (breaks_cons rfl (by decide) _) ?_))
      exact .space (.symbol 0x7D rfl hl)

end Scripting.Format
