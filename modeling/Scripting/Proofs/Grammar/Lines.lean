import Scripting.Proofs.Grammar
import Scripting.Proofs.Program.Lines

/-!
The grammar does not look at lines. A run of tokens whose lines are changed spells the
same tree with its lines changed in the same way.
-/

namespace Scripting.Grammar

variable {f : Nat → Nat}

theorem ahead_mapLine (kind : Token.Kind) (next : Option Token) :
    ahead kind (next.map (Token.mapLine f)) = ahead kind next := by
  cases next <;> rfl

theorem operatorAhead_mapLine (additive : Bool) (next : Option Token) :
    operatorAhead additive (next.map (Token.mapLine f)) = operatorAhead additive next := by
  cases next <;> rfl

theorem Sign.mapLine {additive : Bool} {t : Token} {op : Operator} (h : Sign additive t op) :
    Sign additive (t.mapLine f) op := by
  cases h with
  | add hk hl => exact .add hk hl
  | sub hk hl => exact .sub hk hl
  | mul hk hl => exact .mul hk hl
  | div hk hl => exact .div hk hl
  | rem hk hl => exact .rem hk hl

theorem first_mapLine (ts : List Token) (next : Option Token) :
    first (ts.map (Token.mapLine f)) (next.map (Token.mapLine f)) =
      (first ts next).map (Token.mapLine f) := by
  cases ts <;> rfl

theorem forall_mem_mapLine {P : Token.Kind → Prop} {words : List Token}
    (h : ∀ w ∈ words, P w.kind) : ∀ w ∈ words.map (Token.mapLine f), P w.kind := by
  intro w hw
  obtain ⟨v, hv, rfl⟩ := List.mem_map.mp hw
  exact h v hv

theorem map_lexeme_mapLine (words : List Token) :
    (words.map (Token.mapLine f)).map Token.lexeme = words.map Token.lexeme := by
  rw [List.map_map]
  rfl

mutual

theorem Primary.mapLines {ts : List Token} {e : Expr} (h : Primary ts e) :
    Primary (ts.map (Token.mapLine f)) (e.mapLines f) := by
  match h with
  | .name ht => exact .name ht
  | .number ht => exact .number ht
  | @Primary.text opening closing words ho hw hc =>
      rw [Expr.mapLines, ← map_lexeme_mapLine (f := f) words]
      simp only [List.map_append, List.map_cons, List.map_nil]
      exact .text ho (forall_mem_mapLine (P := (· = .word)) hw) hc
  | .group ho he hc =>
      simp only [List.map_append, List.map_cons, List.map_nil]
      exact .group ho he.mapLines hc

theorem Members.mapLines {ts : List Token} {e : Expr} (h : Members ts e) :
    Members (ts.map (Token.mapLine f)) (e.mapLines f) := by
  match h with
  | .primary h => exact .primary h.mapLines
  | .dot h ht hk =>
      simp only [List.map_append, List.map_cons]
      exact .dot h.mapLines ht hk.mapLines
  | .index h ho hk hc =>
      simp only [List.map_append, List.map_cons, List.map_nil]
      exact .index h.mapLines ho hk.mapLines hc

theorem Calls.mapLines {next : Option Token} {ts : List Token} {e : Expr} (h : Calls next ts e) :
    Calls (next.map (Token.mapLine f)) (ts.map (Token.mapLine f)) (e.mapLines f) := by
  match h with
  | .member h hd hb =>
      exact .member h.mapLines (by rwa [ahead_mapLine]) (by rwa [ahead_mapLine])
  | .call h ha =>
      simp only [List.map_append, List.map_cons]
      exact .call h.mapLines ha.mapLines

theorem Arguments.mapLines {opening : Token} {ts : List Token} {es : List Expr}
    (h : Arguments opening ts es) :
    Arguments (opening.mapLine f) (ts.map (Token.mapLine f)) (Expr.mapLinesEach f es) := by
  match h with
  | .none ho hc => exact .none ho hc
  | .some ho hs hc =>
      simp only [List.map_append, List.map_cons, List.map_nil]
      exact .some ho hs.mapLines hc

theorem Expressions.mapLines {next : Option Token} {ts : List Token} {es : List Expr}
    (h : Expressions next ts es) :
    Expressions (next.map (Token.mapLine f)) (ts.map (Token.mapLine f))
      (Expr.mapLinesEach f es) := by
  match h with
  | .one h hn => exact .one h.mapLines (by rwa [ahead_mapLine])
  | .more h hc hs =>
      simp only [List.map_append, List.map_cons]
      exact .more h.mapLines hc hs.mapLines

theorem Product.mapLines {next : Option Token} {ts : List Token} {e : Expr}
    (h : Product next ts e) :
    Product (next.map (Token.mapLine f)) (ts.map (Token.mapLine f)) (e.mapLines f) := by
  match h with
  | .factor h hn => exact .factor h.mapLines (by rwa [ahead_mapLine])
  | .more hl ht hr hn =>
      simp only [List.map_append, List.map_cons]
      exact .more hl.mapLines ht.mapLine hr.mapLines (by rwa [ahead_mapLine])

theorem Sum.mapLines {next : Option Token} {ts : List Token} {e : Expr} (h : Sum next ts e) :
    Sum (next.map (Token.mapLine f)) (ts.map (Token.mapLine f)) (e.mapLines f) := by
  match h with
  | .term h hn => exact .term h.mapLines (by rwa [operatorAhead_mapLine])
  | .more hl ht hr hn =>
      simp only [List.map_append, List.map_cons]
      exact .more hl.mapLines ht.mapLine hr.mapLines (by rwa [operatorAhead_mapLine])

theorem Operand.mapLines {next : Option Token} {ts : List Token} {e : Expr}
    (h : Operand next ts e) :
    Operand (next.map (Token.mapLine f)) (ts.map (Token.mapLine f)) (e.mapLines f) := by
  match h with
  | .object ho hp hc =>
      simp only [List.map_append, List.map_cons, List.map_nil]
      exact .object ho hp.mapLines hc
  | .sum h hn => exact .sum h.mapLines (by rwa [operatorAhead_mapLine])

theorem Properties.mapLines {next : Option Token} {ts : List Token} {ps : List Property}
    (h : Properties next ts ps) :
    Properties (next.map (Token.mapLine f)) (ts.map (Token.mapLine f))
      (Property.mapLinesEach f ps) := by
  match h with
  | .nil => exact .nil
  | .shorthand hk => exact .shorthand hk
  | .shorthandComma hk hc hp => exact .shorthandComma hk hc hp.mapLines
  | .pair hk hl hv => exact .pair hk hl hv.mapLines
  | .pairComma hk hl hv hc hp =>
      simp only [List.map_append, List.map_cons]
      exact .pairComma hk hl hv.mapLines hc hp.mapLines

theorem Expression.mapLines {next : Option Token} {ts : List Token} {e : Expr}
    (h : Expression next ts e) :
    Expression (next.map (Token.mapLine f)) (ts.map (Token.mapLine f)) (e.mapLines f) := by
  match h with
  | .operand h hn => exact .operand h.mapLines (by rwa [ahead_mapLine])
  | .assign hl ht hv =>
      simp only [List.map_append, List.map_cons]
      exact .assign hl.mapLines ht hv.mapLines

end

theorem Annotation.mapLines {ts : List Token} {type : Option Text} (h : Annotation ts type) :
    Annotation (ts.map (Token.mapLine f)) type := by
  cases h with
  | none => exact .none
  | some hc => exact .some hc

theorem Initializer.mapLines {next : Option Token} {ts : List Token} {type : Option Text} {e : Expr}
    (h : Initializer type next ts e) :
    Initializer type (next.map (Token.mapLine f)) (ts.map (Token.mapLine f)) (e.mapLines f) := by
  cases h with
  | @text opening closing words hy ho hw hc =>
      rw [Expr.mapLines, ← map_lexeme_mapLine (f := f) words]
      simp only [List.map_append, List.map_cons, List.map_nil]
      exact .text hy ho (forall_mem_mapLine (P := (· ≠ .quote)) hw) hc
  | number hy ht => exact .number hy ht
  | bool hy ht => exact .bool hy ht
  | expression hs hi hb he => exact .expression hs hi hb he.mapLines

mutual

theorem Statement.mapLines {next : Option Token} {ts : List Token} {s : Stmt}
    (h : Statement next ts s) :
    Statement (next.map (Token.mapLine f)) (ts.map (Token.mapLine f)) (s.mapLines f) := by
  match h with
  | .declare hk hn ha hs =>
      simp only [List.map_append, List.map_cons, List.map_nil]
      exact .declare hk hn ha.mapLines hs
  | .define hk hn ha he hv hs =>
      simp only [List.map_append, List.map_cons, List.map_nil]
      exact .define hk hn ha.mapLines he hv.mapLines hs
  | .function hk hn hp ho hb hc =>
      have hq := hp.mapLines (f := f)
      rw [Expr.mapLinesEach_name] at hq
      simp only [List.map_append, List.map_cons, List.map_nil]
      exact .function hk hn hq ho hb.mapLines hc
  | .conditional hk hf hs hn =>
      simp only [List.map_append, List.map_cons]
      exact .conditional hk hf.mapLines hs.mapLines (by rwa [ahead_mapLine])
  | .otherwise hk hf hs he hb =>
      simp only [List.map_append, List.map_cons]
      exact .otherwise hk hf.mapLines hs.mapLines he hb.mapLines
  | .expression he hn => exact .expression he.mapLines (by rwa [ahead_mapLine])
  | .terminated he hs =>
      simp only [List.map_append, List.map_cons, List.map_nil]
      exact .terminated he.mapLines hs

theorem Statements.mapLines {next : Option Token} {ts : List Token} {ss : List Stmt}
    (h : Statements next ts ss) :
    Statements (next.map (Token.mapLine f)) (ts.map (Token.mapLine f))
      (Stmt.mapLinesEach f ss) := by
  match h with
  | .nil => exact .nil
  | .cons h hs =>
      rw [List.map_append]
      exact .cons (by rw [first_mapLine]; exact h.mapLines) hs.mapLines

theorem Guarded.mapLines {ts : List Token} {c : Clause} (h : Guarded ts c) :
    Guarded (ts.map (Token.mapLine f)) (c.mapLines f) := by
  match h with
  | .mk ho he hc hb =>
      simp only [List.map_append, List.map_cons]
      exact .mk ho he.mapLines hc hb.mapLines

theorem Alternatives.mapLines {next : Option Token} {ts : List Token} {cs : List Clause}
    (h : Alternatives next ts cs) :
    Alternatives (next.map (Token.mapLine f)) (ts.map (Token.mapLine f))
      (Clause.mapLinesEach f cs) := by
  match h with
  | .nil hn => exact .nil (by rwa [ahead_mapLine])
  | .cons hk hc hs =>
      simp only [List.map_append, List.map_cons]
      exact .cons hk hc.mapLines hs.mapLines

theorem Block.mapLines {ts : List Token} {ss : List Stmt} (h : Block ts ss) :
    Block (ts.map (Token.mapLine f)) (Stmt.mapLinesEach f ss) := by
  match h with
  | .mk ho hb hc =>
      simp only [List.map_append, List.map_cons, List.map_nil]
      exact .mk ho hb.mapLines hc

end

end Scripting.Grammar
