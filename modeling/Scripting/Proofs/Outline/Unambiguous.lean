import Scripting.Proofs.Format.RoundTrip
import Scripting.Proofs.Outline.Shape

/-!
No two programs that were read have the same outline, lines apart. Their names, types and
numbers come from tokens of a source, so the trees of their outlines can be told from what
is written for them, and from the trees the programs.
-/

namespace Scripting

namespace Outline

open Format (Spelled forall_byte)

theorem plainWord_of_spelled {t : Text} (h : Spelled .identifier t) : PlainWord t := by
  generalize hk : Token.Kind.identifier = kind at h
  cases h with
  | punctuation h => exact absurd hk.symm (Piece.punctuation_ne h (by decide))
  | number ht hf => cases hk
  | @name c s hc ht =>
      have letter : ∀ b : UInt8, Piece.isLetter b = true → isPlain b = true :=
        forall_byte (by decide +kernel)
      have byte : ∀ b : UInt8, Piece.isNameByte b = true → isPlain b = true :=
        forall_byte (by decide +kernel)
      refine ⟨fun b hb => ?_, c, s, rfl, (Format.letter_facts c hc).2.2.2.2⟩
      obtain rfl | hb := List.mem_cons.mp hb
      · exact letter b hc
      · exact byte b (ht b hb)

theorem Tag.plainWord (tag : Tag) : PlainWord tag.text := by
  cases tag with
  | operator op => cases op <;> exact plainWord_of_test rfl
  | declare constant => cases constant <;> exact plainWord_of_test rfl
  | _ => exact plainWord_of_test rfl

theorem good_word {t : Text} (h : PlainWord t) : (word t).Good := .leaf ⟨h, trivial⟩

theorem plainWord_of_good {t : Text} (h : (word t).Good) : PlainWord t := by
  cases h with
  | leaf h => exact h.1

theorem good_shorthand {key : Text} (hk : PlainWord key) : (Tree.node [word key]).Good :=
  .node (List.forall_mem_singleton.mpr (good_word hk))

theorem good_pair {key : Text} {t : Tree} (hk : PlainWord key) (ht : t.Good) :
    (Tree.node [word key, t]).Good :=
  .node (List.forall_mem_cons.mpr ⟨good_word hk, List.forall_mem_singleton.mpr ht⟩)

theorem good_tagged (tag : Tag) {children : List Tree} (h : ∀ t ∈ children, t.Good) :
    (tagged tag children).Good :=
  .node (List.forall_mem_cons.mpr ⟨good_word tag.plainWord, h⟩)

theorem good_two (tag : Tag) {t u : Tree} (ht : t.Good) (hu : u.Good) :
    (tagged tag [t, u]).Good :=
  good_tagged tag (List.forall_mem_cons.mpr ⟨ht, List.forall_mem_singleton.mpr hu⟩)

theorem good_parameters {names : List Name} (h : ∀ name ∈ names, PlainWord name.text) :
    ∀ t ∈ parameters names, t.Good := by
  induction names with
  | nil => exact List.forall_mem_nil _
  | cons name rest ih =>
      rw [List.forall_mem_cons] at h
      cases rest with
      | nil => exact List.forall_mem_singleton.mpr (good_word h.1)
      | cons next rest => exact List.forall_mem_cons.mpr ⟨.leaf ⟨h.1, trivial⟩, ih h.2⟩

end Outline

end Scripting

namespace Scripting.Grammar

open Format (WellLexed)
open Outline

mutual

theorem Primary.tree_good {ts : List Token} {e : Expr} (h : Primary ts e) {rest : List Token}
    (hv : WellLexed false (ts ++ rest)) : e.tree.Good := by
  match h with
  | .name ht => exact good_word (plainWord_of_spelled (hv.spelled ht))
  | .number ht => exact .leaf ⟨(hv.spelled ht).finite rfl, Number.isNegative_ofLiteral _⟩
  | .text ho hw hc => exact .leaf trivial
  | @Primary.group opening closing us e ho he hc =>
      rw [List.append_assoc] at hv
      exact he.tree_good (hv.skip ho)

theorem Members.tree_good {ts : List Token} {e : Expr} (h : Members ts e) {rest : List Token}
    (hv : WellLexed false (ts ++ rest)) : e.tree.Good := by
  match h with
  | .primary h => exact h.tree_good hv
  | @Members.dot us vs object t key h ht hk =>
      rw [List.append_assoc] at hv
      exact good_two .member (h.tree_good hv) (hk.tree_good ((h.good hv).2.skip ht))
  | @Members.index us vs object key opening closing h ho hk hc =>
      rw [List.append_assoc, List.append_assoc] at hv
      exact good_two .index (h.tree_good hv) (hk.tree_good ((h.good hv).2.skip ho))

theorem Calls.tree_good {next : Option Token} {ts : List Token} {e : Expr} (h : Calls next ts e)
    {rest : List Token} (hv : WellLexed false (ts ++ rest)) : e.tree.Good := by
  match h with
  | .member h hd hb => exact h.tree_good hv
  | @Calls.call next opening us vs callee arguments h ha =>
      rw [List.append_assoc] at hv
      apply good_tagged
      exact List.forall_mem_cons.mpr ⟨h.tree_good hv, ha.tree_good (h.good hv).2⟩

theorem Arguments.tree_good {opening : Token} {ts : List Token} {arguments : List Expr}
    (h : Arguments opening ts arguments) {rest : List Token}
    (hv : WellLexed false (opening :: ts ++ rest)) : ∀ t ∈ Expr.trees arguments, t.Good := by
  match h with
  | .none ho hc => exact List.forall_mem_nil _
  | @Arguments.some opening closing us es ho hs hc =>
      rw [List.cons_append, List.append_assoc] at hv
      exact hs.tree_good (hv.skip ho)

theorem Expressions.tree_good {next : Option Token} {ts : List Token} {es : List Expr}
    (h : Expressions next ts es) {rest : List Token} (hv : WellLexed false (ts ++ rest)) :
    ∀ t ∈ Expr.trees es, t.Good := by
  match h with
  | .one h hn => exact List.forall_mem_singleton.mpr (h.tree_good hv)
  | @Expressions.more next comma us vs e es h hc hs =>
      rw [List.append_assoc] at hv
      exact List.forall_mem_cons.mpr ⟨h.tree_good hv, hs.tree_good ((h.good hv).2.skip hc)⟩

theorem Product.tree_good {next : Option Token} {ts : List Token} {e : Expr}
    (h : Product next ts e) {rest : List Token} (hv : WellLexed false (ts ++ rest)) :
    e.tree.Good := by
  match h with
  | .factor h hn => exact h.tree_good hv
  | @Product.more next t op us vs l r hl ht h hn =>
      rw [List.append_assoc] at hv
      have hr := h.tree_good ((hl.good hv).2.skip ht.kind)
      exact good_two (.operator op) (hl.tree_good hv) hr

theorem Sum.tree_good {next : Option Token} {ts : List Token} {e : Expr} (h : Sum next ts e)
    {rest : List Token} (hv : WellLexed false (ts ++ rest)) : e.tree.Good := by
  match h with
  | .term h hn => exact h.tree_good hv
  | @Sum.more next t op us vs l r hl ht h hn =>
      rw [List.append_assoc] at hv
      have hr := h.tree_good ((hl.good hv).2.skip ht.kind)
      exact good_two (.operator op) (hl.tree_good hv) hr

theorem Operand.tree_good {next : Option Token} {ts : List Token} {e : Expr}
    (h : Operand next ts e) {rest : List Token} (hv : WellLexed false (ts ++ rest)) :
    e.tree.Good := by
  match h with
  | @Operand.object next opening closing us fields ho hp hc =>
      rw [List.append_assoc] at hv
      exact good_tagged .object (hp.tree_good (hv.skip ho))
  | .sum h hn => exact h.tree_good hv

theorem Properties.tree_good {next : Option Token} {ts : List Token} {fields : List Property}
    (h : Properties next ts fields) {rest : List Token} (hv : WellLexed false (ts ++ rest)) :
    ∀ t ∈ Property.trees fields, t.Good := by
  match h with
  | .nil => exact List.forall_mem_nil _
  | .shorthand hk =>
      exact List.forall_mem_singleton.mpr (good_shorthand (plainWord_of_spelled (hv.spelled hk)))
  | @Properties.shorthandComma next key comma us fields hk hc hp =>
      have hkey := good_shorthand (plainWord_of_spelled (hv.spelled hk))
      exact List.forall_mem_cons.mpr ⟨hkey, hp.tree_good ((hv.skip hk).skip hc)⟩
  | @Properties.pair next key colon us value hk hl he =>
      have hvalue := he.tree_good ((hv.skip hk).skip hl)
      exact List.forall_mem_singleton.mpr
        (good_pair (plainWord_of_spelled (hv.spelled hk)) hvalue)
  | @Properties.pairComma next key colon comma us vs value fields hk hl he hc hp =>
      rw [List.append_assoc] at hv
      have hr := (hv.skip hk).skip hl
      have hpair := good_pair (plainWord_of_spelled (hv.spelled hk)) (he.tree_good hr)
      exact List.forall_mem_cons.mpr ⟨hpair, hp.tree_good ((he.good hr).2.skip hc)⟩

theorem Expression.tree_good {next : Option Token} {ts : List Token} {e : Expr}
    (h : Expression next ts e) {rest : List Token} (hv : WellLexed false (ts ++ rest)) :
    e.tree.Good := by
  match h with
  | .operand h hn => exact h.tree_good hv
  | @Expression.assign next t us vs target value hl ht he =>
      rw [List.append_assoc] at hv
      exact good_two .set (hl.tree_good hv) (he.tree_good ((hl.good hv).2.skip ht))

end

theorem Initializer.tree_good {type : Option Text} {next : Option Token} {ts : List Token}
    {e : Expr} (h : Initializer type next ts e) {rest : List Token}
    (hv : WellLexed false (ts ++ rest)) : e.tree.Good := by
  cases h with
  | text hy ho hw hc => exact .leaf trivial
  | number hy ht => exact .leaf ⟨(hv.spelled ht).finite rfl, Number.isNegative_ofLiteral _⟩
  | @bool t value hy ht =>
      have hw : PlainWord (Text.utf8 (if value then "true" else "false")) := by
        cases value <;> exact plainWord_of_test rfl
      exact good_tagged .bool (List.forall_mem_singleton.mpr (good_word hw))
  | expression hs hi hb he => exact he.tree_good hv

theorem good_declared {type : Option Text} (ht : Format.WrittenType type) {name : Text}
    (hn : PlainWord name) : (Tree.leaf (.word name (type.elim .none .type))).Good := by
  cases type with
  | none => exact .leaf ⟨hn, trivial⟩
  | some t => exact .leaf ⟨hn, ht t rfl⟩

theorem trees_names (names : List Name) :
    Expr.trees (names.map Expr.name) = names.map fun name => word name.text := by
  induction names with
  | nil => rfl
  | cons name rest ih =>
      rw [List.map_cons, Expr.trees, ih]
      rfl

theorem good_branch {first : Clause} {others : List Clause} {otherwise : List Stmt}
    (hf : (first.tree .first).Good) (hs : ∀ t ∈ Clause.trees others, t.Good)
    (ho : ∀ t ∈ Stmt.trees otherwise, t.Good) (line : Nat) :
    (Stmt.branch line first others otherwise).tree.Good := by
  apply good_tagged
  rw [List.forall_mem_cons, List.forall_mem_append]
  refine ⟨hf, hs, ?_⟩
  by_cases h : otherwise.isEmpty = true
  · rw [if_pos h]
    exact List.forall_mem_nil _
  · rw [if_neg h]
    exact List.forall_mem_singleton.mpr (good_tagged .otherwise ho)

mutual

theorem Statement.tree_good {next : Option Token} {ts : List Token} {s : Stmt}
    (h : Statement next ts s) {rest : List Token} (hv : WellLexed false (ts ++ rest)) :
    s.tree.Good := by
  match h with
  | @Statement.declare next keyword name semicolon us type hk hn ha hs =>
      rw [List.append_assoc] at hv
      have hr := hv.skip hk
      obtain ⟨ht, -⟩ := ha.good (by simp [hs]) (by simp [hs]) (hr.skip hn)
      exact good_tagged (.declare false) (List.forall_mem_singleton.mpr
        (good_declared ht (plainWord_of_spelled (hr.spelled hn))))
  | @Statement.define next constant keyword name equal semicolon us vs type value hk hn ha he hi
      hs =>
      rw [List.append_assoc, List.append_assoc] at hv
      have hr := hv.skip hk (by cases constant <;> decide)
      obtain ⟨ht, hr'⟩ := ha.good (by simp [he]) (by simp [he]) (hr.skip hn)
      exact good_two (.declare constant)
        (good_declared ht (plainWord_of_spelled (hr.spelled hn))) (hi.tree_good (hr'.skip he))
  | @Statement.function next keyword name paren opening closing us vs parameters body hk hn hp ho
      hb hc =>
      rw [List.append_assoc, List.append_assoc] at hv
      have hr := hv.skip hk
      have hargs := hp.tree_good (hr.skip hn)
      rw [trees_names, List.forall_mem_map] at hargs
      apply good_tagged
      rw [List.forall_mem_cons, List.forall_mem_cons]
      refine ⟨good_word (plainWord_of_spelled (hr.spelled hn)), .node ?_, ?_⟩
      · exact good_parameters fun name hm => plainWord_of_good (hargs name hm)
      · exact hb.tree_good ((hp.good (hr.skip hn)).2.skip ho)
  | @Statement.conditional next keyword us vs first others hk hf hs hn =>
      rw [List.append_assoc] at hv
      have hr := hv.skip hk
      exact good_branch (hf.tree_good .first hr) (hs.tree_good (hf.good hr).2)
        (List.forall_mem_nil _) keyword.line
  | @Statement.otherwise next keyword other us vs ws first others body hk hf hs he hb =>
      rw [List.append_assoc, List.append_assoc] at hv
      have hr := hv.skip hk
      have hr' := (hf.good hr).2
      exact good_branch (hf.tree_good .first hr) (hs.tree_good hr')
        (hb.tree_good ((hs.good hr').2.skip he)) keyword.line
  | .expression he hn => exact he.tree_good hv
  | @Statement.terminated next semicolon us e he hs =>
      rw [List.append_assoc] at hv
      exact he.tree_good hv

theorem Statements.tree_good {next : Option Token} {ts : List Token} {ss : List Stmt}
    (h : Statements next ts ss) {rest : List Token} (hv : WellLexed false (ts ++ rest)) :
    ∀ t ∈ Stmt.trees ss, t.Good := by
  match h with
  | .nil => exact List.forall_mem_nil _
  | @Statements.cons next us vs s ss h hs =>
      rw [List.append_assoc] at hv
      exact List.forall_mem_cons.mpr ⟨h.tree_good hv, hs.tree_good (h.good hv).2⟩

theorem Guarded.tree_good {ts : List Token} {c : Clause} (h : Guarded ts c) (tag : Tag)
    {rest : List Token} (hv : WellLexed false (ts ++ rest)) : (c.tree tag).Good := by
  match h with
  | @Guarded.mk opening closing us vs condition body ho he hc hb =>
      rw [List.append_assoc] at hv
      have hr := hv.skip ho
      apply good_tagged
      exact List.forall_mem_cons.mpr
        ⟨he.tree_good hr, hb.tree_good ((he.good hr).2.skip hc)⟩

theorem Alternatives.tree_good {next : Option Token} {ts : List Token} {cs : List Clause}
    (h : Alternatives next ts cs) {rest : List Token} (hv : WellLexed false (ts ++ rest)) :
    ∀ t ∈ Clause.trees cs, t.Good := by
  match h with
  | .nil hn => exact List.forall_mem_nil _
  | @Alternatives.cons next keyword us vs c cs hk hc hs =>
      rw [List.append_assoc] at hv
      have hr := hv.skip hk
      exact List.forall_mem_cons.mpr ⟨hc.tree_good .other hr, hs.tree_good (hc.good hr).2⟩

theorem Block.tree_good {ts : List Token} {body : List Stmt} (h : Block ts body)
    {rest : List Token} (hv : WellLexed false (ts ++ rest)) : ∀ t ∈ Stmt.trees body, t.Good := by
  match h with
  | @Block.mk opening closing us s ss ho hb hc =>
      rw [List.append_assoc] at hv
      exact hb.tree_good (hv.skip ho)

end

end Scripting.Grammar

namespace Scripting.Program

theorem trees_good {s : Text} {p : Program} (h : ofSource s = .ok p) :
    ∀ t ∈ Stmt.trees p, t.Good := by
  obtain ⟨he, ht⟩ := ofTokens_of_ofSource h
  have hg : Grammar.Statements none _ p := grammar_of_ofTokens ht
  have hv := Format.wellLexed_ofSource he
  rw [← List.append_nil (Scan.ofSource s).tokens] at hv
  exact hg.tree_good hv

/-- Programs that were read and have the same outline are the same up to lines. -/
theorem sameUpToLines_of_outline {s t : Text} {p q : Program} (hp : ofSource s = .ok p)
    (hq : ofSource t = .ok q) (h : p.outline = q.outline) : p.SameUpToLines q := by
  rw [outline_eq, outline_eq] at h
  have ht : Stmt.trees p = Stmt.trees q := Outline.lines_inj (trees_good hp) (trees_good hq) h
  have hr := Stmt.ofTrees?_trees p
  rw [ht, Stmt.ofTrees?_trees q] at hr
  exact (Option.some.inj hr).symm

/-- A parenthesis as a type, keys that are words of the outline, a text that looks like one and
a number with an exponent, on three lines and on one. -/
theorem sameUpToLines_of_outline_words :
    let s := Text.utf8 "let set:) = \x7b call: \") (set\",\n object \x7d;\n" ++
      Text.utf8 "set.call = 1000000000000000000000"
    let t := Text.utf8 "let set : ) = \x7b call: \") (set\", object, \x7d; " ++
      Text.utf8 "set . call = 1000000000000000000000.0;"
    let text := Text.utf8
      "(let set:) (object (call \") (set\") (object)))\n(set (. set call) 1e+21)\n"
    ∃ p q, ofSource s = .ok p ∧ ofSource t = .ok q ∧ p.outline = text ∧ q.outline = text ∧
      p.SameUpToLines q := by
  intro s t text
  have h : ∀ u ∈ [s, t], (ofSource u).toOption.map outline = some text := by decide +kernel
  obtain ⟨p, hp, ho⟩ := Option.map_eq_some_iff.mp (h s (by simp))
  obtain ⟨q, hq, ho'⟩ := Option.map_eq_some_iff.mp (h t (by simp))
  have hp := Reading.eq_ok_of_toOption hp
  have hq := Reading.eq_ok_of_toOption hq
  exact ⟨p, q, hp, hq, ho, ho', sameUpToLines_of_outline hp hq (ho.trans ho'.symm)⟩

end Scripting.Program
