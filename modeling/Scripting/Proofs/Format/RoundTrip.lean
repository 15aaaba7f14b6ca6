import Scripting.Proofs.Format.Statements
import Scripting.Proofs.Grammar.Soundness
import Scripting.Proofs.Parse.Extension

/-!
A program that was read is written as text that reads as the same program, its
declared strings made even and lines apart. Its tree comes from tokens of a source,
so its names, numbers and texts are such that what is written for them has the same
tokens again.
-/

namespace Scripting.Format

/-- Expressions that are written as they should be, names with their spelling. -/
structure Good (e : Expr) : Prop where
  written : Written e
  spelled : ∀ name, e = .name name → Spelled .identifier name.text

theorem Good.of_written {e : Expr} (h : Written e) (hn : ∀ name, e ≠ .name name) : Good e :=
  ⟨h, fun name he => absurd he (hn name)⟩

namespace WellLexed

variable {t : Token} {ts rest : List Token}

theorem spelled (h : WellLexed false (t :: ts)) {kind : Token.Kind} (hk : t.kind = kind)
    (hq : kind ≠ .quote := by decide) : Spelled kind t.lexeme := by
  subst hk
  rw [WellLexed, if_neg hq] at h
  exact h.1

theorem skip (h : WellLexed false (t :: ts)) {kind : Token.Kind} (hk : t.kind = kind)
    (hq : kind ≠ .quote := by decide) : WellLexed false ts := by
  subst hk
  rw [WellLexed, if_neg hq] at h
  exact h.2

theorem quote {quoted : Bool} (h : WellLexed quoted (t :: ts)) (hk : t.kind = .quote) :
    t.lexeme = Text.utf8 "\"" ∧ WellLexed (!quoted) ts := by
  rwa [WellLexed, if_pos hk] at h

theorem words {closing : Token} (hw : ∀ w ∈ ts, w.kind ≠ .quote) (hc : closing.kind = .quote)
    (h : WellLexed true (ts ++ closing :: rest)) :
    (∀ w ∈ ts, IsWord w.lexeme) ∧ WellLexed false rest := by
  induction ts with
  | nil => exact ⟨by simp, (h.quote hc).2⟩
  | cons w ts ih =>
      rw [List.cons_append, WellLexed, if_neg (hw w (List.mem_cons_self ..))] at h
      obtain ⟨⟨-, hword⟩, h⟩ := h
      obtain ⟨hs, hr⟩ := ih (fun v hv => hw v (List.mem_cons_of_mem _ hv)) h
      exact ⟨List.forall_mem_cons.mpr ⟨hword, hs⟩, hr⟩

end WellLexed

end Scripting.Format

namespace Scripting.Grammar

open Format

mutual

theorem Primary.good {ts : List Token} {e : Expr} (h : Primary ts e) {rest : List Token}
    (hv : WellLexed false (ts ++ rest)) : Good e ∧ WellLexed false rest := by
  match h with
  | .name ht =>
      have hs := hv.spelled ht
      exact ⟨⟨written_name hs _, by rintro _ ⟨rfl⟩; exact hs⟩, hv.skip ht⟩
  | .number ht =>
      have hn := written_number ((hv.spelled ht).finite rfl) (Number.isNegative_ofLiteral _)
      exact ⟨.of_written hn (by simp), hv.skip ht⟩
  | @Primary.text opening closing words ho hw hc =>
      rw [List.append_assoc] at hv
      have hk : ∀ w ∈ words, w.kind ≠ .quote := fun w hm => by simp [hw w hm]
      obtain ⟨hws, hr⟩ := WellLexed.words hk hc (WellLexed.quote hv ho).2
      refine ⟨.of_written (written_text fun w hm => ?_) (by simp), hr⟩
      obtain ⟨t, ht, rfl⟩ := List.mem_map.mp hm
      exact hws t ht
  | @Primary.group opening closing us e ho he hc =>
      rw [List.append_assoc] at hv
      obtain ⟨hg, hr⟩ := he.good (hv.skip ho)
      exact ⟨hg, hr.skip hc⟩

theorem Members.good {ts : List Token} {e : Expr} (h : Members ts e) {rest : List Token}
    (hv : WellLexed false (ts ++ rest)) : Good e ∧ WellLexed false rest := by
  match h with
  | .primary h => exact h.good hv
  | @Members.dot us vs object t key h ht hk =>
      rw [List.append_assoc] at hv
      obtain ⟨ho, hr⟩ := h.good hv
      obtain ⟨hkey, hr⟩ := hk.good (hr.skip ht)
      exact ⟨.of_written (ho.written.member (hkey.spelled key rfl) _ _) (by simp), hr⟩
  | @Members.index us vs object key opening closing h ho hk hc =>
      rw [List.append_assoc, List.append_assoc] at hv
      obtain ⟨hobj, hr⟩ := h.good hv
      obtain ⟨hkey, hr⟩ := hk.good (hr.skip ho)
      exact ⟨.of_written (hobj.written.index hkey.written _) (by simp), hr.skip hc⟩

theorem Calls.good {next : Option Token} {ts : List Token} {e : Expr} (h : Calls next ts e)
    {rest : List Token} (hv : WellLexed false (ts ++ rest)) : Good e ∧ WellLexed false rest := by
  match h with
  | .member h hd hb => exact h.good hv
  | @Calls.call next opening us vs callee arguments h ha =>
      rw [List.append_assoc] at hv
      obtain ⟨hc, hr⟩ := h.good hv
      obtain ⟨hargs, hr⟩ := ha.good hr
      have hw := hc.written.call (fun e he => (hargs e he).written) opening.line
      exact ⟨.of_written hw (by simp), hr⟩

theorem Arguments.good {opening : Token} {ts : List Token} {arguments : List Expr}
    (h : Arguments opening ts arguments) {rest : List Token}
    (hv : WellLexed false (opening :: ts ++ rest)) :
    (∀ e ∈ arguments, Good e) ∧ WellLexed false rest := by
  match h with
  | .none ho hc => exact ⟨by simp, (hv.skip ho).skip hc⟩
  | @Arguments.some opening closing us es ho hs hc =>
      rw [List.cons_append, List.append_assoc] at hv
      obtain ⟨hg, hr⟩ := hs.good (hv.skip ho)
      exact ⟨hg, hr.skip hc⟩

theorem Expressions.good {next : Option Token} {ts : List Token} {es : List Expr}
    (h : Expressions next ts es) {rest : List Token} (hv : WellLexed false (ts ++ rest)) :
    (∀ e ∈ es, Good e) ∧ WellLexed false rest := by
  match h with
  | .one h hn =>
      obtain ⟨hg, hr⟩ := h.good hv
      exact ⟨by simpa using hg, hr⟩
  | @Expressions.more next comma us vs e es h hc hs =>
      rw [List.append_assoc] at hv
      obtain ⟨hg, hr⟩ := h.good hv
      obtain ⟨hgs, hr⟩ := hs.good (hr.skip hc)
      exact ⟨List.forall_mem_cons.mpr ⟨hg, hgs⟩, hr⟩

theorem Product.good {next : Option Token} {ts : List Token} {e : Expr} (h : Product next ts e)
    {rest : List Token} (hv : WellLexed false (ts ++ rest)) : Good e ∧ WellLexed false rest := by
  match h with
  | .factor h hn => exact h.good hv
  | @Product.more next t op us vs l r hl ht h hn =>
      rw [List.append_assoc] at hv
      obtain ⟨hl, hr⟩ := hl.good hv
      obtain ⟨hrt, hr⟩ := h.good (hr.skip ht.kind)
      exact ⟨.of_written (hl.written.binary op hrt.written _) (by simp), hr⟩

theorem Sum.good {next : Option Token} {ts : List Token} {e : Expr} (h : Sum next ts e)
    {rest : List Token} (hv : WellLexed false (ts ++ rest)) : Good e ∧ WellLexed false rest := by
  match h with
  | .term h hn => exact h.good hv
  | @Sum.more next t op us vs l r hl ht h hn =>
      rw [List.append_assoc] at hv
      obtain ⟨hl, hr⟩ := hl.good hv
      obtain ⟨hrt, hr⟩ := h.good (hr.skip ht.kind)
      exact ⟨.of_written (hl.written.binary op hrt.written _) (by simp), hr⟩

theorem Operand.good {next : Option Token} {ts : List Token} {e : Expr} (h : Operand next ts e)
    {rest : List Token} (hv : WellLexed false (ts ++ rest)) : Good e ∧ WellLexed false rest := by
  match h with
  | @Operand.object next opening closing us fields ho hp hc =>
      rw [List.append_assoc] at hv
      obtain ⟨hf, hr⟩ := hp.good (hv.skip ho)
      exact ⟨.of_written (written_object hf) (by simp), hr.skip hc⟩
  | .sum h hn => exact h.good hv

theorem Properties.good {next : Option Token} {ts : List Token} {fields : List Property}
    (h : Properties next ts fields) {rest : List Token} (hv : WellLexed false (ts ++ rest)) :
    (∀ p ∈ fields, WrittenProperty p) ∧ WellLexed false rest := by
  match h with
  | .nil => exact ⟨by simp, hv⟩
  | .shorthand hk =>
      refine ⟨?_, hv.skip hk⟩
      rintro p hp
      rw [List.mem_singleton.mp hp]
      exact hv.spelled hk
  | @Properties.shorthandComma next key comma us fields hk hc hp =>
      obtain ⟨hf, hr⟩ := hp.good ((hv.skip hk).skip hc)
      exact ⟨List.forall_mem_cons.mpr ⟨hv.spelled hk, hf⟩, hr⟩
  | @Properties.pair next key colon us value hk hl he =>
      obtain ⟨hg, hr⟩ := he.good ((hv.skip hk).skip hl)
      refine ⟨?_, hr⟩
      rintro p hp
      rw [List.mem_singleton.mp hp]
      exact ⟨hv.spelled hk, hg.written⟩
  | @Properties.pairComma next key colon comma us vs value fields hk hl he hc hp =>
      rw [List.append_assoc] at hv
      obtain ⟨hg, hr⟩ := he.good ((hv.skip hk).skip hl)
      obtain ⟨hf, hr⟩ := hp.good (hr.skip hc)
      exact ⟨List.forall_mem_cons.mpr ⟨⟨hv.spelled hk, hg.written⟩, hf⟩, hr⟩

theorem Expression.good {next : Option Token} {ts : List Token} {e : Expr}
    (h : Expression next ts e) {rest : List Token} (hv : WellLexed false (ts ++ rest)) :
    Good e ∧ WellLexed false rest := by
  match h with
  | .operand h hn => exact h.good hv
  | @Expression.assign next t us vs target value hl ht he =>
      rw [List.append_assoc] at hv
      obtain ⟨htg, hr⟩ := hl.good hv
      obtain ⟨hvg, hr⟩ := he.good (hr.skip ht)
      exact ⟨.of_written (htg.written.assign hvg.written _) (by simp), hr⟩

end

theorem Annotation.good {ts : List Token} {type : Option Text} (h : Annotation ts type) {t : Token}
    (hq : t.kind ≠ .quote) (hw : t.kind ≠ .word) {rest : List Token}
    (hv : WellLexed false (ts ++ t :: rest)) :
    WrittenType type ∧ WellLexed false (t :: rest) := by
  cases h with
  | none => exact ⟨by simp [WrittenType], hv⟩
  | @some colon type hc =>
      have hr := hv.skip hc
      by_cases hk : type.kind = .quote
      · -- inside quotes there is nothing that could follow an annotation
        have ht : WellLexed true (t :: rest) := (WellLexed.quote hr hk).2
        rw [WellLexed, if_neg hq] at ht
        exact absurd ht.1.1 hw
      · refine ⟨?_, hr.skip rfl hk⟩
        rintro _ ⟨rfl⟩
        exact ⟨type.kind, hr.spelled rfl hk⟩

theorem dropSuffix_append (s suffix : Text) : (s ++ suffix).dropSuffix suffix = s := by
  rw [Text.dropSuffix, if_pos (List.isSuffixOf_iff_suffix.mpr (List.suffix_append s suffix))]
  simp

theorem quote_notMem_words {ws : List Text} (h : ∀ w ∈ ws, IsWord w) :
    Piece.quoteByte ∉ ws.flatMap (· ++ Text.utf8 " ") := by
  intro hm
  obtain ⟨w, hw, hb⟩ := List.mem_flatMap.mp hm
  obtain hb | hb := List.mem_append.mp hb
  · cases (h w hw).2 _ hb
  · cases hb with
    | tail _ hb => cases hb

theorem Initializer.good {type : Option Text} {next : Option Token} {ts : List Token} {e : Expr}
    (h : Initializer type next ts e) {rest : List Token} (hv : WellLexed false (ts ++ rest)) :
    WrittenValue type e ∧ WellLexed false rest := by
  cases h with
  | @text opening closing words hy ho hw hc =>
      subst hy
      rw [List.append_assoc] at hv
      obtain ⟨hws, hr⟩ := WellLexed.words hw hc (WellLexed.quote hv ho).2
      refine ⟨writtenValue_text ?_, hr⟩
      rw [dropSuffix_append]
      refine quote_notMem_words fun w hm => ?_
      obtain ⟨t, ht, rfl⟩ := List.mem_map.mp hm
      exact hws t ht
  | number hy ht =>
      subst hy
      exact ⟨writtenValue_number ((hv.spelled ht).finite rfl) (Number.isNegative_ofLiteral _),
        hv.skip ht⟩
  | @bool t value hy ht =>
      subst hy
      refine ⟨writtenValue_bool value, hv.skip rfl fun hk => ?_⟩
      have hl := (WellLexed.quote hv hk).1
      rw [ht] at hl
      cases value <;> cases hl
  | expression hs hi hb he =>
      obtain ⟨hg, hr⟩ := he.good hv
      exact ⟨hg.written.value hs hi hb, hr⟩

mutual

theorem Statement.good {next : Option Token} {ts : List Token} {s : Stmt}
    (h : Statement next ts s) {rest : List Token} (hv : WellLexed false (ts ++ rest)) :
    WrittenStatement s ∧ WellLexed false rest := by
  match h with
  | @Statement.declare next keyword name semicolon us type hk hn ha hs =>
      rw [List.append_assoc] at hv
      have hr := hv.skip hk
      obtain ⟨ht, hr'⟩ := ha.good (by simp [hs]) (by simp [hs]) (hr.skip hn)
      exact ⟨written_declare (hr.spelled hn) ht, hr'.skip hs⟩
  | @Statement.define next constant keyword name equal semicolon us vs type value hk hn ha he hi
      hs =>
      rw [List.append_assoc, List.append_assoc] at hv
      have hr := hv.skip hk (by cases constant <;> decide)
      obtain ⟨ht, hr'⟩ := ha.good (by simp [he]) (by simp [he]) (hr.skip hn)
      obtain ⟨hw, hr''⟩ := hi.good (hr'.skip he)
      exact ⟨written_define (hr.spelled hn) ht hw constant, hr''.skip hs⟩
  | @Statement.function next keyword name paren opening closing us vs parameters body hk hn hp ho
      hb hc =>
      rw [List.append_assoc, List.append_assoc] at hv
      have hr := hv.skip hk
      obtain ⟨hargs, hr'⟩ := hp.good (hr.skip hn)
      obtain ⟨hw, hr''⟩ := hb.good (hr'.skip ho)
      refine ⟨written_func (hr.spelled hn) (fun p hm => ?_) hw, hr''.skip hc⟩
      exact (hargs _ (List.mem_map_of_mem hm)).spelled p rfl
  | @Statement.conditional next keyword us vs first others hk hf hs hn =>
      rw [List.append_assoc] at hv
      obtain ⟨hfg, hr⟩ := hf.good (hv.skip hk)
      obtain ⟨hsg, hr⟩ := hs.good hr
      exact ⟨written_branch hfg hsg (by simp [WrittenStatements]) _, hr⟩
  | @Statement.otherwise next keyword other us vs ws first others body hk hf hs he hb =>
      rw [List.append_assoc, List.append_assoc] at hv
      obtain ⟨hfg, hr⟩ := hf.good (hv.skip hk)
      obtain ⟨hsg, hr⟩ := hs.good hr
      obtain ⟨⟨hbg, -⟩, hr⟩ := hb.good (hr.skip he)
      exact ⟨written_branch hfg hsg hbg _, hr⟩
  | .expression he hn =>
      obtain ⟨hg, hr⟩ := he.good hv
      exact ⟨hg.written.statement, hr⟩
  | @Statement.terminated next semicolon us e he hs =>
      rw [List.append_assoc] at hv
      obtain ⟨hg, hr⟩ := he.good hv
      exact ⟨hg.written.statement, hr.skip hs⟩

theorem Statements.good {next : Option Token} {ts : List Token} {ss : List Stmt}
    (h : Statements next ts ss) {rest : List Token} (hv : WellLexed false (ts ++ rest)) :
    WrittenStatements ss ∧ WellLexed false rest := by
  match h with
  | .nil => exact ⟨by simp [WrittenStatements], hv⟩
  | @Statements.cons next us vs s ss h hs =>
      rw [List.append_assoc] at hv
      obtain ⟨hg, hr⟩ := h.good hv
      obtain ⟨hgs, hr⟩ := hs.good hr
      exact ⟨List.forall_mem_cons.mpr ⟨hg, hgs⟩, hr⟩

theorem Guarded.good {ts : List Token} {c : Clause} (h : Guarded ts c) {rest : List Token}
    (hv : WellLexed false (ts ++ rest)) : WrittenClause c ∧ WellLexed false rest := by
  match h with
  | @Guarded.mk opening closing us vs condition body ho he hc hb =>
      rw [List.append_assoc] at hv
      obtain ⟨hg, hr⟩ := he.good (hv.skip ho)
      obtain ⟨hbg, hr⟩ := hb.good (hr.skip hc)
      exact ⟨⟨hg.written, hbg⟩, hr⟩

theorem Alternatives.good {next : Option Token} {ts : List Token} {cs : List Clause}
    (h : Alternatives next ts cs) {rest : List Token} (hv : WellLexed false (ts ++ rest)) :
    (∀ c ∈ cs, WrittenClause c) ∧ WellLexed false rest := by
  match h with
  | .nil hn => exact ⟨by simp, hv⟩
  | @Alternatives.cons next keyword us vs c cs hk hc hs =>
      rw [List.append_assoc] at hv
      obtain ⟨hg, hr⟩ := hc.good (hv.skip hk)
      obtain ⟨hgs, hr⟩ := hs.good hr
      exact ⟨List.forall_mem_cons.mpr ⟨hg, hgs⟩, hr⟩

theorem Block.good {ts : List Token} {body : List Stmt} (h : Block ts body) {rest : List Token}
    (hv : WellLexed false (ts ++ rest)) :
    (WrittenStatements body ∧ body ≠ []) ∧ WellLexed false rest := by
  match h with
  | @Block.mk opening closing us s ss ho hb hc =>
      rw [List.append_assoc] at hv
      obtain ⟨hg, hr⟩ := hb.good (hv.skip ho)
      exact ⟨⟨hg, by simp⟩, hr.skip hc⟩

end

end Scripting.Grammar

namespace Scripting.Format

/-- What is written for statements is read as these statements, with the white space of declared
strings made even. -/
theorem WrittenStatements.read {p : Program} (h : WrittenStatements p) :
    ∃ q, Program.ofSource p.format = .ok q ∧ q.SameUpToLines p.normalize := by
  obtain ⟨ts, last, q, hw, hs, hq⟩ := h.lines 0 1
  have hl := hw [] [] (.nil last)
  rw [List.append_nil, List.append_nil] at hl
  obtain ⟨htokens, herrors⟩ := hl.scan
  refine ⟨q, ?_, hq⟩
  rw [Program.format, Program.ofSource_of_no_errors herrors, htokens]
  exact Program.ofTokens_of_grammar _ (hs none rfl)

end Scripting.Format

namespace Scripting.Program

open Format

/-- What is written for a program that was read is read as that program again, its
declared strings made even and its lines apart. -/
theorem ofSource_format {s : Text} {p : Program} (h : ofSource s = .ok p) :
    ∃ q, ofSource p.format = .ok q ∧ SameUpToLines q p.normalize := by
  obtain ⟨he, ht⟩ := ofTokens_of_ofSource h
  have hg : Grammar.Statements none _ p := grammar_of_ofTokens ht
  have hv := wellLexed_ofSource he
  rw [← List.append_nil (Scan.ofSource s).tokens] at hv
  exact (hg.good hv).1.read

/-- A declared string with a tab and two spaces, and an assignment as an operand. -/
theorem ofSource_format_uneven :
    ∃ p q, ofSource (Text.utf8 "let s : string = \"a\t b\" ; x.y = (z = 1.50) + f(\"c\")") = .ok p ∧
      p.format = Text.utf8 "let s: string = \"a b\";\nx.y = ((z = 1.5) + f(\"c\"));\n" ∧
      ofSource p.format = .ok q ∧ SameUpToLines q p.normalize := by
  have hb : (ofSource (Text.utf8
      "let s : string = \"a\t b\" ; x.y = (z = 1.50) + f(\"c\")")).toOption.map format =
        some (Text.utf8 "let s: string = \"a b\";\nx.y = ((z = 1.5) + f(\"c\"));\n") := by
    decide +kernel
  obtain ⟨p, hp, hf⟩ := Option.map_eq_some_iff.mp hb
  obtain ⟨q, hq, hs⟩ := ofSource_format (Reading.eq_ok_of_toOption hp)
  exact ⟨p, q, Reading.eq_ok_of_toOption hp, hf, hq, hs⟩

end Scripting.Program
