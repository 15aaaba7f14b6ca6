import Scripting.Proofs.Grammar.Lines
import Scripting.Proofs.Grammar.Soundness
import Scripting.Proofs.Parse.Extension

/-!
The lines that a tree keeps. Those of a program that was read from a source are lines of
its tokens, since the tree changes with the lines of the tokens and with nothing else. The
first line of a source is line one.
-/

namespace Scripting

mutual

def Expr.lines : Expr → List Nat
  | .assign target line value => line :: (target.lines ++ value.lines)
  | .binary left _ line right => line :: (left.lines ++ right.lines)
  | .call callee line arguments => line :: (callee.lines ++ Expr.linesEach arguments)
  | .member object line key => line :: key.line :: object.lines
  | .index object line key => line :: (object.lines ++ key.lines)
  | .name name => [name.line]
  | .number _ | .text _ | .bool _ => []
  | .object properties => Property.linesEach properties

def Expr.linesEach : List Expr → List Nat
  | [] => []
  | e :: rest => e.lines ++ Expr.linesEach rest

def Property.lines : Property → List Nat
  | .shorthand key => [key.line]
  | .pair key value => key.line :: value.lines

def Property.linesEach : List Property → List Nat
  | [] => []
  | p :: rest => p.lines ++ Property.linesEach rest

end

mutual

def Stmt.lines : Stmt → List Nat
  | .expr expression => expression.lines
  | .declare _ name _ none => [name.line]
  | .declare _ name _ (some value) => name.line :: value.lines
  | .func name parameters body =>
    name.line :: (parameters.map Name.line ++ Stmt.linesEach body)
  | .branch line first others otherwise =>
    line :: (first.lines ++ Clause.linesEach others ++ Stmt.linesEach otherwise)

def Stmt.linesEach : List Stmt → List Nat
  | [] => []
  | s :: rest => s.lines ++ Stmt.linesEach rest

def Clause.lines : Clause → List Nat
  | .mk condition body => condition.lines ++ Stmt.linesEach body

def Clause.linesEach : List Clause → List Nat
  | [] => []
  | c :: rest => c.lines ++ Clause.linesEach rest

end

def Program.lines (p : Program) : List Nat := Stmt.linesEach p

variable (f : Nat → Nat)

mutual

theorem Expr.lines_mapLines (e : Expr) : (e.mapLines f).lines = e.lines.map f := by
  match e with
  | .assign target line value | .binary target _ line value | .index target line value =>
      simp only [Expr.mapLines, Expr.lines, List.map_cons, List.map_append,
        target.lines_mapLines, value.lines_mapLines]
  | .call callee line arguments =>
      simp only [Expr.mapLines, Expr.lines, List.map_cons, List.map_append,
        callee.lines_mapLines, Expr.linesEach_mapLines arguments]
  | .member object line key =>
      simp only [Expr.mapLines, Expr.lines, List.map_cons, object.lines_mapLines, Name.mapLine]
  | .name _ | .number _ | .text _ | .bool _ => rfl
  | .object properties =>
      simp only [Expr.mapLines, Expr.lines, Property.linesEach_mapLines properties]

theorem Expr.linesEach_mapLines (es : List Expr) :
    Expr.linesEach (Expr.mapLinesEach f es) = (Expr.linesEach es).map f := by
  match es with
  | [] => rfl
  | e :: rest =>
      simp only [Expr.mapLinesEach, Expr.linesEach, List.map_append, e.lines_mapLines,
        Expr.linesEach_mapLines rest]

theorem Property.lines_mapLines (p : Property) : (p.mapLines f).lines = p.lines.map f := by
  match p with
  | .shorthand key => rfl
  | .pair key value =>
      simp only [Property.mapLines, Property.lines, List.map_cons, value.lines_mapLines,
        Name.mapLine]

theorem Property.linesEach_mapLines (ps : List Property) :
    Property.linesEach (Property.mapLinesEach f ps) = (Property.linesEach ps).map f := by
  match ps with
  | [] => rfl
  | p :: rest =>
      simp only [Property.mapLinesEach, Property.linesEach, List.map_append, p.lines_mapLines,
        Property.linesEach_mapLines rest]

end

mutual

theorem Stmt.lines_mapLines (s : Stmt) : (s.mapLines f).lines = s.lines.map f := by
  match s with
  | .expr expression => simp only [Stmt.mapLines, Stmt.lines, expression.lines_mapLines]
  | .declare constant name type none => rfl
  | .declare constant name type (some value) =>
      simp only [Stmt.mapLines, Option.map_some, Stmt.lines, List.map_cons, value.lines_mapLines,
        Name.mapLine]
  | .func name parameters body =>
      simp only [Stmt.mapLines, Stmt.lines, List.map_cons, List.map_append, List.map_map,
        Stmt.linesEach_mapLines body, Name.mapLine]
      rfl
  | .branch line first others otherwise =>
      simp only [Stmt.mapLines, Stmt.lines, List.map_cons, List.map_append, first.lines_mapLines,
        Clause.linesEach_mapLines others, Stmt.linesEach_mapLines otherwise]

theorem Stmt.linesEach_mapLines (ss : List Stmt) :
    Stmt.linesEach (Stmt.mapLinesEach f ss) = (Stmt.linesEach ss).map f := by
  match ss with
  | [] => rfl
  | s :: rest =>
      simp only [Stmt.mapLinesEach, Stmt.linesEach, List.map_append, s.lines_mapLines,
        Stmt.linesEach_mapLines rest]

theorem Clause.lines_mapLines (c : Clause) : (c.mapLines f).lines = c.lines.map f := by
  match c with
  | .mk condition body =>
      simp only [Clause.mapLines, Clause.lines, List.map_append, condition.lines_mapLines,
        Stmt.linesEach_mapLines body]

theorem Clause.linesEach_mapLines (cs : List Clause) :
    Clause.linesEach (Clause.mapLinesEach f cs) = (Clause.linesEach cs).map f := by
  match cs with
  | [] => rfl
  | c :: rest =>
      simp only [Clause.mapLinesEach, Clause.linesEach, List.map_append, c.lines_mapLines,
        Clause.linesEach_mapLines rest]

end

theorem Program.lines_ofSource {s : Text} {p : Program} (h : ofSource s = .ok p) :
    ∀ line ∈ p.lines, ∃ t ∈ (Scan.ofSource s).tokens, t.line = line := by
  obtain ⟨-, hp⟩ := ofTokens_of_ofSource h
  -- a change of lines that moves all lines but those of the tokens
  let f (n : Nat) : Nat := if ∃ t ∈ (Scan.ofSource s).tokens, t.line = n then n else n + 1
  have ht : (Scan.ofSource s).tokens.map (Token.mapLine f) = (Scan.ofSource s).tokens := by
    refine (List.map_congr_left fun t ht => ?_).trans (List.map_id _)
    have hl : f t.line = t.line := if_pos ⟨t, ht, rfl⟩
    exact congrArg (Token.mk t.kind t.lexeme) hl
  have hm : p.mapLines f = p := by
    have hg := (grammar_of_ofTokens hp).mapLines (f := f)
    rw [ht] at hg
    have hq := ofTokens_of_grammar (Scan.ofSource s).endLine hg
    rw [hp] at hq
    exact (Except.ok.inj hq).symm
  have hl : p.lines.map f = p.lines.map id := by
    rw [List.map_id]
    exact (Stmt.linesEach_mapLines f p).symm.trans (congrArg Stmt.linesEach hm)
  intro line hmem
  have hf : f line = line := List.map_eq_map_iff.mp hl line hmem
  by_cases hn : ∃ t ∈ (Scan.ofSource s).tokens, t.line = line
  · exact hn
  · have hs : f line = line + 1 := if_neg hn
    omega

theorem Piece.line_le_of_mem_pieces (quoted : Bool) (line : Nat) (t : Text) :
    ∀ p ∈ pieces quoted line t, line ≤ p.line := by
  fun_induction pieces quoted line t with
  | case1 quoted line => simp
  | case2 quoted line c rest role length hf ih =>
      intro p hp
      obtain rfl | hp := List.mem_cons.mp hp
      · exact Nat.le_refl line
      · have hl := ih p hp
        split at hl <;> omega

theorem Scan.one_le_line {s : Text} {t : Token} (h : t ∈ (ofSource s).tokens) : 1 ≤ t.line := by
  obtain ⟨p, hp, ht⟩ := List.mem_filterMap.mp h
  have hl := Piece.line_le_of_mem_pieces false 1 s p hp
  rw [Piece.token?] at ht
  split at ht
  · cases ht
    exact hl
  · cases ht

end Scripting
