import Mathlib.Data.Nat.Pairing
import Scripting.Proofs.Program.Lines

/-!
Two trees that are the same up to lines are one tree with a pair of lines at every token, of
which the first lines or the second ones are kept.
-/

namespace Scripting

def firstLine (n : Nat) : Nat := n.unpair.1

def secondLine (n : Nat) : Nat := n.unpair.2

theorem line_paired (l l' : Nat) : ∃ n, firstLine n = l ∧ secondLine n = l' :=
  ⟨Nat.pair l l', congrArg Prod.fst (Nat.unpair_pair l l'),
    congrArg Prod.snd (Nat.unpair_pair l l')⟩

theorem Name.paired {n n' : Name} (h : n.mapLine (fun _ => 0) = n'.mapLine fun _ => 0) :
    ∃ m : Name, m.mapLine firstLine = n ∧ m.mapLine secondLine = n' := by
  obtain ⟨text, line⟩ := n
  obtain ⟨text', line'⟩ := n'
  obtain rfl : text = text' := congrArg Name.text h
  obtain ⟨n, rfl, rfl⟩ := line_paired line line'
  exact ⟨⟨text, n⟩, rfl, rfl⟩

theorem Name.pairedEach {ns ns' : List Name}
    (h : ns.map (Name.mapLine fun _ => 0) = ns'.map (Name.mapLine fun _ => 0)) :
    ∃ ms : List Name, ms.map (Name.mapLine firstLine) = ns ∧
      ms.map (Name.mapLine secondLine) = ns' := by
  induction ns generalizing ns' with
  | nil =>
      obtain rfl := List.map_eq_nil_iff.mp h.symm
      exact ⟨[], rfl, rfl⟩
  | cons n rest ih =>
      cases ns' with
      | nil => cases h
      | cons n' rest' =>
          simp only [List.map_cons, List.cons.injEq] at h
          obtain ⟨m, rfl, rfl⟩ := Name.paired h.1
          obtain ⟨ms, rfl, rfl⟩ := ih h.2
          exact ⟨m :: ms, rfl, rfl⟩

mutual

theorem Expr.paired (e : Expr) {e' : Expr}
    (h : e.mapLines (fun _ => 0) = e'.mapLines fun _ => 0) :
    ∃ r : Expr, r.mapLines firstLine = e ∧ r.mapLines secondLine = e' := by
  match e with
  | .assign target line value =>
      cases e' <;> simp only [Expr.mapLines, Expr.assign.injEq, reduceCtorEq] at h
      case assign target' line' value' =>
        obtain ⟨t, rfl, rfl⟩ := target.paired h.1
        obtain ⟨v, rfl, rfl⟩ := value.paired h.2.2
        obtain ⟨n, rfl, rfl⟩ := line_paired line line'
        exact ⟨.assign t n v, rfl, rfl⟩
  | .binary left op line right =>
      cases e' <;> simp only [Expr.mapLines, Expr.binary.injEq, reduceCtorEq] at h
      case binary left' op' line' right' =>
        obtain ⟨l, rfl, rfl⟩ := left.paired h.1
        obtain ⟨r, rfl, rfl⟩ := right.paired h.2.2.2
        obtain rfl := h.2.1
        obtain ⟨n, rfl, rfl⟩ := line_paired line line'
        exact ⟨.binary l op n r, rfl, rfl⟩
  | .call callee line arguments =>
      cases e' <;> simp only [Expr.mapLines, Expr.call.injEq, reduceCtorEq] at h
      case call callee' line' arguments' =>
        obtain ⟨c, rfl, rfl⟩ := callee.paired h.1
        obtain ⟨a, rfl, rfl⟩ := Expr.pairedEach arguments h.2.2
        obtain ⟨n, rfl, rfl⟩ := line_paired line line'
        exact ⟨.call c n a, rfl, rfl⟩
  | .member object line key =>
      cases e' <;> simp only [Expr.mapLines, Expr.member.injEq, reduceCtorEq] at h
      case member object' line' key' =>
        obtain ⟨o, rfl, rfl⟩ := object.paired h.1
        obtain ⟨k, rfl, rfl⟩ := Name.paired h.2.2
        obtain ⟨n, rfl, rfl⟩ := line_paired line line'
        exact ⟨.member o n k, rfl, rfl⟩
  | .index object line key =>
      cases e' <;> simp only [Expr.mapLines, Expr.index.injEq, reduceCtorEq] at h
      case index object' line' key' =>
        obtain ⟨o, rfl, rfl⟩ := object.paired h.1
        obtain ⟨k, rfl, rfl⟩ := key.paired h.2.2
        obtain ⟨n, rfl, rfl⟩ := line_paired line line'
        exact ⟨.index o n k, rfl, rfl⟩
  | .name name =>
      cases e' <;> simp only [Expr.mapLines, Expr.name.injEq, reduceCtorEq] at h
      obtain ⟨m, rfl, rfl⟩ := Name.paired h
      exact ⟨.name m, rfl, rfl⟩
  | .number value =>
      cases e' <;> simp only [Expr.mapLines, reduceCtorEq] at h
      exact ⟨.number value, rfl, h⟩
  | .text value =>
      cases e' <;> simp only [Expr.mapLines, reduceCtorEq] at h
      exact ⟨.text value, rfl, h⟩
  | .bool value =>
      cases e' <;> simp only [Expr.mapLines, reduceCtorEq] at h
      exact ⟨.bool value, rfl, h⟩
  | .object properties =>
      cases e' <;> simp only [Expr.mapLines, Expr.object.injEq, reduceCtorEq] at h
      obtain ⟨ps, rfl, rfl⟩ := Property.pairedEach properties h
      exact ⟨.object ps, rfl, rfl⟩

theorem Expr.pairedEach (es : List Expr) {es' : List Expr}
    (h : Expr.mapLinesEach (fun _ => 0) es = Expr.mapLinesEach (fun _ => 0) es') :
    ∃ rs, Expr.mapLinesEach firstLine rs = es ∧ Expr.mapLinesEach secondLine rs = es' := by
  match es with
  | [] =>
      cases es' <;> simp only [Expr.mapLinesEach, reduceCtorEq] at h
      exact ⟨[], rfl, rfl⟩
  | e :: rest =>
      cases es' <;> simp only [Expr.mapLinesEach, List.cons.injEq, reduceCtorEq] at h
      obtain ⟨r, rfl, rfl⟩ := e.paired h.1
      obtain ⟨rs, rfl, rfl⟩ := Expr.pairedEach rest h.2
      exact ⟨r :: rs, rfl, rfl⟩

theorem Property.paired (p : Property) {p' : Property}
    (h : p.mapLines (fun _ => 0) = p'.mapLines fun _ => 0) :
    ∃ r : Property, r.mapLines firstLine = p ∧ r.mapLines secondLine = p' := by
  match p with
  | .shorthand key =>
      cases p' <;> simp only [Property.mapLines, Property.shorthand.injEq, reduceCtorEq] at h
      obtain ⟨k, rfl, rfl⟩ := Name.paired h
      exact ⟨.shorthand k, rfl, rfl⟩
  | .pair key value =>
      cases p' <;> simp only [Property.mapLines, Property.pair.injEq, reduceCtorEq] at h
      obtain ⟨k, rfl, rfl⟩ := Name.paired h.1
      obtain ⟨v, rfl, rfl⟩ := value.paired h.2
      exact ⟨.pair k v, rfl, rfl⟩

theorem Property.pairedEach (ps : List Property) {ps' : List Property}
    (h : Property.mapLinesEach (fun _ => 0) ps = Property.mapLinesEach (fun _ => 0) ps') :
    ∃ rs, Property.mapLinesEach firstLine rs = ps ∧
      Property.mapLinesEach secondLine rs = ps' := by
  match ps with
  | [] =>
      cases ps' <;> simp only [Property.mapLinesEach, reduceCtorEq] at h
      exact ⟨[], rfl, rfl⟩
  | p :: rest =>
      cases ps' <;> simp only [Property.mapLinesEach, List.cons.injEq, reduceCtorEq] at h
      obtain ⟨r, rfl, rfl⟩ := p.paired h.1
      obtain ⟨rs, rfl, rfl⟩ := Property.pairedEach rest h.2
      exact ⟨r :: rs, rfl, rfl⟩

end

mutual

theorem Stmt.paired (s : Stmt) {s' : Stmt}
    (h : s.mapLines (fun _ => 0) = s'.mapLines fun _ => 0) :
    ∃ r : Stmt, r.mapLines firstLine = s ∧ r.mapLines secondLine = s' := by
  match s with
  | .expr expression =>
      cases s' <;> simp only [Stmt.mapLines, Stmt.expr.injEq, reduceCtorEq] at h
      obtain ⟨e, rfl, rfl⟩ := expression.paired h
      exact ⟨.expr e, rfl, rfl⟩
  | .declare constant name type none =>
      cases s' <;> simp only [Stmt.mapLines, Stmt.declare.injEq, reduceCtorEq] at h
      obtain ⟨rfl, hn, rfl, hv⟩ := h
      obtain ⟨m, rfl, rfl⟩ := Name.paired hn
      obtain rfl := Option.map_eq_none_iff.mp hv.symm
      exact ⟨.declare constant m type none, rfl, rfl⟩
  | .declare constant name type (some value) =>
      cases s' <;> simp only [Stmt.mapLines, Stmt.declare.injEq, reduceCtorEq] at h
      obtain ⟨rfl, hn, rfl, hv⟩ := h
      obtain ⟨m, rfl, rfl⟩ := Name.paired hn
      obtain ⟨value', rfl, hv'⟩ := Option.map_eq_some_iff.mp hv.symm
      obtain ⟨v, rfl, rfl⟩ := value.paired hv'.symm
      exact ⟨.declare constant m type (some v), rfl, rfl⟩
  | .func name parameters body =>
      cases s' <;> simp only [Stmt.mapLines, Stmt.func.injEq, reduceCtorEq] at h
      obtain ⟨m, rfl, rfl⟩ := Name.paired h.1
      obtain ⟨ms, rfl, rfl⟩ := Name.pairedEach h.2.1
      obtain ⟨b, rfl, rfl⟩ := Stmt.pairedEach body h.2.2
      exact ⟨.func m ms b, rfl, rfl⟩
  | .branch line first others otherwise =>
      cases s' <;> simp only [Stmt.mapLines, Stmt.branch.injEq, reduceCtorEq] at h
      case branch line' first' others' otherwise' =>
        obtain ⟨n, rfl, rfl⟩ := line_paired line line'
        obtain ⟨c, rfl, rfl⟩ := first.paired h.2.1
        obtain ⟨cs, rfl, rfl⟩ := Clause.pairedEach others h.2.2.1
        obtain ⟨b, rfl, rfl⟩ := Stmt.pairedEach otherwise h.2.2.2
        exact ⟨.branch n c cs b, rfl, rfl⟩

theorem Stmt.pairedEach (ss : List Stmt) {ss' : List Stmt}
    (h : Stmt.mapLinesEach (fun _ => 0) ss = Stmt.mapLinesEach (fun _ => 0) ss') :
    ∃ rs, Stmt.mapLinesEach firstLine rs = ss ∧ Stmt.mapLinesEach secondLine rs = ss' := by
  match ss with
  | [] =>
      cases ss' <;> simp only [Stmt.mapLinesEach, reduceCtorEq] at h
      exact ⟨[], rfl, rfl⟩
  | s :: rest =>
      cases ss' <;> simp only [Stmt.mapLinesEach, List.cons.injEq, reduceCtorEq] at h
      obtain ⟨r, rfl, rfl⟩ := s.paired h.1
      obtain ⟨rs, rfl, rfl⟩ := Stmt.pairedEach rest h.2
      exact ⟨r :: rs, rfl, rfl⟩

theorem Clause.paired (c : Clause) {c' : Clause}
    (h : c.mapLines (fun _ => 0) = c'.mapLines fun _ => 0) :
    ∃ r : Clause, r.mapLines firstLine = c ∧ r.mapLines secondLine = c' := by
  match c, c' with
  | .mk condition body, .mk condition' body' =>
      simp only [Clause.mapLines, Clause.mk.injEq] at h
      obtain ⟨e, rfl, rfl⟩ := condition.paired h.1
      obtain ⟨b, rfl, rfl⟩ := Stmt.pairedEach body h.2
      exact ⟨.mk e b, rfl, rfl⟩

theorem Clause.pairedEach (cs : List Clause) {cs' : List Clause}
    (h : Clause.mapLinesEach (fun _ => 0) cs = Clause.mapLinesEach (fun _ => 0) cs') :
    ∃ rs, Clause.mapLinesEach firstLine rs = cs ∧ Clause.mapLinesEach secondLine rs = cs' := by
  match cs with
  | [] =>
      cases cs' <;> simp only [Clause.mapLinesEach, reduceCtorEq] at h
      exact ⟨[], rfl, rfl⟩
  | c :: rest =>
      cases cs' <;> simp only [Clause.mapLinesEach, List.cons.injEq, reduceCtorEq] at h
      obtain ⟨r, rfl, rfl⟩ := c.paired h.1
      obtain ⟨rs, rfl, rfl⟩ := Clause.pairedEach rest h.2
      exact ⟨r :: rs, rfl, rfl⟩

end

theorem Program.SameUpToLines.paired {p q : Program} (h : p.SameUpToLines q) :
    ∃ r : Program, r.mapLines firstLine = p ∧ r.mapLines secondLine = q := Stmt.pairedEach p h

end Scripting
