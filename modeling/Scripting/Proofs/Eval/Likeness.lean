import Scripting.Proofs.Eval.Lines
import Scripting.Proofs.Store.Matching

/-!
Two runs side by side, on matching stores, of the same code but for conditionals that the
second one has nested. They print the same lines from some moment on and read the same times,
and no function of the host takes part. If one of them ends, then so does the other one, with
enough fuel, and they have gone the same way: they end with the same error or with matching
values, and their stores match again, with what they have made paired.
-/

namespace Scripting

inductive Outcome.Like {α β : Type} (R : α → β → Prop) : Outcome α → Outcome β → Prop
  | ok {a : α} {b : β} (h : R a b) : Like R (.ok a) (.ok b)
  | error (e : RuntimeError) : Like R (.error e) (.error e)

/-- The surroundings of two runs, the lines printed before each of them, and whether it is the
left one or the right one that is known to end. -/
structure Sides where
  left : Host
  right : Host
  leftLines : Array Text
  rightLines : Array Text
  forth : Bool
  left_functions : left.functions = .empty
  right_functions : right.functions = .empty
  limits : ∀ k, left.printLimit.all (leftLines.size + k < ·) =
    right.printLimit.all (rightLines.size + k < ·)

/-- The run that is known to end has ended. -/
def Sides.Ended (A : Sides) {α β : Type} (o : Outcome α) (o' : Outcome β) : Prop :=
  if A.forth then o ≠ .exhausted else o' ≠ .exhausted

/-- Enough fuel for the other run. A conditional that is nested in another one is four steps
further down than its clause is in a chain. -/
def Sides.Fuels (A : Sides) (n m : Nat) : Prop := if A.forth then 4 * n ≤ m else m ≤ n

structure Sides.Like (A : Sides) (w : Matching) (s t : State) : Prop where
  store : s.store.Like w t.store
  printed : ∃ lines, s.printed = A.leftLines ++ lines ∧ t.printed = A.rightLines ++ lines
  clock : ∀ k, A.left.clock (s.readings + k) = A.right.clock (t.readings + k)

/-- Two computations that, from states that are alike, end alike, if the one ends of which it is
known. -/
def Sides.Sim (A : Sides) (w : Matching) {α β : Type} (R : Matching → α → β → Prop) (x : Eval α)
    (y : Eval β) : Prop :=
  ∀ s t, A.Like w s t → A.Ended (x s).1 (y t).1 →
    ∃ w', w ≤ w' ∧ A.Like w' (x s).2 (y t).2 ∧ Outcome.Like (R w') (x s).1 (y t).1

namespace Sides

open Evaluator

variable {A : Sides} {w : Matching} {α β γ δ : Type} {R : Matching → α → β → Prop}
  {Q : Matching → γ → δ → Prop}

/-- What ends has ended in its first part. -/
theorem Ended.first {x : Eval α} {y : Eval β} {f : α → Eval γ} {g : β → Eval δ} {s t : State}
    (h : A.Ended ((x >>= f) s).1 ((y >>= g) t).1) : A.Ended (x s).1 (y t).1 := by
  have first {α γ : Type} {x : Eval α} {f : α → Eval γ} {s : State}
      (h : ((x >>= f) s).1 ≠ .exhausted) : (x s).1 ≠ .exhausted := by
    intro hx
    exact h (congrArg Prod.fst (Eval.bind_exhausted (Prod.ext hx rfl)))
  rw [Ended] at h ⊢
  split
  · next hA =>
      rw [if_pos hA] at h
      exact first h
  · next hA =>
      rw [if_neg hA] at h
      exact first h

namespace Sim

theorem pure {a : α} {b : β} (h : R w a b) :
    A.Sim w R (Pure.pure a : Eval α) (Pure.pure b : Eval β) :=
  fun _ _ hs _ => ⟨w, w.le_refl, hs, .ok h⟩

theorem fail (line : Nat) (cause : RuntimeError.Cause) (detail : Text) :
    A.Sim w R (Eval.fail line cause detail : Eval α) (Eval.fail line cause detail : Eval β) :=
  fun _ _ hs _ => ⟨w, w.le_refl, hs, .error _⟩

/-- The left run should end, and does not. -/
theorem exhausted_left (hA : A.forth = true) {x : Eval α} {y : Eval β}
    (h : ∀ s, (x s).1 = .exhausted) : A.Sim w R x y := by
  intro s t _ he
  rw [Ended, if_pos hA] at he
  exact absurd (h s) he

/-- The right run should end, and does not. -/
theorem exhausted_right (hA : A.forth = false) {x : Eval α} {y : Eval β}
    (h : ∀ t, (y t).1 = .exhausted) : A.Sim w R x y := by
  intro s t _ he
  rw [Ended, if_neg (Bool.eq_false_iff.mp hA)] at he
  exact absurd (h t) he

theorem bind {x : Eval α} {y : Eval β} {f : α → Eval γ} {g : β → Eval δ} (hx : A.Sim w R x y)
    (hf : ∀ w' a b, w ≤ w' → R w' a b → A.Sim w' Q (f a) (g b)) :
    A.Sim w Q (x >>= f) (y >>= g) := by
  intro s t hs he
  obtain ⟨w', hw, hs', ho⟩ := hx s t hs he.first
  match hxs : x s, hyt : y t with
  | (o, s'), (o', t') =>
      rw [hxs, hyt] at hs' ho
      cases ho with
      | ok hab =>
          rw [Eval.bind_ok hxs, Eval.bind_ok hyt] at he ⊢
          obtain ⟨w'', hw', hs'', ho'⟩ := hf w' _ _ hw hab s' t' hs' he
          exact ⟨w'', Matching.le_trans hw hw', hs'', ho'⟩
      | error e =>
          rw [Eval.bind_error hxs, Eval.bind_error hyt]
          exact ⟨w', hw, hs', .error e⟩

/-- The right run makes a hollow scope first. -/
theorem newHollow {x : Eval α} {g : Nat → Eval β} {i j : Nat} (hij : w.within i j)
    (h : ∀ w' k, w ≤ w' → w'.within i k → A.Sim w' R x (g k)) :
    A.Sim w R x (newScope (some j) >>= g) := by
  intro s t hs he
  obtain ⟨w', hw, hk, hst⟩ := hs.store.newHollow hij
  have ht : newScope (some j) t =
      (.ok (t.store.newScope (some j)).1, { t with store := (t.store.newScope (some j)).2 }) := rfl
  rw [Eval.bind_ok ht] at he ⊢
  have hs' : A.Like w' s { t with store := (t.store.newScope (some j)).2 } :=
    ⟨hst, hs.printed, hs.clock⟩
  obtain ⟨w'', hw', hs'', ho⟩ := h w' _ hw hk s _ hs' he
  exact ⟨w'', Matching.le_trans hw hw', hs'', ho⟩

theorem onStore (line : Nat) {look : Store → Except BindingError α}
    {look' : Store → Except BindingError β} {change : α → Store → Store}
    {change' : β → Store → Store}
    (hl : ∀ s t, s.Like w t → Except.Like (R w) (look s) (look' t))
    (hc : ∀ s t a b, s.Like w t → R w a b → (change a s).Like w (change' b t)) :
    A.Sim w R (Eval.onStore line look change) (Eval.onStore line look' change') := by
  intro s t hs _
  refine ⟨w, w.le_refl, ?_⟩
  have h := hl s.store t.store hs.store
  simp only [Eval.onStore]
  generalize look s.store = x at h ⊢
  generalize look' t.store = y at h ⊢
  cases h with
  | ok hab => exact ⟨⟨hc _ _ _ _ hs.store hab, hs.printed, hs.clock⟩, .ok hab⟩
  | error e => exact ⟨hs, .error _⟩

end Sim

theorem lookup_sim {i j : Nat} (hij : w.within i j) (name : Name) :
    A.Sim w Value.Like (lookup i name) (lookup j name) :=
  .onStore name.line (fun _ _ h => h.lookup hij name.text) fun _ _ _ _ h _ => h

theorem declare_sim {i j : Nat} (hij : w.scopes i j) (name : Name) {v v' : Value}
    (hv : v.Like w v') (constant : Bool) :
    A.Sim w Value.Like (declare i name v constant) (declare j name v' constant) := by
  refine Sim.bind (R := fun _ _ _ => True) (.onStore name.line ?_ ?_) fun w' _ _ hw _ => ?_
  · intro s t h
    rw [h.declarable hij name.text]
    cases t.declarable j name.text with
    | ok _ => exact .ok trivial
    | error e => exact .error e
  · intro s t _ _ h _
    exact h.bind hij name.text ⟨hv, rfl⟩
  · exact .pure (hv.mono hw)

theorem assign_sim {i j : Nat} (hij : w.within i j) (name : Name) {v v' : Value}
    (hv : v.Like w v') : A.Sim w Value.Like (assign i name v) (assign j name v') := by
  refine Sim.bind (R := Matching.scopes) (.onStore name.line ?_ ?_) fun w' _ _ hw _ => ?_
  · intro s t h
    exact h.assignable hij name.text
  · intro s t o o' h ho
    exact h.bind ho name.text ⟨hv, rfl⟩
  · exact .pure (hv.mono hw)

theorem newScope_sim {i j : Nat} (hij : w.within i j) :
    A.Sim w Matching.scopes (newScope (some i)) (newScope (some j)) := by
  intro s t hs _
  obtain ⟨w', hw, hn, hst⟩ := hs.store.newScope hij
  exact ⟨w', hw, ⟨hst, hs.printed, hs.clock⟩, .ok hn⟩

theorem newObject_sim {a b : Table Value} (hab : a.Like (Value.Like w) b) :
    A.Sim w Value.Like (newObject a) (newObject b) := by
  intro s t hs _
  obtain ⟨w', hw, hn, hst⟩ := hs.store.newObject hab
  exact ⟨w', hw, ⟨hst, hs.printed, hs.clock⟩, .ok (.object hn)⟩

theorem getField_sim {i j : Nat} (hij : w.objects i j) (key : Text) :
    A.Sim w Value.Like (getField i key) (getField j key) := by
  intro s t hs _
  refine ⟨w, w.le_refl, hs, .ok ?_⟩
  obtain ⟨ha, hb⟩ | ⟨a, b, ha, hb, hab⟩ := eq_of_rel ((hs.store.fields hij).get? key)
  · rw [ha, hb]
    exact .null
  · rw [ha, hb]
    exact hab

theorem setField_sim {i j : Nat} (hij : w.objects i j) (key : Text) {v v' : Value}
    (hv : v.Like w v') : A.Sim w Value.Like (setField i key v) (setField j key v') :=
  fun _ _ hs _ => ⟨w, w.le_refl, ⟨hs.store.setField hij key hv, hs.printed, hs.clock⟩, .ok hv⟩

theorem asObject_sim (line : Nat) {v v' : Value} (hv : v.Like w v') :
    A.Sim w Matching.objects (asObject line v) (asObject line v') := by
  cases hv with
  | object h => exact .pure h
  | _ => exact .fail _ _ _

theorem asKey_sim (line : Nat) {v v' : Value} (hv : v.Like w v') :
    A.Sim w (fun _ => Eq) (asKey line v) (asKey line v') := by
  cases hv with
  | text t => exact .pure rfl
  | number n => exact .pure rfl
  | _ => exact .fail _ _ _

theorem asCondition_sim (line : Nat) {v v' : Value} (hv : v.Like w v') :
    A.Sim w (fun _ => Eq) (asCondition line v) (asCondition line v') := by
  cases hv with
  | bool b => exact .pure rfl
  | _ => exact .fail _ _ _

theorem applyOperator_sim (op : Operator) (line : Nat) {l l' r r' : Value} (hl : l.Like w l')
    (hr : r.Like w r') :
    A.Sim w Value.Like (applyOperator op line l r) (applyOperator op line l' r') := by
  cases hl <;> cases hr
  case number.number => exact .pure (.number _)
  all_goals exact .fail _ _ _

theorem gate_inputs_eq (gate : Gate) {vs vs' : List Value}
    (h : List.Forall₂ (Value.Like w) vs vs') : gate.inputs vs = gate.inputs vs' := by
  induction h with
  | nil => rfl
  | cons hv _ ih =>
      cases hv with
      | bool b => rw [Gate.inputs, Gate.inputs, ih]
      | _ => rfl

theorem gate_apply_eq (gate : Gate) {vs vs' : List Value}
    (h : List.Forall₂ (Value.Like w) vs vs') : gate.apply vs = gate.apply vs' := by
  rw [Gate.apply, Gate.apply, h.length_eq, gate_inputs_eq gate h]

theorem printLine_sim (line : Nat) (text : Text) :
    A.Sim w Value.Like (printLine A.left line text) (printLine A.right line text) := by
  intro s t hs _
  obtain ⟨lines, hl, hr⟩ := hs.printed
  have hroom : A.left.printLimit.all (s.printed.size < ·) =
      A.right.printLimit.all (t.printed.size < ·) := by
    rw [hl, hr, Array.size_append, Array.size_append]
    exact A.limits lines.size
  refine ⟨w, w.le_refl, ?_⟩
  simp only [printLine, hroom]
  split
  · refine ⟨⟨hs.store, ⟨lines.push text, ?_, ?_⟩, hs.clock⟩, .ok .null⟩
    · rw [hl, Array.append_push]
    · rw [hr, Array.append_push]
  · exact ⟨hs, .error _⟩

theorem callNative_sim (i j line : Nat) {vs vs' : List Value}
    (h : List.Forall₂ (Value.Like w) vs vs') (function : Native) :
    A.Sim w Value.Like (callNative A.left i line vs function)
      (callNative A.right j line vs' function) := by
  cases function with
  | print =>
      intro s t hs
      have hd : vs.map s.store.display = vs'.map t.store.display := by
        induction h with
        | nil => rfl
        | cons hv _ ih => rw [List.map_cons, List.map_cons, ih, hs.store.display hv]
      simp only [callNative, hd]
      exact printLine_sim line _ s t hs
  | time =>
      intro s t hs _
      have ht : A.left.clock s.readings = A.right.clock t.readings := hs.clock 0
      refine ⟨w, w.le_refl, ⟨hs.store, hs.printed, fun k => ?_⟩, .ok ?_⟩
      · simp only [callNative, Nat.add_assoc]
        exact hs.clock (1 + k)
      · rw [ht]
        exact .number _
  | gate gate =>
      simp only [callNative, gate_apply_eq gate h]
      cases ha : gate.apply vs' with
      | ok v =>
          obtain ⟨b, rfl⟩ := gate_apply_bool ha
          exact .pure (.bool b)
      | error cause => exact .fail line cause []
  | host name =>
      -- no such function is known on either side, and both calls give null
      simp only [callNative, A.left_functions, A.right_functions]
      exact .pure .null

theorem trace_sim (event : Event) :
    A.Sim w (fun _ _ _ => True) (Eval.trace A.left event) (Eval.trace A.right event) := by
  have same (host : Host) (s : State) : (s.trace host event).store = s.store ∧
      (s.trace host event).printed = s.printed ∧ (s.trace host event).readings = s.readings := by
    rw [State.trace]
    split <;> exact ⟨rfl, rfl, rfl⟩
  intro s t hs _
  obtain ⟨hl, hlp, hlr⟩ := same A.left s
  obtain ⟨hr, hrp, hrr⟩ := same A.right t
  refine ⟨w, w.le_refl, ⟨?_, ?_, ?_⟩, .ok trivial⟩
  · simp only [Eval.trace, hl, hr]
    exact hs.store
  · simp only [Eval.trace, hlp, hrp]
    exact hs.printed
  · simp only [Eval.trace, hlr, hrr]
    exact hs.clock

theorem values_mono {w' : Matching} (hw : w ≤ w') {vs vs' : List Value}
    (h : List.Forall₂ (Value.Like w) vs vs') : List.Forall₂ (Value.Like w') vs vs' :=
  h.imp fun _ _ hv => hv.mono hw

theorem bindParameters_sim (names : List Name) {i j : Nat} (hij : w.scopes i j)
    {vs vs' : List Value} (h : List.Forall₂ (Value.Like w) vs vs') :
    A.Sim w (fun _ _ _ => True) (bindParameters i names vs) (bindParameters j names vs') := by
  induction names generalizing w vs vs' with
  | nil => exact .pure trivial
  | cons name names ih =>
      cases h with
      | nil =>
          exact (declare_sim hij name .null false).bind fun w' _ _ hw _ => ih (hw.1 _ _ hij) .nil
      | cons hv h =>
          exact (declare_sim hij name hv false).bind fun w' _ _ hw _ =>
            ih (hw.1 _ _ hij) (values_mono hw h)

/-- With this fuel on the two sides, all evaluations in matching scopes go the same way. -/
structure SimAt (A : Sides) (n m : Nat) : Prop where
  expr : ∀ {w : Matching} {i j : Nat}, w.within i j → ∀ e : Expr,
    A.Sim w Value.Like (evalExpr A.left n i e) (evalExpr A.right m j e)
  each : ∀ {w : Matching} {i j : Nat}, w.within i j → ∀ es : List Expr,
    A.Sim w (fun w => List.Forall₂ (Value.Like w)) (evalEach A.left n i es)
      (evalEach A.right m j es)
  properties : ∀ {w : Matching} {i j : Nat}, w.within i j → ∀ (ps : List Property)
    {a b : Table Value}, a.Like (Value.Like w) b →
    A.Sim w (fun w => Table.Like (Value.Like w)) (evalProperties A.left n i ps a)
      (evalProperties A.right m j ps b)
  call : ∀ {w : Matching} {i j : Nat}, w.scopes i j → ∀ (name : Name) (parameters : List Name)
    {body body' : List Stmt}, List.Forall₂ Stmt.Nests body body' →
    ∀ {vs vs' : List Value}, List.Forall₂ (Value.Like w) vs vs' →
    A.Sim w Value.Like (callFunction A.left n ⟨name, parameters, body⟩ i vs)
      (callFunction A.right m ⟨name, parameters, body'⟩ j vs')
  stmt : ∀ {w : Matching} {i j : Nat}, w.scopes i j → ∀ {s s' : Stmt}, s.Nests s' →
    A.Sim w Value.Like (execStmt A.left n i s) (execStmt A.right m j s')
  clauses : ∀ {w : Matching} {i j : Nat}, w.within i j → ∀ (line : Nat) {cs cs' : List Clause}
    {otherwise otherwise' : List Stmt}, List.Forall₂ Clause.Nests cs cs' →
    List.Forall₂ Stmt.Nests otherwise otherwise' →
    A.Sim w Value.Like (execClauses A.left n i line cs otherwise)
      (execClauses A.right m j line cs' otherwise')
  nested : ∀ {w : Matching} {i j : Nat}, w.within i j → ∀ (line : Nat) {c c' : Clause}
    {cs cs' : List Clause} {otherwise otherwise' : List Stmt}, c.Nests c' →
    List.Forall₂ Clause.Nests cs cs' → List.Forall₂ Stmt.Nests otherwise otherwise' →
    A.Sim w Value.Like (execClauses A.left n i line (c :: cs) otherwise)
      (execClauses A.right m j line [c'] (Stmt.following line cs' otherwise'))
  following : ∀ {w : Matching} {i j : Nat}, w.within i j → ∀ (line : Nat) {cs cs' : List Clause}
    {otherwise otherwise' : List Stmt}, List.Forall₂ Clause.Nests cs cs' →
    List.Forall₂ Stmt.Nests otherwise otherwise' →
    A.Sim w Value.Like (execClauses A.left n i line cs otherwise)
      (execClauses A.right m j line [] (Stmt.following line cs' otherwise'))
  block : ∀ {w : Matching} {i j : Nat}, w.scopes i j → ∀ {v v' : Value}, v.Like w v' →
    ∀ {ss ss' : List Stmt}, List.Forall₂ Stmt.Nests ss ss' →
    A.Sim w Value.Like (execBlock A.left n i v ss) (execBlock A.right m j v' ss')

/-- A conditional alone in the block otherwise of another one. -/
theorem execClauses_single (host : Host) (n scope line : Nat) (c : Clause) (cs : List Clause)
    (otherwise : List Stmt) :
    execClauses host (n + 4) scope line [] [.branch line c cs otherwise] =
      newScope (some scope) >>= fun inner =>
        execClauses host (n + 1) inner line (c :: cs) otherwise := by
  have bind_pure (x : Eval Value) : (x >>= fun v => Pure.pure v) = x := by
    funext s
    match hs : x s with
    | (.ok v, t) => rw [Eval.bind_ok hs]; rfl
    | (.error e, t) => rw [Eval.bind_error hs]
    | (.exhausted, t) => rw [Eval.bind_exhausted hs]
  simp only [execClauses, execBlock, execStmt, bind_pure]

theorem execClauses_stalled (host : Host) {n : Nat} (hn : n < 4) (scope line : Nat) (c : Clause)
    (cs : List Clause) (otherwise : List Stmt) (s : State) :
    (execClauses host n scope line [] [.branch line c cs otherwise] s).1 = .exhausted := by
  match n with
  | 0 | 1 | 2 | 3 => rfl

namespace SimAt

theorem zero_left (hA : A.forth = true) (m : Nat) : SimAt A 0 m where
  expr _ _ := .exhausted_left hA fun _ => rfl
  each _ _ := .exhausted_left hA fun _ => rfl
  properties _ _ _ _ _ := .exhausted_left hA fun _ => rfl
  call _ _ _ _ _ _ _ _ _ := .exhausted_left hA fun _ => rfl
  stmt _ _ _ _ := .exhausted_left hA fun _ => rfl
  clauses _ _ _ _ _ _ _ _ := .exhausted_left hA fun _ => rfl
  nested _ _ _ _ _ _ _ _ _ _ _ := .exhausted_left hA fun _ => rfl
  following _ _ _ _ _ _ _ _ := .exhausted_left hA fun _ => rfl
  block _ _ _ _ _ _ _ := .exhausted_left hA fun _ => rfl

theorem zero_right (hA : A.forth = false) (n : Nat) : SimAt A n 0 where
  expr _ _ := .exhausted_right hA fun _ => rfl
  each _ _ := .exhausted_right hA fun _ => rfl
  properties _ _ _ _ _ := .exhausted_right hA fun _ => rfl
  call _ _ _ _ _ _ _ _ _ := .exhausted_right hA fun _ => rfl
  stmt _ _ _ _ := .exhausted_right hA fun _ => rfl
  clauses _ _ _ _ _ _ _ _ := .exhausted_right hA fun _ => rfl
  nested _ _ _ _ _ _ _ _ _ _ _ := .exhausted_right hA fun _ => rfl
  following _ _ _ _ _ _ _ _ := .exhausted_right hA fun _ => rfl
  block _ _ _ _ _ _ _ := .exhausted_right hA fun _ => rfl

section
variable {n m : Nat} (h : SimAt A n m) {i j : Nat}
include h

section
variable (hij : w.within i j)
include hij

theorem expr_succ (e : Expr) :
    A.Sim w Value.Like (evalExpr A.left (n + 1) i e) (evalExpr A.right (m + 1) j e) := by
  cases e with
  | assign target line value =>
      simp only [evalExpr]
      refine (h.expr hij value).bind fun w₁ v v' hw₁ hv => ?_
      -- the values are found first, so they are carried to the matching at the moment of storing
      have hij := Matching.within_mono hw₁ hij
      cases target with
      | name name => exact assign_sim hij name hv
      | member object line key =>
          refine (h.expr hij object).bind fun w₂ o o' hw₂ ho => ?_
          refine (asObject_sim line ho).bind fun w₃ _ _ hw₃ hid => ?_
          exact setField_sim hid key.text ((hv.mono hw₂).mono hw₃)
      | index object line key =>
          refine (h.expr hij object).bind fun w₂ o o' hw₂ ho => ?_
          refine (asObject_sim line ho).bind fun w₃ _ _ hw₃ hid => ?_
          have hij := Matching.within_mono hw₃ (Matching.within_mono hw₂ hij)
          refine (h.expr hij key).bind fun w₄ k k' hw₄ hk => ?_
          refine (asKey_sim line hk).bind fun w₅ t t' hw₅ ht => ?_
          obtain rfl := ht
          exact setField_sim (hw₅.2 _ _ (hw₄.2 _ _ hid)) t
            ((((hv.mono hw₂).mono hw₃).mono hw₄).mono hw₅)
      | _ => exact .fail line .invalidTarget []
  | binary left op line right =>
      simp only [evalExpr]
      refine (h.expr hij left).bind fun w₁ l l' hw₁ hl => ?_
      refine (h.expr (Matching.within_mono hw₁ hij) right).bind fun w₂ r r' hw₂ hr => ?_
      exact applyOperator_sim op line (hl.mono hw₂) hr
  | call callee line arguments =>
      simp only [evalExpr]
      refine (h.expr hij callee).bind fun w₁ v v' hw₁ hv => ?_
      refine (h.each (Matching.within_mono hw₁ hij) arguments).bind fun w₂ vs vs' hw₂ hvs => ?_
      cases hv.mono hw₂ with
      | native function => exact callNative_sim i j line hvs function
      | func name parameters hb hc => exact h.call hc name parameters hb hvs
      | _ => exact .fail line .notCallable _
  | member object line key =>
      simp only [evalExpr]
      refine (h.expr hij object).bind fun w₁ o o' hw₁ ho => ?_
      exact (asObject_sim line ho).bind fun w₂ _ _ _ hid => getField_sim hid key.text
  | index object line key =>
      simp only [evalExpr]
      refine (h.expr hij object).bind fun w₁ o o' hw₁ ho => ?_
      refine (asObject_sim line ho).bind fun w₂ _ _ hw₂ hid => ?_
      have hij := Matching.within_mono hw₂ (Matching.within_mono hw₁ hij)
      refine (h.expr hij key).bind fun w₃ k k' hw₃ hk => ?_
      refine (asKey_sim line hk).bind fun w₄ t t' hw₄ ht => ?_
      obtain rfl := ht
      exact getField_sim (hw₄.2 _ _ (hw₃.2 _ _ hid)) t
  | name name =>
      simp only [evalExpr]
      exact lookup_sim hij name
  | number value =>
      simp only [evalExpr]
      exact .pure (.number value)
  | text value =>
      simp only [evalExpr]
      exact .pure (.text value)
  | bool value =>
      simp only [evalExpr]
      exact .pure (.bool value)
  | object properties =>
      simp only [evalExpr]
      exact (h.properties hij properties .nil).bind fun w' _ _ _ hf => newObject_sim hf

theorem each_succ (es : List Expr) :
    A.Sim w (fun w => List.Forall₂ (Value.Like w)) (evalEach A.left (n + 1) i es)
      (evalEach A.right (m + 1) j es) := by
  cases es with
  | nil =>
      simp only [evalEach]
      exact .pure .nil
  | cons e rest =>
      simp only [evalEach]
      refine (h.expr hij e).bind fun w₁ v v' hw₁ hv => ?_
      refine (h.each (Matching.within_mono hw₁ hij) rest).bind fun w₂ vs vs' hw₂ hvs => ?_
      exact .pure (.cons (hv.mono hw₂) hvs)

theorem properties_succ (ps : List Property) {a b : Table Value} (hab : a.Like (Value.Like w) b) :
    A.Sim w (fun w => Table.Like (Value.Like w)) (evalProperties A.left (n + 1) i ps a)
      (evalProperties A.right (m + 1) j ps b) := by
  match ps with
  | [] =>
      simp only [evalProperties]
      exact .pure hab
  | .shorthand key :: rest =>
      simp only [evalProperties]
      refine (lookup_sim hij key).bind fun w' v v' hw hv => ?_
      exact h.properties (Matching.within_mono hw hij) rest ((hab.mono hw).set key.text hv)
  | .pair key value :: rest =>
      simp only [evalProperties]
      refine (h.expr hij value).bind fun w' v v' hw hv => ?_
      exact h.properties (Matching.within_mono hw hij) rest ((hab.mono hw).set key.text hv)

theorem inner_block {ss ss' : List Stmt} (hs : List.Forall₂ Stmt.Nests ss ss') :
    A.Sim w Value.Like (newScope (some i) >>= fun k => execBlock A.left n k .null ss)
      (newScope (some j) >>= fun k => execBlock A.right m k .null ss') :=
  (newScope_sim hij).bind fun _ _ _ _ hkl => h.block hkl .null hs

/-- A clause is tried before those that come after it. -/
theorem clause_succ (line : Nat) {c c' : Clause} (hc : c.Nests c') {cs cs' : List Clause}
    {otherwise otherwise' : List Stmt}
    (hrest : ∀ {w' : Matching}, w'.within i j →
      A.Sim w' Value.Like (execClauses A.left n i line cs otherwise)
        (execClauses A.right m j line cs' otherwise')) :
    A.Sim w Value.Like (execClauses A.left (n + 1) i line (c :: cs) otherwise)
      (execClauses A.right (m + 1) j line (c' :: cs') otherwise') := by
  obtain ⟨condition, hb⟩ := hc
  simp only [execClauses]
  refine (h.expr hij condition).bind fun w₁ v v' hw₁ hv => ?_
  refine (asCondition_sim line hv).bind fun w₂ b b' hw₂ hb' => ?_
  have hij := Matching.within_mono hw₂ (Matching.within_mono hw₁ hij)
  obtain rfl := hb'
  cases b with
  | true => exact h.inner_block hij hb
  | false => exact hrest hij

theorem clauses_succ (line : Nat) {cs cs' : List Clause} {otherwise otherwise' : List Stmt}
    (hc : List.Forall₂ Clause.Nests cs cs') (ho : List.Forall₂ Stmt.Nests otherwise otherwise') :
    A.Sim w Value.Like (execClauses A.left (n + 1) i line cs otherwise)
      (execClauses A.right (m + 1) j line cs' otherwise') := by
  cases hc with
  | nil =>
      cases ho with
      | nil =>
          simp only [execClauses]
          exact .pure .null
      | cons hs ho =>
          simp only [execClauses]
          exact h.inner_block hij (.cons hs ho)
  | cons hc hcs => exact h.clause_succ hij line hc fun hij => h.clauses hij line hcs ho

end

theorem call_succ (hij : w.scopes i j) (name : Name) (parameters : List Name)
    {body body' : List Stmt} (hb : List.Forall₂ Stmt.Nests body body') {vs vs' : List Value}
    (hvs : List.Forall₂ (Value.Like w) vs vs') :
    A.Sim w Value.Like (callFunction A.left (n + 1) ⟨name, parameters, body⟩ i vs)
      (callFunction A.right (m + 1) ⟨name, parameters, body'⟩ j vs') := by
  simp only [callFunction, hvs.length_eq]
  refine (trace_sim (.called name.text vs'.length)).bind fun w₁ _ _ hw₁ _ => ?_
  refine (newScope_sim (.inl (hw₁.1 _ _ hij))).bind fun w₂ k l hw₂ hkl => ?_
  have hvs := values_mono hw₂ (values_mono hw₁ hvs)
  refine (bindParameters_sim parameters hkl hvs).bind fun w₃ _ _ hw₃ _ => ?_
  exact h.block (hw₃.1 _ _ hkl) .null hb

theorem stmt_succ (hij : w.scopes i j) {s s' : Stmt} (hs : s.Nests s') :
    A.Sim w Value.Like (execStmt A.left (n + 1) i s) (execStmt A.right (m + 1) j s') := by
  cases hs with
  | expr e =>
      simp only [execStmt]
      exact h.expr (.inl hij) e
  | declare constant name type value =>
      cases value with
      | none =>
          simp only [execStmt]
          exact declare_sim hij name .null constant
      | some e =>
          simp only [execStmt]
          refine (h.expr (.inl hij) e).bind fun w' v v' hw hv => ?_
          exact declare_sim (hw.1 _ _ hij) name hv constant
  | func name parameters hb =>
      simp only [execStmt]
      exact declare_sim hij name (.func name parameters hb hij) true
  | branch line hf hc ho =>
      simp only [execStmt]
      exact h.clauses (.inl hij) line (.cons hf hc) ho
  | nested line hf hc ho =>
      simp only [Stmt.nested, execStmt]
      exact h.nested (.inl hij) line hf hc ho

theorem block_succ (hij : w.scopes i j) {v v' : Value} (hv : v.Like w v') {ss ss' : List Stmt}
    (hs : List.Forall₂ Stmt.Nests ss ss') :
    A.Sim w Value.Like (execBlock A.left (n + 1) i v ss) (execBlock A.right (m + 1) j v' ss') := by
  cases hs with
  | nil =>
      simp only [execBlock]
      exact .pure hv
  | cons hs hss =>
      simp only [execBlock]
      exact (h.stmt hij hs).bind fun w' _ _ hw hv => h.block (hw.1 _ _ hij) hv hss

end

/-- The clauses that follow one of them, on the right nested in a hollow scope. -/
theorem following_succ {n m : Nat} (hf : A.Fuels (n + 1) (m + 1)) (h : SimAt A n m)
    (h' : ∀ k, m + 1 = k + 4 → SimAt A n k) {i j : Nat} (hij : w.within i j) (line : Nat)
    {cs cs' : List Clause} {otherwise otherwise' : List Stmt}
    (hc : List.Forall₂ Clause.Nests cs cs') (ho : List.Forall₂ Stmt.Nests otherwise otherwise') :
    A.Sim w Value.Like (execClauses A.left (n + 1) i line cs otherwise)
      (execClauses A.right (m + 1) j line [] (Stmt.following line cs' otherwise')) := by
  cases hc with
  | nil => exact h.clauses_succ hij line .nil ho
  | cons hc hcs =>
      rw [Stmt.following]
      by_cases hm : m + 1 < 4
      · have hA : A.forth = false := by
          cases hA : A.forth with
          | false => rfl
          | true =>
              rw [Fuels, if_pos hA] at hf
              omega
        exact .exhausted_right hA fun t => execClauses_stalled A.right hm j line _ _ _ t
      · obtain ⟨k, hk⟩ : ∃ k, m + 1 = k + 4 := ⟨m - 3, by omega⟩
        rw [hk, execClauses_single]
        refine .newHollow hij fun w' l hw hil => ?_
        exact (h' k hk).clause_succ hil line hc fun hil => (h' k hk).following hil line hcs ho

end SimAt

theorem simAt (A : Sides) {n m : Nat} (hf : A.Fuels n m) : SimAt A n m := by
  induction n generalizing m with
  | zero =>
      cases hA : A.forth with
      | true => exact .zero_left hA m
      | false =>
          rw [Fuels, hA] at hf
          obtain rfl : m = 0 := Nat.le_zero.mp hf
          exact .zero_right hA 0
  | succ n ih =>
      cases m with
      | zero =>
          cases hA : A.forth with
          | true =>
              rw [Fuels, hA, if_pos rfl] at hf
              omega
          | false => exact .zero_right hA (n + 1)
      | succ m =>
          have smaller (k : Nat) (hk : k ≤ m) (hk' : m ≤ k + 3) : SimAt A n k := by
            apply ih
            rw [Fuels] at hf ⊢
            cases hA : A.forth <;>
              simp only [hA, if_true, Bool.false_eq_true, if_false] at hf ⊢ <;> omega
          have h := smaller m (Nat.le_refl m) (Nat.le_add_right m 3)
          have h' (k : Nat) (hk : m + 1 = k + 4) : SimAt A n k :=
            smaller k (by omega) (by omega)
          exact ⟨h.expr_succ, h.each_succ, h.properties_succ, h.call_succ, h.stmt_succ,
            h.clauses_succ,
            fun hij line _ _ _ _ _ _ hc hcs ho =>
              h.clause_succ hij line hc fun hij => h.following hij line hcs ho,
            SimAt.following_succ hf h h', h.block_succ⟩

end Sides

end Scripting
