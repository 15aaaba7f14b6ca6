import Scripting.Proofs.Eval.Fuel
import Scripting.Proofs.Machine.Evaluation
import Scripting.Proofs.Machine.Image

/-!
The machine on the trees of programs. It does there what the evaluator does, on the image of its
state: it gives the image of the same value, or fails with the same error, or needs as much fuel. So
it never goes astray, and no value that it stores is missing.
-/

namespace Scripting

open Machine (given lexeme)

variable {α β γ δ ε : Type}

/-- An outcome of the machine is the image of one of the evaluator, whose value has a property. -/
inductive Tracks (image : α → β) (P : α → Prop) : Walked Machine β → Outcome α × State → Prop
  | ok {a : α} {s : State} (h : s.store.Distinct) (ha : P a) :
      Tracks image P (.done (image a) s.machine) (.ok a, s)
  | error {e : RuntimeError} {s : State} (h : s.store.Distinct) :
      Tracks image P (.aborted { s.machine with raised := some e }) (.error e, s)
  | exhausted {s : State} (h : s.store.Distinct) :
      Tracks image P (.exhausted s.machine) (.exhausted, s)

/-- A part of the machine does what a part of the evaluator does. -/
def Follows (image : α → β) (x : Walk Machine β) (y : Eval α) (P : α → Prop := fun _ => True) :
    Prop :=
  ∀ s : State, s.store.Distinct → Tracks image P (x s.machine) (y s)

namespace Follows

variable {image : α → β} {image' : γ → δ} {x : Walk Machine β} {y : Eval α} {P : α → Prop}
  {Q : γ → Prop}

theorem pure {a : α} {b : β} (h : b = image a) (ha : P a) :
    Follows image (Pure.pure b) (Pure.pure a) P := by
  subst h
  exact fun _ hs => .ok hs ha

theorem exhausted : Follows image Walk.exhausted Eval.exhausted P := fun _ hs => .exhausted hs

theorem fail (cause : RuntimeError.Cause) (t : Token) (detail : Text) :
    Follows image (Machine.fail cause (some t) detail) (Eval.fail t.line cause detail) P :=
  fun _ hs => .error hs

theorem bind {f : β → Walk Machine δ} {g : α → Eval γ} (hx : Follows image x y P)
    (hf : ∀ a, P a → Follows image' (f (image a)) (g a) Q) :
    Follows image' (x >>= f) (y >>= g) Q := by
  intro s hs
  have h := hx s hs
  generalize hw : x s.machine = w at h
  generalize hv : y s = v at h
  cases h with
  | @ok a t ht ha =>
      rw [Walk.bind_done hw, Eval.bind_ok hv]
      exact hf a ha t ht
  | error ht =>
      rw [Walk.bind_aborted hw, Eval.bind_error hv]
      exact .error ht
  | exhausted ht =>
      rw [Walk.bind_exhausted hw, Eval.bind_exhausted hv]
      exact .exhausted ht

/-- The value is used by the machine only. -/
theorem map {f : β → Walk Machine δ} {image' : α → δ} (hx : Follows image x y P)
    (hf : ∀ a, f (image a) = Pure.pure (image' a)) : Follows image' (x >>= f) y P := by
  intro s hs
  have h := hx s hs
  generalize hw : x s.machine = w at h
  generalize y s = v at h
  cases h with
  | @ok a t ht ha =>
      rw [Walk.bind_done hw, hf]
      exact .ok ht ha
  | error ht =>
      rw [Walk.bind_aborted hw]
      exact .error ht
  | exhausted ht =>
      rw [Walk.bind_exhausted hw]
      exact .exhausted ht

/-- The value is used by the evaluator only. -/
theorem returning {g : α → γ} {image' : γ → β} (hx : Follows (fun a => image' (g a)) x y P) :
    Follows image' x (y >>= fun a => Pure.pure (g a)) := by
  intro s hs
  have h := hx s hs
  generalize x s.machine = w at h
  generalize hv : y s = v at h
  cases h with
  | ok ht =>
      rw [Eval.bind_ok hv]
      exact .ok ht trivial
  | error ht =>
      rw [Eval.bind_error hv]
      exact .error ht
  | exhausted ht =>
      rw [Eval.bind_exhausted hv]
      exact .exhausted ht

/-- What the evaluator gives is there. -/
theorem given {x : Walk Machine (Option β)} (hx : Follows (fun a => some (image a)) x y P) :
    Follows image (given x) y P := hx.map fun _ => rfl

/-- The evaluator goes on in two steps where the machine makes one. -/
theorem bind_bind {f : β → Walk Machine δ} {k : γ → Eval α} {z : Eval γ} {g : α → Eval ε}
    {image' : ε → δ} {Q : ε → Prop} (hx : Follows image x (z >>= k) P)
    (hf : ∀ a, P a → Follows image' (f (image a)) (g a) Q) :
    Follows image' (x >>= f) (z >>= fun c => k c >>= g) Q := by
  rw [← Eval.bind_assoc]
  exact hx.bind hf

theorem ite {c : Prop} [Decidable c] {x' : Walk Machine β} {y' : Eval α}
    (h : c → Follows image x y P) (h' : ¬ c → Follows image x' y' P) :
    Follows image (if c then x else x') (if c then y else y') P := by
  by_cases hc : c
  · rw [if_pos hc, if_pos hc]
    exact h hc
  · rw [if_neg hc, if_neg hc]
    exact h' hc

end Follows

namespace Machine

open Evaluator (asCondition asKey asObject evalEach evalExpr evalProperties execBlock execClauses
  execStmt)

theorem lexeme_bind (t : Token) (f : Text → Walk Machine β) :
    (lexeme (some t) >>= f) = f t.lexeme := rfl

theorem lexeme_name (name : Name) (f : Text → Walk Machine β) :
    (lexeme (some name.token) >>= f) = f name.text := rfl

/-! ## Operations of the memory -/

theorem operate_follows {image : α → β} {t : Token} {look : Store → Except BindingError α}
    {change : α → Store → Store} {f : Machine → Except BindingError (β × Machine)}
    (h : ∀ s : State, s.store.Distinct → f s.machine = (look s.store).map fun a =>
      (image a, { s with store := change a s.store }.machine))
    (hd : ∀ (s : Store) (a : α), s.Distinct → (change a s).Distinct) :
    Follows image (operate (some t) f) (Eval.onStore t.line look change) := by
  intro s hs
  rw [operate, h s hs, Eval.onStore]
  cases look s.store with
  | ok a => exact .ok (hd s.store a hs) trivial
  | error e => exact .error hs

theorem visitName_follows (scope : Nat) (name : Name) :
    Follows (fun v => some v.datum) (visitName scope (some name.token))
      (Evaluator.lookup scope name) := by
  rw [visitName, lexeme_name]
  refine operate_follows (t := name.token) (fun s _ => ?_) fun _ _ hs => hs
  rw [State.lookup_machine]
  cases s.store.lookup scope name.text <;> rfl

theorem declareName_follows (scope : Nat) (name : Name) (v : Value) (constant : Bool) :
    Follows (fun v => some v.datum) (declareName scope (some name.token) (some v.datum) constant)
      (Evaluator.declare scope name v constant) := by
  rw [declareName, lexeme_name]
  refine Follows.returning (operate_follows (t := name.token) (fun s _ => ?_) fun _ _ hs => ?_)
  · rw [State.declare_machine]
    cases s.store.declarable scope name.text <;> rfl
  · exact hs.bind trivial ..

theorem assignName_follows (scope : Nat) (name : Name) (v : Value) :
    Follows (fun v => some v.datum) (assignName scope (some name.token) v.datum)
      (Evaluator.assign scope name v) := by
  rw [assignName, lexeme_name]
  refine Follows.returning (operate_follows (t := name.token) (fun s hs => ?_) fun _ _ hs => ?_)
  · rw [State.assign_machine s hs]
    cases s.store.assignable scope name.text <;> rfl
  · exact hs.bind trivial ..

theorem openFrame_follows (scope : Nat) :
    Follows id (openFrame scope) (Evaluator.newScope (some scope)) := by
  intro s hs
  have hn := s.newFrame_machine (some scope)
  rw [openFrame, hn]
  exact .ok (hs.newScope _) trivial

theorem keepRecord_follows {fields : Table Value} (hk : fields.keys.Nodup) :
    Follows (fun v => some v.datum) (keepRecord fields.record) (Evaluator.newObject fields) := by
  intro s hs
  rw [keepRecord, s.newRecord_machine]
  exact .ok (a := Value.object _) (hs.newObject ⟨hk, fun _ _ => trivial⟩) trivial

theorem setMember_follows (object : Nat) (key : Text) (v : Value) :
    Follows (fun v => some v.datum) (setMember object key v.datum)
      (Evaluator.setField object key v) := by
  intro s hs
  rw [setMember, s.setField_machine]
  exact .ok (hs.setField trivial ..) trivial

theorem getMember_follows (object : Nat) (key : Text) :
    Follows (fun v => some v.datum) (getMember object key) (Evaluator.getField object key) := by
  intro s hs
  have hg : ((s.machine.record object).fields.get? key).getD (some .null) =
      some (((s.store.fields object).get? key).getD .null).datum := by
    have hf : (s.store.fields object).record.fields.get? key = _ := Table.get?_map ..
    rw [s.record_machine, hf]
    cases (s.store.fields object).get? key <;> rfl
  rw [getMember, Walk.look_eq, hg]
  exact .ok hs trivial

/-! ## Parts of the evaluator -/

theorem applyToken_follows (op : Operator) (line : Nat) (left right : Value) :
    Follows (fun v => some v.datum) (applyToken (some (op.token line)) left.datum right.datum)
      (Evaluator.applyOperator op line left right) := by
  have fails : Follows (fun v : Value => some v.datum)
      (fail .operandKind (some (op.token line)) (left.datum.kind.name ++ Text.utf8 " " ++
        op.symbol ++ Text.utf8 " " ++ right.datum.kind.name))
      (Eval.fail line .operandKind (left.kind.name ++ Text.utf8 " " ++ op.symbol ++
        Text.utf8 " " ++ right.kind.name)) := by
    rw [left.kind_datum, right.kind_datum]
    exact Follows.fail _ _ _
  cases left with
  | number x =>
      cases right with
      | number y =>
          have ha : Operator.applySymbol op.symbol x y = .ok (op.apply x y) := by
            rw [Operator.applySymbol, Operator.ofSymbol?_symbol]
          simp only [Value.datum, applyToken, Evaluator.applyOperator]
          rw [lexeme_bind, Operator.token, ha]
          exact Follows.pure rfl trivial
      | _ => exact fails
  | _ => exact fails

theorem gateInputs_datum (gate : Gate) (arguments : List Value) :
    gateInputs gate (arguments.map Value.datum) = gate.inputs arguments := by
  induction arguments with
  | nil => rfl
  | cons v rest ih =>
      cases v with
      | bool b => rw [List.map_cons, Value.datum, gateInputs, ih, Gate.inputs]
      | _ => rfl

theorem length_inputs {gate : Gate} {arguments : List Value} {inputs : List Bool}
    (h : gate.inputs arguments = .ok inputs) : inputs.length = arguments.length := by
  induction arguments generalizing inputs with
  | nil =>
      cases h
      rfl
  | cons v rest ih =>
      cases v with
      | bool b =>
          rw [Gate.inputs] at h
          cases hr : gate.inputs rest with
          | ok bs =>
              rw [hr] at h
              cases h
              exact congrArg Nat.succ (ih hr)
          | error e =>
              rw [hr] at h
              cases h
      | _ => cases h

/-- A gate finds the inputs that it reaches for. -/
theorem gateOutput?_eq {gate : Gate} {inputs : List Bool} (h : inputs.length = gate.arity) :
    gateOutput? gate inputs = some (gate.output inputs) := by
  cases gate with
  | not =>
      obtain ⟨a, rfl⟩ := List.length_eq_one_iff.mp h
      rfl
  | _ =>
      obtain ⟨a, b, rfl⟩ := List.length_eq_two.mp h
      rfl

theorem mapM_display? {s : State} (hs : s.store.Distinct) (arguments : List Value) :
    (arguments.map Value.datum).mapM s.machine.display? = some (arguments.map s.store.display) := by
  induction arguments with
  | nil => rfl
  | cons v rest ih =>
      rw [List.map_cons, List.mapM_cons, s.display?_machine hs, ih]
      rfl

theorem printLine_follows (host : Host) (line : Nat) (text : Text) :
    Follows (fun v => some v.datum) (printLine host (some (.sign .leftParen line)) text)
      (Evaluator.printLine host line text) := by
  intro s hs
  let closed : RuntimeError := ⟨line, .printerClosed, []⟩
  have hm : printLine host (some (.sign .leftParen line)) text s.machine =
      if host.printLimit.all (s.printed.size < ·) then
        .done (some .null) { s with printed := s.printed.push text }.machine
      else .aborted { s.machine with raised := some closed } := rfl
  have he : Evaluator.printLine host line text s =
      if host.printLimit.all (s.printed.size < ·) then
        (.ok .null, { s with printed := s.printed.push text })
      else (.error closed, s) := rfl
  rw [hm, he]
  by_cases hl : host.printLimit.all (s.printed.size < ·) = true
  · rw [if_pos hl, if_pos hl]
    exact .ok (a := Value.null) hs trivial
  · rw [if_neg hl, if_neg hl]
    exact .error hs

theorem print_follows (host : Host) (scope line : Nat) (arguments : List Value) :
    Follows (fun v => some v.datum)
      (callNative host (some (.sign .leftParen line)) (arguments.map Value.datum) .print)
      (Evaluator.callNative host scope line arguments .print) := by
  intro s hs
  have hg : given (Walk.look fun m : Machine => (arguments.map Value.datum).mapM m.display?)
      s.machine = .done (arguments.map s.store.display) s.machine := by
    rw [given, Walk.bind_done (Walk.look_eq ..), mapM_display? hs]
    rfl
  rw [callNative, Walk.bind_done hg]
  exact printLine_follows host line _ s hs

theorem gate_follows (host : Host) (scope line : Nat) (arguments : List Value) (gate : Gate) :
    Follows (fun v => some v.datum)
      (callNative host (some (.sign .leftParen line)) (arguments.map Value.datum) (.gate gate))
      (Evaluator.callNative host scope line arguments (.gate gate)) := by
  simp only [callNative, Evaluator.callNative, Gate.apply, List.length_map, gateInputs_datum]
  by_cases ha : arguments.length = gate.arity
  · rw [if_pos ha, if_pos ha]
    cases hi : gate.inputs arguments with
    | ok inputs =>
        simp only [gateOutput?_eq ((length_inputs hi).trans ha)]
        exact Follows.pure rfl trivial
    | error cause => exact Follows.fail cause (.sign .leftParen line) []
  · rw [if_neg ha, if_neg ha]
    exact Follows.fail _ (.sign .leftParen line) []

/-- Only a function of the host gives nothing, which is null to the program. -/
theorem callNative_follows {host : Host} (hf : host.functions = .empty) (scope line : Nat)
    (arguments : List Value) (function : Native) :
    Follows (fun v => some v.datum)
      (do return some ((← callNative host (some (.sign .leftParen line))
        (arguments.map Value.datum) function).getD .null))
      (Evaluator.callNative host scope line arguments function) := by
  cases function with
  | print => exact (print_follows host scope line arguments).map fun _ => rfl
  | time =>
      intro s hs
      exact Tracks.ok (a := Value.number (host.clock s.readings))
        (s := { s with readings := s.readings + 1 }) hs trivial
  | gate gate => exact (gate_follows host scope line arguments gate).map fun _ => rfl
  | host name =>
      simp only [Evaluator.callNative, hf]
      exact Follows.pure (a := Value.null) rfl trivial

theorem bindParameters_follows (scope : Nat) (names : List Name) (values : List Value) :
    Follows id (bindParameters scope (Name.tokens names) (values.map Value.datum))
      (Evaluator.bindParameters scope names values) := by
  induction names generalizing values with
  | nil => exact Follows.pure rfl trivial
  | cons name names ih =>
      cases values with
      | nil => exact (declareName_follows scope name .null false).bind fun _ _ => ih []
      | cons v values => exact (declareName_follows scope name v false).bind fun _ _ => ih values

section
variable {evaluate : ExprNode → Walk Machine Datum} {host : Host} {fuel scope : Nat}
  (h : ∀ e : Expr, Follows Value.datum (evaluate e.node) (evalExpr host fuel scope e))
include h

theorem memberObject_follows (object : Expr) (t : Token) :
    Follows id (memberObject evaluate object.node (some t))
      (evalExpr host fuel scope object >>= asObject t.line) := by
  refine (h object).bind fun v _ => ?_
  cases v with
  | object id => exact Follows.pure rfl trivial
  | _ => exact Follows.fail _ t _

theorem memberKey_follows (key : Expr) (t : Token) :
    Follows id (memberKey evaluate key.node true (some t))
      (evalExpr host fuel scope key >>= asKey t.line) := by
  refine (h key).bind fun v _ => ?_
  cases v with
  | text _ | number _ => exact Follows.pure rfl trivial
  | _ => exact Follows.fail _ t _

theorem assignTo_follows (t : Token) (v : Value) (target : Expr) :
    Follows (fun v => some v.datum) (assignTo evaluate scope (some t) v.datum target.node)
      (match target with
        | .name name => Evaluator.assign scope name v
        | .member object line key => do
          let object ← evalExpr host fuel scope object
          let id ← asObject line object
          Evaluator.setField id key.text v
        | .index object line key => do
          let object ← evalExpr host fuel scope object
          let id ← asObject line object
          let key ← evalExpr host fuel scope key
          let key ← asKey line key
          Evaluator.setField id key v
        | _ => Eval.fail t.line .invalidTarget []) := by
  cases target with
  | name name => exact assignName_follows scope name v
  | member object line key =>
      refine (memberObject_follows h object (.sign .dot line)).bind_bind fun id _ => ?_
      exact setMember_follows id key.text v
  | index object line key =>
      refine (memberObject_follows h object (.sign .leftBracket line)).bind_bind fun id _ => ?_
      refine (memberKey_follows h key (.sign .leftBracket line)).bind_bind fun key _ => ?_
      exact setMember_follows id key v
  | _ => exact Follows.fail _ t _

/-- An expression is not missing. -/
theorem propertyValue_follows (key : Option Token) (e : Expr) :
    Follows Value.datum (propertyValue evaluate scope key e.node)
      (evalExpr host fuel scope e) := by
  have hv := h e
  cases e <;> exact hv

theorem initialValue_follows (e : Expr) :
    Follows Value.datum (initialValue evaluate e.node) (evalExpr host fuel scope e) := by
  have hv := h e
  cases e <;> exact hv

theorem truthy_follows (condition : Expr) (t : Token) :
    Follows id (truthy evaluate condition.node (some t))
      (evalExpr host fuel scope condition >>= asCondition t.line) := by
  refine (h condition).bind fun v _ => ?_
  cases v with
  | bool b => exact Follows.pure rfl trivial
  | _ => exact Follows.fail _ t _

end

/-- The name of a function is there if its call is logged. -/
theorem readName_follows (host : Host) (name : Name) (event : Event) :
    Follows id (readName host (some name.token)) (Eval.trace host event) := by
  intro s hs
  rw [readName, Eval.trace, State.trace]
  by_cases ht : host.tracing = true
  · rw [if_pos ht, if_pos ht]
    exact .ok (s := { s with log := s.log.push event }) hs trivial
  · rw [if_neg ht, if_neg ht]
    exact .ok hs trivial

/-! ## The whole -/

/-- With some fuel, each part of the machine does what the evaluator does. -/
structure FollowsAt (host : Host) (fuel : Nat) : Prop where
  expr : ∀ scope e, Follows (fun v => some v.datum) (visitExpr host fuel scope e.node)
    (evalExpr host fuel scope e)
  each : ∀ scope es, Follows (List.map Value.datum) (visitEach host fuel scope (Expr.nodes es))
    (evalEach host fuel scope es)
  properties : ∀ scope ps fields, fields.keys.Nodup →
    Follows Table.record (visitProperties host fuel scope (Property.nodes ps) fields.record)
      (evalProperties host fuel scope ps fields) fun t => t.keys.Nodup
  call : ∀ function closure arguments,
    Follows Value.datum
      (callFunction host fuel (Function.node function) closure (arguments.map Value.datum))
      (Evaluator.callFunction host fuel function closure arguments)
  stmt : ∀ scope st, Follows (fun v => some v.datum) (visitStmt host fuel scope st.node)
    (execStmt host fuel scope st)
  clauses : ∀ scope line cs otherwise,
    Follows Value.datum
      (visitClauses host fuel scope (some (.sign .ifKeyword line)) (Clause.nodes cs)
        (if otherwise.isEmpty then none else some (Stmt.nodes otherwise)))
      (execClauses host fuel scope line cs otherwise)
  block : ∀ scope last ss, Follows Value.datum
    (visitBlock host fuel scope last.datum (Stmt.nodes ss)) (execBlock host fuel scope last ss)

namespace FollowsAt

theorem zero (host : Host) : FollowsAt host 0 where
  expr _ _ := .exhausted
  each _ _ := .exhausted
  properties _ _ _ _ := .exhausted
  call _ _ _ := .exhausted
  stmt _ _ := .exhausted
  clauses _ _ _ _ := .exhausted
  block _ _ _ := .exhausted

variable {host : Host} {fuel : Nat} (h : FollowsAt host fuel)
include h

theorem value (scope : Nat) (e : Expr) :
    Follows Value.datum (given (visitExpr host fuel scope e.node)) (evalExpr host fuel scope e) :=
  (h.expr scope e).given

theorem expr_succ (hf : host.functions = .empty) (scope : Nat) (e : Expr) :
    Follows (fun v => some v.datum) (visitExpr host (fuel + 1) scope e.node)
      (evalExpr host (fuel + 1) scope e) := by
  cases e with
  | assign target line value =>
      refine (h.value scope value).bind fun v _ => ?_
      exact assignTo_follows (h.value scope) (.sign .equal line) v target
  | binary left op line right =>
      refine (h.value scope left).bind fun x _ => (h.value scope right).bind fun y _ => ?_
      exact applyToken_follows op line x y
  | call callee line arguments =>
      refine (h.value scope callee).bind fun v _ => (h.each scope arguments).bind fun vs _ => ?_
      cases v with
      | native function => exact callNative_follows hf scope line vs function
      | func function closure => exact (h.call function closure vs).map fun _ => rfl
      | _ => exact Follows.fail _ (.sign .leftParen line) _
  | member object line key =>
      refine (memberObject_follows (h.value scope) object (.sign .dot line)).bind_bind
        fun id _ => ?_
      exact getMember_follows id key.text
  | index object line key =>
      refine (memberObject_follows (h.value scope) object (.sign .leftBracket line)).bind_bind
        fun id _ => ?_
      refine (memberKey_follows (h.value scope) key (.sign .leftBracket line)).bind_bind
        fun key _ => ?_
      exact getMember_follows id key
  | name name => exact visitName_follows scope name
  | number value => exact Follows.pure rfl trivial
  | text value => exact Follows.pure rfl trivial
  | bool value => exact Follows.pure rfl trivial
  | object properties =>
      exact (h.properties scope properties .empty .nil).bind fun fields => keepRecord_follows

theorem each_succ (scope : Nat) (es : List Expr) :
    Follows (List.map Value.datum) (visitEach host (fuel + 1) scope (Expr.nodes es))
      (evalEach host (fuel + 1) scope es) := by
  cases es with
  | nil => exact Follows.pure rfl trivial
  | cons e rest =>
      refine (h.value scope e).bind fun v _ => (h.each scope rest).bind fun vs _ => ?_
      exact Follows.pure rfl trivial

theorem properties_succ (scope : Nat) (ps : List Property) (fields : Table Value)
    (hk : fields.keys.Nodup) :
    Follows Table.record (visitProperties host (fuel + 1) scope (Property.nodes ps) fields.record)
      (evalProperties host (fuel + 1) scope ps fields) fun t => t.keys.Nodup := by
  cases ps with
  | nil => exact Follows.pure rfl hk
  | cons p rest =>
      cases p with
      | shorthand key =>
          refine (visitName_follows scope key).given.bind fun v _ => ?_
          rw [lexeme_name, Table.record_set]
          exact h.properties scope rest _ (Table.nodup_keys_set hk ..)
      | pair key value =>
          refine (propertyValue_follows (h.value scope) (some key.token) value).bind fun v _ => ?_
          rw [lexeme_name, Table.record_set]
          exact h.properties scope rest _ (Table.nodup_keys_set hk ..)

theorem call_succ (function : Function) (closure : Nat) (arguments : List Value) :
    Follows Value.datum
      (callFunction host (fuel + 1) (Function.node function) closure (arguments.map Value.datum))
      (Evaluator.callFunction host (fuel + 1) function closure arguments) := by
  refine (readName_follows host function.name _).bind fun _ _ => ?_
  refine (openFrame_follows closure).bind fun scope _ => ?_
  refine (bindParameters_follows scope function.parameters arguments).bind fun _ _ => ?_
  exact h.block scope .null function.body

theorem stmt_succ (scope : Nat) (st : Stmt) :
    Follows (fun v => some v.datum) (visitStmt host (fuel + 1) scope st.node)
      (execStmt host (fuel + 1) scope st) := by
  cases st with
  | expr e => exact (h.value scope e).map fun _ => rfl
  | declare constant name type value =>
      cases value with
      | none => exact declareName_follows scope name .null constant
      | some e =>
          refine (initialValue_follows (h.value scope) e).bind fun v _ => ?_
          exact declareName_follows scope name v constant
  | func name parameters body =>
      exact declareName_follows scope name (.func ⟨name, parameters, body⟩ scope) true
  | branch line first others otherwise =>
      obtain ⟨condition, body⟩ := first
      exact (h.clauses scope line (.mk condition body :: others) otherwise).map fun _ => rfl

theorem clauses_succ (scope line : Nat) (cs : List Clause) (otherwise : List Stmt) :
    Follows Value.datum
      (visitClauses host (fuel + 1) scope (some (.sign .ifKeyword line)) (Clause.nodes cs)
        (if otherwise.isEmpty then none else some (Stmt.nodes otherwise)))
      (execClauses host (fuel + 1) scope line cs otherwise) := by
  cases cs with
  | nil =>
      cases otherwise with
      | nil => exact Follows.pure rfl trivial
      | cons st ss =>
          exact (openFrame_follows scope).bind fun inner _ => h.block inner .null (st :: ss)
  | cons c rest =>
      obtain ⟨condition, body⟩ := c
      refine (truthy_follows (h.value scope) condition (.sign .ifKeyword line)).bind_bind
        fun holds _ => ?_
      refine Follows.ite (fun _ => ?_) fun _ => h.clauses scope line rest otherwise
      exact (openFrame_follows scope).bind fun inner _ => h.block inner .null body

theorem block_succ (scope : Nat) (last : Value) (ss : List Stmt) :
    Follows Value.datum (visitBlock host (fuel + 1) scope last.datum (Stmt.nodes ss))
      (execBlock host (fuel + 1) scope last ss) := by
  cases ss with
  | nil => exact Follows.pure rfl trivial
  | cons st rest => exact (h.stmt scope st).given.bind fun v _ => h.block scope v rest

omit h in
theorem all (hf : host.functions = .empty) (fuel : Nat) : FollowsAt host fuel := by
  induction fuel with
  | zero => exact zero host
  | succ fuel ih =>
      exact ⟨ih.expr_succ hf, ih.each_succ, ih.properties_succ, ih.call_succ, ih.stmt_succ,
        ih.clauses_succ, ih.block_succ⟩

end FollowsAt

-- on other trees the machine does fail in these ways, or goes astray
example (host : Host) (x y : Number) :
    visitExpr host 2 0 (.binary (.numeric x) (some ⟨.operator, Text.utf8 "^", 1⟩) (.numeric y)) {} =
      .aborted { raised := some ⟨1, .undefinedOperator, Text.utf8 "^"⟩ } := rfl

example (host : Host) :
    visitExpr host 3 0 (.member (.object []) (.string []) false none) {} =
      .astray { records := #[{}] } := rfl

example (host : Host) : visitStmt host 1 0 (.var none none true .nil) {} = .astray {} := rfl

/-- A property that stands where an expression does is an error for both. -/
theorem property_follows (host : Host) (fuel scope : Nat) (p : Property) :
    Follows (fun v => some v.datum) (visitExpr host (fuel + 1) scope (.property p.node))
      (Evaluator.evalProperty p) := by
  cases p with
  | shorthand key => exact Follows.fail .unhandledNode key.token _
  | pair key value => exact Follows.fail .unhandledNode key.token _

end Machine

end Scripting
