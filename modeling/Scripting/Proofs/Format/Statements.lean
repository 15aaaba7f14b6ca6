import Scripting.Proofs.Format.Spelling
import Scripting.Proofs.Grammar.Completeness

/-!
What is written for statements is spelled as the same statements, except that the
words of a declared string come back with one space after each.
-/

namespace Scripting

/-- The value of a declaration with the white space of a declared string made even. -/
def Stmt.normalizeValue (type : Option Text) : Expr → Expr
  | .text value =>
    if type = some (Text.utf8 "string") then
      .text ((value.dropSuffix [0x08]).words.flatMap (· ++ Text.utf8 " ") ++ [0x08])
    else .text value
  | value => value

mutual

/-- The statement with the values of its declared strings made even. -/
def Stmt.normalize : Stmt → Stmt
  | .expr expression => .expr expression
  | .declare constant name type value =>
    .declare constant name type (value.map (Stmt.normalizeValue type))
  | .func name parameters body => .func name parameters (Stmt.normalizeEach body)
  | .branch line first others otherwise =>
    .branch line first.normalize (Clause.normalizeEach others) (Stmt.normalizeEach otherwise)

def Stmt.normalizeEach : List Stmt → List Stmt
  | [] => []
  | s :: rest => s.normalize :: Stmt.normalizeEach rest

def Clause.normalize : Clause → Clause
  | .mk condition body => .mk condition (Stmt.normalizeEach body)

def Clause.normalizeEach : List Clause → List Clause
  | [] => []
  | c :: rest => c.normalize :: Clause.normalizeEach rest

end

def Program.normalize (p : Program) : Program := Stmt.normalizeEach p

namespace Format

open Grammar (ahead)

/-- The text has these tokens and ends on a line, whatever follows it. -/
def WritesLines (line last : Nat) (text : Text) (ts : List Token) : Prop :=
  ∀ rest us, Lexes false last rest us → Lexes false line (text ++ rest) (ts ++ us)

/-- Whether a token does not go on with the conditional before it. -/
def separates (next : Option Token) : Bool := !ahead .elifKeyword next && !ahead .elseKeyword next

/-- The text of a statement is spelled as that statement, made even and lines apart. -/
def WrittenStatement (s : Stmt) : Prop :=
  ∀ depth line, ∃ ts last tree, WritesLines line last (s.format depth) ts ∧
    (∀ next, separates next = true → Grammar.Statement next ts tree) ∧
    tree.mapLines (fun _ => 0) = s.normalize.mapLines (fun _ => 0)

def WrittenStatements (ss : List Stmt) : Prop := ∀ s ∈ ss, WrittenStatement s

theorem first_separates {ts : List Token} {next : Option Token} {ss : List Stmt}
    (h : Grammar.Statements next ts ss) (hn : separates next = true) :
    separates (Grammar.first ts next) = true := by
  cases h with
  | nil => exact hn
  | cons h hs =>
      obtain ⟨t, us, rfl, ht⟩ := h.start
      cases hk : t.kind <;> simp_all [Reading.startsStatement, Reading.startsExpression,
        Reading.startsPrimary, Grammar.first, separates, ahead]

theorem WrittenStatements.lines {ss : List Stmt} (h : WrittenStatements ss) (depth line : Nat) :
    ∃ ts last trees, WritesLines line last (Stmt.formatLines depth ss) ts ∧
      (∀ next, separates next = true → Grammar.Statements next ts trees) ∧
      Stmt.mapLinesEach (fun _ => 0) trees =
        Stmt.mapLinesEach (fun _ => 0) (Stmt.normalizeEach ss) := by
  induction ss generalizing line with
  | nil => exact ⟨[], line, [], fun rest us hl => hl, fun next hn => .nil, rfl⟩
  | cons s ss ih =>
      obtain ⟨ts, last, tree, hw, hs, ht⟩ := h s (List.mem_cons_self ..) depth line
      obtain ⟨us, last', trees, hw', hs', ht'⟩ :=
        ih (fun x hx => h x (List.mem_cons_of_mem _ hx)) (last + 1)
      refine ⟨ts ++ us, last', tree :: trees, ?_, fun next hn =>
        .cons (hs _ (first_separates (hs' next hn) hn)) (hs' next hn), ?_⟩
      · intro rest ws hl
        simp only [Stmt.formatLines, Text.concat_cons, Text.concat_nil, List.append_assoc,
          List.nil_append]
        exact .indent _ (hw _ _ (.newline (hw' rest ws hl)))
      · simp only [Stmt.mapLinesEach, Stmt.normalizeEach, ht, ht']

/-- Statements up to the brace that closes their block. -/
theorem WrittenStatements.braces {body : List Stmt} (h : WrittenStatements body)
    (depth line : Nat) :
    ∃ ts last trees, WritesLines line last
        (Stmt.formatLines (depth + 1) body ++ (Text.indent depth ++ Text.utf8 "\x7d"))
        (ts ++ [⟨.rightBrace, Text.utf8 "\x7d", last⟩]) ∧
      Grammar.Statements (some ⟨.rightBrace, Text.utf8 "\x7d", last⟩) ts trees ∧
      Stmt.mapLinesEach (fun _ => 0) trees =
        Stmt.mapLinesEach (fun _ => 0) (Stmt.normalizeEach body) := by
  obtain ⟨ts, last, trees, hw, hs, ht⟩ := h.lines (depth + 1) line
  refine ⟨ts, last, trees, ?_, hs _ rfl, ht⟩
  intro rest us hl
  simp only [List.append_assoc, List.cons_append, List.nil_append]
  exact hw _ _ (.indent _ (.symbol 0x7D rfl hl))

theorem Written.statement {e : Expr} (h : Written e) : WrittenStatement (.expr e) := by
  intro depth line
  obtain ⟨ts, hw, hs⟩ := h line
  refine ⟨ts ++ [⟨.semicolon, Text.utf8 ";", line⟩], line, _, ?_, fun next hn =>
    .terminated (hs.expression rfl) rfl, ?_⟩
  · intro rest us hl
    simp only [Stmt.format, List.append_assoc, List.cons_append, List.nil_append]
    exact hw _ _ (breaks_cons rfl (by decide) _) (.symbol 0x3B rfl hl)
  · simp only [Stmt.mapLines, Stmt.normalize, Expr.mapLines_mapLines]

theorem formatEach_names (names : List Name) :
    Expr.formatEach (names.map Expr.name) = names.map Name.text := by
  induction names with
  | nil => rfl
  | cons name names ih => simp only [List.map_cons, Expr.formatEach, ih, Expr.format]

theorem spelled_func : Spelled .funcKeyword (Text.utf8 "func") :=
  .name (c := 0x66) (t := Text.utf8 "unc") rfl (List.all_eq_true.mp rfl)

theorem written_func {name : Name} (hn : Spelled .identifier name.text) {parameters : List Name}
    (hp : ∀ p ∈ parameters, Spelled .identifier p.text) {body : List Stmt}
    (hb : WrittenStatements body) : WrittenStatement (.func name parameters body) := by
  intro depth line
  have hp : ∀ e ∈ parameters.map Expr.name, Written e := by
    intro e he
    obtain ⟨p, hm, rfl⟩ := List.mem_map.mp he
    exact written_name (hp p hm) _
  obtain ⟨ts, hts, ha⟩ := written_arguments hp line
  obtain ⟨us, last, trees, hus, hs, ht⟩ := hb.braces depth (line + 1)
  rw [formatEach_names] at hts
  rw [Expr.mapLinesEach_name] at ha
  refine ⟨⟨.funcKeyword, Text.utf8 "func", line⟩ :: ⟨.identifier, name.text, line⟩ ::
    ⟨.leftParen, Text.utf8 "(", line⟩ :: ts ++ ⟨.leftBrace, Text.utf8 "\x7b", line⟩ :: us ++
    [⟨.rightBrace, Text.utf8 "\x7d", last⟩], last, _, ?_, fun next hn =>
    .function rfl rfl ha rfl hs rfl, ?_⟩
  · intro rest ws hl
    have hl : Lexes false line (Text.utf8 " \x7b\n" ++ (_ ++ rest))
        (⟨.leftBrace, Text.utf8 "\x7b", line⟩ :: _) :=
      .space (.symbol 0x7B rfl (.newline (hus rest ws hl)))
    have hl := hts _ _ (breaks_cons rfl (by decide) _) hl
    have hf : Text.utf8 "func " = Text.utf8 "func" ++ Text.utf8 " " := rfl
    have hc : Text.utf8 ") \x7b\n" = Text.utf8 ")" ++ Text.utf8 " \x7b\n" := rfl
    simp only [Stmt.format, Text.concat_cons, Text.concat_nil, List.append_nil, List.append_assoc,
      List.cons_append, List.nil_append, hf, hc] at hl ⊢
    refine .spelled spelled_func (breaks_cons rfl (by decide) _) (.space ?_)
    exact .spelled hn (breaks_cons rfl (by decide) _) hl
  · simp only [Stmt.mapLines, Stmt.normalize, ht, List.map_map]
    rfl

/-- A clause whose condition and statements are written as they should be. -/
def WrittenClause : Clause → Prop
  | .mk condition body => Written condition ∧ WrittenStatements body ∧ body ≠ []

theorem mapLinesEach_ne_nil {ss ts : List Stmt} {f g : Nat → Nat}
    (h : Stmt.mapLinesEach f ss = Stmt.mapLinesEach g (Stmt.normalizeEach ts)) (hn : ts ≠ []) :
    ss ≠ [] := by
  rintro rfl
  cases ts with
  | nil => exact hn rfl
  | cons t ts => cases h

/-- A block of at least one statement, from its brace on. -/
theorem written_block {body : List Stmt} (h : WrittenStatements body) (hn : body ≠ [])
    (depth line : Nat) :
    ∃ ts last trees, WritesLines line last (Text.utf8 "\x7b\n" ++
        (Stmt.formatLines (depth + 1) body ++ (Text.indent depth ++ Text.utf8 "\x7d"))) ts ∧
      Grammar.Block ts trees ∧
      Stmt.mapLinesEach (fun _ => 0) trees =
        Stmt.mapLinesEach (fun _ => 0) (Stmt.normalizeEach body) := by
  obtain ⟨ts, last, trees, hw, hs, ht⟩ := h.braces depth (line + 1)
  refine ⟨⟨.leftBrace, Text.utf8 "\x7b", line⟩ :: ts ++ [⟨.rightBrace, Text.utf8 "\x7d", last⟩],
    last, trees, ?_, ?_, ht⟩
  · intro rest us hl
    have hl := hw rest us hl
    rw [List.append_assoc, List.append_assoc]
    rw [List.append_assoc] at hl
    exact .symbol 0x7B rfl (.newline hl)
  · cases trees with
    | nil => exact absurd rfl (mapLinesEach_ne_nil ht hn)
    | cons s ss => exact .mk rfl hs rfl

theorem WrittenClause.clause {c : Clause} (h : WrittenClause c) (depth line : Nat) :
    ∃ ts last tree, WritesLines line last (c.format depth) ts ∧ Grammar.Guarded ts tree ∧
      tree.mapLines (fun _ => 0) = c.normalize.mapLines (fun _ => 0) := by
  obtain ⟨condition, body⟩ := c
  obtain ⟨hc, hb, hn⟩ := h
  obtain ⟨ts, hts, hs⟩ := hc line
  obtain ⟨us, last, trees, hus, hb, ht⟩ := written_block hb hn depth line
  refine ⟨⟨.leftParen, Text.utf8 "(", line⟩ :: ts ++ ⟨.rightParen, Text.utf8 ")", line⟩ :: us, last,
    _, ?_, .mk rfl (hs.expression rfl) rfl hb, ?_⟩
  · intro rest ws hl
    have hl := hus rest ws hl
    have hc : Text.utf8 ") \x7b\n" = Text.utf8 ") " ++ Text.utf8 "\x7b\n" := rfl
    simp only [Clause.format, Text.concat_cons, Text.concat_nil, List.append_nil, List.append_assoc,
      List.cons_append, hc] at hl ⊢
    refine .symbol 0x28 rfl (hts _ _ (breaks_cons rfl (by decide) _) (.symbol 0x29 rfl ?_))
    exact .space hl
  · simp only [Clause.mapLines, Clause.normalize, ht, Expr.mapLines_mapLines]

theorem spelled_if : Spelled .ifKeyword (Text.utf8 "if") :=
  .name (c := 0x69) (t := Text.utf8 "f") rfl (List.all_eq_true.mp rfl)

theorem spelled_elif : Spelled .elifKeyword (Text.utf8 "elif") :=
  .name (c := 0x65) (t := Text.utf8 "lif") rfl (List.all_eq_true.mp rfl)

theorem spelled_else : Spelled .elseKeyword (Text.utf8 "else") :=
  .name (c := 0x65) (t := Text.utf8 "lse") rfl (List.all_eq_true.mp rfl)

theorem written_clauses {cs : List Clause} (h : ∀ c ∈ cs, WrittenClause c) (depth line : Nat) :
    ∃ ts last trees, WritesLines line last (Clause.formatEach depth cs) ts ∧
      (∀ next, ahead .elifKeyword next = false → Grammar.Alternatives next ts trees) ∧
      Clause.mapLinesEach (fun _ => 0) trees =
        Clause.mapLinesEach (fun _ => 0) (Clause.normalizeEach cs) := by
  induction cs generalizing line with
  | nil => exact ⟨[], line, [], fun rest us hl => hl, fun next hn => .nil hn, rfl⟩
  | cons c cs ih =>
      obtain ⟨ts, last, tree, hts, hc, ht⟩ := (h c (List.mem_cons_self ..)).clause depth line
      obtain ⟨us, last', trees, hus, hs, ht'⟩ :=
        ih (fun x hx => h x (List.mem_cons_of_mem _ hx)) last
      refine ⟨⟨.elifKeyword, Text.utf8 "elif", line⟩ :: ts ++ us, last', tree :: trees, ?_,
        fun next hn => .cons rfl hc (hs next hn), ?_⟩
      · intro rest ws hl
        have he : Text.utf8 " elif " = Text.utf8 " " ++ (Text.utf8 "elif" ++ Text.utf8 " ") := rfl
        simp only [Clause.formatEach, Text.concat_cons, Text.concat_nil, List.append_nil,
          List.append_assoc, List.cons_append, he]
        refine .space (.spelled spelled_elif (breaks_cons rfl (by decide) _) (.space ?_))
        exact hts _ _ (hus rest ws hl)
      · simp only [Clause.mapLinesEach, Clause.normalizeEach, ht, ht']

theorem written_branch {first : Clause} (hf : WrittenClause first) {others : List Clause}
    (ho : ∀ c ∈ others, WrittenClause c) {otherwise : List Stmt} (hb : WrittenStatements otherwise)
    (line : Nat) : WrittenStatement (.branch line first others otherwise) := by
  intro depth line
  have hi : Text.utf8 "if " = Text.utf8 "if" ++ Text.utf8 " " := rfl
  obtain ⟨ts, last, tree, hts, hc, ht⟩ := hf.clause depth line
  obtain ⟨us, last', trees, hus, hs, ht'⟩ := written_clauses ho depth last
  cases otherwise with
  | nil =>
      refine ⟨⟨.ifKeyword, Text.utf8 "if", line⟩ :: ts ++ us, last', .branch line tree trees [], ?_,
        fun next hn => ?_, ?_⟩
      · intro rest ws hl
        simp only [Stmt.format, Text.concat_cons, Text.concat_nil, List.append_nil,
          List.append_assoc, List.cons_append, hi, List.isEmpty_nil, if_true]
        refine .spelled spelled_if (breaks_cons rfl (by decide) _) (.space ?_)
        exact hts _ _ (hus rest ws hl)
      · simp only [separates, Bool.and_eq_true, Bool.not_eq_true'] at hn
        exact .conditional rfl hc (hs next hn.1) hn.2
      · simp only [Stmt.mapLines, Stmt.normalize, ht, ht', Stmt.normalizeEach]
  | cons s ss =>
      obtain ⟨vs, last'', body, hvs, hb, ht''⟩ := written_block hb (by simp) depth last'
      refine ⟨⟨.ifKeyword, Text.utf8 "if", line⟩ :: ts ++ us ++
        ⟨.elseKeyword, Text.utf8 "else", last'⟩ :: vs, last'', _, ?_, fun next hn =>
        .otherwise rfl hc (hs _ rfl) rfl hb, ?_⟩
      · intro rest ws hl
        have hl := hvs rest ws hl
        have he : Text.utf8 " else \x7b\n" =
            Text.utf8 " " ++ (Text.utf8 "else" ++ (Text.utf8 " " ++ Text.utf8 "\x7b\n")) := rfl
        simp only [Stmt.format, Text.concat_cons, Text.concat_nil, List.append_nil,
          List.append_assoc, List.cons_append, hi, he, List.isEmpty_cons, Bool.false_eq_true,
          if_false] at hl ⊢
        refine .spelled spelled_if (breaks_cons rfl (by decide) _) (.space ?_)
        refine hts _ _ (hus _ _ (.space ?_))
        exact .spelled spelled_else (breaks_cons rfl (by decide) _) (.space hl)
      · simp only [Stmt.mapLines, Stmt.normalize, ht, ht', ht'']

/-! ## Declarations -/

/-- The text of an annotation, which is nothing if there is none. -/
def typeText : Option Text → Text
  | some type => Text.utf8 ": " ++ type
  | none => []

theorem format_declare (depth : Nat) (constant : Bool) (name : Name) (type : Option Text) :
    (Stmt.declare constant name type none).format depth =
      Text.concat [Stmt.keyword constant, Text.utf8 " ", name.text, typeText type,
        Text.utf8 ";"] := by
  cases type <;> rfl

theorem format_define (depth : Nat) (constant : Bool) (name : Name) (type : Option Text)
    (value : Expr) :
    (Stmt.declare constant name type (some value)).format depth =
      Text.concat [Stmt.keyword constant, Text.utf8 " ", name.text, typeText type,
        Text.utf8 " = ", Stmt.formatValue type value, Text.utf8 ";"] := by
  cases type <;> simp [Stmt.format, typeText]

theorem Lexes.keyword {line : Nat} {rest : Text} {us : List Token} (constant : Bool)
    (h : Lexes false line rest us) :
    Lexes false line (Stmt.keyword constant ++ (Text.utf8 " " ++ rest))
      (⟨if constant then .constKeyword else .letKeyword, Stmt.keyword constant, line⟩ :: us) := by
  have hs : Spelled (if constant then .constKeyword else .letKeyword) (Stmt.keyword constant) := by
    cases constant with
    | false => exact .name (c := 0x6C) (t := Text.utf8 "et") rfl (List.all_eq_true.mp rfl)
    | true => exact .name (c := 0x63) (t := Text.utf8 "onst") rfl (List.all_eq_true.mp rfl)
  exact .spelled hs (breaks_cons rfl (by decide) _) (.space h)

/-- An annotation that some token outside quotes spells, if there is one. -/
def WrittenType (type : Option Text) : Prop := ∀ t ∈ type, ∃ kind, Spelled kind t

theorem WrittenType.annotation {type : Option Text} (h : WrittenType type) (line : Nat) :
    ∃ ts, Writes line (typeText type) ts ∧ Grammar.Annotation ts type ∧
      ∀ rest, breaks rest = true → breaks (typeText type ++ rest) = true := by
  cases type with
  | none => exact ⟨[], fun rest us hb hl => hl, .none, fun rest hb => hb⟩
  | some type =>
      obtain ⟨kind, hk⟩ := h type rfl
      refine ⟨[⟨.colon, Text.utf8 ":", line⟩, ⟨kind, type, line⟩], ?_, .some rfl,
        fun rest hb => breaks_cons rfl (by decide) _⟩
      intro rest us hb hl
      rw [typeText, List.append_assoc]
      exact .symbol 0x3A rfl (.space (.spelled hk hb hl))

theorem written_declare {name : Name} (hn : Spelled .identifier name.text) {type : Option Text}
    (ht : WrittenType type) : WrittenStatement (.declare false name type none) := by
  intro depth line
  obtain ⟨ts, hw, ha, hs⟩ := ht.annotation line
  refine ⟨⟨.letKeyword, Text.utf8 "let", line⟩ :: ⟨.identifier, name.text, line⟩ :: ts ++
    [⟨.semicolon, Text.utf8 ";", line⟩], line, _, ?_, fun next hn => .declare rfl rfl ha rfl, rfl⟩
  intro rest us hl
  simp only [format_declare, Text.concat_cons, Text.concat_nil, List.append_nil, List.append_assoc,
    List.cons_append, List.nil_append]
  have hb : breaks (Text.utf8 ";" ++ rest) = true := breaks_cons rfl (by decide) _
  exact .keyword false (.spelled hn (hs _ hb) (hw _ _ hb (.symbol 0x3B rfl hl)))

/-- The text of a declared value is spelled as that value, made even and lines apart. -/
def WrittenValue (type : Option Text) (value : Expr) : Prop :=
  ∀ line, ∃ ts tree, Writes line (Stmt.formatValue type value) ts ∧
    (∀ next, closes next = true → Grammar.Initializer type next ts tree) ∧
    tree.mapLines (fun _ => 0) = (Stmt.normalizeValue type value).mapLines (fun _ => 0)

theorem written_define {name : Name} (hn : Spelled .identifier name.text) {type : Option Text}
    (ht : WrittenType type) {value : Expr} (hv : WrittenValue type value) (constant : Bool) :
    WrittenStatement (.declare constant name type (some value)) := by
  intro depth line
  obtain ⟨ts, hw, ha, hs⟩ := ht.annotation line
  obtain ⟨us, tree, hu, hi, htree⟩ := hv line
  refine ⟨⟨if constant then .constKeyword else .letKeyword, Stmt.keyword constant, line⟩ ::
    ⟨.identifier, name.text, line⟩ :: ts ++ ⟨.equal, Text.utf8 "=", line⟩ :: us ++
    [⟨.semicolon, Text.utf8 ";", line⟩], line, _, ?_, fun next hn =>
    .define rfl rfl ha rfl (hi _ rfl) rfl, ?_⟩
  · intro rest ws hl
    simp only [format_define, Text.concat_cons, Text.concat_nil, List.append_nil,
      List.append_assoc, List.cons_append, List.nil_append]
    have he : Lexes false line (Text.utf8 " = " ++ _) (⟨.equal, Text.utf8 "=", line⟩ :: _) :=
      .space (.symbol 0x3D rfl (.space
        (hu _ _ (breaks_cons rfl (by decide) _) (.symbol 0x3B rfl hl))))
    have hb : breaks (Text.utf8 " = " ++
        (Stmt.formatValue type value ++ (Text.utf8 ";" ++ rest))) = true :=
      breaks_cons rfl (by decide) _
    exact .keyword constant (.spelled hn (hs _ hb) (hw _ _ hb he))
  · simp only [Stmt.mapLines, Stmt.normalize, Option.map_some, htree]
    rfl

theorem formatValue_eq {type : Option Text} (h : type ≠ some (Text.utf8 "string")) (value : Expr) :
    Stmt.formatValue type value = value.format ∧ Stmt.normalizeValue type value = value := by
  cases value with
  | text value => exact ⟨if_neg h, if_neg h⟩
  | _ => exact ⟨rfl, rfl⟩

/-- An expression as value, where the annotation does not fix its form. -/
theorem Written.value {type : Option Text} (hs : type ≠ some (Text.utf8 "string"))
    (hi : type ≠ some (Text.utf8 "int")) (hb : type ≠ some (Text.utf8 "bool")) {value : Expr}
    (h : Written value) : WrittenValue type value := by
  intro line
  obtain ⟨ts, hw, hst⟩ := h line
  obtain ⟨hf, hn⟩ := formatValue_eq hs value
  refine ⟨ts, value.mapLines fun _ => line, hf ▸ hw, fun next hc =>
    .expression hs hi hb (hst.expression hc), ?_⟩
  rw [hn, Expr.mapLines_mapLines]

theorem writtenValue_number {x : Number} (hf : x.isFinite = true) (hn : x.isNegative = false) :
    WrittenValue (some (Text.utf8 "int")) (.number x) := by
  intro line
  obtain ⟨hl, hx⟩ := Number.positional_literal hf hn
  have hs : Spelled .number x.positional := .number hl (by rw [hx]; exact hf)
  refine ⟨[⟨.number, x.positional, line⟩], _, fun rest us hb h => .spelled hs hb h,
    fun next hc => .number rfl rfl, ?_⟩
  rw [hx]
  rfl

theorem writtenValue_bool (value : Bool) :
    WrittenValue (some (Text.utf8 "bool")) (.bool value) := by
  intro line
  have hs : Spelled .identifier (Text.utf8 (if value then "true" else "false")) := by
    cases value with
    | false => exact .name (c := 0x66) (t := Text.utf8 "alse") rfl (List.all_eq_true.mp rfl)
    | true => exact .name (c := 0x74) (t := Text.utf8 "rue") rfl (List.all_eq_true.mp rfl)
  exact ⟨[⟨.identifier, Text.utf8 (if value then "true" else "false"), line⟩], .bool value,
    fun rest us hb h => .spelled hs hb h, fun next hc => .bool rfl rfl, rfl⟩

theorem writtenValue_text {value : Text}
    (hq : Piece.quoteByte ∉ value.dropSuffix [0x08]) :
    WrittenValue (some (Text.utf8 "string")) (.text value) := by
  intro line
  have hw := words_isWord hq
  generalize hws : (value.dropSuffix [0x08]).words = ws at hw
  have hk : ∀ t ∈ ws.map fun w => (⟨.word, w, line⟩ : Token), t.kind ≠ .quote := by simp
  refine ⟨⟨.quote, Text.utf8 "\"", line⟩ :: ws.map (⟨.word, ·, line⟩) ++
    [⟨.quote, Text.utf8 "\"", line⟩], _, ?_, fun next hc => .text rfl rfl hk rfl, ?_⟩
  · intro rest us hb hl
    rw [Stmt.formatValue, if_pos rfl, hws, List.append_assoc]
    exact .text hw hl
  · rw [map_lexeme_words, Stmt.normalizeValue, if_pos rfl, hws]

end Format

end Scripting
