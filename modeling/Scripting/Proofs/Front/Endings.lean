import Scripting.Proofs.Front.Statements
import Scripting.Proofs.Grammar.Soundness

/-!
The front end as a whole: the lexer and, if it found no error, the parser on its tokens. On every
source it comes to an end without reaching for a byte, a token or a literal that is not there. It
ends with lexical errors, with one error of the parser, or with a program.
-/

namespace Scripting

theorem Piece.length_pieces_le (quoted : Bool) (line : Nat) (t : Text) :
    (pieces quoted line t).length ≤ t.length := by
  fun_induction pieces quoted line t with
  | case1 quoted line => exact Nat.le_refl _
  | case2 quoted line c rest role n hf ih =>
      simp only [dite_eq_ite, List.length_drop] at ih
      simp only [List.length_cons]
      omega

theorem Scan.length_tokens_le (source : Text) : (ofSource source).tokens.length ≤ source.length :=
  Nat.le_trans (List.length_filterMap_le ..) (Piece.length_pieces_le false 1 source)

/-- A token of a kind that is always spelled alike. -/
theorem Piece.Role.Fits.text_eq {quoted : Bool} {after t : Text} {kind : Token.Kind}
    (h : (Piece.Role.token kind).Fits quoted after t) (hf : kind.isFixed = true) :
    t = kind.name := by
  cases h with
  | quote => rfl
  | punctuation hq hp =>
      revert hf
      unfold Piece.punctuation? at hp
      split at hp
      all_goals cases hp
      all_goals decide
  | name hq hc ht ha =>
      revert hf
      rw [Piece.nameKind]
      iterate 6 split; · intro; assumption
      intro hf
      cases hf
  | word | whole | fraction => cases hf

theorem Scan.lexeme_of_mem_ofSource {source : Text} {t : Token} (h : t ∈ (ofSource source).tokens)
    (hf : t.kind.isFixed = true) : t.lexeme = t.kind.name := by
  obtain ⟨quoted, after, hfits⟩ := fits_of_mem_ofSource h
  exact hfits.text_eq hf

namespace Parser

/-- The tokens of a source. -/
def Input.ofSource (source : Text) : Input where
  tokens := (Scan.ofSource source).tokens
  endLine := (Scan.ofSource source).endLine
  inner := fun _ ht => Scan.kind_of_mem_ofSource ht
  spelled := fun _ ht hf => Scan.lexeme_of_mem_ofSource ht hf

/-- How the parser ends: on the token at the end with the tree of a program, or with one error. -/
theorem parse_ends (I : Input) {fuel : Nat} (hf : I.tokens.length < fuel) :
    (∃ program p, parse I.emitted fuel {} = .done (Stmt.nodes program) p ∧
      p.current = I.tokens.length ∧ p.errors = [] ∧
      Program.ofTokens I.endLine I.tokens = .ok program) ∨
    ∃ p e, parse I.emitted fuel {} = .aborted p ∧ p.current ≤ I.tokens.length ∧
      p.errors = [e] ∧ Program.ofTokens I.endLine I.tokens = .error e := by
  have ha := parse_reads I.tokens hf {} ⟨Nat.zero_le _, rfl⟩
  rw [Program.ofTokens_eq]
  generalize parse I.emitted fuel {} = w at ha ⊢
  generalize hy : Reading.statements I.endLine false I.tokens = y at ha
  cases ha with
  | @done program p rest h he =>
      obtain ⟨-, -, -, hn⟩ := (Grammar.statementsSound I.endLine I.tokens).statements false _ _ hy
      have hr : rest = [] := List.head?_eq_none_iff.mp (hn rfl)
      subst hr
      exact .inl ⟨program, p, rfl, h.length_eq, he, rfl⟩
  | @failed e p h he => exact .inr ⟨p, e, rfl, h, he, rfl⟩

-- without the token at the end, or with a number that carries none, the parser does go astray
example : parse [] 1 {} = .astray {} := rfl

example : parse [⟨⟨.number, [0x31], 1⟩, .none⟩, Emitted.of (.atEnd 1)] 2 {} =
    .astray { current := 1 } := rfl

end Parser

/-- What the front end leaves behind: the state of the lexer, that of the parser if it was
started, and the tree of the program if there is one. -/
structure Production where
  lexer : Lexer
  parser : Option Parser
  program : Option (List StmtNode)

namespace Production

/-- Scans a source and, if that gave no error, parses its tokens. An error of the parser leaves no
program. -/
def run (source : Text) (fuel : Nat) : Walked Production Unit :=
  match Lexer.scan source fuel {} with
  | .done () lexer =>
    if lexer.errors.isEmpty then
      match Parser.parse lexer.tokens fuel {} with
      | .done program parser => .done () ⟨lexer, some parser, some program⟩
      | .aborted parser => .done () ⟨lexer, some parser, none⟩
      | .astray parser => .astray ⟨lexer, some parser, none⟩
      | .exhausted parser => .exhausted ⟨lexer, some parser, none⟩
    else .done () ⟨lexer, none, none⟩
  | .aborted lexer => .aborted ⟨lexer, none, none⟩
  | .astray lexer => .astray ⟨lexer, none, none⟩
  | .exhausted lexer => .exhausted ⟨lexer, none, none⟩

/-- The ways in which the front end ends. -/
inductive Ending where
  | lexicalErrors
  | parseError
  | program

/-- That a production is the one of a source with an ending. Where the parser was started, its
cursor is on a token; after a whole program it is on the last one, which is the end. -/
def EndsWith (source : Text) (p : Production) : Ending → Prop
  | .lexicalErrors =>
    p.lexer.errors ≠ [] ∧ p.parser = none ∧ p.program = none ∧
      ∃ e, p.lexer.errors.head? = some e ∧ Program.ofSource source = .error e
  | .parseError =>
    p.lexer.errors = [] ∧ p.program = none ∧
      ∃ parser e, p.parser = some parser ∧ parser.errors = [e] ∧
        parser.current < p.lexer.tokens.length ∧ Program.ofSource source = .error e
  | .program =>
    p.lexer.errors = [] ∧ ∃ parser program, p.program = some (Stmt.nodes program) ∧
      p.parser = some parser ∧ parser.errors = [] ∧
      parser.current + 1 = p.lexer.tokens.length ∧
      (p.lexer.tokens[parser.current]?.map (·.token.kind)) = some .endOfInput ∧
      Program.ofSource source = .ok program

variable {source : Text} {p : Production}

/-- The endings exclude each other. -/
theorem EndsWith.unique {a b : Ending} (ha : p.EndsWith source a) (hb : p.EndsWith source b) :
    a = b := by
  cases a <;> cases b <;> simp_all [EndsWith]

/-- The production with the lexer after the whole source, and an ending. -/
theorem run_scanned (source : Text) {fuel : Nat} (hf : source.length < fuel) :
    ∃ p ending, run source fuel = .done () p ∧ p.lexer = Lexer.scanned source ∧
      p.EndsWith source ending := by
  have hs : Lexer.scan source fuel {} = .done () (Lexer.scanned source) := Lexer.scan_eq source hf
  have ht : (Parser.Input.ofSource source).tokens.length < fuel :=
    Nat.lt_of_le_of_lt (Scan.length_tokens_le source) hf
  simp only [run, hs]
  cases he : (Scan.ofSource source).errors with
  | cons e es =>
      have hp : Program.ofSource source = .error e := by
        rw [Program.ofSource, Program.ofScan, he]
      refine ⟨⟨Lexer.scanned source, none, none⟩, .lexicalErrors, ?_, rfl, ?_⟩
      · simp only [Lexer.scanned, he, List.isEmpty_cons, Bool.false_eq_true, if_false]
      · simp [EndsWith, Lexer.scanned, he, hp]
  | nil =>
      have hp : Program.ofSource source = Program.ofTokens (Scan.ofSource source).endLine
          (Scan.ofSource source).tokens := by
        rw [Program.ofSource, Program.ofScan, he]
      have hempty : (Lexer.scanned source).errors.isEmpty = true := by
        rw [Lexer.scanned, he]
        rfl
      have htokens : (Lexer.scanned source).tokens = (Parser.Input.ofSource source).emitted := rfl
      rw [if_pos hempty, htokens]
      have hend : Ahead (Parser.Input.ofSource source).tokens
          (Parser.Input.ofSource source).tokens.length [] := ⟨Nat.le_refl _, List.drop_length⟩
      have hlength := Lexer.length_scanned source
      obtain ⟨program, parser, hd, hc, hn, ho⟩ | ⟨parser, e, hd, hc, hn, ho⟩ :=
        Parser.parse_ends _ ht
      · refine ⟨⟨Lexer.scanned source, some parser, some (Stmt.nodes program)⟩, .program, ?_, rfl,
          he, parser, program, rfl, rfl, hn, ?_, ?_, hp.trans ho⟩
        · rw [hd]
        · rw [hc]
          exact hlength.symm
        · rw [hc, htokens]
          exact congrArg (Option.map _) (Parser.Input.get_of_ahead hend)
      · refine ⟨⟨Lexer.scanned source, some parser, none⟩, .parseError, ?_, rfl, he, rfl, parser,
          e, rfl, hn, ?_, hp.trans ho⟩
        · rw [hd]
        · rw [hlength]
          exact Nat.lt_succ_of_le hc

/-- On every source the front end comes to an end, within as much fuel as the source is long and
with more fuel too. It has then found all tokens and lexical errors of the source, and it has ended
in exactly one of the three ways. -/
theorem run_ends (source : Text) (more : Nat) :
    ∃ p, run source (source.length + 1 + more) = .done () p ∧
      p.lexer.current = source.length ∧
      p.lexer.tokens = (Scan.ofSource source).withEnd.map Emitted.of ∧
      p.lexer.errors = (Scan.ofSource source).errors ∧
      ∃! ending, p.EndsWith source ending := by
  have hf : source.length < source.length + 1 + more := by omega
  obtain ⟨p, ending, hr, hl, he⟩ := run_scanned source hf
  refine ⟨p, hr, ?_, ?_, ?_, ending, he, fun other ho => ho.unique he⟩
  all_goals rw [hl]; rfl

end Production

end Scripting
