import Scripting.Proofs.Format.Words
import Scripting.Proofs.Token.Spans

/-!
What stands between quotes. The text between two quotes is read as its words, the runs of bytes
without blanks, whatever these bytes are. An expression has them with one space between, a
declared string has each with a space after it, and a backspace at the end.
-/

namespace Scripting

open Piece (isBlank isWordByte newline quoteByte)
open Format (IsWord Lexes Spelled)

/-- The maximal runs of bytes that are not blanks, in order. -/
def Text.chunks (t : Text) : List Text := (t.splitOnP isBlank).filter fun w => !w.isEmpty

namespace Text

theorem chunks_blank {c : UInt8} (hc : isBlank c = true) (t : Text) :
    chunks (c :: t) = chunks t := by
  have hs : List.splitOnP isBlank (c :: t) = [] :: t.splitOnP isBlank := by
    rw [List.splitOnP_cons_eq_if_modifyHead, if_pos hc]
  rw [chunks, hs]
  rfl

/-- A run of bytes that are not blanks is a word, if it goes on to a blank or to the end. -/
theorem chunks_append {w rest : Text} (hn : w ≠ []) (hw : ∀ b ∈ w, isBlank b = false)
    (hr : ∀ c, rest.head? = some c → isBlank c = true) :
    chunks (w ++ rest) = w :: chunks rest := by
  cases rest with
  | nil =>
      rw [List.append_nil, chunks, List.splitOnP_eq_singleton hw]
      simp [hn, chunks]
  | cons c rest =>
      have hc := hr c rfl
      rw [chunks_blank hc, chunks, List.splitOnP_append_cons_of_forall_mem hw c hc]
      simp [hn, chunks]

/-- Words hold every byte that is not a blank. -/
theorem flatten_chunks (t : Text) : t.chunks.flatten = t.filter fun b => !isBlank b := by
  have hf (ws : List Text) : (ws.filter fun w => !w.isEmpty).flatten = ws.flatten := by
    induction ws with
    | nil => rfl
    | cons w ws ih => cases w <;> simp [ih]
  have hs : (t.splitOnP isBlank).flatten = t.filter fun b => !isBlank b := by
    induction t with
    | nil => rfl
    | cons c t ih =>
        rw [List.splitOnP_cons_eq_if_modifyHead]
        split
        · next hc => simp [hc, ih]
        · next hc =>
            cases hp : t.splitOnP isBlank with
            | nil => simp at hp
            | cons w ws =>
                rw [hp] at ih
                simp_all
  rw [chunks, hf, hs]

/-- A text with its words, from its first byte on. -/
inductive Chunked : Text → List Text → Prop
  | nil : Chunked [] []
  | blank {c : UInt8} {t : Text} {ws : List Text} (hc : isBlank c = true) (h : Chunked t ws) :
      Chunked (c :: t) ws
  | word {w t : Text} {ws : List Text} (hn : w ≠ []) (hw : ∀ b ∈ w, isBlank b = false)
      (ht : ∀ c, t.head? = some c → isBlank c = true) (h : Chunked t ws) :
      Chunked (w ++ t) (w :: ws)

/-- The first word of a text that begins with no blank, and what comes after it. -/
theorem exists_first_chunk {c : UInt8} (hc : isBlank c = false) (t : Text) :
    ∃ w rest, c :: t = w ++ rest ∧ w ≠ [] ∧ (∀ b ∈ w, isBlank b = false) ∧
      ∀ d, rest.head? = some d → isBlank d = true := by
  let n := Piece.run (fun b => !isBlank b) t
  refine ⟨c :: t.take n, t.drop n, ?_, List.cons_ne_nil _ _, ?_, ?_⟩
  · rw [List.cons_append, List.take_append_drop]
  · intro b hb
    obtain rfl | hb := List.mem_cons.mp hb
    · exact hc
    · simpa using Piece.of_mem_run hb
  · intro d hd
    simpa using Piece.head?_drop_run _ t hd

theorem chunked (t : Text) : Chunked t t.chunks := by
  induction hl : t.length using Nat.strongRecOn generalizing t with
  | _ n ih =>
      cases t with
      | nil => exact .nil
      | cons c t =>
          cases hc : isBlank c with
          | true =>
              have ht : t.length < n := hl ▸ Nat.lt_succ_self _
              exact chunks_blank hc t ▸ .blank hc (ih _ ht t rfl)
          | false =>
              obtain ⟨w, rest, hs, hn, hw, hr⟩ := exists_first_chunk hc t
              have ht : rest.length < n := by
                rw [← hl, hs, List.length_append]
                exact Nat.lt_add_of_pos_left (List.length_pos_iff.mpr hn)
              rw [hs, chunks_append hn hw hr]
              exact .word hn hw hr (ih _ ht rest rfl)

end Text

namespace Format

/-- What stands between quotes has its words as tokens. -/
theorem lexes_quotation {t : Text} {ws : List Text} (hc : t.Chunked ws) (ht : quoteByte ∉ t)
    (line : Nat) :
    ∃ us, (∀ u ∈ us, u.kind = .word) ∧ us.map Token.lexeme = ws ∧
      ∀ rest ts, Lexes true (line + t.count newline) (Text.utf8 "\"" ++ rest) ts →
        Lexes true line (t ++ (Text.utf8 "\"" ++ rest)) (us ++ ts) := by
  induction hc generalizing line with
  | nil => exact ⟨[], by simp, rfl, fun _ _ h => h⟩
  | @blank c t ws hc _ ih =>
      have hl : (if c = newline then line + 1 else line) + t.count newline =
          line + (c :: t).count newline := by
        rw [List.count_cons]
        by_cases hn : c = newline
        · simp only [hn, if_true, beq_self_eq_true]
          omega
        · simp [hn]
      obtain ⟨us, hk, hx, hus⟩ := ih (fun hm => ht (List.mem_cons_of_mem _ hm)) _
      exact ⟨us, hk, hx, fun rest ts h => .blank hc (hus rest ts (hl ▸ h))⟩
  | @word w t ws hn hw hr _ ih =>
      have hword : IsWord w := by
        refine ⟨hn, fun b hb => ?_⟩
        have hq : b ≠ quoteByte := fun he => ht (List.mem_append_left _ (he ▸ hb))
        simp [isWordByte, hw b hb, hq]
      have hl : line + t.count newline = line + (w ++ t).count newline := by
        have hnl : newline ∉ w := fun hm => absurd (hw _ hm) (by decide)
        rw [List.count_append, List.count_eq_zero.mpr hnl, Nat.zero_add]
      obtain ⟨us, hk, hx, hus⟩ := ih (fun hm => ht (List.mem_append_right _ hm)) line
      refine ⟨⟨.word, w, line⟩ :: us, List.forall_mem_cons.mpr ⟨rfl, hk⟩, congrArg (w :: ·) hx,
        fun rest ts h => ?_⟩
      rw [List.append_assoc]
      refine .word hword (fun d hd => ?_) (hus rest ts (hl ▸ h))
      cases t with
      | nil =>
          cases hd
          rfl
      | cons b t => simp [isWordByte, hr d hd]

/-- A text in quotes is a quote, its words, and a quote. -/
theorem lexes_inQuotes {t : Text} (ht : quoteByte ∉ t) (line : Nat) :
    ∃ us, (∀ u ∈ us, u.kind = .word) ∧ us.map Token.lexeme = t.chunks ∧
      ∀ rest ts, Lexes false (line + t.count newline) rest ts →
        Lexes false line (t.inQuotes ++ rest) (⟨.quote, Text.utf8 "\"", line⟩ :: us ++
          ⟨.quote, Text.utf8 "\"", line + t.count newline⟩ :: ts) := by
  obtain ⟨us, hk, hx, hus⟩ := lexes_quotation t.chunked ht line
  refine ⟨us, hk, hx, fun rest ts h => ?_⟩
  rw [Text.inQuotes, List.append_assoc, List.append_assoc]
  exact .quote (hus rest _ (.quote h))

end Format

namespace Program

open Format (declaredText)

/-- A text that has the tokens of one statement is the program of that statement. -/
theorem ofSource_of_lexes {text : Text} {ts : List Token} {s : Stmt} (hl : Lexes false 1 text ts)
    (hs : Grammar.Statement none ts s) : ofSource text = .ok [s] := by
  have hp : Grammar.Statements none (ts ++ []) [s] := .cons hs .nil
  rw [List.append_nil] at hp
  obtain ⟨ht, he⟩ := hl.scan
  rw [ofSource_of_no_errors he, ht]
  exact ofTokens_of_grammar _ hp

theorem ofSource_inQuotes {t : Text} (ht : quoteByte ∉ t) :
    ofSource t.inQuotes = .ok [.expr (.text (Text.join (Text.utf8 " ") t.chunks))] := by
  obtain ⟨us, hk, hx, hus⟩ := Format.lexes_inQuotes ht 1
  have hl := hus [] [] (.nil _)
  rw [List.append_nil] at hl
  have hp : Grammar.Primary (⟨.quote, Text.utf8 "\"", 1⟩ :: us ++
      [⟨.quote, Text.utf8 "\"", 1 + t.count newline⟩]) _ := .text rfl hk rfl
  have he : Grammar.Expression none _ _ :=
    .operand (.sum (.term (.factor (.member (.primary hp) rfl rfl) rfl) rfl) rfl) rfl
  rw [← hx]
  exact ofSource_of_lexes hl (.expression he rfl)

/-- The tokens of a declared string. -/
theorem declared_of_tokens {constant : Bool} {keyword name colon type equal opening closing
    semicolon : Token} {us : List Token}
    (hk : keyword.kind = if constant then .constKeyword else .letKeyword)
    (hn : name.kind = .identifier) (hc : colon.kind = .colon)
    (hy : type.lexeme = Text.utf8 "string") (he : equal.kind = .equal)
    (ho : opening.kind = .quote) (hw : ∀ u ∈ us, u.kind = .word) (hq : closing.kind = .quote)
    (hs : semicolon.kind = .semicolon) :
    Grammar.Statement none (keyword :: name :: colon :: type :: equal ::
        (opening :: us ++ [closing, semicolon]))
      (.declare constant ⟨name.lexeme, name.line⟩ (some (Text.utf8 "string"))
        (some (.text (declaredText (us.map Token.lexeme))))) := by
  have hv : Grammar.Initializer (some type.lexeme) (some semicolon) (opening :: us ++ [closing])
      (.text (declaredText (us.map Token.lexeme))) := by
    refine .text (congrArg some hy) ho (fun u hu hq => ?_) hq
    cases (hw u hu).symm.trans hq
  have hd : Grammar.Statement none _ _ := .define hk hn (.some hc) he hv hs
  rw [hy] at hd
  simpa using hd

theorem ofSource_declared (constant : Bool) {name : Text} (hn : Spelled .identifier name) {t : Text}
    (ht : quoteByte ∉ t) :
    ofSource (Stmt.keyword constant ++ (Text.utf8 " " ++ (name ++ (Text.utf8 ": string = " ++
      (t.inQuotes ++ Text.utf8 ";"))))) = .ok (ofWords constant ⟨name, 1⟩ t.chunks) := by
  obtain ⟨us, hk, hx, hus⟩ := Format.lexes_inQuotes ht 1
  have hstring : Spelled .identifier (Text.utf8 "string") :=
    .name (c := 0x73) (t := Text.utf8 "tring") rfl (List.all_eq_true.mp rfl)
  have hb (c : UInt8) (rest : Text) (hc : Piece.isNameByte c = false) (hp : c ≠ Piece.point) :=
    Format.breaks_cons hc hp rest
  have hl := hus _ _ (.symbol 0x3B rfl (.nil _))
  have hequal := Lexes.space (.symbol 0x3D rfl (.space hl))
  have hcolon := Lexes.symbol 0x3A rfl (.space (.spelled hstring (hb _ _ rfl (by decide)) hequal))
  have hall := Lexes.keyword constant (.spelled hn (hb _ _ rfl (by decide)) hcolon)
  rw [← hx]
  exact ofSource_of_lexes hall (declared_of_tokens rfl rfl rfl rfl rfl rfl hk rfl rfl)

/-- A text without quotes, put between quotes, keeps its words byte for byte. As an expression it
is their text with one space between; as the value of a declared string it is their text with a
space after each, and a backspace. -/
theorem ofSource_quotation {t : Text} (ht : quoteByte ∉ t) :
    ofSource (Text.utf8 "\"" ++ t ++ Text.utf8 "\"") =
        .ok [.expr (.text (Text.join (Text.utf8 " ") t.chunks))] ∧
      ofSource (Text.utf8 "let x: string = \"" ++ t ++ Text.utf8 "\";") =
        .ok [.declare false ⟨Text.utf8 "x", 1⟩ (some (Text.utf8 "string"))
          (some (.text (t.chunks.flatMap (· ++ Text.utf8 " ") ++ [0x08])))] ∧
      t.chunks.flatten = t.filter fun b => !isBlank b := by
  have hx : Spelled .identifier (Text.utf8 "x") :=
    .name (c := 0x78) (t := []) rfl (List.all_eq_true.mp rfl)
  refine ⟨ofSource_inQuotes ht, ?_, t.flatten_chunks⟩
  have hs : Text.utf8 "let x: string = \"" ++ t ++ Text.utf8 "\";" = Stmt.keyword false ++
      (Text.utf8 " " ++ (Text.utf8 "x" ++ (Text.utf8 ": string = " ++
        (t.inQuotes ++ Text.utf8 ";")))) := by
    rw [Text.inQuotes, List.append_assoc, List.append_assoc]
    rfl
  rw [hs]
  exact ofSource_declared false hx ht

/-- A hash, a keyword, a number, a stray byte and line feeds between quotes. -/
theorem ofSource_quotation_any_bytes :
    let t := Text.utf8 "\n#if  1.5\t" ++ [0xFF] ++ Text.utf8 ");\r\n"
    quoteByte ∉ t ∧
      t.chunks = [Text.utf8 "#if", Text.utf8 "1.5", 0xFF :: Text.utf8 ");"] ∧
      ofSource (Text.utf8 "\"" ++ t ++ Text.utf8 "\"") =
        .ok [.expr (.text (Text.utf8 "#if 1.5 " ++ 0xFF :: Text.utf8 ");"))] ∧
      ofSource (Text.utf8 "let x: string = \"" ++ t ++ Text.utf8 "\";") =
        .ok [.declare false ⟨Text.utf8 "x", 1⟩ (some (Text.utf8 "string"))
          (some (.text (Text.utf8 "#if 1.5 " ++ 0xFF :: Text.utf8 "); \x08")))] := by
  intro t
  have ht : quoteByte ∉ t := by decide +kernel
  have hc : t.chunks = [Text.utf8 "#if", Text.utf8 "1.5", 0xFF :: Text.utf8 ");"] := by
    decide +kernel
  obtain ⟨he, hd, _⟩ := ofSource_quotation ht
  rw [hc] at he hd
  exact ⟨ht, hc, he, hd⟩

end Program

end Scripting
