import Scripting.Proofs.Token.Spans
import Scripting.Text.Blank

/-!
The tokens of a text that is written token by token. A token keeps its kind and its
text wherever it stands, as long as what follows does not go on with it; between
quotes the words of a text are its tokens.
-/

namespace Scripting.Format

open Piece (isBlank isLetter isNameByte isWordByte nameKind numberRun pieces point
  punctuation? run)
open Number (AllDigits IsLiteral isDigit)

/-- The texts of the tokens outside quotes, by their kind. -/
inductive Spelled : Token.Kind → Text → Prop
  | punctuation {c : UInt8} {kind : Token.Kind} (h : punctuation? c = some kind) : Spelled kind [c]
  | number {t : Text} (ht : IsLiteral t) (hf : (Number.ofLiteral t).isFinite = true) :
      Spelled .number t
  | name {c : UInt8} {t : Text} (hc : isLetter c = true) (ht : ∀ b ∈ t, isNameByte b = true) :
      Spelled (nameKind (c :: t)) (c :: t)

/-- The words between quotes. -/
def IsWord (t : Text) : Prop := t ≠ [] ∧ ∀ b ∈ t, isWordByte b = true

/-- Whether what follows a token does not go on with it. -/
def breaks : Text → Bool
  | [] => true
  | [c] => !isNameByte c
  | c :: d :: _ => !isNameByte c && !(c = point && isDigit d)

/-- What is true of all bytes one by one. -/
theorem forall_byte {p : UInt8 → Prop} (h : ∀ n < 256, p (UInt8.ofNat n)) (c : UInt8) : p c := by
  have hc := h c.toNat c.toNat_lt
  rwa [UInt8.ofNat_toNat] at hc

theorem letter_facts (c : UInt8) (h : isLetter c = true) :
    c ≠ Piece.quoteByte ∧ isBlank c = false ∧ punctuation? c = none ∧ c ≠ Piece.hash ∧
      isDigit c = false := by
  revert h
  refine forall_byte (p := fun c => isLetter c = true → c ≠ Piece.quoteByte ∧ isBlank c = false ∧
    punctuation? c = none ∧ c ≠ Piece.hash ∧ isDigit c = false) ?_ c
  decide +kernel

theorem digit_facts (c : UInt8) (h : isDigit c = true) :
    c ≠ Piece.quoteByte ∧ isBlank c = false ∧ punctuation? c = none ∧ c ≠ Piece.hash := by
  revert h
  refine forall_byte (p := fun c => isDigit c = true → c ≠ Piece.quoteByte ∧ isBlank c = false ∧
    punctuation? c = none ∧ c ≠ Piece.hash) ?_ c
  decide +kernel

theorem punctuation_facts (c : UInt8) (h : (punctuation? c).isSome = true) :
    c ≠ Piece.quoteByte ∧ isBlank c = false := by
  revert h
  refine forall_byte (p := fun c => (punctuation? c).isSome = true → c ≠ Piece.quoteByte ∧
    isBlank c = false) ?_ c
  decide +kernel

theorem breaks_head {rest : Text} (h : breaks rest = true) {c : UInt8} (hc : rest.head? = some c) :
    isNameByte c = false ∧ isDigit c = false := by
  have hn : isNameByte c = false := by
    match rest, hc with
    | [_], rfl => simpa [breaks] using h
    | _ :: _ :: _, rfl =>
        simp only [breaks, Bool.and_eq_true, Bool.not_eq_true'] at h
        exact h.1
  simp only [isNameByte, Bool.or_eq_false_iff] at hn
  exact ⟨by simp [isNameByte, hn], hn.2⟩

theorem run_append {test : UInt8 → Bool} {s rest : Text} (hs : ∀ b ∈ s, test b = true)
    (hr : ∀ c, rest.head? = some c → test c = false) : run test (s ++ rest) = s.length := by
  have ht : rest.takeWhile test = [] := by
    cases rest with
    | nil => rfl
    | cons c rest => exact List.takeWhile_cons_of_neg (by simp [hr c rfl])
  rw [run, List.takeWhile_append_of_pos hs, ht, List.append_nil]

/-- A literal is as long as its digits go, if what follows does not go on with it. -/
theorem numberRun_literal {c : UInt8} {s rest : Text} (hl : IsLiteral (c :: s))
    (hb : breaks rest = true) : isDigit c = true ∧ numberRun (s ++ rest) = s.length := by
  generalize ht : c :: s = t at hl
  cases hl with
  | whole hw hn =>
      subst ht
      have hs : AllDigits s := fun b h => hw b (List.mem_cons_of_mem _ h)
      have hrun := run_append hs fun c h => (breaks_head hb h).2
      refine ⟨hw c (List.mem_cons_self ..), ?_⟩
      simp only [numberRun, hrun, List.drop_left]
      cases rest with
      | nil => rfl
      | cons c rest =>
          cases rest with
          | nil => rfl
          | cons d more =>
              simp only [breaks, Bool.and_eq_true, Bool.not_eq_true'] at hb
              simp only [hb.2, Bool.false_eq_true, if_false]
  | @fraction w f hw hn hf hm =>
      cases w with
      | nil => exact absurd rfl hn
      | cons d w =>
          cases f with
          | nil => exact absurd rfl hm
          | cons e f =>
              obtain ⟨rfl, hs⟩ := List.cons.inj ht
              have hd : AllDigits w := fun b h => hw b (List.mem_cons_of_mem _ h)
              have hg : AllDigits f := fun b h => hf b (List.mem_cons_of_mem _ h)
              have he : isDigit e = true := hf e (List.mem_cons_self ..)
              have hp : s = w ++ point :: e :: f := by
                rw [hs]
                exact List.append_assoc w [point] (e :: f)
              have hrun : run isDigit (w ++ point :: e :: (f ++ rest)) = w.length :=
                run_append hd (by rintro b ⟨rfl⟩; rfl)
              have hrun' := run_append hg fun c h => (breaks_head hb h).2
              refine ⟨hw c (List.mem_cons_self ..), ?_⟩
              simp only [hp, List.append_assoc, List.cons_append, numberRun, hrun, List.drop_left,
                he, hrun', decide_true, Bool.and_true, if_true, List.length_append,
                List.length_cons]
              omega

theorem name_first {c : UInt8} {t rest : Text} (hc : isLetter c = true)
    (ht : ∀ b ∈ t, isNameByte b = true) (hb : breaks rest = true) :
    Piece.first false c (t ++ rest) = (.token (nameKind (c :: t)), t.length) := by
  obtain ⟨hq, hbl, hp, hh, hd⟩ := letter_facts c hc
  have hr := run_append ht fun c h => (breaks_head hb h).1
  have htake : (t ++ rest).takeWhile isNameByte = t := by
    rw [← Piece.take_run, hr, List.take_left]
  simp [Piece.first, hq, hbl, hp, hh, hd, hc, htake, hr]

theorem number_first {c : UInt8} {t rest : Text} (ht : IsLiteral (c :: t))
    (hb : breaks rest = true) : Piece.first false c (t ++ rest) = (.token .number, t.length) := by
  obtain ⟨hd, hr⟩ := numberRun_literal ht hb
  obtain ⟨hq, hbl, hp, hh⟩ := digit_facts c hd
  simp [Piece.first, hq, hbl, hp, hh, hd, hr]

theorem Spelled.first {kind : Token.Kind} {t rest : Text} (h : Spelled kind t)
    (hb : breaks rest = true) :
    ∃ c s, t = c :: s ∧ Piece.first false c (s ++ rest) = (.token kind, s.length) := by
  cases h with
  | @punctuation c _ h =>
      obtain ⟨hq, hbl⟩ := punctuation_facts c (by rw [h]; rfl)
      exact ⟨c, [], rfl, by simp [Piece.first, hq, hbl, h]⟩
  | number ht hf =>
      cases t with
      | nil => exact absurd rfl ht.ne_nil
      | cons c s => exact ⟨c, s, rfl, number_first ht hb⟩
  | name hc ht => exact ⟨_, _, rfl, name_first hc ht hb⟩

theorem Spelled.ne_quote {kind : Token.Kind} {t : Text} (h : Spelled kind t) : kind ≠ .quote := by
  cases h with
  | punctuation h => exact Piece.punctuation_ne h (by decide)
  | number ht hf => exact Token.Kind.noConfusion
  | name hc ht => exact Piece.nameKind_ne _ (by decide)

theorem Spelled.finite {kind : Token.Kind} {t : Text} (h : Spelled kind t) (hk : kind = .number) :
    (Number.ofLiteral t).isFinite = true := by
  cases h with
  | punctuation h => exact absurd hk (Piece.punctuation_ne h (by decide))
  | number ht hf => exact hf
  | name hc ht => exact absurd hk (Piece.nameKind_ne _ (by decide))

theorem Spelled.letter {t : Text} (h : Spelled .identifier t) :
    ∃ c s, t = c :: s ∧ isLetter c = true := by
  generalize hk : Token.Kind.identifier = kind at h
  cases h with
  | punctuation h => exact absurd hk.symm (Piece.punctuation_ne h (by decide))
  | number ht hf => cases hk
  | name hc ht => exact ⟨_, _, rfl, hc⟩

/-- A text that starts on a line, inside quotes or not, has these tokens and no
lexical fault. -/
structure Lexes (quoted : Bool) (line : Nat) (s : Text) (ts : List Token) : Prop where
  tokens : (pieces quoted line s).filterMap Piece.token? = ts
  errors : (pieces quoted line s).filterMap Piece.error? = []
  closed : Scan.leavesOpen ts = quoted

namespace Lexes

variable {quoted : Bool} {line : Nat} {rest : Text} {ts : List Token}

theorem nil (line : Nat) : Lexes false line [] [] := by
  constructor <;> simp [pieces, Scan.leavesOpen]

/-- A piece that is no token and no fault may stand before a text. -/
theorem skip {s : Text} {p : Piece} {next : Nat}
    (hp : pieces quoted line s = p :: pieces quoted next rest) (ht : p.token? = none)
    (he : p.error? = none) (h : Lexes quoted next rest ts) : Lexes quoted line s ts := by
  constructor
  · rw [hp, List.filterMap_cons_none ht, h.tokens]
  · rw [hp, List.filterMap_cons_none he, h.errors]
  · exact h.closed

theorem blank {c : UInt8} (hc : isBlank c = true)
    (h : Lexes quoted (if c = Piece.newline then line + 1 else line) rest ts) :
    Lexes quoted line (c :: rest) ts := by
  have hf : Piece.first quoted c rest = (.blank, 0) := by
    have hq : c ≠ Piece.quoteByte := by
      rintro rfl
      cases hc
    simp [Piece.first, hq, hc]
  have hp : pieces quoted line (c :: rest) =
      ⟨.blank, [c], line⟩ :: pieces quoted (if c = Piece.newline then line + 1 else line) rest := by
    rw [pieces, hf]
    simp
  exact skip hp rfl rfl h

theorem space (h : Lexes quoted line rest ts) : Lexes quoted line (0x20 :: rest) ts :=
  blank rfl h

theorem newline (h : Lexes quoted (line + 1) rest ts) :
    Lexes quoted line (Piece.newline :: rest) ts :=
  blank rfl h

theorem indent (depth : Nat) (h : Lexes quoted line rest ts) :
    Lexes quoted line (List.replicate depth 0x20 ++ rest) ts := by
  induction depth with
  | zero => exact h
  | succ depth ih => exact space ih

theorem token {kind : Token.Kind} {c : UInt8} {s : Text}
    (hf : Piece.first quoted c (s ++ rest) = (.token kind, s.length))
    (hn : kind = .number → (Number.ofLiteral (c :: s)).isFinite = true)
    (h : Lexes (quoted != (kind = .quote)) line rest ts) :
    Lexes quoted line (c :: s ++ rest) (⟨kind, c :: s, line⟩ :: ts) := by
  have hc : c ≠ Piece.newline := by
    rintro rfl
    cases hf
  have hp : pieces quoted line (c :: s ++ rest) =
      ⟨.token kind, c :: s, line⟩ :: pieces (quoted != (kind = .quote)) line rest := by
    rw [List.cons_append, pieces, hf]
    simp [hc]
  have ht : Piece.token? ⟨.token kind, c :: s, line⟩ = some ⟨kind, c :: s, line⟩ := rfl
  have he : Piece.error? ⟨.token kind, c :: s, line⟩ = none := by
    cases kind with
    | number => simp [Piece.error?, hn rfl]
    | _ => rfl
  constructor
  · rw [hp, List.filterMap_cons_some ht, h.tokens]
  · rw [hp, List.filterMap_cons_none he, h.errors]
  · rw [Piece.leavesOpen_cons, h.closed]
    cases quoted <;> simp

theorem spelled {kind : Token.Kind} {t : Text} (ht : Spelled kind t) (hb : breaks rest = true)
    (h : Lexes false line rest ts) : Lexes false line (t ++ rest) (⟨kind, t, line⟩ :: ts) := by
  obtain ⟨c, s, rfl, hf⟩ := ht.first hb
  exact token hf ht.finite (by simpa [ht.ne_quote] using h)

/-- A token of one byte is one whatever follows. -/
theorem symbol {kind : Token.Kind} (c : UInt8) (hc : punctuation? c = some kind)
    (h : Lexes false line rest ts) : Lexes false line (c :: rest) (⟨kind, [c], line⟩ :: ts) := by
  obtain ⟨hq, hb⟩ := punctuation_facts c (by rw [hc]; rfl)
  have hk : kind ≠ .quote := Piece.punctuation_ne hc (by decide)
  have hf : Piece.first false c ([] ++ rest) = (.token kind, 0) := by
    simp [Piece.first, hq, hb, hc]
  exact token hf (fun h => absurd h (Piece.punctuation_ne hc (by decide))) (by simpa [hk] using h)

/-- The quote that opens or closes a text. -/
theorem quote (h : Lexes (!quoted) line rest ts) :
    Lexes quoted line (Text.utf8 "\"" ++ rest) (⟨.quote, Text.utf8 "\"", line⟩ :: ts) :=
  token (s := []) rfl Token.Kind.noConfusion (by simpa using h)

theorem word {t : Text} (ht : IsWord t) (hr : ∀ c, rest.head? = some c → isWordByte c = false)
    (h : Lexes true line rest ts) : Lexes true line (t ++ rest) (⟨.word, t, line⟩ :: ts) := by
  obtain ⟨hn, hw⟩ := ht
  cases t with
  | nil => exact absurd rfl hn
  | cons c s =>
      have hc : isBlank c = false ∧ c ≠ Piece.quoteByte := by
        simpa [isWordByte] using hw c (List.mem_cons_self ..)
      have hs := run_append (fun b hb => hw b (List.mem_cons_of_mem _ hb)) hr
      exact token (by simp [Piece.first, hc, hs]) Token.Kind.noConfusion (by simpa using h)

/-- Words with one space between them, up to the quote that closes them. -/
theorem words {ws : List Text} (hw : ∀ w ∈ ws, IsWord w)
    (h : Lexes true line (Text.utf8 "\"" ++ rest) ts) :
    Lexes true line (Text.join (Text.utf8 " ") ws ++ (Text.utf8 "\"" ++ rest))
      (ws.map (⟨.word, ·, line⟩) ++ ts) := by
  fun_induction Text.join (Text.utf8 " ") ws with
  | case1 => exact h
  | case2 w => exact word (hw w (List.mem_singleton_self w)) (by rintro c ⟨rfl⟩; rfl) h
  | case3 w ws hne ih =>
      have hr := ih fun v hv => hw v (List.mem_cons_of_mem _ hv)
      rw [List.append_assoc, List.append_assoc]
      refine word (hw w (List.mem_cons_self ..)) (by rintro c ⟨rfl⟩; rfl) ?_
      exact blank rfl hr

theorem text {ws : List Text} (hw : ∀ w ∈ ws, IsWord w) (h : Lexes false line rest ts) :
    Lexes false line ((Text.join (Text.utf8 " ") ws).inQuotes ++ rest)
      (⟨.quote, Text.utf8 "\"", line⟩ :: (ws.map (⟨.word, ·, line⟩) ++
        ⟨.quote, Text.utf8 "\"", line⟩ :: ts)) := by
  rw [Text.inQuotes, List.append_assoc, List.append_assoc]
  exact quote (words hw (quote h))

/-- A text with these tokens is scanned as them. -/
theorem scan {s : Text} (h : Lexes false 1 s ts) :
    (Scan.ofSource s).tokens = ts ∧ (Scan.ofSource s).errors = [] := by
  simp [Scan.ofSource, h.tokens, h.errors, h.closed]

end Lexes

/-! ## The words of a text -/

theorem isTail_ge {b : UInt8} (h : Text.isTail b = true) : 0x80 ≤ b := by
  simp only [Text.isTail, Bool.and_eq_true, decide_eq_true_eq] at h
  exact h.1

/-- A byte below 0x80 is a character of its own; all others take only such bytes
with them as are not. -/
theorem firstRune_shape (a : UInt8) (rest : Text) :
    Text.firstRune a rest = ⟨[a], some a.toNat⟩ ∨
      ∃ n, (Text.firstRune a rest).bytes = a :: rest.take n ∧
        ∀ b ∈ (Text.firstRune a rest).bytes, 0x80 ≤ b := by
  rw [Text.firstRune.eq_def]
  split
  · exact .inl rfl
  next hlt =>
  have ha : 0x80 ≤ a := UInt8.not_lt.mp hlt
  refine .inr ?_
  have hone : ∃ n, [a] = a :: rest.take n ∧ ∀ b ∈ [a], 0x80 ≤ b := ⟨0, rfl, by simpa using ha⟩
  have htwo {b : UInt8} (hb : (0xC2 ≤ a && a ≤ 0xDF && Text.isTail b) = true) :
      ∀ x ∈ [a, b], 0x80 ≤ x := by
    simp only [Bool.and_eq_true] at hb
    simp [ha, isTail_ge hb.2]
  have hthree {b c : UInt8} (hb : (Text.isSecondOfThree a b && Text.isTail c) = true) :
      ∀ x ∈ [a, b, c], 0x80 ≤ x := by
    simp only [Text.isSecondOfThree, Bool.and_eq_true] at hb
    simp [ha, isTail_ge hb.1.1.1.2, isTail_ge hb.2]
  split
  · next b c d more =>
      split
      · next h => exact ⟨1, rfl, htwo h⟩
      split
      · next h => exact ⟨2, rfl, hthree h⟩
      split
      · next h =>
          simp only [Text.isSecondOfFour, Bool.and_eq_true] at h
          exact ⟨3, rfl, by simp [ha, isTail_ge h.1.1.1.1.2, isTail_ge h.1.2, isTail_ge h.2]⟩
      · exact hone
  · next b c =>
      split
      · next h => exact ⟨1, rfl, htwo h⟩
      split
      · next h => exact ⟨2, rfl, hthree h⟩
      · exact hone
  · next b =>
      split
      · next h => exact ⟨1, rfl, htwo h⟩
      · exact hone
  · exact hone

theorem rune_facts {t : Text} {r : Text.Rune} (hr : r ∈ t.runes) :
    (∀ b ∈ r.bytes, b ∈ t) ∧ ∀ b ∈ r.bytes, b < 0x80 → r.code = some b.toNat := by
  fun_induction Text.runes t with
  | case1 => cases hr
  | case2 a rest r' ih =>
      obtain rfl | hr := List.mem_cons.mp hr
      · obtain h | ⟨n, hn, hb⟩ := firstRune_shape a rest
        · simp only [r', h]
          simp
        · refine ⟨fun b hm => ?_, fun b hm hl => ?_⟩
          · rw [hn] at hm
            exact List.mem_cons.mpr ((List.mem_cons.mp hm).imp_right List.mem_of_mem_take)
          · exact absurd (hb b hm) (UInt8.not_le.mpr hl)
      · obtain ⟨hsub, hcode⟩ := ih hr
        exact ⟨fun b hm => List.mem_cons_of_mem _ (List.mem_of_mem_drop (hsub b hm)), hcode⟩

theorem blank_facts (b : UInt8) (h : isBlank b = true) :
    b < 0x80 ∧ Text.isBlankCode b.toNat = true := by
  revert h
  refine forall_byte (p := fun b => isBlank b = true → b < 0x80 ∧
    Text.isBlankCode b.toNat = true) ?_ b
  decide +kernel

/-- A character that is not white space may stand in a word, quotes apart. -/
theorem wordByte_of_rune {t : Text} (hq : Piece.quoteByte ∉ t) {r : Text.Rune} (hr : r ∈ t.runes)
    (hb : r.isBlank = false) {b : UInt8} (hm : b ∈ r.bytes) : isWordByte b = true := by
  obtain ⟨hsub, hcode⟩ := rune_facts hr
  have hne : b ≠ Piece.quoteByte := by
    rintro rfl
    exact hq (hsub _ hm)
  have hbl : isBlank b = false := by
    cases h : isBlank b with
    | false => rfl
    | true =>
        obtain ⟨hl, hc⟩ := blank_facts b h
        simp [Text.Rune.isBlank, hcode b hm hl, hc] at hb
  simp [isWordByte, hbl, hne]

theorem wordsFrom_isWord {word : Text} {runes : List Text.Rune}
    (hw : ∀ b ∈ word, isWordByte b = true)
    (hr : ∀ r ∈ runes, r.isBlank = false → ∀ b ∈ r.bytes, isWordByte b = true)
    {w : Text} (hm : w ∈ Text.wordsFrom word runes) : IsWord w := by
  fun_induction Text.wordsFrom word runes with
  | case1 word h => cases hm
  | case2 word h =>
      rw [List.mem_singleton.mp hm]
      exact ⟨by simpa using h, hw⟩
  | case3 word r rest hb he ih =>
      exact ih (by simp) (fun r h => hr r (List.mem_cons_of_mem _ h)) hm
  | case4 word r rest hb he ih =>
      obtain rfl | hm := List.mem_cons.mp hm
      · exact ⟨by simpa using he, hw⟩
      · exact ih (by simp) (fun r h => hr r (List.mem_cons_of_mem _ h)) hm
  | case5 word r rest hb ih =>
      refine ih (fun b hm => ?_) (fun r h => hr r (List.mem_cons_of_mem _ h)) hm
      have hrb := hr r (List.mem_cons_self ..) (by simpa using hb)
      exact (List.mem_append.mp hm).elim (hw b) (hrb b)

/-- The words of a text without quotes may stand between quotes. -/
theorem words_isWord {t : Text} (hq : Piece.quoteByte ∉ t) : ∀ w ∈ t.words, IsWord w := fun _ hm =>
  wordsFrom_isWord (by simp) (fun _ hr hb _ hm => wordByte_of_rune hq hr hb hm) hm

/-! ## The tokens of a source -/

/-- What the piece is that starts with `c`, if it is a token. -/
theorem of_first_token {quoted : Bool} {c : UInt8} {s : Text} {kind : Token.Kind} {n : Nat}
    (h : Piece.first quoted c s = (.token kind, n))
    (hn : kind = .number → (Number.ofLiteral (c :: s.take n)).isFinite = true) :
    (kind = .quote ∧ c :: s.take n = Text.utf8 "\"") ∨ kind ≠ .quote ∧
      if quoted then kind = .word ∧ IsWord (c :: s.take n) else Spelled kind (c :: s.take n) := by
  have hf := Piece.first_fits h
  generalize c :: s.take n = t at hf hn ⊢
  suffices hs : quoted = false → Spelled kind t → kind ≠ .quote ∧
      if quoted then kind = .word ∧ IsWord t else Spelled kind t by
    cases hf with
    | quote => exact .inl ⟨rfl, rfl⟩
    | word hq ht hb _ =>
        rw [if_pos hq]
        exact .inr ⟨Token.Kind.noConfusion, rfl, ht, hb⟩
    | punctuation hq hp => exact .inr (hs hq (.punctuation hp))
    | whole hq ht hw _ _ => exact .inr (hs hq (.number (.whole hw ht) (hn rfl)))
    | @fraction w f hq ht hw hm hf _ =>
        refine .inr (hs hq (.number ?_ (hn rfl)))
        have hl := IsLiteral.fraction hw ht hf hm
        rw [List.append_assoc] at hl
        exact hl
    | name hq hc hb _ => exact .inr (hs hq (.name hc hb))
  intro hq hs
  rw [hq]
  exact ⟨hs.ne_quote, hs⟩

/-- Tokens as they come from a source: words between quotes, others outside. -/
def WellLexed : Bool → List Token → Prop
  | _, [] => True
  | quoted, t :: ts =>
    if t.kind = .quote then t.lexeme = Text.utf8 "\"" ∧ WellLexed (!quoted) ts
    else (if quoted then t.kind = .word ∧ IsWord t.lexeme else Spelled t.kind t.lexeme) ∧
      WellLexed quoted ts

theorem wellLexed_pieces (quoted : Bool) (line : Nat) (s : Text)
    (h : (pieces quoted line s).filterMap Piece.error? = []) :
    WellLexed quoted ((pieces quoted line s).filterMap Piece.token?) := by
  fun_induction pieces quoted line s with
  | case1 quoted line => trivial
  | case2 quoted line c rest role length hf ih =>
      simp only [dite_eq_ite] at ih
      rw [List.filterMap_eq_nil_iff, List.forall_mem_cons, ← List.filterMap_eq_nil_iff] at h
      obtain ⟨he, h⟩ := h
      have hr := ih h
      cases role with
      | token kind =>
          have hn : kind = .number →
              (Number.ofLiteral (c :: rest.take length)).isFinite = true := by
            rintro rfl
            simpa [Piece.error?] using he
          have ht : Piece.token? ⟨.token kind, c :: rest.take length, line⟩ =
            some ⟨kind, c :: rest.take length, line⟩ := rfl
          rw [List.filterMap_cons_some ht, WellLexed]
          obtain ⟨rfl, hl⟩ | ⟨hq, hs⟩ := of_first_token hf hn
          · exact ⟨hl, by simpa using hr⟩
          · rw [if_neg hq]
            exact ⟨hs, by simpa [hq] using hr⟩
      | _ =>
          rw [List.filterMap_cons_none rfl]
          simpa using hr

theorem wellLexed_ofSource {s : Text} (h : (Scan.ofSource s).errors = []) :
    WellLexed false (Scan.ofSource s).tokens :=
  wellLexed_pieces false 1 s (List.append_eq_nil_iff.mp h).1

end Scripting.Format
