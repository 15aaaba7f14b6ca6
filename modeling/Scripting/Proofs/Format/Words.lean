import Scripting.Proofs.Format.RoundTrip
import Scripting.Proofs.Number.Display
import Scripting.Proofs.Text.Quoting

/-!
Declared strings that are written and read again. A source parts the words of a string at
blanks, but a written string has its words parted at any white space. So the string comes back
as it was if and only if no word of it holds white space.
-/

namespace Scripting.Text

/-- A character does not take in a byte that cannot be a later byte of it. -/
theorem firstRune_append {c : UInt8} (hc : isTail c = false) (a : UInt8) (s rest : Text) :
    firstRune a (s ++ c :: rest) = firstRune a s := by
  have h3 (a : UInt8) : isSecondOfThree a c = false := by simp [isSecondOfThree, hc]
  have h4 (a : UInt8) : isSecondOfFour a c = false := by simp [isSecondOfFour, hc]
  cases s with
  | nil =>
      cases rest with
      | nil => simp [firstRune, hc]
      | cons d rest => cases rest <;> simp [firstRune, hc, h3, h4]
  | cons b s =>
      cases s with
      | nil => cases rest <;> simp [firstRune, hc]
      | cons d s => cases s <;> simp [firstRune, hc]

theorem length_firstRune_le (a : UInt8) (s : Text) :
    (firstRune a s).bytes.length - 1 ≤ s.length := by
  obtain h | ⟨n, h, _⟩ := Format.firstRune_shape a s
  · simp [h]
  · rw [h, List.length_cons, List.length_take]
    omega

theorem runes_append {c : UInt8} (hc : isTail c = false) (s rest : Text) :
    runes (s ++ c :: rest) = s.runes ++ runes (c :: rest) := by
  fun_induction runes s with
  | case1 => rfl
  | case2 a s r ih =>
      rw [List.cons_append, runes, firstRune_append hc,
        List.drop_append_of_le_length (length_firstRune_le a s), ih]
      rfl

/-- A space parts two texts, whatever characters they hold. -/
theorem runes_space (s rest : Text) :
    runes (s ++ 0x20 :: rest) = s.runes ++ ⟨[0x20], some 0x20⟩ :: rest.runes := by
  rw [runes_append rfl, runes]
  rfl

theorem wordsFrom_append {r : Rune} (hr : r.isBlank = true) (word : Text) (rs rest : List Rune) :
    wordsFrom word (rs ++ r :: rest) = wordsFrom word rs ++ wordsFrom [] rest := by
  fun_induction wordsFrom word rs with
  | case1 word h => rw [List.nil_append, wordsFrom, if_pos hr, if_pos h, List.nil_append]
  | case2 word h => rw [List.nil_append, wordsFrom, if_pos hr, if_neg h]; rfl
  | case3 word q rs hb he ih => rw [List.cons_append, wordsFrom, if_pos hb, if_pos he, ih]
  | case4 word q rs hb he ih =>
      rw [List.cons_append, wordsFrom, if_pos hb, if_neg he, ih, List.cons_append]
  | case5 word q rs hb ih => rw [List.cons_append, wordsFrom, if_neg hb, ih]

theorem words_spaced (ws : List Text) : words (ws.flatMap (· ++ utf8 " ")) = ws.flatMap words := by
  induction ws with
  | nil =>
      rw [List.flatMap_nil, words, runes]
      rfl
  | cons w ws ih =>
      have hs : (w :: ws).flatMap (· ++ utf8 " ") = w ++ 0x20 :: ws.flatMap (· ++ utf8 " ") := by
        rw [List.flatMap_cons, List.append_assoc]
        rfl
      rw [hs, words, runes_space, wordsFrom_append rfl, List.flatMap_cons, ← ih]
      rfl

/-- Words have the bytes of all characters that are not white space. -/
theorem flatten_wordsFrom (word : Text) (rs : List Rune) :
    (wordsFrom word rs).flatten = word ++ (rs.filter (!·.isBlank)).flatMap Rune.bytes := by
  fun_induction wordsFrom word rs with
  | case1 word h => simpa using h
  | case2 word h => simp
  | case3 word r rs hb he ih => simpa [hb] using ih.trans (by simpa using he)
  | case4 word r rs hb he ih => simp [hb, ih]
  | case5 word r rs hb ih => simp [hb, ih]

theorem wordsFrom_of_no_blank {rs : List Rune} (h : ∀ r ∈ rs, r.isBlank = false) (word : Text) :
    wordsFrom word rs =
      if (word ++ rs.flatMap Rune.bytes).isEmpty then [] else [word ++ rs.flatMap Rune.bytes] := by
  induction rs generalizing word with
  | nil => rw [wordsFrom, List.flatMap_nil, List.append_nil]
  | cons r rs ih =>
      rw [List.forall_mem_cons] at h
      rw [wordsFrom, h.1, if_neg Bool.false_ne_true, ih h.2, List.flatMap_cons, List.append_assoc]

theorem words_of_no_blank {w : Text} (hw : w ≠ []) (h : ∀ r ∈ w.runes, r.isBlank = false) :
    w.words = [w] := by
  rw [words, wordsFrom_of_no_blank h, List.nil_append, flatMap_bytes_runes, if_neg]
  rwa [List.isEmpty_iff]

theorem Rune.Valid.length_pos {r : Rune} (h : r.Valid) : 0 < r.bytes.length := by
  cases h <;> exact Nat.succ_pos _

/-- The characters that are not white space have as many bytes as all have only if they are
all. -/
theorem no_blank_of_length {rs : List Rune} (hv : ∀ r ∈ rs, r.Valid) :
    let kept := (rs.filter (!·.isBlank)).flatMap Rune.bytes
    kept.length ≤ (rs.flatMap Rune.bytes).length ∧
      (kept.length = (rs.flatMap Rune.bytes).length → ∀ r ∈ rs, r.isBlank = false) := by
  induction rs with
  | nil => simp
  | cons r rs ih =>
      rw [List.forall_mem_cons] at hv
      have hr := hv.1.length_pos
      obtain ⟨hle, heq⟩ := ih hv.2
      cases hb : r.isBlank with
      | true =>
          simp only [hb, List.filter_cons, List.flatMap_cons, List.length_append, Bool.not_true,
            Bool.false_eq_true, if_false]
          exact ⟨by omega, fun h => absurd h (by omega)⟩
      | false =>
          simp only [hb, List.filter_cons, List.flatMap_cons, List.length_append,
            List.forall_mem_cons, Bool.not_false, if_true]
          exact ⟨by omega, fun h => ⟨trivial, heq (by omega)⟩⟩

theorem flatten_flatMap_words (ws : List Text) :
    (ws.flatMap words).flatten =
      ((ws.flatMap runes).filter (!·.isBlank)).flatMap Rune.bytes := by
  induction ws with
  | nil => rfl
  | cons w ws ih =>
      simp only [List.flatMap_cons, List.flatten_append, List.filter_append, List.flatMap_append,
        ih, words, flatten_wordsFrom, List.nil_append]

theorem flatMap_bytes_flatMap_runes (ws : List Text) :
    (ws.flatMap runes).flatMap Rune.bytes = ws.flatten := by
  induction ws with
  | nil => rfl
  | cons w ws ih =>
      rw [List.flatMap_cons, List.flatMap_append, ih, flatMap_bytes_runes, List.flatten_cons]

/-- Texts are the words that they have if and only if they hold no white space. -/
theorem flatMap_words_eq_self_iff {ws : List Text} (hw : ∀ w ∈ ws, w ≠ []) :
    ws.flatMap words = ws ↔ ∀ w ∈ ws, ∀ r ∈ w.runes, r.isBlank = false := by
  constructor
  · intro h w hm r hr
    have hv : ∀ r ∈ ws.flatMap runes, r.Valid := by
      intro r hr
      obtain ⟨w, _, hr⟩ := List.mem_flatMap.mp hr
      exact runes_valid hr
    refine (no_blank_of_length hv).2 ?_ r (List.mem_flatMap.mpr ⟨w, hm, hr⟩)
    rw [← flatten_flatMap_words, flatMap_bytes_flatMap_runes, h]
  · intro h
    induction ws with
    | nil => rfl
    | cons w ws ih =>
        rw [List.forall_mem_cons] at hw h
        rw [List.flatMap_cons, words_of_no_blank hw.1 h.1, ih hw.2 h.2, List.singleton_append]

end Scripting.Text

namespace Scripting.Format

instance (t : Text) : Decidable (IsWord t) :=
  inferInstanceAs (Decidable (t ≠ [] ∧ ∀ b ∈ t, Piece.isWordByte b = true))

/-- The value of a declared string, by its words. -/
def declaredText (ws : List Text) : Text := ws.flatMap (· ++ Text.utf8 " ") ++ [0x08]

theorem declaredText_inj {ws ws' : List Text} (h : ∀ w ∈ ws, IsWord w) (h' : ∀ w ∈ ws', IsWord w) :
    declaredText ws = declaredText ws' ↔ ws = ws' := by
  refine ⟨fun he => ?_, congrArg declaredText⟩
  replace he := List.append_cancel_right he
  induction ws generalizing ws' with
  | nil =>
      cases ws' with
      | nil => rfl
      | cons w' ws' => simp [Text.utf8] at he
  | cons w ws ih =>
      cases ws' with
      | nil => simp [Text.utf8] at he
      | cons w' ws' =>
          rw [List.forall_mem_cons] at h h'
          rw [List.flatMap_cons, List.flatMap_cons, List.append_assoc, List.append_assoc] at he
          have hspace (rest : Text) :
              ∀ c, (Text.utf8 " " ++ rest).head? = some c → Piece.isWordByte c = false := by
            intro c hc
            cases hc
            rfl
          obtain ⟨hw, hr⟩ := Text.append_inj_of_run h.1.2 h'.1.2 (hspace _) (hspace _) he
          rw [hw, ih h.2 h'.2 (List.append_cancel_left hr)]

end Scripting.Format

namespace Scripting.Program

open Format

/-- A program that declares one string by its words. -/
def ofWords (constant : Bool) (name : Name) (ws : List Text) : Program :=
  [.declare constant name (some (Text.utf8 "string")) (some (.text (declaredText ws)))]

theorem ofWords_sameUpToLines {constant : Bool} {name : Name} {ws ws' : List Text} :
    (ofWords constant name ws).SameUpToLines (ofWords constant name ws') ↔
      declaredText ws = declaredText ws' := by
  simp [SameUpToLines, mapLines, ofWords, Stmt.mapLinesEach, Stmt.mapLines, Expr.mapLines]

theorem normalize_ofWords (constant : Bool) (name : Name) (ws : List Text) :
    (ofWords constant name ws).normalize = ofWords constant name (ws.flatMap Text.words) := by
  have hd : (declaredText ws).dropSuffix [0x08] = ws.flatMap (· ++ Text.utf8 " ") :=
    Grammar.dropSuffix_append _ _
  simp only [normalize, ofWords, Stmt.normalizeEach, Stmt.normalize, Option.map_some,
    Stmt.normalizeValue, if_true, hd, Text.words_spaced]
  rfl

/-- A declared string of any words that may stand between quotes, written and read again, has
as its words those that white space parts in them. So it is the same string if and only if none
of its words holds white space. -/
theorem ofSource_format_ofWords (constant : Bool) {name : Name}
    (hn : Spelled .identifier name.text) {ws : List Text} (hw : ∀ w ∈ ws, IsWord w) :
    ∃ q, ofSource (ofWords constant name ws).format = .ok q ∧
      q.SameUpToLines (ofWords constant name (ws.flatMap Text.words)) ∧
      (q.SameUpToLines (ofWords constant name ws) ↔
        ∀ w ∈ ws, ∀ r ∈ w.runes, r.isBlank = false) := by
  have hquote : Piece.quoteByte ∉ (declaredText ws).dropSuffix [0x08] := by
    rw [declaredText, Grammar.dropSuffix_append]
    exact Grammar.quote_notMem_words hw
  have hstring : WrittenType (some (Text.utf8 "string")) := by
    intro t ht
    cases ht
    exact ⟨_, .name (c := 0x73) (t := Text.utf8 "tring") rfl (List.all_eq_true.mp rfl)⟩
  have hp : WrittenStatements (ofWords constant name ws) := by
    intro s hs
    rw [List.mem_singleton.mp hs]
    exact written_define hn hstring (writtenValue_text hquote) constant
  obtain ⟨q, hq, hs⟩ := hp.read
  rw [normalize_ofWords] at hs
  refine ⟨q, hq, hs, ?_⟩
  have hsplit : ∀ w ∈ ws.flatMap Text.words, IsWord w := by
    intro u hu
    obtain ⟨w, hm, hu⟩ := List.mem_flatMap.mp hu
    refine words_isWord (fun hb => ?_) u hu
    cases (hw w hm).2 _ hb
  calc q.SameUpToLines (ofWords constant name ws)
      ↔ (ofWords constant name (ws.flatMap Text.words)).SameUpToLines
          (ofWords constant name ws) := by
        rw [SameUpToLines, hs]
        rfl
    _ ↔ declaredText (ws.flatMap Text.words) = declaredText ws := ofWords_sameUpToLines
    _ ↔ ws.flatMap Text.words = ws := declaredText_inj hsplit hw
    _ ↔ ∀ w ∈ ws, ∀ r ∈ w.runes, r.isBlank = false :=
        Text.flatMap_words_eq_self_iff fun w hm => (hw w hm).1

/-- A vertical tab parts a word in two, and a stray byte does not. -/
theorem ofSource_format_ofWords_tab :
    let x : Name := ⟨Text.utf8 "x", 1⟩
    let stray := [Text.utf8 "a", [0xC2, 0x62]]
    let tab := [Text.utf8 "a\x0bb"]
    (∃ q, ofSource (ofWords true x stray).format = .ok q ∧ q.SameUpToLines (ofWords true x stray)) ∧
    ∃ q, ofSource (ofWords false x tab).format = .ok q ∧
      q.SameUpToLines (ofWords false x [Text.utf8 "a", Text.utf8 "b"]) ∧
      ¬ q.SameUpToLines (ofWords false x tab) := by
  intro x stray tab
  have hx : Spelled .identifier x.text :=
    .name (c := 0x78) (t := []) rfl (List.all_eq_true.mp rfl)
  have hstray : ∀ w ∈ stray, IsWord w := by decide +kernel
  have htab : ∀ w ∈ tab, IsWord w := by decide +kernel
  obtain ⟨q, hq, _, hsame⟩ := ofSource_format_ofWords true hx hstray
  obtain ⟨r, hr, hparts, hdiffer⟩ := ofSource_format_ofWords false hx htab
  have hwords : tab.flatMap Text.words = [Text.utf8 "a", Text.utf8 "b"] := by decide +kernel
  rw [hwords] at hparts
  refine ⟨⟨q, hq, hsame.mpr (by decide +kernel)⟩, r, hr, hparts, fun h => ?_⟩
  exact absurd (hdiffer.mp h) (by decide +kernel)

end Scripting.Program
