import Scripting.Proofs.Format.Lexing
import Scripting.Text.Quoted

/-!
Quoted texts end where they end. Whatever follows a text in quotes, the text and what
follows it can be told apart again: each character or stray byte is read back from its
escape, and no escape begins with a quote.
-/

namespace Scripting.Text

/-- What a text is made of: characters of one to four bytes and stray bytes. -/
inductive Rune.Valid : Rune → Prop
  | one {a : UInt8} (h : a < 0x80) : Valid ⟨[a], some a.toNat⟩
  | two {a b : UInt8} (h : (0xC2 ≤ a && a ≤ 0xDF && isTail b) = true) : Valid (firstRune.two a b)
  | three {a b c : UInt8} (h : (isSecondOfThree a b && isTail c) = true) :
      Valid (firstRune.three a b c)
  | four {a b c d : UInt8} (h : (isSecondOfFour a b && isTail c && isTail d) = true) :
      Valid ⟨[a, b, c, d],
        some (a.toNat % 8 * 262144 + tailBits b * 4096 + tailBits c * 64 + tailBits d)⟩
  | stray {a : UInt8} (h : 0x80 ≤ a) : Valid ⟨[a], none⟩

theorem firstRune_valid (a : UInt8) (rest : Text) : (firstRune a rest).Valid := by
  rw [firstRune.eq_def]
  split
  · next h => exact .one h
  next h =>
  have stray : Rune.Valid ⟨[a], none⟩ := .stray (UInt8.not_lt.mp h)
  repeat' split
  all_goals first | exact stray | exact .two ‹_› | exact .three ‹_› | exact .four ‹_›

theorem runes_valid {t : Text} {r : Rune} (h : r ∈ t.runes) : r.Valid := by
  fun_induction runes t with
  | case1 => cases h
  | case2 a rest _ ih =>
      obtain rfl | h := List.mem_cons.mp h
      · exact firstRune_valid a rest
      · exact ih h

/-- The runes of a text have all of its bytes. -/
theorem flatMap_bytes_runes (t : Text) : t.runes.flatMap Rune.bytes = t := by
  fun_induction runes t with
  | case1 => rfl
  | case2 a rest r ih =>
      have hb : ∃ n, r.bytes = a :: rest.take n := by
        obtain h | ⟨n, h, -⟩ := Format.firstRune_shape a rest
        · exact ⟨0, by simp only [r, h, List.take_zero]⟩
        · exact ⟨n, h⟩
      obtain ⟨n, hn⟩ := hb
      rw [List.flatMap_cons, ih, hn, List.length_cons, List.length_take, Nat.add_sub_cancel,
        List.cons_append]
      by_cases h : n ≤ rest.length
      · rw [Nat.min_eq_left h, List.take_append_drop]
      · rw [Nat.min_eq_right (by omega), List.drop_length, List.append_nil,
          List.take_of_length_le (by omega)]

/-! ## Characters and their codes -/

theorem isTail_toNat {b : UInt8} (h : isTail b = true) : 128 ≤ b.toNat ∧ b.toNat ≤ 191 := by
  simp only [isTail, Bool.and_eq_true, decide_eq_true_eq, UInt8.le_iff_toNat_le] at h
  exact h

theorem isSecondOfThree_toNat {a b : UInt8} (h : isSecondOfThree a b = true) :
    224 ≤ a.toNat ∧ a.toNat ≤ 239 ∧ 128 ≤ b.toNat ∧ b.toNat ≤ 191 ∧
      (a.toNat ≠ 224 ∨ 160 ≤ b.toNat) ∧ (a.toNat ≠ 237 ∨ b.toNat ≤ 159) := by
  simp only [isSecondOfThree, Bool.and_eq_true, Bool.or_eq_true, bne_iff_ne, decide_eq_true_eq,
    UInt8.le_iff_toNat_le, ne_eq, ← UInt8.toNat_inj] at h
  obtain ⟨⟨⟨⟨h₁, h₂⟩, hb⟩, h₃⟩, h₄⟩ := h
  exact ⟨h₁, h₂, (isTail_toNat hb).1, (isTail_toNat hb).2, h₃, h₄⟩

theorem isSecondOfFour_toNat {a b : UInt8} (h : isSecondOfFour a b = true) :
    240 ≤ a.toNat ∧ a.toNat ≤ 244 ∧ 128 ≤ b.toNat ∧ b.toNat ≤ 191 ∧
      (a.toNat ≠ 240 ∨ 144 ≤ b.toNat) ∧ (a.toNat ≠ 244 ∨ b.toNat ≤ 143) := by
  simp only [isSecondOfFour, Bool.and_eq_true, Bool.or_eq_true, bne_iff_ne, decide_eq_true_eq,
    UInt8.le_iff_toNat_le, ne_eq, ← UInt8.toNat_inj] at h
  obtain ⟨⟨⟨⟨h₁, h₂⟩, hb⟩, h₃⟩, h₄⟩ := h
  exact ⟨h₁, h₂, (isTail_toNat hb).1, (isTail_toNat hb).2, h₃, h₄⟩

theorem toNat_val_ofNat {code : Nat} (h : code.isValidChar) :
    (Char.ofNat code).val.toNat = code := by
  rw [Char.ofNat, dif_pos h]
  rfl

theorem eq_ofNat {a : UInt8} {n : Nat} (h : a.toNat = n) : a = UInt8.ofNat n := by
  rw [← h, UInt8.ofNat_toNat]

theorem ofCode_ascii {code : Nat} (h : code < 128) : ofCode code = [UInt8.ofNat code] := by
  rw [ofCode, String.utf8EncodeChar, toNat_val_ofNat (.inl (by omega)), if_pos (by omega)]

theorem toNat_twoBytes {a b : UInt8} (h : (0xC2 ≤ a && a ≤ 0xDF && isTail b) = true) :
    194 ≤ a.toNat ∧ a.toNat ≤ 223 ∧ 128 ≤ b.toNat ∧ b.toNat ≤ 191 := by
  simp only [Bool.and_eq_true, decide_eq_true_eq, UInt8.le_iff_toNat_le] at h
  exact ⟨h.1.1, h.1.2, (isTail_toNat h.2).1, (isTail_toNat h.2).2⟩

/-- The bytes of a character are those of its code. -/
theorem Rune.Valid.bytes_eq {r : Rune} (h : r.Valid) {code : Nat} (hc : r.code = some code) :
    r.bytes = ofCode code ∧ code < 0x110000 := by
  cases h with
  | @one a h =>
      cases hc
      have ha : a.toNat < 128 := UInt8.lt_iff_toNat_lt.mp h
      rw [ofCode_ascii ha, UInt8.ofNat_toNat]
      exact ⟨rfl, by omega⟩
  | @two a b h =>
      obtain ⟨ha, ha', hb, hb'⟩ := toNat_twoBytes h
      simp only [firstRune.two, tailBits, Option.some.injEq] at hc ⊢
      refine ⟨?_, by omega⟩
      rw [ofCode, String.utf8EncodeChar, toNat_val_ofNat (.inl (by omega)), if_neg (by omega),
        if_pos (by omega), ← eq_ofNat (a := a) (by omega), ← eq_ofNat (a := b) (by omega)]
  | @three a b c h =>
      rw [Bool.and_eq_true] at h
      obtain ⟨ha, ha', hb, hb', hab, hab'⟩ := isSecondOfThree_toNat h.1
      obtain ⟨hc₁, hc₂⟩ := isTail_toNat h.2
      simp only [firstRune.three, tailBits, Option.some.injEq] at hc ⊢
      have hv : code.isValidChar := by
        simp only [Nat.isValidChar]
        omega
      refine ⟨?_, by omega⟩
      rw [ofCode, String.utf8EncodeChar, toNat_val_ofNat hv, if_neg (by omega), if_neg (by omega),
        if_pos (by omega), ← eq_ofNat (a := a) (by omega), ← eq_ofNat (a := b) (by omega),
        ← eq_ofNat (a := c) (by omega)]
  | @four a b c d h =>
      rw [Bool.and_eq_true, Bool.and_eq_true] at h
      obtain ⟨ha, ha', hb, hb', hab, hab'⟩ := isSecondOfFour_toNat h.1.1
      obtain ⟨hc₁, hc₂⟩ := isTail_toNat h.1.2
      obtain ⟨hd₁, hd₂⟩ := isTail_toNat h.2
      simp only [tailBits, Option.some.injEq] at hc ⊢
      have hv : code.isValidChar := by
        simp only [Nat.isValidChar]
        omega
      refine ⟨?_, by omega⟩
      rw [ofCode, String.utf8EncodeChar, toNat_val_ofNat hv, if_neg (by omega), if_neg (by omega),
        if_neg (by omega), ← eq_ofNat (a := a) (by omega), ← eq_ofNat (a := b) (by omega),
        ← eq_ofNat (a := c) (by omega), ← eq_ofNat (a := d) (by omega)]
  | stray h => cases hc

/-! ## Reading escapes -/

def hexDigitValue (c : UInt8) : Nat := c.toNat - if c.toNat < 58 then 48 else 87

def hexValue (t : Text) : Nat := t.foldl (fun n c => 16 * n + hexDigitValue c) 0

theorem hexDigitValue_hexDigit : ∀ n < 16, hexDigitValue (hexDigit n) = n := by
  decide +kernel

theorem length_hex (width n : Nat) : (hex width n).length = width := by
  induction width generalizing n with
  | zero => rfl
  | succ width ih => rw [hex, List.length_append, ih, List.length_singleton]

theorem hexValue_hex (width n : Nat) : hexValue (hex width n) = n % Nat.pow 16 width := by
  induction width generalizing n with
  | zero => exact (Nat.mod_one n).symm
  | succ width ih =>
      have hp : Nat.pow 16 (width + 1) = 16 * Nat.pow 16 width := Nat.mul_comm ..
      have hd := hexDigitValue_hexDigit (n % 16) (Nat.mod_lt _ (by decide))
      have ih := ih (n / 16)
      rw [hexValue] at ih
      rw [hex, hexValue, List.foldl_append, ih, List.foldl_cons, List.foldl_nil, hd, hp,
        Nat.mod_mul, Nat.add_comm]

/-- How many bytes follow the first one of a character. -/
def tailLength (a : UInt8) : Nat :=
  if a.toNat < 128 then 0 else if a.toNat < 224 then 1 else if a.toNat < 240 then 2 else 3

/-- The byte that a letter after a backslash stands for. -/
def shortByte (c : UInt8) : UInt8 :=
  if c = 0x61 then 0x07 else if c = 0x62 then 0x08 else if c = 0x74 then 0x09
  else if c = 0x6E then 0x0A else if c = 0x76 then 0x0B else if c = 0x66 then 0x0C
  else if c = 0x72 then 0x0D else c

/-- The bytes that the first escape of a text stands for, and what follows it. -/
def readEscape : Text → Text × Text
  | [] => ([], [])
  | a :: rest =>
    if a = 0x5C then
      let kind := rest.headD 0
      let rest := rest.tail
      if kind = 0x78 then ([UInt8.ofNat (hexValue (rest.take 2))], rest.drop 2)
      else if kind = 0x75 then (ofCode (hexValue (rest.take 4)), rest.drop 4)
      else if kind = 0x55 then (ofCode (hexValue (rest.take 8)), rest.drop 8)
      else ([shortByte kind], rest)
    else (a :: rest.take (tailLength a), rest.drop (tailLength a))

theorem take_hex (width n : Nat) (rest : Text) :
    (hex width n ++ rest).take width = hex width n := by
  rw [List.take_left' (length_hex width n)]

theorem drop_hex (width n : Nat) (rest : Text) : (hex width n ++ rest).drop width = rest := by
  rw [List.drop_left' (length_hex width n)]

theorem readEscape_x (n : Nat) (rest : Text) :
    readEscape (utf8 "\\x" ++ hex 2 n ++ rest) = ([UInt8.ofNat (n % 256)], rest) := by
  have h : readEscape (utf8 "\\x" ++ (hex 2 n ++ rest)) =
    ([UInt8.ofNat (hexValue ((hex 2 n ++ rest).take 2))], (hex 2 n ++ rest).drop 2) := rfl
  rw [List.append_assoc, h, take_hex, drop_hex, hexValue_hex, show Nat.pow 16 2 = 256 from rfl]

theorem readEscape_u (n : Nat) (rest : Text) :
    readEscape (utf8 "\\u" ++ hex 4 n ++ rest) = (ofCode (n % 65536), rest) := by
  have h : readEscape (utf8 "\\u" ++ (hex 4 n ++ rest)) =
    (ofCode (hexValue ((hex 4 n ++ rest).take 4)), (hex 4 n ++ rest).drop 4) := rfl
  rw [List.append_assoc, h, take_hex, drop_hex, hexValue_hex, show Nat.pow 16 4 = 65536 from rfl]

theorem readEscape_U (n : Nat) (rest : Text) :
    readEscape (utf8 "\\U" ++ hex 8 n ++ rest) = (ofCode (n % 4294967296), rest) := by
  have h : readEscape (utf8 "\\U" ++ (hex 8 n ++ rest)) =
    (ofCode (hexValue ((hex 8 n ++ rest).take 8)), (hex 8 n ++ rest).drop 8) := rfl
  rw [List.append_assoc, h, take_hex, drop_hex, hexValue_hex,
    show Nat.pow 16 8 = 4294967296 from rfl]

/-- The first byte of a character tells how many follow, and is neither a quote nor a backslash
if the character is not. -/
theorem Rune.Valid.first {r : Rune} (h : r.Valid) {code : Nat} (hc : r.code = some code)
    (hq : code ≠ 0x22) (hb : code ≠ 0x5C) :
    ∃ a s, r.bytes = a :: s ∧ a ≠ 0x22 ∧ a ≠ 0x5C ∧ s.length = tailLength a := by
  have ne {a : UInt8} (ha : 128 ≤ a.toNat) : a ≠ 0x22 ∧ a ≠ 0x5C := by
    constructor
    all_goals
      rintro rfl
      exact absurd ha (by decide)
  cases h with
  | @one a h =>
      cases hc
      refine ⟨a, [], rfl, fun he => hq (congrArg UInt8.toNat he),
        fun he => hb (congrArg UInt8.toNat he), ?_⟩
      have ha : a.toNat < 128 := UInt8.lt_iff_toNat_lt.mp h
      rw [tailLength, if_pos ha]
      rfl
  | @two a b h =>
      obtain ⟨ha, ha', -⟩ := toNat_twoBytes h
      obtain ⟨hq, hb⟩ := ne (a := a) (by omega)
      refine ⟨a, [b], rfl, hq, hb, ?_⟩
      rw [tailLength, if_neg (by omega), if_pos (by omega)]
      rfl
  | @three a b c h =>
      rw [Bool.and_eq_true] at h
      obtain ⟨ha, ha', -⟩ := isSecondOfThree_toNat h.1
      obtain ⟨hq, hb⟩ := ne (a := a) (by omega)
      refine ⟨a, [b, c], rfl, hq, hb, ?_⟩
      rw [tailLength, if_neg (by omega), if_neg (by omega), if_pos (by omega)]
      rfl
  | @four a b c d h =>
      rw [Bool.and_eq_true, Bool.and_eq_true] at h
      obtain ⟨ha, ha', -⟩ := isSecondOfFour_toNat h.1.1
      obtain ⟨hq, hb⟩ := ne (a := a) (by omega)
      refine ⟨a, [b, c, d], rfl, hq, hb, ?_⟩
      rw [tailLength, if_neg (by omega), if_neg (by omega), if_neg (by omega)]
      rfl
  | stray h => cases hc

theorem readEscape_short {code : Nat} {escape : Text} (h : shortEscape? code = some escape)
    (rest : Text) : readEscape (escape ++ rest) = (ofCode code, rest) := by
  unfold shortEscape? at h
  split at h <;> cases h <;> rfl

/-- A character or stray byte is read back from its escape, whatever follows. -/
theorem readEscape_escape {r : Rune} (h : r.Valid) (rest : Text) :
    readEscape (r.escape ++ rest) = (r.bytes, rest) := by
  cases hc : r.code with
  | none =>
      cases h with
      | @stray a h =>
          simp only [Rune.escape, List.flatMap_cons, List.flatMap_nil, List.append_nil]
          rw [readEscape_x, Nat.mod_eq_of_lt a.toNat_lt, UInt8.ofNat_toNat]
      | _ => cases hc
  | some code =>
      obtain ⟨hb, hl⟩ := h.bytes_eq hc
      simp only [Rune.escape, hc, escapeCode]
      split
      · next he =>
          subst he
          rw [hb]
          rfl
      split
      · next he =>
          subst he
          rw [hb]
          rfl
      next hq hs =>
      split
      · -- a character as it is
        obtain ⟨a, s, hr, -, ha, hlen⟩ := h.first hc hq hs
        rw [hr, List.cons_append, readEscape, if_neg ha, List.take_left' hlen, List.drop_left' hlen]
      split
      · next escape he => rw [readEscape_short he, hb]
      split
      · next hx =>
          rw [readEscape_x, Nat.mod_eq_of_lt (by omega), hb, ofCode_ascii (by omega)]
      split
      · next hu => rw [readEscape_u, Nat.mod_eq_of_lt hu, hb]
      · rw [readEscape_U, Nat.mod_eq_of_lt (by omega), hb]

theorem head_escape {r : Rune} (h : r.Valid) : ∃ a s, r.escape = a :: s ∧ a ≠ 0x22 := by
  cases hc : r.code with
  | none =>
      cases h with
      | stray h => exact ⟨_, _, rfl, by decide⟩
      | _ => cases hc
  | some code =>
      simp only [Rune.escape, hc, escapeCode]
      split
      · exact ⟨_, _, rfl, by decide⟩
      split
      · exact ⟨_, _, rfl, by decide⟩
      next hq hs =>
      split
      · obtain ⟨a, s, hr, ha, -⟩ := h.first hc hq hs
        exact ⟨a, s, hr, ha⟩
      split
      · next escape he =>
          unfold shortEscape? at he
          split at he <;> cases he <;> exact ⟨_, _, rfl, by decide⟩
      · repeat' split
        all_goals exact ⟨_, _, rfl, by decide⟩

/-- Up to the quote that closes them, escapes are read back one by one. -/
theorem escapes_append_inj {rs rs' : List Rune} (hr : ∀ r ∈ rs, r.Valid)
    (hr' : ∀ r ∈ rs', r.Valid) {rest rest' : Text}
    (h : rs.flatMap Rune.escape ++ (0x22 :: rest) = rs'.flatMap Rune.escape ++ (0x22 :: rest')) :
    rs.flatMap Rune.bytes = rs'.flatMap Rune.bytes ∧ rest = rest' := by
  induction rs generalizing rs' with
  | nil =>
      cases rs' with
      | nil => exact ⟨rfl, (List.cons.inj h).2⟩
      | cons r' rs' =>
          obtain ⟨a, s, he, ha⟩ := head_escape (hr' r' (List.mem_cons_self ..))
          rw [List.flatMap_cons, he] at h
          exact absurd (List.cons.inj h).1.symm ha
  | cons r rs ih =>
      rw [List.forall_mem_cons] at hr
      cases rs' with
      | nil =>
          obtain ⟨a, s, he, ha⟩ := head_escape hr.1
          rw [List.flatMap_cons, he] at h
          exact absurd (List.cons.inj h).1 ha
      | cons r' rs' =>
          rw [List.forall_mem_cons] at hr'
          simp only [List.flatMap_cons, List.append_assoc] at h ⊢
          have h := congrArg readEscape h
          rw [readEscape_escape hr.1, readEscape_escape hr'.1, Prod.mk.injEq] at h
          obtain ⟨hb, hs⟩ := ih hr.2 hr'.2 h.2
          exact ⟨by rw [h.1, hb], hs⟩

/-- A quoted text and what follows it can be told apart. -/
theorem quote_append_inj {s t rest rest' : Text} (h : s.quote ++ rest = t.quote ++ rest') :
    s = t ∧ rest = rest' := by
  simp only [quote, inQuotes, List.append_assoc] at h
  have hr := escapes_append_inj (fun _ => runes_valid) (fun _ => runes_valid)
    (List.append_cancel_left h)
  rwa [flatMap_bytes_runes, flatMap_bytes_runes] at hr

end Scripting.Text
