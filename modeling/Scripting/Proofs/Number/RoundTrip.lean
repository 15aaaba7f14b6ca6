import Scripting.Number.Decimal

/-!
The decimal text of a finite number reads back as that number. A decimal is read
by its value alone, so dropping zeros at its end does not change what it is read
as; and the decimal that is written reads back as the number either because it was
tested or because it is exact.
-/

namespace Scripting.Number

/-! ## Rounding depends on the quotient alone -/

theorem roundQuotient_mul (a b : Nat) {k : Nat} (hk : 0 < k) :
    roundQuotient (a * k) (b * k) = roundQuotient a b := by
  have hr : 2 * (a % b * k) = 2 * (a % b) * k := (Nat.mul_assoc ..).symm
  simp only [roundQuotient, Nat.mul_div_mul_right _ _ hk, Nat.mul_mod_mul_right, hr,
    Nat.mul_lt_mul_right hk]

theorem nearest_mul (a b : Nat) {k : Nat} (hk : 0 < k) : nearest (a * k) (b * k) = nearest a b := by
  have hs : a * k * one = a * one * k := Nat.mul_right_comm ..
  have hd (shift : Nat) : b * k * Nat.pow 2 shift = b * Nat.pow 2 shift * k := Nat.mul_right_comm ..
  simp only [nearest, hs, hd, Nat.mul_div_mul_right _ _ hk, roundQuotient_mul _ _ hk]

theorem roundQuotient_exact (n : Nat) {d : Nat} (hd : 0 < d) : roundQuotient (n * d) d = n := by
  simp [roundQuotient, Nat.mul_div_cancel n hd, hd]

/-- The units of a magnitude without the low bits that rounding would take away. -/
theorem units_eq_shift (magnitude : Nat) :
    ∃ significand, units magnitude = significand * Nat.pow 2 ((units magnitude).log2 - 52) ∧
      significand + ((units magnitude).log2 - 52) * Nat.pow 2 52 = magnitude := by
  have hm := Nat.div_add_mod magnitude (Nat.pow 2 52)
  have hf : magnitude % Nat.pow 2 52 < 2 ^ 52 := Nat.mod_lt _ (by decide)
  cases he : magnitude / Nat.pow 2 52 with
  | zero =>
      rw [he, Nat.mul_zero, Nat.zero_add] at hm
      have hu : units magnitude = magnitude := by rw [units, he, if_pos rfl, hm]
      have hs : magnitude.log2 - 52 = 0 := by
        by_cases h0 : magnitude = 0
        · simp [h0]
        · have hl := (Nat.log2_lt h0).mpr (hm ▸ hf)
          omega
      exact ⟨magnitude, by rw [hu, hs]; exact (Nat.mul_one _).symm, by rw [hu, hs]; omega⟩
  | succ e =>
      have hu : units magnitude = (magnitude % Nat.pow 2 52 + 2 ^ 52) * 2 ^ e := by
        rw [units, he, if_neg (Nat.succ_ne_zero e)]
        rfl
      have hp : 0 < 2 ^ e := Nat.two_pow_pos e
      have hl : (units magnitude).log2 = 52 + e := by
        rw [hu, Nat.log2_eq_iff (Nat.ne_of_gt (Nat.mul_pos (by omega) hp)), Nat.pow_add,
          Nat.add_right_comm, Nat.pow_add]
        exact ⟨Nat.mul_le_mul_right _ (by omega), Nat.mul_lt_mul_of_pos_right (by omega) hp⟩
      have hs : (units magnitude).log2 - 52 = e := by omega
      refine ⟨magnitude % Nat.pow 2 52 + 2 ^ 52, by rw [hs]; exact hu, ?_⟩
      rw [he] at hm
      rw [hs]
      calc magnitude % Nat.pow 2 52 + 2 ^ 52 + e * Nat.pow 2 52
          = Nat.pow 2 52 * (e + 1) + magnitude % Nat.pow 2 52 := by
            rw [Nat.mul_succ, Nat.mul_comm e, Nat.pow_eq]
            omega
        _ = magnitude := hm

theorem one_pos : 0 < one := by
  unfold one
  generalize 1074 = n
  exact Nat.two_pow_pos n

/-- A number of units that needs no rounding is read as its magnitude. -/
theorem nearest_units {magnitude : Nat} (h : magnitude < infinity) :
    nearest (units magnitude) one = magnitude := by
  obtain ⟨significand, hu, hm⟩ := units_eq_shift magnitude
  have hq : units magnitude * one / one = units magnitude := Nat.mul_div_cancel _ one_pos
  simp only [nearest, hq]
  generalize (units magnitude).log2 - 52 = shift at hu hm
  have hd : 0 < one * Nat.pow 2 shift := Nat.mul_pos one_pos (Nat.two_pow_pos shift)
  have hs : units magnitude * one = significand * (one * Nat.pow 2 shift) := by
    rw [hu, Nat.mul_assoc, Nat.mul_comm one]
  rw [hs, roundQuotient_exact _ hd, hm, Nat.min_eq_right (Nat.le_of_lt h)]

end Scripting.Number

namespace Scripting.Decimal

/-- A decimal is read by its value: digits and powers of ten, above and below. -/
theorem nearest_eq (d : Decimal) :
    d.nearest = Number.nearest (d.digits * Nat.pow 10 d.exponent.toNat)
      (Nat.pow 10 (-d.exponent).toNat) := by
  obtain ⟨digits, exponent⟩ := d
  cases exponent with
  | ofNat e => simp [nearest]
  | negSucc e => simp [nearest, Int.neg_negSucc]

/-- A fraction over a power of two is a decimal. -/
theorem nearest_binary (n places : Nat) :
    nearest ⟨n * Nat.pow 5 places, -(places : Int)⟩ = Number.nearest n (Nat.pow 2 places) := by
  have hp : 0 < 5 ^ places := Nat.pow_pos (by decide)
  have hd : 10 ^ places = 2 ^ places * 5 ^ places := Nat.mul_pow 2 5 places
  simp [nearest_eq, hd, Number.nearest_mul _ _ hp]

theorem nearest_exact {magnitude : Nat} (h : magnitude < Number.infinity) :
    (exact (Number.units magnitude)).nearest = magnitude := by
  obtain ⟨places, ho, he⟩ : ∃ places : Nat, Number.one = Nat.pow 2 places ∧
      exact (Number.units magnitude) =
        ⟨Number.units magnitude * Nat.pow 5 places, -(places : Int)⟩ := by
    refine ⟨1074, rfl, ?_⟩
    unfold exact
    congr 1
  rw [he, nearest_binary, ← ho, Number.nearest_units h]

/-- What is written for a finite magnitude is read as it. -/
theorem nearest_shortest {magnitude : Nat} (h : magnitude < Number.infinity) :
    (shortest magnitude).nearest = magnitude := by
  simp only [shortest]
  generalize hf : List.findSome? _ _ = found
  cases found with
  | none => exact nearest_exact h
  | some d =>
      obtain ⟨count, -, hd⟩ := List.exists_of_findSome?_eq_some hf
      have hr := List.find?_some hd
      simpa only [decide_eq_true_eq, Option.getD_some] using hr

theorem nearest_trim (d : Decimal) : d.trim.nearest = d.nearest := by
  fun_induction trim d with
  | case1 d h ih =>
      obtain ⟨digits, exponent⟩ := d
      have hd : digits / 10 * 10 = digits := Nat.div_mul_cancel (Nat.dvd_of_mod_eq_zero h.2)
      rw [ih, nearest_eq, nearest_eq]
      simp only [Nat.pow_eq]
      by_cases he : 0 ≤ exponent
      · have h₁ : (exponent + 1).toNat = exponent.toNat + 1 := by omega
        have h₂ : (-(exponent + 1)).toNat = (-exponent).toNat := by omega
        rw [h₁, h₂, Nat.pow_succ', ← Nat.mul_assoc, hd]
      · have h₁ : (exponent + 1).toNat = exponent.toNat := by omega
        have h₂ : (-exponent).toNat = (-(exponent + 1)).toNat + 1 := by omega
        rw [h₁, h₂, Nat.pow_succ, ← Number.nearest_mul _ _ (show 0 < 10 by decide),
          Nat.mul_right_comm, hd]
  | case2 d h => rfl

end Scripting.Decimal

namespace Scripting.Number

/-! ## Digits -/

/-- A text of digits only. -/
def AllDigits (t : Text) : Prop := ∀ c ∈ t, isDigit c = true

theorem digitsValue_append (s t : Text) :
    digitsValue (s ++ t) = digitsValue s * Nat.pow 10 t.length + digitsValue t := by
  have h (t : Text) (n : Nat) :
      t.foldl (fun n c => 10 * n + (c.toNat - 48)) n = n * 10 ^ t.length + digitsValue t := by
    induction t generalizing n with
    | nil => simp [digitsValue]
    | cons c t ih =>
        rw [digitsValue, List.foldl_cons, List.foldl_cons, ih, ih (10 * 0 + _), List.length_cons,
          Nat.pow_succ']
        grind
  rw [digitsValue, List.foldl_append, h t]
  rfl

theorem digitsValue_zeros (n : Nat) : digitsValue (Decimal.zeros n) = 0 := by
  induction n with
  | zero => rfl
  | succ n ih =>
      rw [Decimal.zeros, List.replicate_succ', digitsValue_append]
      simp only [Decimal.zeros] at ih
      rw [ih]
      rfl

theorem allDigits_zeros (n : Nat) : AllDigits (Decimal.zeros n) := by
  intro c hc
  rw [Decimal.zeros, List.mem_replicate] at hc
  rw [hc.2]
  rfl

theorem encode_digit {n : Nat} (h : n < 10) :
    String.utf8EncodeChar n.digitChar = [UInt8.ofNat (48 + n)] := by
  match n, h with
  | 0, _ | 1, _ | 2, _ | 3, _ | 4, _ | 5, _ | 6, _ | 7, _ | 8, _ | 9, _ => rfl

/-- The last digit of a number and the digits before it. -/
theorem ofNat_eq (n : Nat) :
    Text.ofNat n =
      if n < 10 then [UInt8.ofNat (48 + n)]
      else Text.ofNat (n / 10) ++ [UInt8.ofNat (48 + n % 10)] := by
  have hm : n % 10 < 10 := Nat.mod_lt _ (by decide)
  simp only [Text.ofNat, Text.utf8, String.toList_ofList]
  rw [Nat.toDigits_eq_if (by decide)]
  split
  · next h => simp [encode_digit h]
  · simp [encode_digit hm]

theorem toNat_digit {n : Nat} (h : n < 10) : (UInt8.ofNat (48 + n)).toNat - 48 = n := by
  rw [UInt8.toNat_ofNat_of_lt' (by simp [UInt8.size]; omega)]
  omega

theorem isDigit_digit {n : Nat} (h : n < 10) : isDigit (UInt8.ofNat (48 + n)) = true := by
  match n, h with
  | 0, _ | 1, _ | 2, _ | 3, _ | 4, _ | 5, _ | 6, _ | 7, _ | 8, _ | 9, _ => rfl

theorem ofNat_digits (n : Nat) :
    digitsValue (Text.ofNat n) = n ∧ AllDigits (Text.ofNat n) ∧ Text.ofNat n ≠ [] := by
  induction n using Nat.strongRecOn with
  | ind n ih =>
      rw [ofNat_eq]
      split
      · next h =>
          refine ⟨by simpa [digitsValue] using toNat_digit h, ?_, by simp⟩
          intro c hc
          rw [List.mem_singleton.mp hc]
          exact isDigit_digit h
      · next h =>
          have hm : n % 10 < 10 := Nat.mod_lt _ (by decide)
          obtain ⟨hv, ha, -⟩ := ih (n / 10) (by omega)
          refine ⟨?_, ?_, by simp⟩
          · have hd : digitsValue [UInt8.ofNat (48 + n % 10)] = n % 10 := by
              simpa [digitsValue] using toNat_digit hm
            rw [digitsValue_append, hv, hd, List.length_singleton, Nat.pow_eq]
            omega
          · intro c hc
            obtain hc | hc := List.mem_append.mp hc
            · exact ha c hc
            · rw [List.mem_singleton.mp hc]
              exact isDigit_digit hm

/-! ## Literals -/

/-- Digits, or digits on both sides of a point. -/
inductive IsLiteral : Text → Prop
  | whole {w : Text} (hw : AllDigits w) (hn : w ≠ []) : IsLiteral w
  | fraction {w f : Text} (hw : AllDigits w) (hn : w ≠ []) (hf : AllDigits f) (hm : f ≠ []) :
      IsLiteral (w ++ Text.utf8 "." ++ f)

theorem IsLiteral.ne_nil {t : Text} (h : IsLiteral t) : t ≠ [] := by
  cases h with
  | whole hw hn => exact hn
  | fraction hw hn hf hm => simp [hn]

theorem ofLiteral_whole {w : Text} (hw : AllDigits w) :
    ofLiteral w = ofMagnitude false (nearest (digitsValue w) 1) := by
  have ht : (w ++ []).takeWhile isDigit = w ++ [] := List.takeWhile_append_of_pos hw
  have hd : (w ++ []).dropWhile isDigit = [] := List.dropWhile_append_of_pos hw
  rw [List.append_nil] at ht hd
  simp [ofLiteral, ht, hd]

theorem ofLiteral_fraction {w : Text} (hw : AllDigits w) (f : Text) :
    ofLiteral (w ++ Text.utf8 "." ++ f) =
      ofMagnitude false (nearest (digitsValue (w ++ f)) (Nat.pow 10 f.length)) := by
  have ht : (Text.utf8 "." ++ f).takeWhile isDigit = [] := rfl
  have hd : (Text.utf8 "." ++ f).dropWhile isDigit = Text.utf8 "." ++ f := rfl
  rw [List.append_assoc, ofLiteral, List.takeWhile_append_of_pos hw,
    List.dropWhile_append_of_pos hw, ht, hd, List.append_nil]
  rfl

end Scripting.Number

namespace Scripting.Decimal

open Number (AllDigits IsLiteral digitsValue)

/-- The text of a decimal is a literal and is read as the decimal is. -/
theorem positional_literal (d : Decimal) :
    IsLiteral d.positional ∧
      Number.ofLiteral d.positional = Number.ofMagnitude false d.nearest := by
  obtain ⟨digits, exponent⟩ := d
  obtain ⟨hv, ha, hn⟩ := Number.ofNat_digits digits
  match exponent with
  | .ofNat e =>
      have hz : AllDigits (Text.ofNat digits ++ zeros e) := by
        intro c hc
        exact (List.mem_append.mp hc).elim (ha c) (Number.allDigits_zeros e c)
      have hd : digitsValue (Text.ofNat digits ++ zeros e) = digits * Nat.pow 10 e := by
        rw [Number.digitsValue_append, hv, Number.digitsValue_zeros, zeros, List.length_replicate]
        rfl
      refine ⟨.whole hz fun h => hn (List.append_eq_nil_iff.mp h).1, ?_⟩
      rw [positional, Number.ofLiteral_whole hz, hd]
      rfl
  | .negSucc e =>
      simp only [positional]
      split
      · next hl =>
          -- the point falls between the digits
          generalize hk : (Text.ofNat digits).length - (e + 1) = k
          have hw : AllDigits ((Text.ofNat digits).take k) := fun c hc =>
            ha c (List.mem_of_mem_take hc)
          have hf : AllDigits ((Text.ofNat digits).drop k) := fun c hc =>
            ha c (List.mem_of_mem_drop hc)
          have hlen : ((Text.ofNat digits).drop k).length = e + 1 := by
            rw [List.length_drop]
            omega
          refine ⟨.fraction hw ?_ hf (List.ne_nil_of_length_eq_add_one hlen), ?_⟩
          · exact List.ne_nil_of_length_pos (by rw [List.length_take]; omega)
          · rw [Number.ofLiteral_fraction hw, List.take_append_drop, hv, hlen]
            rfl
      · next hl =>
          -- zeros stand between the point and the digits
          generalize hk : e + 1 - (Text.ofNat digits).length = k
          have hf : AllDigits (zeros k ++ Text.ofNat digits) := by
            intro c hc
            exact (List.mem_append.mp hc).elim (Number.allDigits_zeros k c) (ha c)
          have hlen : (zeros k ++ Text.ofNat digits).length = e + 1 := by
            rw [List.length_append, zeros, List.length_replicate]
            omega
          have hval : digitsValue (Text.utf8 "0" ++ (zeros k ++ Text.ofNat digits)) = digits := by
            have h0 : digitsValue (Text.utf8 "0") = 0 := rfl
            rw [Number.digitsValue_append, Number.digitsValue_append, Number.digitsValue_zeros, hv,
              h0, Nat.zero_mul, Nat.zero_mul, Nat.zero_add, Nat.zero_add]
          have h0 : AllDigits (Text.utf8 "0") := Number.allDigits_zeros 1
          have hz : Text.utf8 "0." ++ zeros k ++ Text.ofNat digits =
              Text.utf8 "0" ++ Text.utf8 "." ++ (zeros k ++ Text.ofNat digits) := by
            rw [List.append_assoc]
            rfl
          rw [hz]
          refine ⟨.fraction h0 (by decide) hf (List.ne_nil_of_length_eq_add_one hlen), ?_⟩
          rw [Number.ofLiteral_fraction h0, hval, hlen]
          rfl

end Scripting.Decimal

namespace Scripting.Number

theorem ofMagnitude_magnitude {x : Number} (hn : x.isNegative = false) :
    ofMagnitude false x.magnitude = x := by
  obtain ⟨bits⟩ := x
  have hl : bits.toNat < Nat.pow 2 63 := Nat.lt_of_not_le (of_decide_eq_false hn)
  simp [ofMagnitude, magnitude, Nat.mod_eq_of_lt hl]

theorem isNegative_ofMagnitude {m : Nat} (h : m ≤ infinity) :
    (ofMagnitude false m).isNegative = false := by
  have hl : m < 2 ^ 63 := Nat.lt_of_le_of_lt h (by decide)
  have hm : m % 2 ^ 64 = m := Nat.mod_eq_of_lt (by omega)
  simp only [isNegative, ofMagnitude, UInt64.toNat_ofNat', decide_eq_false_iff_not]
  simp only [Bool.false_eq_true, if_false, Nat.add_zero, hm]
  exact Nat.not_le_of_lt hl

/-- Literals are read as numbers that are not negative. -/
theorem isNegative_ofLiteral (t : Text) : (ofLiteral t).isNegative = false :=
  isNegative_ofMagnitude (Nat.min_le_left ..)

theorem nearest_zero (d : Nat) : nearest 0 d = 0 := by
  simp [nearest, roundQuotient]

/-- What is written for a number that is finite and not negative is a literal, and
it reads back as the number. -/
theorem positional_literal {x : Number} (hf : x.isFinite = true) (hn : x.isNegative = false) :
    IsLiteral x.positional ∧ ofLiteral x.positional = x := by
  have hx := ofMagnitude_magnitude hn
  simp only [positional, signed, hn, Bool.false_eq_true, if_false]
  split
  · next h0 =>
      have hz : AllDigits (Text.utf8 "0") := allDigits_zeros 1
      refine ⟨.whole hz (by decide), ?_⟩
      rw [ofLiteral_whole hz, show digitsValue (Text.utf8 "0") = 0 from rfl, nearest_zero, ← h0, hx]
  · obtain ⟨hl, hr⟩ := Decimal.positional_literal (Decimal.shortest x.magnitude).trim
    refine ⟨hl, ?_⟩
    rw [hr, Decimal.nearest_trim, Decimal.nearest_shortest (of_decide_eq_true hf), hx]

end Scripting.Number
