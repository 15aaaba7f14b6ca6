import Scripting.Proofs.Format.Lexing

/-!
The text of a number as programs see it tells the number, if it is finite and not negative:
a text without an exponent is a literal, and from one with an exponent the digits and the
power of ten can be read again.
-/

namespace Scripting

/-- Two runs of bytes, each followed by a byte that does not go on with it. -/
theorem Text.append_inj_of_run {test : UInt8 → Bool} {s t rest rest' : Text}
    (hs : ∀ b ∈ s, test b = true) (ht : ∀ b ∈ t, test b = true)
    (hr : ∀ c, rest.head? = some c → test c = false)
    (hr' : ∀ c, rest'.head? = some c → test c = false) (h : s ++ rest = t ++ rest') :
    s = t ∧ rest = rest' := by
  have hl : s.length = t.length := by
    rw [← Format.run_append hs hr, h, Format.run_append ht hr']
  exact List.append_inj h hl

namespace Decimal

open Number (AllDigits digitsValue isDigit)

/-- The digits with a point after the first of them, if there are others. -/
def mantissa (digits : Text) : Text :=
  digits.take 1 ++ if digits.length = 1 then [] else Text.utf8 "." ++ digits.drop 1

theorem filter_mantissa {digits : Text} (h : AllDigits digits) :
    (mantissa digits).filter isDigit = digits := by
  have hk (k : Nat) : (digits.take k).filter isDigit = digits.take k ∧
      (digits.drop k).filter isDigit = digits.drop k := by
    rw [List.filter_eq_self, List.filter_eq_self]
    exact ⟨fun c hc => h c (List.mem_of_mem_take hc), fun c hc => h c (List.mem_of_mem_drop hc)⟩
  have hp : (Text.utf8 ".").filter isDigit = [] := rfl
  rw [mantissa]
  split
  · next hl => rw [List.append_nil, (hk 1).1, List.take_of_length_le (by omega)]
  · rw [List.filter_append, List.filter_append, hp, (hk 1).1, (hk 1).2, List.nil_append,
      List.take_append_drop]

/-- Whether a byte may stand in a number before its exponent. -/
def isMantissaByte (c : UInt8) : Bool := isDigit c || c = 0x2E

theorem of_mem_mantissa {digits : Text} (h : AllDigits digits) {c : UInt8}
    (hc : c ∈ mantissa digits) : isMantissaByte c = true := by
  have digit {c : UInt8} (hc : c ∈ digits) : isMantissaByte c = true := by
    rw [isMantissaByte, h c hc, Bool.true_or]
  rw [mantissa, List.mem_append] at hc
  obtain hc | hc := hc
  · exact digit (List.mem_of_mem_take hc)
  split at hc
  · cases hc
  · obtain hc | hc := List.mem_append.mp hc
    · rw [List.mem_singleton.mp hc]
      rfl
    · exact digit (List.mem_of_mem_drop hc)

/-- The power of ten of the first digit. -/
def power (d : Decimal) : Int := d.exponent + (Text.ofNat d.digits).length - 1

/-- The power of ten without its sign. -/
def powerDigits (d : Decimal) : Text :=
  zeros (2 - (Text.ofNat d.power.natAbs).length) ++ Text.ofNat d.power.natAbs

theorem scientific_eq (d : Decimal) :
    d.scientific = mantissa (Text.ofNat d.digits) ++
      (Text.utf8 (if d.power < 0 then "e-" else "e+") ++ d.powerDigits) := by
  simp only [scientific, mantissa, List.append_assoc]
  rfl

theorem digitsValue_powerDigits (d : Decimal) : digitsValue d.powerDigits = d.power.natAbs := by
  rw [powerDigits, Number.digitsValue_append, Number.digitsValue_zeros, Nat.zero_mul, Nat.zero_add,
    (Number.ofNat_digits _).1]

theorem allDigits_powerDigits (d : Decimal) : AllDigits d.powerDigits := by
  intro c hc
  obtain hc | hc := List.mem_append.mp hc
  · exact Number.allDigits_zeros _ c hc
  · exact (Number.ofNat_digits _).2.1 c hc

/-- Whether a byte may stand in a number. -/
def isDisplayByte (c : UInt8) : Bool := isMantissaByte c || c = 0x65 || c = 0x2B || c = 0x2D

theorem isDisplayByte_of_mantissa {c : UInt8} (h : isMantissaByte c = true) :
    isDisplayByte c = true := by
  simp only [isDisplayByte, h, Bool.true_or]

theorem of_mem_scientific {d : Decimal} {c : UInt8} (hc : c ∈ d.scientific) :
    isDisplayByte c = true := by
  have hd := (Number.ofNat_digits d.digits).2.1
  simp only [scientific_eq, List.mem_append] at hc
  obtain hc | hc | hc := hc
  · exact isDisplayByte_of_mantissa (of_mem_mantissa hd hc)
  · have marker : ((Text.utf8 "e-" ++ Text.utf8 "e+").all isDisplayByte) = true := rfl
    apply List.all_eq_true.mp marker c
    split at hc
    · exact List.mem_append_left _ hc
    · exact List.mem_append_right _ hc
  · apply isDisplayByte_of_mantissa
    rw [isMantissaByte, allDigits_powerDigits d c hc, Bool.true_or]

theorem exponent_mem_scientific (d : Decimal) : 0x65 ∈ d.scientific := by
  rw [scientific_eq]
  apply List.mem_append_right
  split <;> exact List.mem_cons_self ..

theorem head_scientific (d : Decimal) : ∃ c s, d.scientific = c :: s ∧ isDigit c = true := by
  obtain ⟨-, ha, hn⟩ := Number.ofNat_digits d.digits
  rw [scientific_eq]
  cases ht : Text.ofNat d.digits with
  | nil => exact absurd ht hn
  | cons c s =>
      rw [ht] at ha
      exact ⟨c, _, rfl, ha c (List.mem_cons_self ..)⟩

theorem scientific_inj {d d' : Decimal} (h : d.scientific = d'.scientific) : d = d' := by
  have head (d : Decimal) (c : UInt8)
      (hc : (Text.utf8 (if d.power < 0 then "e-" else "e+") ++ d.powerDigits).head? = some c) :
      isMantissaByte c = false := by
    split at hc <;> cases hc <;> rfl
  have hd := (Number.ofNat_digits d.digits).2.1
  have hd' := (Number.ofNat_digits d'.digits).2.1
  rw [scientific_eq, scientific_eq] at h
  obtain ⟨hm, hp⟩ := Text.append_inj_of_run (fun c => of_mem_mantissa hd)
    (fun c => of_mem_mantissa hd') (head d) (head d') h
  have hdigits : Text.ofNat d.digits = Text.ofNat d'.digits := by
    rw [← filter_mantissa hd, hm, filter_mantissa hd']
  have hvalue : d.digits = d'.digits := by
    rw [← (Number.ofNat_digits d.digits).1, hdigits, (Number.ofNat_digits d'.digits).1]
  have hpower : d.power = d'.power := by
    have hs : d.powerDigits = d'.powerDigits ∧ (d.power < 0 ↔ d'.power < 0) := by
      by_cases hn : d.power < 0 <;> by_cases hn' : d'.power < 0 <;>
        simp only [hn, hn', if_true, if_false] at hp
      · exact ⟨List.append_cancel_left hp, by simp [hn, hn']⟩
      · cases hp
      · cases hp
      · exact ⟨List.append_cancel_left hp, by simp [hn, hn']⟩
    have ha : d.power.natAbs = d'.power.natAbs := by
      rw [← digitsValue_powerDigits, hs.1, digitsValue_powerDigits]
    omega
  have he : d.exponent = d'.exponent := by
    rw [power, power, hdigits] at hpower
    omega
  cases d
  cases d'
  simp_all

end Decimal

namespace Number

theorem of_mem_literal {t : Text} (h : IsLiteral t) {c : UInt8} (hc : c ∈ t) :
    Decimal.isMantissaByte c = true := by
  have digit {s : Text} (hs : AllDigits s) (hc : c ∈ s) : Decimal.isMantissaByte c = true := by
    rw [Decimal.isMantissaByte, hs c hc, Bool.true_or]
  cases h with
  | whole hw hn => exact digit hw hc
  | fraction hw hn hf hm =>
      simp only [List.mem_append] at hc
      obtain (hc | hc) | hc := hc
      · exact digit hw hc
      · rw [List.mem_singleton.mp hc]
        rfl
      · exact digit hf hc

theorem head_literal {t : Text} (h : IsLiteral t) : ∃ c s, t = c :: s ∧ isDigit c = true := by
  cases t with
  | nil => exact absurd rfl h.ne_nil
  | cons c s =>
      have hb : Format.breaks [] = true := rfl
      exact ⟨c, s, rfl, (Format.numberRun_literal h hb).1⟩

variable {x y : Number}

section
variable (hf : x.isFinite = true) (hn : x.isNegative = false)
include hf hn

theorem display_eq :
    x.display = if hasExponent x.magnitude then (Decimal.shortest x.magnitude).trim.scientific
      else x.positional := by
  have hm : x.magnitude < infinity := of_decide_eq_true hf
  have hnan : x.isNaN = false := decide_eq_false (by omega)
  simp only [display, hnan, hf, signed, hn, Bool.not_true, Bool.false_eq_true, if_false]

theorem of_mem_display {c : UInt8} (hc : c ∈ x.display) : Decimal.isDisplayByte c = true := by
  rw [display_eq hf hn] at hc
  split at hc
  · exact Decimal.of_mem_scientific hc
  · exact Decimal.isDisplayByte_of_mantissa (of_mem_literal (positional_literal hf hn).1 hc)

theorem head_display : ∃ c s, x.display = c :: s ∧ isDigit c = true := by
  rw [display_eq hf hn]
  split
  · exact Decimal.head_scientific _
  · exact head_literal (positional_literal hf hn).1

end

/-- Numbers that are finite and not negative can be told by their texts. -/
theorem display_inj (hf : x.isFinite = true) (hn : x.isNegative = false)
    (hf' : y.isFinite = true) (hn' : y.isNegative = false) (h : x.display = y.display) : x = y := by
  -- an exponent never looks like a literal
  have apart {x : Number} (hf : x.isFinite = true) (hn : x.isNegative = false) (d : Decimal) :
      x.positional ≠ d.scientific := by
    intro h
    have he := d.exponent_mem_scientific
    rw [← h] at he
    exact absurd (of_mem_literal (positional_literal hf hn).1 he) (by decide)
  rw [display_eq hf hn, display_eq hf' hn'] at h
  split at h <;> split at h
  · have hm : x.magnitude = y.magnitude := by
      rw [← Decimal.nearest_shortest (of_decide_eq_true hf), ← Decimal.nearest_trim,
        Decimal.scientific_inj h, Decimal.nearest_trim,
        Decimal.nearest_shortest (of_decide_eq_true hf')]
    rw [← ofMagnitude_magnitude hn, hm, ofMagnitude_magnitude hn']
  · exact absurd h.symm (apart hf' hn' _)
  · exact absurd h (apart hf hn _)
  · rw [← (positional_literal hf hn).2, h, (positional_literal hf' hn').2]

end Number

end Scripting
