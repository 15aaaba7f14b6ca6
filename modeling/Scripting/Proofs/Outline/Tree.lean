import Scripting.Proofs.Number.Display
import Scripting.Proofs.Text.Quoting

/-!
Trees in parentheses. A node is written as its children with a space between them, and a
leaf as a word, a number or a quoted text. What is written for a tree tells the tree and
where it ends, if a space, a closing parenthesis or the end of the line follows it.
-/

namespace Scripting.Outline

open Format (Spelled forall_byte)

/-- What may stand after a word: a comma, or a type after a colon. -/
inductive Suffix where
  | none
  | comma
  | type (type : Text)

/-- What stands at the leaves of a tree. -/
inductive Leaf where
  | word (text : Text) (suffix : Suffix)
  | number (value : Number)
  | text (value : Text)

inductive Tree where
  | leaf (leaf : Leaf)
  | node (children : List Tree)

def Suffix.print : Suffix → Text
  | none => []
  | comma => Text.utf8 ","
  | type t => Text.utf8 ":" ++ t

def Leaf.print : Leaf → Text
  | word t suffix => t ++ suffix.print
  | number x => x.display
  | text t => t.quote

mutual

def Tree.print : Tree → Text
  | leaf l => l.print
  | node [] => Text.utf8 "()"
  | node (t :: rest) => Text.utf8 "(" ++ (t.print ++ (Tree.printEach rest ++ Text.utf8 ")"))

/-- The trees, each after a space. -/
def Tree.printEach : List Tree → Text
  | [] => []
  | t :: rest => Text.utf8 " " ++ (t.print ++ Tree.printEach rest)

end

/-- The bytes that end what stands before them: a space, a closing parenthesis and the end of
a line. -/
def isEnd (c : UInt8) : Bool := c = 0x20 || c = 0x29 || c = 0x0A

/-- Whether a byte may stand in a word: none that ends it, no parenthesis, quote, comma or
colon. -/
def isPlain (c : UInt8) : Bool :=
  !isEnd c && c != 0x28 && c != 0x22 && c != 0x2C && c != 0x3A

/-- The texts that can be told as words. A digit begins a number. -/
structure PlainWord (t : Text) : Prop where
  plain : ∀ c ∈ t, isPlain c = true
  head : ∃ c s, t = c :: s ∧ Number.isDigit c = false

theorem plainWord_of_test {t : Text}
    (h : (t.all isPlain && t.head?.any fun c => !Number.isDigit c) = true) : PlainWord t := by
  rw [Bool.and_eq_true, List.all_eq_true] at h
  cases t with
  | nil => cases h.2
  | cons c s => exact ⟨h.1, c, s, rfl, (Bool.not_eq_true' _).mp h.2⟩

def Suffix.Good : Suffix → Prop
  | none | comma => True
  | type t => ∃ kind, Spelled kind t

def Leaf.Good : Leaf → Prop
  | word t suffix => PlainWord t ∧ suffix.Good
  | number x => x.isFinite = true ∧ x.isNegative = false
  | text _ => True

/-- Trees with such leaves as can be told. -/
inductive Tree.Good : Tree → Prop
  | leaf {l : Leaf} (h : l.Good) : Good (.leaf l)
  | node {ts : List Tree} (h : ∀ t ∈ ts, Good t) : Good (.node ts)

/-- The text begins with a byte that ends what stands before it. -/
def Ends (rest : Text) : Prop := ∃ c s, rest = c :: s ∧ isEnd c = true

theorem Ends.head {rest : Text} (h : Ends rest) {c : UInt8} (hc : rest.head? = some c) :
    isEnd c = true := by
  obtain ⟨d, s, rfl, hd⟩ := h
  cases hc
  exact hd

theorem append_inj_of_ends {s t rest rest' : Text} (hs : ∀ b ∈ s, isEnd b = false)
    (ht : ∀ b ∈ t, isEnd b = false) (hr : Ends rest) (hr' : Ends rest')
    (h : s ++ rest = t ++ rest') : s = t ∧ rest = rest' := by
  have go : ∀ b, isEnd b = false → (!isEnd b) = true := fun b hb => by rw [hb]; rfl
  have stop : ∀ b, isEnd b = true → (!isEnd b) = false := fun b hb => by rw [hb]; rfl
  exact Text.append_inj_of_run (fun b hb => go b (hs b hb)) (fun b hb => go b (ht b hb))
    (fun b hb => stop b (hr.head hb)) (fun b hb => stop b (hr'.head hb)) h

/-! ## Leaves -/

/-- A type is one mark, or it has no byte that ends it. -/
theorem spelled_shape {kind : Token.Kind} {t : Text} (h : Spelled kind t) :
    ∃ c s, t = c :: s ∧ ((Piece.punctuation? c).isSome = true ∧ s = [] ∨
      Piece.punctuation? c = none ∧ ∀ b ∈ t, isEnd b = false) := by
  have name : ∀ b : UInt8, Piece.isNameByte b = true → isEnd b = false :=
    forall_byte (by decide +kernel)
  have letter : ∀ b : UInt8, Piece.isLetter b = true → isEnd b = false :=
    forall_byte (by decide +kernel)
  have number : ∀ b : UInt8, Decimal.isMantissaByte b = true → isEnd b = false :=
    forall_byte (by decide +kernel)
  cases h with
  | @punctuation c _ h => exact ⟨c, [], rfl, .inl ⟨by rw [h]; rfl, rfl⟩⟩
  | number ht hf =>
      obtain ⟨c, s, rfl, hc⟩ := Number.head_literal ht
      refine ⟨c, s, rfl, .inr ⟨(Format.digit_facts c hc).2.2.1, fun b hb => ?_⟩⟩
      exact number b (Number.of_mem_literal ht hb)
  | @name c s hc ht =>
      refine ⟨c, s, rfl, .inr ⟨(Format.letter_facts c hc).2.2.1, fun b hb => ?_⟩⟩
      obtain rfl | hb := List.mem_cons.mp hb
      · exact letter b hc
      · exact name b (ht b hb)

theorem spelled_append_inj {kind kind' : Token.Kind} {t t' : Text} (ht : Spelled kind t)
    (ht' : Spelled kind' t') {rest rest' : Text} (hr : Ends rest) (hr' : Ends rest')
    (h : t ++ rest = t' ++ rest') : t = t' ∧ rest = rest' := by
  obtain ⟨c, s, rfl, hs⟩ := spelled_shape ht
  obtain ⟨c', s', rfl, hs'⟩ := spelled_shape ht'
  obtain rfl : c = c' := (List.cons.inj h).1
  obtain ⟨hc, rfl⟩ | ⟨hc, hs⟩ := hs
  · obtain ⟨-, rfl⟩ | ⟨hc', -⟩ := hs'
    · exact ⟨rfl, (List.cons.inj h).2⟩
    · rw [hc'] at hc
      cases hc
  · obtain ⟨hc', -⟩ | ⟨-, hs'⟩ := hs'
    · rw [hc] at hc'
      cases hc'
    · exact append_inj_of_ends hs hs' hr hr' h

theorem Suffix.append_inj {s s' : Suffix} (hs : s.Good) (hs' : s'.Good) {rest rest' : Text}
    (hr : Ends rest) (hr' : Ends rest') (h : s.print ++ rest = s'.print ++ rest') :
    s = s' ∧ rest = rest' := by
  have comma {rest t : Text} (hr : Ends rest) : rest ≠ Text.utf8 "," ++ t := by
    rintro rfl
    exact absurd (hr.head rfl) (by decide)
  have colon {rest t u : Text} (hr : Ends rest) : rest ≠ Text.utf8 ":" ++ t ++ u := by
    rintro rfl
    exact absurd (hr.head rfl) (by decide)
  cases s with
  | none =>
      cases s' with
      | none => exact ⟨rfl, h⟩
      | comma => exact absurd h (comma hr)
      | type t => exact absurd h (colon hr)
  | comma =>
      cases s' with
      | none => exact absurd h.symm (comma hr')
      | comma => exact ⟨rfl, List.append_cancel_left h⟩
      | type t => cases h
  | type t =>
      cases s' with
      | none => exact absurd h.symm (colon hr')
      | comma => cases h
      | type t' =>
          obtain ⟨kind, ht⟩ := hs
          obtain ⟨kind', ht'⟩ := hs'
          simp only [Suffix.print, List.append_assoc] at h
          obtain ⟨rfl, he⟩ := spelled_append_inj ht ht' hr hr' (List.append_cancel_left h)
          exact ⟨rfl, he⟩

/-- What follows a word does not go on with it. -/
theorem Suffix.not_plain (s : Suffix) {rest : Text} (hr : Ends rest) {c : UInt8}
    (hc : (s.print ++ rest).head? = some c) : isPlain c = false := by
  cases s with
  | none =>
      rw [isPlain, hr.head hc]
      rfl
  | comma | type =>
      cases hc
      rfl

/-- What the first byte of a tree tells. -/
inductive Start where
  | node | number | text | word | none
  deriving DecidableEq

def Start.of (c : UInt8) : Start :=
  if c = 0x28 then node else if Number.isDigit c then number else if c = 0x22 then text
  else if isPlain c then word else none

def Begins (t : Text) (start : Start) : Prop := ∃ c s, t = c :: s ∧ Start.of c = start

theorem Begins.unique {s t rest rest' : Text} {x y : Start} (hs : Begins s x) (ht : Begins t y)
    (h : s ++ rest = t ++ rest') : x = y := by
  obtain ⟨c, u, rfl, rfl⟩ := hs
  obtain ⟨d, v, rfl, rfl⟩ := ht
  rw [(List.cons.inj h).1]

def Leaf.start : Leaf → Start
  | word _ _ => .word
  | number _ => .number
  | text _ => .text

theorem Leaf.Good.begins {l : Leaf} (h : l.Good) : Begins l.print l.start := by
  cases l with
  | word t suffix =>
      obtain ⟨⟨hp, c, s, rfl, hd⟩, -⟩ := h
      have plain : ∀ c : UInt8, isPlain c = true → Number.isDigit c = false →
        Start.of c = .word := forall_byte (by decide +kernel)
      exact ⟨c, s ++ suffix.print, rfl, plain c (hp c (List.mem_cons_self ..)) hd⟩
  | number x =>
      obtain ⟨c, s, hx, hc⟩ := Number.head_display h.1 h.2
      have digit : ∀ c : UInt8, Number.isDigit c = true → Start.of c = .number :=
        forall_byte (by decide +kernel)
      exact ⟨c, s, hx, digit c hc⟩
  | text t => exact ⟨0x22, _, rfl, rfl⟩

theorem Leaf.append_inj {l l' : Leaf} (hl : l.Good) (hl' : l'.Good) {rest rest' : Text}
    (hr : Ends rest) (hr' : Ends rest') (h : l.print ++ rest = l'.print ++ rest') :
    l = l' ∧ rest = rest' := by
  have hs : l.start = l'.start := hl.begins.unique hl'.begins h
  cases l with
  | word t suffix =>
      cases l' with
      | word t' suffix' =>
          obtain ⟨ht, hg⟩ := hl
          obtain ⟨ht', hg'⟩ := hl'
          simp only [Leaf.print, List.append_assoc] at h
          obtain ⟨heq, h⟩ := Text.append_inj_of_run ht.plain ht'.plain
            (fun c => suffix.not_plain hr) (fun c => suffix'.not_plain hr') h
          obtain ⟨hsuffix, h⟩ := Suffix.append_inj hg hg' hr hr' h
          exact ⟨by rw [heq, hsuffix], h⟩
      | number | text => cases hs
  | number x =>
      cases l' with
      | number y =>
          have bytes : ∀ c : UInt8, Decimal.isDisplayByte c = true → isEnd c = false :=
            forall_byte (by decide +kernel)
          obtain ⟨hx, h⟩ := append_inj_of_ends
            (fun c hc => bytes c (Number.of_mem_display hl.1 hl.2 hc))
            (fun c hc => bytes c (Number.of_mem_display hl'.1 hl'.2 hc)) hr hr' h
          exact ⟨by rw [Number.display_inj hl.1 hl.2 hl'.1 hl'.2 hx], h⟩
      | word | text => cases hs
  | text t =>
      cases l' with
      | text t' =>
          obtain ⟨heq, h⟩ := Text.quote_append_inj h
          exact ⟨by rw [heq], h⟩
      | word | number => cases hs

/-! ## Trees -/

def Tree.start : Tree → Start
  | leaf l => l.start
  | node _ => .node

theorem Tree.Good.begins {t : Tree} (h : t.Good) : Begins t.print t.start := by
  cases h with
  | leaf h => exact h.begins
  | @node ts h => cases ts <;> exact ⟨0x28, _, rfl, rfl⟩

theorem Tree.Good.print_ne {t : Tree} (h : t.Good) (rest rest' : Text) :
    Text.utf8 ")" ++ rest ≠ t.print ++ rest' := by
  intro he
  have hs : Start.none = t.start := Begins.unique ⟨0x29, [], rfl, rfl⟩ h.begins he
  cases h with
  | @leaf l h => cases l <;> cases hs
  | node h => cases hs

theorem ends_printEach (ts : List Tree) (rest : Text) :
    Ends (Tree.printEach ts ++ (Text.utf8 ")" ++ rest)) := by
  cases ts with
  | nil => exact ⟨0x29, rest, rfl, rfl⟩
  | cons t ts => exact ⟨0x20, _, rfl, rfl⟩

mutual

theorem Tree.append_inj (t : Tree) {t' : Tree} (ht : t.Good) (ht' : t'.Good) {rest rest' : Text}
    (hr : Ends rest) (hr' : Ends rest') (h : t.print ++ rest = t'.print ++ rest') :
    t = t' ∧ rest = rest' := by
  have hs : t.start = t'.start := ht.begins.unique ht'.begins h
  match t, t', ht, ht' with
  | .leaf l, .leaf l', .leaf hl, .leaf hl' =>
      obtain ⟨heq, h⟩ := Leaf.append_inj hl hl' hr hr' h
      exact ⟨by rw [heq], h⟩
  | .leaf l, .node _, _, _ => cases l <;> cases hs
  | .node _, .leaf l, _, _ => cases l <;> cases hs
  | .node [], .node [], _, _ => exact ⟨rfl, List.append_cancel_left h⟩
  | .node [], .node (u' :: us'), _, .node hg' =>
      rw [List.forall_mem_cons] at hg'
      simp only [print, List.append_assoc] at h
      exact absurd (List.cons.inj h).2 (hg'.1.print_ne rest _)
  | .node (u :: us), .node [], .node hg, _ =>
      rw [List.forall_mem_cons] at hg
      simp only [print, List.append_assoc] at h
      exact absurd (List.cons.inj h).2.symm (hg.1.print_ne rest' _)
  | .node (u :: us), .node (u' :: us'), .node hg, .node hg' =>
      rw [List.forall_mem_cons] at hg hg'
      simp only [print, List.append_assoc] at h
      obtain ⟨hu, h⟩ := Tree.append_inj u hg.1 hg'.1 (ends_printEach us rest)
        (ends_printEach us' rest') (List.append_cancel_left h)
      obtain ⟨hus, h⟩ := Tree.each_append_inj us hg.2 hg'.2 h
      exact ⟨by rw [hu, hus], h⟩

theorem Tree.each_append_inj (ts : List Tree) {ts' : List Tree} (hs : ∀ t ∈ ts, t.Good)
    (hs' : ∀ t ∈ ts', t.Good) {rest rest' : Text}
    (h : printEach ts ++ (Text.utf8 ")" ++ rest) = printEach ts' ++ (Text.utf8 ")" ++ rest')) :
    ts = ts' ∧ rest = rest' := by
  match ts, ts' with
  | [], [] => exact ⟨rfl, List.append_cancel_left h⟩
  | [], t' :: ts' => cases h
  | t :: ts, [] => cases h
  | t :: ts, t' :: ts' =>
      rw [List.forall_mem_cons] at hs hs'
      simp only [printEach, List.append_assoc] at h
      obtain ⟨ht, h⟩ := Tree.append_inj t hs.1 hs'.1 (ends_printEach ts rest)
        (ends_printEach ts' rest') (List.append_cancel_left h)
      obtain ⟨hts, h⟩ := Tree.each_append_inj ts hs.2 hs'.2 h
      exact ⟨by rw [ht, hts], h⟩

end

theorem lines_inj {ts ts' : List Tree} (hs : ∀ t ∈ ts, t.Good) (hs' : ∀ t ∈ ts', t.Good)
    (h : ts.flatMap (fun t => t.print ++ Text.utf8 "\n") =
      ts'.flatMap (fun t => t.print ++ Text.utf8 "\n")) : ts = ts' := by
  have newline (rest : Text) : Ends (Text.utf8 "\n" ++ rest) := ⟨0x0A, rest, rfl, rfl⟩
  have ne {t : Tree} (ht : t.Good) (rest : Text) : [] ≠ t.print ++ rest := by
    obtain ⟨c, s, hc, -⟩ := ht.begins
    rw [hc]
    exact (List.cons_ne_nil _ _).symm
  induction ts generalizing ts' with
  | nil =>
      cases ts' with
      | nil => rfl
      | cons t' ts' =>
          rw [List.forall_mem_cons] at hs'
          simp only [List.flatMap_cons, List.append_assoc] at h
          exact absurd h (ne hs'.1 _)
  | cons t ts ih =>
      rw [List.forall_mem_cons] at hs
      cases ts' with
      | nil =>
          simp only [List.flatMap_cons, List.append_assoc] at h
          exact absurd h.symm (ne hs.1 _)
      | cons t' ts' =>
          rw [List.forall_mem_cons] at hs'
          simp only [List.flatMap_cons, List.append_assoc] at h
          obtain ⟨ht, h⟩ := Tree.append_inj t hs.1 hs'.1 (newline _) (newline _) h
          rw [ht, ih hs.2 hs'.2 (List.append_cancel_left h)]

end Scripting.Outline
