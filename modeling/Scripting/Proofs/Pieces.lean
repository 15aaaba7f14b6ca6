import Scripting.Token.Piece

/-!
How pieces come together. A line feed ends every piece before it, so the pieces of
two texts with a line feed between them are those of the first, the line feed, and
those of the second, which starts inside quotes if the first leaves one open.
-/

namespace Scripting.Piece

/-- The kinds that names have. -/
theorem nameKind_ne (name : Text) {kind : Token.Kind}
    (h : kind ∉ [.identifier, .letKeyword, .constKeyword, .funcKeyword, .ifKeyword, .elifKeyword,
      .elseKeyword]) : nameKind name ≠ kind := by
  rintro rfl
  apply h
  unfold nameKind
  repeat' split
  all_goals decide

/-- The kinds that single bytes have. -/
theorem punctuation_ne {c : UInt8} {kind : Token.Kind} (h : punctuation? c = some kind)
    {other : Token.Kind} (ho : other ∉ [.leftParen, .rightParen, .leftBracket, .rightBracket,
      .leftBrace, .rightBrace, .comma, .dot, .colon, .semicolon, .equal, .operator]) :
    kind ≠ other := by
  rintro rfl
  apply ho
  unfold punctuation? at h
  split at h <;> cases h <;> decide

theorem takeWhile_newline (test : UInt8 → Bool) (h : test newline = false) (s t : Text) :
    (s ++ newline :: t).takeWhile test = s.takeWhile test := by
  induction s with
  | nil => simp [h]
  | cons c s ih =>
      by_cases hc : test c = true
      · simp [hc, ih]
      · simp [hc]

theorem run_newline (test : UInt8 → Bool) (h : test newline = false) (s t : Text) :
    run test (s ++ newline :: t) = run test s := by
  rw [run, run, takeWhile_newline test h]

theorem run_le (test : UInt8 → Bool) (t : Text) : run test t ≤ t.length :=
  (List.takeWhile_prefix test).length_le

theorem numberRun_newline (s t : Text) : numberRun (s ++ newline :: t) = numberRun s := by
  have hw := run_newline Number.isDigit rfl s t
  simp only [numberRun, hw, List.drop_append_of_le_length (run_le Number.isDigit s)]
  match s.drop (run Number.isDigit s) with
  | [] => cases t <;> rfl
  | [c] => simp [newline, Number.isDigit]
  | c :: d :: more =>
      dsimp only [List.cons_append]
      rw [run_newline Number.isDigit rfl]

theorem numberRun_le (s : Text) : numberRun s ≤ s.length := by
  have hw := run_le Number.isDigit s
  rw [numberRun]
  split
  · next c d more hd =>
      have hl : (s.drop (run Number.isDigit s)).length = more.length + 2 := by rw [hd]; rfl
      have hm := run_le Number.isDigit more
      rw [List.length_drop] at hl
      split <;> omega
  · exact hw

/-- A line feed after a piece does not change it. -/
theorem first_newline (quoted : Bool) (c : UInt8) (s t : Text) :
    first quoted c (s ++ newline :: t) = first quoted c s := by
  rw [first, first, run_newline isWordByte rfl, run_newline (· != newline) rfl,
    numberRun_newline, run_newline isNameByte rfl, takeWhile_newline isNameByte rfl]

theorem first_le (quoted : Bool) (c : UInt8) (s : Text) : (first quoted c s).2 ≤ s.length := by
  rw [first]
  split
  · exact Nat.zero_le _
  split
  · exact Nat.zero_le _
  split
  · exact run_le ..
  split
  · exact Nat.zero_le _
  split
  · exact run_le ..
  split
  · exact numberRun_le s
  split
  · exact run_le ..
  · exact Nat.zero_le _

theorem take_run (test : UInt8 → Bool) (s : Text) : s.take (run test s) = s.takeWhile test :=
  (List.prefix_iff_eq_take.mp (List.takeWhile_prefix test)).symm

theorem of_mem_run {test : UInt8 → Bool} {s : Text} {b : UInt8} (h : b ∈ s.take (run test s)) :
    test b = true := by
  rw [take_run] at h
  exact List.all_eq_true.mp List.all_takeWhile b h

theorem of_mem_numberRun {s : Text} {b : UInt8} (h : b ∈ s.take (numberRun s)) :
    Number.isDigit b = true ∨ b = point := by
  rw [numberRun] at h
  split at h
  · next c d more hd =>
      split at h
      · next hp =>
          rw [Bool.and_eq_true, decide_eq_true_eq] at hp
          rw [Nat.add_assoc, List.take_add, hd, List.mem_append, Nat.add_comm 2,
            List.take_succ_cons, List.take_succ_cons, List.mem_cons, List.mem_cons] at h
          obtain h | rfl | rfl | h := h
          · exact .inl (of_mem_run h)
          · exact .inr hp.1
          · exact .inl hp.2
          · exact .inl (of_mem_run h)
      · exact .inl (of_mem_run h)
  · exact .inl (of_mem_run h)

/-- No piece goes on over the end of a line. -/
theorem newline_notMem_first (quoted : Bool) (c : UInt8) (s : Text) :
    newline ∉ s.take (first quoted c s).2 := by
  intro h
  rw [first] at h
  split at h
  · simp at h
  split at h
  · simp at h
  split at h
  · cases of_mem_run h
  split at h
  · simp at h
  split at h
  · cases of_mem_run h
  split at h
  · obtain h | h := of_mem_numberRun h <;> cases h
  split at h
  · cases of_mem_run h
  · simp at h

/-- A piece ends a line only if it is a line feed. -/
theorem count_newline_first (quoted : Bool) (c : UInt8) (s : Text) :
    (c :: s.take (first quoted c s).2).count newline = if c = newline then 1 else 0 := by
  rw [List.count_cons, List.count_eq_zero.mpr (newline_notMem_first quoted c s), Nat.zero_add]
  simp

/-- The line after a piece that begins on a line. -/
theorem line_after_first {quoted : Bool} {c : UInt8} {s : Text} {role : Role} {n : Nat}
    (h : first quoted c s = (role, n)) (line : Nat) :
    line + (c :: s.take n).count newline = if c = newline then line + 1 else line := by
  have hc := count_newline_first quoted c s
  rw [h] at hc
  rw [hc]
  split <;> rfl

theorem count_newline_cons (quoted : Bool) (c : UInt8) (s : Text) :
    (c :: s).count newline =
      (if c = newline then 1 else 0) + (s.drop (first quoted c s).2).count newline := calc
  (c :: s).count newline
    = (c :: s.take (first quoted c s).2 ++ s.drop (first quoted c s).2).count newline := by
        rw [List.cons_append, List.take_append_drop]
  _ = (if c = newline then 1 else 0) + (s.drop (first quoted c s).2).count newline := by
        rw [List.count_append, count_newline_first]

/-- Whether a text ends inside quotes, by how it starts and its pieces. -/
def quotedAfter (quoted : Bool) (ps : List Piece) : Bool :=
  quoted != Scan.leavesOpen (ps.filterMap token?)

theorem leavesOpen_cons (t : Token) (ts : List Token) :
    Scan.leavesOpen (t :: ts) = ((t.kind = .quote : Bool) != Scan.leavesOpen ts) := by
  simp only [Scan.leavesOpen, List.countP_cons]
  by_cases ht : t.kind = .quote <;> simp [ht] <;> grind

theorem quotedAfter_cons (quoted : Bool) (p : Piece) (ps : List Piece) :
    quotedAfter quoted (p :: ps) = quotedAfter (quoted != (p.role = .token .quote)) ps := by
  cases hr : p.role with
  | token kind => simp [quotedAfter, token?, hr, leavesOpen_cons]
  | _ => simp [quotedAfter, token?, hr]

theorem pieces_newline (quoted : Bool) (line : Nat) (s t : Text) :
    pieces quoted line (s ++ newline :: t) =
      pieces quoted line s ++ ⟨.blank, [newline], line + s.count newline⟩ ::
        pieces (quotedAfter quoted (pieces quoted line s)) (line + s.count newline + 1) t := by
  fun_induction pieces quoted line s with
  | case1 quoted line =>
      rw [List.nil_append, pieces]
      cases quoted <;> rfl
  | case2 quoted line c rest role length hf ih =>
      have hl : length ≤ rest.length := by
        have h := first_le quoted c rest
        rwa [hf] at h
      have hn : (if c = newline then line + 1 else line) + (rest.drop length).count newline =
          line + (c :: rest).count newline := by
        rw [count_newline_cons quoted, hf]
        dsimp only
        split <;> omega
      simp only [dite_eq_ite, hn] at ih
      rw [List.cons_append, pieces, first_newline, hf, quotedAfter_cons]
      dsimp only
      rw [List.take_append_of_le_length hl, List.drop_append_of_le_length hl, ih, List.cons_append]

end Scripting.Piece

namespace Scripting.Scan

open Piece (newline)

theorem tokens_ofSource_newline (s t : Text) :
    ∃ us, (ofSource (s ++ newline :: t)).tokens = (ofSource s).tokens ++ us := by
  simp only [ofSource, Piece.pieces_newline, List.filterMap_append]
  exact ⟨_, rfl⟩

/-- Faults in the pieces of a text come before all that are found after it. -/
theorem errors_ofSource_newline {s : Text} {e : ParseError} {es : List ParseError}
    (h : (ofSource s).errors = e :: es) (he : e.isIncomplete = false) (t : Text) :
    ∃ fs, (ofSource (s ++ newline :: t)).errors = e :: fs := by
  simp only [ofSource] at h
  simp only [ofSource, Piece.pieces_newline, List.filterMap_append]
  cases hp : (Piece.pieces false 1 s).filterMap Piece.error? with
  | cons e' es' =>
      rw [hp, List.cons_append] at h
      cases h
      exact ⟨_, rfl⟩
  | nil =>
      -- the only fault left is an open quote, which more text may close
      rw [hp, List.nil_append] at h
      split at h
      · cases h
        cases he
      · cases h

end Scripting.Scan
