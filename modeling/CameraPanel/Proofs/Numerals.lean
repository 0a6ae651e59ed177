import CameraPanel.Json.Reader
import CameraPanel.Proofs.LiteralGrammar
import CameraPanel.Proofs.ShortestDigits

/-!
# Numerals and their texts

`Numeral.IsText` says how a numeral is written.  A text of a numeral is read as that numeral, whatever comes after it
that cannot be part of it (`readNumber_of_isText`).  If its digits fit in the word that they are gathered in, its value
is computed from the integer of all its digits and from one power of ten (`value_eq`).  The text of a finite number is a
numeral of this kind with the value of the shortest decimal (`exists_numeral`).
-/

namespace CameraPanel.Json

namespace Numeral

/-! ### Texts -/

/-- Whole digits: a zero alone, or digits of which the first is not zero. -/
inductive IsWhole : List Char → Prop
  | zero : IsWhole ['0']
  | digits {d : Char} {ds : List Char} (hd : d.isDigit = true) (hne : d ≠ '0') (hds : ∀ c ∈ ds, c.isDigit = true) :
      IsWhole (d :: ds)

/-- A point with digits after it, or nothing. -/
inductive IsFraction : List Char → List Char → Prop
  | none : IsFraction [] []
  | digits {ds : List Char} (hne : ds ≠ []) (h : ∀ c ∈ ds, c.isDigit = true) : IsFraction ('.' :: ds) ds

/-- An exponent, or nothing. -/
inductive IsExponent : List Char → Option (Bool × List Char) → Prop
  | none : IsExponent [] none
  | digits {mark : Char} {s ds : List Char} {negative : Bool} (hmark : mark = 'e' ∨ mark = 'E')
      (hs : Literal.IsSign s negative) (hne : ds ≠ []) (h : ∀ c ∈ ds, c.isDigit = true) :
      IsExponent (mark :: (s ++ ds)) (some (negative, ds))

/-- The text of a numeral. -/
inductive IsText : List Char → Numeral → Prop
  | mk {whole point fraction exp : List Char} {exponent : Option (Bool × List Char)} (hwhole : IsWhole whole)
      (hpoint : IsFraction point fraction) (hexp : IsExponent exp exponent) :
      IsText (whole ++ (point ++ exp)) ⟨whole, fraction, exponent⟩

private theorem IsWhole.exists_cons {whole : List Char} (h : IsWhole whole) :
    ∃ d ds, whole = d :: ds ∧ d.isDigit = true := by
  cases h with
  | zero => exact ⟨_, _, rfl, rfl⟩
  | digits hd => exact ⟨_, _, rfl, hd⟩

theorem IsText.exists_cons {cs : List Char} {n : Numeral} (h : IsText cs n) :
    ∃ d ds, cs = d :: ds ∧ d.isDigit = true := by
  cases h with
  | mk hwhole =>
    obtain ⟨d, ds, rfl, hd⟩ := hwhole.exists_cons
    exact ⟨d, _, rfl, hd⟩

theorem IsText.exists_signed_cons {cs : List Char} {n : Numeral} (h : IsText cs n) (negative : Bool) :
    ∃ c cs', signed negative cs = c :: cs' ∧ (c = '-' ∨ c.isDigit = true) := by
  cases negative with
  | true => exact ⟨'-', cs, rfl, .inl rfl⟩
  | false =>
    obtain ⟨d, ds, rfl, hd⟩ := h.exists_cons
    exact ⟨d, ds, rfl, .inr hd⟩

private theorem IsExponent.head {exp : List Char} {e : Option (Bool × List Char)} (h : IsExponent exp e)
    {rest : List Char} (hrest : ∀ c ∈ rest.head?, c.isDigit = false ∧ c ≠ '.') :
    ∀ c ∈ (exp ++ rest).head?, c.isDigit = false ∧ c ≠ '.' := by
  cases h with
  | none => exact hrest
  | digits hmark =>
    intro c hc
    obtain rfl : _ = c := by simpa using hc
    rcases hmark with rfl | rfl <;> decide

private theorem IsFraction.head {point fraction : List Char} (h : IsFraction point fraction) {rest : List Char}
    (hrest : ∀ c ∈ rest.head?, c.isDigit = false) : ∀ c ∈ (point ++ rest).head?, c.isDigit = false := by
  cases h with
  | none => exact hrest
  | digits =>
    intro c hc
    obtain rfl : '.' = c := by simpa using hc
    rfl

/-! ### Reading the parts -/

private theorem digits_append {ds rest : List Char} (h : ∀ c ∈ ds, c.isDigit = true)
    (hrest : ∀ c ∈ rest.head?, c.isDigit = false) (offset : Nat) :
    (⟨ds ++ rest, offset⟩ : Cursor).digits = (ds, ⟨rest, offset + ds.length⟩) := by
  simp only [Cursor.digits, Literal.span_digits h rest hrest, Cursor.advance]

private theorem lexWhole_append (atEnd : Cause) {whole rest : List Char} (h : IsWhole whole)
    (hrest : ∀ c ∈ rest.head?, c.isDigit = false) (offset : Nat) :
    lexWhole atEnd ⟨whole ++ rest, offset⟩ = .ok (whole, ⟨rest, offset + whole.length⟩) := by
  cases h with
  | zero =>
    have hhead : (rest.head?.map Char.isDigit).getD false = false := by
      cases hr : rest.head? with
      | none => rfl
      | some c => exact hrest c hr
    show (if (rest.head?.map Char.isDigit).getD false = true then _ else _) = _
    rw [hhead]
    rfl
  | @digits d ds hd hne hds =>
    have hall : ∀ c ∈ d :: ds, c.isDigit = true := List.forall_mem_cons.2 ⟨hd, hds⟩
    have hdigits := digits_append hall hrest offset
    rw [List.cons_append] at hdigits ⊢
    simp only [lexWhole, if_neg hne, if_pos hd, hdigits]

private theorem lexFraction_append (atEnd : Cause) {point fraction rest : List Char} (h : IsFraction point fraction)
    (hrest : ∀ c ∈ rest.head?, c.isDigit = false ∧ c ≠ '.') (offset : Nat) :
    lexFraction atEnd ⟨point ++ rest, offset⟩ = .ok (fraction, ⟨rest, offset + point.length⟩) := by
  cases h with
  | none =>
    rw [List.nil_append]
    unfold lexFraction
    split
    · rename_i heq
      obtain rfl : rest = '.' :: _ := heq
      exact absurd rfl (hrest '.' rfl).2
    · rfl
  | digits hne hds =>
    have hdigits := digits_append hds (fun c hc => (hrest c hc).1) (offset + 1)
    rw [Nat.add_assoc, Nat.add_comm 1] at hdigits
    simp only [lexFraction, List.cons_append, Cursor.advance, hdigits, List.isEmpty_eq_false_iff.2 hne,
      Bool.false_eq_true, if_false, List.length_cons]

private theorem lexExponent_append (atEnd : Cause) {exp rest : List Char} {e : Option (Bool × List Char)}
    (h : IsExponent exp e) (hrest : ∀ c ∈ rest.head?, c.isDigit = false ∧ c ≠ 'e' ∧ c ≠ 'E') (offset : Nat) :
    lexExponent atEnd ⟨exp ++ rest, offset⟩ = .ok (e, ⟨rest, offset + exp.length⟩) := by
  cases h with
  | none =>
    cases rest with
    | nil => rfl
    | cons c rest =>
      obtain ⟨-, he, hE⟩ := hrest c rfl
      show (if c = 'e' ∨ c = 'E' then _ else _) = _
      rw [if_neg (by simp [he, hE])]
      rfl
  | @digits mark s ds negative hmark hs hne hds =>
    have hempty : ds.isEmpty = false := List.isEmpty_eq_false_iff.2 hne
    have hdigits := fun offset => digits_append hds (fun c hc => (hrest c hc).1) offset
    cases hs with
    | plus =>
      simp only [lexExponent, List.cons_append, List.nil_append, Cursor.advance, if_pos hmark, hdigits, hempty,
        Bool.false_eq_true, if_false, List.length_cons]
      rw [show offset + 1 + 1 + ds.length = offset + (ds.length + 1 + 1) by omega]
    | minus =>
      simp only [lexExponent, List.cons_append, List.nil_append, Cursor.advance, if_pos hmark, hdigits, hempty,
        Bool.false_eq_true, if_false, List.length_cons]
      rw [show offset + 1 + 1 + ds.length = offset + (ds.length + 1 + 1) by omega]
    | none =>
      obtain ⟨d, ds', rfl⟩ := List.exists_cons_of_ne_nil hne
      obtain ⟨hminus, hplus⟩ := Literal.ne_sign_of_isDigit (hds d (List.mem_cons_self ..))
      rw [List.cons_append] at hdigits
      simp [lexExponent, Cursor.advance, hmark, hminus, hplus, hdigits]
      omega

/-- What cannot be part of a numeral before it. -/
def Ends (rest : List Char) : Prop := ∀ c ∈ rest.head?, c.isDigit = false ∧ c ≠ '.' ∧ c ≠ 'e' ∧ c ≠ 'E'

theorem ends_nil : Ends [] := by simp [Ends]

theorem lex_of_isText (atEnd : Cause) {cs rest : List Char} {n : Numeral} (h : IsText cs n) (hrest : Ends rest)
    (offset : Nat) : lex atEnd ⟨cs ++ rest, offset⟩ = .ok (n, ⟨rest, offset + cs.length⟩) := by
  cases h with
  | @mk whole point fraction exp exponent hwhole hpoint hexp =>
    have hexpRest : ∀ c ∈ (exp ++ rest).head?, c.isDigit = false ∧ c ≠ '.' :=
      hexp.head fun c hc => ⟨(hrest c hc).1, (hrest c hc).2.1⟩
    have hpointRest : ∀ c ∈ (point ++ (exp ++ rest)).head?, c.isDigit = false :=
      hpoint.head fun c hc => (hexpRest c hc).1
    rw [List.append_assoc, List.append_assoc, lex, lexWhole_append atEnd hwhole hpointRest]
    simp only [bind, Except.bind, lexFraction_append atEnd hpoint hexpRest,
      lexExponent_append atEnd hexp fun c hc => ⟨(hrest c hc).1, (hrest c hc).2.2⟩, List.length_append]
    rw [Nat.add_assoc, Nat.add_assoc]
    rfl

theorem readNumber_of_isText (negative : Bool) {cs rest : List Char} {n : Numeral} (h : IsText cs n) (hrest : Ends rest)
    (offset : Nat) :
    readNumber ⟨signed negative cs ++ rest, offset⟩ =
      (n.value negative ⟨rest, offset + (signed negative cs).length⟩).map
        fun v => (v, ⟨rest, offset + (signed negative cs).length⟩) := by
  have hfinish : ∀ c, (do return (← n.value negative c, c) : Except Fault (Json × Cursor)) =
      (n.value negative c).map fun v => (v, c) := by
    intro c
    cases n.value negative c <;> rfl
  cases negative with
  | true =>
    have hlex := lex_of_isText .endInValue h hrest (offset + 1)
    rw [Nat.add_assoc, Nat.add_comm 1] at hlex
    simp only [readNumber, signed, if_true, List.cons_append, Cursor.advance, hlex, List.length_cons, bind, Except.bind]
    exact hfinish _
  | false =>
    have hlex := lex_of_isText .endInValue h hrest offset
    obtain ⟨d, ds, rfl, hd⟩ := h.exists_cons
    obtain ⟨hminus, -⟩ := Literal.ne_sign_of_isDigit hd
    rw [List.cons_append] at hlex
    simp [readNumber, signed, hminus, hlex, bind, Except.bind]
    exact hfinish _

/-! ### The value -/

/-- All digits of a numeral as one integer, and the power of ten that goes with it. -/
def decimal (n : Numeral) : Decimal where
  digits := digitsValue (n.whole ++ n.fraction)
  exp := (match n.exponent with
    | none => 0
    | some (negative, ds) => if negative then -(digitsValue ds : Int) else digitsValue ds) - n.fraction.length

/-- A numeral that is no integer and whose digits fit in the words that they are gathered in. -/
structure Fits (n : Numeral) : Prop where
  digits : n.decimal.digits < 2 ^ 64
  exponent : ∀ p ∈ n.exponent, digitsValue p.2 < 2 ^ 31
  parts : n.fraction ≠ [] ∨ n.exponent ≠ none

private theorem le_ofDigitChars (ds : List Char) (word : Nat) : word ≤ Nat.ofDigitChars 10 ds word := by
  induction ds generalizing word with
  | nil => exact Nat.le_refl _
  | cons d ds ih =>
    rw [Nat.ofDigitChars_cons]
    exact le_trans (by omega) (ih _)

private theorem gather_eq {ds : List Char} {word : Nat} (h : Nat.ofDigitChars 10 ds word < 2 ^ 64) :
    gather word ds = (Nat.ofDigitChars 10 ds word, []) := by
  induction ds generalizing word with
  | nil => rfl
  | cons d ds ih =>
    rw [Nat.ofDigitChars_cons] at h ⊢
    have hnext : 10 * word + (d.toNat - '0'.toNat) < 0x10000000000000000 := (le_ofDigitChars ds _).trans_lt h
    rw [gather, if_pos hnext, ih h]

private theorem boundedExponent_eq {ds : List Char} {e : Nat} (h : Nat.ofDigitChars 10 ds e < 2 ^ 31) :
    boundedExponent e ds = .ok (Nat.ofDigitChars 10 ds e) := by
  induction ds generalizing e with
  | nil => rfl
  | cons d ds ih =>
    rw [Nat.ofDigitChars_cons] at h ⊢
    have hnext : 10 * e + (d.toNat - '0'.toNat) < 0x80000000 := (le_ofDigitChars ds _).trans_lt h
    rw [boundedExponent, if_pos hnext, ih h]

/-- The value of a numeral whose digits are all gathered comes from one scaling. -/
theorem value_eq {n : Numeral} (h : n.Fits) {f : Double} (hf : scale n.decimal.digits n.decimal.exp = some f)
    (negative : Bool) (c : Cursor) : n.value negative c = .ok (.number (if negative then -f else f)) := by
  obtain ⟨whole, fraction, exponent⟩ := n
  obtain ⟨hdigits, hexponent, hparts⟩ := h
  simp only [decimal, digitsValue_eq, Nat.ofDigitChars_append] at hdigits hexponent hparts hf
  have hwhole := (le_ofDigitChars fraction _).trans_lt hdigits
  cases exponent with
  | none =>
    have hfraction : fraction.isEmpty = false := List.isEmpty_eq_false_iff.2 (by simpa using hparts)
    simp only [value, gather_eq hwhole, gather_eq hdigits, hfraction, Bool.false_and, Bool.false_eq_true, if_false,
      List.length_nil, Nat.sub_zero, Nat.cast_zero, hf]
  | some p =>
    obtain ⟨negativeExponent, ds⟩ := p
    have hexp : (if negativeExponent then (0 : Int) - fraction.length - Nat.ofDigitChars 10 ds 0
        else (0 : Int) - fraction.length + Nat.ofDigitChars 10 ds 0) =
          (if negativeExponent then -(Nat.ofDigitChars 10 ds 0 : Int) else Nat.ofDigitChars 10 ds 0) -
            fraction.length := by
      cases negativeExponent <;> simp only [Bool.false_eq_true, if_false, if_true] <;> omega
    simp only [value, gather_eq hwhole, gather_eq hdigits, boundedExponent_eq (hexponent _ rfl), List.length_nil,
      Nat.sub_zero, Nat.cast_zero, hexp, hf]

end Numeral

/-! ### Whole texts -/

theorem skipGap_of_head {cs : List Char} (h : ∀ c ∈ cs.head?, isGap c = false) (offset : Nat) :
    (⟨cs, offset⟩ : Cursor).skipGap = ⟨cs, offset⟩ := by
  cases cs with
  | nil => rfl
  | cons c cs => simp [Cursor.skipGap, Cursor.advance, h c rfl]

/-- A value that starts like a number is read as one. -/
theorem readValue_number {n depth offset : Nat} {c : Char} {cs : List Char} (hc : c = '-' ∨ c.isDigit = true) :
    readValue (n + 1) depth ⟨c :: cs, offset⟩ = readNumber ⟨c :: cs, offset⟩ := by
  have hne : ∀ c', ¬(c' = '-' ∨ c'.isDigit = true) → c ≠ c' := by
    rintro c' hc' rfl
    exact hc' hc
  have hgap : isGap c = false := by
    simp [isGap, hne]
  unfold readValue
  rw [skipGap_of_head (by simpa using hgap)]
  simp [hne, hc]

theorem read?_of_isText (negative : Bool) {cs : List Char} {n : Numeral} (h : Numeral.IsText cs n) {v : Json}
    (hv : ∀ c, n.value negative c = .ok v) : read? (signed negative cs) = .ok v := by
  obtain ⟨c, cs', hcs, hc⟩ := h.exists_signed_cons negative
  have hread := Numeral.readNumber_of_isText negative h Numeral.ends_nil 0
  rw [List.append_nil, hv, hcs] at hread
  rw [hcs]
  simp only [read?, recursionBound, Cursor.start, readValue_number hc, hread]
  rfl

/-! ### Texts of numbers -/

section Layouts

variable {ds : List Char} (hds : ∀ c ∈ ds, c.isDigit = true) (hne : ds ≠ []) (hhead : ds.head? ≠ some '0')
include hds hhead

private theorem Numeral.isWhole_of_append {front back : List Char} (h : front ++ back = ds) (hfront : front ≠ []) :
    Numeral.IsWhole front := by
  obtain ⟨d, rest, rfl⟩ := List.exists_cons_of_ne_nil hfront
  have hmem : ∀ c ∈ d :: rest, c ∈ ds := fun c hc => h ▸ List.mem_append_left _ hc
  refine .digits (hds d (hmem d (List.mem_cons_self ..))) ?_ fun c hc => hds c (hmem c (List.mem_cons_of_mem _ hc))
  rintro rfl
  exact hhead (h ▸ rfl)

include hne

/-- Digits that are written out are the digits of a numeral of the same value. -/
private theorem exists_numeral_positional {point : Int} (hpoint : point ≤ 16) :
    ∃ n, Numeral.IsText (numberLayout.positional ds point) n ∧ n.exponent = none ∧ n.fraction ≠ [] ∧
      n.decimal.toRat = digitsValue ds * (10 : ℚ) ^ (point - ds.length) ∧
      n.decimal.digits ≤ max (digitsValue ds) (10 ^ 17) := by
  have hzeros : ∀ k, ∀ c ∈ List.replicate k '0', c.isDigit = true := by
    intro k c hc
    rw [(List.mem_replicate.1 hc).2]
    rfl
  unfold Layout.positional
  by_cases h0 : point ≤ 0
  · -- All digits stand after the point.
    have hdigits : digitsValue (['0'] ++ (List.replicate (-point).toNat '0' ++ ds)) = digitsValue ds := by
      rw [← List.append_assoc]
      exact digitsValue_zeros_append ((-point).toNat + 1) ds
    rw [if_pos h0]
    refine ⟨⟨['0'], List.replicate (-point).toNat '0' ++ ds, none⟩, ?_, rfl, by simp [hne], ?_, ?_⟩
    · have hfraction : Numeral.IsFraction ('.' :: (List.replicate (-point).toNat '0' ++ ds)) _ :=
        .digits (by simp [hne]) fun c hc => (List.mem_append.1 hc).elim (hzeros _ c) (hds c)
      have htext := Numeral.IsText.mk .zero hfraction .none
      rwa [List.append_nil] at htext
    · rw [Decimal.toRat_eq]
      simp only [Numeral.decimal, hdigits, List.length_append, List.length_replicate]
      congr 2
      omega
    · exact le_max_of_le_left hdigits.le
  · rw [if_neg h0]
    by_cases hlen : ds.length ≤ point.toNat
    · -- All digits stand before the point, and the fraction is a zero.
      have hdsZeros : ∀ c ∈ ds ++ List.replicate (point.toNat - ds.length) '0', c.isDigit = true :=
        fun c hc => (List.mem_append.1 hc).elim (hds c) (hzeros _ c)
      have hheadZeros : (ds ++ List.replicate (point.toNat - ds.length) '0').head? ≠ some '0' := by
        obtain ⟨d, ds', rfl⟩ := List.exists_cons_of_ne_nil hne
        exact hhead
      have hwhole := Numeral.isWhole_of_append hdsZeros hheadZeros (List.append_nil _) (by simp [hne])
      have hfraction : Numeral.IsFraction ['.', '0'] ['0'] := .digits (by simp) (by simp)
      have hdigits : digitsValue (ds ++ List.replicate (point.toNat - ds.length) '0' ++ ['0']) =
          digitsValue ds * 10 ^ (point.toNat - ds.length + 1) := by
        rw [List.append_assoc, ← digitsValue_append_zeros, List.replicate_succ']
      rw [if_pos hlen]
      refine ⟨⟨ds ++ List.replicate (point.toNat - ds.length) '0', ['0'], none⟩, ?_, rfl, by simp, ?_, ?_⟩
      · have htext := Numeral.IsText.mk hwhole hfraction .none
        rwa [List.append_nil] at htext
      · rw [Decimal.toRat_eq]
        simp only [Numeral.decimal, hdigits, List.length_singleton]
        push_cast
        rw [mul_assoc, ← zpow_natCast, ← zpow_add₀ (by norm_num)]
        congr 2
        push_cast
        omega
      · have hlt : digitsValue ds * 10 ^ (point.toNat - ds.length + 1) < 10 ^ 17 :=
          calc digitsValue ds * 10 ^ (point.toNat - ds.length + 1)
              < 10 ^ ds.length * 10 ^ (point.toNat - ds.length + 1) := by
                gcongr
                exact digitsValue_lt hds
            _ = 10 ^ (point.toNat + 1) := by
                rw [← pow_add]
                congr 1
                omega
            _ ≤ 10 ^ 17 := Nat.pow_le_pow_right (by norm_num) (by omega)
        exact le_max_of_le_right (hdigits.le.trans hlt.le)
    · -- The point stands between the digits.
      have hfront : ds.take point.toNat ≠ [] := by simp [hne]; omega
      have hback : ds.drop point.toNat ≠ [] := by simp; omega
      have hwhole := Numeral.isWhole_of_append hds hhead (List.take_append_drop point.toNat ds) hfront
      have hfraction := Numeral.IsFraction.digits hback fun c hc => hds c (List.mem_of_mem_drop hc)
      rw [if_neg hlen]
      refine ⟨⟨ds.take point.toNat, ds.drop point.toNat, none⟩, ?_, rfl, hback, ?_, ?_⟩
      · have htext := Numeral.IsText.mk hwhole hfraction .none
        rwa [List.append_nil] at htext
      · rw [Decimal.toRat_eq]
        simp only [Numeral.decimal, List.take_append_drop, List.length_drop]
        congr 2
        omega
      · simp [Numeral.decimal]

/-- Digits with an exponent are the digits of a numeral of the same value. -/
private theorem exists_numeral_scientific {point : Int} (hlow : -400 ≤ point) (hhigh : point ≤ 400) :
    ∃ n, Numeral.IsText (numberLayout.scientific ds point) n ∧ (∀ p ∈ n.exponent, digitsValue p.2 < 2 ^ 31) ∧
      n.exponent ≠ none ∧ n.decimal.toRat = digitsValue ds * (10 : ℚ) ^ (point - ds.length) ∧
      n.decimal.digits = digitsValue ds := by
  obtain ⟨d, rest, rfl⟩ := List.exists_cons_of_ne_nil hne
  have hwhole : Numeral.IsWhole [d] := Numeral.isWhole_of_append hds hhead (List.singleton_append ..) (by simp)
  have hfraction : Numeral.IsFraction (if rest.isEmpty then [] else '.' :: rest) rest := by
    by_cases hrest : rest = []
    · rw [hrest]
      exact .none
    · rw [if_neg (by simpa using hrest)]
      exact .digits hrest (List.forall_mem_cons.1 hds).2
  have hsign : Literal.IsSign (if point - 1 < 0 then ['-'] else ['+']) (decide (point - 1 < 0)) := by
    by_cases hneg : point - 1 < 0
    · rw [if_pos hneg, decide_eq_true hneg]
      exact .minus
    · rw [if_neg hneg, decide_eq_false hneg]
      exact .plus
  have hmark : 'e' = 'e' ∨ 'e' = 'E' := .inl rfl
  have hexp := Numeral.IsExponent.digits hmark hsign (Nat.toDigits_ne_nil : decimalDigits (point - 1).natAbs ≠ [])
    fun c hc => Nat.isDigit_of_mem_toDigits (by decide) (by decide) hc
  have hvalue : (if decide (point - 1 < 0) = true then -((point - 1).natAbs : Int) else (point - 1).natAbs) =
      point - 1 := by
    split
    · rename_i hneg
      have := of_decide_eq_true hneg
      omega
    · rename_i hneg
      have : ¬ point - 1 < 0 := fun h => hneg (decide_eq_true h)
      omega
  refine ⟨⟨[d], rest, some (decide (point - 1 < 0), decimalDigits (point - 1).natAbs)⟩, ?_, ?_, by simp, ?_, rfl⟩
  · have htext := Numeral.IsText.mk hwhole hfraction hexp
    rwa [← List.append_assoc] at htext
  · rintro p ⟨⟩
    rw [digitsValue_decimalDigits]
    omega
  · rw [Decimal.toRat_eq]
    simp only [Numeral.decimal, digitsValue_decimalDigits, hvalue, List.singleton_append, List.length_cons]
    congr 2
    push_cast
    omega

end Layouts

/-- The text of a magnitude is a numeral of at most seventeen digits that is rounded to its rank. -/
theorem exists_numeral {rank : Nat} (h : rank < Format.double.ranks) :
    ∃ n, Numeral.IsText (numberLayout.magnitude .double rank) n ∧ n.Fits ∧ n.decimal.digits ≤ 10 ^ 17 ∧
      Format.double.rankOf n.decimal.toRat = rank := by
  rcases Nat.eq_zero_or_pos rank with rfl | hpos
  · have hfraction : Numeral.IsFraction ['.', '0'] ['0'] := .digits (by simp) (by simp)
    have htext : Numeral.IsText ['0', '.', '0'] ⟨['0'], ['0'], none⟩ := .mk .zero hfraction .none
    have hzero : Decimal.toRat (Numeral.decimal ⟨['0'], ['0'], none⟩) = 0 := Decimal.toRat_eq_zero_iff.2 rfl
    refine ⟨_, htext, ⟨by decide, by simp, by simp⟩, by decide, ?_⟩
    rw [hzero]
    rfl
  · have hback := Format.readsBack_shortest .toEven h hpos
    have hle := Format.digits_shortest_le .toEven h hpos
    have hdigits := Format.digits_ne_zero_of_readsBack hpos h hback
    obtain ⟨hlow, hhigh, hrank⟩ := Format.rankOf_of_readsBack hpos h hback
    simp only [Layout.magnitude, hpos.ne', if_false, show numberLayout.tie = .toEven from rfl]
    generalize Format.double.shortest .toEven rank = d at hle hdigits hlow hhigh hrank ⊢
    have hlead : ∀ c ∈ d.leadingDigits, c.isDigit = true := fun c => Decimal.isDigit_of_mem_leadingDigits
    have hne := Decimal.leadingDigits_ne_nil hdigits
    have hhead := Decimal.head_leadingDigits hdigits
    have hvalue : digitsValue d.leadingDigits ≤ 10 ^ 17 := by
      obtain ⟨k, hk⟩ := d.exists_leadingDigits_append
      have hval := digitsValue_decimalDigits d.digits
      rw [hk, digitsValue_append_zeros] at hval
      exact (Nat.le_mul_of_pos_right _ (by positivity)).trans (hval.le.trans hle)
    rw [d.toRat_eq_leadingDigits] at hrank
    by_cases hout : numberLayout.writtenOut (d.point - 1) = true
    · have hpoint : d.point ≤ 16 := by
        simp [numberLayout] at hout
        omega
      obtain ⟨n, htext, hexp, hfraction, hval, hmax⟩ := exists_numeral_positional hlead hne hhead hpoint
      have hn : n.decimal.digits ≤ 10 ^ 17 := hmax.trans (max_le hvalue le_rfl)
      rw [if_pos hout]
      refine ⟨n, htext, ⟨hn.trans_lt (by norm_num), by simp [hexp], .inl hfraction⟩, hn, ?_⟩
      rw [hval, hrank]
    · obtain ⟨n, htext, hsmall, hexp, hval, hdig⟩ := exists_numeral_scientific hlead hne hhead hlow hhigh
      have hn : n.decimal.digits ≤ 10 ^ 17 := hdig.le.trans hvalue
      rw [if_neg hout]
      refine ⟨n, htext, ⟨hn.trans_lt (by norm_num), hsmall, .inr hexp⟩, hn, ?_⟩
      rw [hval, hrank]

end CameraPanel.Json
