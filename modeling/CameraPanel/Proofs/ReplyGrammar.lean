import CameraPanel.Proofs.ChunkGrammar
import CameraPanel.Proofs.ReplyNumbers
import CameraPanel.Proofs.StringGrammar

/-!
# The grammar of replies

A reply tells of a value if it is, up to the gaps around it, the word `null`, a numeral that is in range, or a string
with a literal in it.  Each reader takes its part off the front of the text: what it leaves is said in one lemma, and
that it takes the part when something else follows is said in another.  The top of a reply needs no more than this,
because all values with parts of their own are refused (`decode_follows_grammar`).
-/

namespace CameraPanel.Json

namespace Numeral

/-! ### Numerals that were read -/

private theorem digits_split (c : Cursor) :
    c.rest = c.digits.1 ++ c.digits.2.rest ∧ ∀ d ∈ c.digits.1, d.isDigit = true := by
  simp only [Cursor.digits, List.span_eq_takeWhile_dropWhile, Cursor.advance]
  exact ⟨List.takeWhile_append_dropWhile.symm, fun d hd => List.all_eq_true.1 List.all_takeWhile d hd⟩

private theorem exists_of_lexWhole {atEnd : Cause} {c c' : Cursor} {whole : List Char}
    (h : lexWhole atEnd c = .ok (whole, c')) : IsWhole whole ∧ c.rest = whole ++ c'.rest := by
  unfold lexWhole at h
  split at h
  · cases h
  · rename_i d rest hrest
    split at h
    · rename_i hzero
      simp only at h
      split at h
      · cases h
      · cases h
        rw [hrest, hzero]
        exact ⟨.zero, rfl⟩
    · rename_i hzero
      split at h
      · rename_i hd
        obtain ⟨hsplit, hdigits⟩ := digits_split c
        rw [Except.ok.inj h] at hsplit hdigits
        refine ⟨?_, hsplit⟩
        cases whole with
        | nil =>
          -- The first digit cannot be left over.
          have hempty : c.digits.1 = [] := congrArg Prod.fst (Except.ok.inj h)
          simp only [Cursor.digits, List.span_eq_takeWhile_dropWhile, hrest, List.takeWhile_cons_of_pos hd] at hempty
          cases hempty
        | cons d' whole =>
          rw [hrest] at hsplit
          obtain ⟨rfl, -⟩ := List.cons.inj hsplit
          exact .digits hd hzero (List.forall_mem_cons.1 hdigits).2
      · cases h

private theorem exists_of_lexFraction {atEnd : Cause} {c c' : Cursor} {fraction : List Char}
    (h : lexFraction atEnd c = .ok (fraction, c')) : ∃ point, IsFraction point fraction ∧ c.rest = point ++ c'.rest := by
  unfold lexFraction at h
  split at h
  · rename_i rest hrest
    obtain ⟨hsplit, hdigits⟩ := digits_split (c.advance 1 rest)
    simp only at h
    split at h
    · cases h
    · rename_i hne
      cases h
      refine ⟨_, .digits (by simpa using hne) hdigits, ?_⟩
      rw [hrest, List.cons_append, ← hsplit]
      rfl
  · cases h
    exact ⟨[], .none, rfl⟩

private theorem exists_of_lexExponent {atEnd : Cause} {c c' : Cursor} {e : Option (Bool × List Char)}
    (h : lexExponent atEnd c = .ok (e, c')) : ∃ exp, IsExponent exp e ∧ c.rest = exp ++ c'.rest := by
  unfold lexExponent at h
  split at h
  · cases h
    exact ⟨[], .none, rfl⟩
  · rename_i mark rest hrest
    split at h
    · rename_i hmark
      have hfinish : ∀ (d : Cursor) (negative : Bool) (s : List Char), Literal.IsSign s negative → rest = s ++ d.rest →
          (if d.digits.1.isEmpty = true then (if d.rest.isEmpty = true then d.fault atEnd else d.nextFault .badNumber)
            else .ok (some (negative, d.digits.1), d.digits.2)) = .ok (e, c') →
          ∃ exp, IsExponent exp e ∧ c.rest = exp ++ c'.rest := by
        intro d negative s hs hd h
        obtain ⟨hsplit, hdigits⟩ := digits_split d
        split at h
        · split at h <;> cases h
        · rename_i hne
          cases h
          refine ⟨mark :: (s ++ d.digits.1), .digits hmark hs (by simpa using hne) hdigits, ?_⟩
          rw [hrest, hd, hsplit]
          simp
      simp only at h
      split at h
      · rename_i rest' hminus
        exact hfinish ((c.advance 1 rest).advance 1 rest') true ['-'] .minus hminus h
      · rename_i rest' hplus
        exact hfinish ((c.advance 1 rest).advance 1 rest') false ['+'] .plus hplus h
      · exact hfinish (c.advance 1 rest) false [] .none rfl h
    · cases h
      exact ⟨[], .none, rfl⟩

private theorem exists_of_lex {atEnd : Cause} {c c' : Cursor} {n : Numeral} (h : lex atEnd c = .ok (n, c')) :
    ∃ cs, IsText cs n ∧ c.rest = cs ++ c'.rest := by
  obtain ⟨⟨whole, c₁⟩, hwhole, h⟩ := bind_eq_ok_iff.1 h
  obtain ⟨⟨fraction, c₂⟩, hfraction, h⟩ := bind_eq_ok_iff.1 h
  obtain ⟨⟨exponent, c₃⟩, hexponent, h⟩ := bind_eq_ok_iff.1 h
  cases h
  obtain ⟨hwhole', hrest⟩ := exists_of_lexWhole hwhole
  obtain ⟨point, hpoint, hrest₁⟩ := exists_of_lexFraction hfraction
  obtain ⟨exp, hexp, hrest₂⟩ := exists_of_lexExponent hexponent
  refine ⟨_, .mk hwhole' hpoint hexp, ?_⟩
  rw [hrest, hrest₁, hrest₂]
  simp

private theorem exists_of_readNumber {c c' : Cursor} {v : Json} (h : readNumber c = .ok (v, c')) :
    ∃ negative cs n, IsText cs n ∧ c.rest = signed negative cs ++ c'.rest ∧ n.value negative c' = .ok v := by
  unfold readNumber at h
  split at h
  rename_i negative d hsign
  obtain ⟨⟨n, d'⟩, hlex, h⟩ := bind_eq_ok_iff.1 h
  obtain ⟨v', hvalue, h⟩ := bind_eq_ok_iff.1 h
  cases h
  obtain ⟨cs, htext, hrest⟩ := exists_of_lex hlex
  refine ⟨negative, cs, n, htext, ?_, hvalue⟩
  split at hsign
  · rename_i rest hminus
    cases hsign
    rw [hminus, show rest = cs ++ c'.rest from hrest]
    rfl
  · cases hsign
    exact hrest

/-! ### The values of numerals -/

private theorem gather_lt {word : Nat} (hword : word < 2 ^ 64) (ds : List Char) : (gather word ds).1 < 2 ^ 64 := by
  induction ds generalizing word with
  | nil => exact hword
  | cons d ds ih =>
    unfold gather
    simp only
    split
    · rename_i hnext
      exact ih hnext
    · exact hword

private theorem isFinite_ofInt {n : Int} (h : n.natAbs < 2 ^ 64) : (Binary.ofInt n : Double).isFinite = true := by
  refine (Format.isFinite_ofRank_iff _).2 ?_
  show Format.double.rankOf n < _
  rw [Format.rankOf_intCast]
  exact rankOf_word_lt h

private theorem isFinite_neg {x : Double} (h : x.isFinite = true) : (-x).isFinite = true := by
  cases x with
  | finite negative rank hlt => rfl
  | nan => cases h
  | infinity negative => cases h

private theorem isFinite_scale {word : Nat} (hword : word < 2 ^ 64) {e : Int} {f : Double} (h : scale word e = some f) :
    f.isFinite = true := by
  rcases lt_or_ge e 0 with hneg | hnonneg
  · obtain ⟨t, ht, hscale⟩ := exists_scale_of_neg hword hneg
    rw [hscale] at h
    cases h
    rfl
  · have hfinite : (Binary.ofInt word : Double).isFinite = true := isFinite_ofInt (by simpa using hword)
    unfold scale at h
    rw [if_pos hnonneg] at h
    split at h
    · split at h
      · cases h
        exact hfinite
      · cases h
    · rename_i hpower
      have hk : e.toNat ≤ greatestPower := by omega
      simp only [Format.ofInt_natCast, Format.ofRank_of_lt _ _ (rankOf_word_lt hword), powerOfTen_finite hk,
        Binary.finite_mul_finite] at h
      split at h
      · cases h
      · rename_i hinf
        cases h
        unfold Format.ofRank at hinf ⊢
        split
        · rfl
        · rename_i hlt
          rw [dif_neg hlt] at hinf
          exact absurd rfl hinf

end Numeral

/-- The number that a JSON number stands for. -/
def number? : Json → Option Double
  | .integer n => some (.ofInt n)
  | .number x => some x
  | _ => none

namespace Numeral

/-- A numeral in range is a finite number, wherever it stands. -/
private theorem exists_of_value {negative : Bool} {n : Numeral} {c : Cursor} {v : Json} (h : n.value negative c = .ok v)
    :
    (∀ c', n.value negative c' = .ok v) ∧ ∃ x : Double, x.isFinite = true ∧ v.number? = some x := by
  obtain ⟨whole, fraction, exponent⟩ := n
  have hword : (gather 0 whole).1 < 2 ^ 64 := gather_lt (by norm_num) whole
  have hword' := gather_lt hword fraction
  have hsigned : ∀ {e : Int} {f : Double}, scale (gather (gather 0 whole).1 fraction).1 e = some f →
      (if negative = true then -f else f).isFinite = true := by
    intro e f hf
    have hfinite := isFinite_scale hword' hf
    split
    · exact isFinite_neg hfinite
    · exact hfinite
  unfold value at h ⊢
  simp only at h ⊢
  cases exponent with
  | some p =>
    obtain ⟨negativeExponent, ds⟩ := p
    simp only at h ⊢
    cases hbound : boundedExponent 0 ds with
    | ok e =>
      simp only [hbound] at h ⊢
      split at h
      · rename_i f hf
        cases h
        exact ⟨fun _ => rfl, _, hsigned hf, rfl⟩
      · cases h
    | error left =>
      simp only [hbound] at h ⊢
      split at h
      · cases h
      · rename_i hzero
        cases h
        exact ⟨fun _ => if_neg hzero, _, (Format.isFinite_ofRank_iff _).2 (by decide), rfl⟩
  | none =>
    simp only at h ⊢
    split at h
    · -- An integer that a word holds is kept as it is, but for those that no signed word holds.
      rename_i hinteger
      split at h
      · rename_i hpositive
        cases h
        refine ⟨fun _ => ?_, _, isFinite_ofInt (by simpa using hword), rfl⟩
        rw [if_pos hinteger, if_pos hpositive]
      · rename_i hpositive
        split at h
        · rename_i hlow
          cases h
          refine ⟨fun _ => ?_, _, isFinite_neg (isFinite_ofInt (by simpa using hword)), rfl⟩
          rw [if_pos hinteger, if_neg hpositive, if_pos hlow]
        · rename_i hlow
          cases h
          refine ⟨fun _ => ?_, _, isFinite_ofInt (by simpa using hword), rfl⟩
          rw [if_pos hinteger, if_neg hpositive, if_neg hlow]
    · rename_i hinteger
      split at h
      · rename_i f hf
        cases h
        exact ⟨fun _ => if_neg hinteger, _, hsigned hf, rfl⟩
      · cases h

/-- The number that the reader makes of a numeral with a sign, if it is in range. -/
def converted? (negative : Bool) (n : Numeral) : Option Double :=
  (n.value negative (.start [])).toOption.bind number?

private theorem converted?_of_value {negative : Bool} {n : Numeral} {c : Cursor} {v : Json}
    (h : n.value negative c = .ok v) :
    n.converted? negative = v.number? := by
  rw [converted?, (exists_of_value h).1]
  rfl

private theorem value_of_converted? {negative : Bool} {n : Numeral} {x : Double} (h : n.converted? negative = some x) :
    ∃ v, (∀ c, n.value negative c = .ok v) ∧ v.number? = some x := by
  unfold converted? at h
  cases hvalue : n.value negative (.start []) with
  | error fault =>
    rw [hvalue] at h
    cases h
  | ok v =>
    rw [hvalue] at h
    exact ⟨v, (exists_of_value hvalue).1, h⟩

end Numeral

/-! ### Gaps and words -/

/-- A text of nothing but the characters that may stand between the parts of another. -/
def Gaps (cs : List Char) : Prop := ∀ c ∈ cs, isGap c = true

/-- A text with gaps around it. -/
def Framed (t cs : List Char) : Prop := ∃ g g', Gaps g ∧ Gaps g' ∧ cs = g ++ (t ++ g')

private theorem Gaps.ends {g : List Char} (h : Gaps g) : Numeral.Ends g := by
  intro c hc
  have hgap := h c (List.mem_of_mem_head? hc)
  simp only [isGap, Bool.or_eq_true, beq_iff_eq] at hgap
  rcases hgap with ((rfl | rfl) | rfl) | rfl <;> decide

private theorem exists_gaps_skipGap (c : Cursor) : ∃ g, Gaps g ∧ c.rest = g ++ c.skipGap.rest :=
  ⟨c.rest.takeWhile isGap, fun d hd => List.all_eq_true.1 List.all_takeWhile d hd,
    List.takeWhile_append_dropWhile.symm⟩

private theorem skipGap_append {g : List Char} (hg : Gaps g) (rest : List Char) (offset : Nat) :
    (⟨g ++ rest, offset⟩ : Cursor).skipGap = (⟨rest, offset + g.length⟩ : Cursor).skipGap := by
  simp only [Cursor.skipGap, Cursor.advance, List.takeWhile_append_of_pos hg, List.dropWhile_append_of_pos hg,
    List.length_append, Nat.add_assoc]

private theorem readValue_append {g : List Char} (hg : Gaps g) (n depth : Nat) (rest : List Char) (offset : Nat) :
    readValue (n + 1) depth ⟨g ++ rest, offset⟩ = readValue (n + 1) depth ⟨rest, offset + g.length⟩ := by
  unfold readValue
  rw [skipGap_append hg]

private theorem readEnd_eq_ok_iff {c : Cursor} : readEnd c = .ok () ↔ Gaps c.rest := by
  obtain ⟨g, hg, hrest⟩ := exists_gaps_skipGap c
  unfold readEnd
  simp only
  constructor
  · intro h
    split at h
    · rename_i hempty
      rw [hrest, List.isEmpty_iff.1 hempty, List.append_nil]
      exact hg
    · cases h
  · intro h
    have hempty : c.skipGap.rest = [] := by
      have hdrop : (c.rest ++ []).dropWhile isGap = [] := List.dropWhile_append_of_pos h
      rwa [List.append_nil] at hdrop
    rw [hempty]
    rfl

private theorem readWord_append (word rest : List Char) (offset : Nat) :
    readWord word ⟨word ++ rest, offset⟩ = .ok ⟨rest, offset + word.length⟩ := by
  induction word generalizing offset with
  | nil => rfl
  | cons l word ih =>
    simp only [readWord, List.cons_append, if_true, Cursor.advance, ih, List.length_cons]
    rw [Nat.add_assoc, Nat.add_comm 1]

private theorem eq_of_readWord {word : List Char} {c c' : Cursor} (h : readWord word c = .ok c') :
    c.rest = word ++ c'.rest := by
  induction word generalizing c with
  | nil =>
    cases h
    rfl
  | cons l word ih =>
    unfold readWord at h
    split at h
    · cases h
    · rename_i ch rest hrest
      split at h
      · rename_i hch
        rw [hrest, hch, List.cons_append, ← ih h]
        rfl
      · cases h

/-! ### Values without parts -/

/-- The texts of the values that may tell of a setting. -/
inductive IsScalar : List Char → Json → Prop
  | null : IsScalar ['n', 'u', 'l', 'l'] null
  | number {negative : Bool} {cs : List Char} {n : Numeral} {v : Json} (h : Numeral.IsText cs n)
      (hv : ∀ c, n.value negative c = .ok v) : IsScalar (signed negative cs) v
  | string {cs s : List Char} (h : IsBody cs s) : IsScalar ('"' :: (cs ++ ['"'])) (string (String.ofList s))

/-- Whether a value is of a kind that may tell of a setting. -/
def isScalar : Json → Bool
  | null | integer _ | number _ | string _ => true
  | bool _ | array _ | object _ => false

private theorem isScalar_of_number? {v : Json} {x : Double} (h : v.number? = some x) : v.isScalar = true := by
  cases v with
  | integer n => rfl
  | number y => rfl
  | _ => cases h

/-- The text of a value that is no number tells which. -/
private theorem IsScalar.cases_of_number? {t : List Char} {v : Json} (h : IsScalar t v) (hv : v.number? = none) :
    (v = .null ∧ t = "null".toList) ∨
      ∃ cs s, v = .string (String.ofList s) ∧ t = '"' :: (cs ++ ['"']) ∧ IsBody cs s := by
  cases h with
  | null => exact .inl ⟨rfl, rfl⟩
  | number htext hvalue =>
    obtain ⟨-, x, -, hx⟩ := Numeral.exists_of_value (hvalue (.start []))
    rw [hv] at hx
    cases hx
  | @string cs s hbody => exact .inr ⟨cs, s, rfl, rfl, hbody⟩

private theorem exists_of_readValue {n depth : Nat} {c c' : Cursor} {v : Json} (h : readValue n depth c = .ok (v, c'))
    (hv : v.isScalar = true) : ∃ g t, Gaps g ∧ IsScalar t v ∧ c.rest = g ++ (t ++ c'.rest) := by
  obtain ⟨g, hg, hskip⟩ := exists_gaps_skipGap c
  cases n with
  | zero =>
    unfold readValue at h
    cases h
  | succ n =>
    unfold readValue at h
    simp only at h
    split at h
    · cases h
    · rename_i rest hrest
      obtain ⟨d, hword, h⟩ := bind_eq_ok_iff.1 h
      cases h
      refine ⟨g, _, hg, .null, ?_⟩
      rw [hskip, hrest, show rest = _ from eq_of_readWord hword]
      rfl
    · obtain ⟨d, -, h⟩ := bind_eq_ok_iff.1 h
      cases h
      cases hv
    · obtain ⟨d, -, h⟩ := bind_eq_ok_iff.1 h
      cases h
      cases hv
    · rename_i rest hrest
      obtain ⟨⟨s, d⟩, hstring, h⟩ := bind_eq_ok_iff.1 h
      cases h
      obtain ⟨cs, hbody, hcs⟩ := exists_of_readString hstring
      refine ⟨g, _, hg, .string hbody, ?_⟩
      rw [hskip, hrest, show rest = _ from hcs]
      simp
    · split at h
      · cases h
      · obtain ⟨d, -, h⟩ := bind_eq_ok_iff.1 h
        cases h
        cases hv
    · split at h
      · cases h
      · obtain ⟨d, -, h⟩ := bind_eq_ok_iff.1 h
        cases h
        cases hv
    · split at h
      · obtain ⟨negative, cs, numeral, htext, hrest, hvalue⟩ := Numeral.exists_of_readNumber h
        refine ⟨g, _, hg, .number htext (Numeral.exists_of_value hvalue).1, ?_⟩
        rw [hskip, hrest]
      · cases h

private theorem readValue_of_isScalar {t : List Char} {v : Json} (h : IsScalar t v) {rest : List Char}
    (hrest : Gaps rest)
    (n depth offset : Nat) : ∃ offset', readValue (n + 1) depth ⟨t ++ rest, offset⟩ = .ok (v, ⟨rest, offset'⟩) := by
  cases h with
  | null =>
    have hword := readWord_append ['u', 'l', 'l'] rest (offset + 1)
    refine ⟨offset + 1 + 3, ?_⟩
    unfold readValue
    rw [List.cons_append, skipGap_of_head (by simp [isGap])]
    simp only [Cursor.advance, hword]
    rfl
  | @number negative cs n v htext hv =>
    obtain ⟨c, cs', hcs, hc⟩ := htext.exists_signed_cons negative
    have hread := Numeral.readNumber_of_isText negative htext hrest.ends offset
    rw [hv, hcs, List.cons_append] at hread
    rw [hcs, List.cons_append, readValue_number hc, hread]
    exact ⟨_, rfl⟩
  | @string cs s hbody =>
    obtain ⟨offset', hread⟩ := readString_append hbody rest (offset + 1)
    refine ⟨offset', ?_⟩
    unfold readValue
    rw [List.cons_append, List.append_assoc, skipGap_of_head (by simp [isGap])]
    simp only [Cursor.advance, List.cons_append, List.nil_append, hread]
    rfl

private theorem read?_eq_ok_iff {cs : List Char} {v : Json} (hv : v.isScalar = true) :
    read? cs = .ok v ↔ ∃ t, IsScalar t v ∧ Framed t cs := by
  constructor
  · intro h
    obtain ⟨⟨v', c⟩, hread, h⟩ := bind_eq_ok_iff.1 h
    obtain ⟨⟨⟩, hend, h⟩ := bind_eq_ok_iff.1 h
    cases h
    obtain ⟨g, t, hg, ht, hcs⟩ := exists_of_readValue hread hv
    exact ⟨t, ht, g, c.rest, hg, readEnd_eq_ok_iff.1 hend, hcs⟩
  · rintro ⟨t, ht, g, g', hg, hg', rfl⟩
    obtain ⟨offset, hread⟩ := readValue_of_isScalar ht hg' (2 * (g ++ (t ++ g')).length + 1) nestingLimit (0 + g.length)
    refine bind_eq_ok_iff.2 ⟨(v, ⟨g', offset⟩), ?_, bind_eq_ok_iff.2 ⟨(), readEnd_eq_ok_iff.2 hg', rfl⟩⟩
    exact (readValue_append hg ..).trans hread

end CameraPanel.Json

namespace CameraPanel.Reply

open Json

/-! ### Replies -/

/-- A numeral that the reader turns into a number, without an overflow. -/
inductive IsNumeral : List Char → Double → Prop
  | mk {negative : Bool} {t : List Char} {n : Numeral} {x : Double} (h : Numeral.IsText t n)
      (hx : n.converted? negative = some x) : IsNumeral (signed negative t) x

/-- A string of a literal between blanks. -/
inductive IsQuoted : List Char → Double → Prop
  | mk {t w literal w' : List Char} {x : Double} (h : IsBody t (w ++ (literal ++ w'))) (hw : Text.Blanks w)
      (hw' : Text.Blanks w') (hx : Literal.Denotes .double literal x) : IsQuoted ('"' :: (t ++ ['"'])) x

private theorem IsNumeral.isFinite {t : List Char} {x : Double} (h : IsNumeral t x) : x.isFinite = true := by
  cases h with
  | mk h hx =>
    obtain ⟨v, hvalue, hv⟩ := Numeral.value_of_converted? hx
    obtain ⟨-, y, hy, hvy⟩ := Numeral.exists_of_value (hvalue (.start []))
    rw [hv] at hvy
    cases hvy
    exact hy

/-- A text is a literal between blanks if it is one once it is trimmed. -/
private theorem denotes_trim_iff {s : List Char} {x : Double} :
    Literal.Denotes .double (Text.trim s) x ↔
      ∃ w literal w', Text.Blanks w ∧ Text.Blanks w' ∧ Literal.Denotes .double literal x ∧
        s = w ++ (literal ++ w') := by
  constructor
  · intro h
    obtain ⟨w, w', hw, hw', hs⟩ := Text.exists_trim s
    exact ⟨w, _, w', hw, hw', h, hs⟩
  · rintro ⟨w, literal, w', hw, hw', h, rfl⟩
    have hnumber := Command.IsNumber.literal h
    rwa [Text.trim_append hw hw' hnumber.ne_nil fun c hc => (hnumber.plain hc).1]

private theorem ofJson_eq_none_iff {v : Json} : ofJson v = .ok none ↔ v = .null := by
  constructor
  · intro h
    unfold ofJson at h
    split at h
    · rfl
    · cases h
    · cases h
    · split at h <;> cases h
    · cases h
  · rintro rfl
    rfl

private theorem ofJson_eq_some_iff {v : Json} {x : Double} :
    ofJson v = .ok (some x) ↔
      v.number? = some x ∨ ∃ s, v = .string (String.ofList s) ∧ Literal.Denotes .double (Text.trim s) x := by
  constructor
  · intro h
    unfold ofJson at h
    split at h
    · cases h
    · cases h
      exact .inl rfl
    · cases h
      exact .inl rfl
    · rename_i s
      split at h
      · rename_i y hy
        cases h
        exact .inr ⟨s.toList, by rw [String.ofList_toList], Format.ofLiteral?_eq_some_iff.1 hy⟩
      · cases h
    · cases h
  · rintro (h | ⟨s, rfl, h⟩)
    · cases v with
      | integer n =>
        cases h
        rfl
      | number y =>
        cases h
        rfl
      | _ => cases h
    · rw [← Format.ofLiteral?_eq_some_iff] at h
      simp [ofJson, h]

private theorem exists_of_ofJson_eq_error {v : Json} {e : RemoteError} (h : ofJson v = .error e) :
    ∃ message, e = .decode message := by
  unfold ofJson at h
  split at h
  · cases h
  · cases h
  · cases h
  · split at h
    · cases h
    · cases h
      exact ⟨_, rfl⟩
  · cases h
    exact ⟨_, rfl⟩

private theorem decode_eq_ok_iff {reply : String} {answer : Option Double} :
    decode reply = .ok answer ↔ ∃ v, read? reply.toList = .ok v ∧ ofJson v = .ok answer := by
  unfold decode
  cases hread : read? reply.toList with
  | ok v => simp
  | error fault => simp

private theorem isNumeral_iff {t : List Char} {x : Double} :
    IsNumeral t x ↔ ∃ v, IsScalar t v ∧ v.number? = some x := by
  constructor
  · rintro ⟨h, hx⟩
    obtain ⟨v, hvalue, hv⟩ := Numeral.value_of_converted? hx
    exact ⟨v, .number h hvalue, hv⟩
  · rintro ⟨v, hscalar, hv⟩
    cases hscalar with
    | null => cases hv
    | number h hvalue => exact ⟨h, (Numeral.converted?_of_value (hvalue (.start []))).trans hv⟩
    | string h => cases hv

private theorem isQuoted_iff {t : List Char} {x : Double} :
    IsQuoted t x ↔ ∃ s, IsScalar t (.string (String.ofList s)) ∧ Literal.Denotes .double (Text.trim s) x := by
  constructor
  · rintro ⟨h, hw, hw', hx⟩
    exact ⟨_, .string h, denotes_trim_iff.2 ⟨_, _, _, hw, hw', hx, rfl⟩⟩
  · rintro ⟨s, hscalar, hx⟩
    obtain ⟨w, literal, w', hw, hw', hliteral, rfl⟩ := denotes_trim_iff.1 hx
    rcases hscalar.cases_of_number? rfl with ⟨hnull, -⟩ | ⟨cs, s', hs, rfl, hbody⟩
    · cases hnull
    · obtain rfl := String.ofList_injective (Json.string.inj hs)
      exact ⟨hbody, hw, hw', hliteral⟩

/-- A reply tells of nothing exactly if it is the word `null`, and of a number exactly if it is a numeral in range or a
string of a literal; numerals are finite.  All other texts are refused, and only as ones that cannot be decoded. -/
theorem decode_follows_grammar (reply : String) :
    (decode reply = .ok none ↔ Framed "null".toList reply.toList) ∧
    (∀ x, decode reply = .ok (some x) ↔
      (∃ t, IsNumeral t x ∧ Framed t reply.toList) ∨ ∃ t, IsQuoted t x ∧ Framed t reply.toList) ∧
    (∀ t x, IsNumeral t x → x.isFinite = true) ∧
    ∀ e, decode reply = .error e → ∃ message, e = .decode message := by
  refine ⟨?_, fun x => ?_, fun t x => IsNumeral.isFinite, fun e h => ?_⟩
  · constructor
    · intro h
      obtain ⟨v, hread, hv⟩ := decode_eq_ok_iff.1 h
      obtain rfl := ofJson_eq_none_iff.1 hv
      obtain ⟨t, ht, hframed⟩ := (read?_eq_ok_iff rfl).1 hread
      rcases ht.cases_of_number? rfl with ⟨-, rfl⟩ | ⟨cs, s, hs, -⟩
      · exact hframed
      · cases hs
    · intro h
      exact decode_eq_ok_iff.2 ⟨.null, (read?_eq_ok_iff rfl).2 ⟨_, .null, h⟩, rfl⟩
  · constructor
    · intro h
      obtain ⟨v, hread, hv⟩ := decode_eq_ok_iff.1 h
      rcases ofJson_eq_some_iff.1 hv with hx | ⟨s, rfl, hx⟩
      · obtain ⟨t, ht, hframed⟩ := (read?_eq_ok_iff (isScalar_of_number? hx)).1 hread
        exact .inl ⟨t, isNumeral_iff.2 ⟨v, ht, hx⟩, hframed⟩
      · obtain ⟨t, ht, hframed⟩ := (read?_eq_ok_iff rfl).1 hread
        exact .inr ⟨t, isQuoted_iff.2 ⟨s, ht, hx⟩, hframed⟩
    · rintro (⟨t, h, hframed⟩ | ⟨t, h, hframed⟩)
      · obtain ⟨v, ht, hx⟩ := isNumeral_iff.1 h
        exact decode_eq_ok_iff.2
          ⟨v, (read?_eq_ok_iff (isScalar_of_number? hx)).2 ⟨t, ht, hframed⟩, ofJson_eq_some_iff.2 (.inl hx)⟩
      · obtain ⟨s, ht, hx⟩ := isQuoted_iff.1 h
        exact decode_eq_ok_iff.2
          ⟨_, (read?_eq_ok_iff rfl).2 ⟨t, ht, hframed⟩, ofJson_eq_some_iff.2 (.inr ⟨s, rfl, hx⟩)⟩
  · unfold decode at h
    split at h
    · exact exists_of_ofJson_eq_error h
    · cases h
      exact ⟨_, rfl⟩

end CameraPanel.Reply
