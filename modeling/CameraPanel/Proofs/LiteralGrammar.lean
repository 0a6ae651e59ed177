import CameraPanel.Proofs.PlainText

/-!
# The grammar of literals

`Literal.Denotes` says part by part how a literal is written and which number it stands for: a sign that may be
missing, and then a word or a decimal with a fraction and an exponent that may be missing too.  The reader takes each
part off the front of the text as far as it goes, and no part can start with a character that the part before it would
still take; so it reads exactly these texts (`Format.ofLiteral?_eq_some_iff`).
-/

namespace CameraPanel

namespace Literal

/-! ### Parts -/

/-- A sign, which may be missing, and whether it is negative. -/
inductive IsSign : List Char → Bool → Prop
  | none : IsSign [] false
  | plus : IsSign ['+'] false
  | minus : IsSign ['-'] true

/-- A point with digits after it, of which there may be none; the point may be missing. -/
inductive IsFraction : List Char → List Char → Prop
  | none : IsFraction [] []
  | point {ds : List Char} (h : ∀ c ∈ ds, c.isDigit = true) : IsFraction ('.' :: ds) ds

/-- An exponent, which may be missing. -/
inductive IsExponent : List Char → Int → Prop
  | none : IsExponent [] 0
  | digits {mark : Char} {s ds : List Char} {negative : Bool} (hmark : mark = 'e' ∨ mark = 'E')
      (hs : IsSign s negative) (hne : ds ≠ []) (h : ∀ c ∈ ds, c.isDigit = true) :
      IsExponent (mark :: (s ++ ds)) (if negative then -(digitsValue ds : Int) else digitsValue ds)

/-- An unsigned literal of digits.  There is a digit on at least one side of the point. -/
inductive IsDecimal : List Char → Decimal → Prop
  | mk {whole point frac exp : List Char} {e : Int} (hwhole : ∀ c ∈ whole, c.isDigit = true)
      (hpoint : IsFraction point frac) (hne : whole ++ frac ≠ []) (hexp : IsExponent exp e) :
      IsDecimal (whole ++ (point ++ exp)) ⟨digitsValue (whole ++ frac), e - frac.length⟩

/-- A literal and the number that it stands for. -/
inductive Denotes (F : Format) : List Char → Binary F → Prop
  | infinity {s word : List Char} {negative : Bool} (hs : IsSign s negative)
      (hword : word.map Char.toLower ∈ infinityWords) : Denotes F (s ++ word) (.infinity negative)
  | nan {s word : List Char} {negative : Bool} (hs : IsSign s negative) (hword : word.map Char.toLower = nanWord) :
      Denotes F (s ++ word) .nan
  | decimal {s body : List Char} {negative : Bool} {d : Decimal} (hs : IsSign s negative) (hbody : IsDecimal body d) :
      Denotes F (s ++ body) (F.ofDecimal negative d)

/-! ### Signs -/

private theorem exists_isSign (cs : List Char) : ∃ s, IsSign s (sign cs).1 ∧ cs = s ++ (sign cs).2 := by
  unfold sign
  split
  · exact ⟨['-'], .minus, rfl⟩
  · exact ⟨['+'], .plus, rfl⟩
  · exact ⟨[], .none, rfl⟩

private theorem sign_append {s body : List Char} {negative : Bool} (hs : IsSign s negative)
    (hbody : ∀ c ∈ body.head?, c ≠ '-' ∧ c ≠ '+') : sign (s ++ body) = (negative, body) := by
  cases hs with
  | minus => rfl
  | plus => rfl
  | none =>
    show sign body = (false, body)
    unfold sign
    split
    · exact absurd rfl (hbody '-' rfl).1
    · exact absurd rfl (hbody '+' rfl).2
    · rfl

/-! ### Decimals -/

theorem ne_sign_of_isDigit {c : Char} (h : c.isDigit = true) : c ≠ '-' ∧ c ≠ '+' := by
  constructor
  · rintro rfl
    simp at h
  · rintro rfl
    simp at h

private theorem exponent?_eq_some_iff {cs : List Char} {e : Int} : exponent? cs = some e ↔ IsExponent cs e := by
  constructor
  · intro h
    cases cs with
    | nil =>
      cases h
      exact .none
    | cons mark rest =>
      obtain ⟨s, hs, hrest⟩ := exists_isSign rest
      by_cases hmark : mark = 'e' ∨ mark = 'E'
      · simp only [exponent?, hmark, if_true] at h
        split at h
        · cases h
        · rename_i hds
          cases h
          have hds' : (sign rest).2 ≠ [] ∧ ∀ c ∈ (sign rest).2, c.isDigit = true := by simpa using hds
          have hread := IsExponent.digits hmark hs hds'.1 hds'.2
          rwa [← hrest] at hread
      · simp [exponent?, hmark] at h
  · intro h
    cases h with
    | none => rfl
    | @digits mark s ds negative hmark hs hne h =>
      have hhead : ∀ c ∈ ds.head?, c ≠ '-' ∧ c ≠ '+' := fun c hc => ne_sign_of_isDigit (h c (List.mem_of_mem_head? hc))
      have hempty : ds.isEmpty = false := List.isEmpty_eq_false_iff.2 hne
      have hall : ds.all Char.isDigit = true := List.all_eq_true.2 h
      simp only [exponent?, hmark, if_true, sign_append hs hhead, hempty, hall, Bool.not_true, Bool.or_self,
        Bool.false_eq_true, if_false]

/-- No exponent starts with a digit or a point. -/
private theorem IsExponent.head {cs : List Char} {e : Int} (h : IsExponent cs e) :
    ∀ c ∈ cs.head?, c.isDigit = false ∧ c ≠ '.' := by
  intro c hc
  cases h with
  | none => cases hc
  | digits hmark hs hne h =>
    cases hc
    rcases hmark with rfl | rfl <;> exact ⟨by decide, by decide⟩

/-- Nothing that may follow the whole digits starts with a digit. -/
private theorem IsFraction.head_append {point frac exp : List Char} {e : Int} (h : IsFraction point frac)
    (hexp : IsExponent exp e) : ∀ c ∈ (point ++ exp).head?, c.isDigit = false := by
  intro c hc
  cases h with
  | none => exact (hexp.head c hc).1
  | point h =>
    cases hc
    decide

private theorem fraction_append {point frac exp : List Char} {e : Int} (h : IsFraction point frac)
    (hexp : IsExponent exp e) : fraction (point ++ exp) = (frac, exp) := by
  cases h with
  | none =>
    show fraction exp = ([], exp)
    unfold fraction
    split
    · exact absurd rfl (hexp.head '.' rfl).2
    · rfl
  | point h => exact span_digits h exp fun c hc => (hexp.head c hc).1

private theorem exists_isFraction (cs : List Char) :
    ∃ point, IsFraction point (fraction cs).1 ∧ cs = point ++ (fraction cs).2 := by
  unfold fraction
  split
  · rename_i rest
    rw [List.span_eq_takeWhile_dropWhile]
    refine ⟨_, .point fun c hc => List.all_eq_true.1 List.all_takeWhile c hc, ?_⟩
    simp
  · exact ⟨[], .none, rfl⟩

private theorem decimal?_eq_some_iff {cs : List Char} {d : Decimal} : decimal? cs = some d ↔ IsDecimal cs d := by
  constructor
  · intro h
    unfold decimal? at h
    rw [List.span_eq_takeWhile_dropWhile] at h
    simp only at h
    obtain ⟨point, hpoint, hrest⟩ := exists_isFraction (cs.dropWhile Char.isDigit)
    split at h
    · cases h
    · rename_i hne
      obtain ⟨e, he, rfl⟩ := Option.map_eq_some_iff.1 h
      have hwhole : ∀ c ∈ cs.takeWhile Char.isDigit, c.isDigit = true := fun c hc =>
        List.all_eq_true.1 List.all_takeWhile c hc
      have hcs : cs = cs.takeWhile Char.isDigit ++ (point ++ (fraction (cs.dropWhile Char.isDigit)).2) := by
        rw [← hrest, List.takeWhile_append_dropWhile]
      have hread := IsDecimal.mk hwhole hpoint (by simpa using hne) (exponent?_eq_some_iff.1 he)
      rwa [← hcs] at hread
  · rintro ⟨hwhole, hpoint, hne, hexp⟩
    have hspan := span_digits hwhole _ (hpoint.head_append hexp)
    simp only [decimal?, hspan, fraction_append hpoint hexp, exponent?_eq_some_iff.2 hexp, Option.map_some,
      Bool.and_eq_true, List.isEmpty_iff]
    rw [if_neg]
    rintro ⟨rfl, rfl⟩
    exact hne rfl

/-- A decimal starts with a digit or a point. -/
theorem IsDecimal.head {cs : List Char} {d : Decimal} (h : IsDecimal cs d) :
    ∃ c rest, cs = c :: rest ∧ (c.isDigit = true ∨ c = '.') := by
  obtain ⟨hwhole, hpoint, hne, hexp⟩ := h
  rename_i whole point frac exp e
  cases whole with
  | cons c whole => exact ⟨c, _, rfl, Or.inl (hwhole c (by simp))⟩
  | nil =>
    cases hpoint with
    | none => exact absurd rfl hne
    | point h => exact ⟨'.', _, rfl, Or.inr rfl⟩

private theorem IsDecimal.sign_append {s cs : List Char} {d : Decimal} {negative : Bool} (h : IsDecimal cs d)
    (hs : IsSign s negative) : sign (s ++ cs) = (negative, cs) := by
  obtain ⟨c, rest, rfl, hc⟩ := h.head
  refine Literal.sign_append hs fun c' hc' => ?_
  cases hc'
  rcases hc with hc | rfl
  · exact ne_sign_of_isDigit hc
  · decide

/-! ### Words -/

/-- A word is not empty, and its first letter is neither a sign nor what a decimal starts with. -/
private theorem head_of_word {word : List Char} (h : word.map Char.toLower ∈ nanWord :: infinityWords) :
    ∃ c rest, word = c :: rest ∧ (c.toLower = 'n' ∨ c.toLower = 'i') := by
  cases word with
  | nil => simp [nanWord, infinityWords] at h
  | cons c rest =>
    refine ⟨c, rest, rfl, ?_⟩
    simp only [nanWord, infinityWords, List.map_cons, List.mem_cons, List.not_mem_nil, or_false] at h
    rcases h with h | h | h
    · exact Or.inl (List.cons.inj h).1
    · exact Or.inr (List.cons.inj h).1
    · exact Or.inr (List.cons.inj h).1

private theorem sign_append_word {s word : List Char} {negative : Bool} (hs : IsSign s negative)
    (h : word.map Char.toLower ∈ nanWord :: infinityWords) : sign (s ++ word) = (negative, word) := by
  obtain ⟨c, rest, rfl, hc⟩ := head_of_word h
  refine sign_append hs fun c' hc' => ?_
  cases hc'
  constructor <;> rintro rfl <;> revert hc <;> decide

private theorem IsDecimal.not_word {cs : List Char} {d : Decimal} (h : IsDecimal cs d) :
    cs.map Char.toLower ∉ nanWord :: infinityWords := by
  intro hword
  obtain ⟨c, rest, rfl, hc⟩ := h.head
  obtain ⟨c', rest', heq, hc'⟩ := head_of_word hword
  cases heq
  have hlower : c.toLower = c := by
    rcases hc with hc | rfl
    · exact toLower_of_isDigit hc
    · rfl
  rw [hlower] at hc'
  rcases hc' with rfl | rfl <;> revert hc <;> decide

end Literal

/-- The reader takes exactly the literals, and each for the number that it stands for. -/
theorem Format.ofLiteral?_eq_some_iff {F : Format} {cs : List Char} {x : Binary F} :
    F.ofLiteral? cs = some x ↔ Literal.Denotes F cs x := by
  constructor
  · intro h
    obtain ⟨s, hs, hcs⟩ := Literal.exists_isSign cs
    unfold ofLiteral? at h
    simp only at h
    rw [hcs]
    split at h
    · rename_i hword
      cases h
      exact .infinity hs hword
    · split at h
      · rename_i hword
        cases h
        exact .nan hs hword
      · obtain ⟨d, hd, rfl⟩ := Option.map_eq_some_iff.1 h
        exact .decimal hs (Literal.decimal?_eq_some_iff.1 hd)
  · intro h
    cases h with
    | infinity hs hword =>
      have hsign := Literal.sign_append_word hs (List.mem_cons_of_mem _ hword)
      simp only [ofLiteral?, hsign, hword, if_true]
    | nan hs hword =>
      have hsign := Literal.sign_append_word hs (List.mem_cons.2 (Or.inl hword))
      have hnot : Literal.nanWord ∉ Literal.infinityWords := by decide
      simp only [ofLiteral?, hsign, hword, hnot, if_false, if_true]
    | decimal hs hbody =>
      have hsign := hbody.sign_append hs
      have hword := hbody.not_word
      rw [List.mem_cons, not_or] at hword
      simp only [ofLiteral?, hsign, hword.1, hword.2, if_false, Literal.decimal?_eq_some_iff.2 hbody, Option.map_some]

/-! ### Characters -/

namespace Literal

private theorem isAlpha_of_toLower {c : Char} (h : c.toLower.isAlpha = true) : c.isAlpha = true := by
  unfold Char.toLower at h
  split at h
  · rename_i hupper
    have hupper' : c.isUpper = true := decide_eq_true hupper
    show (c.isUpper || c.isLower) = true
    rw [hupper', Bool.true_or]
  · exact h

theorem isAlpha_of_mem_word {word : List Char} (h : word.map Char.toLower ∈ nanWord :: infinityWords) {c : Char}
    (hc : c ∈ word) : c.isAlpha = true := by
  have hall : ∀ w ∈ nanWord :: infinityWords, w.all Char.isAlpha = true := by decide
  exact isAlpha_of_toLower (List.all_eq_true.1 (hall _ h) _ (List.mem_map_of_mem hc))

/-- The characters that stand in literals. -/
def IsLiteralChar (c : Char) : Prop := c.isAlphanum = true ∨ c = '+' ∨ c = '-' ∨ c = '.'

theorem IsLiteralChar.toNat_bounds {c : Char} (h : IsLiteralChar c) : 43 ≤ c.toNat ∧ c.toNat ≤ 122 := by
  rcases h with h | rfl | rfl | rfl
  · have hcases : (c.isUpper = true ∨ c.isLower = true) ∨ c.isDigit = true := by
      rw [← Bool.or_eq_true, ← Bool.or_eq_true]
      exact h
    -- Each of the three ranges is an interval of codes.
    have hbounds : ∀ {low high : UInt32}, low ≤ c.val ∧ c.val ≤ high → low.toNat ≤ c.toNat ∧ c.toNat ≤ high.toNat :=
      fun hrange => hrange
    have hsplit : ∀ {low high : UInt32}, (decide (low ≤ c.val) && decide (c.val ≤ high)) = true →
        low.toNat ≤ c.toNat ∧ c.toNat ≤ high.toNat := by
      intro low high hand
      rw [Bool.and_eq_true, decide_eq_true_iff, decide_eq_true_iff] at hand
      exact hbounds hand
    rcases hcases with (hupper | hlower) | hdigit
    · have hrange := hbounds (of_decide_eq_true hupper)
      simp at hrange
      omega
    · have hrange := hsplit hlower
      simp at hrange
      omega
    · have hrange := hsplit hdigit
      simp at hrange
      omega
  · decide
  · decide
  · decide

private theorem isLiteralChar_of_isAlpha {c : Char} (h : c.isAlpha = true) : IsLiteralChar c := by
  left
  simp [Char.isAlphanum, h]

private theorem isLiteralChar_of_isDigit {c : Char} (h : c.isDigit = true) : IsLiteralChar c := by
  left
  simp [Char.isAlphanum, h]

private theorem IsSign.isLiteralChar {s : List Char} {negative : Bool} (h : IsSign s negative) {c : Char} (hc : c ∈ s) :
    IsLiteralChar c := by
  cases h with
  | none => cases hc
  | plus => exact Or.inr (Or.inl (List.mem_singleton.1 hc))
  | minus => exact Or.inr (Or.inr (Or.inl (List.mem_singleton.1 hc)))

private theorem IsExponent.isLiteralChar {cs : List Char} {e : Int} (h : IsExponent cs e) {c : Char} (hc : c ∈ cs) :
    IsLiteralChar c := by
  cases h with
  | none => cases hc
  | digits hmark hs hne h =>
    simp only [List.mem_cons, List.mem_append] at hc
    rcases hc with rfl | hc | hc
    · rcases hmark with rfl | rfl <;> exact isLiteralChar_of_isAlpha (by decide)
    · exact hs.isLiteralChar hc
    · exact isLiteralChar_of_isDigit (h c hc)

private theorem IsDecimal.isLiteralChar {cs : List Char} {d : Decimal} (h : IsDecimal cs d) {c : Char} (hc : c ∈ cs) :
    IsLiteralChar c := by
  obtain ⟨hwhole, hpoint, hne, hexp⟩ := h
  simp only [List.mem_append] at hc
  rcases hc with hc | hc | hc
  · exact isLiteralChar_of_isDigit (hwhole c hc)
  · cases hpoint with
    | none => cases hc
    | point h =>
      rcases List.mem_cons.1 hc with rfl | hc
      · exact Or.inr (Or.inr (Or.inr rfl))
      · exact isLiteralChar_of_isDigit (h c hc)
  · exact hexp.isLiteralChar hc

theorem Denotes.isLiteralChar {F : Format} {cs : List Char} {x : Binary F} (h : Denotes F cs x) {c : Char}
    (hc : c ∈ cs) : IsLiteralChar c := by
  cases h with
  | infinity hs hword =>
    rcases List.mem_append.1 hc with hc | hc
    · exact hs.isLiteralChar hc
    · exact isLiteralChar_of_isAlpha (isAlpha_of_mem_word (List.mem_cons_of_mem _ hword) hc)
  | nan hs hword =>
    rcases List.mem_append.1 hc with hc | hc
    · exact hs.isLiteralChar hc
    · exact isLiteralChar_of_isAlpha (isAlpha_of_mem_word (List.mem_cons.2 (Or.inl hword)) hc)
  | decimal hs hbody =>
    rcases List.mem_append.1 hc with hc | hc
    · exact hs.isLiteralChar hc
    · exact hbody.isLiteralChar hc

end Literal

end CameraPanel
