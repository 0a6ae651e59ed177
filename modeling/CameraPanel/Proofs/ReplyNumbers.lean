import CameraPanel.Proofs.Numerals
import CameraPanel.Remote.Reply

/-!
# Numbers in replies

The text of a finite number always reads as a finite number (`exists_decode_encode`), though not always as the same one
(`decode_encode_iff`).  The reader rounds three times: the integer of the digits, the power of ten, and their product or
quotient.  A quotient is never greater than the integer, and a product stays in range because rounding is monotone: it
is compared with the product of the greatest integer that the numeral can have for its power of ten.  If neither the
integer nor the power of ten is rounded, one rounding is left, and the number comes back as it was
(`faithful_of_short`).
-/

namespace CameraPanel

/-! ### Arithmetic on ranks -/

namespace Format

variable (F : Format)

theorem ofRank_of_lt (negative : Bool) {rank : Nat} (h : rank < F.ranks) :
    F.ofRank negative rank = .finite negative rank h := dif_pos h

theorem isFinite_ofRank_iff {negative : Bool} {rank : Nat} :
    (F.ofRank negative rank).isFinite = true ↔ rank < F.ranks := by
  unfold ofRank
  split
  · rename_i h
    exact ⟨fun _ => h, fun _ => rfl⟩
  · rename_i h
    exact ⟨fun hf => (Bool.false_ne_true hf).elim, fun hlt => absurd hlt h⟩

theorem ofInt_natCast (n : Nat) : (Binary.ofInt n : Binary F) = F.ofRank false (F.rankOf n) := by
  have hneg : decide (((n : Int) : ℚ) < 0) = false := by simp
  rw [Binary.ofInt, nearest, hneg, nearestMagnitude_eq, Int.cast_natCast]

/-- A whole number that does not need too many bits is not rounded. -/
private theorem magnitude_rankOf_mul_two_pow {m : Nat} (hm : m ≤ 2 ^ (F.fractionBits + 1)) {q : Nat} (hq : F.lowest ≤ q)
    :
    F.magnitude (F.rankOf ((m * 2 ^ q : Nat) : ℚ)) = (m * 2 ^ q : Nat) := by
  obtain ⟨rank, hrank⟩ := F.exists_magnitude_eq hm hq
  have hval : ((m * 2 ^ q : Nat) : ℚ) = F.magnitude rank := by
    rw [hrank]
    push_cast
    rw [zpow_natCast]
  rw [hval, rankOf_magnitude]

theorem pos_of_one_le_magnitude {rank : Nat} (h : 1 ≤ F.magnitude rank) : 0 < rank := by
  rcases Nat.eq_zero_or_pos rank with rfl | hpos
  · rw [F.magnitude_zero] at h
    exact absurd h (by norm_num)
  · exact hpos

end Format

namespace Binary

variable {F : Format} {r s : Nat} (hr : r < F.ranks) (hs : s < F.ranks)

theorem finite_mul_finite : (finite false r hr * finite false s hs : Binary F) =
    F.ofRank false (F.rankOf (F.magnitude r * F.magnitude s)) := rfl

private theorem finite_div_finite (hpos : 0 < s) : (finite false r hr / finite false s hs : Binary F) =
    F.ofRank false (F.rankOf (F.magnitude r / F.magnitude s)) := by
  show (if decide (s = 0) = true then _ else _) = _
  rw [decide_eq_false hpos.ne']
  rfl

/-- A number that is divided by a number from one on does not get greater. -/
private theorem exists_finite_div_finite (hone : 1 ≤ F.magnitude s) :
    ∃ (t : Nat) (ht : t < F.ranks), (finite false r hr / finite false s hs : Binary F) = finite false t ht := by
  have hpos := F.pos_of_one_le_magnitude hone
  have hle : F.rankOf (F.magnitude r / F.magnitude s) ≤ r := by
    have hmono := F.rankOf_mono (div_nonneg (F.magnitude_nonneg r) (F.magnitude_nonneg s))
      (div_le_self (F.magnitude_nonneg r) hone)
    rwa [F.rankOf_magnitude] at hmono
  have ht := hle.trans_lt hr
  exact ⟨_, ht, by rw [finite_div_finite hr hs hpos, F.ofRank_of_lt false ht]⟩

end Binary

/-! ### Scaling -/

namespace Json.Numeral

open Format

private theorem powerOfTen_eq (n : Nat) : powerOfTen n = double.ofRank false (double.rankOf ((10 ^ n : Nat) : ℚ)) := by
  have hneg : decide (((10 ^ n : Nat) : ℚ) < 0) = false := decide_eq_false (not_lt.2 (Nat.cast_nonneg _))
  show double.nearest ((10 ^ n : Nat) : ℚ) = _
  rw [nearest, hneg, nearestMagnitude_eq]

private theorem rankOf_natCast_mono {m n : Nat} (h : m ≤ n) : double.rankOf m ≤ double.rankOf n :=
  double.rankOf_mono (Nat.cast_nonneg _) (by exact_mod_cast h)

theorem rankOf_power_lt {n : Nat} (h : n ≤ greatestPower) : double.rankOf ((10 ^ n : Nat) : ℚ) < double.ranks := by
  have hlast : double.rankOf ((10 ^ greatestPower : Nat) : ℚ) < double.ranks := by decide +kernel
  exact (rankOf_natCast_mono (Nat.pow_le_pow_right (by norm_num) h)).trans_lt hlast

theorem powerOfTen_finite {n : Nat} (h : n ≤ greatestPower) :
    powerOfTen n = .finite false (double.rankOf ((10 ^ n : Nat) : ℚ)) (rankOf_power_lt h) := by
  rw [powerOfTen_eq, ofRank_of_lt]

private theorem one_le_magnitude_power (n : Nat) : 1 ≤ double.magnitude (double.rankOf ((10 ^ n : Nat) : ℚ)) := by
  have hone : double.magnitude (double.rankOf ((1 : Nat) : ℚ)) = 1 := by
    have h := double.magnitude_rankOf_mul_two_pow (m := 1) (q := 0) (by decide) (by decide)
    simpa using h
  rw [← hone]
  exact double.magnitude_strictMono.monotone (rankOf_natCast_mono (Nat.one_le_pow _ _ (by norm_num)))

theorem rankOf_word_lt {word : Nat} (h : word < 2 ^ 64) : double.rankOf word < double.ranks := by
  have hlast : double.rankOf ((2 ^ 64 : Nat) : ℚ) < double.ranks := by decide +kernel
  exact (rankOf_natCast_mono h.le).trans_lt hlast

private theorem word_lt {word : Nat} (h : word ≤ 10 ^ 17) : word < 2 ^ 64 := h.trans_lt (by norm_num)

/-- Lowering divides by a power of ten, if at all, so that a finite number stays finite. -/
private theorem exists_lower_eq (n : Nat) {r : Nat} (hr : r < double.ranks) (e : Int) :
    ∃ (t : Nat) (ht : t < double.ranks) (e' : Int), lower n (.finite false r hr) e = (.finite false t ht, e') := by
  induction n generalizing r e with
  | zero => exact ⟨r, hr, e, rfl⟩
  | succ n ih =>
    rw [lower]
    split
    · obtain ⟨t, ht, hdiv⟩ := Binary.exists_finite_div_finite hr (rankOf_power_lt (Nat.le_refl greatestPower))
        (one_le_magnitude_power greatestPower)
      rw [powerOfTen_finite (Nat.le_refl greatestPower), hdiv]
      exact ih ht _
    · exact ⟨r, hr, e, rfl⟩

/-- A negative exponent never leads out of range. -/
theorem exists_scale_of_neg {word : Nat} (hword : word < 2 ^ 64) {e : Int} (he : e < 0) :
    ∃ (t : Nat) (ht : t < double.ranks), scale word e = some (.finite false t ht) := by
  unfold scale
  rw [ofInt_natCast, ofRank_of_lt _ _ (rankOf_word_lt hword), if_neg (Int.not_le.2 he)]
  obtain ⟨t, ht, e', hlower⟩ := exists_lower_eq (e.natAbs / greatestPower + 1) (rankOf_word_lt hword) e
  simp only [hlower]
  split
  · exact ⟨t, ht, rfl⟩
  · rename_i hlow
    have hk : (-e').toNat ≤ greatestPower := by omega
    obtain ⟨t', ht', hdiv⟩ := Binary.exists_finite_div_finite ht (rankOf_power_lt hk) (one_le_magnitude_power _)
    exact ⟨t', ht', by rw [powerOfTen_finite hk, hdiv]⟩

/-- The rank of the product that a nonnegative exponent asks for. -/
def productRank (word k : Nat) : Nat :=
  double.rankOf (double.magnitude (double.rankOf word) * double.magnitude (double.rankOf ((10 ^ k : Nat) : ℚ)))

private theorem productRank_mono {word word' k k' : Nat} (hword : word ≤ word') (hk : k ≤ k') :
    productRank word k ≤ productRank word' k' := by
  have hmono := double.magnitude_strictMono.monotone
  have hnonneg := double.magnitude_nonneg
  apply double.rankOf_mono (mul_nonneg (hnonneg _) (hnonneg _))
  apply mul_le_mul (hmono (rankOf_natCast_mono hword)) _ (hnonneg _) (hnonneg _)
  exact hmono (rankOf_natCast_mono (Nat.pow_le_pow_right (by norm_num) hk))

private theorem scale_of_product {word k : Nat} (hword : word < 2 ^ 64) (hk : k ≤ greatestPower)
    (h : productRank word k < double.ranks) : scale word k = some (.finite false _ h) := by
  have hk' : ¬ (greatestPower : Int) < k := by omega
  have hproduct : _ = double.ofRank false (productRank word k) :=
    Binary.finite_mul_finite (rankOf_word_lt hword) (rankOf_power_lt hk)
  rw [ofRank_of_lt _ _ h] at hproduct
  unfold scale
  rw [ofInt_natCast, ofRank_of_lt _ _ (rankOf_word_lt hword), if_pos (Int.natCast_nonneg k), if_neg hk',
    Int.toNat_natCast, powerOfTen_finite hk, hproduct]
  rfl

/-- What is rounded to a rank before the last one is not above the middle between the last two magnitudes. -/
def belowLast : Nat := 2 ^ 1024 - 3 * 2 ^ 970

private theorem le_belowLast {n : Nat} (h : double.rankOf n < double.ranks - 1) : n ≤ belowLast := by
  have hnext : double.rankOf ((belowLast + 1 : Nat) : ℚ) = double.ranks - 1 := by decide +kernel
  by_contra hlt
  have hle := rankOf_natCast_mono (Nat.lt_of_not_le hlt)
  rw [Nat.succ_eq_add_one, hnext] at hle
  omega

private theorem productRank_lt {word k : Nat} (hword : word ≤ 10 ^ 17) (hk : k ≤ greatestPower)
    (hvalue : word * 10 ^ k ≤ belowLast) : productRank word k < double.ranks := by
  rcases Nat.lt_or_ge k 292 with hlt | hge
  · have hall : productRank (10 ^ 17) 291 < double.ranks := by decide +kernel
    exact (productRank_mono hword (Nat.le_of_lt_succ hlt)).trans_lt hall
  · -- For the greatest powers the integer has less than seventeen digits.
    have hlast : ∀ j < 17, productRank (belowLast / 10 ^ (292 + j)) (292 + j) < double.ranks := by decide +kernel
    obtain ⟨j, rfl⟩ := Nat.exists_eq_add_of_le hge
    have hj : 292 + j ≤ 308 := hk
    have hle : word ≤ belowLast / 10 ^ (292 + j) := (Nat.le_div_iff_mul_le (by positivity)).2 hvalue
    exact (productRank_mono hle (Nat.le_refl _)).trans_lt (hlast j (by omega))

private theorem exists_scale_of_nonneg {word k : Nat} (hword : word ≤ 10 ^ 17) (hvalue : word * 10 ^ k ≤ belowLast) :
    ∃ (t : Nat) (ht : t < double.ranks), scale word k = some (.finite false t ht) := by
  rcases Nat.lt_or_ge greatestPower k with hlt | hk
  · have hzero : word = 0 := by
      by_contra hne
      have hpow : 10 ^ (greatestPower + 1) ≤ 10 ^ k := Nat.pow_le_pow_right (by norm_num) hlt
      have hmul : 10 ^ k ≤ word * 10 ^ k := Nat.le_mul_of_pos_left _ (Nat.pos_of_ne_zero hne)
      have hbig : belowLast < 10 ^ (greatestPower + 1) := by decide +kernel
      omega
    subst hzero
    refine ⟨0, by decide, ?_⟩
    unfold scale
    rw [if_pos (Int.natCast_nonneg k), if_pos (by omega : (greatestPower : Int) < k)]
    rfl
  · exact ⟨_, _, scale_of_product (word_lt hword) hk (productRank_lt hword hk hvalue)⟩

/-- The integer and the power of ten in the text of a number that is not the last one are in range. -/
private theorem exists_scale {d : Decimal} (hdigits : d.digits ≤ 10 ^ 17)
    (hrank : double.rankOf d.toRat < double.ranks - 1) :
    ∃ (t : Nat) (ht : t < double.ranks), scale d.digits d.exp = some (.finite false t ht) := by
  rcases lt_or_ge d.exp 0 with hneg | hnonneg
  · exact exists_scale_of_neg (word_lt hdigits) hneg
  · obtain ⟨k, hk⟩ := Int.eq_ofNat_of_zero_le hnonneg
    have hval : d.toRat = ((d.digits * 10 ^ k : Nat) : ℚ) := by
      rw [Decimal.toRat_eq, hk]
      push_cast
      rw [zpow_natCast]
    rw [hval] at hrank
    rw [hk]
    exact exists_scale_of_nonneg hdigits (le_belowLast hrank)

/-! ### Scaling without rounding -/

/-- An integer of at most 53 bits with a power of ten that is a number itself. -/
structure Short (d : Decimal) : Prop where
  digits : d.digits ≤ 2 ^ 53
  low : -22 ≤ d.exp
  high : d.exp ≤ 22

private theorem magnitude_rankOf_power {k : Nat} (hk : k ≤ 22) :
    double.magnitude (double.rankOf ((10 ^ k : Nat) : ℚ)) = (10 ^ k : Nat) := by
  have hfive : 5 ^ k ≤ 2 ^ (double.fractionBits + 1) := (Nat.pow_le_pow_right (by norm_num) hk).trans (by decide)
  have hlowest : double.lowest ≤ k := (by decide : double.lowest ≤ 0).trans (Int.natCast_nonneg k)
  have h := double.magnitude_rankOf_mul_two_pow hfive hlowest
  rwa [← Nat.mul_pow] at h

theorem magnitude_rankOf_word {word : Nat} (hword : word ≤ 2 ^ 53) : double.magnitude (double.rankOf word) = word := by
  have h := double.magnitude_rankOf_mul_two_pow (m := word) (q := 0) hword (by decide)
  rwa [pow_zero, Nat.mul_one] at h

/-- With one rounding left the decimal is rounded to the nearest number. -/
private theorem scale_of_short {d : Decimal} (h : Short d) (hlt : double.rankOf d.toRat < double.ranks) :
    scale d.digits d.exp = some (.finite false _ hlt) := by
  have hword : d.digits < 2 ^ 64 := h.digits.trans_lt (by norm_num)
  rcases lt_or_ge d.exp 0 with hneg | hnonneg
  · obtain ⟨k, hk⟩ := Int.eq_ofNat_of_zero_le (show 0 ≤ -d.exp by omega)
    have hk22 : k ≤ 22 := by have := h.low; omega
    have hk308 : k ≤ greatestPower := hk22.trans (by decide)
    have hlow : ¬ d.exp < -(greatestPower : Int) := by have := h.low; simp only [greatestPower]; omega
    have hpos := double.pos_of_one_le_magnitude (one_le_magnitude_power k)
    have hquotient : double.magnitude (double.rankOf d.digits) / double.magnitude (double.rankOf ((10 ^ k : Nat) : ℚ)) =
        d.toRat := by
      rw [magnitude_rankOf_word h.digits, magnitude_rankOf_power hk22, Decimal.toRat_eq, show d.exp = -k by omega,
        zpow_neg, zpow_natCast, Nat.cast_pow, div_eq_mul_inv]
      rfl
    have hdiv := Binary.finite_div_finite (rankOf_word_lt hword) (rankOf_power_lt hk308) hpos
    rw [hquotient, ofRank_of_lt _ _ hlt] at hdiv
    unfold scale
    rw [ofInt_natCast, ofRank_of_lt _ _ (rankOf_word_lt hword), if_neg (Int.not_le.2 hneg), lower,
      if_neg (fun hc => hlow hc.1)]
    simp only [if_neg hlow, hk, Int.toNat_natCast]
    rw [powerOfTen_finite hk308]
    exact congrArg some hdiv
  · obtain ⟨k, hk⟩ := Int.eq_ofNat_of_zero_le hnonneg
    have hk22 : k ≤ 22 := by have := h.high; omega
    have hproduct : productRank d.digits k = double.rankOf d.toRat := by
      rw [productRank, magnitude_rankOf_word h.digits, magnitude_rankOf_power hk22, Decimal.toRat_eq, hk]
      push_cast
      rw [zpow_natCast]
    have hlt' : productRank d.digits k < double.ranks := hproduct ▸ hlt
    have hscale := scale_of_product hword (hk22.trans (by decide)) hlt'
    rw [hk]
    simpa only [hproduct] using hscale

/-! ### The last number -/

private theorem IsText.unique {cs : List Char} {n n' : Numeral} (h : IsText cs n) (h' : IsText cs n') : n = n' := by
  have hlex := lex_of_isText .endInValue h ends_nil 0
  rw [lex_of_isText .endInValue h' ends_nil 0] at hlex
  simpa using hlex.symm

/-- A numeral does not start with a sign, so that a sign before it can be told. -/
private theorem IsText.eq_of_signed_eq {negative negative' : Bool} {cs cs' : List Char} {n n' : Numeral}
    (h : IsText cs n) (h' : IsText cs' n') (heq : signed negative cs = signed negative' cs') : cs = cs' := by
  obtain ⟨d, ds, rfl, hd⟩ := h.exists_cons
  obtain ⟨d', ds', rfl, hd'⟩ := h'.exists_cons
  have hne := (Literal.ne_sign_of_isDigit hd).1
  have hne' := (Literal.ne_sign_of_isDigit hd').1
  cases negative <;> cases negative'
  · exact heq
  · exact absurd (List.cons.inj heq).1 hne
  · exact absurd (List.cons.inj heq).1.symm hne'
  · exact (List.cons.inj heq).2

/-- The parts of the text of the last number. -/
def last : Numeral := ⟨['1'], "7976931348623157".toList, some (false, ['3', '0', '8'])⟩

private theorem isText_last : IsText (numberLayout.magnitude .double (double.ranks - 1)) last := by
  have htext : numberLayout.magnitude .double (double.ranks - 1) =
      ['1'] ++ ('.' :: "7976931348623157".toList ++ 'e' :: (['+'] ++ ['3', '0', '8'])) := by decide +kernel
  have hwhole : IsWhole ['1'] := .digits (by decide) (by decide) (by simp)
  have hfraction : IsFraction ('.' :: "7976931348623157".toList) _ :=
    .digits (by decide) (List.all_eq_true.1 (by decide))
  have hexp : IsExponent ('e' :: (['+'] ++ ['3', '0', '8'])) _ :=
    .digits (.inl rfl) .plus (by decide) (List.all_eq_true.1 (by decide))
  rw [htext]
  exact .mk hwhole hfraction hexp

/-- The text of a number is in range. -/
private theorem exists_scale_of_isText {rank : Nat} (h : rank < double.ranks) {n : Numeral}
    (htext : IsText (numberLayout.magnitude .double rank) n) (hdigits : n.decimal.digits ≤ 10 ^ 17)
    (hrank : double.rankOf n.decimal.toRat = rank) :
    ∃ (t : Nat) (ht : t < double.ranks), scale n.decimal.digits n.decimal.exp = some (.finite false t ht) := by
  by_cases hlast : rank < double.ranks - 1
  · exact exists_scale hdigits (hrank ▸ hlast)
  · -- The integer in the text of the last number is rounded down; one that is rounded up would lead out of range.
    have hscale : scale last.decimal.digits last.decimal.exp =
        some (.finite false (double.ranks - 1) (by decide)) := by decide +kernel
    obtain rfl : rank = double.ranks - 1 := by omega
    obtain rfl : n = last := htext.unique isText_last
    exact ⟨_, _, hscale⟩

end Json.Numeral

/-! ### Replies -/

namespace Reply

open Format Json

/-- The text of a number is one of few digits: the integer of all its digits has at most 53 bits, and the power of ten
that goes with it is a number itself. -/
def Short (x : Double) : Prop :=
  ∃ (negative : Bool) (cs : List Char) (n : Numeral),
    numberChars x = signed negative cs ∧ Numeral.IsText cs n ∧ Numeral.Short n.decimal

theorem decode_encode_of_not_finite {x : Double} (h : x.isFinite = false) : decode (encode x) = .ok none := by
  cases x with
  | finite => cases h
  | nan => rw [decode, encode, String.toList_ofList]; rfl
  | infinity => rw [decode, encode, String.toList_ofList]; rfl

/-- The reader scales the integer in the text of a number, and adds the sign. -/
private theorem decode_encode_of_scale {negative : Bool} {rank : Nat} {h : rank < double.ranks} {n : Numeral}
    (htext : Numeral.IsText (numberLayout.magnitude .double rank) n) (hfits : n.Fits) {t : Nat} {ht : t < double.ranks}
    (hscale : Numeral.scale n.decimal.digits n.decimal.exp = some (.finite false t ht)) :
    decode (encode (.finite negative rank h)) = .ok (some (.finite negative t ht)) := by
  have hread : read? (signed negative (numberLayout.magnitude .double rank)) =
      .ok (.number (.finite negative t ht)) := by
    apply read?_of_isText negative htext
    intro c
    rw [Numeral.value_eq hfits hscale]
    cases negative <;> rfl
  have hchars : numberChars (.finite negative rank h) = signed negative (numberLayout.magnitude .double rank) := rfl
  rw [decode, encode, String.toList_ofList, hchars, hread]
  rfl

/-- The text of a finite number, what the reader makes of the integer in it, and the answer. -/
private theorem exists_scale_encode (negative : Bool) {rank : Nat} (h : rank < double.ranks) :
    ∃ (n : Numeral) (t : Nat) (ht : t < double.ranks), Numeral.IsText (numberLayout.magnitude .double rank) n ∧
      Numeral.scale n.decimal.digits n.decimal.exp = some (.finite false t ht) ∧
      decode (encode (.finite negative rank h)) = .ok (some (.finite negative t ht)) ∧
      double.rankOf n.decimal.toRat = rank := by
  obtain ⟨n, htext, hfits, hdigits, hrank⟩ := exists_numeral h
  obtain ⟨t, ht, hscale⟩ := Numeral.exists_scale_of_isText h htext hdigits hrank
  exact ⟨n, t, ht, htext, hscale, decode_encode_of_scale htext hfits hscale, hrank⟩

/-- The reply that tells of a finite number is decoded as a finite number. -/
theorem exists_decode_encode {x : Double} (h : x.isFinite = true) :
    ∃ w : Double, w.isFinite = true ∧ decode (encode x) = .ok (some w) := by
  obtain _ | _ | ⟨negative, rank, hlt⟩ := x
  · cases h
  · cases h
  obtain ⟨n, t, ht, -, -, hdecode, -⟩ := exists_scale_encode negative hlt
  exact ⟨_, rfl, hdecode⟩

/-- The reader gives a number back: the integer of the digits in its text, scaled with the power of ten that goes with
it, is the number up to its sign. -/
def Faithful (x : Double) : Prop :=
  ∃ (negative : Bool) (cs : List Char) (n : Numeral) (w : Double),
    numberChars x = signed negative cs ∧ Numeral.IsText cs n ∧
      Numeral.scale n.decimal.digits n.decimal.exp = some w ∧ x = if negative then -w else w

theorem decode_encode_iff {x : Double} (h : x.isFinite = true) : decode (encode x) = .ok (some x) ↔ Faithful x := by
  obtain _ | _ | ⟨negative, rank, hlt⟩ := x
  · cases h
  · cases h
  obtain ⟨n, t, ht, htext, hscale, hdecode, -⟩ := exists_scale_encode negative hlt
  rw [hdecode]
  constructor
  · intro heq
    cases heq
    refine ⟨negative, _, n, _, rfl, htext, hscale, ?_⟩
    cases negative <;> rfl
  · rintro ⟨negative', cs, n', w, hcs, htext', hscale', hx⟩
    obtain rfl := htext.eq_of_signed_eq htext' hcs
    obtain rfl := htext.unique htext'
    obtain rfl : Binary.finite false t ht = w := Option.some.inj (hscale.symm.trans hscale')
    have hrank : rank = t := by
      cases negative' <;> cases hx <;> rfl
    subst hrank
    rfl

theorem faithful_of_short {x : Double} (h : x.isFinite = true) (hshort : Short x) : Faithful x := by
  obtain _ | _ | ⟨negative, rank, hlt⟩ := x
  · cases h
  · cases h
  obtain ⟨negative', cs, n', hcs, htext', hdecimal⟩ := hshort
  obtain ⟨n, t, ht, htext, -, -, hrank⟩ := exists_scale_encode negative hlt
  obtain rfl := htext.eq_of_signed_eq htext' hcs
  obtain rfl := htext.unique htext'
  have hscale := Numeral.scale_of_short hdecimal (hrank ▸ hlt)
  simp only [hrank] at hscale
  refine ⟨negative, _, n, _, rfl, htext, hscale, ?_⟩
  cases negative <;> rfl

end Reply

end CameraPanel
