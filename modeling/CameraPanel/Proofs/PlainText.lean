import CameraPanel.Number.Literal
import CameraPanel.Proofs.Ranks

/-!
# The plain text of a number

The plain text of a finite number reads back as the number.  Two things are behind this.  A decimal that was found on a
grid was tried before it was taken, and the exact decimal, which is taken when no grid will do, has the magnitude of the
rank itself (`readsBack_shortest`).  And to lay out the digits of a decimal and to read the layout only moves zeros
between the digits and the exponent, which keeps the value; and what a decimal is read as depends on its value alone
(`ofDecimal_congr`).
-/

namespace CameraPanel

/-! ### The value of a decimal -/

namespace Decimal

theorem toRat_eq (d : Decimal) : d.toRat = d.digits * (10 : ℚ) ^ d.exp := by
  rw [← pow_toNat_div]
  simp [toRat, mul_div_assoc]

theorem toRat_eq_zero_iff {d : Decimal} : d.toRat = 0 ↔ d.digits = 0 := by
  have hpow : (10 : ℚ) ^ d.exp ≠ 0 := zpow_ne_zero _ (by norm_num)
  rw [toRat_eq]
  simp [hpow]

/-- The point stands at the first power of ten above the value. -/
theorem point_spec {d : Decimal} (h : d.digits ≠ 0) : (10 : ℚ) ^ (d.point - 1) ≤ d.toRat ∧ d.toRat < 10 ^ d.point := by
  have hpos : 0 < (decimalDigits d.digits).length := Nat.length_toDigits_pos
  obtain ⟨n, hn⟩ := Nat.exists_eq_succ_of_ne_zero hpos.ne'
  have hhigh : d.digits < 10 ^ (n + 1) := (Nat.length_toDigits_le_iff (by decide) (Nat.succ_pos n)).1 hn.le
  have hlow : 10 ^ n ≤ d.digits := by
    rcases Nat.eq_zero_or_pos n with rfl | hn'
    · exact Nat.pos_of_ne_zero h
    · have hlt : ¬ d.digits < 10 ^ n := by
        rw [← Nat.length_toDigits_le_iff (by decide) hn']
        exact Nat.not_le.2 (hn ▸ Nat.lt_succ_self n)
      exact Nat.not_lt.1 hlt
  have hpoint : d.point = (n + 1 : Nat) + d.exp := by rw [point, hn, add_comm]
  have hpoint' : d.point - 1 = (n : Nat) + d.exp := by rw [hpoint]; push_cast; ring
  rw [hpoint', hpoint, toRat_eq, zpow_add₀ (by norm_num), zpow_add₀ (by norm_num), zpow_natCast, zpow_natCast]
  have hlow' : (10 : ℚ) ^ n ≤ d.digits := by exact_mod_cast hlow
  have hhigh' : (d.digits : ℚ) < 10 ^ (n + 1) := by exact_mod_cast hhigh
  constructor <;> gcongr

private theorem point_congr {d d' : Decimal} (h : d.digits ≠ 0) (hval : d.toRat = d'.toRat) : d.point = d'.point := by
  have h' : d'.digits ≠ 0 := fun h0 => h (toRat_eq_zero_iff.1 (hval.trans (toRat_eq_zero_iff.2 h0)))
  obtain ⟨hlow, hhigh⟩ := point_spec h
  obtain ⟨hlow', hhigh'⟩ := point_spec h'
  -- The value lies in one decade only.
  rw [hval] at hlow hhigh
  have h₁ : d.point - 1 < d'.point := (zpow_lt_zpow_iff_right₀ (by norm_num)).1 (hlow.trans_lt hhigh')
  have h₂ : d'.point - 1 < d.point := (zpow_lt_zpow_iff_right₀ (by norm_num)).1 (hlow'.trans_lt hhigh)
  omega

end Decimal

/-! ### Decimals that read back -/

namespace Format

variable {F : Format}

/-- What a decimal is read as depends on its value alone. -/
private theorem ofDecimal_congr (negative : Bool) {d d' : Decimal} (h : d.toRat = d'.toRat) :
    F.ofDecimal negative d = F.ofDecimal negative d' := by
  have hzero : d.digits = 0 ↔ d'.digits = 0 := by rw [← Decimal.toRat_eq_zero_iff, h, Decimal.toRat_eq_zero_iff]
  unfold ofDecimal
  by_cases h0 : d.digits = 0
  · rw [if_pos (Or.inl h0), if_pos (Or.inl (hzero.1 h0))]
  · simp only [h0, hzero.not.1 h0, Decimal.point_congr h0 h, h]

private theorem ofRank_inj {negative negative' : Bool} {r r' : Nat} (h : F.ofRank negative r = F.ofRank negative r') :
    F.ofRank negative' r = F.ofRank negative' r' := by
  unfold ofRank at h ⊢
  by_cases hr : r < F.ranks <;> by_cases hr' : r' < F.ranks <;> simp only [hr, hr', dite_true, dite_false] at h ⊢
  · simpa using (Binary.finite.inj h).2
  all_goals cases h

/-- A decimal is read as a rank, to which the sign is added. -/
private theorem exists_ofDecimal_eq (F : Format) (d : Decimal) :
    ∃ r, ∀ negative, F.ofDecimal negative d = F.ofRank negative r := by
  unfold ofDecimal
  split
  · exact ⟨0, fun _ => rfl⟩
  · split
    · exact ⟨F.ranks, fun _ => by simp [ofRank]⟩
    · exact ⟨_, fun _ => rfl⟩

private theorem ofDecimal_of_readsBack {rank : Nat} {d : Decimal} (h : F.readsBack rank d = true) (negative : Bool) :
    F.ofDecimal negative d = F.ofRank negative rank := by
  obtain ⟨r, hr⟩ := F.exists_ofDecimal_eq d
  have hback : F.ofRank false r = F.ofRank false rank := (hr false).symm.trans (of_decide_eq_true h)
  rw [hr]
  exact ofRank_inj hback

private theorem readsBack_of_mem_onGrid {tie : Tie} {rank : Nat} {exp : Int} {d : Decimal}
    (h : F.onGrid tie rank exp = some d) : F.readsBack rank d = true := by
  unfold onGrid at h
  simp only at h
  split at h
  · cases h
  -- Whichever of the two neighbours is taken, it was tried before.
  all_goals
    repeat' split at h
    all_goals
      cases h
      assumption

private theorem toRat_exactDecimal (F : Format) (rank : Nat) : (F.exactDecimal rank).toRat = F.magnitude rank := by
  rw [Decimal.toRat_eq, magnitude_eq]
  simp only [exactDecimal]
  by_cases hq : 0 ≤ F.exponent rank
  · obtain ⟨n, hn⟩ := Int.eq_ofNat_of_zero_le hq
    simp [hn]
  · rw [if_neg hq]
    obtain ⟨n, hn⟩ := Int.eq_ofNat_of_zero_le (show 0 ≤ -F.exponent rank by omega)
    have hneg : F.exponent rank = -n := by omega
    have hpow : (10 : ℚ) ^ n = 2 ^ n * 5 ^ n := by rw [← mul_pow]; norm_num
    simp only [hneg, neg_neg, Int.toNat_natCast, zpow_neg, zpow_natCast, Nat.cast_mul, Nat.pow_eq, Nat.cast_pow,
      Nat.cast_ofNat, hpow]
    field_simp

private theorem two_pow_lt_ten_pow {m n : Nat} (h : m < 3 * n) : (2 : ℚ) ^ m < 10 ^ n :=
  calc (2 : ℚ) ^ m < 2 ^ (3 * n) := pow_lt_pow_right₀ (by norm_num) h
    _ = 8 ^ n := by rw [pow_mul]; norm_num
    _ ≤ 10 ^ n := pow_le_pow_left₀ (by norm_num) (by norm_num) n

/-- A decimal that is not as far out as the farthest points is rounded. -/
private theorem ofDecimal_of_bounds (negative : Bool) {d : Decimal} (hlow : (10 : ℚ) ^ (-farPoint) ≤ d.toRat)
    (hhigh : d.toRat < 10 ^ farPoint) : F.ofDecimal negative d = F.nearestMagnitude negative d.toRat := by
  have hdigits : d.digits ≠ 0 := by
    intro h0
    rw [Decimal.toRat_eq_zero_iff.2 h0] at hlow
    exact absurd hlow (not_le.2 (by positivity))
  obtain ⟨hpoint, hpoint'⟩ := Decimal.point_spec hdigits
  have h₁ : d.point - 1 < farPoint := (zpow_lt_zpow_iff_right₀ (by norm_num)).1 (hpoint.trans_lt hhigh)
  have h₂ : -farPoint < d.point := (zpow_lt_zpow_iff_right₀ (by norm_num)).1 (hlow.trans_lt hpoint')
  unfold ofDecimal
  rw [if_neg (by omega), if_neg (by omega)]

private theorem magnitude_double {rank : Nat} (h : rank < double.ranks) (hpos : 0 < rank) :
    (2 : ℚ) ^ (-1074 : Int) ≤ double.magnitude rank ∧ double.magnitude rank < 2 ^ (1024 : Nat) := by
  have hm : (1 : ℚ) ≤ double.significand rank := by exact_mod_cast double.significand_pos hpos
  have hm' : (double.significand rank : ℚ) < 2 ^ (53 : Nat) := by exact_mod_cast double.significand_lt rank
  have hlowest : (-1074 : Int) ≤ double.exponent rank := double.lowest_le_exponent rank
  have hhighest : double.exponent rank ≤ 971 := double.exponent_le h
  rw [magnitude_eq]
  constructor
  · calc (2 : ℚ) ^ (-1074 : Int) ≤ 2 ^ double.exponent rank := zpow_le_zpow_right₀ (by norm_num) hlowest
      _ ≤ double.significand rank * 2 ^ double.exponent rank := le_mul_of_one_le_left (by positivity) hm
  · calc (double.significand rank : ℚ) * 2 ^ double.exponent rank
        < 2 ^ (53 : Nat) * 2 ^ double.exponent rank := by gcongr
      _ ≤ 2 ^ (53 : Nat) * 2 ^ (971 : Int) := by
          have := zpow_le_zpow_right₀ (show (1 : ℚ) ≤ 2 by norm_num) hhighest
          gcongr
      _ = 2 ^ (1024 : Nat) := by
          show (2 : ℚ) ^ (53 : Nat) * 2 ^ (971 : Nat) = _
          rw [← pow_add]

/-- A decimal between half and twice a magnitude is rounded. -/
theorem ofDecimal_of_magnitude (negative : Bool) {rank : Nat} (h : rank < double.ranks) (hpos : 0 < rank) {d : Decimal}
    (hlow : double.magnitude rank ≤ 2 * d.toRat) (hhigh : d.toRat ≤ 2 * double.magnitude rank) :
    double.ofDecimal negative d = double.nearestMagnitude negative d.toRat := by
  obtain ⟨hmag, hmag'⟩ := magnitude_double h hpos
  apply ofDecimal_of_bounds
  · have hpow : (10 : ℚ) ^ (-farPoint) ≤ 2 ^ (-1075 : Int) := by
      show (10 : ℚ) ^ (-(400 : Nat) : Int) ≤ 2 ^ (-(1075 : Nat) : Int)
      rw [zpow_neg, zpow_neg, zpow_natCast, zpow_natCast]
      exact inv_anti₀ (by positivity) (two_pow_lt_ten_pow (by norm_num)).le
    have hhalf : (2 : ℚ) ^ (-1074 : Int) = 2 * 2 ^ (-1075 : Int) := by
      rw [← zpow_one_add₀ two_ne_zero]
      norm_num
    linarith
  · calc d.toRat ≤ 2 * double.magnitude rank := hhigh
      _ < 2 * 2 ^ (1024 : Nat) := by gcongr
      _ = 2 ^ (1024 + 1) := (pow_succ' _ _).symm
      _ < 10 ^ farPoint := two_pow_lt_ten_pow (n := 400) (by norm_num)

private theorem readsBack_exactDecimal {rank : Nat} (h : rank < double.ranks) (hpos : 0 < rank) :
    double.readsBack rank (double.exactDecimal rank) = true := by
  have hval := double.toRat_exactDecimal rank
  have hmag := double.magnitude_pos hpos
  unfold readsBack
  rw [ofDecimal_of_magnitude false h hpos (by linarith) (by linarith), hval, nearestMagnitude_magnitude]
  exact decide_eq_true rfl

/-- The shortest decimal of a number reads back as the number. -/
theorem readsBack_shortest (tie : Tie) {rank : Nat} (h : rank < double.ranks) (hpos : 0 < rank) :
    double.readsBack rank (double.shortest tie rank) = true := by
  unfold shortest
  simp only
  cases hgrid : (List.range gridLimit).findSome? fun i =>
      double.onGrid tie rank (decimalPoint (double.magnitude rank) - (i + 1 : Nat)) with
  | none => exact readsBack_exactDecimal h hpos
  | some d =>
    obtain ⟨i, -, hi⟩ := List.exists_of_findSome?_eq_some hgrid
    exact readsBack_of_mem_onGrid hi

end Format

/-! ### Digits -/

theorem digitsValue_eq (ds : List Char) : digitsValue ds = Nat.ofDigitChars 10 ds 0 := rfl

theorem digitsValue_decimalDigits (n : Nat) : digitsValue (decimalDigits n) = n := Nat.ofDigitChars_ten_toDigits

theorem digitsValue_append_zeros (ds : List Char) (n : Nat) :
    digitsValue (ds ++ List.replicate n '0') = digitsValue ds * 10 ^ n := by
  rw [digitsValue_eq, Nat.ofDigitChars_append, Nat.ofDigitChars_replicate_zero, Nat.mul_comm, digitsValue_eq]

theorem digitsValue_zeros_append (n : Nat) (ds : List Char) :
    digitsValue (List.replicate n '0' ++ ds) = digitsValue ds := by
  rw [digitsValue_eq, Nat.ofDigitChars_append, Nat.ofDigitChars_replicate_zero, Nat.mul_zero, digitsValue_eq]

namespace Decimal

theorem exists_leadingDigits_append (d : Decimal) :
    ∃ n, decimalDigits d.digits = d.leadingDigits ++ List.replicate n '0' := by
  let zeros := (decimalDigits d.digits).reverse.takeWhile (· == '0')
  have hzeros : zeros = List.replicate zeros.length '0' :=
    List.eq_replicate_of_mem fun c hc => by simpa using List.all_eq_true.1 List.all_takeWhile c hc
  have hsplit := List.takeWhile_append_dropWhile (p := (· == '0')) (l := (decimalDigits d.digits).reverse)
  refine ⟨zeros.length, ?_⟩
  rw [← List.reverse_reverse (decimalDigits d.digits), ← hsplit, List.reverse_append, ← List.reverse_replicate,
    ← hzeros]
  rfl

theorem isDigit_of_mem_leadingDigits {d : Decimal} {c : Char} (h : c ∈ d.leadingDigits) : c.isDigit = true := by
  obtain ⟨n, hn⟩ := d.exists_leadingDigits_append
  exact Nat.isDigit_of_mem_toDigits (by decide) (by decide) (hn ▸ List.mem_append_left _ h)

/-- The leading digits, with the point where it stands, have the value of the decimal. -/
theorem toRat_eq_leadingDigits (d : Decimal) :
    d.toRat = digitsValue d.leadingDigits * (10 : ℚ) ^ (d.point - d.leadingDigits.length) := by
  obtain ⟨n, hn⟩ := d.exists_leadingDigits_append
  have hdigits : d.digits = digitsValue d.leadingDigits * 10 ^ n := by
    rw [← digitsValue_append_zeros, ← hn, digitsValue_decimalDigits]
  have hpoint : d.point - d.leadingDigits.length = n + d.exp := by
    rw [point, hn, List.length_append, List.length_replicate]
    push_cast
    ring
  rw [hpoint, zpow_add₀ (by norm_num), zpow_natCast, toRat_eq, ← mul_assoc]
  congr 1
  exact_mod_cast hdigits

theorem leadingDigits_ne_nil {d : Decimal} (h : d.digits ≠ 0) : d.leadingDigits ≠ [] := by
  intro hnil
  have hzero : d.toRat = 0 := by rw [toRat_eq_leadingDigits, hnil]; simp [digitsValue]
  exact h (toRat_eq_zero_iff.1 hzero)

end Decimal

/-! ### Literals of digits -/

namespace Literal

/-- The digits at the start of a text are read up to the first character that is no digit. -/
theorem span_digits {ds : List Char} (h : ∀ c ∈ ds, c.isDigit = true) (rest : List Char)
    (hrest : ∀ c ∈ rest.head?, c.isDigit = false) : (ds ++ rest).span Char.isDigit = (ds, rest) := by
  rw [List.span_eq_takeWhile_dropWhile, List.takeWhile_append_of_pos h, List.dropWhile_append_of_pos h]
  cases rest with
  | nil => simp
  | cons c rest => simp [hrest c rfl]

private theorem decimal?_whole {ds : List Char} (hne : ds ≠ []) (h : ∀ c ∈ ds, c.isDigit = true) :
    decimal? ds = some ⟨digitsValue ds, 0⟩ := by
  have hspan := span_digits h [] (by simp)
  rw [List.append_nil] at hspan
  have hempty : ds.isEmpty = false := List.isEmpty_eq_false_iff.2 hne
  simp only [decimal?, hspan, fraction, hempty, exponent?, Bool.false_and, Bool.false_eq_true, if_false,
    Option.map_some, List.append_nil, List.length_nil, Nat.cast_zero, sub_zero]

theorem decimal?_point {whole frac : List Char} (hne : whole ≠ []) (hw : ∀ c ∈ whole, c.isDigit = true)
    (hf : ∀ c ∈ frac, c.isDigit = true) :
    decimal? (whole ++ '.' :: frac) = some ⟨digitsValue (whole ++ frac), -frac.length⟩ := by
  have hwhole := span_digits hw ('.' :: frac) (by simp)
  have hfrac := span_digits hf [] (by simp)
  rw [List.append_nil] at hfrac
  have hempty : whole.isEmpty = false := List.isEmpty_eq_false_iff.2 hne
  simp only [decimal?, hwhole, fraction, hfrac, hempty, exponent?, Bool.false_and, Bool.false_eq_true, if_false,
    Option.map_some, zero_sub]

theorem toLower_of_isDigit {c : Char} (h : c.isDigit = true) : c.toLower = c := by
  have h57 : c.toNat ≤ 57 := (Char.isDigit_iff_toNat.1 h).2
  refine dif_neg fun hupper => ?_
  have h65 : 65 ≤ c.toNat := UInt32.le_iff_toNat_le.1 hupper.1
  omega

theorem sign_signed (negative : Bool) {c : Char} {body : List Char} (h : c.isDigit = true) :
    sign (signed negative (c :: body)) = (negative, c :: body) := by
  cases negative with
  | true => rfl
  | false =>
    show sign (c :: body) = _
    unfold sign
    split
    · rename_i heq
      cases heq
      simp at h
    · rename_i heq
      cases heq
      simp at h
    · rfl

end Literal

/-- A text that starts with a digit is no word. -/
private theorem Format.ofLiteral?_signed (F : Format) (negative : Bool) {c : Char} {body : List Char}
    (h : c.isDigit = true) :
    F.ofLiteral? (signed negative (c :: body)) = (Literal.decimal? (c :: body)).map (F.ofDecimal negative) := by
  have hi : c ≠ 'i' := by rintro rfl; simp at h
  have hn : c ≠ 'n' := by rintro rfl; simp at h
  simp [ofLiteral?, Literal.sign_signed negative h, Literal.infinityWords, Literal.nanWord,
    Literal.toLower_of_isDigit h, hi, hn]

/-! ### Plain layout -/

namespace Layout

private theorem mem_positional_plain {ds : List Char} {point : Int} {c : Char} (h : c ∈ plain.positional ds point) :
    c ∈ ds ∨ c = '0' ∨ c = '.' := by
  unfold positional at h
  split at h
  · simp only [List.mem_cons, List.mem_append, List.mem_replicate] at h
    tauto
  · split at h
    · simp only [plain, Bool.false_eq_true, if_false, List.append_nil, List.mem_append, List.mem_replicate] at h
      tauto
    · rw [List.mem_append, List.mem_cons] at h
      rcases h with h | rfl | h
      · exact Or.inl (List.mem_of_mem_take h)
      · exact Or.inr (Or.inr rfl)
      · exact Or.inl (List.mem_of_mem_drop h)

private theorem head_positional_plain {ds : List Char} (h : ∀ c ∈ ds, c.isDigit = true) (hne : ds ≠ []) (point : Int) :
    ∃ c rest, plain.positional ds point = c :: rest ∧ c.isDigit = true := by
  obtain ⟨d, ds, rfl⟩ := List.exists_cons_of_ne_nil hne
  unfold positional
  split
  · exact ⟨'0', _, rfl, by decide⟩
  · split
    · exact ⟨d, _, rfl, h d (by simp)⟩
    · rename_i hpos _
      obtain ⟨n, hn⟩ : ∃ n, point.toNat = n + 1 := ⟨point.toNat - 1, by omega⟩
      rw [hn]
      exact ⟨d, _, rfl, h d (by simp)⟩

/-- A plain layout reads as a decimal whose value is that of the digits, with the point where it stands. -/
private theorem decimal?_positional_plain {ds : List Char} (h : ∀ c ∈ ds, c.isDigit = true) (hne : ds ≠ [])
    (point : Int) :
    ∃ d, Literal.decimal? (plain.positional ds point) = some d ∧
      d.toRat = digitsValue ds * (10 : ℚ) ^ (point - ds.length) := by
  have hzeros : ∀ n, ∀ c ∈ List.replicate n '0', c.isDigit = true := fun n c hc => by
    rw [List.eq_of_mem_replicate hc]
    decide
  unfold positional
  split
  · -- The point stands before all digits, and the zeros between are read as digits of the fraction.
    rename_i hpoint
    obtain ⟨n, hn⟩ := Int.eq_ofNat_of_zero_le (show 0 ≤ -point by omega)
    have hfrac : ∀ c ∈ List.replicate n '0' ++ ds, c.isDigit = true := fun c hc =>
      (List.mem_append.1 hc).elim (hzeros n c) (h c)
    have hwhole : ∀ c ∈ ['0'], c.isDigit = true := by simp
    rw [hn]
    refine ⟨_, Literal.decimal?_point (List.cons_ne_nil '0' []) hwhole hfrac, ?_⟩
    rw [Decimal.toRat_eq]
    show (digitsValue (List.replicate (n + 1) '0' ++ ds) : ℚ) * 10 ^ (-(List.replicate n '0' ++ ds).length : Int) = _
    rw [digitsValue_zeros_append, List.length_append, List.length_replicate]
    congr 2
    omega
  · rename_i hpoint
    split
    · -- The point stands behind all digits, and the zeros between make the number larger.
      rename_i hlen
      refine ⟨_, Literal.decimal?_whole (by simpa [plain] using fun h => absurd h hne) ?_, ?_⟩
      · simp only [plain, Bool.false_eq_true, if_false, List.append_nil]
        exact fun c hc => (List.mem_append.1 hc).elim (h c) (hzeros _ c)
      · simp only [Decimal.toRat_eq, plain, Bool.false_eq_true, if_false, List.append_nil, digitsValue_append_zeros,
          zpow_zero, mul_one]
        have hexp : point - ds.length = (point.toNat - ds.length : Nat) := by omega
        rw [hexp, zpow_natCast]
        push_cast
        rfl
    · rename_i hlen
      have htake : ds.take point.toNat ≠ [] := by
        rw [Ne, List.take_eq_nil_iff, not_or]
        exact ⟨by omega, hne⟩
      refine ⟨_, Literal.decimal?_point htake (fun c hc => h c (List.mem_of_mem_take hc))
        (fun c hc => h c (List.mem_of_mem_drop hc)), ?_⟩
      rw [Decimal.toRat_eq, List.take_append_drop, List.length_drop]
      have hexp : -((ds.length - point.toNat : Nat) : Int) = point - ds.length := by omega
      rw [hexp]

end Layout

theorem Format.digits_ne_zero_of_readsBack {F : Format} {rank : Nat} {d : Decimal} (hpos : 0 < rank)
    (hlt : rank < F.ranks) (h : F.readsBack rank d = true) : d.digits ≠ 0 := by
  intro hzero
  have hback : F.ofDecimal false d = F.ofRank false rank := of_decide_eq_true h
  rw [ofDecimal, if_pos (Or.inl hzero)] at hback
  simp only [Binary.zero, ofRank, hlt, hpos.trans hlt, dite_true, Binary.finite.injEq] at hback
  omega

/-- The plain text of a finite number reads back as the number, its sign included. -/
theorem Format.ofLiteral?_plain {x : Double} (h : x.isFinite = true) :
    double.ofLiteral? (Layout.plain.chars x) = some x := by
  obtain _ | _ | ⟨negative, rank, hlt⟩ := x
  · cases h
  · cases h
  rcases Nat.eq_zero_or_pos rank with rfl | hpos
  · cases negative <;> rfl
  have hback := readsBack_shortest Layout.plain.tie hlt hpos
  have hdigits := digits_ne_zero_of_readsBack hpos hlt hback
  set d := double.shortest Layout.plain.tie rank with hd
  have hlead : ∀ c ∈ d.leadingDigits, c.isDigit = true := fun c => Decimal.isDigit_of_mem_leadingDigits
  have htext : Layout.plain.chars (.finite negative rank hlt : Double) =
      signed negative (Layout.plain.positional d.leadingDigits d.point) := by
    simp only [Layout.chars, Layout.magnitude, hpos.ne', if_false, ← hd]
    rfl
  obtain ⟨c, rest, hhead, hc⟩ := Layout.head_positional_plain hlead (Decimal.leadingDigits_ne_nil hdigits) d.point
  obtain ⟨d', hread, hval⟩ := Layout.decimal?_positional_plain hlead (Decimal.leadingDigits_ne_nil hdigits) d.point
  rw [htext, hhead, ofLiteral?_signed double negative hc, ← hhead, hread, Option.map_some,
    ofDecimal_congr negative (hval.trans d.toRat_eq_leadingDigits.symm), ofDecimal_of_readsBack hback]
  simp [ofRank, hlt]

private theorem Layout.exists_magnitude_plain_eq (F : Format) (rank : Nat) :
    ∃ ds point, plain.magnitude F rank = plain.positional ds point ∧ ∀ c ∈ ds, c.isDigit = true := by
  by_cases hrank : rank = 0
  · exact ⟨['0'], 1, if_pos hrank, by simp⟩
  · exact ⟨_, _, if_neg hrank, fun c => Decimal.isDigit_of_mem_leadingDigits⟩

theorem Layout.mem_chars_plain {x : Double} (h : x.isFinite = true) {c : Char} (hc : c ∈ plain.chars x) :
    c.isDigit = true ∨ c = '.' ∨ c = '-' := by
  obtain _ | _ | ⟨negative, rank, hlt⟩ := x
  · cases h
  · cases h
  obtain ⟨ds, point, hmagnitude, hds⟩ := exists_magnitude_plain_eq .double rank
  have hbody : c = '-' ∨ c ∈ plain.positional ds point := by
    rw [← hmagnitude]
    cases negative with
    | true => exact List.mem_cons.1 hc
    | false => exact Or.inr hc
  rcases hbody with rfl | hbody
  · exact Or.inr (Or.inr rfl)
  · rcases mem_positional_plain hbody with hc | rfl | rfl
    · exact Or.inl (hds c hc)
    · exact Or.inl (by decide)
    · exact Or.inr (Or.inl rfl)

end CameraPanel
