import CameraPanel.Proofs.PlainText
import CameraPanel.Proofs.Rounding

/-!
# The number of digits of the shortest decimal

On the grid of seventeen digits the decimal nearest to a magnitude is off by half of a part in `10 ^ 16` at most, which
is less than half the distance to the next magnitude.  So this decimal reads back, the search for the shortest one never
goes past the last grid, and its digits are at most `10 ^ 17` (`digits_shortest_le`).
-/

namespace CameraPanel

private theorem floor_toNat_spec {x : ℚ} (hx : 0 ≤ x) : (x.floor.toNat : ℚ) ≤ x ∧ x < (x.floor.toNat + 1 : Nat) := by
  obtain ⟨n, hn⟩ := Int.eq_ofNat_of_zero_le (Rat.le_floor_iff.2 (by simpa using hx : ((0 : Int) : ℚ) ≤ x))
  have hle := Rat.floor_le x
  have hlt := Rat.lt_floor_add_one x
  rw [hn] at hle hlt ⊢
  rw [Int.toNat_natCast]
  exact ⟨by exact_mod_cast hle, by exact_mod_cast hlt⟩

private theorem ceil_toNat_spec {x : ℚ} (hx : 0 < x) :
    ((x.ceil.toNat - 1 : Nat) : ℚ) < x ∧ x ≤ (x.ceil.toNat - 1 + 1 : Nat) := by
  have hpos : 0 < x.ceil := Rat.lt_ceil_iff.2 (by simpa using hx)
  obtain ⟨n, hn⟩ : ∃ n : Nat, x.ceil = (n + 1 : Nat) := ⟨x.ceil.toNat - 1, by omega⟩
  have hle := @Rat.le_ceil x
  have hlt := @Rat.ceil_lt x
  rw [hn] at hle hlt ⊢
  rw [Int.toNat_natCast, Nat.add_sub_cancel]
  push_cast at hle hlt ⊢
  constructor <;> linarith

/-- The digits of a number stand for the powers of ten around it. -/
private theorem length_decimalDigits_spec {n : Nat} (hn : 0 < n) :
    (10 : ℚ) ^ ((decimalDigits n).length - 1 : Int) ≤ n ∧
      ((n + 1 : Nat) : ℚ) ≤ 10 ^ ((decimalDigits n).length : Int) := by
  obtain ⟨hlow, hhigh⟩ := Decimal.point_spec (d := ⟨n, 0⟩) hn.ne'
  simp only [Decimal.point, Decimal.toRat_eq, zpow_zero, mul_one, zero_add, zpow_natCast] at hlow hhigh
  refine ⟨hlow, ?_⟩
  rw [zpow_natCast]
  exact_mod_cast hhigh

/-- The point of a positive rational stands at the first power of ten above it. -/
private theorem decimalPoint_spec {x : ℚ} (hx : 0 < x) :
    (10 : ℚ) ^ (decimalPoint x - 1) ≤ x ∧ x < 10 ^ decimalPoint x := by
  unfold decimalPoint
  by_cases h1 : 1 ≤ x
  · rw [if_pos h1]
    obtain ⟨hle, hlt⟩ := floor_toNat_spec hx.le
    generalize x.floor.toNat = n at hle hlt ⊢
    have hpos : 0 < n := by
      have hone : (1 : ℚ) < (n + 1 : Nat) := h1.trans_lt hlt
      exact Nat.lt_of_succ_lt_succ (by exact_mod_cast hone)
    obtain ⟨hlow, hhigh⟩ := length_decimalDigits_spec hpos
    exact ⟨hlow.trans hle, hlt.trans_le hhigh⟩
  · rw [if_neg h1]
    have hinv : 1 < 1 / x := (one_lt_div hx).2 (not_le.1 h1)
    obtain ⟨hlt, hle⟩ := ceil_toNat_spec (zero_lt_one.trans hinv)
    generalize (1 / x).ceil.toNat - 1 = n at hlt hle ⊢
    have hpos : 0 < n := by
      have hone : (1 : ℚ) < (n + 1 : Nat) := hinv.trans_le hle
      exact Nat.lt_of_succ_lt_succ (by exact_mod_cast hone)
    obtain ⟨hlow, hhigh⟩ := length_decimalDigits_spec hpos
    rw [show (1 - (decimalDigits n).length - 1 : Int) = -(decimalDigits n).length by omega,
      show (1 - (decimalDigits n).length : Int) = -((decimalDigits n).length - 1) by omega, zpow_neg, zpow_neg,
      inv_le_comm₀ (by positivity) hx, lt_inv_comm₀ hx (by positivity), ← one_div]
    exact ⟨hle.trans hhigh, hlow.trans_lt hlt⟩

/-! ### Digits -/

theorem digitsValue_lt {ds : List Char} (h : ∀ c ∈ ds, c.isDigit = true) : digitsValue ds < 10 ^ ds.length := by
  have hfold : ∀ (ds : List Char) (n : Nat), (∀ c ∈ ds, c.isDigit = true) →
      Nat.ofDigitChars 10 ds n < (n + 1) * 10 ^ ds.length := by
    intro ds
    induction ds with
    | nil => simp
    | cons d ds ih =>
      intro n h
      obtain ⟨hd, hds⟩ := List.forall_mem_cons.1 h
      have hdigit : d.toNat - '0'.toNat ≤ 9 := by
        have h57 : d.toNat ≤ 57 := (Char.isDigit_iff_toNat.1 hd).2
        exact Nat.sub_le_of_le_add h57
      have hpow : 0 < 10 ^ ds.length := by positivity
      rw [Nat.ofDigitChars_cons, List.length_cons, pow_succ]
      refine (ih _ hds).trans_le ?_
      nlinarith
  simpa [digitsValue_eq] using hfold ds 0 h

/-- The first digit of a decimal is not zero. -/
theorem Decimal.head_leadingDigits {d : Decimal} (h : d.digits ≠ 0) : d.leadingDigits.head? ≠ some '0' := by
  intro hhead
  obtain ⟨n, hn⟩ := d.exists_leadingDigits_append
  obtain ⟨ds, hds⟩ := List.head?_eq_some_iff.1 hhead
  rw [hds, List.cons_append] at hn
  have hdigit : ∀ c ∈ decimalDigits d.digits, c.isDigit = true :=
    fun c hc => Nat.isDigit_of_mem_toDigits (by decide) (by decide) hc
  rw [hn] at hdigit
  have hlt := digitsValue_lt (List.forall_mem_cons.1 hdigit).2
  have hval : d.digits = digitsValue (ds ++ List.replicate n '0') := by
    rw [← digitsValue_decimalDigits d.digits, hn]
    exact digitsValue_zeros_append 1 _
  generalize ds ++ List.replicate n '0' = rest at hn hlt hval
  rw [← hval] at hlt
  -- A number below a power of ten does not have more digits than that.
  rcases Nat.eq_zero_or_pos rest.length with h0 | hpos
  · rw [h0] at hlt
    exact h (Nat.lt_one_iff.1 hlt)
  · have hlen : (decimalDigits d.digits).length ≤ rest.length := (Nat.length_toDigits_le_iff (by decide) hpos).2 hlt
    rw [hn, List.length_cons] at hlen
    omega

namespace Format

variable {F : Format}

/-! ### One grid -/

/-- The decimal found on a grid is the greatest one that is not above the magnitude, or the next one. -/
private theorem digits_of_mem_onGrid {tie : Tie} {rank : Nat} {exp : Int} {d : Decimal}
    (h : F.onGrid tie rank exp = some d) :
    d.exp = exp ∧ d.digits ≤ (F.magnitude rank / Decimal.toRat ⟨1, exp⟩).floor.toNat + 1 := by
  unfold onGrid at h
  simp only at h
  split at h
  · cases h
  all_goals
    repeat' split at h
    all_goals
      cases h
      simp

private theorem onGrid_ne_none {tie : Tie} {rank : Nat} {exp : Int}
    (h : F.readsBack rank ⟨(F.magnitude rank / Decimal.toRat ⟨1, exp⟩).floor.toNat, exp⟩ = true ∨
      F.readsBack rank ⟨(F.magnitude rank / Decimal.toRat ⟨1, exp⟩).floor.toNat + 1, exp⟩ = true) :
    F.onGrid tie rank exp ≠ none := by
  unfold onGrid
  simp only
  split
  · simp_all
  all_goals
    repeat' split
    all_goals simp

/-- What reads back as a positive rank is not far out and is rounded to it. -/
theorem rankOf_of_readsBack {rank : Nat} {d : Decimal} (hpos : 0 < rank) (hlt : rank < F.ranks)
    (h : F.readsBack rank d = true) : -farPoint ≤ d.point ∧ d.point ≤ farPoint ∧ F.rankOf d.toRat = rank := by
  have hback : F.ofDecimal false d = F.ofRank false rank := of_decide_eq_true h
  have hdigits := digits_ne_zero_of_readsBack hpos hlt h
  have hrank : F.ofRank false rank = .finite false rank hlt := by simp [ofRank, hlt]
  have hzero : F.ofRank false 0 = .finite false 0 (hpos.trans hlt) := by simp [ofRank, hpos.trans hlt]
  rw [hrank, ofDecimal] at hback
  by_cases hnear : d.point < -farPoint
  · rw [if_pos (Or.inr hnear), Binary.zero, hzero] at hback
    simp only [Binary.finite.injEq] at hback
    omega
  · rw [if_neg (by omega)] at hback
    by_cases hfar : farPoint < d.point
    · rw [if_pos hfar] at hback
      cases hback
    · rw [if_neg hfar, nearestMagnitude_eq, ofRank] at hback
      refine ⟨by omega, by omega, ?_⟩
      split at hback
      · simpa using hback
      · cases hback

/-! ### The last grid -/

private theorem readsBack_of_near {rank : Nat} (h : rank < double.ranks) (hpos : 0 < rank) {d : Decimal}
    (hd : 10 ^ 16 * (2 * |d.toRat - double.magnitude rank|) ≤ double.magnitude rank) :
    double.readsBack rank d = true := by
  have hmag := double.magnitude_pos hpos
  obtain ⟨hlow, hhigh⟩ := abs_le.1 (le_refl |d.toRat - double.magnitude rank|)
  have hrank : double.rankOf d.toRat = rank := by
    apply rankOf_eq_of_near
    · linarith
    · show (2 : ℚ) ^ 53 * _ < _
      linarith [abs_nonneg (d.toRat - double.magnitude rank)]
  unfold readsBack
  rw [ofDecimal_of_magnitude false h hpos (by linarith) (by linarith), nearestMagnitude_eq, hrank]
  exact decide_eq_true rfl

/-- One of the two neighbours on the last grid reads back. -/
private theorem onGrid_last_ne_none (tie : Tie) {rank : Nat} (h : rank < double.ranks) (hpos : 0 < rank) :
    double.onGrid tie rank (decimalPoint (double.magnitude rank) - 17) ≠ none := by
  have hmag := double.magnitude_pos hpos
  obtain ⟨hlow, -⟩ := decimalPoint_spec hmag
  apply onGrid_ne_none
  generalize hexp : decimalPoint (double.magnitude rank) - 17 = exp
  have hstep : (0 : ℚ) < 10 ^ exp := by positivity
  have hstep' : 10 ^ 16 * (10 : ℚ) ^ exp ≤ double.magnitude rank := by
    refine le_trans (le_of_eq ?_) hlow
    rw [← zpow_natCast, ← zpow_add₀ (by norm_num)]
    congr 1
    omega
  have hunit : Decimal.toRat ⟨1, exp⟩ = 10 ^ exp := by simp [Decimal.toRat_eq]
  rw [hunit]
  obtain ⟨hle, hlt⟩ := floor_toNat_spec (div_pos hmag hstep).le
  generalize (double.magnitude rank / 10 ^ exp).floor.toNat = n at hle hlt ⊢
  rw [le_div_iff₀ hstep] at hle
  rw [div_lt_iff₀ hstep] at hlt
  push_cast at hlt
  -- The nearer of the two is off by half a step at most.
  rcases le_total (2 * (double.magnitude rank - n * 10 ^ exp)) (10 ^ exp) with hhalf | hhalf
  · left
    apply readsBack_of_near h hpos
    rw [Decimal.toRat_eq, abs_sub_comm, abs_of_nonneg (by linarith)]
    linarith
  · right
    apply readsBack_of_near h hpos
    rw [Decimal.toRat_eq]
    push_cast
    rw [abs_of_nonneg (by linarith)]
    linarith

/-- The shortest decimal has seventeen digits at most, or is a power of ten. -/
theorem digits_shortest_le (tie : Tie) {rank : Nat} (h : rank < double.ranks) (hpos : 0 < rank) :
    (double.shortest tie rank).digits ≤ 10 ^ 17 := by
  unfold shortest
  simp only
  cases hgrid : (List.range gridLimit).findSome? fun i =>
      double.onGrid tie rank (decimalPoint (double.magnitude rank) - (i + 1 : Nat)) with
  | none =>
    have hlast := List.findSome?_eq_none_iff.1 hgrid 16 (by decide)
    exact absurd hlast (onGrid_last_ne_none tie h hpos)
  | some d =>
    obtain ⟨i, hi, hd⟩ := List.exists_of_findSome?_eq_some hgrid
    obtain ⟨-, hdigits⟩ := digits_of_mem_onGrid hd
    obtain ⟨-, hhigh⟩ := decimalPoint_spec (double.magnitude_pos hpos)
    have hi' : i < 17 := List.mem_range.1 hi
    have hunit : Decimal.toRat ⟨1, decimalPoint (double.magnitude rank) - (i + 1 : Nat)⟩ =
        10 ^ (decimalPoint (double.magnitude rank) - (i + 1 : Nat)) := by simp [Decimal.toRat_eq]
    rw [hunit] at hdigits
    have hlt : double.magnitude rank / 10 ^ (decimalPoint (double.magnitude rank) - (i + 1 : Nat)) <
        ((10 ^ (i + 1) : Nat) : Int) := by
      rw [div_lt_iff₀ (by positivity), Int.cast_natCast, Nat.cast_pow, Nat.cast_ofNat, ← zpow_natCast,
        ← zpow_add₀ (by norm_num)]
      refine hhigh.trans_le (le_of_eq ?_)
      congr 1
      omega
    have hfloor := Rat.floor_lt_iff.2 hlt
    have hpow : 0 < 10 ^ (i + 1) := by positivity
    calc d.digits ≤ _ + 1 := hdigits
      _ ≤ 10 ^ (i + 1) := by omega
      _ ≤ 10 ^ 17 := Nat.pow_le_pow_right (by norm_num) hi'

end Format

end CameraPanel
