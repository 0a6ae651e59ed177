import CameraPanel.Proofs.Quiet
import CameraPanel.Proofs.ReplyNumbers
import Mathlib.Data.Rat.Floor

/-!
# The error of one rounding

A rational is rounded to a magnitude that is off by at most half a step, which is small in proportion or half of the
smallest step (`abs_sub_magnitude_rankOf_le`).  It stays in range exactly if it is below the middle between the last
magnitude and the one that would come next (`rankOf_lt_ranks_iff`).  Sums and products of finite numbers are the exact
ones with one such error (`Binary.Rounds`), and integers of at most 53 bits have none.
-/

namespace CameraPanel

namespace Format

variable (F : Format)

private theorem abs_sub_magnitude_rankOf_le {x : ℚ} (hx : 0 ≤ x) :
    |x - F.magnitude (F.rankOf x)| ≤ x / 2 ^ (F.fractionBits + 1) + 2 ^ (F.lowest - 1) := by
  rcases hx.eq_or_lt with rfl | hx
  · rw [rankOf_zero, magnitude_zero]
    simp
    positivity
  · obtain ⟨m, q, hrank, hnear, hsize⟩ := F.rankOf_spec hx
    have hstep : (0 : ℚ) < 2 ^ q := by positivity
    have hround : |x - (round (x / 2 ^ q)).toNat * (2 : ℚ) ^ q| ≤ 2 ^ q / 2 := by
      have hnonneg : 0 ≤ round (x / 2 ^ q) := by
        rw [round_eq]
        positivity
      have hcast : (((round (x / 2 ^ q)).toNat : Nat) : ℚ) = round (x / 2 ^ q) := by
        exact_mod_cast Int.toNat_of_nonneg hnonneg
      have hhalf := abs_sub_round (x / 2 ^ q)
      have hscale : x - round (x / 2 ^ q) * (2 : ℚ) ^ q = (x / 2 ^ q - round (x / 2 ^ q)) * 2 ^ q := by
        rw [sub_mul, div_mul_cancel₀ _ hstep.ne']
      rw [hcast, hscale, abs_mul, abs_of_pos hstep]
      calc |x / 2 ^ q - round (x / 2 ^ q)| * 2 ^ q ≤ 1 / 2 * 2 ^ q := by gcongr
        _ = 2 ^ q / 2 := by ring
    rw [hrank]
    refine ((hnear _).trans hround).trans ?_
    rcases hsize with rfl | ⟨-, hlow⟩
    · have hlowest : (2 : ℚ) ^ (F.lowest - 1) = 2 ^ F.lowest / 2 := by rw [zpow_sub_one₀ two_ne_zero, div_eq_mul_inv]
      have hx' : 0 ≤ x / 2 ^ (F.fractionBits + 1) := by positivity
      linarith
    · have hx' : (2 : ℚ) ^ q / 2 ≤ x / 2 ^ (F.fractionBits + 1) := by
        rw [div_le_div_iff₀ two_pos (by positivity), pow_succ]
        linarith
      have hlowest : (0 : ℚ) < 2 ^ (F.lowest - 1) := by positivity
      linarith

/-- What comes from here on is rounded to no rank: the middle between the last magnitude and the next one, which the
last rank loses because it is odd. -/
def overflow : Nat := 2 ^ 1024 - 2 ^ 970

theorem rankOf_lt_ranks_iff {x : ℚ} (hx : 0 ≤ x) : double.rankOf x < double.ranks ↔ x < overflow := by
  have hmiddle : 2 * ((overflow : Nat) : ℚ) = double.magnitude (double.ranks - 1) + double.magnitude double.ranks := by
    decide +kernel
  constructor
  · intro h
    by_contra hle
    have hmono := double.rankOf_mono (Nat.cast_nonneg overflow) (not_lt.1 hle)
    have hrank : double.rankOf (overflow : Nat) = double.ranks := by decide +kernel
    omega
  · intro h
    by_contra hle
    -- The last magnitude is nearer than the one of the rank.
    have hnear := double.abs_sub_rankOf_le hx (double.ranks - 1)
    have hlast := double.magnitude_strictMono (show double.ranks - 1 < double.ranks by decide)
    have hnext := double.magnitude_strictMono.monotone (not_lt.1 hle)
    have hfar := neg_le_abs (x - double.magnitude (double.rankOf x))
    rcases abs_cases (x - double.magnitude (double.ranks - 1)) with ⟨habs, -⟩ | ⟨habs, -⟩ <;> linarith

end Format

namespace Binary

open Format

/-! ### Finite numbers -/

private theorem toRat_finite {F : Format} (negative : Bool) {rank : Nat} (h : rank < F.ranks) :
    (finite negative rank h).toRat = if negative = true then -F.magnitude rank else F.magnitude rank := by
  cases negative <;> rfl

theorem abs_toRat_finite {F : Format} (negative : Bool) {rank : Nat} (h : rank < F.ranks) :
    |(finite negative rank h).toRat| = F.magnitude rank := by
  rw [toRat_finite]
  split
  · rw [abs_neg, abs_of_nonneg (F.magnitude_nonneg rank)]
  · exact abs_of_nonneg (F.magnitude_nonneg rank)

private theorem toRat_of_isZero {F : Format} {x : Binary F} (h : x.isZero = true) : x.toRat = 0 := by
  obtain _ | _ | ⟨negative, rank, hlt⟩ := x
  · cases h
  · cases h
  obtain rfl : rank = 0 := of_decide_eq_true h
  rw [toRat_finite, magnitude_zero, neg_zero, ite_self]

/-- The sign of a number that is not zero. -/
theorem isNegative_eq {F : Format} {x : Binary F} (h : x.toRat ≠ 0) : x.isNegative = decide (x.toRat < 0) := by
  obtain _ | _ | ⟨negative, rank, hlt⟩ := x
  · exact absurd rfl h
  · exact absurd rfl h
  have hnonneg := F.magnitude_nonneg rank
  cases negative with
  | true => exact (decide_eq_true (neg_neg_of_pos (hnonneg.lt_of_ne fun h0 => h (by simp [toRat, ← h0])))).symm
  | false => exact (decide_eq_false (not_lt.2 hnonneg)).symm

theorem isFinite_nearestMagnitude {negative : Bool} {q : ℚ} :
    (double.nearestMagnitude negative q).isFinite = true ↔ |q| < overflow := by
  rw [nearestMagnitude_eq, isFinite_ofRank_iff, ← rankOf_abs, rankOf_lt_ranks_iff (abs_nonneg q)]

private theorem toRat_of_same {F : Format} {x y : Binary F} (h : x.same y = true) : x.toRat = y.toRat := by
  rcases same_iff.1 h with rfl | ⟨hx, hy⟩
  · rfl
  · rw [toRat_of_isZero hx, toRat_of_isZero hy]

/-! ### One rounding -/

/-- How far off one rounding of a rational may be; the second part is more than half of the smallest step. -/
def slack (q : ℚ) : ℚ := |q| / 2 ^ 53 + 1 / 2 ^ 100

/-- A finite number that a rational may be rounded to. -/
structure Rounds (x : Double) (q : ℚ) : Prop where
  finite : x.isFinite = true
  error : |x.toRat - q| ≤ slack q

private theorem rounds_nearestMagnitude {negative : Bool} {q : ℚ} (hq : |q| < overflow)
    (hsign : q ≠ 0 → negative = decide (q < 0)) : (double.nearestMagnitude negative q).Rounds q := by
  have hlt : double.rankOf q < double.ranks := by
    rw [← rankOf_abs]
    exact (rankOf_lt_ranks_iff (abs_nonneg q)).2 hq
  refine ⟨isFinite_nearestMagnitude.2 hq, ?_⟩
  have herror : |(|q| - double.magnitude (double.rankOf q))| ≤ slack q := by
    have hle := double.abs_sub_magnitude_rankOf_le (abs_nonneg q)
    have htiny : (2 : ℚ) ^ (double.lowest - 1) ≤ 1 / 2 ^ 100 := by
      rw [one_div, ← zpow_natCast, ← zpow_neg]
      exact zpow_le_zpow_right₀ (by norm_num) (by decide)
    rw [rankOf_abs] at hle
    exact hle.trans (by simpa [slack, double] using htiny)
  rw [nearestMagnitude_eq, ofRank_of_lt _ _ hlt, toRat_finite]
  rcases lt_trichotomy q 0 with hneg | rfl | hpos
  · rw [abs_of_neg hneg] at herror
    rw [hsign hneg.ne, if_pos (decide_eq_true hneg), neg_sub_comm]
    exact herror
  · rw [rankOf_zero, magnitude_zero]
    simp [slack]
  · rw [abs_of_pos hpos] at herror
    rw [hsign hpos.ne', if_neg (by simpa using hpos.le), abs_sub_comm]
    exact herror

theorem rounds_nearest {q : ℚ} (hq : |q| < overflow) : (double.nearest q).Rounds q :=
  rounds_nearestMagnitude hq fun _ => rfl

variable {x y : Double}

theorem Rounds.of_same {q : ℚ} (hy : y.Rounds q) (h : x.same y = true) : x.Rounds q := by
  refine ⟨(isFinite_of_same h).trans hy.finite, ?_⟩
  rw [toRat_of_same h]
  exact hy.error

theorem rounds_add (hx : x.isFinite = true) (hy : y.isFinite = true) (h : |x.toRat + y.toRat| < overflow) :
    (x + y).Rounds (x.toRat + y.toRat) := by
  obtain _ | _ | ⟨a, r, hr⟩ := x
  · cases hx
  · cases hx
  obtain _ | _ | ⟨b, s, hs⟩ := y
  · cases hy
  · cases hy
  show (if (finite a r hr).toRat + (finite b s hs).toRat = 0 then zero (a && b) else _).Rounds _
  split
  · rename_i hzero
    have hzero' : (zero (a && b) : Double) = .finite (a && b) 0 (by decide) := rfl
    rw [hzero, hzero']
    refine ⟨rfl, ?_⟩
    rw [toRat_finite, magnitude_zero]
    simp [slack]
  · exact rounds_nearest h

theorem rounds_mul (hx : x.isFinite = true) (hy : y.isFinite = true) (h : |x.toRat * y.toRat| < overflow) :
    (x * y).Rounds (x.toRat * y.toRat) := by
  have hsign : x.toRat * y.toRat ≠ 0 → (x.isNegative != y.isNegative) = decide (x.toRat * y.toRat < 0) := by
    intro hne
    obtain ⟨hx0, hy0⟩ := mul_ne_zero_iff.1 hne
    rw [isNegative_eq hx0, isNegative_eq hy0]
    rcases lt_or_gt_of_ne hx0 with hx' | hx' <;> rcases lt_or_gt_of_ne hy0 with hy' | hy'
    · simp [hx', hy', not_lt.2 (mul_pos_of_neg_of_neg hx' hy').le]
    · simp [hx', not_lt.2 hy'.le, mul_neg_of_neg_of_pos hx' hy']
    · simp [not_lt.2 hx'.le, hy', mul_neg_of_pos_of_neg hx' hy']
    · simp [not_lt.2 hx'.le, not_lt.2 hy'.le, not_lt.2 (mul_pos hx' hy').le]
  obtain _ | _ | ⟨a, r, hr⟩ := x
  · cases hx
  · cases hx
  obtain _ | _ | ⟨b, s, hs⟩ := y
  · cases hy
  · cases hy
  exact rounds_nearestMagnitude h hsign

/-- An integer of at most 53 bits is not rounded. -/
theorem magnitude_rankOf_intCast {n : Int} (h : n.natAbs ≤ 2 ^ 53) : double.magnitude (double.rankOf n) = |(n : ℚ)| := by
  rw [rankOf_intCast, Json.Numeral.magnitude_rankOf_word h, Nat.cast_natAbs, Int.cast_abs]

theorem rankOf_intCast_lt {n : Int} (h : n.natAbs ≤ 2 ^ 53) : double.rankOf n < double.ranks := by
  rw [rankOf_intCast]
  exact Json.Numeral.rankOf_word_lt (h.trans_lt (by norm_num))

theorem toRat_ofInt {n : Int} (h : n.natAbs ≤ 2 ^ 53) :
    (ofInt n : Double).isFinite = true ∧ (ofInt n : Double).toRat = n := by
  have hofInt : (ofInt n : Double) = .finite (decide ((n : ℚ) < 0)) _ (rankOf_intCast_lt h) := by
    rw [ofInt, nearest, nearestMagnitude_eq, ofRank_of_lt]
  rw [hofInt, toRat_finite, magnitude_rankOf_intCast h]
  refine ⟨rfl, ?_⟩
  split
  · rename_i hneg
    rw [abs_of_neg (of_decide_eq_true hneg), neg_neg]
  · rename_i hpos
    rw [abs_of_nonneg (by simpa using hpos)]

theorem finite_div_of_pos {F : Format} (a b : Bool) {r s : Nat} (hr : r < F.ranks) (hs : s < F.ranks) (hpos : 0 < s) :
    (finite a r hr / finite b s hs : Binary F) =
      F.nearestMagnitude (a != b) ((finite a r hr).toRat / (finite b s hs).toRat) := by
  show (if decide (s = 0) = true then _ else _) = _
  rw [decide_eq_false hpos.ne']
  rfl

/-- A number that is nearer than one half to an integer is rounded to it; the sign is that of the number. -/
theorem roundWhole_of_near {x : Double} (hx : x.isFinite = true) {n : Int} (hn : n.natAbs ≤ 2 ^ 53)
    (h : |x.toRat - n| < 1 / 2) :
    x.roundWhole = .finite x.isNegative (double.rankOf n) (rankOf_intCast_lt hn) := by
  obtain _ | _ | ⟨negative, rank, hrank⟩ := x
  · cases hx
  · cases hx
  have hnear : |double.magnitude rank - (|(n : ℚ)|)| < 1 / 2 := by
    rw [← abs_toRat_finite negative hrank]
    exact (abs_abs_sub_abs_le _ _).trans_lt h
  have hfloor : (double.magnitude rank + 1 / 2).floor = |n| := by
    obtain ⟨hlow, hhigh⟩ := abs_lt.1 hnear
    have hbounds : ((|n| : Int) : ℚ) ≤ double.magnitude rank + 1 / 2 ∧
        double.magnitude rank + 1 / 2 < ((|n| : Int) : ℚ) + 1 := by
      push_cast
      constructor <;> linarith
    exact Int.floor_eq_iff.2 hbounds
  show double.nearestMagnitude negative ((double.magnitude rank + 1 / 2).floor : Int) = _
  rw [hfloor, Int.cast_abs, nearestMagnitude_eq, rankOf_abs, ofRank_of_lt]
  rfl

end Binary

end CameraPanel
