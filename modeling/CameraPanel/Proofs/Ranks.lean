import CameraPanel.Number.Binary
import Mathlib.Algebra.Order.Field.Power
import Mathlib.Data.Rat.Lemmas
import Mathlib.Tactic.FieldSimp
import Mathlib.Tactic.Linarith
import Mathlib.Tactic.NormNum
import Mathlib.Tactic.Positivity
import Mathlib.Tactic.Push
import Mathlib.Tactic.Ring

/-!
# Ranks and their magnitudes

A magnitude is the significand of its rank times a power of two, so it is a whole number of the steps between its
neighbours, and the nearest rank to it is its own (`nearestRank_of_eq_magnitude`).  The one thing to see is that the
search for the right block finds the block of the rank; for this `floorLog2` is characterised by the two powers of two
around a quotient.
-/

namespace CameraPanel

/-! ### Powers with integer exponents -/

/-- A power is the quotient of the powers that two natural exponents stand for. -/
theorem pow_toNat_div (b : ℚ) (q : Int) : b ^ q.toNat / b ^ (-q).toNat = b ^ q := by
  rcases Int.le_total 0 q with hq | hq
  · obtain ⟨n, rfl⟩ := Int.eq_ofNat_of_zero_le hq
    simp
  · obtain ⟨n, hn⟩ := Int.eq_ofNat_of_zero_le (Int.neg_nonneg_of_nonpos hq)
    obtain rfl : q = -n := by omega
    simp

private theorem scaled_eq (m : Nat) (q : Int) : scaled m q = m * (2 : ℚ) ^ q := by
  rw [← pow_toNat_div]
  simp [scaled, mul_div_assoc]

/-! ### Logarithms of quotients -/

theorem floorLog2_spec {n d : Nat} (hn : 0 < n) (hd : 0 < d) :
    (2 : ℚ) ^ floorLog2 n d ≤ n / d ∧ (n / d : ℚ) < 2 ^ (floorLog2 n d + 1) := by
  have hd' : (0 : ℚ) < d := by exact_mod_cast hd
  have hnLow : (2 : ℚ) ^ (n.log2 : Int) ≤ n := by exact_mod_cast Nat.log2_self_le hn.ne'
  have hnHigh : (n : ℚ) < 2 ^ ((n.log2 : Int) + 1) := by exact_mod_cast (Nat.lt_log2_self (n := n))
  have hdLow : (2 : ℚ) ^ (d.log2 : Int) ≤ d := by exact_mod_cast Nat.log2_self_le hd.ne'
  have hdHigh : (d : ℚ) < 2 ^ ((d.log2 : Int) + 1) := by exact_mod_cast (Nat.lt_log2_self (n := d))
  have hlow : (2 : ℚ) ^ ((n.log2 : Int) - d.log2 - 1) ≤ n / d := by
    rw [le_div_iff₀ hd']
    calc (2 : ℚ) ^ ((n.log2 : Int) - d.log2 - 1) * d
        ≤ 2 ^ ((n.log2 : Int) - d.log2 - 1) * 2 ^ ((d.log2 : Int) + 1) := by gcongr
      _ = 2 ^ (n.log2 : Int) := by
          rw [← zpow_add₀ two_ne_zero]
          congr 1
          omega
      _ ≤ n := hnLow
  have hhigh : (n / d : ℚ) < 2 ^ ((n.log2 : Int) - d.log2 + 1) := by
    rw [div_lt_iff₀ hd']
    calc (n : ℚ) < 2 ^ ((n.log2 : Int) + 1) := hnHigh
      _ = 2 ^ ((n.log2 : Int) - d.log2 + 1) * 2 ^ (d.log2 : Int) := by
          rw [← zpow_add₀ two_ne_zero]
          congr 1
          omega
      _ ≤ 2 ^ ((n.log2 : Int) - d.log2 + 1) * d := by gcongr
  unfold floorLog2
  generalize (n.log2 : Int) - d.log2 = k at hlow hhigh ⊢
  -- The comparison in whole numbers is the comparison of the quotient with the power.
  have hcompare : n * Nat.pow 2 (-k).toNat < d * Nat.pow 2 k.toNat ↔ (n / d : ℚ) < 2 ^ k := by
    rw [← pow_toNat_div, div_lt_div_iff₀ hd' (by positivity), mul_comm ((2 : ℚ) ^ _)]
    exact_mod_cast Iff.rfl
  by_cases hk : n * Nat.pow 2 (-k).toNat < d * Nat.pow 2 k.toNat
  · rw [if_pos hk]
    exact ⟨hlow, by simpa using hcompare.1 hk⟩
  · rw [if_neg hk]
    exact ⟨not_lt.1 (mt hcompare.2 hk), hhigh⟩

private theorem lt_of_two_zpow_le_of_lt {x : ℚ} {a b : Int} (ha : (2 : ℚ) ^ a ≤ x) (hb : x < 2 ^ b) : a < b :=
  (zpow_lt_zpow_iff_right₀ one_lt_two).1 (ha.trans_lt hb)

private theorem floorLog2_eq {n d : Nat} (hn : 0 < n) (hd : 0 < d) {e : Int} (hlow : (2 : ℚ) ^ e ≤ n / d)
    (hhigh : (n / d : ℚ) < 2 ^ (e + 1)) : floorLog2 n d = e := by
  obtain ⟨hlow', hhigh'⟩ := floorLog2_spec hn hd
  have h := lt_of_two_zpow_le_of_lt hlow hhigh'
  have h' := lt_of_two_zpow_le_of_lt hlow' hhigh
  omega

/-! ### The nearest rank -/

private theorem roundDiv_mul (m : Nat) {d : Nat} (hd : 0 < d) : roundDiv (m * d) d = m := by
  simp [roundDiv, hd]

namespace Format

variable (F : Format)

theorem magnitude_eq (rank : Nat) : F.magnitude rank = F.significand rank * (2 : ℚ) ^ F.exponent rank := scaled_eq _ _

theorem magnitude_nonneg (rank : Nat) : 0 ≤ F.magnitude rank := by
  rw [magnitude_eq]
  positivity

/-- In the first block the significand is the rank. -/
theorem significand_of_lt {rank : Nat} (h : rank < 2 ^ F.fractionBits) : F.significand rank = rank := if_pos h

theorem magnitude_zero : F.magnitude 0 = 0 := by
  rw [magnitude_eq, F.significand_of_lt (by positivity)]
  simp

theorem exponent_of_lt {rank : Nat} (h : rank < 2 ^ F.fractionBits) : F.exponent rank = F.lowest := by
  simp [exponent, Nat.div_eq_of_lt h]

/-- From the second block on the significand has one more bit than the fraction. -/
theorem significand_of_le {rank : Nat} (h : 2 ^ F.fractionBits ≤ rank) :
    F.significand rank = 2 ^ F.fractionBits + rank % 2 ^ F.fractionBits := if_neg (Nat.not_lt.2 h)

theorem significand_lt (rank : Nat) : F.significand rank < 2 ^ (F.fractionBits + 1) := by
  rw [pow_succ]
  rcases Nat.lt_or_ge rank (2 ^ F.fractionBits) with hr | hr
  · rw [F.significand_of_lt hr]
    omega
  · rw [F.significand_of_le hr]
    have := Nat.mod_lt rank (show 0 < 2 ^ F.fractionBits by positivity)
    omega

theorem lowest_le_exponent (rank : Nat) : F.lowest ≤ F.exponent rank := by simp [exponent]

theorem exponent_le {rank : Nat} (h : rank < F.ranks) : F.exponent rank ≤ F.lowest + (F.blocks - 2 : Nat) := by
  have hblock : rank / 2 ^ F.fractionBits < F.blocks := Nat.div_lt_of_lt_mul (by rwa [Nat.mul_comm])
  show F.lowest + ((rank / 2 ^ F.fractionBits - 1 : Nat) : Int) ≤ _
  omega

theorem significand_pos {rank : Nat} (h : 0 < rank) : 0 < F.significand rank := by
  rcases Nat.lt_or_ge rank (2 ^ F.fractionBits) with hr | hr
  · rwa [F.significand_of_lt hr]
  · rw [F.significand_of_le hr]
    positivity

theorem magnitude_pos {rank : Nat} (h : 0 < rank) : 0 < F.magnitude rank := by
  have hs : (0 : ℚ) < F.significand rank := by exact_mod_cast F.significand_pos h
  rw [magnitude_eq]
  positivity

/-- The block and the significand of a rank give the rank. -/
theorem block_add_significand (rank : Nat) :
    (F.exponent rank - F.lowest).toNat * 2 ^ F.fractionBits + F.significand rank = rank := by
  rcases Nat.lt_or_ge rank (2 ^ F.fractionBits) with hr | hr
  · simp [F.exponent_of_lt hr, F.significand_of_lt hr]
  · have hblock : 0 < rank / 2 ^ F.fractionBits := Nat.div_pos hr (by positivity)
    have hexp : (F.exponent rank - F.lowest).toNat = rank / 2 ^ F.fractionBits - 1 := by simp [exponent]
    rw [hexp, F.significand_of_le hr, Nat.sub_mul, Nat.one_mul]
    have hle : 2 ^ F.fractionBits ≤ rank / 2 ^ F.fractionBits * 2 ^ F.fractionBits := Nat.le_mul_of_pos_left _ hblock
    have hdiv := Nat.div_add_mod' rank (2 ^ F.fractionBits)
    omega

/-- The exponent of a rank is found from the magnitude. -/
private theorem exponent_eq_max {n d rank : Nat} (hd : 0 < d) (hrank : 0 < rank) (h : (n / d : ℚ) = F.magnitude rank) :
    max F.lowest (floorLog2 n d - F.fractionBits) = F.exponent rank := by
  have hn : 0 < n := by
    have hpos := F.magnitude_pos hrank
    rw [← h] at hpos
    have : (0 : ℚ) < d := by exact_mod_cast hd
    exact_mod_cast (div_pos_iff_of_pos_right this).1 hpos
  rw [magnitude_eq] at h
  rcases Nat.lt_or_ge rank (2 ^ F.fractionBits) with hr | hr
  · rw [F.significand_of_lt hr, F.exponent_of_lt hr] at h
    have hhigh : (n / d : ℚ) < 2 ^ ((F.fractionBits : Int) + F.lowest) := by
      rw [h, zpow_add₀ two_ne_zero, zpow_natCast]
      have : (rank : ℚ) < 2 ^ F.fractionBits := by exact_mod_cast hr
      gcongr
    have hlog := lt_of_two_zpow_le_of_lt (floorLog2_spec hn hd).1 hhigh
    rw [F.exponent_of_lt hr]
    omega
  · have hm : 2 ^ F.fractionBits ≤ F.significand rank := by
      rw [F.significand_of_le hr]
      exact Nat.le_add_right _ _
    have hlow : (2 : ℚ) ^ ((F.fractionBits : Int) + F.exponent rank) ≤ n / d := by
      rw [h, zpow_add₀ two_ne_zero, zpow_natCast]
      have : (2 : ℚ) ^ F.fractionBits ≤ F.significand rank := by exact_mod_cast hm
      gcongr
    have hhigh : (n / d : ℚ) < 2 ^ ((F.fractionBits : Int) + F.exponent rank + 1) := by
      have hexp : (F.fractionBits : Int) + F.exponent rank + 1 = (F.fractionBits + 1 : Nat) + F.exponent rank := by
        push_cast
        ring
      rw [h, hexp, zpow_add₀ two_ne_zero, zpow_natCast]
      have : (F.significand rank : ℚ) < 2 ^ (F.fractionBits + 1) := by exact_mod_cast F.significand_lt rank
      gcongr
    have hlowest := F.lowest_le_exponent rank
    rw [floorLog2_eq hn hd hlow hhigh]
    omega

/-- The rank nearest to a magnitude is its own. -/
theorem nearestRank_of_eq_magnitude {n d rank : Nat} (hd : 0 < d) (h : (n / d : ℚ) = F.magnitude rank) :
    F.nearestRank n d = rank := by
  have hd' : (0 : ℚ) < d := by exact_mod_cast hd
  rcases Nat.eq_zero_or_pos rank with rfl | hrank
  · have hn : n = 0 := by
      have hzero : (n / d : ℚ) = 0 := h.trans F.magnitude_zero
      have := (div_eq_zero_iff.1 hzero).resolve_right hd'.ne'
      exact_mod_cast this
    simp [nearestRank, hn]
  · have hn : n ≠ 0 := by
      rintro rfl
      have := F.magnitude_pos hrank
      rw [← h] at this
      simp at this
    have hround : n * 2 ^ (-F.exponent rank).toNat = F.significand rank * (d * 2 ^ (F.exponent rank).toNat) := by
      have hq := h
      rw [magnitude_eq, ← pow_toNat_div, ← mul_div_assoc, div_eq_div_iff hd'.ne' (by positivity)] at hq
      have : (n * 2 ^ (-F.exponent rank).toNat : ℚ) = F.significand rank * (d * 2 ^ (F.exponent rank).toNat) := by
        rw [hq]
        ring
      exact_mod_cast this
    unfold nearestRank
    rw [if_neg hn, F.exponent_eq_max hd hrank h]
    show (F.exponent rank - F.lowest).toNat * 2 ^ F.fractionBits +
      roundDiv (n * 2 ^ (-F.exponent rank).toNat) (d * 2 ^ (F.exponent rank).toNat) = rank
    rw [hround, roundDiv_mul _ (by positivity), block_add_significand]

theorem nearestMagnitude_magnitude (negative : Bool) (rank : Nat) :
    F.nearestMagnitude negative (F.magnitude rank) = F.ofRank negative rank := by
  unfold nearestMagnitude
  rw [F.nearestRank_of_eq_magnitude (F.magnitude rank).den_pos]
  have hnum : ((F.magnitude rank).num.natAbs : ℚ) = (F.magnitude rank).num := by
    rw [Nat.cast_natAbs, abs_of_nonneg (Rat.num_nonneg.2 (F.magnitude_nonneg rank))]
  rw [hnum, Rat.num_div_den]

end Format

end CameraPanel
