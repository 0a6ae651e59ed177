import CameraPanel.Proofs.Ranks
import Mathlib.Order.Monotone.Basic

/-!
# Rounding to the nearest rank

The rank that a nonnegative rational is rounded to is as near as any other (`abs_sub_rankOf_le`).  From this alone, and
from the magnitudes being strictly increasing, it follows that rounding is monotone (`rankOf_mono`), and that a rational
whose distance from a magnitude is small in proportion is rounded to it (`rankOf_eq_of_near`).
-/

namespace CameraPanel

/-- The rounded quotient is as near as any natural number. -/
theorem abs_sub_roundDiv_le (n : Nat) {d : Nat} (hd : 0 < d) (k : Nat) :
    |(n / d : ℚ) - roundDiv n d| ≤ |(n / d : ℚ) - k| := by
  have hd' : (0 : ℚ) < d := by exact_mod_cast hd
  have hmod : ((n % d : Nat) : ℚ) < d := by exact_mod_cast Nat.mod_lt n hd
  have hsplit : (n / d : ℚ) = (n / d : Nat) + ((n % d : Nat) : ℚ) / d := by
    have hdiv : ((n / d : Nat) : ℚ) * d + (n % d : Nat) = n := by exact_mod_cast Nat.div_add_mod' n d
    field_simp
    linarith
  have hf : 0 ≤ ((n % d : Nat) : ℚ) / d := by positivity
  have hf' : ((n % d : Nat) : ℚ) / d < 1 := (div_lt_one hd').2 hmod
  have hdown : roundDiv n d = n / d → ((n % d : Nat) : ℚ) / d ≤ 1 / 2 := by
    intro h
    have hle : 2 * (n % d) ≤ d := by
      unfold roundDiv at h
      split_ifs at h <;> omega
    have : (2 : ℚ) * (n % d : Nat) ≤ d := by exact_mod_cast hle
    rw [div_le_iff₀ hd']
    linarith
  have hup : roundDiv n d = n / d + 1 → 1 / 2 ≤ ((n % d : Nat) : ℚ) / d := by
    intro h
    have hle : d ≤ 2 * (n % d) := by
      unfold roundDiv at h
      split_ifs at h <;> omega
    have : (d : ℚ) ≤ 2 * (n % d : Nat) := by exact_mod_cast hle
    rw [le_div_iff₀ hd']
    linarith
  have hround : roundDiv n d = n / d ∨ roundDiv n d = n / d + 1 := by
    unfold roundDiv
    split_ifs <;> simp
  rw [hsplit]
  generalize ((n % d : Nat) : ℚ) / d = f at *
  -- Both neighbours of the quotient are compared with `k`, which lies below the one or above the other.
  have hk : f ≤ |((n / d : Nat) : ℚ) + f - k| ∨ 1 - f ≤ |((n / d : Nat) : ℚ) + f - k| := by
    rcases Nat.lt_or_ge (n / d) k with h | h
    · have h' : ((n / d : Nat) : ℚ) + 1 ≤ k := by exact_mod_cast h
      exact .inr (le_trans (by linarith) (neg_le_abs _))
    · have h' : (k : ℚ) ≤ (n / d : Nat) := by exact_mod_cast h
      exact .inl (le_trans (by linarith) (le_abs_self _))
  rcases hround with h | h
  · have hhalf := hdown h
    rw [h, add_sub_cancel_left, abs_of_nonneg hf]
    rcases hk with hk | hk <;> linarith
  · have hhalf := hup h
    rw [h, Nat.cast_add, Nat.cast_one, add_sub_add_left_eq_sub, abs_sub_comm, abs_of_nonneg (by linarith)]
    rcases hk with hk | hk <;> linarith

namespace Format

variable (F : Format)

/-! ### Neighbouring magnitudes -/

/-- A block and a significand give a magnitude, also when the significand is the first one past the block. -/
private theorem magnitude_of_block {k m : Nat} (hm : m ≤ 2 ^ (F.fractionBits + 1)) (hk : k = 0 ∨ 2 ^ F.fractionBits ≤ m)
    :
    F.magnitude (k * 2 ^ F.fractionBits + m) = m * (2 : ℚ) ^ (F.lowest + k) := by
  have hB : 0 < 2 ^ F.fractionBits := by positivity
  have hexp : ∀ rank b : Nat, rank / 2 ^ F.fractionBits = b + 1 → F.exponent rank = F.lowest + b := by
    intro rank b h
    show F.lowest + ((rank / 2 ^ F.fractionBits - 1 : Nat) : Int) = _
    rw [h, Nat.add_sub_cancel]
  rw [magnitude_eq]
  rcases Nat.lt_or_ge m (2 ^ F.fractionBits) with hlt | hge
  · obtain rfl : k = 0 := hk.resolve_right (Nat.not_le.2 hlt)
    rw [Nat.zero_mul, Nat.zero_add, F.significand_of_lt hlt, F.exponent_of_lt hlt]
    simp
  · obtain ⟨j, rfl⟩ := Nat.exists_eq_add_of_le hge
    have hrank : k * 2 ^ F.fractionBits + (2 ^ F.fractionBits + j) = j + 2 ^ F.fractionBits * (k + 1) := by ring
    rw [hrank, F.significand_of_le (by nlinarith), Nat.add_mul_mod_self_left]
    rcases Nat.lt_or_ge j (2 ^ F.fractionBits) with hj | hj
    · have hblock : (j + 2 ^ F.fractionBits * (k + 1)) / 2 ^ F.fractionBits = k + 1 := by
        rw [Nat.add_mul_div_left _ _ hB, Nat.div_eq_of_lt hj, Nat.zero_add]
      rw [hexp _ _ hblock, Nat.mod_eq_of_lt hj]
    · obtain rfl : j = 2 ^ F.fractionBits := by
        rw [pow_succ] at hm
        omega
      have hblock : (2 ^ F.fractionBits + 2 ^ F.fractionBits * (k + 1)) / 2 ^ F.fractionBits = k + 1 + 1 := by
        rw [Nat.add_mul_div_left _ _ hB, Nat.div_self hB]
        omega
      rw [hexp _ _ hblock, Nat.mod_self, Nat.cast_succ, ← add_assoc, zpow_add_one₀ two_ne_zero]
      push_cast
      ring

/-- The step from a rank to the next one has the size that the exponent of the rank gives. -/
private theorem magnitude_succ (rank : Nat) :
    F.magnitude (rank + 1) = (F.significand rank + 1 : Nat) * (2 : ℚ) ^ F.exponent rank := by
  have hlowest := F.lowest_le_exponent rank
  have hexp : F.exponent rank = F.lowest + (F.exponent rank - F.lowest).toNat := by omega
  have hblock : (F.exponent rank - F.lowest).toNat = 0 ∨ 2 ^ F.fractionBits ≤ F.significand rank + 1 := by
    rcases Nat.lt_or_ge rank (2 ^ F.fractionBits) with hr | hr
    · simp [F.exponent_of_lt hr]
    · rw [F.significand_of_le hr]
      omega
  have h := F.magnitude_of_block (m := F.significand rank + 1) (F.significand_lt rank) hblock
  rw [← hexp, ← add_assoc, F.block_add_significand] at h
  exact h

theorem magnitude_strictMono : StrictMono F.magnitude := by
  apply strictMono_nat_of_lt_succ
  intro rank
  rw [magnitude_succ, magnitude_eq]
  gcongr
  exact Nat.lt_succ_self _

/-- The distance between two magnitudes is not small in proportion to the first of them. -/
private theorem magnitude_le_mul_abs_sub {rank rank' : Nat} (hne : rank' ≠ rank) :
    F.magnitude rank ≤ 2 ^ (F.fractionBits + 1) * |F.magnitude rank' - F.magnitude rank| := by
  have hstep : ∀ r, F.magnitude (r + 1) ≤ 2 ^ (F.fractionBits + 1) * (F.magnitude (r + 1) - F.magnitude r) := by
    intro r
    have hsig : ((F.significand r + 1 : Nat) : ℚ) ≤ 2 ^ (F.fractionBits + 1) := by exact_mod_cast F.significand_lt r
    have hdiff : F.magnitude (r + 1) - F.magnitude r = 2 ^ F.exponent r := by
      rw [magnitude_succ, magnitude_eq]
      push_cast
      ring
    rw [hdiff, magnitude_succ]
    gcongr
  rcases Nat.lt_or_gt_of_ne hne with hlt | hgt
  · obtain ⟨r, rfl⟩ := Nat.exists_eq_succ_of_ne_zero (Nat.ne_zero_of_lt hlt)
    have hle : F.magnitude rank' ≤ F.magnitude r := F.magnitude_strictMono.monotone (Nat.le_of_lt_succ hlt)
    calc F.magnitude (r + 1) ≤ 2 ^ (F.fractionBits + 1) * (F.magnitude (r + 1) - F.magnitude r) := hstep r
      _ ≤ 2 ^ (F.fractionBits + 1) * |F.magnitude rank' - F.magnitude (r + 1)| := by
          gcongr
          exact le_trans (by linarith) (neg_le_abs _)
  · have hle : F.magnitude (rank + 1) ≤ F.magnitude rank' := F.magnitude_strictMono.monotone hgt
    calc F.magnitude rank ≤ F.magnitude (rank + 1) := (F.magnitude_strictMono (Nat.lt_succ_self _)).le
      _ ≤ 2 ^ (F.fractionBits + 1) * (F.magnitude (rank + 1) - F.magnitude rank) := hstep rank
      _ ≤ 2 ^ (F.fractionBits + 1) * |F.magnitude rank' - F.magnitude rank| := by
          gcongr
          exact le_trans (by linarith) (le_abs_self _)

/-- A whole number of steps is a magnitude if it does not need too many bits. -/
theorem exists_magnitude_eq {m : Nat} (hm : m ≤ 2 ^ (F.fractionBits + 1)) {q : Int} (hq : F.lowest ≤ q) :
    ∃ rank, F.magnitude rank = m * (2 : ℚ) ^ q := by
  obtain ⟨k, rfl⟩ : ∃ k : Nat, q = F.lowest + k := ⟨(q - F.lowest).toNat, by omega⟩
  clear hq
  -- As long as the significand is too short for its block, it is doubled and taken to the block before.
  induction k generalizing m with
  | zero => exact ⟨_, F.magnitude_of_block hm (.inl rfl)⟩
  | succ k ih =>
    rcases Nat.lt_or_ge m (2 ^ F.fractionBits) with hlt | hge
    · obtain ⟨rank, hrank⟩ := ih (m := 2 * m) (by rw [pow_succ]; omega)
      refine ⟨rank, hrank.trans ?_⟩
      rw [Nat.cast_succ, ← add_assoc, zpow_add_one₀ two_ne_zero]
      push_cast
      ring
    · exact ⟨_, F.magnitude_of_block hm (.inr hge)⟩

/-! ### The nearest rank -/

/-- The rank that the magnitude of a rational is rounded to. -/
def rankOf (x : ℚ) : Nat := F.nearestRank x.num.natAbs x.den

theorem nearestMagnitude_eq (negative : Bool) (x : ℚ) :
    F.nearestMagnitude negative x = F.ofRank negative (F.rankOf x) := rfl

/-- Only the magnitude counts. -/
private theorem rankOf_neg (x : ℚ) : F.rankOf (-x) = F.rankOf x := by
  simp [rankOf]

theorem rankOf_abs (x : ℚ) : F.rankOf |x| = F.rankOf x := by
  rcases abs_choice x with h | h
  · rw [h]
  · rw [h, rankOf_neg]

theorem rankOf_intCast (n : Int) : F.rankOf n = F.rankOf n.natAbs := by
  rw [Nat.cast_natAbs, Int.cast_abs, rankOf_abs]

theorem rankOf_zero : F.rankOf 0 = 0 := by
  simp [rankOf, nearestRank]

theorem natAbs_num_div_den {x : ℚ} (hx : 0 ≤ x) : (x.num.natAbs : ℚ) / x.den = x := by
  rw [Nat.cast_natAbs, abs_of_nonneg (Rat.num_nonneg.2 hx), Rat.num_div_den]

theorem rankOf_magnitude (rank : Nat) : F.rankOf (F.magnitude rank) = rank :=
  F.nearestRank_of_eq_magnitude (F.magnitude rank).den_pos (natAbs_num_div_den (F.magnitude_nonneg rank))

/-- Rounding goes to the nearest whole number of steps of some size, the smallest one or one small in proportion. -/
theorem rankOf_spec {x : ℚ} (hx : 0 < x) :
    ∃ (m : Nat) (q : Int), F.magnitude (F.rankOf x) = m * (2 : ℚ) ^ q ∧
      (∀ k : Nat, |x - m * (2 : ℚ) ^ q| ≤ |x - k * (2 : ℚ) ^ q|) ∧
      (q = F.lowest ∨ F.lowest ≤ q ∧ (2 : ℚ) ^ F.fractionBits * 2 ^ q ≤ x) := by
  have hn : 0 < x.num.natAbs := Int.natAbs_pos.2 (Rat.num_pos.2 hx).ne'
  have hval := natAbs_num_div_den hx.le
  obtain ⟨hlow, hhigh⟩ := floorLog2_spec hn x.den_pos
  rw [hval] at hlow hhigh
  unfold rankOf nearestRank
  rw [if_neg hn.ne']
  dsimp only
  generalize hq : max F.lowest (floorLog2 x.num.natAbs x.den - F.fractionBits) = q
  generalize floorLog2 x.num.natAbs x.den = e at hlow hhigh hq
  have hlowest : F.lowest ≤ q := by omega
  have hden : 0 < x.den * 2 ^ q.toNat := Nat.mul_pos x.den_pos (by positivity)
  have hstep : (0 : ℚ) < 2 ^ q := by positivity
  -- The quotient that is rounded is the number of steps.
  have hsteps : ((x.num.natAbs * 2 ^ (-q).toNat : Nat) : ℚ) / (x.den * 2 ^ q.toNat : Nat) = x / 2 ^ q := by
    have hd : (x.den : ℚ) ≠ 0 := by exact_mod_cast x.den_ne_zero
    rw [← pow_toNat_div]
    push_cast
    nth_rewrite 3 [← hval]
    field_simp
  have hnear : ∀ k : Nat, |x - roundDiv (x.num.natAbs * 2 ^ (-q).toNat) (x.den * 2 ^ q.toNat) * (2 : ℚ) ^ q| ≤
      |x - k * (2 : ℚ) ^ q| := by
    intro k
    have h := abs_sub_roundDiv_le (x.num.natAbs * 2 ^ (-q).toNat) hden k
    have hscale : ∀ a : ℚ, |x - a * 2 ^ q| = |x / 2 ^ q - a| * 2 ^ q := by
      intro a
      rw [← abs_of_pos hstep, ← abs_mul, abs_of_pos hstep, sub_mul, div_mul_cancel₀ _ hstep.ne']
    rw [hscale, hscale, ← hsteps]
    gcongr
  have hsize : q = F.lowest ∨ F.lowest ≤ q ∧ (2 : ℚ) ^ F.fractionBits * 2 ^ q ≤ x := by
    by_cases h : q = F.lowest
    · exact .inl h
    · refine .inr ⟨hlowest, ?_⟩
      rw [← zpow_natCast, ← zpow_add₀ two_ne_zero]
      exact le_trans (zpow_le_zpow_right₀ (by norm_num) (by omega)) hlow
  refine ⟨_, q, ?_, hnear, hsize⟩
  show F.magnitude ((q - F.lowest).toNat * 2 ^ F.fractionBits +
    roundDiv (x.num.natAbs * 2 ^ (-q).toNat) (x.den * 2 ^ q.toNat)) = _
  generalize roundDiv (x.num.natAbs * 2 ^ (-q).toNat) (x.den * 2 ^ q.toNat) = m at hnear ⊢
  have hm : m ≤ 2 ^ (F.fractionBits + 1) := by
    by_contra hgt
    have hgt' : ((2 ^ (F.fractionBits + 1) : Nat) : ℚ) * 2 ^ q < m * 2 ^ q := by
      gcongr
      omega
    have hx' : x < ((2 ^ (F.fractionBits + 1) : Nat) : ℚ) * 2 ^ q := by
      have hexp : e + 1 ≤ ((F.fractionBits + 1 : Nat) : Int) + q := by omega
      rw [Nat.cast_pow, Nat.cast_ofNat, ← zpow_natCast, ← zpow_add₀ two_ne_zero]
      exact hhigh.trans_le (zpow_le_zpow_right₀ (by norm_num) hexp)
    have h := hnear (2 ^ (F.fractionBits + 1))
    rw [abs_sub_comm, abs_sub_comm x, abs_of_pos (by linarith), abs_of_pos (by linarith)] at h
    linarith
  have hk : (q - F.lowest).toNat = 0 ∨ 2 ^ F.fractionBits ≤ m := by
    rcases hsize with hq' | ⟨-, hx'⟩
    · simp [hq']
    · by_contra hlt
      have hlt' : (m : ℚ) * 2 ^ q < ((2 ^ F.fractionBits : Nat) : ℚ) * 2 ^ q := by
        gcongr
        omega
      have h := hnear (2 ^ F.fractionBits)
      push_cast at hlt' h
      rw [abs_of_nonneg (by linarith), abs_of_nonneg (by linarith)] at h
      linarith
  rw [F.magnitude_of_block hm hk]
  congr 2
  omega

/-- The rank that a rational is rounded to is as near as any other. -/
theorem abs_sub_rankOf_le {x : ℚ} (hx : 0 ≤ x) (rank : Nat) :
    |x - F.magnitude (F.rankOf x)| ≤ |x - F.magnitude rank| := by
  rcases hx.eq_or_lt with rfl | hx
  · rw [rankOf_zero, magnitude_zero]
    simp
  · obtain ⟨m, q, hrank, hnear, hsize⟩ := F.rankOf_spec hx
    rw [hrank]
    rcases le_or_gt q (F.exponent rank) with hle | hgt
    · -- The magnitude is a whole number of steps.
      obtain ⟨j, hj⟩ := Int.eq_ofNat_of_zero_le (show 0 ≤ F.exponent rank - q by omega)
      have hsteps : F.magnitude rank = (F.significand rank * 2 ^ j : Nat) * (2 : ℚ) ^ q := by
        have hexp : F.exponent rank = j + q := by omega
        rw [magnitude_eq, hexp, zpow_add₀ two_ne_zero, zpow_natCast]
        push_cast
        ring
      rw [hsteps]
      exact hnear _
    · -- It lies below the whole block of `x`.
      have hlowest := F.lowest_le_exponent rank
      have hx' : (2 : ℚ) ^ F.fractionBits * 2 ^ q ≤ x := (hsize.resolve_left (by omega)).2
      have hbelow : F.magnitude rank ≤ 2 ^ F.fractionBits * 2 ^ q := by
        have hsig : (F.significand rank : ℚ) ≤ 2 ^ (F.fractionBits + 1) := by exact_mod_cast (F.significand_lt rank).le
        calc F.magnitude rank = F.significand rank * 2 ^ F.exponent rank := F.magnitude_eq rank
          _ ≤ 2 ^ (F.fractionBits + 1) * 2 ^ (q - 1) := by
              gcongr
              · norm_num
              · omega
          _ = 2 ^ F.fractionBits * 2 ^ q := by
              rw [pow_succ, zpow_sub_one₀ two_ne_zero]
              ring
      have h := hnear (2 ^ F.fractionBits)
      push_cast at h
      rw [abs_of_nonneg (show (0 : ℚ) ≤ x - 2 ^ F.fractionBits * 2 ^ q by linarith)] at h
      exact h.trans (le_trans (by linarith) (le_abs_self _))

/-- Rounding is monotone.  If two ranks were in the wrong order, then each rational would be on the far side of the
middle between them. -/
theorem rankOf_mono {x y : ℚ} (hx : 0 ≤ x) (hxy : x ≤ y) : F.rankOf x ≤ F.rankOf y := by
  by_contra hlt
  have hmag := F.magnitude_strictMono (Nat.lt_of_not_le hlt)
  have hnear := F.abs_sub_rankOf_le hx (F.rankOf y)
  have hnear' := F.abs_sub_rankOf_le (hx.trans hxy) (F.rankOf x)
  have hmiddle : F.magnitude (F.rankOf x) + F.magnitude (F.rankOf y) ≤ 2 * x := by
    cases abs_cases (x - F.magnitude (F.rankOf x)) <;> cases abs_cases (x - F.magnitude (F.rankOf y)) <;> linarith
  have hmiddle' : 2 * y ≤ F.magnitude (F.rankOf x) + F.magnitude (F.rankOf y) := by
    cases abs_cases (y - F.magnitude (F.rankOf x)) <;> cases abs_cases (y - F.magnitude (F.rankOf y)) <;> linarith
  obtain rfl : x = y := by linarith
  exact hlt le_rfl

/-- A rational that is near to a magnitude in proportion is rounded to it. -/
theorem rankOf_eq_of_near {x : ℚ} (hx : 0 ≤ x) {rank : Nat}
    (h : 2 ^ (F.fractionBits + 1) * (2 * |x - F.magnitude rank|) < F.magnitude rank) : F.rankOf x = rank := by
  by_contra hne
  have hgap := F.magnitude_le_mul_abs_sub hne
  have hnear := F.abs_sub_rankOf_le hx rank
  have hdist : |F.magnitude (F.rankOf x) - F.magnitude rank| ≤ 2 * |x - F.magnitude rank| := by
    have htri := abs_sub_le (F.magnitude (F.rankOf x)) x (F.magnitude rank)
    rw [abs_sub_comm (F.magnitude (F.rankOf x)) x] at htri
    linarith
  have hmul : (2 : ℚ) ^ (F.fractionBits + 1) * |F.magnitude (F.rankOf x) - F.magnitude rank| ≤
      2 ^ (F.fractionBits + 1) * (2 * |x - F.magnitude rank|) := by gcongr
  linarith

end Format

end CameraPanel
