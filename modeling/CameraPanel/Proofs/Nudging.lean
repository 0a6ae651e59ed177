import CameraPanel.Proofs.HostSession
import CameraPanel.Proofs.RoundingError

/-!
# Nudging on the grid of millionths

Before a nudge rounds to a whole number of millionths there have been five other roundings: of the value, of the step,
of the product with the number of steps, of the sum, and of its number of millionths.  As long as the numbers of
millionths that come up are not too large, all of this is off by less than one half (`abs_sub_lt_half`), so that the
whole number is the exact one.  The division that comes last is then the only rounding that is left, and its result is
the number nearest to the exact one (`onGrid_nudged`).  So nudges add up.
-/

namespace CameraPanel

open Format Binary

/-- The number nearest to a number of millionths. -/
def grid (m : Int) : Double := double.nearest (m / 10 ^ 6)

/-- A number that is the same as the one nearest to a number of millionths. -/
def OnGrid (x : Double) (m : Int) : Prop := x.same (grid m) = true

private theorem abs_div_million (q : ℚ) : |q / 10 ^ 6| = |q| / 10 ^ 6 := by
  rw [abs_div, abs_of_pos (by positivity : (0 : ℚ) < 10 ^ 6)]

/-- Numbers of 60 bits are far from being out of range. -/
private theorem two_pow_lt_overflow : (2 : ℚ) ^ 60 < overflow := by
  have h : 2 ^ 60 < overflow := by decide +kernel
  exact_mod_cast h

private theorem OnGrid.rounds {x : Double} {m : Int} (h : OnGrid x m) (hm : |m| ≤ 2 ^ 51) : x.Rounds (m / 10 ^ 6) := by
  refine Rounds.of_same (rounds_nearest ?_) h
  have hm' : |(m : ℚ)| ≤ 2 ^ 51 := by exact_mod_cast hm
  rw [abs_div_million]
  linarith [two_pow_lt_overflow]

/-! ### The error before the last rounding -/

/-- One rounding more, of a rational that is off already. -/
private theorem abs_sub_le_of_rounded {x y z e : ℚ} (hx : |x - y| ≤ slack y) (hy : |y - z| ≤ e) :
    |x - z| ≤ e + (|z| + e) / 2 ^ 53 + 1 / 2 ^ 100 := by
  unfold slack at hx
  have htri := abs_sub_le x y z
  have hsize : |y| ≤ |z| + e := by
    have := abs_sub_abs_le_abs_sub y z
    linarith
  have hdiv : |y| / 2 ^ 53 ≤ (|z| + e) / 2 ^ 53 := by gcongr
  linarith

section Errors

variable {m s n a b d f g : ℚ}

/-- The error of the step is taken times the number of steps. -/
private theorem abs_product_sub_le (hn : |n| ≤ 2 ^ 31) (hb : |b - s / 10 ^ 6| ≤ slack (s / 10 ^ 6)) :
    |n * b - n * s / 10 ^ 6| ≤ |n * s| / 10 ^ 6 / 2 ^ 53 + 1 / 2 ^ 69 := by
  rw [mul_div_assoc, ← mul_sub, abs_mul]
  calc |n| * |b - s / 10 ^ 6| ≤ |n| * slack (s / 10 ^ 6) := by gcongr
    _ = |n * s| / 10 ^ 6 / 2 ^ 53 + |n| * (1 / 2 ^ 100) := by
        rw [slack, abs_div_million, abs_mul]
        ring
    _ ≤ |n * s| / 10 ^ 6 / 2 ^ 53 + 2 ^ 31 * (1 / 2 ^ 100) := by gcongr
    _ = |n * s| / 10 ^ 6 / 2 ^ 53 + 1 / 2 ^ 69 := by norm_num

variable (h : |m| + 2 * |n * s| + 2 * |m + n * s| ≤ 2 ^ 51)
include h

private theorem abs_sum_sub_le (ha : |a - m / 10 ^ 6| ≤ slack (m / 10 ^ 6)) (hd : |d - n * b| ≤ slack (n * b))
    (hproduct : |n * b - n * s / 10 ^ 6| ≤ |n * s| / 10 ^ 6 / 2 ^ 53 + 1 / 2 ^ 69) :
    |a + d - (m + n * s) / 10 ^ 6| ≤ (|m| + 2 * |n * s|) / 10 ^ 6 / 2 ^ 53 + 1 / 2 ^ 60 := by
  have hd' := abs_sub_le_of_rounded hd hproduct
  have hsum := abs_add_le (a - m / 10 ^ 6) (d - n * s / 10 ^ 6)
  rw [show a - m / 10 ^ 6 + (d - n * s / 10 ^ 6) = a + d - (m + n * s) / 10 ^ 6 by ring] at hsum
  rw [slack, abs_div_million] at ha
  rw [abs_div_million] at hd'
  have hm := abs_nonneg m
  have hsum' := abs_nonneg (m + n * s)
  linarith

private theorem abs_scaled_sub_le (hf : |f - (a + d)| ≤ slack (a + d))
    (hsum : |a + d - (m + n * s) / 10 ^ 6| ≤ (|m| + 2 * |n * s|) / 10 ^ 6 / 2 ^ 53 + 1 / 2 ^ 60) :
    |f * 10 ^ 6 - (m + n * s)| ≤ (|m| + 2 * |n * s| + |m + n * s|) / 2 ^ 53 + 1 / 2 ^ 30 := by
  have hf' := abs_sub_le_of_rounded hf hsum
  have hscale : |f * 10 ^ 6 - (m + n * s)| = |f - (m + n * s) / 10 ^ 6| * 10 ^ 6 := by
    rw [← abs_of_pos (by positivity : (0 : ℚ) < 10 ^ 6), ← abs_mul, abs_of_pos (by positivity : (0 : ℚ) < 10 ^ 6)]
    congr 1
    ring
  rw [abs_div_million] at hf'
  have hsum' := abs_nonneg (m + n * s)
  linarith

private theorem abs_sub_lt_half (hg : |g - f * 10 ^ 6| ≤ slack (f * 10 ^ 6))
    (hscaled : |f * 10 ^ 6 - (m + n * s)| ≤ (|m| + 2 * |n * s| + |m + n * s|) / 2 ^ 53 + 1 / 2 ^ 30) :
    |g - (m + n * s)| < 1 / 2 := by
  have hg' := abs_sub_le_of_rounded hg hscaled
  have hsum' := abs_nonneg (m + n * s)
  linarith

end Errors

/-! ### One nudge -/

theorem exists_nudgeGrid_eq :
    ∃ (rank : Nat) (h : rank < double.ranks), 0 < rank ∧ nudgeGrid = .finite false rank h ∧
      double.magnitude rank = 10 ^ 6 := by
  have hmag : double.magnitude (double.rankOf (1000000 : Nat)) = (1000000 : Nat) :=
    Json.Numeral.magnitude_rankOf_word (by norm_num)
  have hlt : double.rankOf (1000000 : Nat) < double.ranks := Json.Numeral.rankOf_word_lt (by norm_num)
  refine ⟨_, hlt, double.pos_of_one_le_magnitude (by rw [hmag]; norm_num), ?_, hmag.trans (by norm_num)⟩
  rw [← ofRank_of_lt]
  exact ofInt_natCast double 1000000

private theorem toRat_nudgeGrid : nudgeGrid.isFinite = true ∧ nudgeGrid.toRat = 10 ^ 6 := by
  obtain ⟨rank, h, -, heq, hmag⟩ := exists_nudgeGrid_eq
  rw [heq]
  exact ⟨rfl, hmag⟩

/-- A number of millionths in units. -/
theorem finite_div_nudgeGrid (negative : Bool) {rank : Nat} (h : rank < double.ranks) :
    (finite negative rank h : Double) / nudgeGrid =
      double.ofRank negative (double.rankOf (double.magnitude rank / 10 ^ 6)) := by
  obtain ⟨rank', h', hpos, heq, hmag⟩ := exists_nudgeGrid_eq
  have htoRat : (finite false rank' h').toRat = 10 ^ 6 := hmag
  rw [heq, finite_div_of_pos negative false h h' hpos, nearestMagnitude_eq, htoRat, ← rankOf_abs, abs_div_million,
    abs_toRat_finite, Bool.bne_false]

private theorem same_ofRank {a b : Bool} {rank : Nat} (h : rank ≠ 0 → a = b) :
    (double.ofRank a rank).same (double.ofRank b rank) = true := by
  rcases Nat.eq_zero_or_pos rank with rfl | hpos
  · rw [same_iff]
    exact .inr ⟨rfl, rfl⟩
  · rw [h hpos.ne']
    exact same_refl _

/-- A number that is nearer than one half to an integer becomes that number of millionths. -/
private theorem onGrid_roundWhole {x : Double} (hx : x.isFinite = true) {n : Int} (hn : n.natAbs ≤ 2 ^ 53)
    (h : |x.toRat - n| < 1 / 2) : OnGrid (x.roundWhole / nudgeGrid) n := by
  rw [OnGrid, roundWhole_of_near hx hn h, finite_div_nudgeGrid, magnitude_rankOf_intCast hn, ← abs_div_million,
    rankOf_abs]
  refine same_ofRank fun hrank => ?_
  have hne : n ≠ 0 := by
    rintro rfl
    rw [Int.cast_zero, zero_div, rankOf_zero] at hrank
    exact hrank rfl
  -- The sign cannot change on less than one half.
  obtain ⟨hlow, hhigh⟩ := abs_lt.1 h
  rcases lt_or_gt_of_ne hne with hneg | hpos
  · have hneg' : (n : ℚ) ≤ -1 := by exact_mod_cast Int.le_sub_one_of_lt hneg
    have hx' : x.toRat < 0 := by linarith
    rw [isNegative_eq hx'.ne, decide_eq_true hx', decide_eq_true (by linarith)]
  · have hpos' : (1 : ℚ) ≤ n := by exact_mod_cast hpos
    have hx' : 0 < x.toRat := by linarith
    rw [isNegative_eq hx'.ne', decide_eq_false hx'.le.not_gt, decide_eq_false (by linarith)]

private theorem abs_lt_overflow {x z e : ℚ} (h : |x - z| ≤ e) (hz : |z| + e ≤ 2 ^ 60) : |x| < overflow := by
  have hsub := abs_sub_abs_le_abs_sub x z
  linarith [two_pow_lt_overflow]

/-- A nudge of a number that is rounded from a number of millionths, by steps of which the same is true. -/
private theorem onGrid_nudged_of_rounds {x step : Double} {m s n : Int} (hx : x.Rounds (m / 10 ^ 6))
    (hstep : step.Rounds (s / 10 ^ 6)) (hn : |n| ≤ 2 ^ 31) (h : |m| + 2 * |n * s| + 2 * |m + n * s| ≤ 2 ^ 51) :
    OnGrid (nudged x n step) (m + n * s) := by
  have hn' : |(n : ℚ)| ≤ 2 ^ 31 := by exact_mod_cast hn
  have h' : |(m : ℚ)| + 2 * |(n : ℚ) * s| + 2 * |(m : ℚ) + n * s| ≤ 2 ^ 51 := by exact_mod_cast h
  rw [Int.abs_eq_natAbs] at hn
  obtain ⟨hsteps, hsteps'⟩ := toRat_ofInt (n := n) (by omega)
  obtain ⟨hmillion, hmillion'⟩ := toRat_nudgeGrid
  have hm := abs_nonneg (m : ℚ)
  have hns := abs_nonneg ((n : ℚ) * s)
  have hsum' := abs_nonneg ((m : ℚ) + n * s)
  have hproduct := abs_product_sub_le hn' hstep.error
  have hd := rounds_mul hsteps hstep.finite (by
    rw [hsteps']
    refine abs_lt_overflow hproduct ?_
    rw [abs_div_million]
    linarith)
  rw [hsteps'] at hd
  have hsum := abs_sum_sub_le h' hx.error hd.error hproduct
  have hf := rounds_add hx.finite hd.finite (by
    refine abs_lt_overflow hsum ?_
    rw [abs_div_million]
    linarith)
  have hscaled := abs_scaled_sub_le h' hf.error hsum
  have hg := rounds_mul hf.finite hmillion (by
    rw [hmillion']
    refine abs_lt_overflow hscaled ?_
    linarith)
  rw [hmillion'] at hg
  have hhalf := abs_sub_lt_half h' hg.error hscaled
  refine onGrid_roundWhole hg.finite ?_ (by exact_mod_cast hhalf)
  have hle : |m + n * s| ≤ 2 ^ 51 := by
    have hm := abs_nonneg m
    have hns := abs_nonneg (n * s)
    linarith [abs_nonneg (m + n * s)]
  rw [Int.abs_eq_natAbs] at hle
  omega

/-! ### Several nudges -/

/-- Several nudges, one after the other. -/
def nudges (value step : Double) (ns : List Int) : Double := ns.foldl (fun x n => nudged x n step) value

/-- A nudge by a number of steps of 32 bits, among numbers of millionths that are not too large. -/
structure NudgeFits (m s n : Int) : Prop where
  steps : |n| ≤ 2 ^ 31
  bound : |m| + |n * s| ≤ 2 ^ 49

/-- Each of several nudges fits where it starts. -/
def NudgesFit (m s : Int) : List Int → Prop
  | [] => True
  | n :: ns => NudgeFits m s n ∧ NudgesFit (m + n * s) s ns

section Steps

variable {value step : Double} {m s : Int} (hstep : OnGrid step s) (hs : |s| ≤ 2 ^ 49)
include hstep hs

private theorem onGrid_nudged (hvalue : OnGrid value m) {n : Int} (h : NudgeFits m s n) :
    OnGrid (nudged value n step) (m + n * s) := by
  have hbound := h.bound
  have hns := abs_nonneg (n * s)
  have hsum := abs_add_le m (n * s)
  have hm := abs_nonneg m
  refine onGrid_nudged_of_rounds (hvalue.rounds ?_) (hstep.rounds ?_) h.steps ?_ <;> omega

/-- The way back ends where it started. -/
private theorem onGrid_nudged_back (hvalue : OnGrid value m) {n : Int} (h : NudgeFits m s n) :
    OnGrid (nudged (nudged value n step) (-n) step) m := by
  have hthere := onGrid_nudged hstep hs hvalue h
  have hbound := h.bound
  have hns := abs_nonneg (n * s)
  have hsum := abs_add_le m (n * s)
  have hm := abs_nonneg m
  have hback : m + n * s + -n * s = m := by ring
  have hsteps : |-n| ≤ 2 ^ 31 := by
    rw [abs_neg]
    exact h.steps
  have hgrid := onGrid_nudged_of_rounds (hthere.rounds (by omega)) (hstep.rounds (by omega)) hsteps (by
    rw [hback, neg_mul, abs_neg]
    omega)
  rwa [hback] at hgrid

private theorem onGrid_nudges (hvalue : OnGrid value m) {ns : List Int} (h : NudgesFit m s ns) :
    OnGrid (nudges value step ns) (m + ns.sum * s) := by
  induction ns generalizing value m with
  | nil => simpa [nudges] using hvalue
  | cons n ns ih =>
    obtain ⟨hn, hns⟩ := h
    have hrest := ih (onGrid_nudged hstep hs hvalue hn) hns
    rw [List.sum_cons, show m + (n + ns.sum) * s = m + n * s + ns.sum * s by ring]
    exact hrest

end Steps

namespace Host

theorem field_nudge (h : Host) (n : Int) :
    (h.next (.apply (.nudge n))).1.field h.selected =
      some (nudged ((h.field h.selected).getD h.selected.default) n h.step) := by
  show ((h.component.settings.edit h.selected _).cells.get h.selected).current = _
  rw [Settings.get_edit, if_pos rfl]
  rfl

/-- Nudges of the selected field, one after the other. -/
private theorem field_nudges (h : Host) {ns : List Int} (hns : ns ≠ []) :
    (h.play (ns.map fun n => .apply (.nudge n))).field h.selected =
      some (nudges ((h.field h.selected).getD h.selected.default) h.step ns) := by
  induction ns generalizing h with
  | nil => exact absurd rfl hns
  | cons n ns ih =>
    have hfield := h.field_nudge n
    by_cases hnil : ns = []
    · subst hnil
      exact hfield
    · have hrest := ih (h.next (.apply (.nudge n))).1 hnil
      rw [show (h.next (.apply (.nudge n))).1.selected = h.selected from rfl, hfield] at hrest
      exact hrest

end Host

/-- On the grid of millionths nudges are exact: each leads to the number nearest to the exact sum, several of them to
where one by the sum of their steps leads, and one there and back restores the value.  The selected field of a host
moves in this way. -/
theorem nudges_add_up {value step : Double} {m s : Int} (hvalue : OnGrid value m) (hstep : OnGrid step s)
    (hs : |s| ≤ 2 ^ 49) :
    (∀ n, NudgeFits m s n → OnGrid (nudged value n step) (m + n * s) ∧
      (nudged (nudged value n step) (-n) step).same value = true) ∧
    (∀ ns, NudgesFit m s ns → OnGrid (nudges value step ns) (m + ns.sum * s) ∧
      (NudgeFits m s ns.sum → (nudges value step ns).same (nudged value ns.sum step) = true)) ∧
    ∀ h : Host, (h.field h.selected).getD h.selected.default = value → h.step = step → ∀ ns, ns ≠ [] →
      (h.play (ns.map fun n => .apply (.nudge n))).field h.selected = some (nudges value step ns) := by
  refine ⟨fun n hn => ⟨onGrid_nudged hstep hs hvalue hn, ?_⟩, fun ns hns => ⟨onGrid_nudges hstep hs hvalue hns, ?_⟩, ?_⟩
  · exact same_trans (onGrid_nudged_back hstep hs hvalue hn) (same_symm hvalue)
  · intro hsum
    exact same_trans (onGrid_nudges hstep hs hvalue hns) (same_symm (onGrid_nudged hstep hs hvalue hsum))
  · rintro h rfl rfl ns hns
    exact h.field_nudges hns

/-- Three steps of a tenth, which is no binary fraction, lead to the number nearest to three tenths. -/
theorem nudges_of_tenths :
    NudgesFit 0 100000 [1, 1, 1] ∧ (nudges (grid 0) (grid 100000) [1, 1, 1]).same (grid 300000) = true := by
  have hfits : NudgesFit 0 100000 [1, 1, 1] :=
    ⟨⟨by norm_num, by norm_num⟩, ⟨by norm_num, by norm_num⟩, ⟨by norm_num, by norm_num⟩, trivial⟩
  have hsum : (0 : Int) + [1, 1, 1].sum * 100000 = 300000 := by decide
  obtain ⟨-, hnudges, -⟩ := nudges_add_up (same_refl (grid 0)) (same_refl (grid 100000)) (by norm_num)
  obtain ⟨hgrid, -⟩ := hnudges [1, 1, 1] hfits
  rw [hsum] at hgrid
  exact ⟨hfits, hgrid⟩

end CameraPanel
