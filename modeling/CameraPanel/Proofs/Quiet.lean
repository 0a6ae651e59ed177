import CameraPanel.Cell

/-!
# Quiet cells

A cell is *quiet* if it has nothing to report.  Both ways in which a cell becomes hydrated leave it quiet, an
observation does, and a local edit keeps it quiet if it does not change the current value in the sense of `sameValue`.
The last fact needs that `Binary.same` is transitive: the edit may put another zero in place of the one that was
compared with the baseline.
-/

namespace CameraPanel

variable {F : Format}

/-! ### The same value -/

namespace Binary

/-- Two numbers are the same if they are equal or both zero. -/
theorem same_iff {x y : Binary F} : x.same y = true ↔ x = y ∨ (x.isZero = true ∧ y.isZero = true) := by
  cases x <;> cases y <;> simp [same, eq, isNaN, isZero]
  rename_i a r _ b s _
  constructor
  · rintro ⟨rfl, rfl | rfl⟩ <;> simp
  · rintro (⟨rfl, rfl⟩ | ⟨rfl, rfl⟩) <;> simp

theorem same_refl (x : Binary F) : x.same x = true := same_iff.2 (Or.inl rfl)

theorem same_symm {x y : Binary F} (h : x.same y = true) : y.same x = true := by
  rw [same_iff] at h ⊢
  exact h.imp Eq.symm And.symm

theorem isFinite_of_same {x y : Binary F} (h : x.same y = true) : x.isFinite = y.isFinite := by
  rcases same_iff.1 h with rfl | ⟨hx, hy⟩
  · rfl
  · cases x <;> cases y <;> first | rfl | cases hx | cases hy

theorem same_trans {x y z : Binary F} (hxy : x.same y = true) (hyz : y.same z = true) : x.same z = true := by
  rcases same_iff.1 hxy with rfl | ⟨hx, hy⟩
  · exact hyz
  · rcases same_iff.1 hyz with rfl | ⟨-, hz⟩
    · exact hxy
    · exact same_iff.2 (Or.inr ⟨hx, hz⟩)

end Binary

private theorem sameValue_refl (a : Option (Binary F)) : sameValue a a = true := by
  cases a with
  | none => rfl
  | some x => exact x.same_refl

private theorem sameValue_trans {a b c : Option (Binary F)} (hab : sameValue a b = true) (hbc : sameValue b c = true) :
    sameValue a c = true := by
  cases a <;> cases b <;> cases c <;> simp_all [sameValue]
  exact Binary.same_trans hab hbc

namespace Cell

/-! ### Reports -/

/-- A cell that has nothing to report. -/
def Quiet (c : Cell F) : Prop := c.change? = none

theorem change?_eq_some_iff {c : Cell F} {change : Change F} :
    c.change? = some change ↔ c.hydrated = true ∧ c.current = some change.new ∧ c.baseline = change.old ∧
      sameValue change.old (some change.new) = false := by
  obtain ⟨old, new⟩ := change
  unfold change?
  split
  · rename_i hydrated
    cases hv : c.current with
    | none => simp
    | some v =>
      by_cases hs : sameValue c.baseline (some v) = true
      · simp only [hs, ↓reduceIte, reduceCtorEq, Option.some.injEq, false_iff]
        rintro ⟨-, rfl, rfl, h⟩
        simp [hs] at h
      · simp only [hs, Bool.false_eq_true, ↓reduceIte, Option.some.injEq, Change.mk.injEq, hydrated, true_and]
        constructor
        · rintro ⟨rfl, rfl⟩
          exact ⟨rfl, rfl, by simpa using hs⟩
        · rintro ⟨rfl, rfl, -⟩
          exact ⟨rfl, rfl⟩
  · simp_all

theorem quiet_iff {c : Cell F} :
    c.Quiet ↔ ∀ v, c.hydrated = true → c.current = some v → sameValue c.baseline (some v) = true := by
  constructor
  · intro h v hh hv
    cases hs : sameValue c.baseline (some v) with
    | true => rfl
    | false =>
      have hc : c.change? = some ⟨c.baseline, v⟩ := change?_eq_some_iff.2 ⟨hh, hv, rfl, hs⟩
      rw [h] at hc
      cases hc
  · intro h
    rcases hc : c.change? with _ | change
    · exact hc
    · obtain ⟨hh, hv, hb, hs⟩ := change?_eq_some_iff.1 hc
      rw [← hb, h _ hh hv] at hs
      cases hs

theorem quiet_of_not_hydrated {c : Cell F} (h : c.hydrated = false) : c.Quiet := by
  simp [Quiet, change?, h]

theorem quiet_of_unset {c : Cell F} (h : c.current = none) : c.Quiet := by
  rw [quiet_iff]
  intro v _ hv
  rw [h] at hv
  cases hv

/-! ### What keeps a cell quiet -/

theorem quiet_new : (new : Cell F).Quiet := rfl

theorem quiet_assignSynced (c : Cell F) (v : Binary F) : (c.assignSynced v).Quiet := by
  rw [quiet_iff]
  rintro w - hw
  cases hw
  exact sameValue_refl _

theorem hydrate_of_hydrated {c : Cell F} (h : c.hydrated = true) (value : Option (Binary F)) :
    c.hydrate value = c := by
  simp [hydrate, h]

theorem hydrate_of_not_hydrated {c : Cell F} (h : c.hydrated = false) (value : Option (Binary F)) :
    c.hydrate value = ⟨value, value, true⟩ := by
  simp [hydrate, h]

@[simp] theorem hydrated_hydrate (c : Cell F) (value : Option (Binary F)) : (c.hydrate value).hydrated = true := by
  unfold hydrate
  split
  · assumption
  · rfl

theorem Quiet.hydrate {c : Cell F} (h : c.Quiet) (value : Option (Binary F)) : (c.hydrate value).Quiet := by
  cases hh : c.hydrated with
  | true => rwa [hydrate_of_hydrated hh]
  | false =>
    rw [hydrate_of_not_hydrated hh, quiet_iff]
    rintro v - rfl
    exact sameValue_refl _

theorem observe_of_quiet {c : Cell F} (h : c.Quiet) : c.observe = c := by
  unfold observe
  rw [h]

theorem observe_of_change {c : Cell F} {change : Change F} (h : c.change? = some change) :
    c.observe = { c with baseline := some change.new } := by
  unfold observe
  rw [h]

theorem quiet_observe (c : Cell F) : c.observe.Quiet := by
  rcases hc : c.change? with _ | change
  · rw [observe_of_quiet hc]
    exact hc
  · rw [observe_of_change hc, quiet_iff]
    obtain ⟨-, hv, -, -⟩ := change?_eq_some_iff.1 hc
    intro v _ hv'
    rw [show v = change.new from Option.some.inj (hv'.symm.trans hv)]
    exact sameValue_refl _

/-- An edit that leaves the value the same leaves a quiet cell quiet. -/
theorem Quiet.assign {c : Cell F} (h : c.Quiet) {value : Option (Binary F)} (hsame : c.changes value = false) :
    (c.assign value).Quiet := by
  have hcv : sameValue c.current value = true := by simpa [changes] using hsame
  rw [quiet_iff]
  rintro v hh rfl
  cases hu : c.current with
  | none => simp [hu, sameValue] at hcv
  | some u =>
    -- The baseline was compared with `u`, and `u` with the new value.
    rw [hu] at hcv
    exact sameValue_trans (quiet_iff.1 h u hh hu) hcv

@[simp] theorem hydrated_observe (c : Cell F) : c.observe.hydrated = c.hydrated := by
  unfold observe
  split <;> rfl

@[simp] theorem current_observe (c : Cell F) : c.observe.current = c.current := by
  unfold observe
  split <;> rfl

end Cell

end CameraPanel
