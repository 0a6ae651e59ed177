import CameraPanel.Proofs.Quiet
import CameraPanel.Settings
import Mathlib.Data.List.Basic

/-!
# Digests and the edited fields

A digest looks only at the fields that were edited since the last one.  It loses nothing by that: outside of the edited
fields every cell is quiet (`Settled`), the results of reads keep quiet cells quiet, and so `digest` finds what
`digestAll` finds, which looks at every field.  The invariant is kept by every step of the settings; a digest may forget
the edited fields because it leaves every cell quiet, also those that it cannot report.

The first section says what the two passes of a digest do to one field.
-/

namespace CameraPanel

theorem FieldSet.nodup_toList (s : FieldSet) : s.toList.Nodup := Field.all_nodup.filter _

namespace Settings

variable {α : Type}

/-! ### One field at a time -/

/-- Of the results for a field only the first one counts. -/
theorem get_applyReads (cells : PerField (Cell .double)) (results : List (Field × Option Double)) (k : Field) :
    (applyReads cells results).1.get k = (results.lookup k).elim (cells.get k) (cells.get k).hydrate := by
  induction results generalizing cells with
  | nil => rfl
  | cons result rest ih =>
    obtain ⟨j, value⟩ := result
    show (applyReads (cells.set j ((cells.get j).hydrate value)) rest).1.get k = _
    rw [ih]
    by_cases h : k = j
    · subst h
      rw [PerField.get_set_self, List.lookup_cons_self]
      cases rest.lookup k with
      | none => rfl
      | some later => exact Cell.hydrate_of_hydrated (Cell.hydrated_hydrate _ _) later
    · rw [PerField.get_set_of_ne _ _ h, List.lookup_cons, beq_eq_false_iff_ne.2 h]

theorem get_observeAll (cells : PerField (Cell .double)) {ks : List Field} (hks : ks.Nodup) (k : Field) :
    (observeAll cells ks).1.get k = if k ∈ ks then (cells.get k).observe else cells.get k := by
  induction ks generalizing cells with
  | nil => rfl
  | cons j rest ih =>
    obtain ⟨hj, hrest⟩ := List.nodup_cons.1 hks
    show (observeAll (cells.set j (cells.get j).observe) rest).1.get k = _
    rw [ih _ hrest]
    by_cases h : k = j
    · subst h
      simp [hj]
    · simp [h, PerField.get_set_of_ne]

theorem changes_observeAll (cells : PerField (Cell .double)) {ks : List Field} (hks : ks.Nodup) :
    (observeAll cells ks).2 = ks.filterMap fun k => (cells.get k).change?.map fun change => (k, change) := by
  induction ks generalizing cells with
  | nil => rfl
  | cons j rest ih =>
    obtain ⟨hj, hrest⟩ := List.nodup_cons.1 hks
    -- The cells of the later fields are still the old ones.
    have hcells : ∀ k ∈ rest, (cells.set j (cells.get j).observe).get k = cells.get k := by
      intro k hk
      exact PerField.get_set_of_ne _ _ fun h => hj (h ▸ hk)
    have hlater : (observeAll (cells.set j (cells.get j).observe) rest).2 =
        rest.filterMap fun k => (cells.get k).change?.map fun change => (k, change) := by
      rw [ih _ hrest]
      exact List.filterMap_congr fun k hk => by rw [hcells k hk]
    rw [observeAll, List.filterMap_cons]
    cases (cells.get j).change? <;> simp [hlater]

/-- The cell of a field once the waiting results are applied. -/
def drained (s : Settings α) (k : Field) : Cell .double :=
  (s.waiting.lookup k).elim (s.cells.get k) (s.cells.get k).hydrate

theorem drained_of_hydrated {s : Settings α} {k : Field} (h : (s.cells.get k).hydrated = true) :
    s.drained k = s.cells.get k := by
  unfold drained
  cases s.waiting.lookup k with
  | none => rfl
  | some value => exact Cell.hydrate_of_hydrated h value

theorem quiet_drained {s : Settings α} {k : Field} (h : (s.cells.get k).Quiet) : (s.drained k).Quiet := by
  unfold drained
  cases s.waiting.lookup k with
  | none => exact h
  | some value => exact h.hydrate value

/-! ### A digest of all fields -/

/-- A digest that looks at every field, edited or not. -/
def digestAll (s : Settings α) : Settings α × Digest α :=
  let (cells, stale) := applyReads s.cells s.waiting
  let changes := Field.all.filterMap fun k => (cells.get k).change?.map fun change => (k, change)
  ({ s with cells := cells.map Cell.observe, waiting := [], edited := .empty },
    { stale, changes, calls := changes.flatMap fun (k, change) => (s.watchers.labels k).map fun a => (a, k, change) })

/-- Every cell outside of the edited fields is quiet. -/
def Settled (s : Settings α) : Prop := ∀ k, s.edited.contains k = false → (s.cells.get k).Quiet

/-- To observe only some fields is enough if the others are quiet. -/
private theorem observeAll_filter {cells : PerField (Cell .double)} {p : Field → Bool}
    (h : ∀ k, p k = false → (cells.get k).Quiet) :
    observeAll cells (Field.all.filter p) =
      (cells.map Cell.observe, Field.all.filterMap fun k => (cells.get k).change?.map fun change => (k, change)) := by
  have hnodup : (Field.all.filter p).Nodup := Field.all_nodup.filter _
  have hcells : (observeAll cells (Field.all.filter p)).1 = cells.map Cell.observe := by
    apply PerField.ext_get
    intro k
    rw [get_observeAll _ hnodup, PerField.get_map]
    cases hk : p k with
    | true => simp [hk, Field.mem_all]
    | false => simp [hk, Cell.observe_of_quiet (h k hk)]
  have hchanges : (observeAll cells (Field.all.filter p)).2 =
      Field.all.filterMap fun k => (cells.get k).change?.map fun change => (k, change) := by
    rw [changes_observeAll _ hnodup, List.filterMap_filter]
    apply List.filterMap_congr
    intro k _
    cases hk : p k with
    | true => rfl
    | false =>
      have hq : (cells.get k).change? = none := h k hk
      simp [hq]
  exact Prod.ext hcells hchanges

theorem Settled.digest_eq {s : Settings α} (h : s.Settled) : s.digest = s.digestAll := by
  have hq : ∀ k, s.edited.contains k = false → ((applyReads s.cells s.waiting).1.get k).Quiet := by
    intro k hk
    rw [get_applyReads]
    exact quiet_drained (h k hk)
  unfold digest digestAll
  simp only [FieldSet.toList, observeAll_filter hq]

/-! ### What a digest leaves and finds -/

theorem Settled.get_digest {s : Settings α} (h : s.Settled) (k : Field) :
    s.digest.1.cells.get k = (s.drained k).observe := by
  rw [h.digest_eq]
  show ((applyReads s.cells s.waiting).1.map Cell.observe).get k = _
  rw [PerField.get_map, get_applyReads, drained]

theorem Settled.changes_digest {s : Settings α} (h : s.Settled) :
    s.digest.2.changes = Field.all.filterMap fun k => (s.drained k).change?.map fun change => (k, change) := by
  rw [h.digest_eq]
  show (Field.all.filterMap fun k =>
    ((applyReads s.cells s.waiting).1.get k).change?.map fun change => (k, change)) = _
  simp only [get_applyReads, drained]

theorem Settled.quiet_digest {s : Settings α} (h : s.Settled) (k : Field) : (s.digest.1.cells.get k).Quiet := by
  rw [h.get_digest]
  exact Cell.quiet_observe _

/-- Without waiting results and edited fields there is nothing to digest. -/
theorem digest_idle {s : Settings α} (hw : s.waiting = []) (he : s.edited = .empty) :
    s.digest = (s, ⟨[], [], []⟩) := by
  obtain ⟨cells, visible, edited, waiting, watchers⟩ := s
  subst hw he
  simp [digest, applyReads, observeAll]

/-! ### Runs of the settings -/

/-- A step of the settings on their own, without a remote side. -/
inductive Step (α : Type) where
  | edit (k : Field) (value : Option Double)
  | assignSynced (k : Field) (value : Double)
  | enqueue (k : Field) (value : Option Double)
  | digest
  | toggleVisible
  | watch (k : Field) (label : α)
  | unwatch (handle : Handle)

def step (s : Settings α) : Step α → Settings α
  | .edit k value => s.edit k value
  | .assignSynced k value => s.assignSynced k value
  | .enqueue k value => s.enqueue k value
  | .digest => s.digest.1
  | .toggleVisible => s.toggleVisible
  | .watch k label => (s.watch k label).1
  | .unwatch handle => (s.unwatch handle).1

/-- The settings after some steps. -/
def run (s : Settings α) (steps : List (Step α)) : Settings α := steps.foldl step s

theorem settled_new (visible : Bool) : (new visible : Settings α).Settled := by
  intro k _
  show ((PerField.fill Cell.new).get k).Quiet
  rw [PerField.get_fill]
  exact Cell.quiet_new

theorem get_edit (s : Settings α) (j k : Field) (value : Option Double) :
    (s.edit j value).cells.get k = if k = j then (s.cells.get k).assign value else s.cells.get k := by
  show (s.cells.set j ((s.cells.get j).assign value)).get k = _
  by_cases hk : k = j
  · subst hk
    rw [PerField.get_set_self, if_pos rfl]
  · rw [PerField.get_set_of_ne _ _ hk, if_neg hk]

theorem Settled.edit {s : Settings α} (h : s.Settled) (k : Field) (value : Option Double) :
    (s.edit k value).Settled := by
  intro j hj
  rw [get_edit]
  by_cases hjk : j = k
  · subst hjk
    rw [if_pos rfl]
    -- The field was not edited before, and this edit has not made it so.
    cases hc : (s.cells.get j).changes value with
    | true => simp [Settings.edit, hc] at hj
    | false =>
      have hj' : s.edited.contains j = false := by simpa [Settings.edit, hc] using hj
      exact (h j hj').assign hc
  · rw [if_neg hjk]
    apply h
    cases hc : (s.cells.get k).changes value with
    | true =>
      have : s.edited.contains j = false ∧ k ≠ j := by simpa [Settings.edit, hc] using hj
      exact this.1
    | false => simpa [Settings.edit, hc] using hj

private theorem Settled.assignSynced {s : Settings α} (h : s.Settled) (k : Field) (value : Double) :
    (s.assignSynced k value).Settled := by
  intro j hj
  show ((s.cells.set k ((s.cells.get k).assignSynced value)).get j).Quiet
  by_cases hjk : j = k
  · subst hjk
    rw [PerField.get_set_self]
    exact Cell.quiet_assignSynced _ _
  · rw [PerField.get_set_of_ne _ _ hjk]
    exact h j hj

private theorem Settled.step {s : Settings α} (h : s.Settled) (st : Step α) : (s.step st).Settled := by
  cases st with
  | edit k value => exact h.edit k value
  | assignSynced k value => exact h.assignSynced k value
  | enqueue k value => exact h
  | digest => exact fun k _ => h.quiet_digest k
  | toggleVisible => exact h
  | watch k label => exact h
  | unwatch handle => exact h

private theorem Settled.run {s : Settings α} (h : s.Settled) (steps : List (Step α)) : (s.run steps).Settled := by
  induction steps generalizing s with
  | nil => exact h
  | cons st steps ih => exact ih (h.step st)

/-- In every run of the settings a digest does and finds what a digest of all fields does and finds, and a second digest
right after it does and finds nothing. -/
theorem digest_run_eq_digestAll (visible : Bool) (steps : List (Step α)) :
    ((new visible).run steps).digest = ((new visible).run steps).digestAll ∧
      ((new visible).run steps).digest.1.digest = (((new visible).run steps).digest.1, ⟨[], [], []⟩) := by
  have h : ((new visible).run steps).Settled := (settled_new visible).run steps
  exact ⟨h.digest_eq, digest_idle rfl rfl⟩

end Settings

end CameraPanel
