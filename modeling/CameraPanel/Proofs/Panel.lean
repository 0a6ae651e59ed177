import CameraPanel.Proofs.Digest
import CameraPanel.Sync.Component
import Mathlib.Data.List.Nodup

/-!
# What happens to a mounted panel

Seen from the panel, all that happens is an edit, a reset, a toggle, a digest, or the arrival of the results of reads.
`Settings.after` gives the settings after such an event and `Settings.sends` the writes that go to the remote side; the
operations of `Component` do exactly this, whatever the remote side is (`takeAll_value`, `digest_value`).
So a statement about the panel is proved about these two functions, once for each kind of event.
-/

namespace CameraPanel

/-- What can happen to a panel. -/
inductive PanelEvent where
  | edited (k : Field) (value : Option Double)
  /-- Finished reads hand over their results. -/
  | arrived (results : List (Field × Option Double))
  | reset
  | toggled
  | digested

/-- The value in an answer; a failure has none. -/
def Answer.value : Answer → Option Double
  | .ok value => value
  | .error _ => none

/-- The results that finished reads have for the panel that was mounted as number `mount`. -/
def arrivals (mount : Nat) (finished : List FinishedRead) : List (Field × Option Double) :=
  (finished.filter fun f => mount = f.mount).map fun f => (f.field, Answer.value f.answer)

/-- The remote side after some writes in order. -/
def sendAll {ρ : Type} [RemoteSide ρ] (r : ρ) (writes : List (Field × Double)) : ρ :=
  writes.foldl (fun r w => (RemoteSide.write r w.1 w.2).value) r

theorem sendAll_cons {ρ : Type} [RemoteSide ρ] (r : ρ) (w : Field × Double) (rest : List (Field × Double)) :
    sendAll r (w :: rest) = sendAll (RemoteSide.write r w.1 w.2).value rest := rfl

/-- The most recent write of a field among some writes. -/
def lastWrite (writes : List (Field × Double)) (k : Field) : Option Double := writes.reverse.lookup k

theorem lastWrite_append (writes later : List (Field × Double)) (k : Field) :
    lastWrite (writes ++ later) k = (lastWrite later k).or (lastWrite writes k) := by
  rw [lastWrite, List.reverse_append, List.lookup_append]
  rfl

/-- After some writes a remote side shows the last one of each field, and the other fields as before, if this is what it
does after one write. -/
theorem view_sendAll {ρ : Type} [RemoteSide ρ] (view : ρ → Field → Option Double)
    (hwrite : ∀ r j v k, view (RemoteSide.write r j v).value k = if k = j then some v else view r k) (r : ρ)
    (writes : List (Field × Double)) (k : Field) : view (sendAll r writes) k = (lastWrite writes k).or (view r k) := by
  induction writes generalizing r with
  | nil => rfl
  | cons w rest ih =>
    obtain ⟨j, v⟩ := w
    have hlast : lastWrite ((j, v) :: rest) k = (lastWrite rest k).or (lastWrite [(j, v)] k) :=
      lastWrite_append [(j, v)] rest k
    have hview : view (RemoteSide.write r j v).value k = (lastWrite [(j, v)] k).or (view r k) := by
      rw [hwrite]
      by_cases hk : k = j
      · simp [lastWrite, hk]
      · have hkj : (k == j) = false := beq_eq_false_iff_ne.2 hk
        simp [lastWrite, List.lookup_cons, hk, hkj]
    rw [sendAll_cons, ih, hview, hlast, Option.or_assoc]

private theorem lookup_filterMap (ks : List Field) (f : Field → Option Double) (k : Field) :
    (ks.filterMap fun j => (f j).map fun v => (j, v)).lookup k = if k ∈ ks then f k else none := by
  induction ks with
  | nil => rfl
  | cons j rest ih =>
    by_cases hk : k = j
    · subst hk
      cases hf : f k with
      | none => simp [ih, hf]
      | some v => simp [hf]
    · have hkj : (k == j) = false := beq_eq_false_iff_ne.2 hk
      cases hf : f j with
      | none => simp [ih, hf, hk]
      | some v => simp [ih, hf, hk, hkj, List.lookup_cons]

/-! ### Settings and events -/

namespace Settings

variable {α : Type}

def after (s : Settings α) : PanelEvent → Settings α
  | .edited k value => s.edit k value
  | .arrived results => { s with waiting := s.waiting ++ results }
  | .reset => { s with cells := .ofFn fun k => (s.cells.get k).assignSynced k.default }
  | .toggled => s.toggleVisible
  | .digested => s.digest.1

def sends (s : Settings α) : PanelEvent → List (Field × Double)
  | .reset => Field.all.map fun k => (k, k.default)
  | .digested => s.digest.2.calls.map fun (_, k, change) => (k, change.new)
  | _ => []

/-- The settings of a panel: outside of the edited fields all is quiet, and each field has one watcher. -/
structure OfPanel (s : Settings Unit) : Prop where
  settled : s.Settled
  watched : ∀ k, s.watchers.labels k = [()]

/-- An edit gives a cell another value at most. -/
theorem kept_edit (s : Settings α) (j k : Field) (value : Option Double) :
    ((s.edit j value).cells.get k).hydrated = (s.cells.get k).hydrated ∧
      ((s.edit j value).cells.get k).baseline = (s.cells.get k).baseline := by
  rw [get_edit]
  split <;> exact ⟨rfl, rfl⟩

theorem get_after_reset (s : Settings α) (k : Field) :
    (s.after .reset).cells.get k = ⟨some k.default, some k.default, true⟩ := PerField.get_ofFn _ k

theorem quiet_after_reset (s : Settings α) (k : Field) : ((s.after .reset).cells.get k).Quiet := by
  rw [get_after_reset]
  exact Cell.quiet_assignSynced .new k.default

theorem OfPanel.after {s : Settings Unit} (h : s.OfPanel) (e : PanelEvent) : (s.after e).OfPanel := by
  cases e with
  | edited k value => exact ⟨h.settled.edit k value, h.watched⟩
  | arrived results => exact ⟨h.settled, h.watched⟩
  | reset => exact ⟨fun k _ => s.quiet_after_reset k, h.watched⟩
  | toggled => exact ⟨h.settled, h.watched⟩
  | digested => exact ⟨fun k _ => h.settled.quiet_digest k, h.watched⟩

theorem OfPanel.sends_eq_changes {s : Settings Unit} (h : s.OfPanel) :
    s.sends .digested = s.digest.2.changes.map fun (k, change) => (k, change.new) := by
  show (s.digest.2.changes.flatMap fun (k, change) => (s.watchers.labels k).map fun a => (a, k, change)).map
    (fun (_, k, change) => (k, change.new)) = _
  simp [h.watched, List.map_eq_flatMap, List.flatMap_assoc]

/-- The value of a field that a digest has to write. -/
def due (s : Settings α) (k : Field) : Option Double := (s.drained k).change?.map (·.new)

theorem OfPanel.sends_digested {s : Settings Unit} (h : s.OfPanel) :
    s.sends .digested = Field.all.filterMap fun k => (s.due k).map fun v => (k, v) := by
  rw [h.sends_eq_changes, h.settled.changes_digest, List.map_filterMap]
  simp only [due, Option.map_map]
  rfl

theorem OfPanel.mem_sends_digested {s : Settings Unit} (h : s.OfPanel) {k : Field} {v : Double} :
    (k, v) ∈ s.sends .digested ↔ s.due k = some v := by
  rw [h.sends_digested, List.mem_filterMap]
  constructor
  · rintro ⟨j, -, hj⟩
    obtain ⟨w, hw, heq⟩ := Option.map_eq_some_iff.1 hj
    cases heq
    exact hw
  · intro hk
    exact ⟨k, Field.mem_all k, by rw [hk]; rfl⟩

/-- A digest writes in the order of the fields, and no field twice. -/
theorem OfPanel.sublist_sends_digested {s : Settings Unit} (h : s.OfPanel) :
    ((s.sends .digested).map Prod.fst).Sublist Field.all := by
  rw [h.sends_digested, List.map_filterMap]
  generalize Field.all = ks
  induction ks with
  | nil => exact .slnil
  | cons k rest ih =>
    cases hdue : s.due k with
    | none => simpa [hdue] using ih.cons k
    | some v => simpa [hdue] using ih.cons_cons k

theorem OfPanel.nodup_sends_digested {s : Settings Unit} (h : s.OfPanel) :
    ((s.sends .digested).map Prod.fst).Nodup := Field.all_nodup.sublist h.sublist_sends_digested

/-- A value is due only if the cell had something to report before the results arrived. -/
theorem change_of_due {s : Settings α} {k : Field} {v : Double} (h : s.due k = some v) :
    ∃ old, (s.cells.get k).change? = some ⟨old, v⟩ := by
  obtain ⟨⟨old, new⟩, hc, rfl⟩ := Option.map_eq_some_iff.1 h
  cases hh : (s.cells.get k).hydrated with
  | true =>
    rw [drained_of_hydrated hh] at hc
    exact ⟨old, hc⟩
  | false =>
    have hq : (s.drained k).Quiet := quiet_drained (Cell.quiet_of_not_hydrated hh)
    rw [hq] at hc
    cases hc

/-! ### What both sides agree on -/

private theorem lastWrite_reset (s : Settings α) (k : Field) : lastWrite (s.sends .reset) k = some k.default := by
  cases k <;> rfl

private theorem OfPanel.lastWrite_digested {s : Settings Unit} (h : s.OfPanel) (k : Field) :
    lastWrite (s.sends .digested) k = s.due k := by
  rw [h.sends_digested, lastWrite, ← List.filterMap_reverse, lookup_filterMap]
  simp [Field.mem_all]

/-- What an event writes is what both sides agree on afterwards. -/
theorem OfPanel.agreed_of_sent {s : Settings Unit} (h : s.OfPanel) {e : PanelEvent} {k : Field} {w : Double}
    (hw : lastWrite (s.sends e) k = some w) :
    ((s.after e).cells.get k).hydrated = true ∧ ((s.after e).cells.get k).baseline = some w := by
  cases e with
  | reset =>
    rw [lastWrite_reset] at hw
    rw [get_after_reset]
    exact ⟨rfl, hw⟩
  | digested =>
    rw [h.lastWrite_digested] at hw
    obtain ⟨change, hc, rfl⟩ := Option.map_eq_some_iff.1 hw
    obtain ⟨hh, -, -, -⟩ := Cell.change?_eq_some_iff.1 hc
    show (s.digest.1.cells.get k).hydrated = true ∧ (s.digest.1.cells.get k).baseline = some change.new
    rw [h.settled.get_digest, Cell.observe_of_change hc]
    exact ⟨hh, rfl⟩
  | _ => cases hw

/-- An event that does not write a hydrated field leaves alone what both sides agreed on. -/
theorem OfPanel.agreed_of_not_sent {s : Settings Unit} (h : s.OfPanel) {e : PanelEvent} {k : Field}
    (hw : lastWrite (s.sends e) k = none) (hh : (s.cells.get k).hydrated = true) :
    ((s.after e).cells.get k).hydrated = true ∧
      ((s.after e).cells.get k).baseline = (s.cells.get k).baseline := by
  cases e with
  | edited j value => exact ⟨(s.kept_edit j k value).1.trans hh, (s.kept_edit j k value).2⟩
  | reset =>
    rw [lastWrite_reset] at hw
    cases hw
  | digested =>
    have hq : (s.drained k).Quiet := by
      rw [h.lastWrite_digested] at hw
      exact Option.map_eq_none_iff.1 hw
    show (s.digest.1.cells.get k).hydrated = true ∧ (s.digest.1.cells.get k).baseline = _
    rw [h.settled.get_digest, Cell.observe_of_quiet hq, drained_of_hydrated hh]
    exact ⟨hh, rfl⟩
  | _ => exact ⟨hh, rfl⟩

theorem OfPanel.not_hydrated_after {s : Settings Unit} (h : s.OfPanel) {e : PanelEvent} {k : Field}
    (hh : (s.after e).isHydrated k = false) : s.isHydrated k = false ∧ lastWrite (s.sends e) k = none := by
  cases hw : lastWrite (s.sends e) k with
  | some w =>
    have hsent := (h.agreed_of_sent hw).1
    exact absurd (hh.symm.trans hsent) (by decide)
  | none =>
    refine ⟨?_, rfl⟩
    cases hb : s.isHydrated k with
    | false => rfl
    | true =>
      have hkept := (h.agreed_of_not_sent hw hb).1
      exact absurd (hh.symm.trans hkept) (by decide)

/-- A field that becomes hydrated without a write takes over a waiting result. -/
theorem OfPanel.hydrated_by_result {s : Settings Unit} (h : s.OfPanel) {e : PanelEvent} {k : Field}
    (hw : lastWrite (s.sends e) k = none) (hb : s.isHydrated k = false) (ha : (s.after e).isHydrated k = true) :
    (k, ((s.after e).cells.get k).baseline) ∈ s.waiting := by
  have hb' : (s.cells.get k).hydrated = false := hb
  cases e with
  | edited j value =>
    have ha' : (s.cells.get k).hydrated = true := (s.kept_edit j k value).1.symm.trans ha
    exact absurd (hb'.symm.trans ha') (by decide)
  | reset =>
    rw [lastWrite_reset] at hw
    cases hw
  | digested =>
    have ha' : (s.digest.1.cells.get k).hydrated = true := ha
    show (k, (s.digest.1.cells.get k).baseline) ∈ s.waiting
    rw [h.settled.get_digest] at ha' ⊢
    rw [Cell.observe_of_quiet (quiet_drained (Cell.quiet_of_not_hydrated hb'))] at ha' ⊢
    unfold drained at ha' ⊢
    cases hlook : s.waiting.lookup k with
    | none =>
      rw [hlook] at ha'
      exact absurd (hb'.symm.trans ha') (by decide)
    | some value =>
      obtain ⟨front, back, hwaiting, -⟩ := List.lookup_eq_some_iff.1 hlook
      show (k, ((s.cells.get k).hydrate value).baseline) ∈ s.waiting
      rw [Cell.hydrate_of_not_hydrated hb', hwaiting]
      simp
  | _ => exact absurd (hb.symm.trans ha) (by decide)

theorem mem_waiting_after {s : Settings α} {e : PanelEvent} {result : Field × Option Double}
    (h : result ∈ (s.after e).waiting) :
    result ∈ s.waiting ∨ ∃ results, e = .arrived results ∧ result ∈ results := by
  cases e with
  | arrived results =>
    rcases List.mem_append.1 h with h | h
    · exact Or.inl h
    · exact Or.inr ⟨results, rfl, h⟩
  | digested => cases h
  | _ => exact Or.inl h

end Settings

/-! ### The operations of a panel -/

namespace Component

variable {ρ : Type} [RemoteSide ρ]

theorem settings_new (mount : Nat) (visible : Bool) :
    (Component.new mount visible).settings =
      { (Settings.new visible : Settings Unit) with watchers := ⟨Field.all.map fun k => ⟨1, some (k, ())⟩, []⟩ } := by
  simp [Component.new, Field.all, Settings.watch, Settings.new, Watchers.empty, Watchers.watch, Watchers.add,
    Watchers.size, Watchers.toList, Watchers.capacity]

theorem ofPanel_new (mount : Nat) (visible : Bool) : (Component.new mount visible).settings.OfPanel := by
  rw [settings_new]
  constructor
  · exact Settings.settled_new (α := Unit) visible
  · intro k
    cases k <;> rfl

theorem isHydrated_new (mount : Nat) (visible : Bool) (k : Field) :
    (Component.new mount visible).settings.isHydrated k = false := by
  cases k <;> rfl

private theorem valueOf_value (k : Field) (a : Answer) : (valueOf k a).value = Answer.value a := by
  cases a <;> rfl

private theorem take_value (c : Component) (f : FinishedRead) :
    (c.take f).value = { c with settings := c.settings.after (.arrived (arrivals c.mount [f])) } := by
  unfold take arrivals
  rw [Logged.value_bind, valueOf_value]
  by_cases h : c.mount = f.mount
  · simp [h, Settings.after, Settings.enqueue]
  · simp [h, Settings.after]

theorem takeAll_value (c : Component) (finished : List FinishedRead) :
    (c.takeAll finished).value = { c with settings := c.settings.after (.arrived (arrivals c.mount finished)) } := by
  induction finished generalizing c with
  | nil => simp [takeAll, arrivals, Settings.after]
  | cons f rest ih =>
    rw [takeAll, Logged.value_bind, ih, take_value]
    simp [arrivals, Settings.after, List.filter_cons]
    split <;> simp

private theorem writeCalls_value (calls : List (Unit × Field × Change .double)) (r : ρ) :
    (writeCalls calls r).value = sendAll r (calls.map fun (_, k, change) => (k, change.new)) := by
  induction calls generalizing r with
  | nil => rfl
  | cons call rest ih => exact ih _

theorem digest_value (c : Component) (r : ρ) :
    (c.digest r).value = ({ c with settings := c.settings.after .digested }, sendAll r (c.settings.sends .digested),
      c.settings.digest.2.changes.length) := by
  unfold digest
  simp only [Logged.value_bind, Logged.value_pure, writeCalls_value]
  rfl

end Component

end CameraPanel
