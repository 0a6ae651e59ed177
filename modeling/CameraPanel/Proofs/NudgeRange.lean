import CameraPanel.Proofs.HostHistory
import CameraPanel.Proofs.Nudging

/-!
# Nudges out of range

A nudge counts the millionths of the moved value before it rounds, and this number may be out of range although the
moved value is not.  Then the result is infinite (`isFinite_nudged_iff`), and the next frame writes it
(`Host.nudge_writes_infinity_iff`).
-/

namespace CameraPanel

open Format Binary

/-- The moved value is in range, and so is its number of millionths. -/
def NudgeInRange (value : Double) (n : Int) (step : Double) : Prop :=
  (value + .ofInt n * step).isFinite = true ∧ |(value + .ofInt n * step).toRat| * 10 ^ 6 < overflow

/-! ### The parts of a nudge -/

private theorem magnitude_add_one_lt_overflow {rank : Nat} (h : rank < double.ranks) :
    double.magnitude rank + 1 < overflow := by
  have hlast : double.magnitude (double.ranks - 1) + 1 < (overflow : Nat) := by decide +kernel
  have hmono : double.magnitude rank ≤ double.magnitude (double.ranks - 1) :=
    double.magnitude_strictMono.monotone (by omega)
  linarith

private theorem isFinite_mul_nudgeGrid {x : Double} :
    (x * nudgeGrid).isFinite = true ↔ x.isFinite = true ∧ |x.toRat| * 10 ^ 6 < overflow := by
  obtain ⟨rank, h, hpos, heq, hmag⟩ := exists_nudgeGrid_eq
  have htoRat : (finite false rank h).toRat = 10 ^ 6 := hmag
  rw [heq]
  obtain _ | negative | ⟨negative, r, hr⟩ := x
  · exact ⟨fun hf => (Bool.false_ne_true hf).elim, fun hf => (Bool.false_ne_true hf.1).elim⟩
  · show (if (false || decide (rank = 0)) = true then nan else infinity _).isFinite = true ↔ _
    rw [Bool.false_or, decide_eq_false hpos.ne']
    exact ⟨fun hf => (Bool.false_ne_true hf).elim, fun hf => (Bool.false_ne_true hf.1).elim⟩
  · show (double.nearestMagnitude _ _).isFinite = true ↔ _
    rw [isFinite_nearestMagnitude, htoRat, abs_mul, abs_of_pos (by positivity : (0 : ℚ) < 10 ^ 6)]
    exact ⟨fun hf => ⟨rfl, hf⟩, fun hf => hf.2⟩

private theorem isFinite_roundWhole {x : Double} : x.roundWhole.isFinite = x.isFinite := by
  obtain _ | negative | ⟨negative, rank, h⟩ := x
  · rfl
  · rfl
  · show (double.nearestMagnitude negative (⌊double.magnitude rank + 1 / 2⌋ : Int)).isFinite = true
    have hnonneg := double.magnitude_nonneg rank
    have hfloor : 0 ≤ ⌊double.magnitude rank + 1 / 2⌋ := Int.floor_nonneg.2 (by linarith)
    have hle := Int.floor_le (double.magnitude rank + 1 / 2)
    have hlt := magnitude_add_one_lt_overflow h
    rw [isFinite_nearestMagnitude, abs_of_nonneg (by exact_mod_cast hfloor)]
    linarith

private theorem isFinite_div_nudgeGrid {x : Double} : (x / nudgeGrid).isFinite = x.isFinite := by
  obtain _ | negative | ⟨negative, rank, h⟩ := x
  · rfl
  · obtain ⟨rank, h, hpos, heq, -⟩ := exists_nudgeGrid_eq
    rw [heq]
    rfl
  · have hnonneg := double.magnitude_nonneg rank
    have hmono := double.rankOf_mono (by positivity) (div_le_self hnonneg (by norm_num : (1 : ℚ) ≤ 10 ^ 6))
    rw [rankOf_magnitude] at hmono
    rw [finite_div_nudgeGrid]
    exact (isFinite_ofRank_iff _).2 (hmono.trans_lt h)

private theorem isFinite_nudged_iff (value : Double) (n : Int) (step : Double) :
    (nudged value n step).isFinite = true ↔ NudgeInRange value n step := by
  rw [nudged, isFinite_div_nudgeGrid, isFinite_roundWhole, isFinite_mul_nudgeGrid]
  rfl

/-- If only the number of millionths is out of range, the result is infinite, with the sign of the moved value. -/
private theorem nudged_eq_infinity {value : Double} {n : Int} {step : Double}
    (hmoved : (value + .ofInt n * step).isFinite = true)
    (h : overflow ≤ |(value + .ofInt n * step).toRat| * 10 ^ 6) :
    nudged value n step = .infinity (value + .ofInt n * step).isNegative := by
  obtain ⟨rank, hrank, -, heq, hmag⟩ := exists_nudgeGrid_eq
  have htoRat : (finite false rank hrank).toRat = 10 ^ 6 := hmag
  unfold nudged
  generalize value + .ofInt n * step = x at hmoved h ⊢
  obtain _ | _ | ⟨negative, r, hr⟩ := x
  · cases hmoved
  · cases hmoved
  have hproduct : (finite negative r hr : Double) * nudgeGrid = .infinity negative := by
    rw [heq]
    show double.nearestMagnitude (negative != false) _ = _
    have hlt : ¬ double.rankOf ((finite negative r hr).toRat * (finite false rank hrank).toRat) < double.ranks := by
      rw [← rankOf_abs, rankOf_lt_ranks_iff (abs_nonneg _), htoRat, abs_mul,
        abs_of_pos (by positivity : (0 : ℚ) < 10 ^ 6)]
      exact not_lt.2 h
    rw [nearestMagnitude_eq, ofRank, dif_neg hlt, Bool.bne_false]
  rw [hproduct, heq]
  show infinity (negative != false) = _
  rw [Bool.bne_false]
  rfl

/-! ### The next frame -/

namespace Host

private theorem cells_beforeDigest {h : Host} {c : Component} {e : Engine} {p : Pool} {mounts : Nat}
    (hplay : h.session.play Engine.serve h.beforeDigest = .linked (some c) e p mounts) :
    c.settings.cells = h.component.settings.cells := by
  unfold beforeDigest at hplay
  split at hplay
  · rw [Session.play_cons, session, Session.step_linked, Session.play_cons, Session.step_linked, Session.play_nil]
      at hplay
    cases hplay
    rfl
  · rw [Session.play_cons, session, Session.step_linked, Session.play_nil] at hplay
    cases hplay
    rfl

/-- What a frame writes is what the cells have to report, and all of it for a hydrated field. -/
private theorem mem_written_update {h : Host} (hm : h.session.Mounted) {k : Field} {v : Double} :
    ((k, v) ∈ h.session.written Engine.serve (h.sessionSteps .update) →
      ∃ old, (h.component.settings.cells.get k).change? = some ⟨old, v⟩) ∧
    ∀ old, (h.component.settings.cells.get k).change? = some ⟨old, v⟩ →
      (k, v) ∈ h.session.written Engine.serve (h.sessionSteps .update) := by
  obtain ⟨c, e, p, mounts, hplay, hc⟩ := hm.play Engine.serve h.beforeDigest
  rw [sessionSteps, hm.written_append, written_beforeDigest hm, List.nil_append, hplay,
    Session.written_step Engine.serve c hc]
  show ((k, v) ∈ c.settings.sends .digested → _) ∧ ∀ old, _ → (k, v) ∈ c.settings.sends .digested
  rw [hc.mem_sends_digested, ← cells_beforeDigest hplay]
  refine ⟨Settings.change_of_due, fun old hchange => ?_⟩
  have hhydrated := (Cell.change?_eq_some_iff.1 hchange).1
  rw [Settings.due, Settings.drained_of_hydrated hhydrated, hchange]
  rfl

private theorem holdsReads_play (o : Options) (steps : List Step) : ((new o).value.play steps).engine.HoldsReads := by
  obtain ⟨blocks, -, htook, -⟩ := account_new o steps
  exact htook.held

/-- The history after a frame. -/
private theorem history_update {h : Host} (hm : h.session.Mounted) (hheld : h.engine.HoldsReads) :
    h.update.value.1.engine.history =
      h.engine.history ++ (h.session.written Engine.serve (h.sessionSteps .update)).map writeChunk := by
  obtain ⟨e, he, htook⟩ := Session.took_play hm rfl hheld (h.readAll_not_mem_sessionSteps .update)
  rw [← session_next] at he
  cases he
  exact htook.history

private theorem setBy?_of_mem_written {writes : List (Field × Double)} {k : Field} {chunk : String} {v : Double}
    (hchunk : chunk ∈ writes.map writeChunk) (hv : setBy? k.name chunk = some v) : (k, v) ∈ writes := by
  obtain ⟨⟨j, w⟩, hmem, rfl⟩ := List.mem_map.1 hchunk
  rw [setBy?_writeChunk] at hv
  split at hv
  · rename_i hk
    obtain rfl : k = j := beq_iff_eq.1 hk
    cases hv
    exact hmem
  · cases hv

/-- After a nudge the selected field has something to report if the result is not finite and all was quiet before. -/
private theorem change_of_nudge {h : Host} {value : Double} (hvalue : h.field h.selected = some value)
    (hfinite : value.isFinite = true) (hhydrated : h.component.settings.isHydrated h.selected = true)
    (hquiet : (h.component.settings.cells.get h.selected).Quiet) {n : Int}
    (hnudged : (nudged value n h.step).isFinite = false) :
    ∃ old, ((h.next (.apply (.nudge n))).1.component.settings.cells.get h.selected).change? =
      some ⟨old, nudged value n h.step⟩ := by
  have hbaseline := Cell.quiet_iff.1 hquiet value hhydrated hvalue
  have hcurrent := h.field_nudge n
  rw [hvalue] at hcurrent
  refine ⟨(h.component.settings.cells.get h.selected).baseline, Cell.change?_eq_some_iff.2 ⟨?_, hcurrent, ?_, ?_⟩⟩
  · exact (Settings.kept_edit _ _ _ _).1.trans hhydrated
  · exact (Settings.kept_edit _ _ _ _).2
  · generalize (h.component.settings.cells.get h.selected).baseline = baseline at hbaseline ⊢
    cases baseline with
    | none => rfl
    | some b =>
      by_contra hsame
      have hb := isFinite_of_same hbaseline
      rw [isFinite_of_same (by simpa [sameValue] using hsame), hfinite, hnudged] at hb
      cases hb

/-- A nudge leads to a finite number exactly if the moved value and its number of millionths are in range; in between
it leads to an infinity.  The next frame writes nothing else to the selected field than the result of the nudge.  If the
field had a finite value that both sides agreed on, the frame writes a number that is not finite exactly if the nudge is
out of range. -/
theorem nudge_writes_infinity_iff (o : Options) (steps : List Step) (n : Int) (value : Double) :
    let h := (new o).value.play steps
    let moved := value + .ofInt n * h.step
    ((nudged value n h.step).isFinite = true ↔ NudgeInRange value n h.step) ∧
    (moved.isFinite = true → overflow ≤ |moved.toRat| * 10 ^ 6 →
      nudged value n h.step = .infinity moved.isNegative) ∧
    (h.field h.selected = some value → ∃ chunks,
      (h.play [.apply (.nudge n), .update]).engine.history = h.engine.history ++ chunks ∧
      (∀ chunk ∈ chunks, ∀ v, setBy? h.selected.name chunk = some v → v = nudged value n h.step) ∧
      (value.isFinite = true → h.component.settings.isHydrated h.selected = true → steps.getLast? = some .update →
        ((∃ chunk ∈ chunks, ∃ v, setBy? h.selected.name chunk = some v ∧ v.isFinite = false) ↔
          ¬ NudgeInRange value n h.step))) := by
  intro h moved
  refine ⟨isFinite_nudged_iff value n h.step, nudged_eq_infinity, fun hvalue => ?_⟩
  have hm : h.session.Mounted := mounted_play (mounted_new o) steps
  have hm' := mounted_next hm (.apply (.nudge n))
  have hfield := h.field_nudge n
  rw [hvalue] at hfield
  have hsent : ∀ chunk ∈ ((h.next (.apply (.nudge n))).1.session.written Engine.serve
      ((h.next (.apply (.nudge n))).1.sessionSteps .update)).map writeChunk,
      ∀ v, setBy? h.selected.name chunk = some v → v = nudged value n h.step := by
    intro chunk hchunk v hv
    obtain ⟨old, hchange⟩ := (mem_written_update hm').1 (setBy?_of_mem_written hchunk hv)
    have hcurrent := (Cell.change?_eq_some_iff.1 hchange).2.1
    exact Option.some.inj (hcurrent.symm.trans hfield)
  refine ⟨_, history_update hm' (holdsReads_play o steps), hsent, fun hfinite hhydrated hlast => ?_⟩
  rw [← isFinite_nudged_iff]
  constructor
  · rintro ⟨chunk, hchunk, v, hv, hnot⟩ hnudged
    rw [hsent chunk hchunk v hv, hnudged] at hnot
    cases hnot
  · intro hnudged
    have hnudged' : (nudged value n h.step).isFinite = false := by simpa using hnudged
    have hquiet : (h.component.settings.cells.get h.selected).Quiet := by
      obtain ⟨before, rfl⟩ := List.getLast?_eq_some_iff.1 hlast
      have hupdate : h = ((new o).value.play before).update.value.1 := play_concat _ before .update
      rw [hupdate]
      exact quiet_update (mounted_play (mounted_new o) before) _
    obtain ⟨old, hchange⟩ := change_of_nudge hvalue hfinite hhydrated hquiet hnudged'
    refine ⟨_, List.mem_map_of_mem ((mem_written_update hm').2 old hchange), _, ?_, hnudged'⟩
    rw [setBy?_writeChunk, if_pos (beq_self_eq_true _)]

/-- A large number that stays in range when it is moved, but not in millionths. -/
def large : Double := double.nearest (10 ^ 303 : Nat)

/-- Options with a large seed for one field, and with replies that come at once. -/
def largeSeed : Options :=
  { bridge := { seed := PerField.set Offsets.default .posX large, replyDelayFrames := 0 } }

/-- One step of a nudge takes a large field to infinity, though the moved value is finite. -/
theorem large_seed_is_nudged_to_infinity :
    ((new largeSeed).value.play [.update]).field .posX = some large ∧ large.isFinite = true ∧
      (large + .ofInt 1 * largeSeed.panel.nudgeStep).isFinite = true ∧
      ((new largeSeed).value.play [.update, .apply (.nudge 1), .update]).engine.setting "camPosX" =
        some (.infinity false) := by
  decide +kernel

end Host

end CameraPanel
