import CameraPanel.Proofs.Attribution

/-!
# What a reset leaves behind

After a reset every field is hydrated, so the results of reads no longer count, wherever they are: not answered yet, in
the pool, or waiting for a digest.  From then on a field holds what it was given last, by an edit or by a reset.  And
every cell is quiet, also where the set of edited fields still names an edit that the reset has undone; so nothing is
written before a field is set again.
-/

namespace CameraPanel

/-! ### Hydrated fields and events -/

/-- What an event gives to a hydrated field: an edit its value, a reset the default. -/
def PanelEvent.gives (k : Field) : PanelEvent → Option (Option Double)
  | .edited j value => if j = k then some value else none
  | .reset => some (some k.default)
  | _ => none

/-- Whether an event sets a field, or resets. -/
def PanelEvent.sets : PanelEvent → Bool
  | .edited _ value => value.isSome
  | .reset => true
  | _ => false

namespace Settings

theorem OfPanel.hydrated_after {s : Settings Unit} (h : s.OfPanel) (e : PanelEvent) {k : Field}
    (hk : s.isHydrated k = true) : (s.after e).isHydrated k = true := by
  cases ha : (s.after e).isHydrated k with
  | true => rfl
  | false =>
    have hb := (h.not_hydrated_after ha).1
    exact absurd (hb.symm.trans hk) (by decide)

/-- A hydrated field changes only when it is given something. -/
private theorem OfPanel.field_after {s : Settings Unit} (h : s.OfPanel) (e : PanelEvent) {k : Field}
    (hk : s.isHydrated k = true) : (s.after e).field k = (e.gives k).getD (s.field k) := by
  cases e with
  | edited j value =>
    show ((s.edit j value).cells.get k).current = _
    rw [get_edit]
    by_cases hj : j = k
    · simp [PanelEvent.gives, Cell.assign, hj]
    · simp [PanelEvent.gives, hj, Ne.symm hj, field]
  | reset =>
    show ((s.after .reset).cells.get k).current = _
    rw [get_after_reset]
    rfl
  | digested =>
    -- The results that waited for a hydrated field are dropped.
    show (s.digest.1.cells.get k).current = _
    rw [h.settled.get_digest, Cell.current_observe, drained_of_hydrated hk]
    rfl
  | _ => rfl

/-- A quiet cell stays quiet as long as nothing sets a field. -/
private theorem OfPanel.quiet_after {s : Settings Unit} (h : s.OfPanel) {e : PanelEvent} (he : e.sets = false)
    {k : Field} (hq : (s.cells.get k).Quiet) : ((s.after e).cells.get k).Quiet := by
  rcases hc : ((s.after e).cells.get k).change? with _ | change
  · exact hc
  · rcases h.change_after hc with ⟨rfl, -⟩ | ⟨hbefore, -⟩
    · cases he
    · rw [hq] at hbefore
      cases hbefore

/-- Quiet cells have nothing to write. -/
theorem OfPanel.sends_eq_nil {s : Settings Unit} (h : s.OfPanel) {e : PanelEvent} (he : e.sets = false)
    (hq : ∀ k, (s.cells.get k).Quiet) : s.sends e = [] := by
  cases e with
  | reset => cases he
  | digested =>
    rw [List.eq_nil_iff_forall_not_mem]
    rintro ⟨k, v⟩ hmem
    obtain ⟨old, hc⟩ := change_of_due (h.mem_sends_digested.1 hmem)
    rw [hq k] at hc
    cases hc
  | _ => rfl

end Settings

/-! ### Runs after a reset -/

namespace Session

variable {ρ ε : Type}

/-- The value that the mounted panel has for a field. -/
def field (s : Session ρ) (k : Field) : Option Double := s.component.bind fun c => c.settings.field k

/-- The six values of the mounted panel, if every field has one. -/
def snapshot? (s : Session ρ) : Option Offsets := s.component.bind fun c => c.settings.snapshot?

/-- What a step gives to a hydrated field: an edit its value, a reset the default. -/
def Step.gives (k : Field) : Step ε → Option (Option Double)
  | .edit j value => if j = k then some value else none
  | .reset => some (some k.default)
  | _ => none

/-- What the latest of some steps to give a field something gave it; the default if none did. -/
def lastGiven (k : Field) (steps : List (Step ε)) : Option Double :=
  (steps.reverse.findSome? (Step.gives k)).getD (some k.default)

private theorem gives_event (s : Session ρ) (st : Step ε) (k : Field) : (s.event st).gives k = st.gives k := by
  cases st <;> rfl

private theorem sets_event (s : Session ρ) (st : Step ε) : (s.event st).sets = st.sets := by
  cases st <;> rfl

private theorem lastGiven_concat (k : Field) (steps : List (Step ε)) (st : Step ε) :
    lastGiven k (steps ++ [st]) = (st.gives k).getD (lastGiven k steps) := by
  simp only [lastGiven, List.reverse_append, List.reverse_cons, List.reverse_nil, List.nil_append,
    List.singleton_append, List.findSome?_cons]
  cases st.gives k <;> rfl

variable [RemoteSide ρ] (act : ε → ρ → ρ × List (Delivery Answer))

/-- Every field of the panel is hydrated and holds what some steps gave it last. -/
structure Given (steps : List (Step ε)) (settings : Settings Unit) : Prop where
  ofPanel : settings.OfPanel
  hydrated : ∀ k, settings.isHydrated k = true
  field : ∀ k, settings.field k = lastGiven k steps

private theorem given_reset {c : Component} (h : c.settings.OfPanel) :
    Given ([] : List (Step ε)) (c.settings.after .reset) := by
  refine ⟨h.after .reset, ?_, ?_⟩
  · intro k
    rw [Settings.isHydrated, Settings.get_after_reset]
  · intro k
    rw [Settings.field, Settings.get_after_reset]
    rfl

omit [RemoteSide ρ] in
private theorem Given.step {steps : List (Step ε)} {settings : Settings Unit} (h : Given steps settings) (s : Session ρ)
    (st : Step ε) : Given (steps ++ [st]) (settings.after (s.event st)) := by
  refine ⟨h.ofPanel.after _, fun k => h.ofPanel.hydrated_after _ (h.hydrated k), ?_⟩
  intro k
  rw [h.ofPanel.field_after _ (h.hydrated k), gives_event, h.field, lastGiven_concat]

theorem given_play {s : Session ρ} (hs : s.Mounted) (steps : List (Step ε)) :
    ∃ c r p mounts, s.play act (.reset :: steps) = linked (some c) r p mounts ∧ Given steps c.settings := by
  induction steps using List.reverseRecOn with
  | nil =>
    obtain ⟨c, r, p, mounts, rfl, hc⟩ := hs
    exact ⟨_, _, _, mounts, step_linked act c r p mounts .reset, given_reset hc⟩
  | append_singleton steps st ih =>
    obtain ⟨c, r, p, mounts, hplay, hgiven⟩ := ih
    have hstep := step_linked act c r p mounts st
    rw [← hplay, ← play_concat, hplay] at hstep
    exact ⟨_, _, _, mounts, hstep, hgiven.step _ st⟩

/-- As long as nothing sets a field, a panel whose cells are quiet writes nothing. -/
private theorem written_of_quiet {c : Component} (hc : c.settings.OfPanel) (hq : ∀ k, (c.settings.cells.get k).Quiet)
    (r : ρ) (p : Pool) (mounts : Nat) {steps : List (Step ε)} (h : ∀ st ∈ steps, st.sets = false) :
    (linked (some c) r p mounts).written act steps = [] := by
  induction steps generalizing c r p with
  | nil => rfl
  | cons st rest ih =>
    have hst : ((linked (some c) r p mounts).event st).sets = false := by
      rw [sets_event]
      exact h st (by simp)
    have hmounted : (linked (some c) r p mounts).Mounted := ⟨c, r, p, mounts, rfl, hc⟩
    rw [← List.singleton_append, hmounted.written_append, written_step act c hc, hc.sends_eq_nil hst hq,
      play_cons, step_linked]
    exact ih (hc.after _) (fun k => hc.quiet_after hst (hq k)) _ _ fun st' hst' => h st' (by simp [hst'])

/-- Whenever a panel is reset, the six defaults are written in order and are the values of the panel; and whatever
happens from then on, each field holds what it was given last by an edit or a reset, never the result of a read, and
nothing is written before a field is set again. -/
theorem reset_outlives_reads (r : ρ) (visible : Bool) (before steps : List (Step ε)) :
    let s := (Session.new r visible).play act before
    s.written act [.reset] = Field.all.map (fun k => (k, k.default)) ∧
      (s.play act [.reset]).snapshot? = some Offsets.default ∧
      (∀ k, (s.play act (.reset :: steps)).field k = lastGiven k steps) ∧
      ((∀ st ∈ steps, st.sets = false) → (s.play act [.reset]).written act steps = []) := by
  intro s
  have hs : s.Mounted := (mounted_new r visible).play act before
  refine ⟨?_, ?_, ?_, ?_⟩
  · obtain ⟨c, r', p, mounts, heq, hc⟩ := hs
    rw [heq, written_step act c hc]
    rfl
  · obtain ⟨c, r', p, mounts, hplay, hgiven⟩ := given_play act hs []
    have hfield : ∀ k, c.settings.field k = some k.default := hgiven.field
    rw [hplay]
    simp [snapshot?, linked, Settings.snapshot?, hfield, PerField.ofFn, Field.default, PerField.get]
  · intro k
    obtain ⟨c, r', p, mounts, hplay, hgiven⟩ := given_play act hs steps
    rw [hplay]
    exact hgiven.field k
  · intro hsteps
    obtain ⟨c, r', p, mounts, heq, hc⟩ := hs
    rw [play_cons, play_nil, heq, step_linked]
    exact written_of_quiet act (hc.after .reset) c.settings.quiet_after_reset _ _ mounts hsteps

end Session

end CameraPanel
