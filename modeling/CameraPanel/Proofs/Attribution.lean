import CameraPanel.Proofs.WriteTrace
import Mathlib.Data.List.Induction
import Mathlib.Tactic.Choose

/-!
# Where the writes of a digest come from

A digest writes a field only because somebody edited it: the value it writes is that of the latest edit of the field,
and that edit came after the field was hydrated and after the last digest and the last reset.  The invariant behind this
(`Accounted`) keeps, for each cell that has something to report, the edit that is the reason, and for each field that
was written the value that was written last, which is the baseline.
-/

namespace CameraPanel

/-! ### Changes and events -/

/-- Whether an event leaves the reason of a change of a field alone: neither an edit of it, nor a reset or a digest. -/
def PanelEvent.spares (k : Field) : PanelEvent → Bool
  | .edited j _ => j ≠ k
  | .arrived _ => true
  | .reset => false
  | .toggled => true
  | .digested => false

/-- A cell has something to report because of the event, or it had it before and the event spared it. -/
theorem Settings.OfPanel.change_after {s : Settings Unit} (h : s.OfPanel) {e : PanelEvent} {k : Field}
    {change : Change .double} (hc : ((s.after e).cells.get k).change? = some change) :
    (e = .edited k (some change.new) ∧ s.isHydrated k = true) ∨
      ((s.cells.get k).change? = some change ∧ e.spares k = true) := by
  have hloud : ¬ ((s.after e).cells.get k).Quiet := by
    intro hq
    rw [hq] at hc
    cases hc
  cases e with
  | edited j value =>
    rw [Settings.after, Settings.get_edit] at hc
    by_cases hk : k = j
    · subst hk
      rw [if_pos rfl] at hc
      obtain ⟨hh, hv, -, -⟩ := Cell.change?_eq_some_iff.1 hc
      left
      exact ⟨by rw [show value = some change.new from hv], hh⟩
    · right
      rw [if_neg hk] at hc
      exact ⟨hc, by simpa [PanelEvent.spares] using Ne.symm hk⟩
  | arrived results => exact Or.inr ⟨hc, rfl⟩
  | reset => exact absurd (s.quiet_after_reset k) hloud
  | toggled => exact Or.inr ⟨hc, rfl⟩
  | digested => exact absurd (h.settled.quiet_digest k) hloud

namespace Session

variable {ρ ε : Type}

/-! ### Steps and reasons -/

/-- Whether a step edits a field, resets, or digests. -/
def Step.touches (k : Field) : Step ε → Bool
  | .edit j _ => j = k
  | .reset => true
  | .digest => true
  | _ => false

/-- Whether a step sets a field to a value, or resets. -/
def Step.sets : Step ε → Bool
  | .edit _ value => value.isSome
  | .reset => true
  | _ => false

private theorem spares_event (s : Session ρ) (st : Step ε) (k : Field) : (s.event st).spares k = !st.touches k := by
  cases st <;> simp [event, PanelEvent.spares, Step.touches]

def isHydrated (s : Session ρ) (k : Field) : Bool := s.component.any fun c => c.settings.isHydrated k

variable [RemoteSide ρ] (act : ε → ρ → ρ × List (Delivery Answer))

/-- The latest edit of a hydrated field set it to `v`, and no reset or digest came after it. -/
def Pending (s : Session ρ) (steps : List (Step ε)) (k : Field) (v : Double) : Prop :=
  ∃ before since, steps = before ++ .edit k (some v) :: since ∧ (s.play act before).isHydrated k = true ∧
    ∀ st ∈ since, st.touches k = false

/-- The panel can account for what it has to report and for what it has written. -/
structure Accounted (s : Session ρ) (steps : List (Step ε)) (settings : Settings Unit) : Prop where
  changes : ∀ k change, (settings.cells.get k).change? = some change → Pending act s steps k change.new
  writes : ∀ k w, lastWrite (s.written act steps) k = some w →
    (settings.cells.get k).hydrated = true ∧ (settings.cells.get k).baseline = some w

private theorem accounted_nil (r : ρ) (visible : Bool) :
    Accounted act (Session.new r visible) ([] : List (Step ε)) (Component.new 0 visible).settings := by
  constructor
  · intro k change hc
    have hq : ((Component.new 0 visible).settings.cells.get k).Quiet := by
      show ((PerField.fill Cell.new).get k).Quiet
      rw [PerField.get_fill]
      exact Cell.quiet_new
    rw [hq] at hc
    cases hc
  · intro k w hw
    cases hw

private theorem Accounted.step {s : Session ρ} (hs : s.Mounted) {steps : List (Step ε)} {c : Component} {r : ρ}
    {p : Pool} {mounts : Nat} (hplay : s.play act steps = linked (some c) r p mounts) (hc : c.settings.OfPanel)
    (h : Accounted act s steps c.settings) (st : Step ε) :
    Accounted act s (steps ++ [st]) (c.settings.after ((linked (some c) r p mounts).event st)) := by
  constructor
  · intro k change hchange
    rcases hc.change_after hchange with ⟨he, hh⟩ | ⟨hbefore, hspared⟩
    · -- This step is the reason.
      cases st <;> simp only [event, reduceCtorEq, PanelEvent.edited.injEq] at he
      obtain ⟨rfl, rfl⟩ := he
      refine ⟨steps, [], rfl, ?_, by simp⟩
      rw [hplay]
      exact hh
    · obtain ⟨before, since, rfl, hh, hsince⟩ := h.changes k change hbefore
      refine ⟨before, since ++ [st], by simp, hh, ?_⟩
      intro st' hst'
      rcases List.mem_append.1 hst' with hst' | hst'
      · exact hsince st' hst'
      · rw [List.mem_singleton.1 hst']
        simpa [spares_event] using hspared
  · intro k w hw
    rw [hs.written_append, hplay, written_step act c hc, lastWrite_append] at hw
    cases hsent : lastWrite (c.settings.sends ((linked (some c) r p mounts).event st)) k with
    | some w' =>
      rw [hsent] at hw
      cases hw
      exact hc.agreed_of_sent hsent
    | none =>
      rw [hsent, Option.none_or] at hw
      obtain ⟨hh, hb⟩ := h.writes k w hw
      rw [← hb]
      exact hc.agreed_of_not_sent hsent hh

theorem accounted_play (r : ρ) (visible : Bool) (steps : List (Step ε)) :
    ∃ c r' p mounts, (Session.new r visible).play act steps = linked (some c) r' p mounts ∧ c.settings.OfPanel ∧
      Accounted act (Session.new r visible) steps c.settings := by
  induction steps using List.reverseRecOn with
  | nil => exact ⟨.new 0 visible, r, .empty, 1, rfl, Component.ofPanel_new 0 visible, accounted_nil act r visible⟩
  | append_singleton steps st ih =>
    obtain ⟨c, r', p, mounts, hplay, hc, hacc⟩ := ih
    have hstep := step_linked act c r' p mounts st
    rw [← hplay, ← play_concat, hplay] at hstep
    exact ⟨_, _, _, mounts, hstep, hc.after _, hacc.step act (mounted_new r visible) hplay hc st⟩

/-! ### Digests and their causes -/

/-- The step in place `i` is a digest, and it writes a field. -/
def DigestWrites (s : Session ρ) (steps : List (Step ε)) (i : Nat) (k : Field) (v : Double) : Prop :=
  steps[i]? = some .digest ∧ (k, v) ∈ (s.play act (steps.take i)).written act [.digest]

/-- The step in place `j` sets a hydrated field to `v`, and from there to place `i` the field is not edited again and
there is no reset and no digest. -/
structure Causes (s : Session ρ) (steps : List (Step ε)) (i : Nat) (k : Field) (v : Double) (j : Nat) : Prop where
  earlier : j < i
  edit : steps[j]? = some (.edit k (some v))
  hydrated : (s.play act (steps.take j)).isHydrated k = true
  latest : ∀ l st, j < l → l < i → steps[l]? = some st → st.touches k = false

private theorem DigestWrites.due {r : ρ} {visible : Bool} {steps : List (Step ε)} {i : Nat} {k : Field} {v : Double}
    (h : DigestWrites act (Session.new r visible) steps i k v) :
    ∃ c : Component, c.settings.due k = some v ∧ c.settings.OfPanel ∧
      Accounted act (Session.new r visible) (steps.take i) c.settings := by
  obtain ⟨c, r', p, mounts, hplay, hc, hacc⟩ := accounted_play act r visible (steps.take i)
  have hsent := h.2
  rw [hplay, written_step act c hc] at hsent
  exact ⟨c, hc.mem_sends_digested.1 hsent, hc, hacc⟩

private theorem DigestWrites.causes {r : ρ} {visible : Bool} {steps : List (Step ε)} {i : Nat} {k : Field} {v : Double}
    (h : DigestWrites act (Session.new r visible) steps i k v) :
    ∃ j, Causes act (Session.new r visible) steps i k v j := by
  obtain ⟨c, hdue, -, hacc⟩ := h.due
  obtain ⟨old, hchange⟩ := Settings.change_of_due hdue
  obtain ⟨before, since, hsteps, hh, hsince⟩ := hacc.changes k _ hchange
  have hi : i < steps.length := (List.getElem?_eq_some_iff.1 h.1).1
  have hlen : before.length + (since.length + 1) = i := by
    have := congrArg List.length hsteps
    simp only [List.length_take, List.length_append, List.length_cons] at this
    omega
  have hat : ∀ l, l < i → steps[l]? = (before ++ .edit k (some v) :: since)[l]? := by
    intro l hl
    rw [← hsteps, List.getElem?_take_of_lt hl]
  refine ⟨before.length, by omega, ?_, ?_, ?_⟩
  · rw [hat _ (by omega)]
    simp
  · have hbefore : steps.take before.length = before := by
      have := congrArg (List.take before.length) hsteps
      rw [List.take_take, Nat.min_eq_left (by omega), List.take_left' rfl] at this
      exact this
    rw [hbefore]
    exact hh
  · intro l st hl hli hst
    rw [hat l hli, List.getElem?_append_right (by omega)] at hst
    obtain ⟨n, hn⟩ : ∃ n, l - before.length = n + 1 := ⟨l - before.length - 1, by omega⟩
    rw [hn, List.getElem?_cons_succ] at hst
    exact hsince st (List.mem_of_getElem? hst)

private theorem DigestWrites.unique {r : ρ} {visible : Bool} {steps : List (Step ε)} {i : Nat} {k : Field}
    {v w : Double} (hv : DigestWrites act (Session.new r visible) steps i k v)
    (hw : DigestWrites act (Session.new r visible) steps i k w) : v = w := by
  obtain ⟨c, r', p, mounts, hplay, hc, -⟩ := accounted_play act r visible (steps.take i)
  have hv' := hv.2
  have hw' := hw.2
  rw [hplay, written_step act c hc] at hv' hw'
  exact Option.some.inj ((hc.mem_sends_digested.1 hv').symm.trans (hc.mem_sends_digested.1 hw'))

/-- One edit causes at most one write. -/
private theorem Causes.unique {s : Session ρ} {steps : List (Step ε)} {i i' j : Nat} {k k' : Field} {v v' : Double}
    (h : Causes act s steps i k v j) (h' : Causes act s steps i' k' v' j) (hi : steps[i]? = some .digest)
    (hi' : steps[i']? = some .digest) : i = i' ∧ k = k' ∧ v = v' := by
  have heq := Option.some.inj (h.edit.symm.trans h'.edit)
  simp only [Step.edit.injEq, Option.some.injEq] at heq
  refine ⟨?_, heq⟩
  -- The earlier digest would lie between the edit and the later one.
  rcases Nat.lt_trichotomy i i' with hlt | rfl | hlt
  · cases h'.latest i _ h.earlier hlt hi
  · rfl
  · cases h.latest i' _ h'.earlier hlt hi'

private theorem DigestWrites.not_same {r : ρ} {visible : Bool} {steps : List (Step ε)} {i : Nat} {k : Field}
    {v w : Double} (h : DigestWrites act (Session.new r visible) steps i k v)
    (hw : lastWrite ((Session.new r visible).written act (steps.take i)) k = some w) : w.same v = false := by
  obtain ⟨c, hdue, -, hacc⟩ := h.due
  obtain ⟨old, hchange⟩ := Settings.change_of_due hdue
  obtain ⟨-, hb⟩ := hacc.writes k w hw
  obtain ⟨-, -, hold, hdiffers⟩ := Cell.change?_eq_some_iff.1 hchange
  have : old = some w := hold.symm.trans hb
  rw [this] at hdiffers
  exact hdiffers

/-- An edit that came before its field was hydrated is not written before the field is edited again. -/
private theorem not_digestWrites_of_not_hydrated {r : ρ} {visible : Bool} {steps : List (Step ε)} {i j : Nat}
    {k : Field} {value : Option Double} (hj : steps[j]? = some (.edit k value))
    (hh : ((Session.new r visible).play act (steps.take j)).isHydrated k = false) (hji : j < i)
    (hlast : ∀ l value', j < l → l < i → steps[l]? ≠ some (.edit k value')) (v : Double) :
    ¬ DigestWrites act (Session.new r visible) steps i k v := by
  intro h
  obtain ⟨j', hcause⟩ := h.causes
  rcases Nat.lt_trichotomy j j' with hlt | rfl | hlt
  · exact hlast j' _ hlt hcause.earlier hcause.edit
  · rw [hcause.hydrated] at hh
    cases hh
  · have := hcause.latest j _ hlt hji hj
    simp [Step.touches] at this

private theorem written_eq_nil {r : ρ} {visible : Bool} {steps : List (Step ε)} (h : ∀ st ∈ steps, st.sets = false) :
    (Session.new r visible).written act steps = [] := by
  induction steps using List.reverseRecOn with
  | nil => rfl
  | append_singleton steps st ih =>
    have hsteps : ∀ st' ∈ steps, st'.sets = false := fun st' hst' => h st' (by simp [hst'])
    obtain ⟨c, r', p, mounts, hplay, hc, hacc⟩ := accounted_play act r visible steps
    rw [(mounted_new r visible).written_append, ih hsteps, hplay, written_step act c hc, List.nil_append]
    cases st with
    | reset => cases h .reset (by simp)
    | digest =>
      rw [List.eq_nil_iff_forall_not_mem]
      rintro ⟨k, v⟩ hmem
      obtain ⟨old, hchange⟩ := Settings.change_of_due (hc.mem_sends_digested.1 hmem)
      obtain ⟨before, since, rfl, -, -⟩ := hacc.changes k _ hchange
      cases hsteps (.edit k (some v)) (by simp)
    | _ => rfl

/-- Every write of a digest has a cause of its own: the latest edit of the field, which set it to the written value when
it was hydrated, after the last reset and the last digest.  A digest writes no field twice and does not repeat the last
write of a field.  So nothing is written in a run without a set field and without a reset, and an edit that came before
its field was hydrated is not written. -/
theorem digest_writes_have_causes (r : ρ) (visible : Bool) (steps : List (Step ε)) :
    (∃ cause : Nat → Field → Nat,
      (∀ i k v, DigestWrites act (Session.new r visible) steps i k v →
        Causes act (Session.new r visible) steps i k v (cause i k)) ∧
      ∀ i k v i' k' v', DigestWrites act (Session.new r visible) steps i k v →
        DigestWrites act (Session.new r visible) steps i' k' v' → cause i k = cause i' k' →
          i = i' ∧ k = k' ∧ v = v') ∧
    (∀ i, ((((Session.new r visible).play act (steps.take i)).written act [.digest]).map Prod.fst).Nodup) ∧
    (∀ i k v w, DigestWrites act (Session.new r visible) steps i k v →
      lastWrite ((Session.new r visible).written act (steps.take i)) k = some w → w.same v = false) ∧
    ((∀ st ∈ steps, st.sets = false) → (Session.new r visible).written act steps = []) ∧
    ∀ i j k value, steps[j]? = some (.edit k value) →
      ((Session.new r visible).play act (steps.take j)).isHydrated k = false → j < i →
      (∀ l value', j < l → l < i → steps[l]? ≠ some (.edit k value')) →
      ∀ v, ¬ DigestWrites act (Session.new r visible) steps i k v := by
  refine ⟨?_, ?_, fun i k v w => DigestWrites.not_same act, written_eq_nil act,
    fun i j k value => not_digestWrites_of_not_hydrated act⟩
  · have hcause : ∀ i k, ∃ j, ∀ v, DigestWrites act (Session.new r visible) steps i k v →
        Causes act (Session.new r visible) steps i k v j := by
      intro i k
      by_cases h : ∃ v, DigestWrites act (Session.new r visible) steps i k v
      · obtain ⟨v, hv⟩ := h
        obtain ⟨j, hj⟩ := hv.causes
        refine ⟨j, fun w hw => ?_⟩
        rw [← hv.unique act hw]
        exact hj
      · exact ⟨0, fun v hv => absurd ⟨v, hv⟩ h⟩
    choose cause hcause using hcause
    refine ⟨cause, hcause, ?_⟩
    intro i k v i' k' v' h h' heq
    have hc := hcause i k v h
    have hc' := hcause i' k' v' h'
    rw [← heq] at hc'
    exact hc.unique act hc' h.1 h'.1
  · intro i
    obtain ⟨c, r', p, mounts, hplay, hc, -⟩ := accounted_play act r visible (steps.take i)
    rw [hplay, written_step act c hc]
    exact hc.nodup_sends_digested

end Session

end CameraPanel
