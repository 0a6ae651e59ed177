import CameraPanel.Proofs.Steps
import Mathlib.Logic.Function.Basic

/-!
# The writes of a panel

A `Ledger` is the plainest account of a panel: for each field the local value and what both sides last agreed on, and
the results that wait.  It knows no set of edited fields, no watchers and no changes.  A digest writes, in the order of
the fields, each value that differs from what was agreed on; a reset writes the defaults; nothing else writes.

A `Recorder` around a remote side keeps the writes that reach it.  The main statement is that on every remote side, and
whatever it answers, the recorded run is the plain run together with the writes of the ledger.
-/

namespace CameraPanel

/-! ### The ledger -/

structure Ledger where
  /-- The local value of each field. -/
  value : Field → Option Double
  /-- What both sides last agreed on; `none` as long as they never did. -/
  agreed : Field → Option (Option Double)
  /-- The results of reads that wait for the next digest, oldest first. -/
  queue : List (Field × Option Double)

namespace Ledger

def start : Ledger := ⟨fun _ => none, fun _ => none, []⟩

/-- Takes over the result of a read, unless the sides agree on something already. -/
def settle (l : Ledger) (k : Field) (result : Option Double) : Ledger :=
  if (l.agreed k).isSome then l
  else { l with value := Function.update l.value k result, agreed := Function.update l.agreed k (some result) }

/-- Takes over the waiting results in order. -/
def drain (l : Ledger) : Ledger := { l.queue.foldl (fun l result => l.settle result.1 result.2) l with queue := [] }

/-- The local value of a field, if it differs from what was agreed on. -/
def due (l : Ledger) (k : Field) : Option Double :=
  match l.agreed k, l.value k with
  | some w, some v => if sameValue w (some v) then none else some v
  | _, _ => none

/-- The values that are due, in the order of the fields. -/
def dues (l : Ledger) : List (Field × Double) := Field.all.filterMap fun k => (l.due k).map fun v => (k, v)

/-- The sides agree on the values that were due. -/
def agree (l : Ledger) : Ledger := { l with agreed := fun k => (l.due k).elim (l.agreed k) fun v => some (some v) }

/-- The ledger after an event, and the writes of the event. -/
def step (l : Ledger) : PanelEvent → Ledger × List (Field × Double)
  | .edited k value => ({ l with value := Function.update l.value k value }, [])
  | .arrived results => ({ l with queue := l.queue ++ results }, [])
  | .reset =>
    ({ l with value := fun k => some k.default, agreed := fun k => some (some k.default) },
      Field.all.map fun k => (k, k.default))
  | .toggled => (l, [])
  | .digested => (l.drain.agree, l.drain.dues)

/-- The writes of some events. -/
def writes (l : Ledger) : List PanelEvent → List (Field × Double)
  | [] => []
  | e :: rest => (l.step e).2 ++ (l.step e).1.writes rest

/-! ### The ledger of some cells -/

def ofCells (cells : PerField (Cell .double)) (queue : List (Field × Option Double)) : Ledger where
  value k := (cells.get k).current
  agreed k := if (cells.get k).hydrated then some (cells.get k).baseline else none
  queue := queue

private theorem settle_ofCells (cells : PerField (Cell .double)) (queue : List (Field × Option Double)) (k : Field)
    (result : Option Double) :
    (ofCells cells queue).settle k result = ofCells (cells.set k ((cells.get k).hydrate result)) queue := by
  unfold settle
  cases hh : (cells.get k).hydrated with
  | true =>
    have hset : cells.set k (cells.get k) = cells := by
      apply PerField.ext_get
      intro j
      by_cases hj : j = k
      · subst hj
        rw [PerField.get_set_self]
      · rw [PerField.get_set_of_ne _ _ hj]
    rw [Cell.hydrate_of_hydrated hh, hset]
    simp [ofCells, hh]
  | false =>
    rw [Cell.hydrate_of_not_hydrated hh]
    simp only [ofCells, hh, Bool.false_eq_true, ↓reduceIte, Option.isSome_none, mk.injEq, and_true]
    constructor
    all_goals
      funext j
      by_cases hj : j = k
      · subst hj
        simp
      · simp [hj, PerField.get_set_of_ne]

private theorem drain_ofCells (cells : PerField (Cell .double)) (queue : List (Field × Option Double)) :
    (ofCells cells queue).drain = ofCells (Settings.applyReads cells queue).1 [] := by
  -- The queue of the ledger stays as it is while its results are taken over one after the other.
  have hfold : ∀ (results : List (Field × Option Double)) (cells : PerField (Cell .double)),
      results.foldl (fun l result => l.settle result.1 result.2) (ofCells cells queue) =
        ofCells (Settings.applyReads cells results).1 queue := by
    intro results
    induction results with
    | nil => exact fun _ => rfl
    | cons result rest ih =>
      intro cells
      rw [List.foldl_cons, settle_ofCells, ih]
      rfl
  show ({ queue.foldl _ (ofCells cells queue) with queue := [] } : Ledger) = _
  rw [hfold]
  rfl

private theorem due_ofCells (cells : PerField (Cell .double)) (queue : List (Field × Option Double)) (k : Field) :
    (ofCells cells queue).due k = (cells.get k).change?.map (·.new) := by
  simp only [due, ofCells, Cell.change?]
  generalize cells.get k = c
  obtain ⟨current, baseline, hydrated⟩ := c
  cases hydrated with
  | false => rfl
  | true =>
    cases current with
    | none => rfl
    | some v =>
      simp only [↓reduceIte]
      split <;> rfl

private theorem agree_ofCells (cells : PerField (Cell .double)) (queue : List (Field × Option Double)) :
    (ofCells cells queue).agree = ofCells (cells.map Cell.observe) queue := by
  have hvalue : (ofCells cells queue).value = (ofCells (cells.map Cell.observe) queue).value := by
    funext k
    simp [ofCells]
  have hagreed : (ofCells cells queue).agree.agreed = (ofCells (cells.map Cell.observe) queue).agreed := by
    funext k
    show ((ofCells cells queue).due k).elim _ _ = _
    rw [due_ofCells]
    rcases hc : (cells.get k).change? with _ | change
    · simp [ofCells, Cell.observe_of_quiet hc]
    · obtain ⟨hh, -, -, -⟩ := Cell.change?_eq_some_iff.1 hc
      simp [ofCells, Cell.observe_of_change hc, hh]
  show Ledger.mk _ (ofCells cells queue).agree.agreed _ = _
  rw [hagreed, hvalue]
  rfl

end Ledger

namespace Settings

variable {α : Type}

def ledger (s : Settings α) : Ledger := .ofCells s.cells s.waiting

private theorem ledger_new (visible : Bool) : (new visible : Settings α).ledger = .start := by
  simp [ledger, Ledger.ofCells, Ledger.start, new, Cell.new]

/-- The ledger follows the settings of a panel: it goes through the same accounts and writes the same. -/
private theorem OfPanel.ledger_step {s : Settings Unit} (h : s.OfPanel) (e : PanelEvent) :
    s.ledger.step e = ((s.after e).ledger, s.sends e) := by
  cases e with
  | edited k value =>
    have hvalue : Function.update s.ledger.value k value = (s.edit k value).ledger.value := by
      funext j
      by_cases hj : j = k
      · simp [hj, ledger, Ledger.ofCells, get_edit, Cell.assign]
      · simp [hj, ledger, Ledger.ofCells, get_edit]
    have hagreed : s.ledger.agreed = (s.edit k value).ledger.agreed := by
      funext j
      simp only [ledger, Ledger.ofCells, (s.kept_edit k j value).1, (s.kept_edit k j value).2]
    show (Ledger.mk (Function.update s.ledger.value k value) s.ledger.agreed s.waiting, []) = _
    rw [hvalue, hagreed]
    rfl
  | arrived results => rfl
  | reset => simp [Ledger.step, Settings.after, sends, ledger, Ledger.ofCells, Cell.assignSynced]
  | toggled => rfl
  | digested =>
    have hdrain : s.ledger.drain = .ofCells (applyReads s.cells s.waiting).1 [] := Ledger.drain_ofCells _ _
    have hledger : s.ledger.drain.agree = s.digest.1.ledger := by
      rw [hdrain, Ledger.agree_ofCells, h.settled.digest_eq]
      rfl
    have hdues : s.ledger.drain.dues = s.sends .digested := by
      rw [hdrain, h.sends_digested]
      simp only [Ledger.dues, Ledger.due_ofCells, get_applyReads, due, drained]
    exact Prod.ext hledger hdues

end Settings

/-! ### Recorded runs -/

/-- A remote side with a record of the writes that reach it. -/
structure Recorder (ρ : Type) where
  side : ρ
  /-- The writes so far, oldest first. -/
  writes : List (Field × Double)

namespace Recorder

variable {ρ ε : Type} [RemoteSide ρ]

instance : RemoteSide (Recorder ρ) where
  read r k := do
    let (side, reading) ← RemoteSide.read r.side k
    return ({ r with side }, reading)
  write r k v := do
    let side ← RemoteSide.write r.side k v
    return ⟨side, r.writes ++ [(k, v)]⟩
  outstanding r := RemoteSide.outstanding r.side

/-- What the remote side does on its own is not recorded. -/
def act (act : ε → ρ → ρ × List (Delivery Answer)) (e : ε) (r : Recorder ρ) : Recorder ρ × List (Delivery Answer) :=
  ({ r with side := (act e r.side).1 }, (act e r.side).2)

private theorem sendAll_mk (r : ρ) (ws writes : List (Field × Double)) :
    sendAll (Recorder.mk r ws) writes = ⟨sendAll r writes, ws ++ writes⟩ := by
  induction writes generalizing r ws with
  | nil => simp [sendAll]
  | cons w rest ih =>
    show sendAll (Recorder.mk (RemoteSide.write r w.1 w.2).value (ws ++ [w])) rest = _
    rw [ih, List.append_assoc]
    rfl

private theorem startReads_mk (c : Component) (ks : List Field) (r : ρ) (ws : List (Field × Double)) (p : Pool) :
    (c.startReads ks (Recorder.mk r ws) p).value =
      (⟨(c.startReads ks r p).value.1, ws⟩, (c.startReads ks r p).value.2) := by
  induction ks generalizing r p with
  | nil => rfl
  | cons k rest ih => exact ih _ _

private theorem readAll_mk (c : Component) (r : ρ) (ws : List (Field × Double)) (p : Pool) :
    (c.readAll (Recorder.mk r ws) p).value = (⟨(c.readAll r p).value.1, ws⟩, (c.readAll r p).value.2) :=
  startReads_mk c Field.all r ws p

end Recorder

namespace Session

variable {ρ ε : Type} [RemoteSide ρ] (act : ε → ρ → ρ × List (Delivery Answer))

def recording (s : Session ρ) (writes : List (Field × Double)) : Session (Recorder ρ) :=
  { s with remote := s.remote.map fun r => ⟨r, writes⟩ }

/-- The writes that some steps send to the remote side. -/
def written (s : Session ρ) (steps : List (Step ε)) : List (Field × Double) :=
  ((s.recording []).play (Recorder.act act) steps).remote.elim [] (·.writes)

private theorem step_recording (c : Component) (r : ρ) (p : Pool) (mounts : Nat) (ws : List (Field × Double))
    (st : Step ε) :
    ((linked (some c) r p mounts).recording ws).step (Recorder.act act) st =
      ((linked (some c) r p mounts).step act st).recording
        (ws ++ c.settings.sends ((linked (some c) r p mounts).event st)) := by
  cases st with
  | readAll =>
    show linked (some c) (c.readAll (Recorder.mk r ws) p).value.1 (c.readAll (Recorder.mk r ws) p).value.2 mounts =
      (linked (some c) (c.readAll r p).value.1 (c.readAll r p).value.2 mounts).recording (ws ++ [])
    rw [Recorder.readAll_mk, List.append_nil]
    rfl
  | reset =>
    show linked (some _) (sendAll (Recorder.mk r ws) (c.settings.sends .reset)) p mounts = _
    rw [Recorder.sendAll_mk]
    rfl
  | digest =>
    show linked (some (c.digest (Recorder.mk r ws)).value.1) (c.digest (Recorder.mk r ws)).value.2.1 p mounts =
      (linked (some (c.digest r).value.1) (c.digest r).value.2.1 p mounts).recording _
    rw [Component.digest_value, Component.digest_value, Recorder.sendAll_mk]
    rfl
  | _ =>
    simp only [event, Settings.sends, List.append_nil]
    rfl

private theorem play_recording (c : Component) (h : c.settings.OfPanel) (r : ρ) (p : Pool) (mounts : Nat)
    (ws : List (Field × Double)) (steps : List (Step ε)) :
    ((linked (some c) r p mounts).recording ws).play (Recorder.act act) steps =
      ((linked (some c) r p mounts).play act steps).recording
        (ws ++ c.settings.ledger.writes ((linked (some c) r p mounts).events act steps)) := by
  induction steps generalizing c r p ws with
  | nil => simp [events, Ledger.writes]
  | cons st rest ih =>
    rw [play_cons, step_recording, play_cons, events, Ledger.writes, h.ledger_step, step_linked, ih _ (h.after _),
      List.append_assoc]

theorem written_linked (c : Component) (h : c.settings.OfPanel) (r : ρ) (p : Pool) (mounts : Nat)
    (steps : List (Step ε)) :
    (linked (some c) r p mounts).written act steps =
      c.settings.ledger.writes ((linked (some c) r p mounts).events act steps) := by
  obtain ⟨c', r', p', mounts', hplay, -⟩ := Mounted.play act ⟨c, r, p, mounts, rfl, h⟩ steps
  rw [written, play_recording act c h, hplay]
  rfl

theorem written_step (c : Component) (h : c.settings.OfPanel) (r : ρ) (p : Pool) (mounts : Nat) (st : Step ε) :
    (linked (some c) r p mounts).written act [st] = c.settings.sends ((linked (some c) r p mounts).event st) := by
  rw [written_linked act c h, events, events, Ledger.writes, Ledger.writes, h.ledger_step, List.append_nil]

private theorem Mounted.recording_play {s : Session ρ} (h : s.Mounted) (ws : List (Field × Double))
    (steps : List (Step ε)) :
    (s.recording ws).play (Recorder.act act) steps = (s.play act steps).recording (ws ++ s.written act steps) := by
  obtain ⟨c, r, p, mounts, rfl, hc⟩ := h
  rw [written_linked act c hc, play_recording act c hc]

theorem Mounted.written_append {s : Session ρ} (h : s.Mounted) (steps later : List (Step ε)) :
    s.written act (steps ++ later) = s.written act steps ++ (s.play act steps).written act later := by
  obtain ⟨c, r, p, mounts, hplay, -⟩ := (h.play act steps).play act later
  rw [written, play_append, h.recording_play, (h.play act steps).recording_play, List.nil_append, hplay]
  rfl

theorem Mounted.digest_result {s : Session ρ} (h : s.Mounted) :
    s.digest.value.2 = some (s.written act [.digest]).length := by
  obtain ⟨c, r, p, mounts, rfl, hc⟩ := h
  show some (c.digest r).value.2.2 = _
  rw [written_step act c hc, Component.digest_value]
  show some c.settings.digest.2.changes.length = some (c.settings.sends .digested).length
  rw [hc.sends_eq_changes, List.length_map]

/-- On every remote side, whatever it answers and whenever: the recorded run of a panel is the plain run, and the record
holds exactly the writes of the ledger.  Each digest tells the number of its writes. -/
theorem recorded_writes_eq_ledger (r : ρ) (visible : Bool) (steps : List (Step ε)) :
    ((Session.new r visible).recording []).play (Recorder.act act) steps =
        ((Session.new r visible).play act steps).recording
          (Ledger.start.writes ((Session.new r visible).events act steps)) ∧
      ((Session.new r visible).play act steps).digest.value.2 =
        some (((Session.new r visible).play act steps).written act [.digest]).length := by
  have hstart : (Component.new 0 visible).settings.ledger = .start := by
    rw [Component.settings_new]
    exact Settings.ledger_new (α := Unit) visible
  constructor
  · rw [← hstart]
    exact play_recording act (.new 0 visible) (Component.ofPanel_new 0 visible) r .empty 1 [] steps
  · exact ((mounted_new r visible).play act steps).digest_result act

end Session

end CameraPanel
