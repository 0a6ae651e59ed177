import CameraPanel.Proofs.Reset

/-!
# Each field on its own

The six fields share one list of waiting results, one set of edited fields and one list of watchers.  Still each field
goes its own way.  A `Lane` is all that the settings keep for one field, with steps of its own; what a step of the
settings does to the lane of a field depends only on what the step means for that field (`Step.about`), and so do the
changes that a digest finds there.  So two runs in which the same happens to a field leave it in the same state, report
the same changes of it and write the same values, whatever happens to the other fields.
-/

namespace CameraPanel

/-! ### Lanes -/

/-- What a step can be for one field. -/
inductive FieldStep where
  | edit (value : Option Double)
  | assignSynced (value : Double)
  | enqueue (value : Option Double)
  | digest

/-- All that the settings keep for one field. -/
structure Lane where
  cell : Cell .double
  edited : Bool
  /-- The results that wait for the next digest, oldest first. -/
  waiting : List (Option Double)

namespace Lane

/-- The cell once the waiting results are applied. -/
def drained (l : Lane) : Cell .double := l.waiting.head?.elim l.cell l.cell.hydrate

/-- The change that a digest finds. -/
def change? (l : Lane) : Option (Change .double) := if l.edited then l.drained.change? else none

def step (l : Lane) : FieldStep → Lane
  | .edit value => { l with cell := l.cell.assign value, edited := l.edited || l.cell.changes value }
  | .assignSynced value => { l with cell := l.cell.assignSynced value }
  | .enqueue value => { l with waiting := l.waiting ++ [value] }
  | .digest => ⟨if l.edited then l.drained.observe else l.drained, false, []⟩

def run (l : Lane) (steps : List FieldStep) : Lane := steps.foldl step l

/-- What comes out of some steps, if `out` says what comes out of each. -/
def trace {γ : Type} (out : Lane → FieldStep → List γ) (l : Lane) : List FieldStep → List γ
  | [] => []
  | st :: rest => out l st ++ trace out (l.step st) rest

/-- The changes that a step finds, if it is a digest. -/
def reports (l : Lane) : FieldStep → List (List (Change .double))
  | .digest => [l.change?.toList]
  | _ => []

/-- The values that a step sends to the remote side. -/
def sends (l : Lane) : FieldStep → List Double
  | .assignSynced value => [value]
  | .digest => l.change?.toList.map (·.new)
  | _ => []

private theorem run_append (l : Lane) (steps later : List FieldStep) :
    l.run (steps ++ later) = (l.run steps).run later :=
  List.foldl_append

private theorem trace_append {γ : Type} (out : Lane → FieldStep → List γ) (l : Lane) (steps later : List FieldStep) :
    l.trace out (steps ++ later) = l.trace out steps ++ (l.run steps).trace out later := by
  induction steps generalizing l with
  | nil => rfl
  | cons st rest ih =>
    rw [List.cons_append, trace, trace, ih, List.append_assoc]
    rfl

private theorem run_enqueue (l : Lane) (values : List (Option Double)) :
    l.run (values.map .enqueue) = { l with waiting := l.waiting ++ values } := by
  induction values generalizing l with
  | nil => simp [run]
  | cons value rest ih =>
    show (l.step (.enqueue value)).run (rest.map .enqueue) = _
    rw [ih]
    simp [step]

private theorem trace_sends_enqueue (l : Lane) (values : List (Option Double)) :
    l.trace sends (values.map .enqueue) = [] := by
  induction values generalizing l with
  | nil => rfl
  | cons value rest ih => exact ih _

end Lane

/-- What is kept for one key of a list of pairs. -/
private def valuesOf {α : Type} (k : Field) (l : List (Field × α)) : List α := (l.filter (·.1 = k)).map (·.2)

private theorem head?_valuesOf {α : Type} (k : Field) (l : List (Field × α)) : (valuesOf k l).head? = l.lookup k := by
  induction l with
  | nil => rfl
  | cons e rest ih =>
    obtain ⟨j, a⟩ := e
    by_cases hj : k = j
    · subst hj
      simp [valuesOf]
    · have hkj : (k == j) = false := beq_eq_false_iff_ne.2 hj
      rw [List.lookup_cons, hkj, ← ih]
      simp [valuesOf, Ne.symm hj]

private theorem valuesOf_filterMap {α : Type} (k : Field) {ks : List Field} (hks : ks.Nodup) (f : Field → Option α) :
    valuesOf k (ks.filterMap fun j => (f j).map fun a => (j, a)) = if k ∈ ks then (f k).toList else [] := by
  induction ks with
  | nil => rfl
  | cons j rest ih =>
    obtain ⟨hj, hrest⟩ := List.nodup_cons.1 hks
    by_cases hk : k = j
    · subst hk
      have htail : valuesOf k (rest.filterMap fun j => (f j).map fun a => (j, a)) = [] := by simp [ih hrest, hj]
      cases hf : f k with
      | none => simp [hf, htail]
      | some a => simpa [hf, valuesOf] using htail
    · have htail := ih hrest
      cases hf : f j with
      | none => simp [hf, htail, hk]
      | some a => simpa [hf, valuesOf, hk, Ne.symm hk] using htail

namespace Settings

variable {α β : Type}

/-! ### The lane of a field -/

/-- What a step means for a field. -/
def Step.about (k : Field) : Step α → Option FieldStep
  | .edit j value => if j = k then some (.edit value) else none
  | .assignSynced j value => if j = k then some (.assignSynced value) else none
  | .enqueue j value => if j = k then some (.enqueue value) else none
  | .digest => some .digest
  | .toggleVisible | .watch _ _ | .unwatch _ => none

def lane (s : Settings α) (k : Field) : Lane :=
  ⟨s.cells.get k, s.edited.contains k, (s.waiting.filter (·.1 = k)).map (·.2)⟩

/-- The changes of a field that a step finds, if it is a digest. -/
def reports (s : Settings α) (k : Field) : Step α → List (List (Change .double))
  | .digest => [(s.digest.2.changes.filter (·.1 = k)).map (·.2)]
  | _ => []

/-- The changes of a field that the digests among some steps find, digest by digest. -/
def changesOf (s : Settings α) (k : Field) : List (Step α) → List (List (Change .double))
  | [] => []
  | st :: rest => s.reports k st ++ (s.step st).changesOf k rest

private theorem lane_edit (s : Settings α) (j : Field) (value : Option Double) (k : Field) :
    (s.edit j value).lane k = if j = k then (s.lane k).step (.edit value) else s.lane k := by
  by_cases hj : j = k
  · subst hj
    have hcell : (s.edit j value).cells.get j = (s.cells.get j).assign value := by rw [get_edit, if_pos rfl]
    have hedited : (s.edit j value).edited.contains j = (s.edited.contains j || (s.cells.get j).changes value) := by
      cases hc : (s.cells.get j).changes value <;> simp [edit, hc]
    rw [if_pos rfl, lane, hcell, hedited]
    rfl
  · have hcell : (s.edit j value).cells.get k = s.cells.get k := by rw [get_edit, if_neg (Ne.symm hj)]
    have hedited : (s.edit j value).edited.contains k = s.edited.contains k := by
      cases hc : (s.cells.get j).changes value <;> simp [edit, hc, hj]
    rw [if_neg hj, lane, hcell, hedited]
    rfl

private theorem lane_assignSynced (s : Settings α) (j : Field) (value : Double) (k : Field) :
    (s.assignSynced j value).lane k = if j = k then (s.lane k).step (.assignSynced value) else s.lane k := by
  by_cases hj : j = k
  · subst hj
    have hcell : (s.assignSynced j value).cells.get j = (s.cells.get j).assignSynced value :=
      PerField.get_set_self _ _ _
    rw [if_pos rfl, lane, hcell]
    rfl
  · have hcell : (s.assignSynced j value).cells.get k = s.cells.get k := PerField.get_set_of_ne _ _ (Ne.symm hj)
    rw [if_neg hj, lane, hcell]
    rfl

/-- Results that come to wait go to the lanes of their fields. -/
private theorem lane_arrived (s : Settings α) (results : List (Field × Option Double)) (k : Field) :
    (s.after (.arrived results)).lane k =
      { s.lane k with waiting := (s.lane k).waiting ++ (results.filter (·.1 = k)).map (·.2) } := by
  simp [lane, after]

private theorem lane_enqueue (s : Settings α) (j : Field) (value : Option Double) (k : Field) :
    (s.enqueue j value).lane k = if j = k then (s.lane k).step (.enqueue value) else s.lane k := by
  have h : (s.enqueue j value).lane k = _ := s.lane_arrived [(j, value)] k
  rw [h]
  by_cases hj : j = k <;> simp [hj, Lane.step]

private theorem drained_lane (s : Settings α) (k : Field) : (s.lane k).drained = s.drained k := by
  have h : (s.lane k).waiting.head? = s.waiting.lookup k := head?_valuesOf k s.waiting
  rw [Lane.drained, h]
  rfl

private theorem mem_toList_edited (s : Settings α) (k : Field) : k ∈ s.edited.toList ↔ (s.lane k).edited = true := by
  simp [FieldSet.toList, Field.mem_all, lane]

private theorem lane_digest (s : Settings α) (k : Field) : s.digest.1.lane k = (s.lane k).step .digest := by
  have hcell : s.digest.1.cells.get k =
      if (s.lane k).edited then (s.lane k).drained.observe else (s.lane k).drained := by
    show (observeAll (applyReads s.cells s.waiting).1 s.edited.toList).1.get k = _
    rw [get_observeAll _ (FieldSet.nodup_toList _), get_applyReads, drained_lane]
    simp only [mem_toList_edited, drained]
  have hedited : s.digest.1.edited.contains k = false := FieldSet.contains_empty k
  rw [lane, hcell, hedited]
  rfl

private theorem changes_lane (s : Settings α) (k : Field) :
    (s.digest.2.changes.filter (·.1 = k)).map (·.2) = (s.lane k).change?.toList := by
  show valuesOf k (observeAll (applyReads s.cells s.waiting).1 s.edited.toList).2 = _
  rw [changes_observeAll _ (FieldSet.nodup_toList _), valuesOf_filterMap _ (FieldSet.nodup_toList _),
    get_applyReads, Lane.change?, drained_lane]
  by_cases he : (s.lane k).edited = true
  · rw [if_pos (by rwa [mem_toList_edited]), if_pos he]
    rfl
  · rw [if_neg (by rwa [mem_toList_edited]), if_neg he]
    rfl

/-! ### Runs and lanes -/

/-- A step moves the lane of a field by what it means for the field. -/
private theorem lane_step (s : Settings α) (st : Step α) (k : Field) :
    (s.step st).lane k = (s.lane k).run (st.about k).toList := by
  cases st with
  | edit j value =>
    rw [step, lane_edit]
    by_cases hj : j = k <;> simp [Step.about, hj, Lane.run]
  | assignSynced j value =>
    rw [step, lane_assignSynced]
    by_cases hj : j = k <;> simp [Step.about, hj, Lane.run]
  | enqueue j value =>
    rw [step, lane_enqueue]
    by_cases hj : j = k <;> simp [Step.about, hj, Lane.run]
  | digest => exact s.lane_digest k
  | _ => rfl

private theorem filterMap_about_cons (k : Field) (st : Step α) (rest : List (Step α)) :
    (st :: rest).filterMap (Step.about k) = (st.about k).toList ++ rest.filterMap (Step.about k) := by
  cases h : st.about k <;> simp [h]

private theorem lane_run (s : Settings α) (steps : List (Step α)) (k : Field) :
    (s.run steps).lane k = (s.lane k).run (steps.filterMap (Step.about k)) := by
  induction steps generalizing s with
  | nil => rfl
  | cons st rest ih =>
    rw [filterMap_about_cons, Lane.run_append, ← lane_step]
    exact ih (s.step st)

private theorem reports_lane (s : Settings α) (st : Step α) (k : Field) :
    s.reports k st = (s.lane k).trace Lane.reports (st.about k).toList := by
  cases st with
  | digest =>
    rw [reports, changes_lane]
    rfl
  | edit j value => by_cases hj : j = k <;> simp [reports, Step.about, hj, Lane.trace, Lane.reports]
  | assignSynced j value => by_cases hj : j = k <;> simp [reports, Step.about, hj, Lane.trace, Lane.reports]
  | enqueue j value => by_cases hj : j = k <;> simp [reports, Step.about, hj, Lane.trace, Lane.reports]
  | _ => rfl

private theorem changesOf_lane (s : Settings α) (steps : List (Step α)) (k : Field) :
    s.changesOf k steps = (s.lane k).trace Lane.reports (steps.filterMap (Step.about k)) := by
  induction steps generalizing s with
  | nil => rfl
  | cons st rest ih => rw [filterMap_about_cons, Lane.trace_append, ← lane_step, ← reports_lane, changesOf, ih]

/-- Two runs leave a field in the same state and report the same changes of it. -/
structure Alike (k : Field) (s : Settings α) (steps : List (Step α)) (s' : Settings β) (steps' : List (Step β)) :
    Prop where
  field : (s.run steps).field k = (s'.run steps').field k
  hydrated : (s.run steps).isHydrated k = (s'.run steps').isHydrated k
  changes : s.changesOf k steps = s'.changesOf k steps'

private theorem alike_of_about_eq {k : Field} (visible visible' : Bool) {steps : List (Step α)} {steps' : List (Step β)}
    (h : steps.filterMap (Step.about k) = steps'.filterMap (Step.about k)) :
    Alike k (new visible) steps (new visible') steps' := by
  have hlane : ((new visible : Settings α).run steps).lane k = ((new visible' : Settings β).run steps').lane k := by
    rw [lane_run, lane_run, h]
    rfl
  refine ⟨congrArg (·.cell.current) hlane, congrArg (·.cell.hydrated) hlane, ?_⟩
  rw [changesOf_lane, changesOf_lane, h]
  rfl

end Settings

/-! ### Panels and lanes -/

/-- What an event means for a field. -/
def PanelEvent.about (k : Field) : PanelEvent → List FieldStep
  | .edited j value => if j = k then [.edit value] else []
  | .arrived results => ((results.filter (·.1 = k)).map (·.2)).map .enqueue
  | .reset => [.assignSynced k.default]
  | .toggled => []
  | .digested => [.digest]

namespace Settings

private theorem lane_after (s : Settings α) (e : PanelEvent) (k : Field) :
    (s.after e).lane k = (s.lane k).run (e.about k) := by
  cases e with
  | edited j value =>
    rw [after, lane_edit]
    by_cases hj : j = k <;> simp [PanelEvent.about, hj, Lane.run]
  | arrived results =>
    rw [lane_arrived, PanelEvent.about, Lane.run_enqueue]
  | reset =>
    rw [lane, get_after_reset]
    rfl
  | toggled => rfl
  | digested => exact s.lane_digest k

private theorem OfPanel.sends_lane {s : Settings Unit} (h : s.OfPanel) (e : PanelEvent) (k : Field) :
    ((s.sends e).filter (·.1 = k)).map (·.2) = (s.lane k).trace Lane.sends (e.about k) := by
  cases e with
  | edited j value => by_cases hj : j = k <;> simp [sends, PanelEvent.about, hj, Lane.trace, Lane.sends]
  | arrived results => exact (Lane.trace_sends_enqueue _ _).symm
  | reset => cases k <;> rfl
  | toggled => rfl
  | digested =>
    have hchanges := s.changes_lane k
    rw [h.sends_eq_changes, List.filter_map, List.map_map]
    show ((s.digest.2.changes.filter (·.1 = k)).map fun c => c.2.new) = (s.lane k).change?.toList.map (·.new) ++ []
    rw [← hchanges, List.map_map, List.append_nil]
    rfl

end Settings

namespace Session

variable {ρ ρ' ε ε' : Type} [RemoteSide ρ] [RemoteSide ρ']

/-- What happens to a field in some steps. -/
def about (act : ε → ρ → ρ × List (Delivery Answer)) (s : Session ρ) (k : Field) (steps : List (Step ε)) :
    List FieldStep :=
  (s.events act steps).flatMap (PanelEvent.about k)

private theorem lane_play (act : ε → ρ → ρ × List (Delivery Answer)) (c : Component) (h : c.settings.OfPanel) (r : ρ)
    (p : Pool) (mounts : Nat) (steps : List (Step ε)) (k : Field) :
    ∃ c' r' p', (linked (some c) r p mounts).play act steps = linked (some c') r' p' mounts ∧
      c'.settings.lane k = (c.settings.lane k).run ((linked (some c) r p mounts).about act k steps) ∧
      (((linked (some c) r p mounts).written act steps).filter (·.1 = k)).map (·.2) =
        (c.settings.lane k).trace Lane.sends ((linked (some c) r p mounts).about act k steps) := by
  induction steps generalizing c r p with
  | nil => exact ⟨c, r, p, rfl, rfl, rfl⟩
  | cons st rest ih =>
    have hmounted : (linked (some c) r p mounts).Mounted := ⟨c, r, p, mounts, rfl, h⟩
    have habout : (linked (some c) r p mounts).about act k (st :: rest) =
        ((linked (some c) r p mounts).event st).about k ++
          ((linked (some c) r p mounts).step act st).about act k rest := rfl
    have hwritten : (linked (some c) r p mounts).written act (st :: rest) = _ := hmounted.written_append act [st] rest
    rw [written_step act c h, play_cons, play_nil, step_linked] at hwritten
    rw [step_linked] at habout
    obtain ⟨c', r', p', hplay, hlane, hsent⟩ :=
      ih { c with settings := c.settings.after ((linked (some c) r p mounts).event st) } (h.after _)
        (moved act c r p st).1 (moved act c r p st).2
    refine ⟨c', r', p', ?_, ?_, ?_⟩
    · rw [play_cons, step_linked, hplay]
    · rw [hlane, Settings.lane_after, habout, Lane.run_append]
    · rw [hwritten, List.filter_append, List.map_append, h.sends_lane, hsent, Settings.lane_after, habout,
        Lane.trace_append]

/-- Two runs of panels leave a field in the same state and write the same values of it, in the same order. -/
structure Alike (k : Field) (s : Session ρ) (act : ε → ρ → ρ × List (Delivery Answer)) (steps : List (Step ε))
    (s' : Session ρ') (act' : ε' → ρ' → ρ' × List (Delivery Answer)) (steps' : List (Step ε')) : Prop where
  field : (s.play act steps).field k = (s'.play act' steps').field k
  hydrated : (s.play act steps).isHydrated k = (s'.play act' steps').isHydrated k
  writes : ((s.written act steps).filter (·.1 = k)).map (·.2) = ((s'.written act' steps').filter (·.1 = k)).map (·.2)

private theorem alike_of_about_eq {k : Field} (act : ε → ρ → ρ × List (Delivery Answer))
    (act' : ε' → ρ' → ρ' × List (Delivery Answer)) (r : ρ) (r' : ρ') (visible visible' : Bool)
    {steps : List (Step ε)} {steps' : List (Step ε')}
    (h : (Session.new r visible).about act k steps = (Session.new r' visible').about act' k steps') :
    Alike k (Session.new r visible) act steps (Session.new r' visible') act' steps' := by
  obtain ⟨c, r₁, p, hplay, hlane, hsent⟩ :=
    lane_play act (.new 0 visible) (Component.ofPanel_new 0 visible) r .empty 1 steps k
  obtain ⟨c', r₁', p', hplay', hlane', hsent'⟩ :=
    lane_play act' (.new 0 visible') (Component.ofPanel_new 0 visible') r' .empty 1 steps' k
  have hstart : (Component.new 0 visible).settings.lane k = (Component.new 0 visible').settings.lane k := rfl
  have hsame : c.settings.lane k = c'.settings.lane k := by
    rw [hlane, hlane', hstart]
    exact congrArg _ h
  refine ⟨?_, ?_, ?_⟩
  · show ((linked (some (Component.new 0 visible)) r .empty 1).play act steps).field k =
      ((linked (some (Component.new 0 visible')) r' .empty 1).play act' steps').field k
    rw [hplay, hplay']
    exact congrArg (·.cell.current) hsame
  · show ((linked (some (Component.new 0 visible)) r .empty 1).play act steps).isHydrated k =
      ((linked (some (Component.new 0 visible')) r' .empty 1).play act' steps').isHydrated k
    rw [hplay, hplay']
    exact congrArg (·.cell.hydrated) hsame
  · refine hsent.trans (Eq.trans ?_ hsent'.symm)
    rw [hstart]
    exact congrArg _ h

end Session

/-! ### Order and insertion -/

/-- The results of a field do not depend on the order of results of different fields. -/
private theorem valuesOf_perm {α : Type} (k : Field) {l l' : List (Field × α)} (h : l.Perm l')
    (hl : (l.map Prod.fst).Nodup) : valuesOf k l = valuesOf k l' := by
  have hfilter : (l.filter (·.1 = k)).Perm (l'.filter (·.1 = k)) := h.filter _
  have hkeys : ((l.filter (·.1 = k)).map Prod.fst).Nodup := hl.sublist (List.filter_sublist.map _)
  have hk : ∀ e ∈ l.filter (·.1 = k), e.1 = k := fun e he => of_decide_eq_true (List.mem_filter.1 he).2
  unfold valuesOf
  generalize l.filter (·.1 = k) = own at hfilter hkeys hk ⊢
  -- There is at most one pair with the key.
  rcases own with _ | ⟨e, _ | ⟨e', rest⟩⟩
  · rw [List.nil_perm.1 hfilter]
  · rw [List.singleton_perm.1 hfilter]
  · have heq : e.1 = e'.1 := (hk e (by simp)).trans (hk e' (by simp)).symm
    simp [heq] at hkeys

namespace Settings

private theorem filterMap_about_enqueue {α : Type} (k : Field) (results : List (Field × Option Double)) :
    (results.map fun result => (Step.enqueue result.1 result.2 : Step α)).filterMap (Step.about k) =
      (valuesOf k results).map .enqueue := by
  induction results with
  | nil => rfl
  | cons result rest ih => by_cases hk : result.1 = k <;> simp_all [valuesOf, Step.about]

end Settings

/-- What a field holds, and what is reported and written of it, depends only on what happens to this field and on the
digests: for the settings by themselves, and for a panel on any remote side.  So results of different fields may come in
any order, and what happens to other fields, to the visibility or to the watchers may come in between. -/
theorem field_depends_on_its_own_steps (k : Field) :
    (∀ {α β : Type} (visible visible' : Bool) (steps : List (Settings.Step α)) (steps' : List (Settings.Step β)),
      steps.filterMap (Settings.Step.about k) = steps'.filterMap (Settings.Step.about k) →
      Settings.Alike k (.new visible) steps (.new visible') steps') ∧
    (∀ {α : Type} (visible : Bool) (before after : List (Settings.Step α))
      (results results' : List (Field × Option Double)), results.Perm results' → (results.map Prod.fst).Nodup →
      Settings.Alike k (.new visible) (before ++ results.map (fun result => .enqueue result.1 result.2) ++ after)
        (.new visible) (before ++ results'.map (fun result => .enqueue result.1 result.2) ++ after)) ∧
    (∀ {α : Type} (visible : Bool) (before inserted after : List (Settings.Step α)),
      (∀ st ∈ inserted, st.about k = none) →
      Settings.Alike k (.new visible) (before ++ inserted ++ after) (.new visible) (before ++ after)) ∧
    ∀ {ρ ρ' ε ε' : Type} [RemoteSide ρ] [RemoteSide ρ'] (act : ε → ρ → ρ × List (Delivery Answer))
      (act' : ε' → ρ' → ρ' × List (Delivery Answer)) (r : ρ) (r' : ρ') (visible visible' : Bool)
      (steps : List (Session.Step ε)) (steps' : List (Session.Step ε')),
      (Session.new r visible).about act k steps = (Session.new r' visible').about act' k steps' →
      Session.Alike k (.new r visible) act steps (.new r' visible') act' steps' := by
  refine ⟨?_, ?_, ?_, ?_⟩
  · intro α β visible visible' steps steps' h
    exact Settings.alike_of_about_eq visible visible' h
  · intro α visible before after results results' hperm hnodup
    apply Settings.alike_of_about_eq
    simp only [List.filterMap_append, Settings.filterMap_about_enqueue, valuesOf_perm k hperm hnodup]
  · intro α visible before inserted after hinserted
    apply Settings.alike_of_about_eq
    simp only [List.filterMap_append, List.filterMap_eq_nil_iff.2 hinserted, List.append_nil]
  · intro ρ ρ' ε ε' _ _ act act' r r' visible visible' steps steps' h
    exact Session.alike_of_about_eq act act' r r' visible visible' h

theorem posX_depends_on_its_own_steps :
    Settings.Alike .posX (.new true : Settings Unit)
      [.edit .posX none, .enqueue .posX (some (.ofInt 1)), .enqueue .rotZ none, .digest] (.new true : Settings Unit)
      [.edit .posX none, .enqueue .rotZ none, .enqueue .posX (some (.ofInt 1)), .digest] :=
  (field_depends_on_its_own_steps .posX).2.1 true [.edit .posX none] [.digest]
    [(.posX, some (.ofInt 1)), (.rotZ, none)] [(.rotZ, none), (.posX, some (.ofInt 1))] (List.Perm.swap _ _ _)
    (by decide)

end CameraPanel
