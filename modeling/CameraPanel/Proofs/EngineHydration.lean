import CameraPanel.Proofs.EngineSide
import CameraPanel.Proofs.ReplyNumbers
import CameraPanel.Proofs.Reset

/-!
# Hydration from the engine

A panel reads the six settings of an engine once.  Until the answers come nothing hydrates it, whatever is edited
(`Session.Awaiting`), and it writes nothing.  There are two ways for the answers to come: an engine that replies at once
has answered when the pool runs, and one that defers its replies answers when it is told to.  Either way all six answers
wait for the next digest (`Session.Arrived`), and the digest puts them in place of the edits.

What arrives is what the reply to a read is decoded as.  For a finite setting this is a finite number, but it need not
be the setting itself: the reader of replies does not round correctly.
-/

namespace CameraPanel

/-! ### Started reads -/

namespace Engine

/-- The answer to a read of a setting. -/
def answerFor (t : SettingTable) (k : Field) : Answer := answerOfReply (.ok (replyFor t k))

theorem answerFor_ofOffsets (seed : Offsets) (k : Field) :
    answerFor (.ofOffsets seed) k = Reply.decode (Reply.encode (seed.get k)) := by
  rw [answerFor, answerOfReply_replyFor, SettingTable.get?_ofOffsets]
  rfl

/-- The task of a read that the engine has answered. -/
def answeredTask (mount : Nat) (t : SettingTable) (k : Field) : ReadTask := ⟨mount, k, .now (answerFor t k)⟩

/-- The task of a read that the engine holds back under a ticket. -/
def heldTask (mount : Nat) (p : Field × Nat) : ReadTask := ⟨mount, p.1, .later p.2⟩

private theorem startReads_of_not_deferred {e : Engine} (h : e.deferred = false) (c : Component) (ks : List Field)
    (p : Pool) :
    (c.startReads ks e p).value =
      ({ e with history := e.history ++ ks.map readChunk, nextTicket := e.nextTicket + ks.length },
        { p with started := p.started ++ ks.map (answeredTask c.mount e.settings) }) := by
  induction ks generalizing e p with
  | nil => simp [Component.startReads]
  | cons k rest ih =>
    rw [Component.startReads, Logged.value_bind, read_of_not_deferred h]
    refine (ih (by exact h) _).trans ?_
    simp [Pool.start, answeredTask, answerFor, Nat.add_comm, Nat.add_left_comm]

private theorem startReads_of_deferred {e : Engine} (h : e.deferred = true) (c : Component) (ks : List Field) (p : Pool)
    :
    (c.startReads ks e p).value =
      ({ e with
          history := e.history ++ ks.map readChunk
          queued := e.queued ++ (ks.zipIdx e.nextTicket).map heldRead
          nextTicket := e.nextTicket + ks.length },
        { p with started := p.started ++ (ks.zipIdx e.nextTicket).map (heldTask c.mount) }) := by
  induction ks generalizing e p with
  | nil => simp [Component.startReads]
  | cons k rest ih =>
    rw [Component.startReads, Logged.value_bind, read_of_deferred h]
    refine (ih (by exact h) _).trans ?_
    simp [Pool.start, heldTask, Nat.add_comm, Nat.add_left_comm]

/-- The reads of all fields, each with the ticket that a new engine gives it. -/
def reads : List (Field × Nat) := Field.all.zipIdx

/-- The engine that has received the reads of all fields and nothing else. -/
def queried (t : SettingTable) (deferred : Bool) : Engine :=
  ⟨t, Field.all.map readChunk, deferred, if deferred then reads.map heldRead else [], 6⟩

/-- The pool while the reads of all fields are under way for the panel `mount`: they are answered, or the engine holds
them back and their tasks have run or not. -/
inductive UnderWay (t : SettingTable) (mount : Nat) : Bool → Pool → Prop
  | answered : UnderWay t mount false ⟨[], Field.all.map (answeredTask mount t), []⟩
  | started : UnderWay t mount true ⟨[], reads.map (heldTask mount), []⟩
  | parked : UnderWay t mount true ⟨[], [], reads.map (heldTask mount)⟩

private theorem readAll_new (t : SettingTable) (deferred : Bool) (c : Component) :
    ∃ p, (c.readAll (new t deferred) .empty).value = (queried t deferred, p) ∧ UnderWay t c.mount deferred p := by
  show ∃ p, (c.startReads Field.all (new t deferred) .empty).value = _ ∧ _
  cases deferred with
  | false => exact ⟨_, startReads_of_not_deferred rfl c Field.all .empty, .answered⟩
  | true => exact ⟨_, startReads_of_deferred rfl c Field.all .empty, .started⟩

/-- A run of the pool finishes no read that is held back. -/
private theorem UnderWay.run {t : SettingTable} {mount : Nat} {p : Pool} (h : UnderWay t mount true p) :
    UnderWay t mount true p.run.1 ∧ p.run.2 = [] := by
  cases h with
  | started => exact ⟨.parked, rfl⟩
  | parked => exact ⟨.parked, rfl⟩

private theorem serve_queried (t : SettingTable) (deferred : Bool) :
    serve .answerAll (queried t deferred) =
      ({ queried t deferred with queued := [] },
        (if deferred then reads else []).map fun p => ⟨p.2, answerFor t p.1⟩) := by
  cases deferred with
  | false => rfl
  | true =>
    rw [serve, flush_of_reads (e := queried t true) rfl]
    simp [answerFor, queried, Delivery.map]

private theorem deliverAll_started (t : SettingTable) (mount : Nat) :
    Pool.deliverAll ⟨[], reads.map (heldTask mount), []⟩ (reads.map fun p => ⟨p.2, answerFor t p.1⟩) =
      ⟨[], Field.all.map (answeredTask mount t), []⟩ := by
  simp [reads, Field.all, List.zipIdx, Pool.deliverAll, Pool.deliver, heldTask, ReadTask.awaits, ReadTask.answered,
    answeredTask]

private theorem deliverAll_parked (t : SettingTable) (mount : Nat) :
    Pool.deliverAll ⟨[], [], reads.map (heldTask mount)⟩ (reads.map fun p => ⟨p.2, answerFor t p.1⟩) =
      ⟨Field.all.map (answeredTask mount t), [], []⟩ := by
  simp [reads, Field.all, List.zipIdx, Pool.deliverAll, Pool.deliver, heldTask, ReadTask.awaits, ReadTask.answered,
    answeredTask]

/-- Once the engine has answered what it held back, a run of the pool finishes all reads. -/
private theorem UnderWay.run_answerAll {t : SettingTable} {mount : Nat} {deferred : Bool} {p : Pool}
    (h : UnderWay t mount deferred p) :
    (p.deliverAll (serve .answerAll (queried t deferred)).2).run.2 =
      Field.all.map fun k => ⟨mount, k, answerFor t k⟩ := by
  rw [serve_queried]
  cases h with
  | answered => rfl
  | started =>
    rw [if_pos rfl, deliverAll_started]
    rfl
  | parked =>
    rw [if_pos rfl, deliverAll_parked]
    rfl

end Engine

/-! ### Before the answers -/

namespace Settings

/-- No field is hydrated, and no results wait. -/
structure Bare (s : Settings Unit) : Prop where
  ofPanel : s.OfPanel
  unhydrated : ∀ k, s.isHydrated k = false
  waiting : s.waiting = []

private theorem Bare.quiet {s : Settings Unit} (h : s.Bare) (k : Field) : (s.cells.get k).Quiet :=
  Cell.quiet_of_not_hydrated (h.unhydrated k)

private theorem Bare.sends_eq_nil {s : Settings Unit} (h : s.Bare) : s.sends .digested = [] :=
  h.ofPanel.sends_eq_nil rfl h.quiet

private theorem bare_new (mount : Nat) (visible : Bool) : (Component.new mount visible).settings.Bare :=
  ⟨Component.ofPanel_new mount visible, Component.isHydrated_new mount visible, rfl⟩

private theorem Bare.edit {s : Settings Unit} (h : s.Bare) (k : Field) (value : Option Double) :
    (s.edit k value).Bare :=
  ⟨h.ofPanel.after (.edited k value), fun j => (s.kept_edit k j value).1.trans (h.unhydrated j), h.waiting⟩

private theorem Bare.arrived_nil {s : Settings Unit} (h : s.Bare) : (s.after (.arrived [])).Bare := by
  refine ⟨h.ofPanel.after _, h.unhydrated, ?_⟩
  rw [after, h.waiting, List.append_nil]

private theorem Bare.digest {s : Settings Unit} (h : s.Bare) : s.digest.1.Bare := by
  refine ⟨h.ofPanel.after .digested, fun k => ?_, rfl⟩
  rw [isHydrated, h.ofPanel.settled.get_digest, Cell.observe_of_quiet (quiet_drained (h.quiet k)), drained, h.waiting]
  exact h.unhydrated k

/-- A result for each field puts itself in place of what an unhydrated panel holds, and is not written back. -/
private theorem Bare.digest_results {s : Settings Unit} (h : s.Bare) (result : Field → Option Double) :
    let s' := s.after (.arrived (Field.all.map fun k => (k, result k)))
    s'.sends .digested = [] ∧
      ∀ k, (s'.after .digested).isHydrated k = true ∧ (s'.after .digested).field k = result k := by
  intro s'
  have hofPanel : s'.OfPanel := h.ofPanel.after _
  have hwaiting : s'.waiting = Field.all.map fun k => (k, result k) := by
    show s.waiting ++ _ = _
    rw [h.waiting, List.nil_append]
  refine ⟨hofPanel.sends_eq_nil rfl h.quiet, fun k => ?_⟩
  have hlookup : s'.waiting.lookup k = some (result k) := by
    rw [hwaiting]
    cases k <;> rfl
  have hcell : s'.digest.1.cells.get k = ⟨result k, result k, true⟩ := by
    rw [hofPanel.settled.get_digest, Cell.observe_of_quiet (quiet_drained (s := s') (h.quiet k)), drained, hlookup]
    exact Cell.hydrate_of_not_hydrated (h.unhydrated k) _
  show (s'.digest.1.cells.get k).hydrated = true ∧ (s'.digest.1.cells.get k).current = result k
  rw [hcell]
  exact ⟨rfl, rfl⟩

end Settings

namespace Session

variable {t : SettingTable} {deferred : Bool} {s : Session Engine}

/-- The panel has read all fields of an engine with the settings `t`, and nothing has come of it yet. -/
def Awaiting (t : SettingTable) (deferred : Bool) (s : Session Engine) : Prop :=
  ∃ c p mounts, s = linked (some c) (.queried t deferred) p mounts ∧ c.settings.Bare ∧
    Engine.UnderWay t c.mount deferred p

/-- Whether a step brings no answers and writes nothing as long as no field is hydrated. -/
def Step.idle (deferred : Bool) : Step Occasion → Bool
  | .edit _ _ | .toggle | .digest => true
  | .run => deferred
  | _ => false

theorem awaiting_readAll (t : SettingTable) (deferred visible : Bool) :
    ((Session.new (.new t deferred) visible).step Engine.serve .readAll).Awaiting t deferred := by
  obtain ⟨p, hreadAll, hreads⟩ := Engine.readAll_new t deferred (.new 0 visible)
  refine ⟨.new 0 visible, p, 1, ?_, Settings.bare_new 0 visible, hreads⟩
  show linked _ ((Component.new 0 visible).readAll (Engine.new t deferred) .empty).value.1
    ((Component.new 0 visible).readAll (Engine.new t deferred) .empty).value.2 1 = _
  rw [hreadAll]
  rfl

private theorem Awaiting.step (h : s.Awaiting t deferred) {st : Step Occasion} (hst : st.idle deferred = true) :
    (s.step Engine.serve st).Awaiting t deferred := by
  obtain ⟨c, p, mounts, rfl, hbare, hreads⟩ := h
  rw [step_linked]
  cases st with
  | edit k value => exact ⟨_, p, mounts, rfl, hbare.edit k value, hreads⟩
  | toggle => exact ⟨_, p, mounts, rfl, ⟨hbare.ofPanel.after .toggled, hbare.unhydrated, hbare.waiting⟩, hreads⟩
  | digest =>
    simp only [moved, hbare.sends_eq_nil]
    exact ⟨_, p, mounts, rfl, hbare.digest, hreads⟩
  | run =>
    obtain rfl : deferred = true := hst
    obtain ⟨hreads', hnone⟩ := hreads.run
    refine ⟨_, _, mounts, rfl, ?_, hreads'⟩
    show (c.settings.after (.arrived (arrivals c.mount p.run.2))).Bare
    rw [hnone]
    exact hbare.arrived_nil
  | _ => cases hst

theorem Awaiting.play (h : s.Awaiting t deferred) {steps : List (Step Occasion)}
    (hsteps : ∀ st ∈ steps, st.idle deferred = true) : (s.play Engine.serve steps).Awaiting t deferred := by
  induction steps generalizing s with
  | nil => exact h
  | cons st rest ih => exact ih (h.step (hsteps st (by simp))) fun st' hst' => hsteps st' (by simp [hst'])

theorem Awaiting.unhydrated (h : s.Awaiting t deferred) {c : Component} (hc : s.component = some c) (k : Field) :
    c.settings.isHydrated k = false := by
  obtain ⟨c', p, mounts, rfl, hbare, -⟩ := h
  obtain rfl : c' = c := Option.some.inj hc
  exact hbare.unhydrated k

theorem Awaiting.history (h : s.Awaiting t deferred) {e : Engine} (he : s.remote = some e) :
    e.history = Field.all.map readChunk := by
  obtain ⟨c, p, mounts, rfl, -, -⟩ := h
  obtain rfl : Engine.queried t deferred = e := Option.some.inj he
  rfl

private theorem digest_result_of_sends {c : Component} (hc : c.settings.OfPanel)
    (hsends : c.settings.sends .digested = [])
    (e : Engine) (p : Pool) (mounts : Nat) : (linked (some c) e p mounts).digest.value.2 = some 0 := by
  have hmounted : (linked (some c) e p mounts).Mounted := ⟨c, e, p, mounts, rfl, hc⟩
  have hwritten := written_step Engine.serve c hc e p mounts .digest
  rw [hmounted.digest_result Engine.serve, hwritten]
  exact congrArg (fun writes => some (List.length writes)) hsends

theorem Awaiting.digest_result (h : s.Awaiting t deferred) : s.digest.value.2 = some 0 := by
  obtain ⟨c, p, mounts, rfl, hbare, -⟩ := h
  exact digest_result_of_sends hbare.ofPanel hbare.sends_eq_nil _ p mounts

/-! ### The answers -/

/-- The results of the reads of all fields of an engine with the settings `t`. -/
def results (t : SettingTable) : List (Field × Option Double) :=
  Field.all.map fun k => (k, Answer.value (Engine.answerFor t k))

/-- The answers of an engine with the settings `t` wait for the next digest, and nothing was written so far. -/
def Arrived (t : SettingTable) (s : Session Engine) : Prop :=
  ∃ (c : Component) (settings : Settings Unit) (e : Engine) (p : Pool) (mounts : Nat),
    s = linked (some c) e p mounts ∧ e.settings = t ∧ e.history = Field.all.map readChunk ∧
      settings.Bare ∧ c.settings = settings.after (.arrived (results t))

/-- The panel holds the answers of an engine with the settings `t`, and nothing was written so far. -/
structure Hydrated (t : SettingTable) (s : Session Engine) : Prop where
  panel : ∃ c, s.component = some c ∧
    ∀ k, c.settings.isHydrated k = true ∧ c.settings.field k = Answer.value (Engine.answerFor t k)
  engine : ∃ e, s.remote = some e ∧ e.settings = t ∧ e.history = Field.all.map readChunk

private theorem arrivals_answers (mount : Nat) (t : SettingTable) :
    arrivals mount (Field.all.map fun k => ⟨mount, k, Engine.answerFor t k⟩) = results t := by
  have hfilter : (Field.all.map fun k => (⟨mount, k, Engine.answerFor t k⟩ : FinishedRead)).filter
      (fun f => mount = f.mount) = Field.all.map fun k => ⟨mount, k, Engine.answerFor t k⟩ := by
    simp [List.filter_eq_self]
  rw [arrivals, hfilter, List.map_map]
  rfl

private theorem arrived_run {c : Component} (hbare : c.settings.Bare) {e : Engine} (hsettings : e.settings = t)
    (hhistory : e.history = Field.all.map readChunk) {p : Pool} {mounts : Nat}
    (hrun : p.run.2 = Field.all.map fun k => ⟨c.mount, k, Engine.answerFor t k⟩) :
    ((linked (some c) e p mounts).step Engine.serve .run).Arrived t := by
  rw [step_linked]
  refine ⟨_, c.settings, e, _, mounts, rfl, hsettings, hhistory, hbare, ?_⟩
  show c.settings.after (.arrived (arrivals c.mount p.run.2)) = _
  rw [hrun, arrivals_answers]

/-- An engine that replies at once has answered when the pool runs. -/
private theorem Awaiting.run (h : s.Awaiting t false) : (s.step Engine.serve .run).Arrived t := by
  obtain ⟨c, p, mounts, rfl, hbare, ⟨⟩⟩ := h
  exact arrived_run (e := .queried t false) hbare rfl rfl rfl

/-- Once the engine is told to answer, the answers are there when the pool runs. -/
theorem Awaiting.run_answerAll (h : s.Awaiting t deferred) :
    (s.play Engine.serve [.remote .answerAll, .run]).Arrived t := by
  obtain ⟨c, p, mounts, rfl, hbare, hreads⟩ := h
  rw [play_cons, step_linked]
  refine arrived_run hbare.arrived_nil ?_ ?_ hreads.run_answerAll
  · rw [moved, Engine.serve_queried]
    rfl
  · rw [moved, Engine.serve_queried]
    rfl

theorem Arrived.digest_result (h : s.Arrived t) : s.digest.value.2 = some 0 := by
  obtain ⟨c, settings, e, p, mounts, rfl, -, -, hbare, hc⟩ := h
  have hofPanel : c.settings.OfPanel := hc ▸ hbare.ofPanel.after _
  have hsends : c.settings.sends .digested = [] := hc ▸ (hbare.digest_results _).1
  exact digest_result_of_sends hofPanel hsends e p mounts

theorem Arrived.digest (h : s.Arrived t) : (s.step Engine.serve .digest).Hydrated t := by
  obtain ⟨c, settings, e, p, mounts, rfl, hsettings, hhistory, hbare, hc⟩ := h
  obtain ⟨hsends, hfield⟩ := hbare.digest_results fun k => Answer.value (Engine.answerFor t k)
  have hsends' : c.settings.sends .digested = [] := hc ▸ hsends
  rw [step_linked]
  simp only [moved, hsends']
  refine ⟨⟨_, rfl, ?_⟩, e, rfl, hsettings, hhistory⟩
  rw [hc]
  exact hfield

/-- A panel on an engine with the settings `seed`.  All fields were read, some steps were done meanwhile, and the
answers were digested; an engine that defers its replies was told to answer before that. -/
def hydratedFrom (seed : Offsets) (deferred visible : Bool) (meanwhile : List (Step Occasion)) : Session Engine :=
  (Session.new (.new (.ofOffsets seed) deferred) visible).play Engine.serve
    (.readAll :: meanwhile ++ if deferred then [.remote .answerAll, .run, .digest] else [.run, .digest])

private theorem hydrated_hydratedFrom (seed : Offsets) (deferred visible : Bool) {meanwhile : List (Step Occasion)}
    (h : ∀ st ∈ meanwhile, st.idle deferred = true) :
    (hydratedFrom seed deferred visible meanwhile).Hydrated (.ofOffsets seed) := by
  have hawaiting := (awaiting_readAll (.ofOffsets seed) deferred visible).play h
  rw [hydratedFrom, List.cons_append, play_cons, play_append]
  cases deferred with
  | false => exact hawaiting.run.digest
  | true => exact hawaiting.run_answerAll.digest

theorem Hydrated.field (h : s.Hydrated t) (k : Field) : s.field k = Answer.value (Engine.answerFor t k) := by
  obtain ⟨c, hc, hpanel⟩ := h.panel
  rw [Session.field, hc]
  exact (hpanel k).2

theorem Hydrated.isHydrated (h : s.Hydrated t) {c : Component} (hc : s.component = some c) (k : Field) :
    c.settings.isHydrated k = true := by
  obtain ⟨c', hc', hpanel⟩ := h.panel
  obtain rfl : c = c' := Option.some.inj (hc.symm.trans hc')
  exact (hpanel k).1

theorem Hydrated.history (h : s.Hydrated t) {e : Engine} (he : s.remote = some e) :
    e.history = Field.all.map readChunk := by
  obtain ⟨e', he', -, hhistory⟩ := h.engine
  obtain rfl : e = e' := Option.some.inj (he.symm.trans he')
  exact hhistory

private theorem Hydrated.setting {seed : Offsets} (h : s.Hydrated (.ofOffsets seed)) (k : Field) :
    (s.remote.bind fun e => e.setting k.name) = some (seed.get k) := by
  obtain ⟨e, hremote, hsettings, -⟩ := h.engine
  rw [hremote, Option.bind_some, Engine.setting, hsettings, SettingTable.get?_ofOffsets]

/-- A panel that has read finite settings holds a finite number for each of them, namely what the reply is decoded as,
and the engine still has the setting.  The two are the same number exactly when the reader of replies gives the setting
back, and it does so when the text of the setting has few digits. -/
theorem hydration_faithful_iff (seed : Offsets) (hseed : ∀ k, (seed.get k).isFinite = true) (deferred visible : Bool)
    (meanwhile : List (Step Occasion)) (hmeanwhile : ∀ st ∈ meanwhile, st.idle deferred = true) (k : Field) :
    (((hydratedFrom seed deferred visible meanwhile).remote.bind fun e => e.setting k.name) = some (seed.get k)) ∧
      (∃ w : Double, w.isFinite = true ∧ (hydratedFrom seed deferred visible meanwhile).field k = some w ∧
        Reply.decode (Reply.encode (seed.get k)) = .ok (some w)) ∧
      ((hydratedFrom seed deferred visible meanwhile).field k = some (seed.get k) ↔ Reply.Faithful (seed.get k)) ∧
      (Reply.Short (seed.get k) → Reply.Faithful (seed.get k)) := by
  have hhydrated := hydrated_hydratedFrom seed deferred visible hmeanwhile
  obtain ⟨w, hfinite, hdecode⟩ := Reply.exists_decode_encode (hseed k)
  have hfield : (hydratedFrom seed deferred visible meanwhile).field k = some w := by
    rw [hhydrated.field, Engine.answerFor_ofOffsets, hdecode]
    rfl
  refine ⟨hhydrated.setting k, ⟨w, hfinite, hfield, hdecode⟩, ?_, Reply.faithful_of_short (hseed k)⟩
  rw [← Reply.decode_encode_iff (hseed k), hfield, hdecode]
  simp

theorem hydration_of_defaults :
    (∀ k, (Offsets.default.get k).isFinite = true) ∧
      (∀ st ∈ [(.run : Step Occasion), .digest], st.idle true = true) ∧
      (hydratedFrom .default true true [.run, .digest]).field .rotX = some (Format.double.nearest (15 / 2)) := by
  have hseed : ∀ k, (Offsets.default.get k).isFinite = true := by
    intro k
    cases k <;> decide +kernel
  have hidle : ∀ st ∈ [(.run : Step Occasion), .digest], st.idle true = true := by simp [Step.idle]
  obtain ⟨-, ⟨w, -, hfield, hdecode⟩, -⟩ := hydration_faithful_iff .default hseed true true [.run, .digest] hidle .rotX
  have hvalue : Reply.decode (Reply.encode (Offsets.default.get .rotX)) =
      .ok (some (Format.double.nearest (15 / 2))) := by
    rw [Reply.decode, Reply.encode, String.toList_ofList]
    decide +kernel
  rw [hdecode] at hvalue
  cases hvalue
  exact ⟨hseed, hidle, hfield⟩

/-- The default offsets, but for a first one that is written 9.435213363304253. -/
def sixteenDigits : Offsets := { Offsets.default with posX := Format.double.nearest (9435213363304253 / 10 ^ 15) }

/-- The panel has another last digit than the engine. -/
theorem hydration_loses_last_digit :
    (∀ k, (sixteenDigits.get k).isFinite = true) ∧
      ∀ deferred visible,
        (hydratedFrom sixteenDigits deferred visible []).field .posX =
            some (Format.double.nearest (9435213363304252 / 10 ^ 15)) ∧
          ((hydratedFrom sixteenDigits deferred visible []).remote.bind fun e => e.setting Field.posX.name) =
            some (Format.double.nearest (9435213363304253 / 10 ^ 15)) ∧
          (hydratedFrom sixteenDigits deferred visible []).field .posX ≠
            (hydratedFrom sixteenDigits deferred visible []).remote.bind fun e => e.setting Field.posX.name := by
  have hvalue : Reply.decode (Reply.encode (sixteenDigits.get .posX)) =
      .ok (some (Format.double.nearest (9435213363304252 / 10 ^ 15))) := by
    rw [Reply.decode, Reply.encode, String.toList_ofList]
    decide +kernel
  have hne : Format.double.nearest (9435213363304252 / 10 ^ 15) ≠ sixteenDigits.posX := by decide +kernel
  constructor
  · intro k
    cases k <;> decide +kernel
  · intro deferred visible
    have hhydrated := hydrated_hydratedFrom sixteenDigits deferred visible (List.forall_mem_nil _)
    have hfield : (hydratedFrom sixteenDigits deferred visible []).field .posX =
        some (Format.double.nearest (9435213363304252 / 10 ^ 15)) := by
      rw [hhydrated.field, Engine.answerFor_ofOffsets, hvalue]
      rfl
    refine ⟨hfield, hhydrated.setting .posX, ?_⟩
    rw [hfield, hhydrated.setting .posX]
    exact fun h => hne (Option.some.inj h)

end Session

end CameraPanel
